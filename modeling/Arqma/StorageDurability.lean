import Arqma.StorageServer

/-!
# What the storage server keeps across a restart

A value survives a restart if its namespace and key are names that a directory and a file can
have once they are encoded, and if the value with its header is within the size that loading
accepts. Every request that is answered with success has to meet this: the answer does not
depend on the file.
-/
namespace Arqma.Storage
open List FileSystem Option AList

variable {s : StorageServer} {name : Name} {r : KvRequest} {now : UInt64}

/-- An entry whose file can be written, and read again. -/
structure Storable (ns key : Name) (value : Bytes) : Prop where
  space : ns ≠ dot ∧ ns ≠ dotDot ∧ (urlEncode ns).length ≤ 255
  key : key ≠ dot ∧ key ≠ dotDot ∧ (urlEncode key).length ≤ 255
  value : value.length + 12 ≤ maxHttpBodyBytes

theorem urlEncode_eq_dot : urlEncode name = dot ↔ name = dot := urlEncode_injective.eq_iff' rfl

theorem urlEncode_eq_dotDot : urlEncode name = dotDot ↔ name = dotDot :=
  urlEncode_injective.eq_iff' rfl

theorem plainName_urlEncode : PlainName (urlEncode name) ↔
      name ≠ dot ∧ name ≠ dotDot ∧ (urlEncode name).length ≤ 255 := by
  constructor
  · exact fun h => ⟨mt urlEncode_eq_dot.mpr h.ne_dot, mt urlEncode_eq_dotDot.mpr h.ne_dotDot,
      h.length_le⟩
  · exact fun h => ⟨mt urlEncode_eq_dot.mp h.1, mt urlEncode_eq_dotDot.mp h.2.1, h.2.2⟩

namespace StorageServer

variable {dir : Location} {fs : FileSystem} {ns key : Name} {stored : Stored}

/-! ## Files below `kv` -/

/-- No file is in the way of `kv` and of the directories in it. -/
structure Clear (fs : FileSystem) (dir : Location) : Prop where
  above : ∀ loc bytes, loc <+: kvRoot dir → fs.nodeAt loc ≠ some (.file bytes)
  spaces : ∀ name bytes, fs.nodeAt (kvRoot dir ++ [name]) ≠ some (.file bytes)

section Persist

variable (hdir : ∀ name ∈ dir, PlainName name)

include hdir

theorem plainName_of_mem_kvRoot : ∀ name ∈ kvRoot dir, PlainName name := by
  intro name hname
  obtain hname | hname := mem_append.mp hname
  · exact hdir name hname
  · rw [mem_singleton.mp hname]
    decide

theorem plainName_of_mem_space (hns : PlainName (urlEncode ns)) :
    ∀ name ∈ kvRoot dir ++ [urlEncode ns], PlainName name := by
  intro name hname
  obtain hname | hname := mem_append.mp hname
  · exact plainName_of_mem_kvRoot hdir name hname
  · rwa [mem_singleton.mp hname]

theorem nodeAt_persistKv (hclear : Clear fs dir) (hns : PlainName (urlEncode ns))
    (hkey : PlainName (urlEncode key))
    (hfile : fs.nodeAt (kvRoot dir ++ [urlEncode ns] ++ [urlEncode key]) ≠ some .directory)
    (stored : Stored) (loc : Location) :
    (persistKv fs dir ns key stored).nodeAt loc =
      if loc = kvRoot dir ++ [urlEncode ns] ++ [urlEncode key] then
        some (.file (encodeStored stored))
      else if loc <+: kvRoot dir ++ [urlEncode ns] then some .directory
      else fs.nodeAt loc := by
  have hplain := plainName_of_mem_space hdir hns
  have hfree : ∀ loc bytes, loc <+: kvRoot dir ++ [urlEncode ns] →
      fs.nodeAt loc ≠ some (.file bytes) := by
    intro loc bytes hloc
    obtain rfl | hloc := prefix_concat_iff.mp hloc
    · exact hclear.spaces _ bytes
    · exact hclear.above loc bytes hloc
  obtain ⟨-, hmade⟩ := createDirectories_plain hplain hfree
  set made := (fs.createDirectories (kvRoot dir ++ [urlEncode ns])).1 with hmade_def
  have hspace : made.nodeAt (kvRoot dir ++ [urlEncode ns]) = some .directory := by
    rw [hmade, if_pos prefix_rfl]
  have hvacant : made.nodeAt (kvRoot dir ++ [urlEncode ns] ++ [urlEncode key]) ≠
      some .directory := by
    rw [hmade, if_neg]
    · exact hfile
    · intro h
      simpa using h.length_le
  obtain ⟨written, hput⟩ := put_eq_some (.file (encodeStored stored)) hspace hvacant
  have hwrite : made.writeFile (kvRoot dir ++ [urlEncode ns]) (urlEncode key)
      (encodeStored stored) = some written := by
    rw [writeFile, if_pos hkey, resolve_of_exists hplain hspace, bind_some, hput]
  rw [persistKv, ← hmade_def, hwrite, getD_some, nodeAt_put hput, hmade]

/-- Whatever the names, the only file two levels below `kv` that persisting a value can write
is the one under its encoded names. -/
theorem nodeAt_persistKv_file {d f : Name} {bytes : Bytes}
    (h : (persistKv fs dir ns key stored).nodeAt (kvRoot dir ++ [d] ++ [f]) = some (.file bytes)) :
    fs.nodeAt (kvRoot dir ++ [d] ++ [f]) = some (.file bytes) ∨
      (d = urlEncode ns ∧ f = urlEncode key ∧ PlainName d ∧ PlainName f) := by
  unfold persistKv at h
  cases hwrite : (fs.createDirectories (kvRoot dir ++ [urlEncode ns])).1.writeFile
      (kvRoot dir ++ [urlEncode ns]) (urlEncode key) (encodeStored stored) with
  | none =>
    simp only [hwrite, getD_none] at h
    exact .inl ((nodeAt_createDirectories_file _).mp h)
  | some written =>
    obtain ⟨hkey, loc, hloc, hnodes⟩ := writeFile_some hwrite
    simp only [hwrite, getD_some, hnodes] at h
    split_ifs at h with hsame
    · -- the file is written two levels below `kv` only if the namespace is a plain name
      obtain ⟨hsame, hf⟩ := append_inj' hsame rfl
      rw [resolve_concat, bind_eq_some_iff] at hloc
      obtain ⟨root, hroot, henter⟩ := hloc
      have hroot := resolve_plain (plainName_of_mem_kvRoot hdir) hroot
      obtain ⟨-, ⟨hplain, hnext⟩ | ⟨-, -, hlength⟩⟩ := enter_cases henter
      · grind [append_inj']
      · rw [← hsame, hroot] at hlength
        simp at hlength
    · exact .inl ((nodeAt_createDirectories_file _).mp h)

end Persist

/-! ## The invariant -/

/-- The files two levels below `kv` are those of the entries in memory, and these can all be
stored. -/
structure Stores (s : StorageServer) (dir : Location) : Prop where
  clear : Clear s.fs dir
  files : ∀ d f node, s.fs.nodeAt (kvRoot dir ++ [d] ++ [f]) = some node ↔
    ∃ ns key stored, s.values.lookup (ns, key) = some stored ∧ d = urlEncode ns ∧
      f = urlEncode key ∧ node = .file (encodeStored stored)
  storable : ∀ ns key stored, s.values.lookup (ns, key) = some stored →
    Storable ns key stored.value

theorem Stores.ne_directory (h : Stores s dir) (d f : Name) :
    s.fs.nodeAt (kvRoot dir ++ [d] ++ [f]) ≠ some .directory := by
  intro hnode
  obtain ⟨ns, key, stored, -, -, -, hfile⟩ := (h.files d f _).mp hnode
  cases hfile

theorem ne_file_of_above {loc : Location} {d f : Name} (h : loc <+: kvRoot dir) :
    loc ≠ kvRoot dir ++ [d] ++ [f] := by
  rintro rfl
  simpa using h.length_le

/-- An entry is set or removed, in memory and below `kv`. -/
theorem Stores.update {s s' : StorageServer} (h : Stores s dir) (ns key : Name)
    (entry : Option Stored) (hclear : Clear s'.fs dir)
    (hvalues : ∀ pair, s'.values.lookup pair =
      if pair = (ns, key) then entry else s.values.lookup pair)
    (hfiles : ∀ d f, s'.fs.nodeAt (kvRoot dir ++ [d] ++ [f]) =
      if d = urlEncode ns ∧ f = urlEncode key then
        entry.map fun stored => .file (encodeStored stored)
      else s.fs.nodeAt (kvRoot dir ++ [d] ++ [f]))
    (hstorable : ∀ stored ∈ entry, Storable ns key stored.value) : Stores s' dir where
  clear := hclear
  files d f node := by
    rw [hfiles]
    by_cases hsame : d = urlEncode ns ∧ f = urlEncode key
    · grind [map_eq_some_iff, urlEncode_injective]
    · rw [if_neg hsame, h.files]
      have hother : ∀ {ns' key'}, d = urlEncode ns' → f = urlEncode key' →
          s'.values.lookup (ns', key') = s.values.lookup (ns', key') := by
        rintro ns' key' rfl rfl
        rw [hvalues, if_neg]
        rintro ⟨⟩
        exact hsame ⟨rfl, rfl⟩
      grind
  storable ns' key' stored hlookup := by
    grind [h.storable]

section Steps

variable {s : StorageServer} (hset : s.dataDir = some dir) (hdir : ∀ name ∈ dir, PlainName name)

include hset hdir

theorem Stores.store (h : Stores s dir) (hstorable : Storable ns key stored.value) :
    Stores (s.store ns key stored) dir := by
  have hns := plainName_urlEncode.mpr hstorable.space
  have hkey := plainName_urlEncode.mpr hstorable.key
  have hfs : (s.store ns key stored).fs = persistKv s.fs dir ns key stored := by
    rw [StorageServer.store, hset]
    rfl
  have hnode := nodeAt_persistKv hdir h.clear hns hkey (h.ne_directory _ _) stored
  refine h.update ns key (some stored) ⟨fun loc bytes hloc => ?_, fun name bytes => ?_⟩
    (fun pair => ?_) (fun d f => ?_) (fun _ hmem => mem_some.mp hmem ▸ hstorable)
  · rw [hfs, hnode, if_neg (ne_file_of_above hloc), if_pos (hloc.trans (prefix_append _ _))]
    exact nofun
  · rw [hfs, hnode, if_neg (by simp)]
    split_ifs
    · exact nofun
    · exact h.clear.spaces name bytes
  · grind [store, lookup_insert, lookup_insert_ne]
  · simp [hfs, hnode]

theorem Stores.dropEntry (h : Stores s dir) (hns : PlainName (urlEncode ns))
    (hkey : PlainName (urlEncode key)) : Stores (s.dropEntry (ns, key)) dir := by
  have hfs : (s.dropEntry (ns, key)).fs =
      s.fs.removeFile (kvRoot dir ++ [urlEncode ns]) (urlEncode key) := by
    rw [StorageServer.dropEntry, hset]
    rfl
  have hnode := nodeAt_removeFile (plainName_of_mem_space hdir hns) hkey
    (h.ne_directory (urlEncode ns) (urlEncode key))
  refine h.update ns key none ⟨fun loc bytes hloc => ?_, fun name bytes => ?_⟩
    (fun pair => ?_) (fun d f => ?_) (fun _ hmem => by cases hmem)
  · rw [hfs, hnode, if_neg (ne_file_of_above hloc)]
    exact h.clear.above loc bytes hloc
  · rw [hfs, hnode, if_neg (by simp)]
    exact h.clear.spaces name bytes
  · grind [dropEntry, lookup_erase, lookup_erase_ne]
  · rw [hfs, hnode]
    simp

end Steps

theorem dataDir_foldl_dropEntry (s : StorageServer) (entries : List (Name × Name)) :
    (entries.foldl StorageServer.dropEntry s).dataDir = s.dataDir := by
  induction entries generalizing s with
  | nil => rfl
  | cons entry entries ih => exact ih (s.dropEntry entry)

theorem dataDir_handle (s : StorageServer) (r : KvRequest) :
    (s.handle r).1.dataDir = s.dataDir := by
  have hdrop : (s.dropExpired r.now).dataDir = s.dataDir := dataDir_foldl_dropEntry s _
  unfold handle
  dsimp only
  split_ifs
  · rfl
  · exact hdrop
  · split
    · unfold handlePut
      split_ifs <;> exact hdrop
    · unfold handleGet
      split
      · exact hdrop
      · split_ifs <;> exact hdrop
    · exact hdrop

theorem Stores.dropExpired (h : Stores s dir) (hset : s.dataDir = some dir)
    (hdir : ∀ name ∈ dir, PlainName name) (now : UInt64) : Stores (s.dropExpired now) dir := by
  have hfold : ∀ (entries : List (Name × Name)) (s : StorageServer), Stores s dir →
      s.dataDir = some dir →
      (∀ entry ∈ entries, PlainName (urlEncode entry.1) ∧ PlainName (urlEncode entry.2)) →
      Stores (entries.foldl StorageServer.dropEntry s) dir := by
    intro entries
    induction entries with
    | nil => exact fun s h _ _ => h
    | cons entry entries ih =>
      intro s h hset hplain
      obtain ⟨hns, hkey⟩ := hplain entry (by simp)
      exact ih (s.dropEntry entry) (h.dropEntry hset hdir hns hkey) hset
        (fun other hother => hplain other (by simp [hother]))
  refine hfold _ s h hset fun entry hentry => ?_
  obtain ⟨e, he, rfl⟩ := mem_map.mp hentry
  have hstorable := h.storable e.1.1 e.1.2 e.2 (mem_lookup_iff.mpr (mem_filter.mp he).1)
  exact ⟨plainName_urlEncode.mpr hstorable.space, plainName_urlEncode.mpr hstorable.key⟩

theorem handle_cases (h : Stores s dir) (hset : s.dataDir = some dir)
    (hdir : ∀ name ∈ dir, PlainName name) (r : KvRequest) :
    (∃ before expiry, Stores before dir ∧ before.dataDir = some dir ∧ s.handle r =
        (before.store (namespaceOf r) (keyOf r) ⟨r.body, expiry⟩, .noContent)) ∨
      ((s.handle r).2 ≠ .noContent ∧ Stores (s.handle r).1 dir) := by
  have hcurrent := h.dropExpired hset hdir r.now
  have hcurrentSet : (s.dropExpired r.now).dataDir = some dir :=
    (dataDir_foldl_dropEntry s _).trans hset
  unfold handle
  dsimp only
  split_ifs
  · exact .inr ⟨nofun, h⟩
  · exact .inr ⟨nofun, hcurrent⟩
  · split
    · grind [handlePut]
    · unfold handleGet
      split
      · exact .inr ⟨nofun, hcurrent⟩
      · next stored hlookup =>
        split_ifs
        · have hstorable := hcurrent.storable _ _ _ hlookup
          exact .inr ⟨nofun, hcurrent.dropEntry hcurrentSet hdir
            (plainName_urlEncode.mpr hstorable.space) (plainName_urlEncode.mpr hstorable.key)⟩
        · exact .inr ⟨nofun, hcurrent⟩
    · exact .inr ⟨nofun, hcurrent⟩

/-! ## Loading -/

/-- A file that loading reads as the value of an entry. -/
def LoadedFrom (fs : FileSystem) (dir : Location) (now : UInt64) (ns key : Name)
    (stored : Stored) : Prop :=
  ∃ d f bytes, fs.nodeAt (kvRoot dir ++ [d] ++ [f]) = some (.file bytes) ∧ urlDecode d = ns ∧
    urlDecode f = key ∧ bytes.length ≤ maxHttpBodyBytes ∧
      (decodeStored bytes).expired now = false ∧ decodeStored bytes = stored

/-- One file leaves the values as they are or sets the one that its names decode to. -/
theorem loadFile_values (now : UInt64) (root : Location) (space : Name) (acc : Values × FileSystem)
    (entry : Name × FsNode) :
    (loadFile now root space acc entry).1 = acc.1 ∨
      ∃ bytes, entry.2 = .file bytes ∧ bytes.length ≤ maxHttpBodyBytes ∧
        (decodeStored bytes).expired now = false ∧
        (loadFile now root space acc entry).1 =
          acc.1.insert (urlDecode space, urlDecode entry.1) (decodeStored bytes) := by
  unfold loadFile
  grind

/-- What is loaded comes from a file. -/
theorem loadedFrom_of_lookup
    (h : (loadDisk fs dir now).1.lookup (ns, key) = some stored) :
    LoadedFrom fs dir now ns key stored := by
  let Sourced (acc : Values × FileSystem) : Prop := ∀ ns key stored,
    acc.1.lookup (ns, key) = some stored → LoadedFrom fs dir now ns key stored
  have hfile : ∀ space, ∀ acc, Sourced acc → ∀ entry ∈ fs.children (kvRoot dir ++ [space]),
        Sourced (loadFile now (kvRoot dir) space acc entry) := by
    intro space acc hacc entry hentry ns key stored hlookup
    obtain hsame | ⟨bytes, hbytes, hlength, hlive, hset⟩ :=
      loadFile_values now (kvRoot dir) space acc entry
    · rw [hsame] at hlookup
      exact hacc ns key stored hlookup
    · rw [hset] at hlookup
      by_cases hpair : (ns, key) = (urlDecode space, urlDecode entry.1)
      · rw [hpair, lookup_insert] at hlookup
        cases hlookup
        cases hpair
        refine ⟨space, entry.1, bytes, ?_, rfl, rfl, hlength, hlive, rfl⟩
        rw [← hbytes]
        exact mem_children.mp hentry
      · rw [lookup_insert_ne hpair] at hlookup
        exact hacc ns key stored hlookup
  have hspace : ∀ acc, Sourced acc → ∀ entry ∈ fs.children (kvRoot dir),
      Sourced (loadSpace now fs (kvRoot dir) acc entry) := by
    intro acc hacc entry _
    unfold loadSpace
    split
    · exact hacc
    · exact List.foldlRecOn _ _ hacc (hfile entry.1)
  exact List.foldlRecOn (motive := Sourced) _ _ (fun _ _ _ h => by simp at h) hspace
    ns key stored h

/-- A file that is not too large and not expired is loaded. -/
theorem lookup_of_loadedFrom (h : LoadedFrom fs dir now ns key stored) :
    ((loadDisk fs dir now).1.lookup (ns, key)).isSome = true := by
  obtain ⟨d, f, bytes, hnode, rfl, rfl, hlength, hlive, -⟩ := h
  let Present (acc : Values × FileSystem) : Prop :=
    (acc.1.lookup (urlDecode d, urlDecode f)).isSome = true
  have hfile : ∀ space acc, Present acc → ∀ entry,
      Present (loadFile now (kvRoot dir) space acc entry) := by
    intro space acc hacc entry
    obtain hsame | ⟨bytes, -, -, -, hset⟩ := loadFile_values now (kvRoot dir) space acc entry
    · exact (congrArg (fun values => (AList.lookup _ values).isSome = true) hsame).mpr hacc
    · change (AList.lookup _ _).isSome = true
      rw [hset]
      by_cases hpair : (urlDecode d, urlDecode f) = (urlDecode space, urlDecode entry.1)
      · rw [hpair, lookup_insert]
        rfl
      · rw [lookup_insert_ne hpair]
        exact hacc
  have hspace : ∀ acc, Present acc → ∀ entry,
      Present (loadSpace now fs (kvRoot dir) acc entry) := by
    intro acc hacc entry
    unfold loadSpace
    split
    · exact hacc
    · exact List.foldlRecOn _ _ hacc fun acc hacc entry _ => hfile _ acc hacc entry
  -- the file is met in the directory of its namespace, and later files keep its value
  have hmet : ∀ acc, Present (loadSpace now fs (kvRoot dir) acc (d, .directory)) := by
    intro acc
    obtain ⟨before, after, hsplit⟩ := append_of_mem (mem_children.mpr hnode)
    simp only [loadSpace, hsplit, foldl_append, foldl_cons]
    refine List.foldlRecOn _ _ ?_ fun acc hacc entry _ => hfile _ acc hacc entry
    change (AList.lookup _ _).isSome = true
    simp [loadFile, not_lt.mpr hlength, hlive]
  obtain ⟨before, after, hsplit⟩ := append_of_mem (mem_children.mpr (nodeAt_parent hnode))
  rw [loadDisk, hsplit, foldl_append, foldl_cons]
  exact List.foldlRecOn (motive := Present) _ _ (hmet _) fun acc hacc entry _ =>
    hspace acc hacc entry

/-! ## Durability -/

/-- The entries in memory are on disk: each in a file strictly below `kv`, different ones in
different files, and a fresh server loads those that have not expired. -/
structure Durable (s : StorageServer) (dir : Location) : Prop where
  confined : ∀ ns key stored, s.values.lookup (ns, key) = some stored →
    ∃ rest, rest ≠ [] ∧
      s.fs.resolve (kvRoot dir ++ [urlEncode ns] ++ [urlEncode key]) =
        some (kvRoot dir ++ rest) ∧
      s.fs.nodeAt (kvRoot dir ++ rest) = some (.file (encodeStored stored))
  distinct : ∀ ns key ns' key', s.values.lookup (ns, key) ≠ none →
    s.values.lookup (ns', key') ≠ none →
    s.fs.resolve (kvRoot dir ++ [urlEncode ns] ++ [urlEncode key]) =
      s.fs.resolve (kvRoot dir ++ [urlEncode ns'] ++ [urlEncode key']) →
    (ns, key) = (ns', key')
  reload : ∀ now ns key, (loadDisk s.fs dir now).1.lookup (ns, key) =
    (s.values.lookup (ns, key)).filter fun stored => !stored.expired now

theorem Stores.resolve (h : Stores s dir) (hdir : ∀ name ∈ dir, PlainName name)
    (hlookup : s.values.lookup (ns, key) = some stored) :
    s.fs.resolve (kvRoot dir ++ [urlEncode ns] ++ [urlEncode key]) =
        some (kvRoot dir ++ [urlEncode ns] ++ [urlEncode key]) ∧
      s.fs.nodeAt (kvRoot dir ++ [urlEncode ns] ++ [urlEncode key]) =
        some (.file (encodeStored stored)) := by
  have hstorable := h.storable ns key stored hlookup
  have hfile := (h.files (urlEncode ns) (urlEncode key) _).mpr
    ⟨ns, key, stored, hlookup, rfl, rfl, rfl⟩
  refine ⟨resolve_of_exists (fun name hname => ?_) hfile, hfile⟩
  obtain hname | hname := mem_append.mp hname
  · exact plainName_of_mem_space hdir (plainName_urlEncode.mpr hstorable.space) name hname
  · rw [mem_singleton.mp hname]
    exact plainName_urlEncode.mpr hstorable.key

/-- The files are exactly those of the entries, so that loading finds exactly these. -/
theorem Stores.loadedFrom_iff (h : Stores s dir) (now : UInt64) :
    LoadedFrom s.fs dir now ns key stored ↔
      s.values.lookup (ns, key) = some stored ∧ stored.expired now = false := by
  constructor
  · rintro ⟨d, f, bytes, hnode, rfl, rfl, -, hlive, rfl⟩
    grind [decodeStored_encodeStored, urlDecode_urlEncode, h.files]
  · rintro ⟨hlookup, hlive⟩
    have hstorable := h.storable ns key stored hlookup
    refine ⟨urlEncode ns, urlEncode key, encodeStored stored,
      (h.files _ _ _).mpr ⟨ns, key, stored, hlookup, rfl, rfl, rfl⟩, urlDecode_urlEncode ns,
      urlDecode_urlEncode key, ?_, ?_, decodeStored_encodeStored stored⟩
    · have hvalue := hstorable.value
      rw [length_encodeStored]
      omega
    · rwa [decodeStored_encodeStored]

theorem Stores.durable (h : Stores s dir) (hdir : ∀ name ∈ dir, PlainName name) :
    Durable s dir where
  confined ns key stored hlookup := by
    obtain ⟨hresolve, hfile⟩ := h.resolve hdir hlookup
    rw [append_assoc] at hresolve hfile
    exact ⟨_, by simp, by rw [append_assoc]; exact hresolve, hfile⟩
  distinct ns key ns' key' hns hns' hsame := by
    obtain ⟨stored, hstored⟩ := ne_none_iff_exists'.mp hns
    obtain ⟨stored', hstored'⟩ := ne_none_iff_exists'.mp hns'
    grind [(h.resolve hdir hstored).1, (h.resolve hdir hstored').1, urlEncode_injective,
      append_inj']
  reload now ns key := by
    refine ext fun stored => ?_
    rw [filter_eq_some_iff, Bool.not_eq_true', ← h.loadedFrom_iff now]
    refine ⟨loadedFrom_of_lookup, fun hloaded => ?_⟩
    obtain ⟨stored', hstored'⟩ := isSome_iff_exists.mp (lookup_of_loadedFrom hloaded)
    have hsame := ((h.loadedFrom_iff now).mp (loadedFrom_of_lookup hstored')).1
    rw [((h.loadedFrom_iff now).mp hloaded).1] at hsame
    rw [hstored', ← hsame]

/-- A value that is set and can be loaded is one that can be stored. -/
theorem storable_of_durable (h : Stores s dir) (hset : s.dataDir = some dir)
    (hdir : ∀ name ∈ dir, PlainName name) (hdurable : Durable (s.store ns key stored) dir) :
    Storable ns key stored.value := by
  have hfs : (s.store ns key stored).fs = persistKv s.fs dir ns key stored := by
    rw [StorageServer.store, hset]
    rfl
  -- nothing has expired at time zero
  have hlookup : (loadDisk (s.store ns key stored).fs dir 0).1.lookup (ns, key) = some stored := by
    rw [hdurable.reload, StorageServer.store, lookup_insert, filter_some, if_pos]
    simp [Stored.expired]
  obtain ⟨d, f, bytes, hnode, hns, hkey, hlength, -, -⟩ := loadedFrom_of_lookup hlookup
  rw [hfs] at hnode
  have hplain : d = urlEncode ns ∧ f = urlEncode key ∧ PlainName d ∧ PlainName f := by
    obtain hold | hnew := nodeAt_persistKv_file hdir hnode
    · obtain ⟨ns', key', stored', hlookup', rfl, rfl, -⟩ := (h.files d f _).mp hold
      have hstorable := h.storable ns' key' stored' hlookup'
      grind [urlDecode_urlEncode, plainName_urlEncode.mpr, hstorable.space, hstorable.key]
    · exact hnew
  obtain ⟨rfl, rfl, hspace, hname⟩ := hplain
  rw [nodeAt_persistKv hdir h.clear hspace hname (h.ne_directory _ _) stored, if_pos rfl] at hnode
  cases hnode
  rw [length_encodeStored] at hlength
  exact ⟨plainName_urlEncode.mp hspace, plainName_urlEncode.mp hname, by omega⟩

/-- A run in which every request that is answered with success asks for an entry that can be
stored. -/
def StorableRun : StorageServer → List KvRequest → Prop
  | _, [] => True
  | s, r :: requests =>
    ((s.handle r).2 = .noContent → Storable (namespaceOf r) (keyOf r) r.body) ∧
      StorableRun (s.handle r).1 requests

theorem Stores.handle (h : Stores s dir) (hset : s.dataDir = some dir)
    (hdir : ∀ name ∈ dir, PlainName name)
    (hstorable : (s.handle r).2 = .noContent → Storable (namespaceOf r) (keyOf r) r.body) :
    Stores (s.handle r).1 dir := by
  obtain ⟨before, expiry, hbefore, hbeforeSet, hhandle⟩ | ⟨-, hafter⟩ := handle_cases h hset hdir r
  · rw [hhandle] at hstorable ⊢
    exact hbefore.store hbeforeSet hdir (hstorable rfl)
  · exact hafter

theorem storable_of_durable_handle (h : Stores s dir) (hset : s.dataDir = some dir)
    (hdir : ∀ name ∈ dir, PlainName name) (hdurable : Durable (s.handle r).1 dir)
    (hanswer : (s.handle r).2 = .noContent) :
    Storable (namespaceOf r) (keyOf r) r.body := by
  obtain ⟨before, expiry, hbefore, hbeforeSet, hhandle⟩ | ⟨hother, -⟩ := handle_cases h hset hdir r
  · rw [hhandle] at hdurable
    exact storable_of_durable hbefore hbeforeSet hdir hdurable
  · exact absurd hanswer hother

theorem Stores.durable_iff (h : Stores s dir) (hset : s.dataDir = some dir)
    (hdir : ∀ name ∈ dir, PlainName name) (requests : List KvRequest) :
    (∀ earlier later, requests = earlier ++ later → Durable (s.after earlier) dir) ↔
      StorableRun s requests := by
  induction requests generalizing s with
  | nil =>
    grind [after, StorableRun, append_eq_nil_iff.mp, h.durable]
  | cons r requests ih =>
    have hset' : (s.handle r).1.dataDir = some dir := (dataDir_handle s r).trans hset
    constructor
    · intro hdurable
      have hstorable := storable_of_durable_handle h hset hdir
        (hdurable [r] requests rfl)
      refine ⟨hstorable, (ih (h.handle hset hdir hstorable) hset').mp ?_⟩
      rintro earlier later rfl
      exact hdurable (r :: earlier) later rfl
    · rintro ⟨hstorable, hrest⟩ earlier later hsplit
      cases earlier <;> grind [after, h.durable, h.handle]

/-- A server without entries whose data directory can be used and has no `kv` yet. -/
structure Fresh (s : StorageServer) (dir : Location) : Prop where
  dataDir : s.dataDir = some dir
  plain : ∀ name ∈ dir, PlainName name
  above : ∀ loc bytes, loc <+: dir → s.fs.nodeAt loc ≠ some (.file bytes)
  root : s.fs.nodeAt (kvRoot dir) = none
  values : s.values = ∅

theorem Fresh.stores (h : Fresh s dir) : Stores s dir := by
  have hbelow : ∀ rest, rest ≠ [] → s.fs.nodeAt (kvRoot dir ++ rest) = none := by
    intro rest hrest
    by_contra hnode
    obtain ⟨node, hnode⟩ := ne_none_iff_exists'.mp hnode
    have hroot := nodeAt_above hnode hrest
    rw [h.root] at hroot
    cases hroot
  refine ⟨⟨fun loc bytes hloc => ?_, fun name bytes => ?_⟩, fun d f node => ?_,
    fun ns key stored hlookup => ?_⟩
  · obtain rfl | hloc := prefix_concat_iff.mp hloc
    · rw [← kvRoot, h.root]
      exact nofun
    · exact h.above loc bytes hloc
  · rw [hbelow [name] (by simp)]
    exact nofun
  · rw [append_assoc, hbelow ([d] ++ [f]) (by simp), h.values]
    simp
  · rw [h.values] at hlookup
    simp at hlookup

/-- For every sequence of requests to a fresh server: at every point of it what is in memory
is on disk, in files of its own strictly below `kv`, and is loaded again unless it has
expired, if and only if every request answered with success asked for an entry that can be
stored. -/
theorem kv_durable_iff_storable (s : StorageServer) (dir : Location) (hfresh : Fresh s dir)
    (requests : List KvRequest) :
    (∀ earlier later, requests = earlier ++ later → Durable (s.after earlier) dir) ↔
      StorableRun s requests :=
  hfresh.stores.durable_iff hfresh.dataDir hfresh.plain requests

section Sample

instance (ns key : Name) (value : Bytes) : Decidable (Storable ns key value) :=
  decidable_of_iff
    ((ns ≠ dot ∧ ns ≠ dotDot ∧ (urlEncode ns).length ≤ 255) ∧
      (key ≠ dot ∧ key ≠ dotDot ∧ (urlEncode key).length ≤ 255) ∧
      value.length + 12 ≤ maxHttpBodyBytes)
    ⟨fun h => ⟨h.1, h.2.1, h.2.2⟩, fun h => ⟨h.space, h.key, h.value⟩⟩

instance decidableStorableRun :
    ∀ (requests : List KvRequest) (s : StorageServer), Decidable (StorableRun s requests)
  | [], _ => inferInstanceAs (Decidable True)
  | r :: requests, s =>
    have := decidableStorableRun requests (s.handle r).1
    inferInstanceAs (Decidable
      (((s.handle r).2 = .noContent → Storable (namespaceOf r) (keyOf r) r.body) ∧
        StorableRun (s.handle r).1 requests))

def sampleDir : Location := [asciiBytes "data"]

/-- A server with an empty file system. -/
def sampleServer : StorageServer where
  dataDir := some sampleDir

theorem sampleServer_fresh : Fresh sampleServer sampleDir where
  dataDir := rfl
  plain := by decide
  above loc bytes hloc := by
    by_cases hnil : loc = []
    · rw [hnil]
      exact nofun
    · rw [nodeAt_of_ne_nil hnil]
      exact nofun
  root := rfl
  values := rfl

/-- A request to set a value. -/
def putRequest (now : UInt64) (ns key : Name) (extra : String) (body : Bytes) : KvRequest where
  now
  method := .put
  query := asciiBytes "ns=" ++ urlEncode ns ++ asciiBytes "&key=" ++ urlEncode key ++
    asciiBytes extra
  body

/-- Two namespaces, one of them with characters that are encoded, and a value that expires. -/
def ordinaryRequests : List KvRequest :=
  [putRequest 100 (asciiBytes "a/b") (asciiBytes "..x") "" [1, 2],
    putRequest 101 (asciiBytes "inbox") (asciiBytes "k+") "&ttl=60" [3],
    putRequest 102 (asciiBytes "a/b") (asciiBytes "..x") "" [4],
    ⟨200, .get, asciiBytes "ns=inbox&key=k%2b", []⟩]

theorem ordinaryRequests_durable :
    (sampleServer.after ordinaryRequests).values.entries.length = 1 ∧
      Durable (sampleServer.after ordinaryRequests) sampleDir :=
  ⟨by decide,
    (kv_durable_iff_storable sampleServer sampleDir sampleServer_fresh ordinaryRequests).mpr
      (by decide) ordinaryRequests [] (by simp)⟩

/-- A namespace of two dots is written outside `kv` and not loaded. -/
def escapingRequest : KvRequest := putRequest 100 dotDot (asciiBytes "x") "" [1]

/-- A key of a hundred bytes that are all encoded has a name that is too long for a file. -/
def longKeyRequest : KvRequest :=
  putRequest 100 (asciiBytes "a") (List.replicate 100 255) "" [1]

theorem stored_value_lost :
    ((sampleServer.handle escapingRequest).2 = .noContent ∧
      (sampleServer.handle escapingRequest).1.fs.nodeAt (sampleDir ++ [asciiBytes "x"]) =
        some (.file (encodeStored ⟨[1], 0⟩)) ∧
      ¬Durable (sampleServer.handle escapingRequest).1 sampleDir) ∧
    (sampleServer.handle longKeyRequest).2 = .noContent ∧
      ¬Durable (sampleServer.handle longKeyRequest).1 sampleDir := by
  refine ⟨⟨by decide +kernel, by decide +kernel, fun hdurable => ?_⟩, by decide +kernel,
    fun hdurable => ?_⟩
  · have hreload := hdurable.reload 100 dotDot (asciiBytes "x")
    revert hreload
    decide
  · have hreload := hdurable.reload 100 (asciiBytes "a") (List.replicate 100 255)
    revert hreload
    decide +kernel

end Sample

end StorageServer
end Arqma.Storage
