import Arqma.GossipRound
import Arqma.StorageDurability

/-!
# Restarts of the storage server

A server that stops and starts again has only the values that it loads. No client notices:
wherever restarts happen, every answer is the one of a server that was never stopped.
-/
namespace Arqma.Storage.StorageServer
open FileSystem List

variable {s t : StorageServer} {fs : FileSystem} {dir : Location} {now : UInt64} {r : KvRequest}

/-- A stop and a start at some time. -/
def restart (s : StorageServer) (now : UInt64) : StorageServer :=
  match s.dataDir with
  | none => { s with values := ∅ }
  | some dir => { s with values := (loadDisk s.fs dir now).1, fs := (loadDisk s.fs dir now).2 }

/-! ## Files that loading removes -/

def expiredFiles (fs : FileSystem) (dir : Location) (now : UInt64) : List Location :=
  (fs.children (kvRoot dir)).flatMap fun space =>
    match space.2 with
    | .file _ => []
    | .directory => (fs.children (kvRoot dir ++ [space.1])).flatMap fun entry =>
      match entry.2 with
      | .directory => []
      | .file bytes =>
        if bytes.length ≤ maxHttpBodyBytes ∧ (decodeStored bytes).expired now then
          [kvRoot dir ++ [space.1] ++ [entry.1]]
        else []

theorem snd_foldl {α β γ δ : Type} {step : β × γ → α → β × γ} {g : α → List δ} {remove : γ → δ → γ}
    (h : ∀ acc a, (step acc a).2 = (g a).foldl remove acc.2) (l : List α) (acc : β × γ) :
    (l.foldl step acc).2 = (l.flatMap g).foldl remove acc.2 := by
  induction l generalizing acc with
  | nil => rfl
  | cons a l ih => rw [foldl_cons, ih, h, flatMap_cons, foldl_append]

theorem loadDisk_snd : (loadDisk fs dir now).2 = (expiredFiles fs dir now).foldl removeNode fs := by
  refine snd_foldl (fun acc ⟨space, node⟩ => ?_) _ (∅, fs)
  cases node with
  | file => rfl
  | directory =>
    refine snd_foldl (fun acc entry => ?_) _ acc
    unfold loadFile
    grind

theorem nodeAt_foldl_removeNode {locs : List Location}
    (h : ∀ loc ∈ locs, fs.nodeAt loc ≠ some .directory) (other : Location) :
    (locs.foldl removeNode fs).nodeAt other = if other ∈ locs then none else fs.nodeAt other := by
  induction locs generalizing fs with
  | nil => simp
  | cons loc locs ih =>
    have hnode := nodeAt_removeNode (h loc mem_cons_self)
    rw [foldl_cons, ih (fun loc' hloc' => ?_), hnode]
    · grind
    · rw [hnode]
      grind

theorem Stores.mem_expiredFiles (h : Stores s dir) {loc : Location} :
    loc ∈ expiredFiles s.fs dir now ↔ ∃ ns key stored, s.values.lookup (ns, key) = some stored ∧
      stored.expired now = true ∧ loc = kvRoot dir ++ [urlEncode ns] ++ [urlEncode key] := by
  rw [expiredFiles, mem_flatMap]
  constructor
  · rintro ⟨⟨d, _ | _⟩, -, hloc⟩
    · cases hloc
    · obtain ⟨⟨f, bytes | _⟩, hfile, hloc⟩ := mem_flatMap.mp hloc
      · obtain ⟨ns, key, stored, hlookup, rfl, rfl, hbytes⟩ :=
          (h.files d f _).mp (mem_children.mp hfile)
        cases hbytes
        grind [decodeStored_encodeStored]
      · cases hloc
  · rintro ⟨ns, key, stored, hlookup, hexpired, rfl⟩
    have hfile := (h.files _ _ _).mpr ⟨ns, key, stored, hlookup, rfl, rfl, rfl⟩
    have hvalue := (h.storable ns key stored hlookup).value
    refine ⟨(urlEncode ns, .directory), mem_children.mpr (nodeAt_parent hfile),
      mem_flatMap.mpr ⟨(urlEncode key, .file (encodeStored stored)), mem_children.mpr hfile, ?_⟩⟩
    simp [decodeStored_encodeStored, hexpired, length_encodeStored, Nat.add_comm 12, hvalue]

theorem Stores.restart (h : Stores s dir) (hset : s.dataDir = some dir)
    (hdir : ∀ name ∈ dir, PlainName name) (now : UInt64) :
    Stores (s.restart now) dir ∧
      ∀ ns key, (s.restart now).values.lookup (ns, key) = s.live now ns key := by
  have hlookup : ∀ ns key, (s.restart now).values.lookup (ns, key) = s.live now ns key := by
    intro ns key
    rw [StorageServer.restart, hset]
    exact (h.durable hdir).reload now ns key
  have hnode : ∀ loc, (s.restart now).fs.nodeAt loc =
      if loc ∈ expiredFiles s.fs dir now then none else s.fs.nodeAt loc := by
    intro loc
    rw [StorageServer.restart, hset]
    dsimp only
    rw [loadDisk_snd]
    refine nodeAt_foldl_removeNode (fun loc hloc => ?_) loc
    obtain ⟨ns, key, stored, -, -, rfl⟩ := h.mem_expiredFiles.mp hloc
    exact h.ne_directory _ _
  refine ⟨⟨⟨fun loc bytes hloc => ?_, fun name bytes => ?_⟩, fun d f node => ?_, ?_⟩, hlookup⟩
  · grind [h.clear.above loc bytes hloc]
  · grind [h.clear.spaces name bytes]
  · rw [hnode]
    constructor
    · intro hleft
      split_ifs at hleft with hgone
      obtain ⟨ns, key, stored, hstored, rfl, rfl, rfl⟩ := (h.files d f node).mp hleft
      refine ⟨ns, key, stored, ?_, rfl, rfl, rfl⟩
      rw [hlookup, live_eq_some]
      refine ⟨hstored, Bool.eq_false_of_not_eq_true fun hexpired => hgone ?_⟩
      exact h.mem_expiredFiles.mpr ⟨ns, key, stored, hstored, hexpired, rfl⟩
    · rintro ⟨ns, key, stored, hstored, rfl, rfl, rfl⟩
      rw [hlookup, live_eq_some] at hstored
      rw [if_neg, h.files]
      · exact ⟨ns, key, stored, hstored.1, rfl, rfl, rfl⟩
      · intro hgone
        obtain ⟨ns', key', stored', hstored', hexpired, hsame⟩ := h.mem_expiredFiles.mp hgone
        grind [urlEncode_injective, append_inj']
  · intro ns key stored hstored
    rw [hlookup, live_eq_some] at hstored
    exact h.storable ns key stored hstored.1

/-! ## Runs -/

inductive ServerEvent
  | request (r : KvRequest)
  | restart (now : UInt64)

def ServerEvent.time : ServerEvent → UInt64
  | .request r => r.now
  | .restart now => now

/-- The answers of a run. -/
def answers : StorageServer → List ServerEvent → List Response
  | _, [] => []
  | s, .request r :: events => (s.handle r).2 :: answers (s.handle r).1 events
  | s, .restart now :: events => answers (s.restart now) events

def requestsOf : List ServerEvent → List KvRequest
  | [] => []
  | .request r :: events => r :: requestsOf events
  | .restart _ :: events => requestsOf events

/-- The servers have the same token and from now on the same unexpired entries. -/
structure Alike (now : UInt64) (s t : StorageServer) : Prop where
  token : s.token = t.token
  live : ∀ later, now ≤ later → ∀ ns key, s.live later ns key = t.live later ns key

theorem Alike.of_lookup (htoken : s.token = t.token)
    (h : ∀ name, s.values.lookup name = t.values.lookup name) : Alike now s t :=
  ⟨htoken, fun _ _ _ _ => by rw [StorageServer.live, StorageServer.live, h]⟩

theorem Alike.handle (h : Alike now s t) (hle : now ≤ r.now) :
    (s.handle r).2 = (t.handle r).2 ∧ Alike r.now (s.handle r).1 (t.handle r).1 := by
  have hnow : Alike r.now s t := ⟨h.token, fun _ hlater => h.live _ (UInt64.le_trans hle hlater)⟩
  have hok : s.tokenOk r = t.tokenOk r := by rw [tokenOk, tokenOk, h.token]
  have htoken : (s.dropExpired r.now).token = (t.dropExpired r.now).token := by
    rw [token_dropExpired, token_dropExpired, h.token]
  have hlookup : ∀ name, (s.dropExpired r.now).values.lookup name =
      (t.dropExpired r.now).values.lookup name := by
    rintro ⟨ns, key⟩
    rw [lookup_dropExpired, lookup_dropExpired, h.live r.now hle]
  unfold StorageServer.handle
  dsimp only
  generalize s.dropExpired r.now = u at *
  generalize t.dropExpired r.now = v at *
  have hperm : u.values.entries.Perm v.values.entries :=
    lookup_ext u.values.nodupKeys v.values.nodupKeys fun name stored =>
      Iff.of_eq (congrArg (stored ∈ ·) (hlookup name))
  have hquota : ∀ ns key, u.kvQuotaExceeded ns key = v.kvQuotaExceeded ns key := by
    intro ns key
    rw [kvQuotaExceeded, kvQuotaExceeded, hlookup, hperm.length_eq, hperm.countP_eq]
  have hsame : Alike r.now u v := .of_lookup htoken hlookup
  rw [hok]
  split_ifs
  · exact ⟨rfl, hnow⟩
  · exact ⟨rfl, hsame⟩
  · split
    · unfold handlePut
      rw [hquota]
      split_ifs
      · exact ⟨rfl, hsame⟩
      · refine ⟨rfl, .of_lookup htoken fun name => ?_⟩
        by_cases hname : name = (namespaceOf r, keyOf r) <;>
          grind [store, AList.lookup_insert, AList.lookup_insert_ne]
    · unfold handleGet
      rw [hlookup]
      split
      · exact ⟨rfl, hsame⟩
      · split_ifs
        · refine ⟨rfl, .of_lookup htoken fun name => ?_⟩
          by_cases hname : name = (namespaceOf r, keyOf r) <;>
            grind [dropEntry, AList.lookup_erase, AList.lookup_erase_ne]
        · exact ⟨rfl, hsame⟩
    · exact ⟨rfl, hsame⟩

theorem Stores.answers_eq (h : Stores s dir) (hset : s.dataDir = some dir)
    (hdir : ∀ name ∈ dir, PlainName name) (halike : Alike now s t) (events : List ServerEvent)
    (htimes : (now :: events.map ServerEvent.time).IsChain (· ≤ ·))
    (hstorable : StorableRun t (requestsOf events)) :
    s.answers events = t.answers ((requestsOf events).map .request) := by
  induction events generalizing s t now with
  | nil => rfl
  | cons e events ih =>
    obtain ⟨hle, hrest⟩ := isChain_cons_cons.mp htimes
    cases e with
    | request r =>
      obtain ⟨hanswer, hnext⟩ := halike.handle hle
      have hafter := h.handle hset hdir fun hnoContent => hstorable.1 (hanswer ▸ hnoContent)
      rw [answers, requestsOf, map_cons, answers, hanswer,
        ih hafter ((dataDir_handle s r).trans hset) hnext hrest hstorable.2]
    | restart later =>
      obtain ⟨hafter, hlookup⟩ := h.restart hset hdir later
      have hafterSet : (s.restart later).dataDir = some dir := by
        rw [StorageServer.restart, hset]
      refine ih hafter hafterSet ⟨?_, fun now' hnow' ns key => ?_⟩ hrest hstorable
      · rw [StorageServer.restart, hset]
        exact halike.token
      · rw [← halike.live now' (UInt64.le_trans hle hnow'), StorageServer.live, hlookup,
          StorageServer.live, Option.filter_filter]
        grind [StorageServer.live, Stored.expired, ServerEvent.time]

/-- In every run in which time does not go back and in which what is accepted can be stored, the
answers are those to the same requests without the restarts. -/
theorem restarts_unnoticed (s : StorageServer) (dir : Location) (hfresh : Fresh s dir)
    (events : List ServerEvent) (htimes : (events.map ServerEvent.time).IsChain (· ≤ ·))
    (hstorable : StorableRun s (requestsOf events)) :
    s.answers events = s.answers ((requestsOf events).map .request) := by
  have hself : Alike 0 s s := ⟨rfl, fun _ _ _ _ => rfl⟩
  refine hfresh.stores.answers_eq hfresh.dataDir hfresh.plain hself events ?_ hstorable
  cases events with
  | nil => exact isChain_singleton _
  | cons => exact isChain_cons_cons.mpr ⟨UInt64.le_iff_toNat_le.mpr (Nat.zero_le _), htimes⟩

def restartedRun : List ServerEvent :=
  ordinaryRequests.flatMap fun r => [.request r, .restart r.now]

theorem restartedRun_answers :
    sampleServer.answers restartedRun = [.noContent, .noContent, .noContent, .notFound] := by
  rw [restarts_unnoticed sampleServer sampleDir sampleServer_fresh restartedRun (by decide)
    (by decide)]
  decide

end Arqma.Storage.StorageServer
