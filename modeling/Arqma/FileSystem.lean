import Mathlib.Data.List.AList
import Mathlib.Tactic

/-!
# A hierarchical file system

Files and directories lie at locations, lists of names from the root down. A path is what a
program writes: its components may be `.` and `..`, and it is resolved one component after
the other, each in a directory. A name has at most 255 bytes.
-/
namespace Arqma
open List

variable {acc : FileSystem × Option Location} {bytes : List UInt8} {fs' : FileSystem}
  {dir : List Name}

abbrev Name := List UInt8
abbrev Location := List Name

inductive FsNode
  | file (bytes : List UInt8)
  | directory
deriving DecidableEq

/-- What lies at the locations below the root. Everything lies in a directory. -/
structure FileSystem where
  nodes : AList (fun _ : Location => FsNode) := ∅
  rooted : ∀ loc node, nodes.lookup loc = some node →
    loc ≠ [] ∧ (loc.dropLast = [] ∨ nodes.lookup loc.dropLast = some .directory) := by simp

def FileSystem.empty : FileSystem := {}

def dot : Name := [46]
def dotDot : Name := [46, 46]

/-- A name that a file or a directory can have. -/
structure PlainName (name : Name) : Prop where
  ne_dot : name ≠ dot
  ne_dotDot : name ≠ dotDot
  length_le : name.length ≤ 255

instance (name : Name) : Decidable (PlainName name) :=
  decidable_of_iff (name ≠ dot ∧ name ≠ dotDot ∧ name.length ≤ 255)
    ⟨fun h => ⟨h.1, h.2.1, h.2.2⟩, fun h => ⟨h.1, h.2, h.3⟩⟩

namespace FileSystem

def nodeAt (fs : FileSystem) (loc : Location) : Option FsNode :=
  if loc = [] then some .directory else fs.nodes.lookup loc

@[simp] theorem nodeAt_nil (fs : FileSystem) : fs.nodeAt [] = some .directory := rfl

variable {fs : FileSystem} {loc : Location} {name : Name} {node : FsNode} {path : List Name}

theorem nodeAt_of_ne_nil (h : loc ≠ []) : fs.nodeAt loc = fs.nodes.lookup loc := if_neg h

@[simp] theorem nodeAt_concat (fs : FileSystem) (loc : Location) (name : Name) :
    fs.nodeAt (loc ++ [name]) = fs.nodes.lookup (loc ++ [name]) :=
  nodeAt_of_ne_nil (by simp)

/-- Everything lies in a directory. -/
theorem nodeAt_parent (h : fs.nodeAt (loc ++ [name]) = some node) :
    fs.nodeAt loc = some .directory := by
  rw [nodeAt_concat] at h
  grind [dropLast_concat, nodeAt_nil, nodeAt_of_ne_nil, fs.rooted]

/-- What lies above something that exists is a directory. -/
theorem nodeAt_above {rest : Location} (h : fs.nodeAt (loc ++ rest) = some node)
    (hrest : rest ≠ []) :
    fs.nodeAt loc = some .directory := by
  induction rest using List.reverseRecOn generalizing node with
  | nil => exact absurd rfl hrest
  | append_singleton rest name ih =>
    grind [nodeAt_parent]

theorem nodeAt_dropLast (h : fs.nodeAt loc = some .directory) :
    fs.nodeAt loc.dropLast = some .directory := by
  obtain rfl | ⟨init, last, rfl⟩ := eq_nil_or_concat loc
  · exact h
  · rw [concat_eq_append, dropLast_concat]
    exact nodeAt_parent (concat_eq_append ▸ h)

/-- Put a file or a directory under a name of a directory, where no directory is. -/
def put (fs : FileSystem) (loc : Location) (name : Name) (node : FsNode) : Option FileSystem :=
  if h : fs.nodeAt loc = some .directory ∧ fs.nodeAt (loc ++ [name]) ≠ some .directory then
    some
      { nodes := fs.nodes.insert (loc ++ [name]) node
        rooted := by
          intro other found hfound
          by_cases hother : other = loc ++ [name]
          · subst hother
            refine ⟨by simp, ?_⟩
            rw [dropLast_concat]
            by_cases hnil : loc = []
            · exact .inl hnil
            · have hne : loc ≠ loc ++ [name] := by simp
              rw [AList.lookup_insert_ne hne]
              exact .inr (nodeAt_of_ne_nil hnil ▸ h.1)
          · rw [AList.lookup_insert_ne hother] at hfound
            obtain ⟨hnil, hparent⟩ := fs.rooted other found hfound
            refine ⟨hnil, hparent.imp_right fun hparent => ?_⟩
            have hne : other.dropLast ≠ loc ++ [name] := by
              intro heq
              rw [heq, ← nodeAt_concat] at hparent
              exact h.2 hparent
            rwa [AList.lookup_insert_ne hne] }
  else none

theorem nodeAt_put (h : fs.put loc name node = some fs') (other : Location) :
    fs'.nodeAt other = if other = loc ++ [name] then some node else fs.nodeAt other := by
  unfold put at h
  split_ifs at h with hput
  cases h
  by_cases hother : other = loc ++ [name]
  · subst hother
    simp
  · rw [if_neg hother, nodeAt, nodeAt]
    split_ifs
    · rfl
    · exact AList.lookup_insert_ne hother

theorem put_eq_some (node : FsNode) (hdir : fs.nodeAt loc = some .directory)
    (hfree : fs.nodeAt (loc ++ [name]) ≠ some .directory) :
    ∃ fs', fs.put loc name node = some fs' := by
  rw [put, dif_pos ⟨hdir, hfree⟩]
  exact ⟨_, rfl⟩

/-- The names in a directory, with what they stand for. -/
def children (fs : FileSystem) (loc : Location) : List (Name × FsNode) :=
  fs.nodes.entries.filterMap fun e =>
    if e.1.dropLast = loc then e.1.getLast?.map fun name => (name, e.2) else none

theorem mem_children : (name, node) ∈ fs.children loc ↔ fs.nodeAt (loc ++ [name]) = some node := by
  rw [nodeAt_concat, children, mem_filterMap]
  constructor
  · rintro ⟨e, he, hname⟩
    have hlookup := AList.mem_lookup_iff.mpr he
    obtain ⟨hnil, -⟩ := fs.rooted e.1 e.2 hlookup
    split_ifs at hname with hloc
    rw [getLast?_eq_some_getLast hnil] at hname
    cases hname
    rw [← hloc, dropLast_append_getLast hnil]
    exact hlookup
  · intro h
    exact ⟨⟨loc ++ [name], node⟩, AList.mem_lookup_iff.mp h, by simp⟩

/-- Remove a file or an empty directory. -/
def removeNode (fs : FileSystem) (loc : Location) : FileSystem :=
  if h : fs.children loc = [] then
    { nodes := fs.nodes.erase loc
      rooted := by
        intro other found hfound
        have hother : other ≠ loc := by
          rintro rfl
          simp at hfound
        rw [AList.lookup_erase_ne hother] at hfound
        obtain ⟨hnil, hparent⟩ := fs.rooted other found hfound
        refine ⟨hnil, ?_⟩
        by_cases hroot : other.dropLast = []
        · exact .inl hroot
        · have hne : other.dropLast ≠ loc := by
            intro heq
            have hchild : (other.getLast hnil, found) ∈ fs.children loc := by
              rw [mem_children, ← heq, dropLast_append_getLast hnil, nodeAt_of_ne_nil hnil]
              exact hfound
            rw [h] at hchild
            cases hchild
          rw [AList.lookup_erase_ne hne]
          exact hparent }
  else fs

/-- A file holds nothing below it, so that removing it removes just the file. -/
theorem nodeAt_removeNode (h : fs.nodeAt loc ≠ some .directory) (other : Location) :
    (fs.removeNode loc).nodeAt other = if other = loc then none else fs.nodeAt other := by
  have hempty : fs.children loc = [] :=
    eq_nil_iff_forall_not_mem.mpr fun _ hmem => h (nodeAt_parent (mem_children.mp hmem))
  grind [removeNode, AList.lookup_erase, nodeAt, AList.lookup_erase_ne]

/-! ## Paths -/

/-- One component of a path, looked up in a directory. -/
def enter (fs : FileSystem) (loc : Location) (name : Name) : Option Location :=
  if fs.nodeAt loc = some .directory then
    if name = dot then some loc
    else if name = dotDot then some loc.dropLast
    else if name.length ≤ 255 then some (loc ++ [name])
    else none
  else none

/-- The location a path stands for. Its last component need not exist. -/
def resolve (fs : FileSystem) (path : List Name) : Option Location := path.foldlM fs.enter []

theorem enter_plain (hname : PlainName name) :
    fs.enter loc name = if fs.nodeAt loc = some .directory then some (loc ++ [name]) else none := by
  rw [enter, if_neg hname.ne_dot, if_neg hname.ne_dotDot, if_pos hname.length_le]

/-- A component is a plain name or leads to a directory that exists. -/
theorem enter_cases {next : Location} (h : fs.enter loc name = some next) :
    fs.nodeAt loc = some .directory ∧ ((PlainName name ∧ next = loc ++ [name]) ∨
        (¬PlainName name ∧ fs.nodeAt next = some .directory ∧ next.length ≤ loc.length)) := by
  unfold enter at h
  split_ifs at h with hdir hdot hdotDot hlength
  · cases h
    exact ⟨hdir, .inr ⟨fun hplain => hplain.ne_dot hdot, hdir, le_rfl⟩⟩
  · cases h
    refine ⟨hdir, .inr ⟨fun hplain => hplain.ne_dotDot hdotDot, nodeAt_dropLast hdir, ?_⟩⟩
    simp
  · cases h
    exact ⟨hdir, .inl ⟨⟨hdot, hdotDot, hlength⟩, rfl⟩⟩

theorem resolve_concat (fs : FileSystem) (path : List Name) (name : Name) :
    fs.resolve (path ++ [name]) = (fs.resolve path).bind fun loc => fs.enter loc name := by
  simp [resolve, foldlM_append]

/-- A path of plain names stands for itself, if it stands for anything. -/
theorem resolve_plain (hplain : ∀ name ∈ path, PlainName name) (h : fs.resolve path = some loc) :
    loc = path := by
  induction path using List.reverseRecOn generalizing loc with
  | nil => exact (Option.some.inj h).symm
  | append_singleton path name ih =>
    rw [resolve_concat, Option.bind_eq_some_iff] at h
    grind [enter_plain]

/-- A path of plain names through directories stands for itself. -/
theorem resolve_of_directories (hplain : ∀ name ∈ path, PlainName name)
    (hdirs : ∀ loc name, loc ++ [name] <+: path → fs.nodeAt loc = some .directory) :
    fs.resolve path = some path := by
  induction path using List.reverseRecOn with
  | nil => rfl
  | append_singleton path name ih =>
    grind [resolve_concat, enter_plain]

/-- The path of something that exists stands for it. -/
theorem resolve_of_exists (hplain : ∀ name ∈ path, PlainName name)
    (h : fs.nodeAt path = some node) :
    fs.resolve path = some path := by
  refine resolve_of_directories hplain ?_
  rintro loc name ⟨rest, rfl⟩
  rw [append_assoc] at h
  exact nodeAt_above h (by simp)

/-- One component of `create_directories`: go into a directory, which is made if there is
nothing. -/
def makeStep (acc : FileSystem × Option Location) (name : Name) : FileSystem × Option Location :=
  match acc.2.bind fun loc => acc.1.enter loc name with
  | none => (acc.1, none)
  | some next =>
    match acc.1.nodeAt next with
    | some .directory => (acc.1, some next)
    | some (.file _) => (acc.1, none)
    | none =>
      match acc.1.put next.dropLast name .directory with
      | none => (acc.1, none)
      | some fs => (fs, some next)

/-- `create_directories`, with the location of the directory if it is there in the end. -/
def createDirectories (fs : FileSystem) (path : List Name) : FileSystem × Option Location :=
  path.foldl makeStep (fs, some [])

theorem createDirectories_concat (fs : FileSystem) (path : List Name) (name : Name) :
    fs.createDirectories (path ++ [name]) = makeStep (fs.createDirectories path) name := by
  simp [createDirectories, foldl_append]

/-- Making directories changes nothing that is there. -/
theorem nodeAt_makeStep (h : acc.1.nodeAt loc = some node) :
    (makeStep acc name).1.nodeAt loc = some node := by
  unfold makeStep
  split
  · exact h
  · next next hnext =>
    split
    · exact h
    · exact h
    · next hnone =>
      split
      · exact h
      · next fs hput =>
        rw [nodeAt_put hput, if_neg, h]
        rintro rfl
        obtain ⟨parent, -, henter⟩ := Option.bind_eq_some_iff.mp hnext
        obtain ⟨-, ⟨-, rfl⟩ | ⟨-, hdir, -⟩⟩ := enter_cases henter
        · rw [dropLast_concat, hnone] at h
          cases h
        · rw [hnone] at hdir
          cases hdir

theorem nodeAt_of_makeStep
    (h : (makeStep acc name).1.nodeAt loc = some node) :
    acc.1.nodeAt loc = some node ∨ node = .directory := by
  unfold makeStep at h
  grind [put, nodeAt_put]

/-- Making directories makes no files and changes none. -/
theorem nodeAt_createDirectories_file (path : List Name) :
    (fs.createDirectories path).1.nodeAt loc = some (.file bytes) ↔
      fs.nodeAt loc = some (.file bytes) := by
  induction path using List.reverseRecOn with
  | nil => rfl
  | append_singleton path name ih =>
    rw [createDirectories_concat, ← ih]
    refine ⟨fun h => ?_, nodeAt_makeStep⟩
    obtain h | h := nodeAt_of_makeStep h
    · exact h
    · cases h

theorem createDirectories_plain (hplain : ∀ name ∈ path, PlainName name)
    (hfree : ∀ loc bytes, loc <+: path → fs.nodeAt loc ≠ some (.file bytes)) :
    (fs.createDirectories path).2 = some path ∧ ∀ loc, (fs.createDirectories path).1.nodeAt loc =
        if loc <+: path then some .directory else fs.nodeAt loc := by
  induction path using List.reverseRecOn with
  | nil =>
    refine ⟨rfl, fun loc => ?_⟩
    by_cases hloc : loc = []
    · simp [hloc, createDirectories]
    · simp [hloc, createDirectories]
  | append_singleton path name ih =>
    obtain ⟨hmade, hnodes⟩ := ih (fun name hname => hplain name (by simp [hname]))
      (fun loc bytes h => hfree loc bytes (h.trans (prefix_append path [name])))
    have hname : PlainName name := hplain name (by simp)
    have hdir : (fs.createDirectories path).1.nodeAt path = some .directory := by
      rw [hnodes, if_pos prefix_rfl]
    have henter : (fs.createDirectories path).2.bind (fun loc =>
        (fs.createDirectories path).1.enter loc name) = some (path ++ [name]) := by
      rw [hmade, Option.bind_some, enter_plain hname, if_pos hdir]
    have hlast : (fs.createDirectories path).1.nodeAt (path ++ [name]) =
        fs.nodeAt (path ++ [name]) := by
      rw [hnodes, if_neg]
      intro h
      simpa using h.length_le
    have hsplit : ∀ loc, loc <+: path ++ [name] ↔ loc <+: path ∨ loc = path ++ [name] := by
      intro loc
      rw [prefix_concat_iff, or_comm]
    rw [createDirectories_concat, makeStep]
    simp only [henter, hlast]
    cases hnode : fs.nodeAt (path ++ [name]) with
    | none =>
      have hvacant : (fs.createDirectories path).1.nodeAt (path ++ [name]) ≠ some .directory := by
        rw [hlast, hnode]
        exact nofun
      obtain ⟨made, hput⟩ := put_eq_some .directory hdir hvacant
      simp only [dropLast_concat, hput, true_and]
      intro loc
      rw [nodeAt_put hput, hnodes]
      by_cases hloc : loc = path ++ [name]
      · simp [hloc]
      · simp [hsplit, hloc]
    | some node =>
      grind

/-- Open a file for writing and write it: it is made or written over. -/
def writeFile (fs : FileSystem) (dir : List Name) (name : Name) (bytes : List UInt8) :
    Option FileSystem :=
  if PlainName name then (fs.resolve dir).bind fun loc => fs.put loc name (.file bytes) else none

/-- Remove the file or empty directory that a path stands for. -/
def removeFile (fs : FileSystem) (dir : List Name) (name : Name) : FileSystem :=
  if PlainName name then
    match fs.resolve dir with
    | none => fs
    | some loc =>
      match fs.nodeAt (loc ++ [name]) with
      | none => fs
      | some _ => fs.removeNode (loc ++ [name])
  else fs

theorem writeFile_some
    (h : fs.writeFile dir name bytes = some fs') :
    PlainName name ∧ ∃ loc, fs.resolve dir = some loc ∧ ∀ other, fs'.nodeAt other =
        if other = loc ++ [name] then some (.file bytes) else fs.nodeAt other := by
  unfold writeFile at h
  split_ifs at h with hname
  obtain ⟨loc, hloc, hput⟩ := Option.bind_eq_some_iff.mp h
  exact ⟨hname, loc, hloc, nodeAt_put hput⟩

/-- A file is removed, and nothing if there is none. -/
theorem nodeAt_removeFile (hplain : ∀ name ∈ dir, PlainName name)
    (hname : PlainName name) (hfile : fs.nodeAt (dir ++ [name]) ≠ some .directory)
    (other : Location) :
    (fs.removeFile dir name).nodeAt other =
      if other = dir ++ [name] then none else fs.nodeAt other := by
  rw [removeFile, if_pos hname]
  cases hnode : fs.nodeAt (dir ++ [name]) with
  | none =>
    grind [resolve_plain]
  | some node =>
    have hdir : fs.resolve dir = some dir := resolve_of_exists hplain (nodeAt_parent hnode)
    simp only [hdir, hnode]
    cases node with
    | directory => exact absurd hnode hfile
    | file bytes => exact nodeAt_removeNode (by rw [hnode]; exact nofun) other

end FileSystem
end Arqma
