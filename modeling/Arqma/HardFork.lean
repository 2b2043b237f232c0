import Mathlib.Data.List.Sort
import Mathlib.Tactic

/-!
# Hard forks

The version of the next block follows from a table of forks, each with a height and a share of
votes. The index of the fork in force is kept, together with the votes of a window of blocks, and
moved when blocks are added, popped or rescanned. When no fork asks for votes the index is a
function of the height alone, whatever has happened before.
-/
namespace Arqma.Cryptonote
open List

variable {height : ℕ} {fork : HardFork}

/-- A row of the table: from `height` on, with the percentage of votes it needs. -/
structure ForkParams where
  version : ℕ
  height : ℕ
  threshold : ℕ := 0
deriving DecidableEq, Repr

structure ForkBlock where
  majorVersion : ℕ
  minorVersion : ℕ
deriving DecidableEq, Repr

def ForkBlock.vote (b : ForkBlock) : ℕ := if b.minorVersion = 0 then 1 else b.minorVersion

def versionAt (table : List ForkParams) (index : ℕ) : ℕ :=
  match table[index]? with
  | some fork => fork.version
  | none => 0

structure HardFork where
  heights : List ForkParams
  originalVersion : ℕ := 1
  windowSize : ℕ := 10080
  /-- The votes of the window, and how many there are for each version. -/
  versions : List ℕ := []
  lastVersions : ℕ → UInt32 := fun _ => 0
  currentForkIndex : ℕ := 0

namespace HardFork

def getCurrentVersion (fork : HardFork) : ℕ := versionAt fork.heights fork.currentForkIndex

def idealVersionFrom (table : List ForkParams) (originalVersion height : ℕ) : ℕ → ℕ
  | 0 => originalVersion
  | n + 1 =>
    match table[n + 1]? with
    | some fork =>
      if fork.height ≤ height then fork.version
      else idealVersionFrom table originalVersion height n
    | none => idealVersionFrom table originalVersion height n

def getIdealVersion (fork : HardFork) (height : ℕ) : ℕ :=
  idealVersionFrom fork.heights fork.originalVersion height (fork.heights.length - 1)

def getEffectiveVersion (fork : HardFork) (votingVersion : ℕ) : ℕ :=
  match fork.heights.getLast? with
  | some last => min votingVersion last.version
  | none => votingVersion

def doCheck (fork : HardFork) (b : ForkBlock) : Bool :=
  b.majorVersion = fork.getCurrentVersion ∧ fork.getCurrentVersion ≤ b.vote

/-- The loop from the last fork down, with the votes for this version and later ones. -/
def votedFrom (fork : HardFork) (height : ℕ) : ℕ → UInt32 → ℕ
  | 0, _ => fork.currentForkIndex
  | n + 1, accumulated =>
    match fork.heights[n + 1]? with
    | some params =>
      let accumulated := accumulated + fork.lastVersions params.version
      if params.height ≤ height ∧
          UInt32.ofNat ((fork.windowSize * params.threshold + 99) / 100) ≤ accumulated then n + 1
      else votedFrom fork height n accumulated
    | none => votedFrom fork height n accumulated

def getVotedForkIndex (fork : HardFork) (height : ℕ) : ℕ :=
  fork.votedFrom height (fork.heights.length - 1) 0

/-- The index never falls here. -/
def raise (fork : HardFork) (height : ℕ) : HardFork :=
  let voted := fork.getVotedForkIndex height
  if fork.currentForkIndex < voted then { fork with currentForkIndex := voted } else fork

def clear (fork : HardFork) : HardFork := { fork with versions := [], lastVersions := fun _ => 0 }

def countVote (fork : HardFork) (b : ForkBlock) : HardFork :=
  let version := fork.getEffectiveVersion b.vote
  { fork with
    versions := fork.versions ++ [version]
    lastVersions := Function.update fork.lastVersions version (fork.lastVersions version + 1) }

/-- Forget the oldest votes of a full window. -/
def makeRoom (fork : HardFork) : List ℕ → HardFork
  | [] => { fork with versions := [] }
  | version :: rest =>
    if fork.windowSize ≤ rest.length + 1 then
      makeRoom { fork with
        lastVersions := Function.update fork.lastVersions version
          (fork.lastVersions version - 1) } rest
    else { fork with versions := version :: rest }

/-- Lower the index until its version is not above `version`. -/
def lowerTo (table : List ForkParams) (version : ℕ) : ℕ → ℕ
  | 0 => 0
  | index + 1 =>
    if version < versionAt table (index + 1) then lowerTo table version index else index + 1

/-- The first fork with a version, or the last one. -/
def seekVersion (version : ℕ) : List ForkParams → ℕ
  | [] => 0
  | [_] => 0
  | fork :: next :: rest =>
    if fork.version = version then 0 else seekVersion version (next :: rest) + 1

/-- The last fork that has begun at a height, without votes. -/
def begunFrom (table : List ForkParams) (height : ℕ) : ℕ → ℕ
  | 0 => 0
  | n + 1 =>
    match table[n + 1]? with
    | some fork => if fork.height ≤ height then n + 1 else begunFrom table height n
    | none => begunFrom table height n

end HardFork

def completeTable (table : List ForkParams) (originalVersion : ℕ) : List ForkParams :=
  if table = [] then [⟨originalVersion, 0, 0⟩] else table

/-- The forks with the blocks and the versions in the database. The database keeps the versions of
popped blocks. -/
structure ForkState extends HardFork where
  blocks : List ForkBlock := []
  hfVersions : ℕ → ℕ := fun _ => 0

namespace ForkState

def add (s : ForkState) (b : ForkBlock) (height : ℕ) : ForkState :=
  if s.doCheck b then
    { s with
      toHardFork := ((s.makeRoom s.versions).countVote b).raise (height + 1)
      hfVersions := Function.update s.hfVersions height s.getCurrentVersion }
  else s

def rescanFromBlockHeight (s : ForkState) (height : ℕ) : ForkState :=
  if s.blocks.length ≤ height then s
  else
    let counted := (s.blocks.drop height).foldl HardFork.countVote s.clear
    let lastVersion := s.hfVersions (s.blocks.length - 1)
    let found := { counted with
      currentForkIndex := HardFork.seekVersion lastVersion counted.heights }
    { s with toHardFork := found.raise s.blocks.length }

/-- The chain height to rescan from, for a full window. -/
def rescanStart (windowSize height : ℕ) : ℕ :=
  if windowSize < height then height - (windowSize - 1) else 1

def init (s : ForkState) : ForkState :=
  let heights := completeTable s.heights s.originalVersion
  let reset := { s with toHardFork := { s.clear with heights, currentForkIndex := 0 } }
  let height := rescanStart s.windowSize s.blocks.length
  if height = 0 then reset else reset.rescanFromBlockHeight (height - 1)

/-- The blocks that are already there are added again. -/
def readd (s : ForkState) : ℕ → List ForkBlock → ForkState
  | _, [] => s
  | height, b :: rest => readd (s.add b height) (height + 1) rest

def reorganizeFromBlockHeight (s : ForkState) (height : ℕ) : ForkState :=
  if s.blocks.length ≤ height then s
  else
    let rescanHeight := if s.windowSize - 1 ≤ height then height - (s.windowSize - 1) else 0
    let startVersion := if height = 0 then s.originalVersion else s.hfVersions height
    let lowered := { s.clear with
      currentForkIndex := HardFork.lowerTo s.heights startVersion s.currentForkIndex }
    let counted := ((s.blocks.take (height + 1)).drop rescanHeight).foldl HardFork.countVote lowered
    readd { s with toHardFork := counted.raise (height + 1) } (height + 1)
      (s.blocks.drop (height + 1))

def reorganizeFromChainHeight (s : ForkState) (height : ℕ) : ForkState :=
  if height = 0 then s else s.reorganizeFromBlockHeight (height - 1)

/-- The last vote leaves the window, and the version of the popped block enters at the front. -/
def unwind (s : ForkState) (height : ℕ) : ForkState :=
  let back := s.versions.getLastD 0
  let front := s.hfVersions height
  let removed := Function.update s.lastVersions back (s.lastVersions back - 1)
  { s with
    versions := front :: s.versions.dropLast
    lastVersions := Function.update removed front (removed front + 1) }

/-- After blocks have been popped from the database. -/
def onBlockPopped (s : ForkState) (nblocks : ℕ) : ForkState :=
  let newHeight := s.blocks.length
  let unwound := (List.range' newHeight nblocks).reverse.foldl unwind s
  { unwound with
    currentForkIndex := HardFork.begunFrom s.heights newHeight (s.heights.length - 1) }

end ForkState

inductive ForkEvent
  | init
  /-- Blocks that fail the check do not reach the database. -/
  | add (b : ForkBlock)
  /-- Some blocks are popped, but never the genesis block. -/
  | pop (nblocks : ℕ)
  | reorganizeFromBlockHeight (height : ℕ)
  | reorganizeFromChainHeight (height : ℕ)

namespace ForkState

def step (s : ForkState) : ForkEvent → ForkState
  | .init => s.init
  | .add b =>
    if s.doCheck b then
      ForkState.add { s with blocks := s.blocks ++ [b] } b s.blocks.length
    else s
  | .pop nblocks =>
    if nblocks = 0 ∨ s.blocks.length ≤ nblocks then s
    else
      ForkState.onBlockPopped
        { s with blocks := s.blocks.take (s.blocks.length - nblocks) } nblocks
  | .reorganizeFromBlockHeight height => s.reorganizeFromBlockHeight height
  | .reorganizeFromChainHeight height => s.reorganizeFromChainHeight height

/-- An empty database. -/
def start (table : List ForkParams) (originalVersion windowSize : ℕ) : ForkState :=
  ForkState.init { heights := table, originalVersion, windowSize }

def after (s : ForkState) (events : List ForkEvent) : ForkState := events.foldl step s

end ForkState

section Ideal

variable {table : List ForkParams} {height : ℕ}

/-- The index of the fork that has begun last at a height. -/
def idealIndex (table : List ForkParams) (height : ℕ) : ℕ :=
  HardFork.begunFrom table height (table.length - 1)

/-- What makes an index the ideal one. -/
structure Begun (table : List ForkParams) (height index : ℕ) : Prop where
  here : index ≠ 0 → ∃ fork, table[index]? = some fork ∧ fork.height ≤ height
  later : ∀ n fork, index < n → table[n]? = some fork → height < fork.height

theorem begunFrom_le (table : List ForkParams) (height n : ℕ) :
    HardFork.begunFrom table height n ≤ n := by
  induction n with
  | zero => exact le_refl 0
  | succ n ih =>
    unfold HardFork.begunFrom
    split
    · split_ifs
      · exact le_refl _
      · omega
    · omega

theorem begun_begunFrom (table : List ForkParams) (height n : ℕ)
    (hlater : ∀ m fork, n < m → table[m]? = some fork → height < fork.height) :
    Begun table height (HardFork.begunFrom table height n) := by
  induction n with
  | zero => exact ⟨fun hne => absurd rfl hne, hlater⟩
  | succ n ih =>
    have hnext : (∀ fork, table[n + 1]? = some fork → height < fork.height) →
        Begun table height (HardFork.begunFrom table height n) := by
      refine fun hnot => ih fun m fork hm hfork => ?_
      by_cases hm' : m = n + 1
      · exact hnot fork (hm' ▸ hfork)
      · exact hlater m fork (by omega) hfork
    unfold HardFork.begunFrom
    cases hfork : table[n + 1]? with
    | none => exact hnext fun fork hsome => by rw [hfork] at hsome; cases hsome
    | some fork =>
      dsimp only
      split_ifs with hbegun
      · exact ⟨fun _ => ⟨fork, hfork, hbegun⟩, hlater⟩
      · refine hnext fun other hother => ?_
        rw [hfork, Option.some.injEq] at hother
        exact hother ▸ not_le.mp hbegun

theorem begun_idealIndex (table : List ForkParams) (height : ℕ) :
    Begun table height (idealIndex table height) := by
  refine begun_begunFrom table height _ fun m fork hm hfork => ?_
  have hlt := (List.getElem?_eq_some_iff.mp hfork).1
  omega

theorem idealIndex_lt (hne : table ≠ []) (height : ℕ) : idealIndex table height < table.length := by
  have hpos := length_pos_of_ne_nil hne
  have hle := begunFrom_le table height (table.length - 1)
  rw [idealIndex]
  omega

theorem idealIndex_mono {height' : ℕ} (hle : height ≤ height') :
    idealIndex table height ≤ idealIndex table height' := by
  by_contra hlt
  obtain ⟨fork, hfork, hbegun⟩ := (begun_idealIndex table height).here (by omega)
  have hlater := (begun_idealIndex table height').later _ fork (not_le.mp hlt) hfork
  omega

theorem idealIndex_zero (hheights : table.Pairwise fun a b => a.height < b.height) :
    idealIndex table 0 = 0 := by
  by_contra hne
  obtain ⟨fork, hfork, hbegun⟩ := (begun_idealIndex table 0).here hne
  obtain ⟨hlt, hget⟩ := List.getElem?_eq_some_iff.mp hfork
  have hfirst := List.pairwise_iff_getElem.mp hheights 0 _ (by omega) hlt (by omega)
  rw [hget] at hfirst
  omega

theorem versionAt_lt (hversions : table.Pairwise fun a b => a.version < b.version) {i j : ℕ}
    (hij : i < j) (hj : j < table.length) : versionAt table i < versionAt table j := by
  grind [versionAt, List.pairwise_iff_getElem.mp]

/-- What the source takes for ideal is the version at the ideal index. -/
theorem idealVersionFrom_eq (table : List ForkParams) (height n : ℕ) :
    HardFork.idealVersionFrom table (versionAt table 0) height n =
      versionAt table (HardFork.begunFrom table height n) := by
  induction n with
  | zero => rfl
  | succ n ih =>
    unfold HardFork.idealVersionFrom HardFork.begunFrom
    cases hfork : table[n + 1]? <;> grind [versionAt]

/-- Lowering to the version of an earlier fork finds it. -/
theorem lowerTo_versionAt (hversions : table.Pairwise fun a b => a.version < b.version)
    {i index : ℕ} (hi : i ≤ index) (hindex : index < table.length) :
    HardFork.lowerTo table (versionAt table i) index = i := by
  induction index with
  | zero =>
    obtain rfl : i = 0 := by omega
    rfl
  | succ index ih =>
    grind [HardFork.lowerTo, versionAt_lt]

theorem seekVersion_versionAt (hversions : table.Pairwise fun a b => a.version < b.version) {i : ℕ}
    (hi : i < table.length) :
    HardFork.seekVersion (versionAt table i) table = i := by
  induction table generalizing i with
  | nil => exact absurd hi (Nat.not_lt_zero i)
  | cons fork rest ih =>
    cases rest with
    | nil =>
      obtain rfl : i = 0 := by simpa using hi
      rfl
    | cons next rest =>
      rw [HardFork.seekVersion]
      cases i with
      | zero => exact if_pos rfl
      | succ i =>
        have hlater : fork.version < versionAt (fork :: next :: rest) (i + 1) :=
          versionAt_lt hversions (Nat.succ_pos i) hi
        grind [versionAt]

end Ideal

section Index

variable {fork : HardFork}

/-- Only the votes differ. -/
structure SameIndex (fork fork' : HardFork) : Prop where
  heights : fork'.heights = fork.heights
  originalVersion : fork'.originalVersion = fork.originalVersion
  currentForkIndex : fork'.currentForkIndex = fork.currentForkIndex

theorem sameIndex_makeRoom (fork : HardFork) (versions : List ℕ) :
    SameIndex fork (fork.makeRoom versions) := by
  induction versions generalizing fork with
  | nil => exact ⟨rfl, rfl, rfl⟩
  | cons version rest ih =>
    rw [HardFork.makeRoom]
    split_ifs
    · obtain ⟨hheights, horiginal, hindex⟩ := ih { fork with
        lastVersions := Function.update fork.lastVersions version (fork.lastVersions version - 1) }
      exact ⟨hheights, horiginal, hindex⟩
    · exact ⟨rfl, rfl, rfl⟩

theorem sameIndex_foldl_countVote (fork : HardFork) (blocks : List ForkBlock) :
    SameIndex fork (blocks.foldl HardFork.countVote fork) := by
  induction blocks generalizing fork with
  | nil => exact ⟨rfl, rfl, rfl⟩
  | cons b blocks ih =>
    obtain ⟨hheights, horiginal, hindex⟩ := ih (fork.countVote b)
    exact ⟨hheights, horiginal, hindex⟩

/-- Without thresholds votes play no part. -/
theorem getVotedForkIndex_eq (hthreshold : ∀ params ∈ fork.heights, params.threshold = 0)
    (height : ℕ) : fork.getVotedForkIndex height =
      if idealIndex fork.heights height = 0 then fork.currentForkIndex
      else idealIndex fork.heights height := by
  have hloop : ∀ n accumulated, fork.votedFrom height n accumulated =
      if HardFork.begunFrom fork.heights height n = 0 then fork.currentForkIndex
      else HardFork.begunFrom fork.heights height n := by
    intro n
    induction n with
    | zero => exact fun _ => rfl
    | succ n ih =>
      intro accumulated
      unfold HardFork.votedFrom HardFork.begunFrom
      cases hparams : fork.heights[n + 1]? with
      | none => exact ih accumulated
      | some params =>
        have hzero : UInt32.ofNat ((fork.windowSize * params.threshold + 99) / 100) ≤
            accumulated + fork.lastVersions params.version := by
          rw [hthreshold params (mem_of_getElem? hparams), Nat.mul_zero]
          exact Nat.zero_le _
        grind
  exact hloop _ 0

/-- An index that is not above the ideal one is raised to it. -/
theorem raise_spec (hthreshold : ∀ params ∈ fork.heights, params.threshold = 0) (height : ℕ)
    (hle : fork.currentForkIndex ≤ idealIndex fork.heights height) :
    (fork.raise height).heights = fork.heights ∧
      (fork.raise height).originalVersion = fork.originalVersion ∧
      (fork.raise height).currentForkIndex = idealIndex fork.heights height := by
  unfold HardFork.raise
  grind [getVotedForkIndex_eq]

end Index

section Run

variable {table : List ForkParams} {originalVersion : ℕ} {s : ForkState}

/-- A table as the networks have them: rising versions and heights, no thresholds, and first the
version that the chain begins with. -/
structure TableOk (table : List ForkParams) (originalVersion : ℕ) : Prop where
  nonempty : table ≠ []
  versions : table.Pairwise fun a b => a.version < b.version
  heights : table.Pairwise fun a b => a.height < b.height
  threshold : ∀ params ∈ table, params.threshold = 0
  first : versionAt table 0 = originalVersion

/-- The fork in force at a height accepts the block. -/
def Fits (table : List ForkParams) (height : ℕ) (b : ForkBlock) : Prop :=
  b.majorVersion = versionAt table (idealIndex table height) ∧
    versionAt table (idealIndex table height) ≤ b.vote

/-- The index is the ideal one for a chain of `height` blocks. -/
structure IndexAt (table : List ForkParams) (originalVersion height : ℕ) (fork : HardFork) :
    Prop where
  heights : fork.heights = table
  originalVersion : fork.originalVersion = originalVersion
  index : fork.currentForkIndex = idealIndex table height

/-- So it is, for the chain in the database, and the versions there are the ideal ones. -/
structure Follows (table : List ForkParams) (originalVersion : ℕ) (s : ForkState) : Prop where
  index : IndexAt table originalVersion s.blocks.length s.toHardFork
  stored : ∀ height < s.blocks.length,
    s.hfVersions height = versionAt table (idealIndex table height)
  fits : ∀ height b, s.blocks[height]? = some b → Fits table height b

/-- Another index for the same database. -/
theorem Follows.congr {s' : ForkState} (h : Follows table originalVersion s)
    (hindex : IndexAt table originalVersion s.blocks.length s'.toHardFork)
    (hblocks : s'.blocks = s.blocks) (hversions : s'.hfVersions = s.hfVersions) :
    Follows table originalVersion s' := by
  refine ⟨?_, ?_, ?_⟩
  · rw [hblocks]
    exact hindex
  · rw [hblocks, hversions]
    exact h.stored
  · rw [hblocks]
    exact h.fits

theorem IndexAt.doCheck_iff
    (h : IndexAt table originalVersion height fork) (b : ForkBlock) :
    fork.doCheck b = true ↔ Fits table height b := by
  rw [HardFork.doCheck, HardFork.getCurrentVersion, h.heights, h.index, decide_eq_true_eq, Fits]

theorem IndexAt.raise (htable : TableOk table originalVersion)
    (hheights : fork.heights = table) (horiginal : fork.originalVersion = originalVersion)
    (hle : fork.currentForkIndex ≤ idealIndex table height) :
    IndexAt table originalVersion height (fork.raise height) := by
  obtain ⟨hheights', horiginal', hindex⟩ := raise_spec
    (by rw [hheights]; exact htable.threshold) height (by rw [hheights]; exact hle)
  exact ⟨hheights'.trans hheights, horiginal'.trans horiginal, by rw [hindex, hheights]⟩

theorem add_spec (htable : TableOk table originalVersion) (s : ForkState) (height : ℕ)
    {b : ForkBlock} (hindex : IndexAt table originalVersion height s.toHardFork)
    (hfits : Fits table height b) :
    IndexAt table originalVersion (height + 1) (s.add b height).toHardFork ∧
      (s.add b height).blocks = s.blocks ∧
      (s.add b height).hfVersions =
        Function.update s.hfVersions height (versionAt table (idealIndex table height)) := by
  rw [ForkState.add, if_pos ((hindex.doCheck_iff b).mpr hfits)]
  refine ⟨?_, rfl, ?_⟩
  · obtain ⟨hheights, horiginal, hsame⟩ := sameIndex_makeRoom s.toHardFork s.versions
    grind [HardFork.countVote, IndexAt.raise, hindex.heights, hindex.originalVersion, hindex.index,
      idealIndex_mono]
  · simp only [HardFork.getCurrentVersion, hindex.heights, hindex.index]

theorem Follows.add (htable : TableOk table originalVersion) (h : Follows table originalVersion s)
    (b : ForkBlock) :
    Follows table originalVersion (s.step (.add b)) := by
  rw [ForkState.step]
  by_cases hcheck : s.doCheck b = true
  · rw [if_pos hcheck]
    have hfits := (h.index.doCheck_iff b).mp hcheck
    obtain ⟨hindex, hblocks, hversions⟩ := add_spec htable
      { s with blocks := s.blocks ++ [b] } s.blocks.length h.index hfits
    refine ⟨?_, fun height hlt => ?_, fun height other hother => ?_⟩
    · rw [hblocks, length_append]
      exact hindex
    · rw [hblocks, length_append, length_singleton] at hlt
      rw [hversions]
      grind [h.stored]
    · grind [h.fits]
  · rw [if_neg hcheck]
    exact h

/-- The blocks and versions of the database, and the table, are the same. -/
theorem unwind_spec (s : ForkState) (heights : List ℕ) :
    (heights.foldl ForkState.unwind s).heights = s.heights ∧
      (heights.foldl ForkState.unwind s).originalVersion = s.originalVersion ∧
      (heights.foldl ForkState.unwind s).blocks = s.blocks ∧
      (heights.foldl ForkState.unwind s).hfVersions = s.hfVersions := by
  induction heights generalizing s with
  | nil => exact ⟨rfl, rfl, rfl, rfl⟩
  | cons height heights ih => exact ih (s.unwind height)

theorem Follows.pop (h : Follows table originalVersion s) (nblocks : ℕ) :
    Follows table originalVersion (s.step (.pop nblocks)) := by
  rw [ForkState.step]
  split_ifs
  · exact h
  · unfold ForkState.onBlockPopped
    dsimp only
    obtain ⟨hheights, horiginal, hblocks, hversions⟩ := unwind_spec
      { s with blocks := s.blocks.take (s.blocks.length - nblocks) }
      (List.range' (s.blocks.take (s.blocks.length - nblocks)).length nblocks).reverse
    refine ⟨⟨hheights.trans h.index.heights, horiginal.trans h.index.originalVersion, ?_⟩,
      fun height hlt => ?_, fun height b hb => ?_⟩
    · dsimp only
      rw [hblocks, h.index.heights]
      rfl
    · dsimp only at hlt ⊢
      rw [hblocks, length_take] at hlt
      rw [hversions]
      exact h.stored height (by omega)
    · dsimp only at hb
      rw [hblocks, getElem?_take] at hb
      split_ifs at hb
      exact h.fits height b hb

/-- The index is found again from the version of the last block. -/
theorem rescan_spec (htable : TableOk table originalVersion) (s : ForkState)
    (hheights : s.heights = table) (horiginal : s.originalVersion = originalVersion)
    (hstored : ∀ height < s.blocks.length,
      s.hfVersions height = versionAt table (idealIndex table height))
    (hlt : height < s.blocks.length) :
    IndexAt table originalVersion s.blocks.length (s.rescanFromBlockHeight height).toHardFork ∧
      (s.rescanFromBlockHeight height).blocks = s.blocks ∧
      (s.rescanFromBlockHeight height).hfVersions = s.hfVersions := by
  rw [ForkState.rescanFromBlockHeight, if_neg (not_le.mpr hlt)]
  obtain ⟨hheights', horiginal', -⟩ := sameIndex_foldl_countVote s.clear (s.blocks.drop height)
  grind [HardFork.clear, seekVersion_versionAt, htable.versions, idealIndex_lt, htable.nonempty,
    IndexAt.raise, idealIndex_mono]

theorem init_spec (htable : TableOk table originalVersion) (s : ForkState)
    (hheights : completeTable s.heights s.originalVersion = table)
    (horiginal : s.originalVersion = originalVersion)
    (hstored : ∀ height < s.blocks.length,
      s.hfVersions height = versionAt table (idealIndex table height)) :
    IndexAt table originalVersion s.blocks.length s.init.toHardFork ∧
      s.init.blocks = s.blocks ∧ s.init.hfVersions = s.hfVersions := by
  have hscan : ForkState.rescanStart s.windowSize s.blocks.length ≠ 0 ∧ (s.blocks.length ≠ 0 →
        ForkState.rescanStart s.windowSize s.blocks.length - 1 < s.blocks.length) := by
    unfold ForkState.rescanStart
    split_ifs <;> omega
  unfold ForkState.init
  dsimp only
  rw [hheights, if_neg hscan.1]
  by_cases hempty : s.blocks.length = 0
  · rw [ForkState.rescanFromBlockHeight, if_pos (by dsimp only; omega)]
    refine ⟨⟨rfl, horiginal, ?_⟩, rfl, rfl⟩
    rw [hempty, idealIndex_zero htable.heights]
  · exact rescan_spec htable
      { s with toHardFork := { s.clear with heights := table, currentForkIndex := 0 } } rfl
      horiginal hstored (hscan.2 hempty)

theorem Follows.init (htable : TableOk table originalVersion)
    (h : Follows table originalVersion s) : Follows table originalVersion s.init := by
  grind [h.index.heights, completeTable, htable.nonempty, init_spec, h.index.originalVersion,
    h.stored, h.congr]

/-- Adding the blocks again goes through and changes no version. -/
theorem readd_spec (htable : TableOk table originalVersion) (s : ForkState) (height : ℕ)
    (rest : List ForkBlock) (hindex : IndexAt table originalVersion height s.toHardFork)
    (hfits : ∀ i b, rest[i]? = some b → Fits table (height + i) b)
    (hstored : ∀ h < height + rest.length, s.hfVersions h = versionAt table (idealIndex table h)) :
    IndexAt table originalVersion (height + rest.length) (s.readd height rest).toHardFork ∧
      (s.readd height rest).blocks = s.blocks ∧
      (s.readd height rest).hfVersions = s.hfVersions := by
  induction rest generalizing s height with
  | nil => exact ⟨hindex, rfl, rfl⟩
  | cons b rest ih =>
    obtain ⟨hnext, hblocks, hversions⟩ := add_spec htable s height hindex (hfits 0 b rfl)
    have hsame : (s.add b height).hfVersions = s.hfVersions := by
      rw [hversions, ← hstored height (by rw [length_cons]; omega), Function.update_eq_self]
    rw [length_cons] at hstored ⊢
    obtain ⟨hlast, hblocks', hversions'⟩ := ih (s.add b height) (height + 1) hnext
      (fun i other hother => by
        have hi := hfits (i + 1) other hother
        rwa [show height + (i + 1) = height + 1 + i by omega] at hi)
      (fun h hlt => by
        rw [hsame]
        exact hstored h (by omega))
    refine ⟨?_, hblocks'.trans hblocks, hversions'.trans hsame⟩
    rw [show height + (rest.length + 1) = height + 1 + rest.length by omega]
    exact hlast

theorem Follows.reorganizeFromBlockHeight (htable : TableOk table originalVersion)
    (h : Follows table originalVersion s) (height : ℕ) :
    Follows table originalVersion (s.reorganizeFromBlockHeight height) := by
  unfold ForkState.reorganizeFromBlockHeight
  by_cases hhigh : s.blocks.length ≤ height
  · rw [if_pos hhigh]
    exact h
  · rw [if_neg hhigh]
    rw [not_le] at hhigh
    -- The version of the block at the height gives its fork back.
    have hstart : (if height = 0 then s.originalVersion else s.hfVersions height) =
        versionAt table (idealIndex table height) := by
      split_ifs with hzero
      · rw [hzero, idealIndex_zero htable.heights, htable.first, h.index.originalVersion]
      · exact h.stored height hhigh
    have hlowered : HardFork.lowerTo s.heights
        (if height = 0 then s.originalVersion else s.hfVersions height) s.currentForkIndex =
        idealIndex table height := by
      rw [hstart, h.index.heights, h.index.index]
      exact lowerTo_versionAt htable.versions (idealIndex_mono hhigh.le)
        (idealIndex_lt htable.nonempty _)
    dsimp only
    rw [hlowered]
    set lowered : HardFork := { s.clear with currentForkIndex := idealIndex table height }
    set votes := (s.blocks.take (height + 1)).drop
      (if s.windowSize - 1 ≤ height then height - (s.windowSize - 1) else 0)
    obtain ⟨hheights, horiginal, hindex⟩ := sameIndex_foldl_countVote lowered votes
    have hraised : IndexAt table originalVersion (height + 1)
        ((votes.foldl HardFork.countVote lowered).raise (height + 1)) :=
      IndexAt.raise htable (hheights.trans h.index.heights)
        (horiginal.trans h.index.originalVersion)
        (hindex.le.trans (idealIndex_mono (Nat.le_succ height)))
    have hlength : height + 1 + (s.blocks.drop (height + 1)).length = s.blocks.length := by
      rw [length_drop]
      omega
    obtain ⟨hlast, hblocks, hversions⟩ := readd_spec htable
      { s with toHardFork := (votes.foldl HardFork.countVote lowered).raise (height + 1) }
      (height + 1) (s.blocks.drop (height + 1)) hraised
      (fun i b hb => by
        rw [getElem?_drop] at hb
        exact h.fits _ b hb)
      (fun other hlt => h.stored other (by omega))
    rw [hlength] at hlast
    exact h.congr hlast hblocks hversions

theorem Follows.step (htable : TableOk table originalVersion) (h : Follows table originalVersion s)
    (event : ForkEvent) :
    Follows table originalVersion (s.step event) := by
  cases event with
  | init => exact h.init htable
  | add b => exact h.add htable b
  | pop nblocks => exact h.pop nblocks
  | reorganizeFromBlockHeight height => exact h.reorganizeFromBlockHeight htable height
  | reorganizeFromChainHeight height =>
    rw [ForkState.step, ForkState.reorganizeFromChainHeight]
    split_ifs
    · exact h
    · exact h.reorganizeFromBlockHeight htable (height - 1)

theorem Follows.after (htable : TableOk table originalVersion) (h : Follows table originalVersion s)
    (events : List ForkEvent) :
    Follows table originalVersion (s.after events) := by
  induction events generalizing s with
  | nil => exact h
  | cons event events ih => exact ih (h.step htable event)

theorem follows_start (htable : TableOk (completeTable table originalVersion) originalVersion)
    (windowSize : ℕ) : Follows (completeTable table originalVersion) originalVersion
      (ForkState.start table originalVersion windowSize) := by
  obtain ⟨hindex, hblocks, -⟩ := init_spec htable
    { heights := table, originalVersion, windowSize } rfl rfl
    (fun height hlt => absurd hlt (Nat.not_lt_zero height))
  have hempty : (ForkState.start table originalVersion windowSize).blocks = [] := hblocks
  refine ⟨?_, fun height hlt => ?_, fun height b hb => ?_⟩ <;> grind [ForkState.start]

theorem Follows.getCurrentVersion (htable : TableOk table originalVersion)
    (h : Follows table originalVersion s) :
    s.getCurrentVersion = s.getIdealVersion s.blocks.length := by
  rw [HardFork.getCurrentVersion, HardFork.getIdealVersion, h.index.heights, h.index.index,
    h.index.originalVersion, ← htable.first, idealVersionFrom_eq, idealIndex]

/-- The version is a function of the height of the chain, through all additions, pops and
reorganisations, so that two nodes at one height agree. -/
theorem version_follows_height (table : List ForkParams) (originalVersion windowSize : ℕ)
    (hversions : table.Pairwise fun a b => a.version < b.version)
    (hheights : table.Pairwise fun a b => a.height < b.height)
    (hthreshold : ∀ params ∈ table, params.threshold = 0)
    (hfirst : ∀ params ∈ table.head?, params.version = originalVersion)
    (events : List ForkEvent) :
    let s := (ForkState.start table originalVersion windowSize).after events
    s.getCurrentVersion = s.getIdealVersion s.blocks.length ∧
      ∀ events', let s' := (ForkState.start table originalVersion windowSize).after events'
        s'.blocks.length = s.blocks.length → s'.getCurrentVersion = s.getCurrentVersion := by
  have htable : TableOk (completeTable table originalVersion) originalVersion := by
    unfold completeTable
    split_ifs with hempty
    · refine ⟨cons_ne_nil _ _, pairwise_singleton _ _, pairwise_singleton _ _,
        fun params hparams => ?_, rfl⟩
      rw [mem_singleton.mp hparams]
    · refine ⟨hempty, hversions, hheights, hthreshold, ?_⟩
      cases table with
      | nil => exact absurd rfl hempty
      | cons first rest => exact hfirst first rfl
  have hrun := fun events => (follows_start htable windowSize).after htable events
  refine ⟨(hrun events).getCurrentVersion htable, fun events' hlength => ?_⟩
  have h := (hrun events).index
  have h' := (hrun events').index
  rw [HardFork.getCurrentVersion, HardFork.getCurrentVersion, h.heights, h'.heights, h.index,
    h'.index, hlength]

def sampleTable : List ForkParams := [⟨1, 0, 0⟩, ⟨7, 2, 0⟩, ⟨8, 3, 0⟩]

/-- Across two forks, back below them and up again. -/
def sampleForkRun : List ForkEvent :=
  [.add ⟨1, 1⟩, .add ⟨1, 8⟩, .add ⟨7, 8⟩, .add ⟨8, 8⟩, .pop 3, .init, .add ⟨1, 1⟩, .add ⟨7, 7⟩,
    .reorganizeFromBlockHeight 0]

theorem sampleForkRun_version :
    let s := (ForkState.start sampleTable 1 2).after sampleForkRun
    s.blocks.length = 3 ∧ s.getCurrentVersion = s.getIdealVersion s.blocks.length :=
  ⟨by decide, (version_follows_height sampleTable 1 2 (by decide) (by decide) (by decide)
    (by decide) sampleForkRun).1⟩

/-- A table that does not begin with the original version. -/
theorem later_table_disagrees :
    let s := (ForkState.start [⟨7, 0, 0⟩, ⟨8, 100, 0⟩] 1 10080).after [.add ⟨7, 7⟩]
    s.blocks.length = 1 ∧ s.getCurrentVersion = 7 ∧ s.getIdealVersion 1 = 1 := by
  decide

end Run

end Arqma.Cryptonote
