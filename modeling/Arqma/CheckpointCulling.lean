import Arqma.ImmutableCheckpoints
import Arqma.Staking

/-!
# Detaching and culling checkpoints

Both loops of the class `checkpoints` go in steps of the interval: the one for a detached chain
down from the top checkpoint, the one for an added block up from a cursor. Which heights they
visit depends on where they begin, so that a hard-coded checkpoint on top or a cursor that was set
back to any height leads them past the checkpoints of the service nodes.
-/
namespace Arqma.Chain
open Arqma.Cryptonote Arqma.ServiceNodes Checkpoints

section Detach

/-- Detaching removes the checkpoints of the service nodes from a height on, and none that is hard
coded, exactly if from there on those of the service nodes are the ones on the stride of the top
checkpoint. -/
theorem detach_clears_iff (c : Checkpoints) (height : ℕ) :
    (∀ row ∈ (c.blockchainDetached height).db.rows, row.type = .serviceNode → row.height < height) ∧
        (∀ row ∈ c.db.rows, row.type = .hardcoded → row ∈ (c.blockchainDetached height).db.rows) ↔
      ∀ row ∈ c.db.rows, height ≤ row.height → (row.type = .serviceNode ↔
        checkpointInterval ≤ row.height ∧ ∀ top, c.db.getTopCheckpoint = some top →
          row.height % checkpointInterval = top.height % checkpointInterval) := by
  constructor
  · rintro ⟨hcleared, hkept⟩ row hrow hle
    constructor
    · intro htype
      by_contra hmissed
      have hleft : row ∈ (c.blockchainDetached height).db.rows :=
        mem_blockchainDetached.mpr ⟨hrow, fun h => hmissed h.2⟩
      exact absurd (hcleared row hleft htype) hle.not_gt
    · intro hvisited
      cases htype : row.type with
      | serviceNode => rfl
      | hardcoded =>
        exact absurd ⟨hle, hvisited⟩ (mem_blockchainDetached.mp (hkept row hrow htype)).2
  · grind [mem_blockchainDetached.mp, mem_blockchainDetached.mpr]

/-- Checkpoints of the service nodes at heights 8 and 12 and a hard-coded one at 14. -/
def mixedTable : CheckpointTable :=
  ((hardcodedTable 14).put (signedCheckpoint 12 12)).put (signedCheckpoint 8 8)

/-- Detached from height 8 on, it loses the hard-coded checkpoint and nothing else. -/
theorem detach_removes_hardcoded :
    (mixedTable.rows.map fun row => (row.height, row.type)) =
        [(8, .serviceNode), (12, .serviceNode), (14, .hardcoded)] ∧
      ((Checkpoints.blockchainDetached { db := mixedTable } 8).db.rows.map fun row =>
        (row.height, row.type)) = [(8, .serviceNode), (12, .serviceNode)] := by
  decide +kernel

end Detach

/-- One that culling should remove. -/
def Checkpoint.temporary (row : Checkpoint) : Bool :=
  row.type = .serviceNode && row.height % checkpointStorePersistentlyInterval ≠ 0

/-- Those of the service nodes are at multiples of the interval. -/
def Checkpoint.aligned (row : Checkpoint) : Bool :=
  row.type ≠ .serviceNode || row.height % checkpointInterval = 0

namespace Checkpoints

def culls (b : Block) : Bool :=
  checkpointStorePersistentlyInterval ≤ getBlockHeight b && 16 ≤ b.majorVersion

/-- The immutable checkpoint that a block finds. -/
def cullTarget (c : Checkpoints) (b : Block) : Option Checkpoint :=
  if culls b then c.db.getImmutableCheckpoint (getBlockHeight b + 1) else none

def endCullHeight (c : Checkpoints) (b : Block) : ℕ :=
  match c.db.getImmutableCheckpoint (getBlockHeight b + 1) with
  | some immutable => immutable.height
  | none => 0

/-- Where the loop begins. -/
def firstCull (c : Checkpoints) (stop : ℕ) : ℕ := max c.lastCullHeight (startCullHeight stop)

/-- The heights that the loop removes. -/
def Sweeps (c : Checkpoints) (stop height : ℕ) : Prop :=
  c.firstCull stop ≤ height ∧ height < stop ∧
    height % checkpointInterval = c.firstCull stop % checkpointInterval ∧
    height % checkpointStorePersistentlyInterval ≠ 0

end Checkpoints

/-- The last sixty heights below the immutable checkpoint. -/
def InWindow (stop height : ℕ) : Prop :=
  stop - checkpointStorePersistentlyInterval ≤ height ∧ height < stop

/-- Nothing temporary is left in the window, and what is to be kept is there unless the checkpoint
that came with the block took its place. -/
def CulledBelow (stop : ℕ) (checkpoint : Option Checkpoint) (before after : CheckpointTable) :
    Prop :=
  (∀ row ∈ after.rows, row.temporary = true → ¬ InWindow stop row.height) ∧
  ∀ row ∈ before.rows, row.type = .serviceNode →
    row.height % checkpointStorePersistentlyInterval = 0 →
      row ∈ after.rows ∨ ∃ own ∈ checkpoint, own.height = row.height

/-- Everything temporary in the window is swept or replaced, and the checkpoint that comes with the
block is not such a one itself. -/
def Checkpoints.Covers (c : Checkpoints) (stop : ℕ) (checkpoint : Option Checkpoint) : Prop :=
  (∀ row ∈ c.db.rows, row.temporary = true → InWindow stop row.height →
    c.Sweeps stop row.height ∨ ∃ own ∈ checkpoint, own.height = row.height) ∧
  ∀ own ∈ checkpoint, own.readBack.temporary = true → ¬ InWindow stop own.height

section Cull

variable {c : Checkpoints} {b : Block} {checkpoint : Option Checkpoint} {row : Checkpoint}

theorem Checkpoint.temporary_iff : row.temporary = true ↔
    row.type = .serviceNode ∧ row.height % checkpointStorePersistentlyInterval ≠ 0 := by
  simp [Checkpoint.temporary]

theorem blockAdded_of_culls (hculls : culls b = true) : c.blockAdded b checkpoint =
      let culled := cullUpTo (c.endCullHeight b) (c.endCullHeight b)
        (c.firstCull (c.endCullHeight b)) c.db
      { c with
        lastCullHeight := culled.1
        db := checkpoint.elim culled.2 culled.2.updateBlockCheckpoint } := by
  have hblock :
      ¬ (getBlockHeight b < checkpointStorePersistentlyInterval ∨ b.majorVersion < 16) := by
    simpa [culls] using hculls
  rw [blockAdded]
  simp only [if_neg hblock]
  cases checkpoint <;> rfl

/-- What a block leaves: its own checkpoint, and what the loop does not remove. -/
theorem mem_blockAdded (hculls : culls b = true) : row ∈ (c.blockAdded b checkpoint).db.rows ↔
      (∃ own ∈ checkpoint, row = own.readBack) ∨
        row ∈ c.db.rows ∧ ¬ c.Sweeps (c.endCullHeight b) row.height ∧
          ∀ own ∈ checkpoint, row.height ≠ own.height := by
  have hcull : row ∈ (cullUpTo (c.endCullHeight b) (c.endCullHeight b)
      (c.firstCull (c.endCullHeight b)) c.db).2.rows ↔
        row ∈ c.db.rows ∧ ¬ c.Sweeps (c.endCullHeight b) row.height :=
    mem_cullUpTo (Nat.le_add_left _ _)
  rw [blockAdded_of_culls hculls]
  cases checkpoint with
  | none => exact hcull.trans (by simp)
  | some own =>
    refine OrderedTable.mem_put.trans ((or_congr_right (and_congr_left' hcull)).trans ?_)
    simp [and_assoc]

theorem culledBelow_iff (hculls : culls b = true) :
    CulledBelow (c.endCullHeight b) checkpoint c.db (c.blockAdded b checkpoint).db ↔
      c.Covers (c.endCullHeight b) checkpoint := by
  constructor
  · rintro ⟨hgone, -⟩
    refine ⟨fun row hrow htemporary hwindow => ?_, fun own hown htemporary => ?_⟩
    · grind [mem_blockAdded]
    · exact hgone own.readBack ((mem_blockAdded hculls).mpr (Or.inl ⟨own, hown, rfl⟩)) htemporary
  · rintro ⟨hswept, hown⟩
    refine ⟨fun row hrow htemporary hwindow => ?_, fun row hrow htype hkept => ?_⟩
    · obtain ⟨own, hmem, rfl⟩ | ⟨hmem, hmissed, hothers⟩ := (mem_blockAdded hculls).mp hrow
      · exact hown own hmem htemporary hwindow
      · grind
    · by_cases hown : ∃ own ∈ checkpoint, own.height = row.height
      · exact Or.inr hown
      · refine Or.inl ((mem_blockAdded hculls).mpr (Or.inr ⟨hrow, fun h => h.2.2.2 hkept, ?_⟩))
        exact fun own hmem heq => hown ⟨own, hmem, heq.symm⟩

end Cull

section Run

inductive CheckpointHook
  | blockAdded (b : Block) (checkpoint : Option Checkpoint)
  | blockchainDetached (height : ℕ)

namespace CheckpointHook

def stored : CheckpointHook → Option Checkpoint
  | .blockAdded _ checkpoint => checkpoint.map Checkpoint.readBack
  | .blockchainDetached _ => none

end CheckpointHook

namespace Checkpoints

def run (c : Checkpoints) : CheckpointHook → Checkpoints
  | .blockAdded b checkpoint => c.blockAdded b checkpoint
  | .blockchainDetached height => c.blockchainDetached height

def after (c : Checkpoints) (hooks : List CheckpointHook) : Checkpoints := hooks.foldl run c

/-- A chain is detached at a multiple of the interval. A block moves the cursor past nothing
temporary, and brings no checkpoint that is below the cursor or the end of the loop. -/
def careful (c : Checkpoints) : CheckpointHook → Bool
  | .blockchainDetached height => height % checkpointInterval = 0
  | .blockAdded b checkpoint =>
    (c.db.rows.all fun row => !row.temporary || row.height < c.lastCullHeight ||
      startCullHeight (c.endCullHeight b) ≤ row.height) &&
    checkpoint.all fun own => !own.readBack.temporary ||
      c.lastCullHeight ≤ own.height && (!culls b || c.endCullHeight b ≤ own.height)

def carefulRun : Checkpoints → List CheckpointHook → Bool
  | _, [] => true
  | c, hook :: hooks => c.careful hook && carefulRun (c.run hook) hooks

/-- The cursor is on the stride of the service nodes, and nothing temporary is below it. -/
structure Swept (c : Checkpoints) : Prop where
  cursor : c.lastCullHeight % checkpointInterval = 0
  aligned : ∀ row ∈ c.db.rows, row.aligned = true
  temporary : ∀ row ∈ c.db.rows, row.temporary = true → c.lastCullHeight ≤ row.height

end Checkpoints

variable {c : Checkpoints} {b : Block} {checkpoint : Option Checkpoint} {row : Checkpoint}

theorem startCullHeight_spec (stop : ℕ) :
    startCullHeight stop % checkpointInterval = 0 ∧ startCullHeight stop ≤ stop := by
  unfold startCullHeight
  simp only [show checkpointInterval = 4 from rfl,
    show checkpointStorePersistentlyInterval = 60 from rfl]
  split_ifs <;> omega

/-- The cursor ends at the first height of its stride that is not below the end. -/
theorem cullUpTo_fst {stop fuel last ended : ℕ} {table : CheckpointTable}
    (hfuel : stop ≤ last + fuel) (hended : (cullUpTo stop fuel last table).1 = ended) :
    stop ≤ ended ∧ ended % checkpointInterval = last % checkpointInterval ∧
      (ended = last ∨ ended < stop + checkpointInterval) := by
  have hinterval : checkpointInterval = 4 := rfl
  induction fuel generalizing last table with
  | zero =>
    subst hended
    exact ⟨hfuel, rfl, Or.inl rfl⟩
  | succ fuel ih =>
    rw [cullUpTo] at hended
    by_cases hlast : last < stop <;> grind

theorem Checkpoints.Swept.firstCull_mod (h : c.Swept) (stop : ℕ) :
    c.firstCull stop % checkpointInterval = 0 := by
  grind [firstCull, startCullHeight_spec, h.cursor]

theorem Checkpoint.mod_of_temporary (haligned : row.aligned = true)
    (htemporary : row.temporary = true) : row.height % checkpointInterval = 0 := by
  grind [Checkpoint.aligned, Checkpoint.temporary]

/-- The loop begins below everything temporary, and sweeps what of it is below its end. -/
theorem Checkpoints.Swept.sweeps (h : c.Swept)
    (hcareful : c.careful (.blockAdded b checkpoint) = true) (hrow : row ∈ c.db.rows)
    (htemporary : row.temporary = true) :
    c.firstCull (c.endCullHeight b) ≤ row.height ∧
      (row.height < c.endCullHeight b → c.Sweeps (c.endCullHeight b) row.height) := by
  have hskipped := List.all_eq_true.mp (Bool.and_eq_true_iff.mp hcareful).1 row hrow
  have hcursor := h.temporary row hrow htemporary
  have hfirst : c.firstCull (c.endCullHeight b) ≤ row.height := by
    grind [firstCull]
  have hmod := Checkpoint.mod_of_temporary (h.aligned row hrow) htemporary
  refine ⟨hfirst, fun hlt => ⟨hfirst, hlt, hmod.trans (h.firstCull_mod _).symm, ?_⟩⟩
  exact (Checkpoint.temporary_iff.mp htemporary).2

/-- A careful block keeps the invariant and leaves nothing temporary in its window. -/
theorem Checkpoints.Swept.blockAdded (h : c.Swept)
    (hcareful : c.careful (.blockAdded b checkpoint) = true)
    (haligned : ∀ own ∈ checkpoint, own.readBack.aligned = true) :
    (c.blockAdded b checkpoint).Swept ∧
      (culls b = true → c.Covers (c.endCullHeight b) checkpoint) := by
  by_cases hculls : culls b = true
  · obtain ⟨hend, hcursor, hlast⟩ : c.endCullHeight b ≤ (c.blockAdded b checkpoint).lastCullHeight ∧
        (c.blockAdded b checkpoint).lastCullHeight % checkpointInterval = 0 ∧
        ((c.blockAdded b checkpoint).lastCullHeight = c.firstCull (c.endCullHeight b) ∨
          (c.blockAdded b checkpoint).lastCullHeight < c.endCullHeight b + checkpointInterval) := by
      rw [← h.firstCull_mod (c.endCullHeight b), blockAdded_of_culls hculls]
      exact cullUpTo_fst (Nat.le_add_left _ _) rfl
    have hbrought : ∀ own ∈ checkpoint, own.readBack.temporary = true →
        (c.blockAdded b checkpoint).lastCullHeight ≤ own.height := by
      intro own hown htemporary
      have hall := (Bool.and_eq_true_iff.mp hcareful).2
      have hmod := Checkpoint.mod_of_temporary (haligned own hown) htemporary
      have hstart := (startCullHeight_spec (c.endCullHeight b)).2
      rw [Option.mem_def.mp hown] at hall
      simp only [Option.all_some, htemporary, hculls, Bool.not_true, Bool.false_or,
        Bool.and_eq_true, decide_eq_true_eq] at hall
      have hheight : own.readBack.height = own.height := rfl
      rw [show checkpointInterval = 4 from rfl] at hcursor hlast hmod
      rw [firstCull] at hlast
      omega
    refine ⟨⟨hcursor, fun row hrow => ?_, fun row hrow htemporary => ?_⟩, fun _ =>
      ⟨fun row hrow htemporary hwindow => ?_, fun own hown htemporary hwindow => ?_⟩⟩
    · obtain ⟨own, hown, rfl⟩ | ⟨hmem, -⟩ := (mem_blockAdded hculls).mp hrow
      · exact haligned own hown
      · exact h.aligned row hmem
    · obtain ⟨own, hown, rfl⟩ | ⟨hmem, hmissed, -⟩ := (mem_blockAdded hculls).mp hrow
      · exact hbrought own hown htemporary
      · -- Not swept, so that it is not below the end, and the cursor stops at its height at most.
        obtain ⟨hfirst, hsweeps⟩ := h.sweeps hcareful hmem htemporary
        have hstop : ¬ row.height < c.endCullHeight b := fun hlt => hmissed (hsweeps hlt)
        have hmod := Checkpoint.mod_of_temporary (h.aligned row hmem) htemporary
        rw [show checkpointInterval = 4 from rfl] at hcursor hlast hmod
        omega
    · exact Or.inl ((h.sweeps hcareful hrow htemporary).2 hwindow.2)
    · exact absurd (hend.trans (hbrought own hown htemporary)) hwindow.2.not_ge
  · grind [culls, blockAdded]

theorem Checkpoints.Swept.blockchainDetached (h : c.Swept) {height : ℕ}
    (hcareful : c.careful (.blockchainDetached height) = true) :
    (c.blockchainDetached height).Swept := by
  have hheight : height % checkpointInterval = 0 := of_decide_eq_true hcareful
  refine ⟨?_, fun row hrow => h.aligned row (mem_blockchainDetached.mp hrow).1, ?_⟩
  · grind [blockchainDetached, h.cursor]
  · intro row hrow htemporary
    exact (min_le_left _ _).trans (h.temporary row (mem_blockchainDetached.mp hrow).1 htemporary)

theorem Checkpoints.Swept.after (h : c.Swept) {hooks : List CheckpointHook}
    (hcareful : c.carefulRun hooks = true)
    (haligned : ∀ hook ∈ hooks, ∀ own ∈ hook.stored, own.aligned = true) :
    (c.after hooks).Swept := by
  induction hooks generalizing c with
  | nil => exact h
  | cons hook hooks ih =>
    obtain ⟨hfirst, hrest⟩ := Bool.and_eq_true_iff.mp hcareful
    refine ih ?_ hrest fun other hother => haligned other (List.mem_cons_of_mem hook hother)
    cases hook with
    | blockchainDetached height => exact h.blockchainDetached hfirst
    | blockAdded b checkpoint =>
      refine (h.blockAdded hfirst fun own hown => ?_).1
      exact haligned _ List.mem_cons_self _ (Option.mem_map_of_mem _ hown)

theorem carefulRun_append (hooks : List CheckpointHook) (hook : CheckpointHook) :
    c.carefulRun (hooks ++ [hook]) = (c.carefulRun hooks && (c.after hooks).careful hook) := by
  induction hooks generalizing c <;> grind [carefulRun, after]

/-- After a block that finds an immutable checkpoint the table is culled exactly if the loop covers
the window. It does so after every careful run from a table whose checkpoints of the service nodes
are at multiples of the interval. -/
theorem culling_complete_iff (table : CheckpointTable) (hooks : List CheckpointHook) (b : Block)
    (checkpoint : Option Checkpoint) (immutable : Checkpoint)
    (htarget : (Checkpoints.after { db := table } hooks).cullTarget b = some immutable)
    (haligned : ∀ row ∈ table.rows, row.aligned = true)
    (hhooks : ∀ hook ∈ hooks ++ [.blockAdded b checkpoint], ∀ own ∈ hook.stored,
      own.aligned = true) :
    let c := Checkpoints.after { db := table } hooks
    let culled := CulledBelow immutable.height checkpoint c.db (c.blockAdded b checkpoint).db
    (culled ↔ c.Covers immutable.height checkpoint) ∧
      (Checkpoints.carefulRun { db := table } (hooks ++ [.blockAdded b checkpoint]) = true →
        culled) := by
  intro c culled
  obtain ⟨hculls, hend⟩ : Checkpoints.culls b = true ∧ c.endCullHeight b = immutable.height := by
    rw [Checkpoints.cullTarget] at htarget
    split_ifs at htarget with hculls
    exact ⟨hculls, by rw [Checkpoints.endCullHeight, htarget]⟩
  have hculled : culled ↔ c.Covers immutable.height checkpoint := by
    simp only [culled, ← hend]
    exact culledBelow_iff hculls
  refine ⟨hculled, fun hcareful => hculled.mpr ?_⟩
  rw [carefulRun_append, Bool.and_eq_true] at hcareful
  have hstart : Checkpoints.Swept { db := table } :=
    ⟨rfl, haligned, fun _ _ _ => Nat.zero_le _⟩
  have hswept := hstart.after hcareful.1 fun hook hhook =>
    hhooks hook (List.mem_append_left _ hhook)
  refine hend ▸ (hswept.blockAdded hcareful.2 fun own hown => ?_).2 hculls
  exact hhooks _ (List.mem_append_right _ List.mem_cons_self) _ (Option.mem_map_of_mem _ hown)

def signedTable (heights : List ℕ) : CheckpointTable :=
  heights.foldl (fun table height => table.put (signedCheckpoint height 0)) OrderedTable.empty

/-- A block at a height, with a checkpoint of the service nodes for it or without. -/
def addedAt (height : ℕ) (signed : Bool) : CheckpointHook :=
  .blockAdded (sampleBlock 16 height) (if signed then some (signedCheckpoint height 0) else none)

/-- Blocks are popped down to a height and come again. -/
def poppedTo (height : ℕ) : List CheckpointHook :=
  [addedAt 70 false, .blockchainDetached height, addedAt 64 true, addedAt 68 true, addedAt 72 true]

theorem popped_to_sixty_culled :
    let c := Checkpoints.after { db := signedTable [64, 68] } (poppedTo 60)
    CulledBelow 68 none c.db (c.blockAdded (sampleBlock 16 73) none).db :=
  (culling_complete_iff (signedTable [64, 68]) (poppedTo 60) (sampleBlock 16 73) none
    (signedCheckpoint 68 0) (by decide +kernel) (by decide +kernel) (by decide +kernel)).2
    (by decide +kernel)

/-- Popped down to height 62 the cursor is off the stride, and the checkpoint at 64 is left. A
cursor that has jumped from 0 to 140 leaves the one at 100 behind. A hard-coded checkpoint right
above a block makes the block's own one temporary. -/
theorem temporary_checkpoint_left :
    let left := fun (table : CheckpointTable) hooks height signed =>
      let c := Checkpoints.after { db := table } hooks
      ((c.cullTarget (sampleBlock 16 height)).map Checkpoint.height,
        ((c.run (addedAt height signed)).db.rows.filter Checkpoint.temporary).map Checkpoint.height)
    left (signedTable [64, 68]) (poppedTo 62) 73 false = (some 68, [64, 68, 72]) ∧
      left (signedTable [100, 104, 200, 204])
        [addedAt 210 false, .blockchainDetached 140, addedAt 144 true] 148 false =
          (some 104, [100, 104, 144]) ∧
      left (hardcodedTable 69) [] 68 true = (some 69, [68]) := by
  decide +kernel

end Run

end Arqma.Chain
