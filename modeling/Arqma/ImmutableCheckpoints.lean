import Arqma.CheckpointRange

/-!
# The immutable checkpoint

Of the checkpoints that are not above the chain, the highest one is immutable if it is hard
coded and the second highest one otherwise. A height is sealed while the table has what makes
it immutable; the lemmas say which changes of the table and of the chain keep it sealed.
-/
namespace Arqma.Chain
open Arqma.Cryptonote Arqma.ServiceNodes OrderedTable List

variable {row : Checkpoint} {table' : CheckpointTable} {checkpoint : Checkpoint}
  {table : CheckpointTable} {blockHeight : ℕ} {c : Checkpoint}

section Sealed

variable {table : CheckpointTable} {height sealedHeight : ℕ}

/-- The table has a checkpoint at or above `sealedHeight` that is immutable for a chain of this
height: a hard-coded one, or one with another checkpoint above it. -/
def CheckpointTable.Sealed (table : CheckpointTable) (height sealedHeight : ℕ) : Prop :=
  ∃ row ∈ table.rows, sealedHeight ≤ row.height ∧ row.height ≤ height ∧
    (row.type = .hardcoded ∨ ∃ above ∈ table.rows, row.height < above.height ∧
      above.height ≤ height)

theorem CheckpointTable.Sealed.exists_row (h : table.Sealed height sealedHeight) :
    ∃ row ∈ table.rows, row.height ≤ height := by
  obtain ⟨row, hrow, -, hle, -⟩ := h
  exact ⟨row, hrow, hle⟩

theorem getImmutableCheckpoint_eq (hbelow : ∃ c ∈ table.rows, c.height ≤ height) :
    table.getImmutableCheckpoint height = match (table.upTo height).reverse with
      | [] => none
      | first :: rest => if first.type ≠ .serviceNode then some first else rest.head? := by
  unfold CheckpointTable.getImmutableCheckpoint
  rw [getCheckpointsRange_downwards hbelow]
  cases (table.upTo height).reverse with
  | nil => rfl
  | cons first rest =>
    cases rest with
    | nil => rfl
    | cons second rest => rfl

/-- The rows up to the chain, from the highest one down, are in decreasing order. -/
theorem decreasing_reverse_upTo (table : CheckpointTable) (height : ℕ) :
    (table.upTo height).reverse.Pairwise fun a b => b.height < a.height :=
  pairwise_reverse.mpr (table.sorted_upTo height)

theorem mem_reverse_upTo :
    c ∈ (table.upTo height).reverse ↔ c ∈ table.rows ∧ c.height ≤ height := by
  rw [mem_reverse, CheckpointTable.mem_upTo]

theorem sealed_of_getImmutableCheckpoint
    (h : table.getImmutableCheckpoint height = some c) (hle : c.height ≤ height) :
    table.Sealed height c.height := by
  have hmem : c ∈ table.rows := mem_of_getImmutableCheckpoint h
  refine ⟨c, hmem, le_refl _, hle, ?_⟩
  rw [getImmutableCheckpoint_eq ⟨c, hmem, hle⟩] at h
  have hdecreasing := decreasing_reverse_upTo table height
  cases hrows : (table.upTo height).reverse with
  | nil =>
    rw [hrows] at h
    cases h
  | cons first rest =>
    rw [hrows] at h hdecreasing
    have hfirst : first ∈ table.rows ∧ first.height ≤ height :=
      mem_reverse_upTo.mp (hrows ▸ mem_cons_self)
    by_cases htype : first.type = .serviceNode
    · grind [pairwise_cons.mp, mem_of_head?]
    · simp only [ne_eq, htype, not_false_eq_true, if_true] at h
      cases h
      cases hc : c.type with
      | hardcoded => exact Or.inl rfl
      | serviceNode => exact absurd hc htype

theorem CheckpointTable.Sealed.exists_immutable (h : table.Sealed height sealedHeight) :
    ∃ c, table.getImmutableCheckpoint height = some c ∧ sealedHeight ≤ c.height ∧
      c.height ≤ height := by
  have hbelow := h.exists_row
  obtain ⟨row, hrow, hsealed, hle, hrest⟩ := h
  rw [getImmutableCheckpoint_eq hbelow]
  have hmem := mem_reverse_upTo.mpr ⟨hrow, hle⟩
  have hdecreasing := decreasing_reverse_upTo table height
  cases hrows : (table.upTo height).reverse with
  | nil =>
    rw [hrows] at hmem
    cases hmem
  | cons first rest =>
    rw [hrows] at hmem hdecreasing
    rw [pairwise_cons] at hdecreasing
    have hfirst : first ∈ table.rows ∧ first.height ≤ height :=
      mem_reverse_upTo.mp (hrows ▸ mem_cons_self)
    have hrowle : row.height ≤ first.height := by
      obtain rfl | hin := mem_cons.mp hmem
      · exact le_refl _
      · exact (hdecreasing.1 row hin).le
    by_cases htype : first.type = .serviceNode
    · -- The highest one is not hard coded, so that the row is below it.
      have hne : row ≠ first := by
        grind [mem_reverse_upTo.mpr]
      have hin : row ∈ rest := (mem_cons.mp hmem).resolve_left hne
      cases rest with
      | nil => cases hin
      | cons second rest =>
        grind [pairwise_cons.mp]
    · exact ⟨first, by simp [htype], by omega, hfirst.2⟩

theorem CheckpointTable.Sealed.mono {height' sealedHeight' : ℕ}
    (h : table.Sealed height sealedHeight) (hheight : height ≤ height')
    (hsealed : sealedHeight' ≤ sealedHeight) : table.Sealed height' sealedHeight' := by
  grind [Sealed]

/-- Only the rows between the sealed height and the chain matter. -/
theorem CheckpointTable.Sealed.of_keep
    (h : table.Sealed height sealedHeight)
    (hkeep : ∀ row ∈ table.rows, sealedHeight ≤ row.height → row.height ≤ height →
      row ∈ table'.rows) : table'.Sealed height sealedHeight := by
  grind [Sealed]

/-- A hard-coded checkpoint would be replaced by one that is not. -/
def CheckpointTable.overwrites (table : CheckpointTable) (checkpoint : Checkpoint) : Bool :=
  checkpoint.signatures ≠ [] ∧
    (table.find? checkpoint.height).any fun stored => stored.type = .hardcoded

theorem exists_row_updateBlockCheckpoint (checkpoint : Checkpoint) (hrow : row ∈ table.rows) :
    ∃ row' ∈ (table.updateBlockCheckpoint checkpoint).rows, row'.height = row.height ∧
      (table.overwrites checkpoint = false → row.type = .hardcoded → row'.type = .hardcoded) := by
  by_cases hheight : row.height = checkpoint.height
  · refine ⟨checkpoint.readBack, mem_put.mpr (Or.inl rfl), hheight.symm, ?_⟩
    intro hover hhard
    have hfind : table.find? checkpoint.height = some row := find?_eq_some.mpr ⟨hrow, hheight⟩
    grind [CheckpointTable.overwrites, Checkpoint.readBack]
  · exact ⟨row, mem_put.mpr (Or.inr ⟨hrow, hheight⟩), rfl, fun _ hhard => hhard⟩

theorem CheckpointTable.Sealed.update (h : table.Sealed height sealedHeight)
    (hover : table.overwrites checkpoint = false) :
    (table.updateBlockCheckpoint checkpoint).Sealed height sealedHeight := by
  obtain ⟨row, hrow, hle, hrowle, hrest⟩ := h
  obtain ⟨row', hrow', hheight, htype⟩ := exists_row_updateBlockCheckpoint checkpoint hrow
  refine ⟨row', hrow', by omega, by omega, ?_⟩
  obtain hhard | ⟨above, habove, hlt, hale⟩ := hrest
  · exact Or.inl (htype hover hhard)
  · obtain ⟨above', habove', haheight, -⟩ := exists_row_updateBlockCheckpoint checkpoint habove
    exact Or.inr ⟨above', habove', by omega, by omega⟩

theorem overwrites_of_subset
    (hsubset : ∀ row ∈ table'.rows, row ∈ table.rows) (h : table.overwrites checkpoint = false) :
    table'.overwrites checkpoint = false := by
  rw [CheckpointTable.overwrites, decide_eq_false_iff_not] at h ⊢
  rintro ⟨hsigned, hany⟩
  cases hfind : table'.find? checkpoint.height with
  | none => simp [hfind] at hany
  | some stored =>
    grind [find?_eq_some.mpr, find?_eq_some.mp]

end Sealed

section Operations

variable {c : Checkpoints} {height sealedHeight : ℕ}

/-- The loop removes the heights of its stride below the end, but keeps one in fifteen. -/
theorem mem_cullUpTo {stop fuel last : ℕ} (hfuel : stop ≤ last + fuel) :
    row ∈ (Checkpoints.cullUpTo stop fuel last table).2.rows ↔
      row ∈ table.rows ∧ ¬ (last ≤ row.height ∧ row.height < stop ∧
        row.height % checkpointInterval = last % checkpointInterval ∧
        row.height % checkpointStorePersistentlyInterval ≠ 0) := by
  have hinterval : checkpointInterval = 4 := rfl
  have hkept : checkpointStorePersistentlyInterval = 60 := rfl
  induction fuel generalizing last table with
  | zero => exact (and_iff_left (by omega)).symm
  | succ fuel ih =>
    rw [Checkpoints.cullUpTo]
    split_ifs with hlast hkeep
    · refine (ih (by omega)).trans ?_
      rw [hkept] at hkeep
      rw [hinterval, hkept]
      exact and_congr_right fun _ => by omega
    · refine (ih (by omega)).trans ?_
      rw [hkept] at hkeep
      rw [mem_remove, and_assoc, hinterval, hkept]
      exact and_congr_right fun _ => by omega
    · exact (and_iff_left (by omega)).symm

/-- The loop visits exactly the heights on the stride that begins where it does. -/
theorem mem_removeDownTo {fuel deleteHeight : ℕ}
    (hfuel : deleteHeight < fuel) :
    row ∈ (Checkpoints.removeDownTo height fuel deleteHeight table).rows ↔
      row ∈ table.rows ∧ ¬ (height ≤ row.height ∧ checkpointInterval ≤ row.height ∧
        row.height ≤ deleteHeight ∧
        row.height % checkpointInterval = deleteHeight % checkpointInterval) := by
  have hinterval : checkpointInterval = 4 := rfl
  induction fuel generalizing deleteHeight table with
  | zero => omega
  | succ fuel ih =>
    rw [Checkpoints.removeDownTo]
    grind [mem_remove]

theorem mem_blockchainDetached : row ∈ (c.blockchainDetached height).db.rows ↔
      row ∈ c.db.rows ∧ ¬ (height ≤ row.height ∧ checkpointInterval ≤ row.height ∧
        ∀ top, c.db.getTopCheckpoint = some top →
          row.height % checkpointInterval = top.height % checkpointInterval) := by
  unfold Checkpoints.blockchainDetached
  cases htop : c.db.getTopCheckpoint with
  | none =>
    have hrows : c.db.rows = [] := getLast?_eq_none_iff.mp htop
    simp [hrows]
  | some top =>
    rw [mem_removeDownTo (Nat.lt_succ_self _)]
    refine and_congr_right fun hrow => ?_
    simp [height_le_getTopCheckpoint htop hrow]

/-- A detached chain keeps the checkpoints of the blocks it keeps. -/
theorem mem_blockchainDetached_of_lt (hrow : row ∈ c.db.rows) (hlt : row.height < height) :
    row ∈ (c.blockchainDetached height).db.rows :=
  mem_blockchainDetached.mpr ⟨hrow, fun h => absurd h.1 hlt.not_ge⟩

@[simp] theorem immutableHeight_blockAdded (c : Checkpoints) (b : Block)
    (checkpoint : Option Checkpoint) :
    (c.blockAdded b checkpoint).immutableHeight = c.immutableHeight := by
  unfold Checkpoints.blockAdded
  dsimp only
  split_ifs
  · rfl
  · cases checkpoint <;> rfl

theorem CheckpointTable.Sealed.blockAdded (h : c.db.Sealed height sealedHeight) {b : Block}
    (hheight : getBlockHeight b = height) {checkpoint : Option Checkpoint}
    (hover : ∀ attached ∈ checkpoint, c.db.overwrites attached = false) :
    (c.blockAdded b checkpoint).db.Sealed (height + 1) sealedHeight := by
  have hnext := h.mono (Nat.le_succ height) (le_refl _)
  unfold Checkpoints.blockAdded
  dsimp only
  split_ifs
  · exact hnext
  · obtain ⟨immutable, himmutable, hle, hile⟩ := hnext.exists_immutable
    rw [hheight, himmutable]
    have hculled := (sealed_of_getImmutableCheckpoint himmutable hile).of_keep
      fun row hrow hrle _ => (mem_cullUpTo (Nat.le_add_left immutable.height
        (max c.lastCullHeight (Checkpoints.startCullHeight immutable.height)))).mpr
          ⟨hrow, fun h => absurd h.2.1 hrle.not_gt⟩
    have hkept := hculled.mono (le_refl _) hle
    cases checkpoint with
    | none => exact hkept
    | some attached =>
      exact hkept.update
        (overwrites_of_subset (fun row hrow => ((mem_cullUpTo (Nat.le_add_left _ _)).mp hrow).1)
          (hover attached rfl))

/-- What was sealed is remembered. -/
theorem CheckpointTable.Sealed.le_immutableHeight (h : c.db.Sealed height sealedHeight)
    (hblock : blockHeight ≠ 0) :
    sealedHeight ≤ (c.isAlternativeBlockAllowed height blockHeight).1.immutableHeight := by
  grind [Checkpoints.isAlternativeBlockAllowed, beforeFirst_eq_false, h.exists_row,
    h.exists_immutable]

theorem immutableHeight_le_allowed (c : Checkpoints) (height blockHeight : ℕ) :
    c.immutableHeight ≤ (c.isAlternativeBlockAllowed height blockHeight).1.immutableHeight := by
  unfold Checkpoints.isAlternativeBlockAllowed
  split_ifs
  · exact le_refl _
  · exact le_refl _
  · exact le_max_right _ _

theorem immutableHeight_lt_of_allowed
    (h : (c.isAlternativeBlockAllowed height blockHeight).2 = true)
    (hfirst : c.beforeFirst height = false) :
    (c.isAlternativeBlockAllowed height blockHeight).1.immutableHeight < blockHeight := by
  grind [Checkpoints.isAlternativeBlockAllowed]

end Operations

end Arqma.Chain
