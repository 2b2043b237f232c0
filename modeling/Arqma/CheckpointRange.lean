import Arqma.Checkpoints

/-!
# The range query for checkpoints

The query moves its bounds into the range of the table before it looks for the first
checkpoint, and the tests for a range outside the table come after that. So a range that meets
the table gives the stored checkpoints in it, and any other range gives the nearest one.
-/
namespace Arqma.Chain
open Arqma.Cryptonote Arqma.ServiceNodes List CheckpointTable OrderedTable

namespace CheckpointTable

/-- The stored checkpoints between two heights, both included. -/
def inside (table : CheckpointTable) (low high : ℕ) : CheckpointTable :=
  table.filter fun c => low ≤ c.height ∧ c.height ≤ high

/-- What is stored between the heights, in the order from the first one to the second. -/
def between (table : CheckpointTable) (start stop : ℕ) : List Checkpoint :=
  if start ≤ stop then (table.inside start stop).rows else (table.inside stop start).rows.reverse

def upTo (table : CheckpointTable) (height : ℕ) : List Checkpoint :=
  table.rows.filter fun c => c.height ≤ height

/-- Neither is the whole table above the range nor below it. -/
def Meets (table : CheckpointTable) (start stop : ℕ) : Prop :=
  table.rows ≠ [] → (∃ c ∈ table.rows, c.height ≤ max start stop) ∧
    ∃ c ∈ table.rows, min start stop ≤ c.height

end CheckpointTable

/-- The first of them; zero stands for all. -/
def truncate (count : ℕ) (checkpoints : List Checkpoint) : List Checkpoint :=
  if count = 0 then checkpoints else checkpoints.take count

section Truncate

variable {count : ℕ} {checkpoints : List Checkpoint}

theorem truncate_eq_nil : truncate count checkpoints = [] ↔ checkpoints = [] := by
  unfold truncate
  split_ifs with hcount
  · rfl
  · simp [hcount]

theorem truncate_singleton (count : ℕ) (c : Checkpoint) : truncate count [c] = [c] := by
  unfold truncate
  split_ifs with hcount
  · rfl
  · exact take_of_length_le (Nat.one_le_iff_ne_zero.mpr hcount)

theorem mem_of_mem_truncate {c : Checkpoint} (h : c ∈ truncate count checkpoints) :
    c ∈ checkpoints := by
  unfold truncate at h
  split_ifs at h
  · exact h
  · exact mem_of_mem_take h

end Truncate

section Range

variable {table : CheckpointTable} {start stop count height : ℕ} {bottom top c : Checkpoint}

theorem CheckpointTable.mem_inside {low high : ℕ} :
    c ∈ (table.inside low high).rows ↔ c ∈ table.rows ∧ low ≤ c.height ∧ c.height ≤ high := by
  simp [CheckpointTable.inside]

theorem CheckpointTable.mem_between : c ∈ table.between start stop ↔
    c ∈ table.rows ∧ min start stop ≤ c.height ∧ c.height ≤ max start stop := by
  grind [mem_inside, CheckpointTable.between]

theorem CheckpointTable.mem_upTo : c ∈ table.upTo height ↔ c ∈ table.rows ∧ c.height ≤ height := by
  simp [CheckpointTable.upTo]

theorem CheckpointTable.sorted_upTo (table : CheckpointTable) (height : ℕ) :
    (table.upTo height).Pairwise fun a b => a.height < b.height :=
  table.sorted.filter _

theorem CheckpointTable.inside_zero (table : CheckpointTable) (height : ℕ) :
    (table.inside 0 height).rows = table.upTo height := by
  simp [CheckpointTable.inside, CheckpointTable.upTo]

theorem height_le_getTopCheckpoint (htop : table.getTopCheckpoint = some top)
    (hc : c ∈ table.rows) : c.height ≤ top.height :=
  (getLast?_eq_some.mp htop).2 c hc

/-- Downwards to the same height is upwards as well. -/
theorem between_of_le (hle : stop ≤ start) :
    table.between start stop = (table.inside stop start).rows.reverse := by
  unfold CheckpointTable.between
  split_ifs with hge
  · obtain rfl : start = stop := le_antisymm hge hle
    refine (reverse_rows_of_key_eq (k := start) fun a ha => ?_).symm
    have hmem := mem_inside.mp ha
    omega
  · rfl

theorem between_zero (table : CheckpointTable) (height : ℕ) :
    table.between height 0 = (table.upTo height).reverse := by
  rw [between_of_le height.zero_le, inside_zero]

/-- The search for a first checkpoint and the walk of the cursor from it give what is stored
between the bounds. -/
theorem getCheckpointsRange_eq_between (hbottom : table.rows.head? = some bottom)
    (htop : table.getTopCheckpoint = some top) :
    table.getCheckpointsRange start stop count = truncate count (table.between
      (max bottom.height (min start top.height)) (max bottom.height (min stop top.height))) := by
  unfold CheckpointTable.getCheckpointsRange
  simp only [hbottom, htop]
  generalize max bottom.height (min start top.height) = start
  generalize max bottom.height (min stop top.height) = stop
  have hinside : ∀ {low high : ℕ}, low ≤ high →
      (table.filter fun c => low ≤ c.height ∧ c.height < low + (high + 1 - low)) =
        table.inside low high := by
    intro low high hle
    refine ext_mem fun a => ?_
    rw [OrderedTable.mem_filter, mem_inside, decide_eq_true_eq]
    exact and_congr_right fun _ => by omega
  have hrows : ∀ {low high : ℕ}, (table.rows.filter fun c => low ≤ c.height ∧ c.height ≤ high) =
      (table.inside low high).rows := rfl
  unfold CheckpointTable.heightsBetween CheckpointTable.between
  by_cases hle : start ≤ stop
  · simp only [if_pos hle, min_eq_left hle, max_eq_right hle, hrows]
    rw [show (List.range' start (stop + 1 - start)).findSome? (fun height => table.find? height) =
      (table.inside start stop).rows.head? by rw [← hinside hle]; exact table.findSome?_range' _ _]
    cases hfirst : (table.inside start stop).rows.head? with
    | none => exact (truncate_eq_nil.mpr (head?_eq_none_iff.mp hfirst)).symm
    | some first =>
      dsimp only
      rw [cons_filter_above hfirst]
      rfl
  · have hge : stop ≤ start := by omega
    simp only [if_neg hle, min_eq_right hge, max_eq_left hge, hrows]
    rw [show (List.range' stop (start + 1 - stop)).reverse.findSome?
      (fun height => table.find? height) = (table.inside stop start).rows.getLast? by
        rw [← hinside hge]; exact table.findSome?_reverse_range' _ _]
    cases hfirst : (table.inside stop start).rows.getLast? with
    | none =>
      rw [getLast?_eq_none_iff.mp hfirst]
      exact (truncate_eq_nil.mpr rfl).symm
    | some first =>
      dsimp only
      rw [cons_filter_below hfirst]
      rfl

theorem getCheckpointsRange_of_rows_eq_nil (h : table.rows = []) :
    table.getCheckpointsRange start stop count = [] := by
  simp [CheckpointTable.getCheckpointsRange, h]

theorem exists_bottom_top (h : table.rows ≠ []) :
    ∃ bottom top, table.rows.head? = some bottom ∧ table.getTopCheckpoint = some top := by
  obtain ⟨top, htop⟩ := Option.isSome_iff_exists.mp (getLast?_isSome.mpr h)
  exact ⟨_, top, head?_eq_some_head h, htop⟩

/-- Moving the bounds into the table loses nothing of a range that meets it. -/
theorem between_clamped (hbottom : table.rows.head? = some bottom)
    (htop : table.getTopCheckpoint = some top) (hlow : bottom.height ≤ max start stop)
    (hhigh : min start stop ≤ top.height) :
    table.between (max bottom.height (min start top.height))
      (max bottom.height (min stop top.height)) = table.between start stop := by
  have hbounds : ∀ a ∈ table.rows, bottom.height ≤ a.height ∧ a.height ≤ top.height := fun a ha =>
    ⟨(head?_eq_some.mp hbottom).2 a ha, height_le_getTopCheckpoint htop ha⟩
  have hinside : ∀ {low high : ℕ}, bottom.height ≤ high → low ≤ top.height →
      table.inside (max bottom.height (min low top.height))
        (max bottom.height (min high top.height)) = table.inside low high := by
    intro low high hhigh hlow
    refine ext_mem fun a => ?_
    rw [mem_inside, mem_inside]
    refine and_congr_right fun ha => ?_
    have := hbounds a ha
    omega
  by_cases hle : start ≤ stop
  · rw [CheckpointTable.between, CheckpointTable.between, if_pos hle, if_pos (by omega),
      hinside (by omega) (by omega)]
  · rw [between_of_le (by omega), between_of_le (by omega), hinside (by omega) (by omega)]

/-- A range above or below the whole table is moved onto its top or its bottom. -/
theorem getCheckpointsRange_of_outside (start stop count : ℕ)
    (hbottom : table.rows.head? = some bottom) (htop : table.getTopCheckpoint = some top) :
    (max start stop < bottom.height → table.getCheckpointsRange start stop count = [bottom]) ∧
      (top.height < min start stop → table.getCheckpointsRange start stop count = [top]) := by
  have hbounds := head?_eq_some.mp hbottom
  have htops := getLast?_eq_some.mp htop
  have hsingle : ∀ a ∈ table.rows, table.between a.height a.height = [a] := by
    intro a ha
    have hmem : ∀ b, b ∈ table.between a.height a.height ↔ b = a := by
      intro b
      rw [mem_between, min_self, max_self]
      constructor <;> grind [eq_of_key_eq]
    have hnodup : (table.between a.height a.height).Nodup := by
      rw [CheckpointTable.between, if_pos (le_refl _)]
      exact (table.inside a.height a.height).nodup_rows
    refine perm_singleton.mp ((perm_ext_iff_of_nodup hnodup (nodup_singleton a)).mpr
      fun b => ?_)
    rw [hmem, mem_singleton]
  grind [getCheckpointsRange_eq_between hbottom htop, truncate_singleton]

theorem meets_iff (hbottom : table.rows.head? = some bottom)
    (htop : table.getTopCheckpoint = some top) :
    table.Meets start stop ↔ bottom.height ≤ max start stop ∧ min start stop ≤ top.height := by
  have hbounds := head?_eq_some.mp hbottom
  grind [CheckpointTable.getTopCheckpoint, CheckpointTable.Meets, getLast?_eq_some.mp,
    ne_nil_of_mem]

/-- A range that meets the table gives what is stored in it. -/
theorem getCheckpointsRange_of_meets (h : table.Meets start stop) :
    table.getCheckpointsRange start stop count = truncate count (table.between start stop) := by
  by_cases hrows : table.rows = []
  · rw [getCheckpointsRange_of_rows_eq_nil hrows, eq_comm, truncate_eq_nil,
      eq_nil_iff_forall_not_mem]
    intro a ha
    have hmem := (mem_between.mp ha).1
    rw [hrows] at hmem
    cases hmem
  · obtain ⟨bottom, top, hbottom, htop⟩ := exists_bottom_top hrows
    obtain ⟨hlow, hhigh⟩ := (meets_iff hbottom htop).mp h
    rw [getCheckpointsRange_eq_between hbottom htop, between_clamped hbottom htop hlow hhigh]

/-- Any other range has nothing in it, and yet something is returned. -/
theorem getCheckpointsRange_ne_of_not_meets (h : ¬ table.Meets start stop) :
    table.getCheckpointsRange start stop count ≠ truncate count (table.between start stop) := by
  have hrows : table.rows ≠ [] := fun hnil => h fun hne => absurd hnil hne
  obtain ⟨bottom, top, hbottom, htop⟩ := exists_bottom_top hrows
  have hbounds := head?_eq_some.mp hbottom
  have hempty : table.between start stop = [] := by
    refine eq_nil_iff_forall_not_mem.mpr fun a ha => h fun _ => ?_
    obtain ⟨hmem, hlow, hhigh⟩ := mem_between.mp ha
    exact ⟨⟨a, hmem, hhigh⟩, a, hmem, hlow⟩
  have houtside := getCheckpointsRange_of_outside start stop count hbottom htop
  grind [truncate_eq_nil.mpr, meets_iff]

theorem getCheckpointsRange_downwards (hbelow : ∃ c ∈ table.rows, c.height ≤ height) :
    table.getCheckpointsRange height 0 count = truncate count (table.upTo height).reverse := by
  obtain ⟨c, hc, hle⟩ := hbelow
  rw [← between_zero]
  exact getCheckpointsRange_of_meets fun _ => ⟨⟨c, hc, by omega⟩, c, hc, by omega⟩

theorem mem_of_mem_getCheckpointsRange (h : c ∈ table.getCheckpointsRange start stop count) :
    c ∈ table.rows := by
  by_cases hrows : table.rows = []
  · rw [getCheckpointsRange_of_rows_eq_nil hrows] at h
    cases h
  · obtain ⟨bottom, top, hbottom, htop⟩ := exists_bottom_top hrows
    rw [getCheckpointsRange_eq_between hbottom htop] at h
    exact (mem_between.mp (mem_of_mem_truncate h)).1

/-- Some checkpoint is not above the chain, so that the first one is not. -/
theorem beforeFirst_eq_false {c : Checkpoints} (hbelow : ∃ row ∈ c.db.rows, row.height ≤ height) :
    c.beforeFirst height = false := by
  obtain ⟨row, hrow, hle⟩ := hbelow
  have hrange : c.db.getCheckpointsRange 0 height 1 = truncate 1 (c.db.between 0 height) :=
    getCheckpointsRange_of_meets fun _ => ⟨⟨row, hrow, by omega⟩, row, hrow, by omega⟩
  have hmem : row ∈ c.db.between 0 height := mem_between.mpr ⟨hrow, by omega, by omega⟩
  unfold Checkpoints.beforeFirst
  split
  · rename_i hnil
    rw [hrange, truncate_eq_nil] at hnil
    rw [hnil] at hmem
    cases hmem
  · rename_i first rest hfirst
    have hin : first ∈ truncate 1 (c.db.between 0 height) := hrange ▸ hfirst ▸ mem_cons_self
    have hmem := mem_between.mp (mem_of_mem_truncate hin)
    rw [decide_eq_false_iff_not]
    omega

end Range

section Immutable

variable {table : CheckpointTable} {height : ℕ} {c : Checkpoint}

theorem mem_range_of_getImmutableCheckpoint (h : table.getImmutableCheckpoint height = some c) :
    c ∈ table.getCheckpointsRange height 0 checkpointNumCheckpointsForChainFinality := by
  unfold CheckpointTable.getImmutableCheckpoint at h
  grind [mem_of_head?]

theorem mem_of_getImmutableCheckpoint (h : table.getImmutableCheckpoint height = some c) :
    c ∈ table.rows :=
  mem_of_mem_getCheckpointsRange (mem_range_of_getImmutableCheckpoint h)

theorem height_le_of_getImmutableCheckpoint (hbelow : ∃ c ∈ table.rows, c.height ≤ height)
    (h : table.getImmutableCheckpoint height = some c) : c.height ≤ height := by
  have hmem := mem_range_of_getImmutableCheckpoint h
  rw [getCheckpointsRange_downwards hbelow] at hmem
  exact (mem_upTo.mp (mem_reverse.mp (mem_of_mem_truncate hmem))).2

/-- Below the whole table only a hard-coded bottom is immutable. -/
theorem getImmutableCheckpoint_of_above {bottom : Checkpoint}
    (hbottom : table.rows.head? = some bottom) (habove : height < bottom.height) :
    table.getImmutableCheckpoint height =
      if bottom.type ≠ .serviceNode then some bottom else none := by
  have hmem := (head?_eq_some.mp hbottom).1
  obtain ⟨_, top, -, htop⟩ := exists_bottom_top (ne_nil_of_mem hmem)
  unfold CheckpointTable.getImmutableCheckpoint
  rw [(getCheckpointsRange_of_outside _ _ _ hbottom htop).1 (by omega)]
  rfl

theorem immutable_not_above_iff (table : CheckpointTable) (height : ℕ) :
    (∀ c, table.getImmutableCheckpoint height = some c → c.height ≤ height) ↔
      ∀ bottom, table.rows.head? = some bottom → bottom.type ≠ .serviceNode →
        bottom.height ≤ height := by
  constructor
  · grind [getImmutableCheckpoint_of_above]
  · intro h c hc
    have hmem := mem_of_getImmutableCheckpoint hc
    obtain ⟨bottom, _, hbottom, -⟩ := exists_bottom_top (ne_nil_of_mem hmem)
    grind [getImmutableCheckpoint_of_above, head?_eq_some.mp, height_le_of_getImmutableCheckpoint]

/-- The query returns what is stored in the range exactly if the range is not outside the whole
table, and the immutable checkpoint is not above the height unless the bottom of the table is
hard coded and above it. -/
theorem checkpoints_range_exact_iff (table : CheckpointTable) (start stop count height : ℕ) :
    (table.getCheckpointsRange start stop count = truncate count (table.between start stop) ↔
      table.Meets start stop) ∧
    ((∀ c, table.getImmutableCheckpoint height = some c → c.height ≤ height) ↔
      ∀ bottom, table.rows.head? = some bottom → bottom.type ≠ .serviceNode →
        bottom.height ≤ height) := by
  refine ⟨⟨?_, getCheckpointsRange_of_meets⟩, immutable_not_above_iff table height⟩
  intro h
  by_contra hmeets
  exact getCheckpointsRange_ne_of_not_meets hmeets h

end Immutable

def signedCheckpoint (height : ℕ) (blockHash : Hash) : Checkpoint where
  type := .serviceNode
  height
  blockHash
  signatures := [⟨0, 0⟩]

def hardcodedTable (height : ℕ) : CheckpointTable :=
  OrderedTable.empty.put ⟨.hardcoded, height, BitVec.ofNat 256 height, []⟩

/-- One checkpoint at height 100: it is found between 200 and 300 and between 50 and 20, and it
is immutable at height 50. -/
theorem checkpoint_outside_range :
    (hardcodedTable 100).getCheckpointsRange 200 300 0 = (hardcodedTable 100).rows ∧
      truncate 0 ((hardcodedTable 100).between 200 300) = [] ∧
      (hardcodedTable 100).getCheckpointsRange 50 20 2 = (hardcodedTable 100).rows ∧
      truncate 2 ((hardcodedTable 100).between 50 20) = [] ∧
      ((hardcodedTable 100).getImmutableCheckpoint 50).map Checkpoint.height = some 100 := by
  decide

end Arqma.Chain
