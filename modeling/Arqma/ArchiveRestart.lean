import Arqma.ServiceNodeList

/-!
# The archive over a restart

`store` writes the archive into the long term blob. `load` clears that blob before it
parses it and fills the archive from the short term blob instead, with the states but
the last, each moved to the height and the quorums of the one before it.
-/
namespace Arqma.ServiceNodes
open Arqma.Cryptonote List

def State.archivedContents (s : State) :
    ℕ × QuorumManager × ServiceNodesInfos × List KeyImageBlacklistEntry × Bool :=
  (s.height, s.quorums, s.serviceNodesInfos, s.keyImageBlacklist, s.onlyLoadedQuorums)

/-- Two archives with the same contents. -/
def SameArchive (archive archive' : StateSet) : Prop :=
  archive.rows.map State.archivedContents = archive'.rows.map State.archivedContents

namespace ServiceNodeList

variable {chain : Chain} {l : ServiceNodeList}

/-- The states of the history that go into the short term blob. -/
def shortTermStates (l : ServiceNodeList) : List State :=
  l.stateHistory.rows.filter fun s =>
    s.height ≤ shortTermStateCullHeight (l.state.height - 1) + voteLifetime +
      voteOrTxVerifyHeightBuffer

/-- The states as they are written. -/
def shortTermBlob (l : ServiceNodeList) : List StateSerialized :=
  l.shortTermStates.map fun s => serializeServiceNodeStateObject s
    (s.height < shortTermStateCullHeight (l.state.height - 1) + voteLifetime +
      voteOrTxVerifyHeightBuffer)

theorem store_longTerm (h16 : 16 ≤ chain.currentHardForkVersion)
    (hadded : l.stateAddedToArchive = true) :
    (l.store chain).db.longTerm =
      some ⟨[], l.stateArchive.rows.map fun s => serializeServiceNodeStateObject s false⟩ := by
  simp [store, Nat.not_lt.mpr h16, hadded]

/-- The archive after `load`, which leaves it empty when it fails. -/
def archiveAfterLoad (chain : Chain) (l : ServiceNodeList) (currentHeight : ℕ) : StateSet :=
  ((l.load chain currentHeight).map ServiceNodeList.stateArchive).getD OrderedTable.empty

/-- The archive made of the short term blob. -/
def archiveOfBlob (chain : Chain) (states : List StateSerialized) : StateSet :=
  (migratedStates chain states).dropLast.reverse.foldl (fun archive s => archive.insert s)
    OrderedTable.empty

theorem store_shortTerm (h16 : 16 ≤ chain.currentHardForkVersion) :
    (l.store chain).db.shortTerm = some
      ⟨l.oldQuorumStates.map fun q => serializeQuorumState q.height q.quorums,
        l.shortTermBlob⟩ := by
  rw [store, if_neg (Nat.not_lt.mpr h16)]
  rfl

theorem archiveAfterLoad_eq (h16 : 16 ≤ chain.currentHardForkVersion) (currentHeight : ℕ) :
    archiveAfterLoad chain (l.store chain).restarted currentHeight =
      if ((l.store chain).restarted.load chain currentHeight).isSome then
        archiveOfBlob chain l.shortTermBlob
      else OrderedTable.empty := by
  unfold archiveAfterLoad
  cases h : (l.store chain).restarted.load chain currentHeight with
  | none => rfl
  | some loaded =>
    have hshort : (l.store chain).restarted.db.shortTerm = _ := store_shortTerm h16
    simp only [load, hshort, Option.bind_eq_bind, Option.bind_some, Option.bind_eq_some_iff] at h
    obtain ⟨last, -, oldQuorumStates, -, h⟩ := h
    split_ifs at h
    rw [← Option.some.inj h]
    rfl

/-- A state read back is not older than the oldest state of the history. -/
theorem exists_le_of_migrated {s : State} (h : s ∈ migratedStates chain l.shortTermBlob) :
    ∃ older ∈ l.stateHistory.rows, older.height ≤ s.height := by
  obtain ⟨i, hi, rfl⟩ := getElem_of_mem h
  have hlength : i + 1 < l.shortTermStates.length := by
    simp only [migratedStates, shortTermBlob, length_zipWith, length_tail, length_map] at hi
    omega
  have hsorted : l.shortTermStates.Pairwise fun a b => a.height < b.height :=
    l.stateHistory.sorted.filter _
  have hless := pairwise_iff_getElem.mp hsorted i (i + 1) (by omega) hlength (by omega)
  refine ⟨l.shortTermStates[i], mem_of_mem_filter (getElem_mem _), ?_⟩
  simp only [migratedStates, shortTermBlob, getElem_zipWith, getElem_tail,
    getElem_map, migrated, serializeServiceNodeStateObject]
  omega

theorem length_migratedStates : (migratedStates chain l.shortTermBlob).length =
    l.shortTermStates.length - 1 := by
  simp only [migratedStates, shortTermBlob, length_zipWith, length_tail, length_map]
  omega

theorem archiveOfBlob_rows_eq_nil :
    (archiveOfBlob chain l.shortTermBlob).rows = [] ↔ l.shortTermStates.length ≤ 2 := by
  have hlength : (migratedStates chain l.shortTermBlob).dropLast.length =
      l.shortTermStates.length - 1 - 1 := by
    rw [length_dropLast, length_migratedStates]
  constructor
  · intro hempty
    by_contra hmany
    obtain ⟨s, hs⟩ := exists_mem_of_length_pos
      (show 0 < (migratedStates chain l.shortTermBlob).dropLast.length by omega)
    have hfound : ((archiveOfBlob chain l.shortTermBlob).find? s.height).isSome :=
      OrderedTable.isSome_find?_foldl_insert (f := id)
        (Or.inr ⟨s, mem_reverse.mpr hs, rfl⟩)
    obtain ⟨row, hrow, -⟩ := OrderedTable.isSome_find?.mp hfound
    rw [hempty] at hrow
    cases hrow
  · intro hfew
    have hnone : (migratedStates chain l.shortTermBlob).dropLast = [] :=
      length_eq_zero_iff.mp (by omega)
    rw [archiveOfBlob, hnone]
    rfl

theorem mem_archiveOfBlob {s : State} (h : s ∈ (archiveOfBlob chain l.shortTermBlob).rows) :
    ∃ older ∈ l.stateHistory.rows, older.height ≤ s.height := by
  rcases OrderedTable.mem_of_mem_foldl_insert (f := id) h with ⟨t, ht, rfl⟩ | hnone
  · exact exists_le_of_migrated (mem_of_mem_dropLast (mem_reverse.mp ht))
  · cases hnone

/-- Archived states are older than those of the history, which are older than the
current one. -/
structure ArchiveOlder (l : ServiceNodeList) : Prop where
  history : ∀ s ∈ l.stateHistory.rows, s.height < l.state.height
  archive : ∀ a ∈ l.stateArchive.rows, a.height < l.state.height
  between : ∀ a ∈ l.stateArchive.rows, ∀ s ∈ l.stateHistory.rows, a.height < s.height

/-- A block keeps the order of the states. -/
theorem ArchiveOlder.processBlock {env : Env} (h : ArchiveOlder l) (b : ChainBlock) :
    ArchiveOlder (l.processBlock env chain b) := by
  by_cases h16 : 16 ≤ chain.hardForkVersion (getBlockHeight b.block)
  · have hstate : (l.processBlock env chain b).state.height = l.state.height + 1 := by
      rw [processBlock_state h16, updateFromBlock_height]
    have hhistory : ∀ s ∈ (l.processBlock env chain b).stateHistory.rows, s = l.state ∨
        s ∈ l.stateHistory.rows ∧ shortTermStateCullHeight (getBlockHeight b.block) < s.height := by
      intro s hs
      rw [processBlock_stateHistory h16] at hs
      refine (OrderedTable.mem_of_mem_insert hs).imp id fun hs' => ?_
      simpa [view] using OrderedTable.mem_filter.mp hs'
    have harchive : ∀ a ∈ (l.processBlock env chain b).stateArchive.rows,
        a ∈ l.stateArchive.rows ∨ ∃ s ∈ l.stateHistory.rows, a.height = s.height ∧
          s.height ≤ shortTermStateCullHeight (getBlockHeight b.block) := by
      intro a ha
      rw [processBlock_stateArchive h16] at ha
      refine (OrderedTable.mem_of_mem_foldl_insert ha).symm.imp id ?_
      rintro ⟨s, hs, rfl⟩
      obtain ⟨hrow, hculled⟩ := mem_filter.mp (mem_of_mem_filter hs)
      exact ⟨s, hrow, archived_height s, of_decide_eq_true hculled⟩
    refine ⟨fun s hs => ?_, fun a ha => ?_, fun a ha s hs => ?_⟩
    · rw [hstate]
      rcases hhistory s hs with rfl | ⟨hrow, -⟩
      · exact Nat.lt_succ_self _
      · exact (h.history s hrow).trans (Nat.lt_succ_self _)
    · rw [hstate]
      rcases harchive a ha with hrow | ⟨s, hrow, hheight, -⟩
      · exact (h.archive a hrow).trans (Nat.lt_succ_self _)
      · exact hheight ▸ (h.history s hrow).trans (Nat.lt_succ_self _)
    · rcases harchive a ha with hrow | ⟨t, htrow, hheight, hculled⟩
      · rcases hhistory s hs with rfl | ⟨hsrow, -⟩
        · exact h.archive a hrow
        · exact h.between a hrow s hsrow
      · rcases hhistory s hs with rfl | ⟨-, hkept⟩
        · exact hheight ▸ h.history t htrow
        · omega
  · simpa [ServiceNodeList.processBlock, Nat.lt_of_not_le h16] using h

theorem ArchiveOlder.processBlocks {env : Env} (h : ArchiveOlder l) (bs : List ChainBlock) :
    ArchiveOlder (bs.foldl (ServiceNodeList.processBlock env chain) l) := by
  induction bs generalizing l with
  | nil => exact h
  | cons b bs ih => exact ih (h.processBlock b)

/-- With states in order, the archive comes back exactly when there was none and none is
made of the short term blob. -/
theorem ArchiveOlder.survives_iff (h : ArchiveOlder l) (h16 : 16 ≤ chain.currentHardForkVersion)
    (currentHeight : ℕ) :
    SameArchive l.stateArchive
        (archiveAfterLoad chain (l.store chain).restarted currentHeight) ↔
      l.stateArchive.rows = [] ∧ (((l.store chain).restarted.load chain currentHeight).isSome →
          l.shortTermStates.length ≤ 2) := by
  rw [archiveAfterLoad_eq h16]
  by_cases hloads : ((l.store chain).restarted.load chain currentHeight).isSome = true
  · simp only [hloads, if_true, true_imp_iff, ← @archiveOfBlob_rows_eq_nil chain l]
    constructor
    · intro hsame
      have hempty : l.stateArchive.rows = [] := by
        by_contra hsome
        obtain ⟨a, ha⟩ := exists_mem_of_ne_nil _ hsome
        have hcontents : a.archivedContents ∈
            (archiveOfBlob chain l.shortTermBlob).rows.map State.archivedContents :=
          hsame ▸ mem_map_of_mem ha
        obtain ⟨s, hs, hequal⟩ := mem_map.mp hcontents
        have hheight : s.height = a.height := congrArg Prod.fst hequal
        obtain ⟨older, holder, hle⟩ := mem_archiveOfBlob hs
        exact absurd (h.between a ha older holder) (by omega)
      refine ⟨hempty, ?_⟩
      rw [SameArchive, hempty, map_nil] at hsame
      exact map_eq_nil_iff.mp hsame.symm
    · rintro ⟨hempty, hnone⟩
      rw [SameArchive, hempty, hnone]
  · simp [hloads, SameArchive]

/-- Every list that has processed blocks from a reset on has its states in order. -/
theorem archiveOlder_of_blocks (env : Env) (chain : Chain) (bs : List ChainBlock)
    (deleteDbEntry : Bool) :
    ArchiveOlder (bs.foldl (ServiceNodeList.processBlock env chain)
      (l.reset chain deleteDbEntry)) := by
  refine ArchiveOlder.processBlocks ⟨?_, ?_, ?_⟩ bs
  · exact fun s hs => absurd hs not_mem_nil
  · exact fun a ha => absurd ha not_mem_nil
  · exact fun a ha => absurd ha not_mem_nil

/-- A store writes the whole archive, and a load on a fresh list over the same database
reads nothing of it: the archive is made of the short term blob. With the states in order,
the archive comes back exactly when it was empty and at most two states are in that
blob. -/
theorem archive_after_restart (chain : Chain) (l : ServiceNodeList) (currentHeight : ℕ)
    (h16 : 16 ≤ chain.currentHardForkVersion) (hadded : l.stateAddedToArchive = true) :
    (l.store chain).db.longTerm =
        some ⟨[], l.stateArchive.rows.map fun s => serializeServiceNodeStateObject s false⟩ ∧
      archiveAfterLoad chain (l.store chain).restarted currentHeight =
        (if ((l.store chain).restarted.load chain currentHeight).isSome then
          archiveOfBlob chain l.shortTermBlob
        else OrderedTable.empty) ∧
      (ArchiveOlder l →
        (SameArchive l.stateArchive
            (archiveAfterLoad chain (l.store chain).restarted currentHeight) ↔
          l.stateArchive.rows = [] ∧
            (((l.store chain).restarted.load chain currentHeight).isSome →
              l.shortTermStates.length ≤ 2))) :=
  ⟨store_longTerm h16 hadded, archiveAfterLoad_eq h16 currentHeight,
    fun h => h.survives_iff h16 currentHeight⟩

end ServiceNodeList

section Sample

/-- A chain under hard fork 17. -/
def archiveChain : Chain where
  blocks := []
  hardForkVersion _ := 17
  currentHardForkVersion := 17
  hardFork16FromHeight := 1
  immutableCheckpoint _ := none

/-- A list at height 10400 with the states of the heights around the snapshot and an
archive. -/
def archivedList (archive : StateSet) : ServiceNodeList where
  state := { height := 10400 }
  stateHistory := (OrderedTable.empty.insert { height := 10103 }).insert { height := 10104 }
  stateArchive := archive
  stateAddedToArchive := true

/-- The state of height 10000 is gone after a restart that loads. -/
theorem archived_state_not_loaded :
    let l := archivedList (OrderedTable.empty.insert { height := 10000 })
    ((l.store archiveChain).restarted.load archiveChain 10401).isSome = true ∧
      l.stateArchive.rows.length = 1 ∧
      (ServiceNodeList.archiveAfterLoad archiveChain (l.store archiveChain).restarted
        10401).rows.length = 0 := by
  decide

theorem empty_archive_loaded :
    SameArchive (archivedList OrderedTable.empty).stateArchive
      (ServiceNodeList.archiveAfterLoad archiveChain
        ((archivedList OrderedTable.empty).store archiveChain).restarted 10401) := by
  have hrestart := ServiceNodeList.archive_after_restart archiveChain
    (archivedList OrderedTable.empty) 10401 (by decide) rfl
  refine (hrestart.2.2 ⟨?_, ?_, ?_⟩).mpr ⟨rfl, fun _ => ?_⟩
  · decide
  · exact fun a ha => absurd ha not_mem_nil
  · exact fun a ha => absurd ha not_mem_nil
  · decide

end Sample

end Arqma.ServiceNodes
