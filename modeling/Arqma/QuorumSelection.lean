import Mathlib.Data.List.Nodup
import Arqma.ServiceNodeState

/-!
# The choice of the quorums

`generate_quorums` with every index checked and on an arbitrary stream of random
values. It never reads out of range, what it returns is a fair choice of the
registered nodes, and on the stream of an engine it returns what `generateQuorums`
says.
-/
namespace Arqma.ServiceNodes
open Arqma.Cryptonote List RandomEngine

variable {numValidators numWorkers : ℕ} {indexes : List ℕ} {active decommissioned : List PublicKey}
  {key : PublicKey}

def activeKeys (s : State) : List PublicKey := s.activeServiceNodesInfos.map Sigma.fst

def decommissionedKeys (s : State) : List PublicKey :=
  s.decommissionedServiceNodesInfos.map Sigma.fst

section Code

variable (out : UInt64 → ℕ → UInt64) (fuel : ℕ)

def checkedShuffledServiceNodeIndexList (listSize : ℕ) (blockHash : Hash) (type : QuorumType)
    (sublistSize sublistUpTo : ℕ) : Checked (List ℕ) :=
  let result := List.range listSize
  let seed := hashSeed blockHash + type.toUInt64
  if (0 < sublistSize ∧ sublistSize < listSize) ∧ 0 < sublistUpTo ∧ sublistUpTo < listSize then do
    let shuffled ← RandomEngine.shuffleOn (out seed) fuel (result.take sublistUpTo)
    let first := shuffled ++ result.drop sublistUpTo
    let second ← RandomEngine.shuffleOn (out seed) fuel (first.drop sublistSize)
    pure (first.take sublistSize ++ second)
  else
    RandomEngine.shuffleOn (out seed) fuel result

/-- The two loops that fill a quorum: validators are active nodes, and an index
behind the active nodes means a decommissioned one. -/
def fillQuorum (active decommissioned : List PublicKey) (indexes : List ℕ)
    (numValidators numWorkers : ℕ) : Checked Quorum := do
  let validators ← (List.range' 0 numValidators).mapM fun i => do
    let j ← Checked.entry indexes i
    Checked.entry active j
  let workers ← (List.range' numValidators numWorkers).mapM fun i => do
    let j ← Checked.entry indexes i
    if j < active.length then Checked.entry active j
    else Checked.entry decommissioned (j - active.length)
  pure { validators := validators, workers := workers }

/-- One round of the loop over the quorum types. -/
def checkedQuorum (s : State) (result : QuorumManager) (type : QuorumType) :
    Checked QuorumManager :=
  let active := activeKeys s
  let decommissioned := decommissionedKeys s
  match type with
  | .obligations => do
    let totalNodes := active.length + decommissioned.length
    let numValidators := min active.length stateChangeQuorumSize
    let indexes ← checkedShuffledServiceNodeIndexList out fuel totalNodes s.blockHash type
      numValidators active.length
    let numRemainingNodes := totalNodes - numValidators
    let numWorkers := min numRemainingNodes
      (max stateChangeMinNodesToTest (numRemainingNodes / stateChangeNthOfTheNetworkToTest))
    let quorum ← fillQuorum active decommissioned indexes numValidators numWorkers
    pure { result with obligations := some quorum }
  | .checkpointing =>
    if (s.height + reorgSafetyBufferInBlocks) % checkpointInterval ≠ 0 then
      pure result
    else do
      let indexes ← checkedShuffledServiceNodeIndexList out fuel active.length s.blockHash type 0 0
      let quorum ← fillQuorum active decommissioned indexes
        (min indexes.length checkpointQuorumSize) 0
      pure { result with checkpointing := some quorum }

def quorumTypes (hardForkVersion : ℕ) : List QuorumType :=
  match maxQuorumTypeForHf hardForkVersion with
  | .obligations => [.obligations]
  | .checkpointing => [.obligations, .checkpointing]

def checkedGenerateQuorums (hardForkVersion : ℕ) (s : State) : Checked QuorumManager :=
  (quorumTypes hardForkVersion).foldlM (checkedQuorum out fuel s) {}

end Code

section Nodes

variable (s : State)

/-- The nodes a quorum can be drawn from: the active ones come first. -/
def quorumNodes : List PublicKey := activeKeys s ++ decommissionedKeys s

theorem mem_map_sortAndFilter (p : ServiceNodeInfo → Bool) (key : PublicKey) :
    key ∈ (s.sortAndFilter p).map Sigma.fst ↔
      ∃ info, s.serviceNodesInfos.lookup key = some info ∧ p info := by
  simp only [State.sortAndFilter, mem_map, mem_insertionSort, mem_filter]
  constructor
  · rintro ⟨⟨key, info⟩, ⟨hmem, hp⟩, rfl⟩
    exact ⟨info, AList.mem_lookup_iff.mpr hmem, hp⟩
  · rintro ⟨info, hlookup, hp⟩
    exact ⟨⟨key, info⟩, ⟨AList.mem_lookup_iff.mp hlookup, hp⟩, rfl⟩

theorem nodup_map_sortAndFilter (p : ServiceNodeInfo → Bool) :
    ((s.sortAndFilter p).map Sigma.fst).Nodup := by
  have hperm : ((s.sortAndFilter p).map Sigma.fst).Perm
      ((s.serviceNodesInfos.entries.filter fun e => p e.2).map Sigma.fst) :=
    (perm_insertionSort _ _).map _
  refine hperm.nodup_iff.mpr ?_
  exact (filter_sublist.map Sigma.fst).nodup s.serviceNodesInfos.nodupKeys

theorem mem_activeKeys (key : PublicKey) :
    key ∈ activeKeys s ↔ ∃ info, s.serviceNodesInfos.lookup key = some info ∧ info.isActive :=
  mem_map_sortAndFilter s _ key

theorem mem_decommissionedKeys (key : PublicKey) :
    key ∈ decommissionedKeys s ↔ ∃ info, s.serviceNodesInfos.lookup key = some info ∧
      (info.isDecommissioned && info.isFullyFunded) :=
  mem_map_sortAndFilter s _ key

theorem nodup_activeKeys : (activeKeys s).Nodup := nodup_map_sortAndFilter s _

/-- No node is active and decommissioned at once. -/
theorem nodup_quorumNodes : (quorumNodes s).Nodup := by
  refine List.Nodup.append (nodup_activeKeys s) (nodup_map_sortAndFilter s _) ?_
  intro key hactive hdecommissioned
  obtain ⟨info, hinfo, hisActive⟩ := (mem_activeKeys s key).mp hactive
  obtain ⟨info', hinfo', hisDecommissioned⟩ := (mem_decommissionedKeys s key).mp hdecommissioned
  grind [ServiceNodeInfo.isActive]

end Nodes

section Choice

variable {nodes : List PublicKey} {indexes : List ℕ}

/-- Reading a stretch of a list entry by entry. -/
theorem map_range'_getD {α β : Type} {l : List α} {k n : ℕ} (d : α) (f : α → β)
    (h : k + n ≤ l.length) :
    (List.range' k n).map (fun i => f (l.getD i d)) = ((l.drop k).take n).map f := by
  apply ext_getElem
  · simp
    omega
  · grind

theorem filterMap_getElem? (h : ∀ i ∈ indexes, i < nodes.length) :
    (indexes.filterMap fun i => nodes[i]?) = indexes.map fun i => nodes.getD i 0 := by
  rw [← filterMap_eq_map]
  refine filterMap_congr fun i hi => ?_
  simp [getD_eq_getElem?_getD, h i hi]

/-- Different indices name different nodes. -/
theorem nodup_map_getD (hnodes : nodes.Nodup) (hindexes : indexes.Nodup)
    (h : ∀ i ∈ indexes, i < nodes.length) : (indexes.map fun i => nodes.getD i 0).Nodup := by
  grind [hindexes.map_on, hnodes.getElem_inj_iff.mp]

/-- The quorum that a list of indices stands for. -/
def chosenQuorum (nodes : List PublicKey) (indexes : List ℕ) (numValidators numWorkers : ℕ) :
    Quorum where
  validators := (indexes.take numValidators).map fun i => nodes.getD i 0
  workers := ((indexes.drop numValidators).take numWorkers).map fun i => nodes.getD i 0

theorem nodup_chosenQuorum (numValidators numWorkers : ℕ) (hnodes : nodes.Nodup)
    (hindexes : indexes.Nodup) (h : ∀ i ∈ indexes, i < nodes.length) :
    ((chosenQuorum nodes indexes numValidators numWorkers).validators ++
      (chosenQuorum nodes indexes numValidators numWorkers).workers).Nodup := by
  have htaken : indexes.take numValidators ++ (indexes.drop numValidators).take numWorkers =
      indexes.take (numValidators + numWorkers) := take_add.symm
  rw [chosenQuorum, ← map_append, htaken]
  exact nodup_map_getD hnodes ((take_sublist _ _).nodup hindexes)
    fun i hi => h i (mem_of_mem_take hi)

theorem mem_nodes_of_mem_map (h : ∀ i ∈ indexes, i < nodes.length)
    (hkey : key ∈ indexes.map fun i => nodes.getD i 0) : key ∈ nodes := by
  obtain ⟨i, hi, rfl⟩ := mem_map.mp hkey
  simp [getD_eq_getElem?_getD, getElem?_eq_getElem (h i hi)]

theorem chosenQuorum_eq
    (hrange : ∀ i ∈ indexes, i < (active ++ decommissioned).length)
    (hactive : ∀ i ∈ indexes.take numValidators, i < active.length) :
    chosenQuorum (active ++ decommissioned) indexes numValidators numWorkers =
      { validators := (indexes.take numValidators).filterMap fun i => active[i]?
        workers := ((indexes.drop numValidators).take numWorkers).filterMap fun i =>
          (active ++ decommissioned)[i]? } := by
  have hworkers : ∀ i ∈ (indexes.drop numValidators).take numWorkers,
      i < (active ++ decommissioned).length :=
    fun i hi => hrange i (mem_of_mem_drop (mem_of_mem_take hi))
  rw [filterMap_getElem? hactive, filterMap_getElem? hworkers, chosenQuorum, Quorum.mk.injEq]
  refine ⟨map_congr_left fun i hi => ?_, rfl⟩
  simp only [getD_eq_getElem?_getD, getElem?_append_left (hactive i hi)]

/-- Reading nodes at a stretch of the indices does not fault when they are in range. -/
theorem mapM_entry (nodes : List PublicKey) (indexes : List ℕ) {k n : ℕ}
    (hcount : k + n ≤ indexes.length)
    (hrange : ∀ i ∈ (indexes.drop k).take n, i < nodes.length) :
    ((List.range' k n).mapM fun i => do
      let j ← Checked.entry indexes i
      Checked.entry nodes j) = .ok (((indexes.drop k).take n).map fun i => nodes.getD i 0) := by
  rw [← map_range'_getD 0 _ hcount]
  refine Checked.mapM_eq_ok fun i hi => ?_
  obtain ⟨hfirst, hlast⟩ := mem_range'_1.mp hi
  have hlt : i < indexes.length := by omega
  rw [Checked.entry_eq_ok (getElem?_eq_getElem hlt)]
  refine Checked.entry_eq_ok ?_
  have hmem : indexes[i] ∈ (indexes.drop k).take n := by
    refine mem_take_iff_getElem.mpr ⟨i - k, by rw [length_drop]; omega, ?_⟩
    simp [Nat.add_sub_cancel' hfirst]
  simp [getD_eq_getElem?_getD, hlt, hrange _ hmem]

theorem entry_append {α : Type} (l₁ l₂ : List α) (j : ℕ) :
    (if j < l₁.length then Checked.entry l₁ j else Checked.entry l₂ (j - l₁.length)) =
      Checked.entry (l₁ ++ l₂) j := by
  unfold Checked.entry
  split_ifs with hj
  · rw [getElem?_append_left hj]
  · rw [getElem?_append_right (not_lt.mp hj)]

/-- With indices in range and enough of them, filling a quorum does not fault. -/
theorem fillQuorum_eq
    (hrange : ∀ i ∈ indexes, i < (active ++ decommissioned).length)
    (hactive : ∀ i ∈ indexes.take numValidators, i < active.length)
    (hcount : numValidators + numWorkers ≤ indexes.length) :
    fillQuorum active decommissioned indexes numValidators numWorkers =
      .ok (chosenQuorum (active ++ decommissioned) indexes numValidators numWorkers) := by
  have hworkersRange : ∀ i ∈ (indexes.drop numValidators).take numWorkers,
      i < (active ++ decommissioned).length :=
    fun i hi => hrange i (mem_of_mem_drop (mem_of_mem_take hi))
  have hvalidators := mapM_entry active indexes (k := 0) (n := numValidators) (by omega) hactive
  have hworkers := mapM_entry (active ++ decommissioned) indexes hcount hworkersRange
  simp only [fillQuorum, entry_append]
  rw [hvalidators, hworkers, chosenQuorum_eq hrange hactive, filterMap_getElem? hactive,
    filterMap_getElem? hworkersRange]
  rfl

end Choice

section Selection

variable (s : State)

structure IsObligationsChoice (quorum : Quorum) : Prop where
  validators_length : quorum.validators.length = min (activeKeys s).length 10
  validators_nodup : quorum.validators.Nodup
  validators_active : ∀ key ∈ quorum.validators,
    ∃ info, s.serviceNodesInfos.lookup key = some info ∧ info.isActive
  workers_length : quorum.workers.length =
    min ((quorumNodes s).length - quorum.validators.length)
      (max stateChangeMinNodesToTest
        (((quorumNodes s).length - quorum.validators.length) / stateChangeNthOfTheNetworkToTest))
  workers_nodup : quorum.workers.Nodup
  workers_disjoint : quorum.validators.Disjoint quorum.workers
  workers_registered : ∀ key ∈ quorum.workers,
    ∃ info, s.serviceNodesInfos.lookup key = some info ∧
      (info.isActive ∨ info.isDecommissioned ∧ info.isFullyFunded)

structure IsCheckpointingChoice (quorum : Quorum) : Prop where
  validators_length : quorum.validators.length = min (activeKeys s).length 20
  validators_nodup : quorum.validators.Nodup
  validators_active : ∀ key ∈ quorum.validators,
    ∃ info, s.serviceNodesInfos.lookup key = some info ∧ info.isActive
  workers_nil : quorum.workers = []

structure IsQuorumChoice (hardForkVersion : ℕ) (quorums : QuorumManager) : Prop where
  obligations : ∃ quorum, quorums.obligations = some quorum ∧ IsObligationsChoice s quorum
  checkpointing : ∀ quorum, quorums.checkpointing = some quorum → IsCheckpointingChoice s quorum
  present : quorums.checkpointing.isSome ↔
    17 ≤ hardForkVersion ∧ checkpointInterval ∣ s.height + reorgSafetyBufferInBlocks

variable (out : UInt64 → ℕ → UInt64) (fuel : ℕ)

theorem checkedShuffledServiceNodeIndexList_sound {listSize sublistSize sublistUpTo : ℕ}
    (blockHash : Hash) (type : QuorumType) (hsize : sublistSize ≤ sublistUpTo)
    (hupTo : sublistUpTo ≤ listSize) :
    (checkedShuffledServiceNodeIndexList out fuel listSize blockHash type sublistSize
      sublistUpTo).Sound fun indexes => indexes.Perm (List.range listSize) ∧
        ∀ i ∈ indexes.take sublistSize, i < sublistUpTo := by
  unfold checkedShuffledServiceNodeIndexList
  simp only
  split_ifs with hsublist
  · refine (shuffleOn_sound _ fuel _).bind fun shuffled hshuffled => ?_
    refine (shuffleOn_sound _ fuel _).bind fun second hsecond => .ok ⟨?_, ?_⟩
    · exact two_shuffles_perm hshuffled hsecond
    · exact fun i hi => lt_of_mem_two_shuffles hsize hupTo hshuffled hi
  · grind [shuffleOn_sound, lt_of_mem_one_shuffle]

theorem active_of_mem_take {numValidators : ℕ}
    (hactive : ∀ i ∈ indexes.take numValidators, i < (activeKeys s).length)
    (hkey : key ∈ (indexes.take numValidators).map fun i => (quorumNodes s).getD i 0) :
    ∃ info, s.serviceNodesInfos.lookup key = some info ∧ info.isActive := by
  obtain ⟨i, hi, rfl⟩ := mem_map.mp hkey
  refine (mem_activeKeys s _).mp ?_
  simp [quorumNodes, getD_eq_getElem?_getD, getElem?_append_left, hactive i hi]

theorem registered_of_mem_quorumNodes (hkey : key ∈ quorumNodes s) :
    ∃ info, s.serviceNodesInfos.lookup key = some info ∧
      (info.isActive ∨ info.isDecommissioned ∧ info.isFullyFunded) := by
  rcases mem_append.mp hkey with hkey | hkey
  · obtain ⟨info, hinfo, hactive⟩ := (mem_activeKeys s key).mp hkey
    exact ⟨info, hinfo, Or.inl hactive⟩
  · obtain ⟨info, hinfo, hboth⟩ := (mem_decommissionedKeys s key).mp hkey
    exact ⟨info, hinfo, Or.inr (by simpa using hboth)⟩

theorem isObligationsChoice_chosenQuorum (hperm : indexes.Perm (List.range (quorumNodes s).length))
    (hactive : ∀ i ∈ indexes.take numValidators, i < (activeKeys s).length)
    (hvalidators : numValidators = min (activeKeys s).length stateChangeQuorumSize)
    (hworkers : numWorkers = min ((quorumNodes s).length - numValidators)
      (max stateChangeMinNodesToTest
        (((quorumNodes s).length - numValidators) / stateChangeNthOfTheNetworkToTest))) :
    IsObligationsChoice s (chosenQuorum (quorumNodes s) indexes numValidators numWorkers) := by
  have hlength : indexes.length = (quorumNodes s).length := by simpa using hperm.length_eq
  have hsplit : (quorumNodes s).length = (activeKeys s).length + (decommissionedKeys s).length :=
    length_append
  have hrange : ∀ i ∈ indexes, i < (quorumNodes s).length := fun i hi => by
    simpa using hperm.mem_iff.mp hi
  have hnodup := nodup_chosenQuorum numValidators numWorkers (nodup_quorumNodes s)
    (hperm.nodup_iff.mpr nodup_range) hrange
  obtain ⟨hvalidatorsNodup, hworkersNodup, hdisjoint⟩ := nodup_append'.mp hnodup
  have hcount : (chosenQuorum (quorumNodes s) indexes numValidators numWorkers).validators.length =
      numValidators := by
    rw [chosenQuorum, length_map, length_take]
    omega
  exact {
    validators_length := hcount.trans hvalidators
    validators_nodup := hvalidatorsNodup
    validators_active := fun key hkey => active_of_mem_take s hactive hkey
    workers_length := by
      rw [hcount, ← hworkers, chosenQuorum, length_map, length_take, length_drop]
      omega
    workers_nodup := hworkersNodup
    workers_disjoint := hdisjoint
    workers_registered := fun key hkey => registered_of_mem_quorumNodes s <| mem_nodes_of_mem_map
        (fun i hi => hrange i (mem_of_mem_drop (mem_of_mem_take hi))) hkey }

theorem isCheckpointingChoice_chosenQuorum
    (hperm : indexes.Perm (List.range (activeKeys s).length)) :
    IsCheckpointingChoice s
      (chosenQuorum (quorumNodes s) indexes (min indexes.length checkpointQuorumSize) 0) := by
  have hlength : indexes.length = (activeKeys s).length := by simpa using hperm.length_eq
  have hactive : ∀ i ∈ indexes, i < (activeKeys s).length := fun i hi => by
    simpa using hperm.mem_iff.mp hi
  have hsplit : (quorumNodes s).length = (activeKeys s).length + (decommissionedKeys s).length :=
    length_append
  have hnodup := nodup_chosenQuorum (min indexes.length checkpointQuorumSize) 0
    (nodup_quorumNodes s) (hperm.nodup_iff.mpr nodup_range)
    fun i hi => by have := hactive i hi; omega
  exact {
    validators_length := by
      rw [chosenQuorum, length_map, length_take, min_eq_left (min_le_left _ _), hlength]
      rfl
    validators_nodup := (nodup_append'.mp hnodup).1
    validators_active := fun key hkey =>
      active_of_mem_take s (fun i hi => hactive i (mem_of_mem_take hi)) hkey
    workers_nil := by simp [chosenQuorum] }

theorem checkedQuorum_obligations_sound (result : QuorumManager) :
    (checkedQuorum out fuel s result .obligations).Sound fun quorums =>
      ∃ quorum, quorums = { result with obligations := some quorum } ∧
        IsObligationsChoice s quorum := by
  unfold checkedQuorum
  simp only
  refine (checkedShuffledServiceNodeIndexList_sound out fuel s.blockHash .obligations
    (min_le_left _ _) (Nat.le_add_right _ _)).bind fun indexes hindexes => ?_
  have hlength := hindexes.1.length_eq
  rw [length_range] at hlength
  have hnodes : (quorumNodes s).length = _ := length_append
  rw [fillQuorum_eq (fun i hi => by simpa using hindexes.1.mem_iff.mp hi) hindexes.2 (by omega)]
  refine .ok ⟨_, rfl, isObligationsChoice_chosenQuorum s ?_ hindexes.2 rfl ?_⟩
  · rw [hnodes]
    exact hindexes.1
  · rw [hnodes]

theorem checkedQuorum_checkpointing_sound (result : QuorumManager)
    (hheight : checkpointInterval ∣ s.height + reorgSafetyBufferInBlocks) :
    (checkedQuorum out fuel s result .checkpointing).Sound fun quorums =>
      ∃ quorum, quorums = { result with checkpointing := some quorum } ∧
        IsCheckpointingChoice s quorum := by
  unfold checkedQuorum
  simp only
  rw [if_neg (by simpa using Nat.mod_eq_zero_of_dvd hheight)]
  refine (checkedShuffledServiceNodeIndexList_sound out fuel s.blockHash .checkpointing
    le_rfl (Nat.zero_le _)).bind fun indexes hindexes => ?_
  have hactive : ∀ i ∈ indexes, i < (activeKeys s).length := fun i hi => by
    simpa using hindexes.1.mem_iff.mp hi
  rw [fillQuorum_eq (fun i hi => by rw [length_append]; have := hactive i hi; omega)
    (fun i hi => hactive i (mem_of_mem_take hi)) (by omega)]
  exact .ok ⟨_, rfl, isCheckpointingChoice_chosenQuorum s hindexes.1⟩

/-- On any stream the quorums are chosen without a fault. -/
theorem checkedGenerateQuorums_sound (hardForkVersion : ℕ) :
    (checkedGenerateQuorums out fuel hardForkVersion s).Sound
      (IsQuorumChoice s hardForkVersion) := by
  unfold checkedGenerateQuorums quorumTypes maxQuorumTypeForHf
  by_cases hfork : hardForkVersion < 17
  · simp only [if_pos hfork, foldlM_cons, foldlM_nil]
    refine (checkedQuorum_obligations_sound s out fuel {}).bind fun quorums hquorums => ?_
    obtain ⟨quorum, rfl, hquorum⟩ := hquorums
    exact .ok ⟨⟨quorum, rfl, hquorum⟩, by simp, by simp; omega⟩
  · simp only [if_neg hfork, foldlM_cons, foldlM_nil]
    refine (checkedQuorum_obligations_sound s out fuel {}).bind fun quorums hquorums => ?_
    obtain ⟨quorum, rfl, hquorum⟩ := hquorums
    by_cases hheight : checkpointInterval ∣ s.height + reorgSafetyBufferInBlocks
    · refine (checkedQuorum_checkpointing_sound s out fuel _ hheight).bind fun _ hquorums => ?_
      obtain ⟨checkpointing, rfl, hcheckpointing⟩ := hquorums
      refine .ok ⟨⟨quorum, rfl, hquorum⟩, ?_, by simp [hheight]; omega⟩
      rintro _ ⟨⟩
      exact hcheckpointing
    · have hskipped : checkedQuorum out fuel s { obligations := some quorum } .checkpointing =
          .ok { obligations := some quorum } := by
        unfold checkedQuorum
        simp only
        rw [if_pos fun hmod => hheight (Nat.dvd_of_mod_eq_zero hmod)]
        rfl
      rw [hskipped]
      exact .ok ⟨⟨quorum, rfl, hquorum⟩, by simp, by simp [hheight]⟩

end Selection

section Engine

variable (rng : RandomEngine) (s : State)

theorem checkedShuffledServiceNodeIndexList_settles {listSize : ℕ} (blockHash : Hash)
    (type : QuorumType) (sublistSize sublistUpTo : ℕ) (hmax : listSize ≤ max) :
    Checked.Settles (fun fuel => checkedShuffledServiceNodeIndexList rng.output fuel listSize
      blockHash type sublistSize sublistUpTo)
      (.ok (generateShuffledServiceNodeIndexList rng listSize blockHash type sublistSize
        sublistUpTo)) := by
  unfold checkedShuffledServiceNodeIndexList generateShuffledServiceNodeIndexList
  simp only
  split_ifs with hsublist
  · refine (rng.shuffleOn_settles _ _ (by simp; omega)).bind ?_
    refine (rng.shuffleOn_settles _ _ ?_).bind (.const _)
    rw [length_drop, length_append, (rng.shufflePortable_perm _ _).length_eq]
    simp
    omega
  · exact rng.shuffleOn_settles _ _ (by simpa using hmax)

theorem checkedQuorum_obligations_settles (result : QuorumManager)
    (hmax : (quorumNodes s).length ≤ max) :
    Checked.Settles (fun fuel => checkedQuorum rng.output fuel s result .obligations)
      (.ok { result with obligations := some (obligationsQuorum rng s) }) := by
  unfold checkedQuorum obligationsQuorum
  simp only [← activeKeys.eq_1, ← decommissionedKeys.eq_1]
  rw [quorumNodes, length_append] at hmax
  refine (checkedShuffledServiceNodeIndexList_settles rng s.blockHash .obligations _ _ hmax).bind ?_
  set indexes := generateShuffledServiceNodeIndexList rng _ s.blockHash .obligations
    (min (activeKeys s).length stateChangeQuorumSize) (activeKeys s).length
  have hperm : indexes.Perm _ := generateShuffledServiceNodeIndexList_perm rng _ _ _ _ _
  have hrange : ∀ i ∈ indexes, i < (activeKeys s ++ decommissionedKeys s).length :=
    fun i hi => by simpa using hperm.mem_iff.mp hi
  have hactive : ∀ i ∈ indexes.take (min (activeKeys s).length stateChangeQuorumSize),
      i < (activeKeys s).length := fun i hi =>
    lt_of_mem_generateShuffledServiceNodeIndexList rng (min_le_left _ _) (Nat.le_add_right _ _) hi
  have hlength := hperm.length_eq
  rw [length_range] at hlength
  rw [fillQuorum_eq hrange hactive (by omega), chosenQuorum_eq hrange hactive]
  exact .const _

theorem checkedQuorum_checkpointing_settles (result : QuorumManager)
    (hmax : (quorumNodes s).length ≤ max) :
    Checked.Settles (fun fuel => checkedQuorum rng.output fuel s result .checkpointing)
      (.ok (if (s.height + reorgSafetyBufferInBlocks) % checkpointInterval = 0 then
        { result with checkpointing := some (checkpointingQuorum rng s) } else result)) := by
  unfold checkedQuorum checkpointingQuorum
  simp only [← activeKeys.eq_1]
  by_cases hheight : (s.height + reorgSafetyBufferInBlocks) % checkpointInterval = 0
  · rw [if_pos hheight]
    simp only [if_neg (not_not_intro hheight)]
    rw [quorumNodes, length_append] at hmax
    refine (checkedShuffledServiceNodeIndexList_settles rng s.blockHash .checkpointing _ _
      (Nat.le_of_add_right_le hmax)).bind ?_
    set indexes := generateShuffledServiceNodeIndexList rng _ s.blockHash .checkpointing 0 0
    have hperm : indexes.Perm _ := generateShuffledServiceNodeIndexList_perm rng _ _ _ _ _
    have hactive : ∀ i ∈ indexes, i < (activeKeys s).length :=
      fun i hi => by simpa using hperm.mem_iff.mp hi
    have hrange : ∀ i ∈ indexes, i < (activeKeys s ++ decommissionedKeys s).length :=
      fun i hi => by rw [length_append]; have := hactive i hi; omega
    have htaken : ∀ i ∈ indexes.take (min indexes.length checkpointQuorumSize),
        i < (activeKeys s).length := fun i hi => hactive i (mem_of_mem_take hi)
    rw [fillQuorum_eq hrange htaken (by omega), chosenQuorum_eq hrange htaken]
    simp only [take_zero, filterMap_nil, min_comm indexes.length, take_eq_take_min.symm]
    exact .const _
  · rw [if_neg hheight]
    simp only [if_pos hheight]
    exact .const _

/-- On the stream of an engine the call returns the quorums of the model. -/
theorem checkedGenerateQuorums_settles (hardForkVersion : ℕ) (hmax : (quorumNodes s).length ≤ max) :
    Checked.Settles (fun fuel => checkedGenerateQuorums rng.output fuel hardForkVersion s)
      (.ok (generateQuorums rng hardForkVersion s)) := by
  unfold checkedGenerateQuorums quorumTypes generateQuorums maxQuorumTypeForHf
  by_cases hfork : hardForkVersion < 17
  · simp only [if_pos hfork, foldlM_cons, foldlM_nil]
    refine (checkedQuorum_obligations_settles rng s {} hmax).bind ?_
    simp only [reduceCtorEq, false_and, if_false]
    exact .const _
  · simp only [if_neg hfork, foldlM_cons, foldlM_nil]
    refine (checkedQuorum_obligations_settles rng s {} hmax).bind ?_
    refine (checkedQuorum_checkpointing_settles rng s _ hmax).bind ?_
    by_cases hheight : (s.height + reorgSafetyBufferInBlocks) % checkpointInterval = 0
    · simp only [if_pos hheight, true_and]
      exact .const _
    · simp only [true_and, if_neg hheight]
      exact .const _

end Engine

/-- On every stream of random values the quorums are chosen without an access out
of range; a checkpointing quorum is there from fork 17 on, at the heights that are
voted on. On every stream whose rejection loops end, the call returns. -/
theorem generated_quorums_are_choices (hardForkVersion : ℕ) (s : State) :
    (∀ out fuel, (checkedGenerateQuorums out fuel hardForkVersion s).Sound
      (IsQuorumChoice s hardForkVersion)) ∧
    ∀ rng : RandomEngine, (quorumNodes s).length ≤ RandomEngine.max →
      Checked.Settles (fun fuel => checkedGenerateQuorums rng.output fuel hardForkVersion s)
        (.ok (generateQuorums rng hardForkVersion s)) :=
  ⟨fun out fuel => checkedGenerateQuorums_sound s out fuel hardForkVersion,
    fun rng => checkedGenerateQuorums_settles rng s hardForkVersion⟩

/-- Eleven active nodes and a decommissioned one. -/
def twelveNodes : State where
  height := 1
  serviceNodesInfos := ((List.range 12).map fun i =>
    ⟨BitVec.ofNat 256 i, { activeSinceHeight := if i = 3 then -1 else 0 }⟩).toAList

theorem twelve_nodes_quorums :
    (quorumNodes twelveNodes).length = 12 ∧
      IsQuorumChoice twelveNodes 17 (generateQuorums RandomEngine.zero 17 twelveNodes) := by
  have hlength : (quorumNodes twelveNodes).length = 12 := by
    decide
  refine ⟨hlength, ?_⟩
  have hchoices := generated_quorums_are_choices 17 twelveNodes
  have hsettles := hchoices.2 RandomEngine.zero (by rw [hlength]; decide)
  obtain ⟨fuel, hreturned⟩ := hsettles.exists
  exact (hchoices.1 _ fuel).result _ hreturned

/-- Before fork 17 there is no checkpointing quorum at any height, and on a stream
that stays at its maximum the choice among two nodes does not end. -/
theorem no_checkpointing_before_fork_17 :
    (checkpointInterval ∣ ({ height := 1 } : State).height + reorgSafetyBufferInBlocks ∧
      checkedGenerateQuorums RandomEngine.zero.output 1 16 { height := 1 } =
        .ok { obligations := some {} }) ∧
    ∀ fuel, RandomEngine.drawBelow (fun _ => -1) 2 fuel 0 = .error .outOfFuel := by
  refine ⟨by decide, fun fuel => ?_⟩
  exact RandomEngine.rejectionLoop_endless _ (fun _ _ => by decide) fuel

end Arqma.ServiceNodes
