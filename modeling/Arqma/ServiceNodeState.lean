import Mathlib.Data.List.AList
import Mathlib.Data.Prod.Lex
import Mathlib.Order.Lattice
import Arqma.OrderedTable
import Arqma.Random
import Arqma.ServiceNodeVoting

/-!
# The service node list at one height

A `State` holds the registered nodes, the blacklisted key images and the quorums
after one block. The nodes form an association list without duplicate keys; its
order stands for the unspecified iteration order of the unordered map.
-/
namespace Arqma.ServiceNodes
open Arqma.Cryptonote List

inductive InfoVersion
  | v0
  | v1
deriving DecidableEq, Repr

def getMinimumSnInfoVersion (hardForkVersion : ℕ) : InfoVersion :=
  if hardForkVersion < 17 then .v0 else .v1

structure Contribution where
  keyImagePubKey : PublicKey
  keyImage : KeyImage
  amount : UInt64
deriving DecidableEq, Repr

structure Contributor where
  amount : UInt64 := 0
  reserved : UInt64 := 0
  address : AccountPublicAddress
  lockedContributions : List Contribution := []
deriving DecidableEq, Repr

structure ServiceNodeInfo where
  registrationHeight : ℕ := 0
  requestedUnlockHeight : ℕ := 0
  lastRewardBlockHeight : ℕ := 0
  lastRewardTransactionIndex : ℕ := 0
  decommissionCount : ℕ := 0
  activeSinceHeight : ℤ := 0
  lastDecommissionHeight : ℕ := 0
  contributors : List Contributor := []
  totalContributed : UInt64 := 0
  totalReserved : UInt64 := 0
  stakingRequirement : UInt64 := 0
  portionsForOperator : UInt64 := 0
  swarmId : UInt64 := 0
  operatorAddress : AccountPublicAddress := ⟨0, 0⟩
  lastIpChangeHeight : ℕ := 0
  version : InfoVersion := .v1
deriving DecidableEq, Repr

namespace ServiceNodeInfo

def isFullyFunded (info : ServiceNodeInfo) : Bool :=
  info.stakingRequirement ≤ info.totalContributed

def isDecommissioned (info : ServiceNodeInfo) : Bool := info.activeSinceHeight < 0

def isActive (info : ServiceNodeInfo) : Bool := info.isFullyFunded && !info.isDecommissioned

def totalNumLockedContributions (info : ServiceNodeInfo) : ℕ :=
  (info.contributors.map fun c => c.lockedContributions.length).sum

def lockedContributions (info : ServiceNodeInfo) : List Contribution :=
  info.contributors.flatMap Contributor.lockedContributions

end ServiceNodeInfo

structure KeyImageBlacklistEntry where
  keyImage : KeyImage
  unlockHeight : ℕ
  amount : UInt64
deriving DecidableEq, Repr

abbrev ServiceNodesInfos := AList (fun _ : PublicKey => ServiceNodeInfo)

structure State where
  blockHash : Hash := 0
  onlyLoadedQuorums : Bool := false
  serviceNodesInfos : ServiceNodesInfos := ∅
  keyImageBlacklist : List KeyImageBlacklistEntry := []
  height : ℕ := 0
  quorums : QuorumManager := {}

instance : DecidableEq State := fun s t =>
  decidable_of_iff
    (s.blockHash = t.blockHash ∧ s.onlyLoadedQuorums = t.onlyLoadedQuorums ∧
      s.serviceNodesInfos = t.serviceNodesInfos ∧ s.keyImageBlacklist = t.keyImageBlacklist ∧
      s.height = t.height ∧ s.quorums = t.quorums)
    (by cases s; cases t; simp)

/-- `std::set<state_t>`, ordered by height. -/
abbrev StateSet := OrderedTable State.height

namespace State

/-- The nodes that satisfy `p`, in the order of their keys. -/
def sortAndFilter (s : State) (p : ServiceNodeInfo → Bool) :
    List (Σ _ : PublicKey, ServiceNodeInfo) :=
  (s.serviceNodesInfos.entries.filter fun e => p e.2).insertionSort fun a b => a.1 ≤ b.1

def activeServiceNodesInfos (s : State) : List (Σ _ : PublicKey, ServiceNodeInfo) :=
  s.sortAndFilter fun info => info.isActive

def decommissionedServiceNodesInfos (s : State) : List (Σ _ : PublicKey, ServiceNodeInfo) :=
  s.sortAndFilter fun info => info.isDecommissioned && info.isFullyFunded

/-- The nodes whose requested unlock height is behind the block. -/
def getExpiredNodes (s : State) (blockHeight : ℕ) : List PublicKey :=
  (s.serviceNodesInfos.entries.filter fun e =>
    e.2.requestedUnlockHeight ≠ keyImageAwaitingUnlockHeight ∧
      e.2.requestedUnlockHeight < blockHeight).map Sigma.fst

/-- Whether some registered node holds the key image in its stake. -/
def isKeyImageLocked (s : State) (checkImage : KeyImage) : Bool :=
  s.serviceNodesInfos.entries.any fun e =>
    e.2.contributors.any fun contributor =>
      contributor.lockedContributions.any fun contribution => contribution.keyImage = checkImage

end State

section Quorums

variable (rng : RandomEngine)

/-- Shuffle the indices below `listSize`, so that the first `sublistSize` of them
are taken from those below `sublistUpTo`. -/
def generateShuffledServiceNodeIndexList (listSize : ℕ) (blockHash : Hash) (type : QuorumType)
    (sublistSize sublistUpTo : ℕ) : List ℕ :=
  let result := List.range listSize
  let seed := hashSeed blockHash + type.toUInt64
  if (0 < sublistSize ∧ sublistSize < listSize) ∧ 0 < sublistUpTo ∧ sublistUpTo < listSize then
    let first := rng.shufflePortable (result.take sublistUpTo) seed ++ result.drop sublistUpTo
    first.take sublistSize ++ rng.shufflePortable (first.drop sublistSize) seed
  else
    rng.shufflePortable result seed

section TwoShuffles

variable {listSize sublistSize sublistUpTo : ℕ} {shuffled second : List ℕ}

/-- Two overlapping shuffles only reorder. -/
theorem two_shuffles_perm (hshuffled : shuffled.Perm ((range listSize).take sublistUpTo))
    (hsecond : second.Perm ((shuffled ++ (range listSize).drop sublistUpTo).drop sublistSize)) :
    ((shuffled ++ (range listSize).drop sublistUpTo).take sublistSize ++ second).Perm
      (range listSize) := by
  refine (hsecond.append_left _).trans ?_
  rw [take_append_drop]
  refine (hshuffled.append_right _).trans ?_
  rw [take_append_drop]

/-- The second shuffle leaves the front alone, which the first one filled from the
indices below `sublistUpTo`. -/
theorem lt_of_mem_two_shuffles {i : ℕ} (hsize : sublistSize ≤ sublistUpTo)
    (hupTo : sublistUpTo ≤ listSize) (hshuffled : shuffled.Perm ((range listSize).take sublistUpTo))
    (hi : i ∈ ((shuffled ++ (range listSize).drop sublistUpTo).take sublistSize ++
      second).take sublistSize) : i < sublistUpTo := by
  have hlength : shuffled.length = sublistUpTo := by
    rw [hshuffled.length_eq]
    simp [hupTo]
  grind

/-- Where the sublist is empty or everything, one shuffle is enough. -/
theorem lt_of_mem_one_shuffle {i : ℕ} (hsize : sublistSize ≤ sublistUpTo)
    (hupTo : sublistUpTo ≤ listSize)
    (hsublist : ¬((0 < sublistSize ∧ sublistSize < listSize) ∧
      0 < sublistUpTo ∧ sublistUpTo < listSize))
    (hshuffled : shuffled.Perm (range listSize)) (hi : i ∈ shuffled.take sublistSize) :
    i < sublistUpTo := by
  have hmem := hshuffled.mem_iff.mp (mem_of_mem_take hi)
  rw [mem_range] at hmem
  by_cases hnone : sublistSize = 0
  · simp [hnone] at hi
  · omega

end TwoShuffles

theorem generateShuffledServiceNodeIndexList_perm (listSize : ℕ) (blockHash : Hash)
    (type : QuorumType) (sublistSize sublistUpTo : ℕ) :
    (generateShuffledServiceNodeIndexList rng listSize blockHash type sublistSize
      sublistUpTo).Perm (range listSize) := by
  unfold generateShuffledServiceNodeIndexList
  grind [two_shuffles_perm, rng.shufflePortable_perm]

/-- The first `sublistSize` indices are below `sublistUpTo`. -/
theorem lt_of_mem_generateShuffledServiceNodeIndexList {listSize : ℕ} {blockHash : Hash}
    {type : QuorumType} {sublistSize sublistUpTo i : ℕ} (hsize : sublistSize ≤ sublistUpTo)
    (hupTo : sublistUpTo ≤ listSize)
    (hi : i ∈ (generateShuffledServiceNodeIndexList rng listSize blockHash type sublistSize
      sublistUpTo).take sublistSize) : i < sublistUpTo := by
  unfold generateShuffledServiceNodeIndexList at hi
  simp only at hi
  split_ifs at hi with hsublist
  · exact lt_of_mem_two_shuffles hsize hupTo (rng.shufflePortable_perm _ _) hi
  · exact lt_of_mem_one_shuffle hsize hupTo hsublist (rng.shufflePortable_perm _ _) hi

/-- The obligations quorum tests decommissioned nodes too; only active ones vote. -/
def obligationsQuorum (s : State) : Quorum :=
  let active := s.activeServiceNodesInfos.map Sigma.fst
  let decommissioned := s.decommissionedServiceNodesInfos.map Sigma.fst
  let totalNodes := active.length + decommissioned.length
  let numValidators := min active.length stateChangeQuorumSize
  let indexes := generateShuffledServiceNodeIndexList rng totalNodes s.blockHash .obligations
    numValidators active.length
  let numRemainingNodes := totalNodes - numValidators
  let numWorkers := min numRemainingNodes
    (max stateChangeMinNodesToTest (numRemainingNodes / stateChangeNthOfTheNetworkToTest))
  { validators := (indexes.take numValidators).filterMap fun i => active[i]?
    workers := ((indexes.drop numValidators).take numWorkers).filterMap fun i =>
      (active ++ decommissioned)[i]? }

theorem obligationsQuorum_validators_length (s : State) :
    (obligationsQuorum rng s).validators.length =
      min s.activeServiceNodesInfos.length stateChangeQuorumSize := by
  unfold obligationsQuorum
  simp only [length_map]
  rw [length_filterMap_eq_countP, countP_eq_length.mpr]
  · rw [length_take, (generateShuffledServiceNodeIndexList_perm ..).length_eq]
    simp
  · intro i hi
    have hlt := lt_of_mem_generateShuffledServiceNodeIndexList rng (by omega) (by omega) hi
    simp [hlt]

def checkpointingQuorum (s : State) : Quorum :=
  let active := s.activeServiceNodesInfos.map Sigma.fst
  let indexes := generateShuffledServiceNodeIndexList rng active.length s.blockHash
    .checkpointing 0 0
  { validators := (indexes.take checkpointQuorumSize).filterMap fun i => active[i]? }

theorem checkpointingQuorum_validators_length (s : State) :
    (checkpointingQuorum rng s).validators.length =
      min checkpointQuorumSize s.activeServiceNodesInfos.length := by
  unfold checkpointingQuorum
  grind [length_filterMap_eq_countP, countP_eq_length.mpr,
    (generateShuffledServiceNodeIndexList_perm ..).length_eq,
    generateShuffledServiceNodeIndexList_perm]

/-- Checkpoints are voted on only every few blocks and from the fork that has them. -/
def generateQuorums (hardForkVersion : ℕ) (s : State) : QuorumManager where
  obligations := some (obligationsQuorum rng s)
  checkpointing :=
    if maxQuorumTypeForHf hardForkVersion = .checkpointing ∧
        (s.height + reorgSafetyBufferInBlocks) % checkpointInterval = 0 then
      some (checkpointingQuorum rng s)
    else
      none

end Quorums

section Winner

/-- How long a node waits for a reward: the smallest value is served first. -/
structure WaitingSince where
  lastRewardBlockHeight : ℕ
  lastRewardTransactionIndex : ℕ
  key : PublicKey
deriving DecidableEq, Repr

namespace WaitingSince

def toLexTriple (w : WaitingSince) : ℕ ×ₗ ℕ ×ₗ ℕ :=
  toLex (w.lastRewardBlockHeight, toLex (w.lastRewardTransactionIndex, w.key.toNat))

theorem toLexTriple_injective : Function.Injective toLexTriple := by
  intro v w h
  cases v
  cases w
  simpa [toLexTriple, BitVec.toNat_inj] using h

instance : LinearOrder WaitingSince := LinearOrder.lift' toLexTriple toLexTriple_injective

/-- The value the scan of the nodes starts from. -/
def never : WaitingSince := ⟨uint64Max, uint32Max, 0⟩

end WaitingSince

structure PayoutEntry where
  address : AccountPublicAddress
  portions : UInt64
deriving DecidableEq, Repr

structure BlockWinner where
  key : PublicKey
  payouts : List PayoutEntry
deriving DecidableEq, Repr

def nullBlockWinner : BlockWinner := ⟨0, [⟨⟨0, 0⟩, stakingShareParts⟩]⟩

def waitingSince (e : Σ _ : PublicKey, ServiceNodeInfo) : WaitingSince :=
  ⟨e.2.lastRewardBlockHeight, e.2.lastRewardTransactionIndex, e.1⟩

def oldestWaitingStep (oldest : WaitingSince × Option ServiceNodeInfo)
    (e : Σ _ : PublicKey, ServiceNodeInfo) : WaitingSince × Option ServiceNodeInfo :=
  if e.2.isActive then
    if waitingSince e < oldest.1 then (waitingSince e, some e.2) else oldest
  else
    oldest

/-- The share of a contributor, with the operator's cut for the operator. -/
def payoutOf (info : ServiceNodeInfo) (contributor : Contributor) : PayoutEntry :=
  let product := IntUtil.mul128 contributor.amount (stakingShareParts - info.portionsForOperator)
  let share := (IntUtil.div128_64 product.1 product.2 info.stakingRequirement).dividendLo
  { address := contributor.address
    portions :=
      if contributor.address = info.operatorAddress then share + info.portionsForOperator
      else share }

def State.getBlockWinner (s : State) : BlockWinner :=
  let oldest := s.serviceNodesInfos.entries.foldl oldestWaitingStep (.never, none)
  match oldest.2 with
  | none => nullBlockWinner
  | some info =>
    if oldest.1.key = 0 then nullBlockWinner
    else { key := oldest.1.key, payouts := info.contributors.map (payoutOf info) }

end Winner

end Arqma.ServiceNodes
