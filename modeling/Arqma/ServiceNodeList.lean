import Arqma.NodeInvariant

/-!
# The service node list

The list keeps the current state, the recent states by height, and an archive of
every ten thousandth state with the quorums just before it. `processBlock` adds a
block, `blockchainDetached` goes back to an earlier one, and `store`, `load` and
`init` carry the list over a restart. The two blobs of the database are part of the
list; a restarted node has a fresh list with the same blobs.
-/
namespace Arqma.ServiceNodes
open Arqma.Cryptonote

def storeLongTermStateInterval : ℕ := 10000
def defaultShortTermStateHistory : ℕ := 6 * stateChangeTxLifetimeInBlocks

def shortTermStateCullHeight (blockHeight : ℕ) : ℕ :=
  if blockHeight < defaultShortTermStateHistory then 0
  else blockHeight - defaultShortTermStateHistory

theorem shortTermStateCullHeight_eq (height : ℕ) :
    shortTermStateCullHeight height = height - 360 := by
  have hhistory : defaultShortTermStateHistory = 360 := rfl
  rw [shortTermStateCullHeight, hhistory]
  split_ifs <;> omega

structure ChainBlock where
  block : Block
  txs : List Transaction

/-- What the list asks of the blockchain. The block at height `h` is `blocks[h]`. -/
structure Chain where
  blocks : List ChainBlock
  hardForkVersion : ℕ → ℕ
  currentHardForkVersion : ℕ
  hardFork16FromHeight : ℕ
  /-- The height of the immutable checkpoint for a chain of some height. -/
  immutableCheckpoint : ℕ → Option ℕ

def Chain.blockIdByHeight (chain : Chain) (height : ℕ) : Hash :=
  (chain.blocks[height]?.map fun b => b.block.hash).getD 0

structure QuorumsByHeight where
  height : ℕ
  quorums : QuorumManager
deriving DecidableEq

section Serialization

structure QuorumForSerialization where
  height : ℕ
  obligations : Quorum
  checkpointing : Quorum
deriving DecidableEq

structure StateSerialized where
  height : ℕ
  infos : ServiceNodesInfos
  keyImageBlacklist : List KeyImageBlacklistEntry
  quorums : QuorumForSerialization
  onlyStoredQuorums : Bool
  blockHash : Hash

structure DataForSerialization where
  quorumStates : List QuorumForSerialization
  states : List StateSerialized

/-- The two blobs the database keeps for the list. -/
structure ServiceNodeData where
  longTerm : Option DataForSerialization := none
  shortTerm : Option DataForSerialization := none

def serializeQuorumState (height : ℕ) (quorums : QuorumManager) : QuorumForSerialization where
  height
  obligations := quorums.obligations.getD {}
  checkpointing := quorums.checkpointing.getD {}

def serializeServiceNodeStateObject (s : State) (onlySerializeQuorums : Bool) :
    StateSerialized where
  height := s.height
  infos := if onlySerializeQuorums then ∅ else s.serviceNodesInfos
  keyImageBlacklist := if onlySerializeQuorums then [] else s.keyImageBlacklist
  quorums := serializeQuorumState s.height s.quorums
  onlyStoredQuorums := s.onlyLoadedQuorums || onlySerializeQuorums
  blockHash := if onlySerializeQuorums then 0 else s.blockHash

def quorumForSerializationToQuorumManager (source : QuorumForSerialization) : QuorumManager where
  obligations := some source.obligations
  checkpointing :=
    if (source.height + reorgSafetyBufferInBlocks) % checkpointInterval = 0 then
      some source.checkpointing
    else none

/-- Records of the first version are brought up to the second. -/
def upgraded (info : ServiceNodeInfo) : ServiceNodeInfo := { info with version := .v1 }

def upgradedInfos (infos : ServiceNodesInfos) : ServiceNodesInfos where
  entries := infos.entries.map fun e => ⟨e.1, upgraded e.2⟩
  nodupKeys := by
    have hkeys : (infos.entries.map fun e => (⟨e.1, upgraded e.2⟩ : Σ _ : PublicKey,
        ServiceNodeInfo)).keys = infos.entries.keys := by
      simp [List.keys, Function.comp_def]
    rw [List.NodupKeys, hkeys]
    exact infos.nodupKeys

/-- `state_t` of a serialized state, with the block hash looked up again. -/
def State.ofSerialized (chain : Chain) (serialized : StateSerialized) : State where
  blockHash := chain.blockIdByHeight serialized.height
  onlyLoadedQuorums := serialized.onlyStoredQuorums
  serviceNodesInfos := upgradedInfos serialized.infos
  keyImageBlacklist := serialized.keyImageBlacklist
  height := serialized.height
  quorums := quorumForSerializationToQuorumManager serialized.quorums

end Serialization

structure ServiceNodeList where
  storeQuorumHistory : ℕ := 0
  state : State := {}
  stateHistory : StateSet := OrderedTable.empty
  stateArchive : StateSet := OrderedTable.empty
  oldQuorumStates : List QuorumsByHeight := []
  altState : AltStates := []
  stateAddedToArchive : Bool := false
  db : ServiceNodeData := {}

/-- The part of a list that blocks are processed with: its state and its history. -/
abbrev View := State × StateSet

def View.historyFor (v : View) (b : ChainBlock) : StateSet :=
  (v.2.filter fun s => shortTermStateCullHeight (getBlockHeight b.block) < s.height).insert v.1

namespace ServiceNodeList

def view (l : ServiceNodeList) : View := (l.state, l.stateHistory)

section ProcessBlock

/-- State changes shortly after the next long term state may refer to these quorums. -/
def needQuorumForFutureStates (height : ℕ) : Bool :=
  (height / storeLongTermStateInterval + 1) * storeLongTermStateInterval - height ≤
    voteLifetime + voteOrTxVerifyHeightBuffer

def goesToArchive (s : State) : Bool :=
  s.height % storeLongTermStateInterval = 0 || needQuorumForFutureStates s.height

def archived (s : State) : State :=
  if needQuorumForFutureStates s.height then
    { s with
      serviceNodesInfos := ∅
      keyImageBlacklist := []
      onlyLoadedQuorums := true }
  else s

theorem archived_height (s : State) : (archived s).height = s.height := by
  unfold archived
  split_ifs <;> rfl

def cullHistory (l : ServiceNodeList) (cullHeight : ℕ) : ServiceNodeList :=
  let culled := l.stateHistory.rows.filter fun s => s.height ≤ cullHeight
  let oldQuorumStates :=
    if l.storeQuorumHistory = 0 then l.oldQuorumStates
    else l.oldQuorumStates ++ culled.map fun s => ⟨s.height, s.quorums⟩
  { l with
    oldQuorumStates := oldQuorumStates.drop (oldQuorumStates.length - l.storeQuorumHistory)
    stateArchive := (culled.filter goesToArchive).foldl
      (fun archive s => archive.insert (archived s)) l.stateArchive
    stateAddedToArchive := l.stateAddedToArchive || culled.any goesToArchive
    stateHistory := l.stateHistory.filter fun s => cullHeight < s.height }

def cullAltState (chain : Chain) (l : ServiceNodeList) (blockHeight : ℕ) : ServiceNodeList :=
  match chain.immutableCheckpoint blockHeight with
  | none => l
  | some immutable => { l with altState := l.altState.filter fun e => immutable ≤ e.2.height }

/-- The alternative states are kept, but the update is given none of them. -/
def processBlock (env : Env) (chain : Chain) (l : ServiceNodeList) (b : ChainBlock) :
    ServiceNodeList :=
  let blockHeight := getBlockHeight b.block
  if chain.hardForkVersion blockHeight < 16 then l
  else
    let culled := cullAltState chain (l.cullHistory (shortTermStateCullHeight blockHeight))
      blockHeight
    let history := culled.stateHistory.insert culled.state
    { culled with
      stateHistory := history
      state := updateFromBlock env history [] culled.state b.block b.txs }

variable {env : Env} {chain : Chain} {l : ServiceNodeList}

@[simp] theorem cullAltState_state (height : ℕ) :
    (cullAltState chain l height).state = l.state := by
  unfold cullAltState
  split <;> rfl

@[simp] theorem cullAltState_stateHistory (height : ℕ) :
    (cullAltState chain l height).stateHistory = l.stateHistory := by
  unfold cullAltState
  split <;> rfl

@[simp] theorem cullAltState_stateArchive (height : ℕ) :
    (cullAltState chain l height).stateArchive = l.stateArchive := by
  unfold cullAltState
  split <;> rfl

theorem processBlock_stateHistory {b : ChainBlock}
    (h16 : 16 ≤ chain.hardForkVersion (getBlockHeight b.block)) :
    (processBlock env chain l b).stateHistory = l.view.historyFor b := by
  simp [processBlock, Nat.not_lt.mpr h16, View.historyFor, view, cullHistory]

theorem processBlock_stateArchive {b : ChainBlock}
    (h16 : 16 ≤ chain.hardForkVersion (getBlockHeight b.block)) :
    (processBlock env chain l b).stateArchive =
      ((l.stateHistory.rows.filter fun s =>
        s.height ≤ shortTermStateCullHeight (getBlockHeight b.block)).filter goesToArchive).foldl
        (fun archive s => archive.insert (archived s)) l.stateArchive := by
  simp [processBlock, Nat.not_lt.mpr h16, cullHistory]

theorem processBlock_state {b : ChainBlock}
    (h16 : 16 ≤ chain.hardForkVersion (getBlockHeight b.block)) :
    (processBlock env chain l b).state =
      updateFromBlock env (l.view.historyFor b) [] l.state b.block b.txs := by
  simp [processBlock, Nat.not_lt.mpr h16, View.historyFor, view, cullHistory]

end ProcessBlock

section Persistence

def store (chain : Chain) (l : ServiceNodeList) : ServiceNodeList :=
  if chain.currentHardForkVersion < 16 then l
  else
    let maxShortTermHeight := shortTermStateCullHeight (l.state.height - 1) + voteLifetime +
      voteOrTxVerifyHeightBuffer
    { l with
      stateAddedToArchive := false
      db :=
        { longTerm :=
            if l.stateAddedToArchive then
              some ⟨[], l.stateArchive.rows.map fun s => serializeServiceNodeStateObject s false⟩
            else l.db.longTerm
          shortTerm := some {
            quorumStates := l.oldQuorumStates.map fun q => serializeQuorumState q.height q.quorums
            states := (l.stateHistory.rows.filter fun s => s.height ≤ maxShortTermHeight).map
              fun s => serializeServiceNodeStateObject s (s.height < maxShortTermHeight) } } }

@[simp] theorem store_state (chain : Chain) (l : ServiceNodeList) :
    (l.store chain).state = l.state := by
  unfold store
  split_ifs <;> rfl

@[simp] theorem store_stateHistory (chain : Chain) (l : ServiceNodeList) :
    (l.store chain).stateHistory = l.stateHistory := by
  unfold store
  split_ifs <;> rfl

def reset (chain : Chain) (l : ServiceNodeList) (deleteDbEntry : Bool) : ServiceNodeList where
  storeQuorumHistory := l.storeQuorumHistory
  state := { height := chain.hardFork16FromHeight - 1 }
  db := if deleteDbEntry then {} else l.db

/-- The loop over the stored quorum states, which must ascend. -/
def loadQuorumStates (histStateFromHeight : ℕ) :
    List QuorumForSerialization → ℕ → List QuorumsByHeight → Option (List QuorumsByHeight)
  | [], _, loaded => some loaded
  | q :: rest, lastLoadedHeight, loaded =>
    if q.height < histStateFromHeight then
      loadQuorumStates histStateFromHeight rest lastLoadedHeight loaded
    else if q.height ≤ lastLoadedHeight then none
    else
      loadQuorumStates histStateFromHeight rest q.height
        (loaded ++ [⟨q.height, quorumForSerializationToQuorumManager q⟩])

/-- A stored state with the height and the quorums of the one before it. -/
def migrated (chain : Chain) (previous serialized : StateSerialized) : State :=
  { State.ofSerialized chain serialized with
    quorums := quorumForSerializationToQuorumManager previous.quorums
    height := serialized.height - 1 }

/-- The states of the short term blob, each paired with the one before it. -/
def migratedStates (chain : Chain) (states : List StateSerialized) : List State :=
  List.zipWith (migrated chain) states states.tail

/-- Read the short term blob. The long term blob is cleared before it is parsed, so
nothing of it is read. The result is `none` where the source returns false. -/
def load (chain : Chain) (l : ServiceNodeList) (currentHeight : ℕ) : Option ServiceNodeList := do
  let fresh := l.reset chain false
  let data ← l.db.shortTerm
  let last ← data.states.getLast?
  let histStateFromHeight := (UInt64.ofNat currentHeight - UInt64.ofNat l.storeQuorumHistory).toNat
  let oldQuorumStates ← loadQuorumStates histStateFromHeight data.quorumStates 0 []
  if last.onlyStoredQuorums then none
  else
    let states := migratedStates chain data.states
    some { fresh with
      oldQuorumStates
      state := states.getLast?.getD fresh.state
      -- from the second last back to the first
      stateArchive := states.dropLast.reverse.foldl (fun archive s => archive.insert s)
        fresh.stateArchive }

def storeEveryTenth (chain : Chain) (storeToDisk : Bool) (i : ℕ) (l : ServiceNodeList) :
    ServiceNodeList :=
  if storeToDisk ∧ 0 < i ∧ i % 10 = 0 then l.store chain else l

/-- The loop of the rescan in batches of a thousand blocks. The flag says that it ran
to its end. -/
def rescanBatches (env : Env) (chain : Chain) (storeToDisk : Bool) :
    ℕ → ℕ → ServiceNodeList → ServiceNodeList × Bool
  | 0, _, l => (l, true)
  | fuel + 1, i, l =>
    if chain.blocks.length - 1 ≤ l.state.height then (l, true)
    else
      let batch := (chain.blocks.drop (l.state.height + 1)).take 1000
      let scanned := batch.foldl (processBlock env chain) (storeEveryTenth chain storeToDisk i l)
      if scanned.state.height = l.state.height then (scanned, false)
      else rescanBatches env chain storeToDisk fuel (i + 1) scanned

def rescanStartingFromCurrState (env : Env) (chain : Chain) (storeToDisk : Bool)
    (l : ServiceNodeList) : ServiceNodeList :=
  if chain.currentHardForkVersion < 16 ∨ l.state.height = chain.blocks.length - 1 then l
  else
    let scanned := rescanBatches env chain storeToDisk chain.blocks.length 0 l
    if storeToDisk ∧ scanned.2 then scanned.1.store chain else scanned.1

def init (env : Env) (chain : Chain) (l : ServiceNodeList) : ServiceNodeList :=
  if chain.currentHardForkVersion < 16 then l.reset chain true
  else
    let currentHeight := chain.blocks.length
    match l.load chain currentHeight with
    | some loaded =>
      if loaded.oldQuorumStates.length < min l.storeQuorumHistory 10 ∨
          currentHeight < loaded.state.height then
        (loaded.reset chain true).rescanStartingFromCurrState env chain true
      else loaded.rescanStartingFromCurrState env chain false
    | none => (l.reset chain true).rescanStartingFromCurrState env chain true

end Persistence

/-- A new list over the database of another one. -/
def restarted (l : ServiceNodeList) : ServiceNodeList where
  storeQuorumHistory := l.storeQuorumHistory
  db := l.db

section Detach

/-- Continue from the last state of a set, which leaves it. -/
def revertTo (env : Env) (chain : Chain) (l : ServiceNodeList) (revertToHeight : ℕ) :
    ServiceNodeList :=
  let rescanned :=
    if l.state.height ≠ revertToHeight then l.rescanStartingFromCurrState env chain false else l
  rescanned.store chain

/-- Go back to the state before the block at `height`: from the history, else from the
archive, else by starting over. -/
def blockchainDetached (env : Env) (chain : Chain) (l : ServiceNodeList) (height : ℕ) :
    ServiceNodeList :=
  let revertToHeight := height - 1
  let prevInterval := revertToHeight - revertToHeight % storeLongTermStateInterval
  match (l.stateHistory.find? revertToHeight).filter fun s => !s.onlyLoadedQuorums with
  | some s =>
    revertTo env chain
      { l with
        state := s
        stateHistory := l.stateHistory.filter fun t => t.height < revertToHeight }
      revertToHeight
  | none =>
    match (l.stateArchive.find? prevInterval).filter fun s => !s.onlyLoadedQuorums with
    | some s =>
      revertTo env chain
        { l with
          state := s
          stateHistory := OrderedTable.empty
          stateArchive := l.stateArchive.filter fun t => t.height < prevInterval }
        revertToHeight
    | none =>
      ServiceNodeList.init env chain
        { l with
          stateHistory := OrderedTable.empty
          stateArchive := OrderedTable.empty }

/-- A detach to a state of the history restores it and forgets what came after. -/
theorem blockchainDetached_of_history {env : Env} {chain : Chain} {l : ServiceNodeList} {height : ℕ}
    {s : State} (hs : l.stateHistory.find? (height - 1) = some s)
    (hfull : s.onlyLoadedQuorums = false) :
    (blockchainDetached env chain l height).state = s ∧
      (blockchainDetached env chain l height).stateHistory =
        l.stateHistory.filter fun t => t.height < height - 1 := by
  have hheight : s.height = height - 1 := (OrderedTable.find?_eq_some.mp hs).2
  have hfilter : (l.stateHistory.find? (height - 1)).filter (fun s => !s.onlyLoadedQuorums) =
      some s := by
    simp [hs, hfull]
  simp only [blockchainDetached, hfilter, revertTo, hheight]
  simp

end Detach

end ServiceNodeList
end Arqma.ServiceNodes
