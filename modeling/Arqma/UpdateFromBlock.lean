import Mathlib.Logic.Relation
import Arqma.Staking

/-!
# Applying a block to the service node list

`updateFromBlock` is the transition of the list by one block. The second half of
the file says once what it can do: every block is a sequence of the elementary
changes of `Change`, each with the condition under which the source makes it.
-/
namespace Arqma.ServiceNodes
open Arqma.Cryptonote List AList

variable {key : PublicKey} {txs : List Transaction} {tx : Transaction} {info : ServiceNodeInfo}
  {blockHeight : ℕ}
variable (history : StateSet)

/-- `std::map` from swarm ids to the nodes of the swarm. -/
abbrev SwarmMap := OrderedTable (fun e : UInt64 × List PublicKey => e.1.toNat)

/-- `swarms[id].push_back(key)`. -/
def SwarmMap.pushBack (swarms : SwarmMap) (id : UInt64) (key : PublicKey) : SwarmMap :=
  swarms.put (id, ((swarms.find? id.toNat).map Prod.snd).getD [] ++ [key])

/-- What the list is run with. The reassignment of swarms is left arbitrary. -/
structure Env where
  crypto : Crypto
  rng : RandomEngine
  nettype : NetworkType
  calcSwarmChanges : SwarmMap → UInt64 → SwarmMap

/-- The surroundings of the concrete runs. -/
def sampleEnv : Env := ⟨sampleCrypto, .zero, .stagenet, fun swarms _ => swarms⟩

/-- Alternative states in the iteration order of their map. -/
abbrev AltStates := List (Hash × State)

variable (env : Env)

def processRegistrationTx (s : State) (block : Block) (tx : Transaction) (index : ℕ) :
    Option State :=
  match isRegistrationTx env.crypto env.nettype block.majorVersion tx block.timestamp
      (getBlockHeight block) index {} with
  | none => none
  | some (key, info) =>
    if (s.serviceNodesInfos.lookup key).isSome then none
    else some { s with serviceNodesInfos := s.serviceNodesInfos.insert key info }

/-- The flag says whether the node has become fully funded. -/
def processContributionTx (s : State) (block : Block) (tx : Transaction) (index : ℕ) :
    State × Bool :=
  match getServiceNodePubkeyFromTxExtra tx.extra, getContribution env.crypto tx with
  | some pubkey, some parsed =>
    match s.serviceNodesInfos.lookup pubkey with
    | none => (s, false)
    | some curinfo =>
      if acceptsContribution curinfo parsed then
        let info := contribute curinfo parsed (getBlockHeight block) index
        ({ s with serviceNodesInfos := s.serviceNodesInfos.insert pubkey info },
          info.isFullyFunded)
      else (s, false)
  | _, _ => (s, false)

def verifiesStateChange (block : Block) (stateChange : ServiceNodeStateChange)
    (quorums : QuorumManager) : Bool :=
  match quorums.obligations with
  | none => false
  | some quorum =>
    (verifyTxStateChange env.crypto quorum block.majorVersion stateChange
      (getBlockHeight block)).isOk

/-- The quorums that vouch for a state change: those of the history at its height,
else those of the last alternative state at that height. -/
def stateChangeQuorums (history : StateSet) (altStates : AltStates) (block : Block)
    (stateChange : ServiceNodeStateChange) : Option QuorumManager :=
  match history.find? stateChange.blockHeight with
  | none => none
  | some state =>
    if verifiesStateChange env block stateChange state.quorums then some state.quorums
    else
      altStates.foldl (fun quorums alt =>
        if alt.2.height ≠ stateChange.blockHeight then quorums
        else if verifiesStateChange env block stateChange alt.2.quorums then
          some alt.2.quorums
        else none) none

/-- The entries a deregistration at a height adds to the blacklist. -/
def blacklistEntries (info : ServiceNodeInfo) (blockHeight : ℕ) : List KeyImageBlacklistEntry :=
  info.lockedContributions.map fun contribution =>
    { keyImage := contribution.keyImage
      unlockHeight := blockHeight + stakingNumLockBlocks env.nettype
      amount := contribution.amount }

/-- A node taken out of service at a height. -/
def decommissioned (info : ServiceNodeInfo) (blockHeight : ℕ) : ServiceNodeInfo :=
  { info with
    activeSinceHeight := -info.activeSinceHeight
    lastDecommissionHeight := blockHeight
    decommissionCount := info.decommissionCount + 1
    swarmId := unassignedSwarmId }

/-- A node put at the end of the reward queue. -/
def rewarded (info : ServiceNodeInfo) (blockHeight : ℕ) : ServiceNodeInfo :=
  { info with
    lastRewardBlockHeight := blockHeight
    lastRewardTransactionIndex := uint32Max }

def applyStateChange (s : State) (block : Block) (key : PublicKey) (info : ServiceNodeInfo) :
    NewState → Option State
  | .deregister =>
    some { s with
      keyImageBlacklist :=
        if 16 ≤ block.majorVersion then
          s.keyImageBlacklist ++ blacklistEntries env info (getBlockHeight block)
        else s.keyImageBlacklist
      serviceNodesInfos := s.serviceNodesInfos.erase key }
  | .decommission =>
    if info.isDecommissioned then none
    else some { s with
      serviceNodesInfos :=
        s.serviceNodesInfos.insert key (decommissioned info (getBlockHeight block)) }
  | .recommission =>
    if !info.isDecommissioned then none
    else some { s with
      serviceNodesInfos := s.serviceNodesInfos.insert key
        { rewarded info (getBlockHeight block) with
          activeSinceHeight := (getBlockHeight block : ℤ) } }
  | .ipChangePenalty =>
    if info.isDecommissioned then none
    else some { s with
      serviceNodesInfos := s.serviceNodesInfos.insert key
        { rewarded info (getBlockHeight block) with
          lastIpChangeHeight := getBlockHeight block } }

def processStateChangeTx (history : StateSet) (altStates : AltStates) (s : State) (block : Block)
    (tx : Transaction) : Option State := do
  let stateChange ← getServiceNodeStateChangeFromTxExtra tx.extra
  let quorums ← stateChangeQuorums env history altStates block stateChange
  let quorum ← quorums.obligations
  let key ← quorum.workers[stateChange.serviceNodeIndex]?
  let info ← s.serviceNodesInfos.lookup key
  applyStateChange env s block key info stateChange.state

/-- The first contribution of the first contributor that holds a key image. -/
def findLockedContribution (info : ServiceNodeInfo) (keyImage : KeyImage) : Option Contribution :=
  info.contributors.findSome? fun contributor =>
    contributor.lockedContributions.find? fun contribution => contribution.keyImage = keyImage

/-- A node without an unlock height takes one from the owner of a locked output. -/
def acceptsUnlock (info : ServiceNodeInfo) (unlock : KeyImageUnlock) : Bool :=
  info.requestedUnlockHeight = keyImageAwaitingUnlockHeight &&
  match findLockedContribution info unlock.keyImage with
  | none => false
  | some contribution =>
    env.crypto.checkSignature (generateRequestStakeUnlockHash unlock.nonce)
      contribution.keyImagePubKey unlock.signature

def processKeyImageUnlockTx (s : State) (blockHeight : ℕ) (tx : Transaction) : Option State := do
  let snodeKey ← getServiceNodePubkeyFromTxExtra tx.extra
  let info ← s.serviceNodesInfos.lookup snodeKey
  let unlock ← getTxKeyImageUnlockFromTxExtra tx.extra
  if acceptsUnlock env info unlock then
    some { s with
      serviceNodesInfos := s.serviceNodesInfos.insert snodeKey
        { info with
          requestedUnlockHeight :=
            getLockedKeyImageUnlockHeight env.nettype info.registrationHeight blockHeight } }
  else none

/-- Remove a node, noting whether an active one is gone. -/
def expireNode (acc : State × Bool) (key : PublicKey) : State × Bool :=
  match acc.1.serviceNodesInfos.lookup key with
  | none => acc
  | some info =>
    ({ acc.1 with serviceNodesInfos := acc.1.serviceNodesInfos.erase key },
      acc.2 || info.isActive)

/-- Send the node the miner transaction names to the end of the reward queue. -/
def advanceWinner (s : State) (block : Block) : State :=
  let winner := getServiceNodeWinnerFromTxExtra block.minerTx.extra
  match s.serviceNodesInfos.lookup winner with
  | none => s
  | some info =>
    { s with
      serviceNodesInfos :=
        s.serviceNodesInfos.insert winner (rewarded info (getBlockHeight block)) }

/-- One transaction of a block. A transfer may register a node and contribute to it. -/
def processTx (history : StateSet) (altStates : AltStates) (block : Block) (acc : State × Bool)
    (entry : Transaction × ℕ) : State × Bool :=
  let tx := entry.1
  if tx.isTransfer then
    let registered := (processRegistrationTx env acc.1 block tx entry.2).getD acc.1
    let contributed := processContributionTx env registered block tx entry.2
    (contributed.1, acc.2 || contributed.2)
  else if tx.txType = .stateChange then
    match processStateChangeTx env history altStates acc.1 block tx with
    | none => acc
    | some s => (s, true)
  else
    ((processKeyImageUnlockTx env acc.1 (getBlockHeight block) tx).getD acc.1, acc.2)

def setSwarmId (id : UInt64) (s : State) (key : PublicKey) : State :=
  match s.serviceNodesInfos.lookup key with
  | none => s
  | some info =>
    if info.swarmId = id then s
    else { s with
      serviceNodesInfos := s.serviceNodesInfos.insert key { info with swarmId := id } }

def updateSwarms (s : State) (block : Block) : State :=
  let existingSwarms := s.activeServiceNodesInfos.foldl
    (fun swarms e => SwarmMap.pushBack swarms e.2.swarmId e.1) OrderedTable.empty
  let swarms := env.calcSwarmChanges existingSwarms (hashSeed block.hash)
  swarms.rows.foldl (fun s entry => entry.2.foldl (setSwarmId entry.1) s) s

/-- The new header, with the blacklist freed of what is unlocked. -/
def startBlock (s : State) (block : Block) : State :=
  { s with
    height := s.height + 1
    quorums := {}
    blockHash := block.hash
    keyImageBlacklist :=
      s.keyImageBlacklist.filter fun entry => getBlockHeight block < entry.unlockHeight }

/-- The list after the transactions, with the flag for a swarm update. -/
def processTxs (history : StateSet) (altStates : AltStates) (s : State) (block : Block)
    (txs : List Transaction) : State × Bool :=
  let started := startBlock s block
  let expired := (started.getExpiredNodes (getBlockHeight block)).foldl expireNode (started, false)
  txs.zipIdx.foldl (processTx env history altStates block)
    (advanceWinner expired.1 block, expired.2)

def updateFromBlock (history : StateSet) (altStates : AltStates) (s : State) (block : Block)
    (txs : List Transaction) : State :=
  let processed := processTxs env history altStates s block txs
  let updated := if processed.2 then updateSwarms env processed.1 block else processed.1
  { updated with quorums := generateQuorums env.rng block.majorVersion updated }

section Changes

variable (block : Block)

/-- The elementary changes a block makes to the list without crediting a stake or
dating its end. -/
inductive PassiveChange : State → State → Prop
  | start (s : State) : PassiveChange s (startBlock s block)
  | expire {s : State} {key : PublicKey} {info : ServiceNodeInfo}
      (node : s.serviceNodesInfos.lookup key = some info)
      (requested : info.requestedUnlockHeight ≠ keyImageAwaitingUnlockHeight)
      (passed : info.requestedUnlockHeight < getBlockHeight block) :
      PassiveChange s { s with serviceNodesInfos := s.serviceNodesInfos.erase key }
  | reward {s : State} {key : PublicKey} {info : ServiceNodeInfo}
      (node : s.serviceNodesInfos.lookup key = some info) :
      PassiveChange s { s with
        serviceNodesInfos := s.serviceNodesInfos.insert key (rewarded info (getBlockHeight block)) }
  | register {s : State} {key : PublicKey} {info : ServiceNodeInfo} {tx : Transaction} {index : ℕ}
      (registration : isRegistrationTx env.crypto env.nettype block.majorVersion tx
        block.timestamp (getBlockHeight block) index {} = some (key, info))
      (free : s.serviceNodesInfos.lookup key = none) :
      PassiveChange s { s with serviceNodesInfos := s.serviceNodesInfos.insert key info }
  | stateChange {s s' : State} {key : PublicKey} {info : ServiceNodeInfo} {state : NewState}
      (node : s.serviceNodesInfos.lookup key = some info)
      (applies : applyStateChange env s block key info state = some s') :
      PassiveChange s s'
  | swarm {s : State} {key : PublicKey} {info : ServiceNodeInfo} (id : UInt64)
      (node : s.serviceNodesInfos.lookup key = some info) :
      PassiveChange s { s with
        serviceNodesInfos := s.serviceNodesInfos.insert key { info with swarmId := id } }
  | quorums (s : State) (quorums : QuorumManager) : PassiveChange s { s with quorums }

/-- The elementary changes a block makes to the list. -/
inductive Change : State → State → Prop
  | passive {s s' : State} (change : PassiveChange env block s s') : Change s s'
  | contribution {s : State} {key : PublicKey} {info : ServiceNodeInfo} {tx : Transaction}
      {parsed : ParsedTxContribution} {index : ℕ}
      (names : getServiceNodePubkeyFromTxExtra tx.extra = some key)
      (parses : getContribution env.crypto tx = some parsed)
      (node : s.serviceNodesInfos.lookup key = some info)
      (accepts : acceptsContribution info parsed = true) :
      Change s { s with
        serviceNodesInfos := s.serviceNodesInfos.insert key
          (contribute info parsed (getBlockHeight block) index) }
  | unlock {s s' : State} {tx : Transaction}
      (accepted : processKeyImageUnlockTx env s (getBlockHeight block) tx = some s') :
      Change s s'

/-- Any number of elementary changes by one block. -/
abbrev Changes : State → State → Prop := Relation.ReflTransGen (Change env block)

abbrev PassiveChanges : State → State → Prop := Relation.ReflTransGen (PassiveChange env block)

variable {env block}

/-- What an accepted unlock does: it dates the end of a node that had none. -/
theorem processKeyImageUnlockTx_eq_some {s s' : State}
    (h : processKeyImageUnlockTx env s blockHeight tx = some s') :
    ∃ key info, s.serviceNodesInfos.lookup key = some info ∧
      info.requestedUnlockHeight = keyImageAwaitingUnlockHeight ∧
      s' = { s with
        serviceNodesInfos := s.serviceNodesInfos.insert key
          { info with
            requestedUnlockHeight :=
              getLockedKeyImageUnlockHeight env.nettype info.registrationHeight
                blockHeight } } := by
  simp only [processKeyImageUnlockTx, Option.bind_eq_bind, Option.bind_eq_some_iff] at h
  obtain ⟨key, -, info, hinfo, unlock, -, h⟩ := h
  split_ifs at h with haccepts
  simp only [acceptsUnlock, Bool.and_eq_true, decide_eq_true_eq] at haccepts
  exact ⟨key, info, hinfo, haccepts.1, (Option.some.inj h).symm⟩

theorem PassiveChanges.changes {s s' : State} (h : PassiveChanges env block s s') :
    Changes env block s s' := h.lift id fun _ _ hc => .passive hc

variable (s : State) (tx : Transaction) {entry : Transaction × ℕ}

theorem processRegistrationTx_changes (index : ℕ) :
    PassiveChanges env block s ((processRegistrationTx env s block tx index).getD s) := by
  unfold processRegistrationTx
  split
  · exact .refl
  · rename_i key info hreg
    split_ifs with hfree
    · exact .refl
    · exact .single (.register hreg (by simpa using hfree))

theorem processContributionTx_changes (index : ℕ) :
    Changes env block s (processContributionTx env s block tx index).1 := by
  unfold processContributionTx
  split
  · rename_i pubkey parsed hkey hparsed
    split
    · exact .refl
    · rename_i info hinfo
      split_ifs with haccepts
      · exact .single (.contribution hkey hparsed hinfo haccepts)
      · exact .refl
  · exact .refl

theorem processStateChangeTx_change {history : StateSet} {altStates : AltStates} {s s' : State}
    (h : processStateChangeTx env history altStates s block tx = some s') :
    PassiveChange env block s s' := by
  simp only [processStateChangeTx, Option.bind_eq_bind, Option.bind_eq_some_iff] at h
  obtain ⟨stateChange, -, quorums, -, quorum, -, key, -, info, hinfo, happly⟩ := h
  exact .stateChange hinfo happly

theorem processTx_transfer (altStates : AltStates) (acc : State × Bool)
    (h : entry.1.isTransfer = true) :
    (processTx env history altStates block acc entry).1 =
      (processContributionTx env
        ((processRegistrationTx env acc.1 block entry.1 entry.2).getD acc.1)
        block entry.1 entry.2).1 := by
  simp [processTx, h]

theorem processTx_stateChange (altStates : AltStates) (acc : State × Bool)
    (h : entry.1.txType = .stateChange) :
    PassiveChanges env block acc.1 (processTx env history altStates block acc entry).1 := by
  unfold processTx
  grind [Transaction.isTransfer, processStateChangeTx_change]

theorem processTx_unlock (altStates : AltStates) (acc : State × Bool)
    (h : entry.1.txType = .keyImageUnlock) :
    (processTx env history altStates block acc entry).1 =
      (processKeyImageUnlockTx env acc.1 (getBlockHeight block) entry.1).getD acc.1 := by
  simp [processTx, Transaction.isTransfer, h]

theorem processKeyImageUnlockTx_changes :
    Changes env block s ((processKeyImageUnlockTx env s (getBlockHeight block) tx).getD s) := by
  cases h : processKeyImageUnlockTx env s (getBlockHeight block) tx with
  | none => exact .refl
  | some s' => exact .single (.unlock h)

theorem isTransfer_cases :
    tx.isTransfer = true ∨ tx.txType = .stateChange ∨ tx.txType = .keyImageUnlock := by
  unfold Transaction.isTransfer
  cases tx.txType <;> simp

theorem processTx_changes (altStates : AltStates) (acc : State × Bool) (entry : Transaction × ℕ) :
    Changes env block acc.1 (processTx env history altStates block acc entry).1 := by
  rcases isTransfer_cases entry.1 with h | h | h
  · rw [processTx_transfer history altStates acc h]
    exact (processRegistrationTx_changes _ _ _).changes.trans (processContributionTx_changes _ _ _)
  · exact (processTx_stateChange history altStates acc h).changes
  · rw [processTx_unlock history altStates acc h]
    exact processKeyImageUnlockTx_changes _ _

/-- The changes along a fold are those of its steps. -/
theorem foldl_changes {R : State → State → Prop} {α β : Type*} (f : β → α → β) (state : β → State)
    (step : ∀ b a, Relation.ReflTransGen R (state b) (state (f b a))) (l : List α) (b : β) :
    Relation.ReflTransGen R (state b) (state (l.foldl f b)) := by
  induction l generalizing b with
  | nil => exact .refl
  | cons a l ih => exact (step b a).trans (ih (f b a))

theorem lookup_of_mem_getExpiredNodes {s : State}
    (hk : key ∈ s.getExpiredNodes blockHeight)
    (hinfo : s.serviceNodesInfos.lookup key = some info) :
    info.requestedUnlockHeight ≠ keyImageAwaitingUnlockHeight ∧
      info.requestedUnlockHeight < blockHeight := by
  simp only [State.getExpiredNodes, mem_map, mem_filter, decide_eq_true_eq] at hk
  obtain ⟨⟨k, i⟩, ⟨hmem, hreq⟩, rfl⟩ := hk
  have hi : s.serviceNodesInfos.lookup k = some i := mem_lookup_iff.mpr hmem
  obtain rfl : i = info := Option.some.inj (hi.symm.trans hinfo)
  exact hreq

theorem expireNodes_changes (keys : List PublicKey) (acc : State × Bool)
    (expired : ∀ key ∈ keys, ∀ info, acc.1.serviceNodesInfos.lookup key = some info →
      info.requestedUnlockHeight ≠ keyImageAwaitingUnlockHeight ∧
        info.requestedUnlockHeight < getBlockHeight block) :
    PassiveChanges env block acc.1 (keys.foldl expireNode acc).1 := by
  induction keys generalizing acc with
  | nil => exact .refl
  | cons key keys ih =>
    rw [foldl_cons]
    cases hlookup : acc.1.serviceNodesInfos.lookup key with
    | none =>
      have hstep : expireNode acc key = acc := by simp [expireNode, hlookup]
      rw [hstep]
      exact ih acc fun k hk => expired k (mem_cons_of_mem _ hk)
    | some info =>
      have hstep : (expireNode acc key).1 =
          { acc.1 with serviceNodesInfos := acc.1.serviceNodesInfos.erase key } := by
        simp [expireNode, hlookup]
      obtain ⟨hreq, hpassed⟩ := expired key mem_cons_self info hlookup
      refine Relation.ReflTransGen.head (.expire hlookup hreq hpassed) ?_
      rw [← hstep]
      refine ih _ fun k hk i hi => ?_
      rw [hstep] at hi
      by_cases hkey : k = key
      · subst hkey
        simp at hi
      · exact expired k (mem_cons_of_mem _ hk) i (by rwa [lookup_erase_ne hkey] at hi)

theorem advanceWinner_changes : PassiveChanges env block s (advanceWinner s block) := by
  unfold advanceWinner
  simp only
  split
  · exact .refl
  · rename_i info hinfo
    exact .single (.reward hinfo)

/-- The list as the first transaction of a block finds it. -/
theorem processTxs_nil_changes (altStates : AltStates) (s : State) :
    PassiveChanges env block s (processTxs env history altStates s block []).1 := by
  have hstart : PassiveChanges env block s (startBlock s block) := .single (.start s)
  have hexpire := @expireNodes_changes env block
    ((startBlock s block).getExpiredNodes (getBlockHeight block)) (startBlock s block, false)
    fun key hk info hinfo => lookup_of_mem_getExpiredNodes hk hinfo
  exact (hstart.trans hexpire).trans (advanceWinner_changes _)

theorem processTxs_append (altStates : AltStates) (s : State) (txs : List Transaction)
    (tx : Transaction) :
    processTxs env history altStates s block (txs ++ [tx]) =
      processTx env history altStates block (processTxs env history altStates s block txs)
        (tx, txs.length) := by
  simp [processTxs, zipIdx_append]

theorem processTxs_take_succ (altStates : AltStates) (s : State) {i : ℕ} (h : txs[i]? = some tx) :
    processTxs env history altStates s block (txs.take (i + 1)) =
      processTx env history altStates block (processTxs env history altStates s block (txs.take i))
        (tx, i) := by
  grind [take_succ_eq_append_getElem, processTxs_append]

theorem processTxs_changes (altStates : AltStates) (s : State) (txs : List Transaction) :
    Changes env block s (processTxs env history altStates s block txs).1 := by
  induction txs using List.reverseRecOn with
  | nil => exact (processTxs_nil_changes history altStates s).changes
  | append_singleton txs tx ih =>
    rw [processTxs_append]
    exact ih.trans (processTx_changes history altStates _ _)

theorem updateSwarms_changes : PassiveChanges env block s (updateSwarms env s block) := by
  refine foldl_changes _ id (fun s entry => foldl_changes _ id (fun s key => ?_) _ _) _ _
  unfold setSwarmId
  simp only [id_eq]
  split
  · exact .refl
  · rename_i info hinfo
    split_ifs
    · exact .refl
    · exact .single (.swarm entry.1 hinfo)

/-- After the transactions only swarms and quorums are renewed. -/
theorem updateFromBlock_processTxs_changes (altStates : AltStates) (s : State)
    (txs : List Transaction) :
    PassiveChanges env block (processTxs env history altStates s block txs).1
      (updateFromBlock env history altStates s block txs) := by
  unfold updateFromBlock
  simp only
  split_ifs
  · exact (updateSwarms_changes _).tail (.quorums _ _)
  · exact .single (.quorums _ _)

/-- Everything a block does is a sequence of elementary changes. -/
theorem updateFromBlock_changes (altStates : AltStates) (s : State) (txs : List Transaction) :
    Changes env block s (updateFromBlock env history altStates s block txs) :=
  (processTxs_changes history altStates s txs).trans
    (updateFromBlock_processTxs_changes history altStates s txs).changes

end Changes

section Untouched

variable {env} {block : Block} {history : StateSet} {altStates : AltStates}

variable {s : State}

theorem processTxs_of_untouched (hexpired : s.getExpiredNodes (getBlockHeight block) = [])
    (htxs : ∀ acc, ∀ entry ∈ txs.zipIdx, processTx env history altStates block acc entry = acc) :
    processTxs env history altStates s block txs =
      (advanceWinner (startBlock s block) block, false) := by
  have hexpired' : (startBlock s block).getExpiredNodes (getBlockHeight block) = [] := hexpired
  unfold processTxs
  simp only [hexpired', foldl_nil]
  generalize (advanceWinner (startBlock s block) block, false) = acc
  generalize txs.zipIdx = entries at htxs
  induction entries <;> grind

theorem updateFromBlock_of_untouched (hexpired : s.getExpiredNodes (getBlockHeight block) = [])
    (htxs : ∀ acc, ∀ entry ∈ txs.zipIdx, processTx env history altStates block acc entry = acc) :
    updateFromBlock env history altStates s block txs =
      { advanceWinner (startBlock s block) block with
        quorums := generateQuorums env.rng block.majorVersion
          (advanceWinner (startBlock s block) block) } := by
  rw [updateFromBlock, processTxs_of_untouched hexpired htxs]
  rfl

theorem advanceWinner_of_none
    (h : s.serviceNodesInfos.lookup (getServiceNodeWinnerFromTxExtra block.minerTx.extra) = none) :
    advanceWinner s block = s := by
  simp only [advanceWinner, h]

theorem setSwarmId_lookup_none (h : s.serviceNodesInfos.lookup key = none) (id : UInt64)
    (other : PublicKey) :
    (setSwarmId id s other).serviceNodesInfos.lookup key = none := by
  unfold setSwarmId
  grind [lookup_insert_ne]

theorem updateSwarms_lookup_none (h : s.serviceNodesInfos.lookup key = none) :
    (updateSwarms env s block).serviceNodesInfos.lookup key = none := by
  refine List.foldlRecOn (motive := fun t : State => t.serviceNodesInfos.lookup key = none) _ _ h
    fun s hs entry _ => ?_
  exact List.foldlRecOn (motive := fun t : State => t.serviceNodesInfos.lookup key = none) _ _ hs
    fun t ht other _ => setSwarmId_lookup_none ht entry.1 other

/-- A block without transactions registers no node. -/
theorem updateFromBlock_lookup_none (h : s.serviceNodesInfos.lookup key = none) :
    (updateFromBlock env history altStates s block []).serviceNodesInfos.lookup key = none := by
  have hexpired : ∀ keys : List PublicKey, (keys.foldl expireNode (startBlock s block,
      false)).1.serviceNodesInfos.lookup key = none := by
    intro keys
    refine List.foldlRecOn (motive := fun acc : State × Bool =>
      acc.1.serviceNodesInfos.lookup key = none) keys expireNode h fun acc hacc other _ => ?_
    unfold expireNode
    split
    · exact hacc
    · by_cases hkey : key = other
      · rw [hkey]
        exact lookup_erase _ _
      · exact (lookup_erase_ne hkey).trans hacc
  have hadvanced : ∀ t : State, t.serviceNodesInfos.lookup key = none →
      (advanceWinner t block).serviceNodesInfos.lookup key = none := by
    intro t ht
    unfold advanceWinner
    simp only
    split
    · exact ht
    · rename_i info hinfo
      have hkey : key ≠ getServiceNodeWinnerFromTxExtra block.minerTx.extra := by
        rintro rfl
        rw [ht] at hinfo
        cases hinfo
      rwa [lookup_insert_ne hkey]
  have hprocessed : (processTxs env history altStates s block
      []).1.serviceNodesInfos.lookup key = none := hadvanced _ (hexpired _)
  unfold updateFromBlock
  simp only
  split_ifs
  · exact updateSwarms_lookup_none hprocessed
  · exact hprocessed

end Untouched

section Header

variable {block : Block} {history : StateSet} {altStates : AltStates}

/-- The parts of a state that only the start of a block sets. -/
def SameHeader (s s' : State) : Prop :=
  s'.height = s.height ∧ s'.blockHash = s.blockHash ∧ s'.onlyLoadedQuorums = s.onlyLoadedQuorums

variable (s : State) (txs : List Transaction)

theorem SameHeader.refl : SameHeader s s := ⟨rfl, rfl, rfl⟩

theorem SameHeader.trans {s₁ s₂ s₃ : State} (h₁ : SameHeader s₁ s₂) (h₂ : SameHeader s₂ s₃) :
    SameHeader s₁ s₃ :=
  ⟨h₂.1.trans h₁.1, h₂.2.1.trans h₁.2.1, h₂.2.2.trans h₁.2.2⟩

theorem foldl_header {α β : Type*} (f : β → α → β) (state : β → State)
    (step : ∀ b a, SameHeader (state b) (state (f b a))) (l : List α) (b : β) :
    SameHeader (state b) (state (l.foldl f b)) := by
  induction l generalizing b with
  | nil => exact SameHeader.refl _
  | cons a l ih => exact (step b a).trans (ih (f b a))

theorem applyStateChange_header {s s' : State} {state : NewState}
    (h : applyStateChange env s block key info state = some s') :
    SameHeader s s' := by
  cases state <;> simp only [applyStateChange] at h
  case deregister =>
    rw [← Option.some.inj h]
    exact ⟨rfl, rfl, rfl⟩
  all_goals
    split_ifs at h
    rw [← Option.some.inj h]
    exact ⟨rfl, rfl, rfl⟩

theorem processTx_header (acc : State × Bool) (entry : Transaction × ℕ) :
    SameHeader acc.1 (processTx env history altStates block acc entry).1 := by
  rcases isTransfer_cases entry.1 with h | h | h
  · rw [processTx_transfer history altStates acc h]
    have hregistration : SameHeader acc.1
        ((processRegistrationTx env acc.1 block entry.1 entry.2).getD acc.1) := by
      unfold processRegistrationTx
      split
      · exact SameHeader.refl _
      · split_ifs
        · exact SameHeader.refl _
        · exact ⟨rfl, rfl, rfl⟩
    grind [SameHeader, processContributionTx]
  · unfold processTx
    simp only [Transaction.isTransfer, h, reduceCtorEq, decide_false, Bool.or_false,
      Bool.false_eq_true, reduceIte]
    split
    · exact SameHeader.refl _
    · rename_i s' hs
      simp only [processStateChangeTx, Option.bind_eq_bind, Option.bind_eq_some_iff] at hs
      obtain ⟨stateChange, -, quorums, -, quorum, -, key, -, info, -, happly⟩ := hs
      exact applyStateChange_header env happly
  · rw [processTx_unlock history altStates acc h]
    cases hunlock : processKeyImageUnlockTx env acc.1 (getBlockHeight block) entry.1 with
    | none => exact SameHeader.refl _
    | some s' =>
      obtain ⟨key, info, -, -, rfl⟩ := processKeyImageUnlockTx_eq_some hunlock
      exact ⟨rfl, rfl, rfl⟩

theorem processTxs_header :
    SameHeader (startBlock s block) (processTxs env history altStates s block txs).1 := by
  have hexpire := foldl_header expireNode Prod.fst (fun acc key => by
    unfold expireNode
    split
    · exact SameHeader.refl _
    · exact ⟨rfl, rfl, rfl⟩) ((startBlock s block).getExpiredNodes (getBlockHeight block))
      (startBlock s block, false)
  have hadvance : ∀ t, SameHeader t (advanceWinner t block) := by
    intro t
    unfold advanceWinner
    simp only
    split
    · exact SameHeader.refl _
    · exact ⟨rfl, rfl, rfl⟩
  exact (hexpire.trans (hadvance _)).trans
    (foldl_header _ Prod.fst (fun acc entry => processTx_header env acc entry) _ (_, _))

theorem updateSwarms_header : SameHeader s (updateSwarms env s block) := by
  refine foldl_header _ id (fun s entry => foldl_header _ id (fun s key => ?_) _ _) _ _
  grind [SameHeader, setSwarmId]

theorem updateFromBlock_header :
    SameHeader (startBlock s block) (updateFromBlock env history altStates s block txs) := by
  grind [SameHeader, updateFromBlock, processTxs_header, updateSwarms_header]

@[simp] theorem updateFromBlock_height :
    (updateFromBlock env history altStates s block txs).height = s.height + 1 :=
  (updateFromBlock_header env s txs).1

end Header

end Arqma.ServiceNodes
