import Arqma.AltStates
import Arqma.KeyImageLocks
import Arqma.QuorumSelection
import Arqma.SwarmConservation
import Arqma.WinnerPayout

/-!
# Decommissions

The sign of `active_since_height` says whether a node is in service. A node without
its full stake has zero there, an active one the height it has been active since, and
a decommissioned one the same with a minus. The run of a chain is followed together
with the height of the last decommission that was applied to each node.
-/
namespace Arqma.ServiceNodes
open Arqma.Cryptonote ServiceNodeInfo AList

variable {info : ServiceNodeInfo} {last : Option ℕ} {state : NewState} {key : PublicKey}

namespace ServiceNodeInfo

def canBeVotedOn (info : ServiceNodeInfo) (height : ℕ) : Bool :=
  if !info.isFullyFunded || decide (height ≤ info.registrationHeight) then false
  else if !info.isDecommissioned && decide (height ≤ info.lastDecommissionHeight) then false
  else !(info.isActive && decide ((height : ℤ).bmod (2 ^ 64) ≤ info.activeSinceHeight))

def statusAllows (info : ServiceNodeInfo) (proposedState : NewState) : Bool :=
  if info.isDecommissioned then
    proposedState ≠ .decommission ∧ proposedState ≠ .ipChangePenalty
  else proposedState ≠ .recommission

def canTransitionToState (info : ServiceNodeInfo) (hardForkVersion height : ℕ)
    (proposedState : NewState) : Bool :=
  if 16 ≤ hardForkVersion then
    if !info.canBeVotedOn height then false
    else if proposedState = .deregister ∧ height ≤ info.registrationHeight then false
    else if proposedState = .ipChangePenalty ∧ height ≤ info.lastIpChangeHeight then false
    else info.statusAllows proposedState
  else if proposedState = .deregister ∧ height < info.registrationHeight then false
  else info.statusAllows proposedState

variable {info : ServiceNodeInfo} {hardForkVersion height : ℕ} {proposedState : NewState}

theorem statusAllows_of_canTransition
    (h : info.canTransitionToState hardForkVersion height proposedState = true) :
    info.statusAllows proposedState = true := by
  unfold canTransitionToState at h
  split_ifs at h
  · exact h
  · exact h

theorem isFullyFunded_of_canTransition (h16 : 16 ≤ hardForkVersion)
    (h : info.canTransitionToState hardForkVersion height proposedState = true) :
    info.isFullyFunded = true := by
  grind [canBeVotedOn, canTransitionToState]

end ServiceNodeInfo

/-- The last height at which a decommission was applied to a node. -/
abbrev DecommissionLog := PublicKey → Option ℕ

/-- The log after a state change that was applied to a node. -/
def DecommissionLog.add (log : DecommissionLog) (key : PublicKey) (state : NewState)
    (height : ℕ) : DecommissionLog :=
  if state = .decommission then Function.update log key (some height) else log

section Logged

variable (env : Env) (history : StateSet) (altStates : AltStates) (block : Block)

/-- The log after a transaction, which counts if it is applied. -/
def logTx (s : State) (tx : Transaction) (log : DecommissionLog) : DecommissionLog :=
  if tx.txType = .stateChange ∧ (processStateChangeTx env history altStates s block tx).isSome then
    match stateChangeNode env history altStates s block tx with
    | none => log
    | some (key, _, state) => log.add key state (getBlockHeight block)
  else log

def processTxLogged (acc : (State × Bool) × DecommissionLog) (entry : Transaction × ℕ) :
    (State × Bool) × DecommissionLog :=
  (processTx env history altStates block acc.1 entry,
    logTx env history altStates block acc.1.1 entry.1 acc.2)

/-- The transactions of a block with the decommissions they apply. -/
def processTxsLogged (s : State) (log : DecommissionLog) (txs : List Transaction) :
    (State × Bool) × DecommissionLog :=
  txs.zipIdx.foldl (processTxLogged env history altStates block)
    (processTxs env history altStates s block [], log)

theorem processTxsLogged_fst (s : State) (log : DecommissionLog) (txs : List Transaction) :
    (processTxsLogged env history altStates block s log txs).1 =
      processTxs env history altStates s block txs := by
  have hfold : ∀ (entries : List (Transaction × ℕ)) (acc : (State × Bool) × DecommissionLog),
      (entries.foldl (processTxLogged env history altStates block) acc).1 =
        entries.foldl (processTx env history altStates block) acc.1 := by
    intro entries
    induction entries with
    | nil => exact fun acc => rfl
    | cons entry rest ih => exact fun acc => ih _
  exact hfold txs.zipIdx _

end Logged

def applyBlockLogged (env : Env) (acc : State × DecommissionLog) (input : BlockInput) :
    State × DecommissionLog :=
  (applyBlock env acc.1 input,
    (processTxsLogged env input.history input.altStates input.block acc.1 acc.2 input.txs).2)

/-- A run of blocks from a state on, with the decommissions applied in it. -/
def applyBlocksLogged (env : Env) (s : State) (inputs : List BlockInput) :
    State × DecommissionLog :=
  inputs.foldl (applyBlockLogged env) (s, fun _ => none)

theorem applyBlocksLogged_fst (env : Env) (s : State) (inputs : List BlockInput) :
    (applyBlocksLogged env s inputs).1 = applyBlocks env s inputs := by
  have hfold : ∀ acc : State × DecommissionLog,
      (inputs.foldl (applyBlockLogged env) acc).1 = inputs.foldl (applyBlock env) acc.1 := by
    induction inputs with
    | nil => exact fun acc => rfl
    | cons input inputs ih => exact fun acc => ih _
  exact hfold _

/-- The status of a node, given the last decommission that was applied to it. -/
structure InService (last : Option ℕ) (info : ServiceNodeInfo) : Prop where
  unfunded : info.isFullyFunded = false → info.activeSinceHeight = 0
  active : info.isActive = true → 0 < info.activeSinceHeight
  decommissioned : info.isDecommissioned = true → info.activeSinceHeight < 0 ∧
    info.swarmId = unassignedSwarmId ∧ last = some info.lastDecommissionHeight

/-- What the status is read off. -/
structure SameStatus (a b : ServiceNodeInfo) : Prop where
  funded : b.isFullyFunded = a.isFullyFunded
  activeSinceHeight : b.activeSinceHeight = a.activeSinceHeight
  swarmId : b.swarmId = a.swarmId
  lastDecommissionHeight : b.lastDecommissionHeight = a.lastDecommissionHeight

theorem InService.of_sameStatus {a b : ServiceNodeInfo} (h : InService last a)
    (hsame : SameStatus a b) : InService last b := by
  have hactive : b.isActive = a.isActive := by
    rw [isActive, isActive, isDecommissioned, isDecommissioned, hsame.funded,
      hsame.activeSinceHeight]
  have hdecommissioned : b.isDecommissioned = a.isDecommissioned := by
    rw [isDecommissioned, isDecommissioned, hsame.activeSinceHeight]
  constructor
  · rw [hsame.funded, hsame.activeSinceHeight]
    exact h.unfunded
  · rw [hactive, hsame.activeSinceHeight]
    exact h.active
  · rw [hdecommissioned, hsame.activeSinceHeight, hsame.swarmId, hsame.lastDecommissionHeight]
    exact h.decommissioned

theorem InService.not_decommissioned (h : InService last info)
    (hunfunded : info.isFullyFunded = false) :
    info.isDecommissioned = false := by
  rw [isDecommissioned, h.unfunded hunfunded]
  rfl

/-- A node with its full stake that is in service has been active since some block. -/
theorem InService.since_pos (h : InService last info) (hfunded : info.isFullyFunded = true)
    (hin : info.isDecommissioned = false) :
    0 < info.activeSinceHeight := h.active (by rw [isActive, hfunded, hin]; rfl)

theorem isDecommissioned_decommissioned (h : 0 < info.activeSinceHeight) (height : ℕ) :
    (decommissioned info height).isDecommissioned = true :=
  decide_eq_true (neg_lt_zero.mpr h)

/-- Every node has the status that the applied decommissions say. -/
def Follows (log : DecommissionLog) (s : State) : Prop :=
  ∀ key info, s.serviceNodesInfos.lookup key = some info → InService (log key) info

namespace Follows

variable {env : Env} {block : Block} {log : DecommissionLog} {s : State} {key : PublicKey}
  {info : ServiceNodeInfo}

theorem insert (h : Follows log s) (hinfo : InService (log key) info) :
    Follows log { s with serviceNodesInfos := s.serviceNodesInfos.insert key info } := by
  grind [Follows, lookup_insert, lookup_insert_ne]

theorem erase (h : Follows log s) (key : PublicKey) (blacklist : List KeyImageBlacklistEntry) :
    Follows log { s with
      keyImageBlacklist := blacklist
      serviceNodesInfos := s.serviceNodesInfos.erase key } := by
  intro k i hi
  by_cases hk : k = key
  · subst hk
    simp at hi
  · exact h k i (by rwa [lookup_erase_ne hk] at hi)

theorem rewarded (h : Follows log s) (hinfo : s.serviceNodesInfos.lookup key = some info)
    (height : ℕ) : Follows log { s with
      serviceNodesInfos := s.serviceNodesInfos.insert key (rewarded info height) } :=
  h.insert ((h key info hinfo).of_sameStatus ⟨rfl, rfl, rfl, rfl⟩)

theorem expired (h : Follows log s) (flag : Bool) (keys : List PublicKey) :
    Follows log (keys.foldl expireNode (s, flag)).1 := by
  induction keys generalizing s flag <;> grind [expireNode, h.erase]

theorem winner (h : Follows log s) : Follows log (advanceWinner s block) := by
  unfold advanceWinner
  dsimp only
  split
  · exact h
  · rename_i info hinfo
    exact h.rewarded hinfo _

theorem started (h : Follows log s) (history : StateSet) (altStates : AltStates) :
    Follows log (processTxs env history altStates s block []).1 := by
  have hstart : Follows log (startBlock s block) := h
  exact (hstart.expired _ _).winner

/-- A new node has no stake yet. -/
theorem registered (h : Follows log s) (tx : Transaction) (index : ℕ) :
    Follows log ((processRegistrationTx env s block tx index).getD s) := by
  unfold processRegistrationTx
  split
  · exact h
  · rename_i key info hregistration
    split_ifs
    · exact h
    · refine h.insert ?_
      obtain ⟨fields, -, -, -, hreserve⟩ := isRegistrationTx_eq_some hregistration
      have hpos := getStakingRequirement_pos env.nettype (getBlockHeight block)
      rw [reserveContributors_eq hreserve]
      refine ⟨fun _ => rfl, fun hactive => ?_, fun hout => ?_⟩
      · grind [isActive, isFullyFunded]
      · simp [isDecommissioned] at hout

theorem activeSinceHeight_contribute (info : ServiceNodeInfo) (parsed : ParsedTxContribution)
    (height index : ℕ) : (contribute info parsed height index).activeSinceHeight =
      if (contribute info parsed height index).isFullyFunded then (height : ℤ)
      else info.activeSinceHeight := by
  simp only [isFullyFunded, decide_eq_true_eq]
  rfl

/-- A node that takes a contribution was not funded; its last contribution makes it
active. -/
theorem contributed (h : Follows log s) (hpos : 0 < getBlockHeight block) (tx : Transaction)
    (index : ℕ) : Follows log (processContributionTx env s block tx index).1 := by
  unfold processContributionTx
  split
  · rename_i pubkey parsed _ _
    split
    · exact h
    · rename_i info hinfo
      split_ifs with haccepts
      · simp only [acceptsContribution, Bool.and_eq_true, Bool.not_eq_true'] at haccepts
        have hzero := (h pubkey info hinfo).unfunded haccepts.1.1
        have hsince := activeSinceHeight_contribute info parsed (getBlockHeight block) index
        rw [hzero] at hsince
        refine h.insert ⟨fun hunfunded => ?_, fun hactive => ?_, fun hout => ?_⟩
        · rw [hsince, hunfunded]
          rfl
        · rw [isActive, Bool.and_eq_true] at hactive
          rw [hsince, if_pos hactive.1]
          exact_mod_cast hpos
        · rw [isDecommissioned, hsince, decide_eq_true_eq] at hout
          split_ifs at hout <;> omega
      · exact h
  · exact h

theorem unlocked (h : Follows log s) (height : ℕ) (tx : Transaction) :
    Follows log ((processKeyImageUnlockTx env s height tx).getD s) := by
  cases hunlock : processKeyImageUnlockTx env s height tx with
  | none => exact h
  | some s' =>
    obtain ⟨key, info, hinfo, -, rfl⟩ := processKeyImageUnlockTx_eq_some hunlock
    exact h.insert ((h key info hinfo).of_sameStatus ⟨rfl, rfl, rfl, rfl⟩)

theorem decommissioned (h : Follows log s) (hinfo : s.serviceNodesInfos.lookup key = some info)
    (hin : info.isDecommissioned = false) (height : ℕ) :
    Follows (Function.update log key (some height)) { s with
      serviceNodesInfos := s.serviceNodesInfos.insert key (decommissioned info height) } := by
  intro k i hi
  by_cases hk : k = key
  · subst hk
    simp only [lookup_insert, Option.some.injEq] at hi
    rw [← hi, Function.update_self]
    have hstatus := h k info hinfo
    -- Without its full stake a node has no height to negate; with it the height is positive.
    refine ⟨fun hunfunded => ?_, fun hactive => ?_, fun hout => ?_⟩
    · exact neg_eq_zero.mpr (hstatus.unfunded hunfunded)
    · rw [isActive, Bool.and_eq_true] at hactive
      have hout := isDecommissioned_decommissioned (hstatus.since_pos hactive.1 hin) height
      rw [hout] at hactive
      exact absurd hactive.2 (by decide)
    · exact ⟨of_decide_eq_true hout, rfl, rfl⟩
  · rw [Function.update_of_ne hk]
    exact h k i (by rwa [lookup_insert_ne hk] at hi)

theorem recommissioned (h : Follows log s) (hinfo : s.serviceNodesInfos.lookup key = some info)
    (hout : info.isDecommissioned = true) {height : ℕ} (hpos : 0 < height) :
    Follows log { s with
      serviceNodesInfos := s.serviceNodesInfos.insert key
        { ServiceNodes.rewarded info height with activeSinceHeight := (height : ℤ) } } := by
  have hfunded : info.isFullyFunded = true := by
    by_contra hunfunded
    rw [(h key info hinfo).not_decommissioned (Bool.eq_false_iff.mpr hunfunded)] at hout
    cases hout
  refine h.insert ⟨fun hunfunded => ?_, fun _ => ?_, fun hstill => ?_⟩
  · exact absurd (hfunded.symm.trans hunfunded) (by decide)
  · exact Int.natCast_pos.mpr hpos
  · have hneg : (height : ℤ) < 0 := of_decide_eq_true hstill
    omega

/-- A state change that is applied, with its entry in the log. -/
theorem stateChanged {s' : State} (h : Follows log s)
    (hinfo : s.serviceNodesInfos.lookup key = some info) (hpos : 0 < getBlockHeight block)
    (happly : applyStateChange env s block key info state = some s') :
    Follows (log.add key state (getBlockHeight block)) s' := by
  cases state with
  | deregister =>
    rw [← Option.some.inj happly]
    exact h.erase key _
  | decommission =>
    grind [DecommissionLog.add, applyStateChange, h.decommissioned]
  | recommission =>
    grind [DecommissionLog.add, applyStateChange, h.recommissioned]
  | ipChangePenalty =>
    simp only [applyStateChange, Option.ite_none_left_eq_some] at happly
    rw [← Option.some.inj happly.2]
    exact h.insert ((h key info hinfo).of_sameStatus ⟨rfl, rfl, rfl, rfl⟩)

end Follows

section Steps

variable {env : Env} {history : StateSet} {altStates : AltStates} {block : Block}

theorem lookup_of_stateChangeNode {s : State} {tx : Transaction}
    (h : stateChangeNode env history altStates s block tx = some (key, info, state)) :
    s.serviceNodesInfos.lookup key = some info := by
  simp only [stateChangeNode, Option.bind_eq_bind, Option.bind_eq_some_iff, Option.pure_def,
    Option.some.injEq, Prod.mk.injEq] at h
  obtain ⟨stateChange, -, quorums, -, quorum, -, key', -, info', hinfo, rfl, rfl, -⟩ := h
  exact hinfo

theorem processTxLogged_follows (hpos : 0 < getBlockHeight block)
    {acc : (State × Bool) × DecommissionLog} (h : Follows acc.2 acc.1.1) (entry : Transaction × ℕ) :
    Follows (processTxLogged env history altStates block acc entry).2
      (processTxLogged env history altStates block acc entry).1.1 := by
  obtain ⟨acc, log⟩ := acc
  obtain ⟨tx, index⟩ := entry
  have hother : tx.txType ≠ .stateChange →
      logTx env history altStates block acc.1 tx log = log := fun hne => by simp [logTx, hne]
  simp only [processTxLogged] at h ⊢
  rcases isTransfer_cases tx with htx | htx | htx
  · have hne : tx.txType ≠ .stateChange := by
      intro heq
      simp [Transaction.isTransfer, heq] at htx
    rw [hother hne, processTx_transfer history altStates acc htx]
    exact (h.registered tx index).contributed hpos tx index
  · have hnot : tx.isTransfer = false := by simp [Transaction.isTransfer, htx]
    cases hchange : processStateChangeTx env history altStates acc.1 block tx with
    | none =>
      simpa [logTx, processTx, htx, hnot, hchange] using h
    | some s' =>
      have hfound := processStateChangeTx_eq_bind env history altStates acc.1 block tx
      rw [hchange] at hfound
      obtain ⟨⟨key, info, state⟩, hnode, happly⟩ := Option.bind_eq_some_iff.mp hfound.symm
      have hresult := h.stateChanged (lookup_of_stateChangeNode hnode) hpos happly
      simpa [logTx, processTx, htx, hnot, hchange, hnode] using hresult
  · rw [hother (by simp [htx]), processTx_unlock history altStates acc htx]
    exact h.unlocked _ _

theorem processTxsLogged_follows (hpos : 0 < getBlockHeight block) {s : State}
    {log : DecommissionLog} (h : Follows log s) (txs : List Transaction) :
    Follows (processTxsLogged env history altStates block s log txs).2
      (processTxsLogged env history altStates block s log txs).1.1 :=
  List.foldlRecOn
    (motive := fun acc : (State × Bool) × DecommissionLog => Follows acc.2 acc.1.1) txs.zipIdx _
    (@Follows.started env block log s h history altStates)
    fun _ hacc entry _ => processTxLogged_follows hpos hacc entry

end Steps

section Swarms

variable {env : Env} {block : Block} {log : DecommissionLog} {s : State}

theorem nodes_pushBack_perm (swarms : SwarmMap) (id : UInt64) (key : PublicKey) :
    (swarms.pushBack id key).nodes.Perm (key :: swarms.nodes) := by
  unfold SwarmMap.pushBack
  cases hfind : swarms.find? id.toNat with
  | none =>
    have hfree : swarms.erase id = swarms :=
      OrderedTable.remove_of_free (OrderedTable.find?_eq_none.mp hfind)
    have hperm := SwarmMap.nodes_set_perm swarms id [key]
    rw [hfree] at hperm
    exact hperm
  | some entry =>
    obtain ⟨id', snodes⟩ := entry
    obtain ⟨hmem, hid⟩ := OrderedTable.find?_eq_some.mp hfind
    obtain rfl : id' = id := UInt64.toNat_inj.mp hid
    calc (swarms.set id' (snodes ++ [key])).nodes
        |>.Perm ((snodes ++ [key]) ++ (swarms.erase id').nodes) := SwarmMap.nodes_set_perm _ _ _
      _ |>.Perm (key :: (snodes ++ (swarms.erase id').nodes)) := by
          rw [List.append_assoc]
          exact List.perm_middle
      _ |>.Perm (key :: swarms.nodes) := (SwarmMap.nodes_perm hmem).symm.cons key

/-- The swarms a reassignment starts from are those of the active nodes. -/
def existingSwarms (s : State) : SwarmMap :=
  s.activeServiceNodesInfos.foldl
    (fun swarms e => SwarmMap.pushBack swarms e.2.swarmId e.1) OrderedTable.empty

theorem nodes_existingSwarms (s : State) : (existingSwarms s).nodes.Perm (activeKeys s) := by
  have hfold : ∀ (nodes : List (Σ _ : PublicKey, ServiceNodeInfo)) (swarms : SwarmMap),
      (nodes.foldl (fun swarms e => SwarmMap.pushBack swarms e.2.swarmId e.1) swarms).nodes.Perm
        (nodes.map Sigma.fst ++ swarms.nodes) := by
    intro nodes
    induction nodes with
    | nil => exact fun swarms => .refl _
    | cons e nodes ih =>
      intro swarms
      refine (ih _).trans (((nodes_pushBack_perm swarms e.2.swarmId e.1).append_left _).trans ?_)
      exact List.perm_middle
  grind [existingSwarms, activeKeys, SwarmMap.nodes, OrderedTable.empty]

/-- The reassignment of the source. A throw leaves every node where it was. -/
def reassigned (order : SizeSort) (stream : UInt64 → ℕ → UInt64) (fuel : ℕ) (swarms : SwarmMap)
    (seed : UInt64) : SwarmMap :=
  match calcSwarmChanges order (stream seed) fuel swarms with
  | .ok s => s.swarms
  | .error _ => swarms

/-- A reassignment puts no node into a swarm that was in none. -/
def Env.OnlyReassigns (env : Env) : Prop :=
  ∀ swarms seed, swarms.nodes.Nodup →
    ∀ key ∈ SwarmMap.nodes (env.calcSwarmChanges swarms seed), key ∈ swarms.nodes

theorem reassigned_only (env : Env) (order : SizeSort) (stream : UInt64 → ℕ → UInt64) (fuel : ℕ) :
    { env with calcSwarmChanges := reassigned order stream fuel }.OnlyReassigns := by
  intro swarms seed hdistinct key hkey
  simp only [reassigned] at hkey
  split at hkey
  · rename_i s hs
    exact calcSwarmChanges_subset hdistinct hs hkey
  · exact hkey

/-- The status of every node, and that a list of nodes is in service. -/
structure AllInService (log : DecommissionLog) (keys : List PublicKey) (s : State) : Prop where
  follows : Follows log s
  inService : ∀ key ∈ keys, ∀ info, s.serviceNodesInfos.lookup key = some info →
    info.isDecommissioned = false

theorem AllInService.setSwarmId {keys : List PublicKey}
    (h : AllInService log keys s) (hkey : key ∈ keys) (id : UInt64) :
    AllInService log keys (setSwarmId id s key) := by
  unfold ServiceNodes.setSwarmId
  split
  · exact h
  · rename_i info hinfo
    have hin := h.inService key hkey info hinfo
    have hstatus := h.follows key info hinfo
    split_ifs
    · exact h
    · refine ⟨h.follows.insert ?_, fun k hk i hi => ?_⟩
      · exact ⟨hstatus.unfunded, hstatus.active,
          fun hout => absurd (hin.symm.trans hout) (by decide)⟩
      · grind [isDecommissioned, lookup_insert, lookup_insert_ne, h.inService]

/-- Only active nodes change their swarm. -/
theorem Follows.swarmsUpdated (h : Follows log s) (hswarms : env.OnlyReassigns) :
    Follows log (updateSwarms env s block) := by
  have hperm := nodes_existingSwarms s
  have hdistinct := hperm.nodup_iff.mpr (nodup_activeKeys s)
  have hstart : AllInService log (activeKeys s) s := by
    refine ⟨h, fun key hkey info hinfo => ?_⟩
    obtain ⟨info', hinfo', hactive⟩ := (mem_activeKeys s key).mp hkey
    grind [isActive]
  have hkeys := hswarms (existingSwarms s) (hashSeed block.hash) hdistinct
  refine (List.foldlRecOn (motive := AllInService log (activeKeys s)) _ _ hstart
    fun t ht entry hentry => ?_).follows
  refine List.foldlRecOn (motive := AllInService log (activeKeys s)) _ _ ht fun t ht key hkey => ?_
  refine ht.setSwarmId (hperm.mem_iff.mp (hkeys key ?_)) entry.1
  exact List.mem_flatMap.mpr ⟨entry, hentry, hkey⟩

end Swarms

section Runs

variable {env : Env} {log : DecommissionLog} {s : State}

theorem applyBlockLogged_follows (hswarms : env.OnlyReassigns) {acc : State × DecommissionLog}
    (h : Follows acc.2 acc.1) {input : BlockInput} (hpos : 0 < getBlockHeight input.block) :
    Follows (applyBlockLogged env acc input).2 (applyBlockLogged env acc input).1 := by
  have htxs := @processTxsLogged_follows env input.history input.altStates input.block hpos _ _ h
    input.txs
  rw [processTxsLogged_fst] at htxs
  simp only [applyBlockLogged, applyBlock, updateFromBlock]
  split_ifs
  · exact htxs.swarmsUpdated hswarms
  · exact htxs

theorem applyBlocksLogged_follows (hswarms : env.OnlyReassigns) {inputs : List BlockInput}
    (hpos : ∀ input ∈ inputs, 0 < getBlockHeight input.block) (hnone : s.serviceNodesInfos = ∅) :
    Follows (applyBlocksLogged env s inputs).2 (applyBlocksLogged env s inputs).1 := by
  refine List.foldlRecOn (motive := fun acc : State × DecommissionLog => Follows acc.2 acc.1)
    inputs _ (fun key info hinfo => ?_) fun acc hacc input hinput =>
      applyBlockLogged_follows hswarms hacc (hpos input hinput)
  simp [hnone] at hinfo

end Runs

def HasOutcome (info : ServiceNodeInfo) (after : Option ServiceNodeInfo) : NewState → Prop
  | .deregister => after = none
  | .decommission | .recommission =>
    ∃ info', after = some info' ∧ info'.isDecommissioned = !info.isDecommissioned
  | .ipChangePenalty => ∃ info', after = some info' ∧ info'.isDecommissioned = info.isDecommissioned

theorem InService.applies (h : InService last info)
    (hfunded : info.isFullyFunded = true) (hallows : info.statusAllows state = true) (env : Env)
    (s : State) (block : Block) (key : PublicKey) :
    ∃ s', applyStateChange env s block key info state = some s' ∧
      HasOutcome info (s'.serviceNodesInfos.lookup key) state := by
  cases hout : info.isDecommissioned <;>
    simp only [statusAllows, hout, reduceIte, Bool.false_eq_true, decide_eq_true_eq] at hallows
  all_goals cases state <;> simp only [ne_eq, not_true_eq_false, and_false, false_and] at hallows
  -- in service: everything but a recommission
  case false.deregister | true.deregister => exact ⟨_, rfl, lookup_erase _ _⟩
  case false.decommission =>
    refine ⟨_, by rw [applyStateChange, hout]; rfl, _, lookup_insert _, ?_⟩
    rw [hout]
    exact isDecommissioned_decommissioned (h.since_pos hfunded hout) _
  case false.ipChangePenalty =>
    refine ⟨_, by rw [applyStateChange, hout]; rfl, _, lookup_insert _, ?_⟩
    rfl
  case true.recommission =>
    refine ⟨_, by rw [applyStateChange, hout]; rfl, _, lookup_insert _, ?_⟩
    rw [hout]
    exact decide_eq_false (Int.not_lt.mpr (Int.natCast_nonneg _))

/-- Along every run of blocks, and between the transactions of a block, the sign of
`active_since_height` tells the status of every node, and a decommissioned node is in
no swarm and dates its last decommission. A state change of a kind that the fork has and
that `can_transition_to_state` allows for the node as it is gets applied. -/
theorem decommission_state_machine (env : Env) (order : SizeSort) (stream : UInt64 → ℕ → UInt64)
    (fuel : ℕ) (genesis : State) (inputs : List BlockInput) (next : BlockInput) (n : ℕ)
    (hgenesis : genesis.serviceNodesInfos = ∅)
    (hheights : ∀ input ∈ inputs ++ [next], 0 < getBlockHeight input.block) :
    let source := { env with calcSwarmChanges := reassigned order stream fuel }
    let run := applyBlocksLogged source genesis inputs
    let mid := processTxsLogged source next.history next.altStates next.block run.1 run.2
      (next.txs.take n)
    run.1 = applyBlocks source genesis inputs ∧
      mid.1 = processTxs source next.history next.altStates run.1 next.block (next.txs.take n) ∧
      Follows run.2 run.1 ∧ Follows mid.2 mid.1.1 ∧
      ∀ tx key info state voteHeight, tx.txType = .stateChange →
        typeAllowedForHf next.block.majorVersion tx.txType = true →
        stateChangeNode source next.history next.altStates mid.1.1 next.block tx =
          some (key, info, state) →
        info.canTransitionToState next.block.majorVersion voteHeight state = true →
        ∃ s', processStateChangeTx source next.history next.altStates mid.1.1 next.block tx =
            some s' ∧
          HasOutcome info (s'.serviceNodesInfos.lookup key) state := by
  intro source run mid
  have hswarms := reassigned_only env order stream fuel
  have hrun : Follows run.2 run.1 := applyBlocksLogged_follows hswarms
    (fun input hinput => hheights input (List.mem_append_left _ hinput)) hgenesis
  have hmid : Follows mid.2 mid.1.1 :=
    processTxsLogged_follows (hheights next (by simp)) hrun (next.txs.take n)
  refine ⟨applyBlocksLogged_fst _ _ _, processTxsLogged_fst _ _ _ _ _ _ _, hrun, hmid, ?_⟩
  intro tx key info state voteHeight htx htype hnode hallowed
  have h16 : 16 ≤ next.block.majorVersion := by
    simpa [typeAllowedForHf, htx] using htype
  have hfunded := ServiceNodeInfo.isFullyFunded_of_canTransition h16 hallowed
  obtain ⟨s', happly, houtcome⟩ := (hmid key info (lookup_of_stateChangeNode hnode)).applies hfunded
    (ServiceNodeInfo.statusAllows_of_canTransition hallowed) source mid.1.1 next.block key
  refine ⟨s', ?_, houtcome⟩
  rw [processStateChangeTx_eq_bind, hnode]
  exact happly

/-- Four votes to take the first worker of a quorum out of service. -/
def decommissionTx (height : ℕ) : Transaction where
  txType := .stateChange
  extra := [.serviceNodeStateChange ⟨.decommission, height, 0, (List.range 4).map fun i => ⟨0, i⟩⟩]

/-- A block after `registrationBlock` that takes node 10 out of service. -/
def decommissionBlock : BlockInput where
  history := OrderedTable.empty.insert (testingState 161 [10])
  altStates := []
  block := sampleBlock 16 162
  txs := [decommissionTx 161]

def sampleSource : Env :=
  { sampleEnv with calcSwarmChanges := reassigned .byInsertion (fun _ _ => 0) 20 }

/-- The list as the decommission finds it. -/
def beforeDecommission : State :=
  (processTxsLogged sampleSource decommissionBlock.history [] decommissionBlock.block
    (applyBlocksLogged sampleSource { height := 159 } [registrationBlock]).1
    (applyBlocksLogged sampleSource { height := 159 } [registrationBlock]).2 []).1.1

theorem registered_node_decommissioned :
    ∃ s' info', processStateChangeTx sampleSource decommissionBlock.history [] beforeDecommission
        decommissionBlock.block (decommissionTx 161) = some s' ∧
      s'.serviceNodesInfos.lookup 10 = some info' ∧ info'.isDecommissioned = true := by
  obtain ⟨-, -, -, -, happlies⟩ := decommission_state_machine sampleEnv .byInsertion
    (fun _ _ => 0) 20 { height := 159 } [registrationBlock] decommissionBlock 0 rfl (by decide)
  obtain ⟨s', happly, info', hinfo', hflips⟩ := happlies (decommissionTx 161) 10
    ((beforeDecommission.serviceNodesInfos.lookup 10).getD {}) .decommission 161 rfl (by decide)
    (by decide +kernel) (by decide +kernel)
  refine ⟨s', info', happly, hinfo', hflips.trans ?_⟩
  decide +kernel

end Arqma.ServiceNodes
