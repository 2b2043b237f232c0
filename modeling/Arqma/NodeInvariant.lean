import Arqma.UpdateFromBlock

/-!
# Invariants of single nodes along runs

A property of node records that registrations establish, contributions keep and
changes of status do not touch holds for every node of every state of a run,
also between the transactions of a block.
-/
namespace Arqma.ServiceNodes
open Arqma.Cryptonote

variable {P : ServiceNodeInfo → Prop} {s s' : State} {info : ServiceNodeInfo} {key : PublicKey}

/-- A block with its transactions and the states its state changes may refer to. -/
structure BlockInput where
  history : StateSet
  altStates : AltStates
  block : Block
  txs : List Transaction

def applyBlock (env : Env) (s : State) (input : BlockInput) : State :=
  updateFromBlock env input.history input.altStates s input.block input.txs

def applyBlocks (env : Env) (s : State) (inputs : List BlockInput) : State :=
  inputs.foldl (applyBlock env) s

@[simp] theorem applyBlocks_nil (env : Env) (s : State) : applyBlocks env s [] = s := rfl

@[simp] theorem applyBlocks_cons (env : Env) (s : State) (input : BlockInput)
    (inputs : List BlockInput) :
    applyBlocks env s (input :: inputs) = applyBlocks env (applyBlock env s input) inputs := rfl

theorem applyBlocks_append (env : Env) (s : State) (inputs inputs' : List BlockInput) :
    applyBlocks env s (inputs ++ inputs') = applyBlocks env (applyBlocks env s inputs) inputs' :=
  List.foldl_append

theorem applyBlocks_append_singleton (env : Env) (s : State) (inputs : List BlockInput)
    (input : BlockInput) :
    applyBlocks env s (inputs ++ [input]) = applyBlock env (applyBlocks env s inputs) input := by
  rw [applyBlocks_append]
  rfl

theorem applyBlock_changes (env : Env) (s : State) (input : BlockInput) :
    Changes env input.block s (applyBlock env s input) :=
  updateFromBlock_changes input.history input.altStates s input.txs

/-- Every registered node satisfies `P`. -/
def AllNodes (P : ServiceNodeInfo → Prop) (s : State) : Prop :=
  ∀ key info, s.serviceNodesInfos.lookup key = some info → P info

theorem allNodes_of_empty {s : State} (h : s.serviceNodesInfos = ∅) : AllNodes P s := by
  intro key info hinfo
  simp [h] at hinfo

theorem AllNodes.insert {s : State} (h : AllNodes P s)
    (hinfo : P info) :
    AllNodes P { s with serviceNodesInfos := s.serviceNodesInfos.insert key info } := by
  grind [AllNodes, AList.lookup_insert, AList.lookup_insert_ne]

theorem AllNodes.erase {s : State} (h : AllNodes P s) (key : PublicKey)
    (blacklist : List KeyImageBlacklistEntry) :
    AllNodes P { s with
      keyImageBlacklist := blacklist
      serviceNodesInfos := s.serviceNodesInfos.erase key } := by
  intro k i hi
  by_cases hk : k = key
  · subst hk
    simp at hi
  · exact h k i (by rwa [AList.lookup_erase_ne hk] at hi)

/-- The stake of a node: who holds how much of it, what it requires and what its
operator takes. -/
structure SameStake (a b : ServiceNodeInfo) : Prop where
  contributors : b.contributors = a.contributors
  operatorAddress : b.operatorAddress = a.operatorAddress
  portionsForOperator : b.portionsForOperator = a.portionsForOperator
  totalContributed : b.totalContributed = a.totalContributed
  totalReserved : b.totalReserved = a.totalReserved
  stakingRequirement : b.stakingRequirement = a.stakingRequirement

/-- A property of node records that depends on their stake only and holds of
every new record. -/
structure StakeProperty (env : Env) (P : ServiceNodeInfo → Prop) : Prop where
  register : ∀ {hardForkVersion : ℕ} {tx : Transaction} {timestamp : UInt64} {height index : ℕ}
    {key : PublicKey} {info : ServiceNodeInfo},
    isRegistrationTx env.crypto env.nettype hardForkVersion tx timestamp height index {} =
      some (key, info) → P info
  status : ∀ {a b : ServiceNodeInfo}, P a → SameStake a b → P b

namespace StakeProperty

variable {env : Env} {P : ServiceNodeInfo → Prop} {block : Block}

theorem applyStateChange (hP : StakeProperty env P)
    {state : NewState} (h : AllNodes P s) (hinfo : P info)
    (happly : applyStateChange env s block key info state = some s') : AllNodes P s' := by
  cases state <;> simp only [ServiceNodes.applyStateChange] at happly
  case deregister =>
    rw [← Option.some.inj happly]
    exact h.erase key _
  all_goals
    split_ifs at happly
    rw [← Option.some.inj happly]
    exact h.insert (hP.status hinfo ⟨rfl, rfl, rfl, rfl, rfl, rfl⟩)

theorem passiveChange (hP : StakeProperty env P) (hc : PassiveChange env block s s')
    (h : AllNodes P s) : AllNodes P s' := by
  cases hc with
  | start => exact h
  | expire node => exact h.erase _ s.keyImageBlacklist
  | reward node => exact h.insert (hP.status (h _ _ node) ⟨rfl, rfl, rfl, rfl, rfl, rfl⟩)
  | register registration => exact h.insert (hP.register registration)
  | stateChange node applies => exact hP.applyStateChange h (h _ _ node) applies
  | swarm id node => exact h.insert (hP.status (h _ _ node) ⟨rfl, rfl, rfl, rfl, rfl, rfl⟩)
  | quorums => exact h

theorem passiveChanges (hP : StakeProperty env P) (hc : PassiveChanges env block s s')
    (h : AllNodes P s) : AllNodes P s' := by
  induction hc with
  | refl => exact h
  | tail _ hstep ih => exact hP.passiveChange hstep ih

theorem unlock (hP : StakeProperty env P) {height : ℕ} {tx : Transaction}
    (haccepted : processKeyImageUnlockTx env s height tx = some s') (h : AllNodes P s) :
    AllNodes P s' := by
  obtain ⟨key, info, node, -, rfl⟩ := processKeyImageUnlockTx_eq_some haccepted
  exact h.insert (hP.status (h _ _ node) ⟨rfl, rfl, rfl, rfl, rfl, rfl⟩)

/-- Transactions other than transfers do not touch stakes. -/
theorem processTx (hP : StakeProperty env P) (history : StateSet) (altStates : AltStates)
    (acc : State × Bool) {entry : Transaction × ℕ} (hother : entry.1.isTransfer = false)
    (h : AllNodes P acc.1) :
    AllNodes P (processTx env history altStates block acc entry).1 := by
  rcases isTransfer_cases entry.1 with htransfer | hchange | hunlock
  · rw [htransfer] at hother
    cases hother
  · exact hP.passiveChanges (processTx_stateChange history altStates acc hchange) h
  · rw [processTx_unlock history altStates acc hunlock]
    cases haccepted : processKeyImageUnlockTx env acc.1 (getBlockHeight block) entry.1 with
    | none => exact h
    | some s' => exact hP.unlock haccepted h

end StakeProperty

structure NodeInvariant (env : Env) (P : ServiceNodeInfo → Prop) : Prop
    extends StakeProperty env P where
  contribution : ∀ {info : ServiceNodeInfo} {parsed : ParsedTxContribution} (height index : ℕ),
    P info → acceptsContribution info parsed = true → P (contribute info parsed height index)

namespace NodeInvariant

variable {env : Env} {P : ServiceNodeInfo → Prop} {block : Block}

theorem changes (hP : NodeInvariant env P) (hc : Changes env block s s') (h : AllNodes P s) :
    AllNodes P s' := by
  induction hc with
  | refl => exact h
  | tail _ hstep ih =>
    cases hstep with
    | passive change => exact hP.passiveChange change ih
    | contribution names parses node accepts =>
      exact ih.insert (hP.contribution _ _ (ih _ _ node) accepts)
    | unlock accepted => exact hP.unlock accepted ih

/-- The invariant holds for every node after any run from a list where it holds. -/
theorem applyBlocks (hP : NodeInvariant env P) {s : State} (h : AllNodes P s)
    (inputs : List BlockInput) : AllNodes P (applyBlocks env s inputs) := by
  induction inputs generalizing s with
  | nil => exact h
  | cons input inputs ih =>
    exact ih (hP.changes (applyBlock_changes env s input) h)

end NodeInvariant
end Arqma.ServiceNodes
