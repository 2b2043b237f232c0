import Arqma.LeastFirst
import Arqma.NodeInvariant

/-!
# Reward rotation

`getBlockWinner` is a scan for the least waiting value among the active nodes, so
the order in which the nodes are visited does not matter. A block that names the
winner sends it behind everyone else; over as many blocks as there are active
nodes each of them wins once.
-/
namespace Arqma.ServiceNodes
open Arqma.Cryptonote Arqma.LeastFirst List WaitingSince

variable {height : ℕ} {info : ServiceNodeInfo} {s : State} {input : BlockInput}

section Winner

theorem WaitingSince.lt_of_height {v w : WaitingSince}
    (h : v.lastRewardBlockHeight < w.lastRewardBlockHeight) : v < w := by
  change v.toLexTriple < w.toLexTriple
  exact Prod.Lex.toLex_lt_toLex.mpr (Or.inl h)

/-- The waiting values of the active nodes. -/
def activeWaiting (entries : List (Σ _ : PublicKey, ServiceNodeInfo)) : List WaitingSince :=
  (entries.filter fun e => e.2.isActive).map waitingSince

/-- The active nodes in the order in which they are to be rewarded. -/
def State.rewardQueue (s : State) : List WaitingSince :=
  queue (activeWaiting s.serviceNodesInfos.entries)

theorem oldestWaiting_fst (entries : List (Σ _ : PublicKey, ServiceNodeInfo))
    (oldest : WaitingSince × Option ServiceNodeInfo) :
    (entries.foldl oldestWaitingStep oldest).1 = (activeWaiting entries).foldl min oldest.1 := by
  induction entries generalizing oldest with
  | nil => rfl
  | cons e entries ih =>
    rw [foldl_cons, ih]
    unfold oldestWaitingStep activeWaiting
    by_cases hactive : e.2.isActive = true
    · by_cases hless : waitingSince e < oldest.1 <;> grind
    · simp [hactive]

theorem oldestWaiting_none (entries : List (Σ _ : PublicKey, ServiceNodeInfo))
    {oldest : WaitingSince × Option ServiceNodeInfo}
    (h : (entries.foldl oldestWaitingStep oldest).2 = none) :
    entries.foldl oldestWaitingStep oldest = oldest := by
  induction entries generalizing oldest with
  | nil => rfl
  | cons e entries ih =>
    rw [foldl_cons] at h ⊢
    rw [ih h]
    have hstep := congrArg Prod.snd (ih h)
    rw [h] at hstep
    unfold oldestWaitingStep at hstep ⊢
    split_ifs at hstep ⊢
    · rfl
    · rfl

theorem getBlockWinner_key (s : State) : s.getBlockWinner.key =
      ((activeWaiting s.serviceNodesInfos.entries).foldl min never).key := by
  rw [← oldestWaiting_fst _ (never, none)]
  unfold State.getBlockWinner
  simp only
  split
  · rename_i hnone
    rw [oldestWaiting_none _ hnone]
    rfl
  · split_ifs with hnull
    · exact hnull.symm
    · rfl

/-- Visiting two nodes in either order leaves the scan at the same point. -/
theorem oldestWaitingStep_comm {x y : Σ _ : PublicKey, ServiceNodeInfo}
    (hxy : waitingSince x = waitingSince y → x = y)
    (oldest : WaitingSince × Option ServiceNodeInfo) :
    oldestWaitingStep (oldestWaitingStep oldest x) y =
      oldestWaitingStep (oldestWaitingStep oldest y) x := by
  grind [oldestWaitingStep]

/-- The winner does not depend on the order in which the nodes are visited. -/
theorem getBlockWinner_perm {s t : State}
    (h : t.serviceNodesInfos.entries.Perm s.serviceNodesInfos.entries) :
    t.getBlockWinner = s.getBlockWinner := by
  have hscan : t.serviceNodesInfos.entries.foldl oldestWaitingStep (.never, none) =
      s.serviceNodesInfos.entries.foldl oldestWaitingStep (.never, none) := by
    refine h.foldl_eq' ?_ _
    intro x hx y hy oldest
    refine oldestWaitingStep_comm (fun heq => ?_) oldest
    have hkey : x.1 = y.1 := congrArg key heq
    exact t.serviceNodesInfos.nodupKeys.eq_of_fst_eq hx hy hkey
  unfold State.getBlockWinner
  rw [hscan]

end Winner

section Rotation

variable {env : Env}

/-- Transactions that can change the list: state changes, unlocks and transfers that
name a node. -/
def isServiceNodeTx (tx : Transaction) : Bool :=
  !tx.isTransfer || (getServiceNodePubkeyFromTxExtra tx.extra).isSome

theorem processTx_other (history : StateSet) (altStates : AltStates) (block : Block)
    (acc : State × Bool) {entry : Transaction × ℕ} (h : isServiceNodeTx entry.1 = false) :
    processTx env history altStates block acc entry = acc := by
  simp only [isServiceNodeTx, Bool.or_eq_false_iff, Bool.not_eq_false', Option.isSome_eq_false_iff,
    Option.isNone_iff_eq_none] at h
  obtain ⟨htransfer, hkey⟩ := h
  have hregistration : processRegistrationTx env acc.1 block entry.1 entry.2 = none := by
    unfold processRegistrationTx
    split
    · rfl
    · rename_i key info hsome
      obtain ⟨fields, hfields, -⟩ := isRegistrationTx_eq_some hsome
      simp [regTxExtractFields, hkey] at hfields
  simp only [processTx, htransfer, if_true, hregistration, Option.getD_none,
    processContributionTx, hkey, Bool.or_false]

structure RewardsWinner (s : State) (height : ℕ) (input : BlockInput) : Prop where
  height_eq : getBlockHeight input.block = height
  -- heights are 64-bit numbers
  height_le : height ≤ uint64Max
  names : getServiceNodeWinnerFromTxExtra input.block.minerTx.extra = s.getBlockWinner.key
  other : ∀ tx ∈ input.txs, isServiceNodeTx tx = false
  expires : s.getExpiredNodes height = []

/-- Consecutive blocks, the first at a height, each of which rewards the winner of
the list before it. -/
def RewardRun (env : Env) : State → ℕ → List BlockInput → Prop
  | _, _, [] => True
  | s, height, input :: inputs =>
    RewardsWinner s height input ∧ RewardRun env (applyBlock env s input) (height + 1) inputs

def winners (env : Env) : State → List BlockInput → List PublicKey
  | _, [] => []
  | s, input :: inputs => s.getBlockWinner.key :: winners env (applyBlock env s input) inputs

/-- All such a block does to the nodes is to send the winner to the end. -/
theorem RewardsWinner.infos
    (h : RewardsWinner s height input) {key : PublicKey} (hkey : s.getBlockWinner.key = key)
    (hinfo : s.serviceNodesInfos.lookup key = some info) :
    (applyBlock env s input).serviceNodesInfos =
      s.serviceNodesInfos.insert key (rewarded info height) := by
  have hadvance : (advanceWinner (startBlock s input.block) input.block).serviceNodesInfos =
      s.serviceNodesInfos.insert key (rewarded info height) := by
    unfold advanceWinner startBlock
    simp only
    rw [h.names, hkey, hinfo, h.height_eq]
  grind [applyBlock, updateFromBlock_of_untouched, h.height_eq, h.expires, processTx_other, h.other]

theorem activeWaiting_insert {infos : ServiceNodesInfos} {key : PublicKey}
    (hinfo : infos.lookup key = some info) (hactive : info.isActive = true)
    (info' : ServiceNodeInfo) (hactive' : info'.isActive = true) :
    ∃ others, (activeWaiting infos.entries).Perm (waitingSince ⟨key, info⟩ :: others) ∧
      activeWaiting (infos.insert key info').entries = waitingSince ⟨key, info'⟩ :: others := by
  refine ⟨activeWaiting (infos.entries.kerase key), ?_, ?_⟩
  · have hmem : (⟨key, info⟩ : Σ _ : PublicKey, ServiceNodeInfo) ∈ infos.entries :=
      AList.mem_lookup_iff.mp hinfo
    obtain ⟨info₁, l₁, l₂, -, hsplit, herase⟩ := exists_of_kerase (mem_keys_of_mem hmem)
    obtain rfl : info₁ = info := by
      have hmem₁ : (⟨key, info₁⟩ : Σ _ : PublicKey, ServiceNodeInfo) ∈ infos.entries := by
        simp [hsplit]
      exact Option.some.inj ((AList.mem_lookup_iff.mpr hmem₁).symm.trans hinfo)
    grind [activeWaiting]
  · simp [activeWaiting, AList.entries_insert, hactive']

/-- Everyone in the queue was last rewarded below a height. -/
def WaitsBelow (s : State) (height : ℕ) : Prop :=
  ∀ w ∈ s.rewardQueue, w.lastRewardBlockHeight < height

theorem RewardsWinner.rotates
    (h : RewardsWinner s height input) (env : Env) (hbelow : WaitsBelow s height)
    {first : WaitingSince}
    {rest : List WaitingSince} (hqueue : s.rewardQueue = first :: rest) :
    s.getBlockWinner.key = first.key ∧
      (applyBlock env s input).rewardQueue = rest ++ [⟨height, uint32Max, first.key⟩] := by
  have hmem : first ∈ activeWaiting s.serviceNodesInfos.entries :=
    (queue_perm _).mem_iff.mp (hqueue ▸ mem_cons_self : first ∈ s.rewardQueue)
  have hnever : first < never :=
    lt_of_height ((hbelow first (by simp [hqueue])).trans_le h.height_le)
  have hkey : s.getBlockWinner.key = first.key := by
    rw [getBlockWinner_key, foldl_min_eq_head hqueue hnever.le]
  refine ⟨hkey, ?_⟩
  obtain ⟨⟨key, info⟩, he, rfl⟩ := mem_map.mp hmem
  obtain ⟨hentry, hactive⟩ := mem_filter.mp he
  have hinfo : s.serviceNodesInfos.lookup key = some info := AList.mem_lookup_iff.mpr hentry
  obtain ⟨others, hperm, hinsert⟩ :=
    activeWaiting_insert hinfo hactive (rewarded info height) hactive
  rw [State.rewardQueue, h.infos hkey hinfo]
  refine (congrArg queue hinsert).trans (queue_rotate hqueue hperm ?_)
  intro b hb
  refine (lt_of_height (hbelow b ?_)).le
  exact (queue_perm _).mem_iff.mpr (hperm.mem_iff.mpr (mem_cons_of_mem _ hb))

/-- The first winners of a run are the first in the queue. -/
theorem winners_eq_take {inputs : List BlockInput}
    (hrun : RewardRun env s height inputs) (hbelow : WaitsBelow s height)
    (hlength : inputs.length ≤ s.rewardQueue.length) :
    winners env s inputs = (s.rewardQueue.take inputs.length).map key := by
  induction inputs generalizing s height with
  | nil => simp [winners]
  | cons input inputs ih =>
    obtain ⟨hblock, hrest⟩ := hrun
    cases hqueue : s.rewardQueue with
    | nil => simp [hqueue] at hlength
    | cons first rest =>
      obtain ⟨hkey, hrotated⟩ := hblock.rotates env hbelow hqueue
      grind [WaitsBelow, winners]

end Rotation

/-- Over as many consecutive blocks as there are active nodes, each block rewarding
its winner, the active nodes win in the order in which they have been waiting, each
of them once. The winner is the same for every order of visiting the nodes. -/
theorem reward_rotation (env : Env) (s : State) (height : ℕ) (inputs : List BlockInput)
    (hrun : RewardRun env s height inputs)
    (hbelow : ∀ key info, s.serviceNodesInfos.lookup key = some info → info.isActive = true →
      info.lastRewardBlockHeight < height)
    (hlength : inputs.length = (s.serviceNodesInfos.entries.filter fun e => e.2.isActive).length) :
    winners env s inputs = s.rewardQueue.map WaitingSince.key ∧
    (∀ key info, s.serviceNodesInfos.lookup key = some info → info.isActive = true →
      (winners env s inputs).count key = 1) ∧
    ∀ t : State, t.serviceNodesInfos.entries.Perm s.serviceNodesInfos.entries →
      t.getBlockWinner = s.getBlockWinner := by
  have hqueue : s.rewardQueue.Perm (activeWaiting s.serviceNodesInfos.entries) := queue_perm _
  have hbelow' : WaitsBelow s height := by
    intro w hw
    obtain ⟨e, he, rfl⟩ := mem_map.mp (hqueue.mem_iff.mp hw)
    obtain ⟨hentry, hactive⟩ := mem_filter.mp he
    exact hbelow e.1 e.2 (AList.mem_lookup_iff.mpr hentry) hactive
  have hcount : s.rewardQueue.length = inputs.length := by
    rw [hqueue.length_eq, hlength, activeWaiting, length_map]
  have hwinners : winners env s inputs = s.rewardQueue.map WaitingSince.key := by
    rw [winners_eq_take hrun hbelow' hcount.ge, ← hcount, take_length]
  refine ⟨hwinners, ?_, fun t ht => getBlockWinner_perm ht⟩
  intro key info hinfo hactive
  have hkeys : (winners env s inputs).Perm
      ((s.serviceNodesInfos.entries.filter fun e => e.2.isActive).map Sigma.fst) := by
    rw [hwinners]
    refine (hqueue.map _).trans ?_
    rw [activeWaiting, map_map]
    exact List.Perm.refl _
  have hnodup : ((s.serviceNodesInfos.entries.filter fun e => e.2.isActive).map
      Sigma.fst).Nodup :=
    List.NodupKeys.sublist filter_sublist s.serviceNodesInfos.nodupKeys
  rw [hkeys.count_eq]
  refine count_eq_one_of_mem hnodup ?_
  exact mem_map.mpr ⟨⟨key, info⟩,
    mem_filter.mpr ⟨AList.mem_lookup_iff.mp hinfo, hactive⟩, rfl⟩

section Sample

/-- Three nodes registered in one block, not in the order of their keys. -/
def threeNodes : State :=
  applyBlock sampleEnv { height := 159 }
    { history := OrderedTable.empty
      altStates := []
      block := sampleBlock 16 160
      txs := [3, 1, 2].map fullRegistration }

def rewardBlock (height : ℕ) (winner : PublicKey) : BlockInput where
  history := OrderedTable.empty
  altStates := []
  block :=
    { sampleBlock 16 height with
      minerTx := { vin := [.gen height], extra := [.serviceNodeWinner winner] } }
  txs := []

end Sample

theorem threeNodes_rotation :
    winners sampleEnv threeNodes [rewardBlock 161 3, rewardBlock 162 1, rewardBlock 163 2] =
      [3, 1, 2] := by
  have hrun : RewardRun sampleEnv threeNodes 161
      [rewardBlock 161 3, rewardBlock 162 1, rewardBlock 163 2] := by
    refine ⟨⟨rfl, by decide, by decide +kernel, by decide, by decide +kernel⟩,
      ⟨rfl, by decide, by decide +kernel, by decide, by decide +kernel⟩,
      ⟨rfl, by decide, by decide +kernel, by decide, by decide +kernel⟩, trivial⟩
  have hbelow : ∀ e ∈ threeNodes.serviceNodesInfos.entries, e.2.lastRewardBlockHeight < 161 := by
    decide +kernel
  have hrotation := reward_rotation sampleEnv threeNodes 161 _ hrun
    (fun key info hinfo _ => hbelow ⟨key, info⟩ (AList.mem_lookup_iff.mp hinfo))
    (by decide +kernel)
  rw [hrotation.1]
  decide +kernel

end Arqma.ServiceNodes
