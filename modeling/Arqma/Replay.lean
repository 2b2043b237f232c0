import Arqma.ServiceNodeList

/-!
# Replaying blocks

Processing a block looks at the history only for the obligations quorums that its
state changes refer to. Two lists with the same state whose histories agree on these
quorums therefore stay together, however their histories differ otherwise. This is
what a rescan from an earlier state relies on.
-/
namespace Arqma.ServiceNodes
open Arqma.Cryptonote List ServiceNodeList Option

variable {lo : ℕ} {stateChange : ServiceNodeStateChange} {bs : List ChainBlock}
  {l : ServiceNodeList} {key : PublicKey} {b : ChainBlock}

section Congruence

variable {env : Env}

def obligationsAt (history : StateSet) (height : ℕ) : Option Quorum :=
  (history.find? height).bind fun s => s.quorums.obligations

def vouchingQuorum (env : Env) (history : StateSet) (block : Block)
    (stateChange : ServiceNodeStateChange) : Option Quorum :=
  (obligationsAt history stateChange.blockHeight).filter fun quorum =>
    (verifyTxStateChange env.crypto quorum block.majorVersion stateChange
      (getBlockHeight block)).isOk

/-- Without alternative states the history alone decides on a state change. -/
theorem stateChangeQuorums_bind (history : StateSet) (block : Block)
    (stateChange : ServiceNodeStateChange) :
    (stateChangeQuorums env history [] block stateChange).bind QuorumManager.obligations =
      vouchingQuorum env history block stateChange := by
  unfold stateChangeQuorums vouchingQuorum obligationsAt verifiesStateChange
  grind

def testingAt (history : StateSet) (height : ℕ) : Option Quorum :=
  (obligationsAt history height).filter fun quorum => quorum.workers ≠ []

theorem vouchingQuorum_eq_filter (history : StateSet) (block : Block)
    (stateChange : ServiceNodeStateChange) :
    vouchingQuorum env history block stateChange =
      (testingAt history stateChange.blockHeight).filter fun quorum =>
        (verifyTxStateChange env.crypto quorum block.majorVersion stateChange
          (getBlockHeight block)).isOk := by
  rw [vouchingQuorum, testingAt, Option.filter_filter]
  refine congrArg (fun p => Option.filter p _) (funext fun quorum => ?_)
  by_cases hworkers : quorum.workers = []
  · have hnot : (verifyTxStateChange env.crypto quorum block.majorVersion stateChange
        (getBlockHeight block)).isOk = false := by
      refine eq_false_of_ne_true fun hok => ?_
      have := (verifyTxStateChange_isOk hok).1
      simp [hworkers] at this
    simp [hnot]
  · simp [hworkers]

theorem vouchingQuorum_eq_none_of_old {history : StateSet} {block : Block}
    (h : stateChange.blockHeight + stateChangeTxLifetimeInBlocks ≤ getBlockHeight block) :
    vouchingQuorum env history block stateChange = none := by
  refine filter_eq_none_iff.mpr fun quorum _ hok => ?_
  have := (verifyTxStateChange_isOk hok).2.2
  omega

theorem processStateChangeTx_eq (history : StateSet) (s : State) (block : Block)
    (tx : Transaction) :
    processStateChangeTx env history [] s block tx =
      (getServiceNodeStateChangeFromTxExtra tx.extra).bind fun stateChange =>
        (vouchingQuorum env history block stateChange).bind fun quorum =>
          (quorum.workers[stateChange.serviceNodeIndex]?).bind fun key =>
            (s.serviceNodesInfos.lookup key).bind fun info =>
              applyStateChange env s block key info stateChange.state := by
  unfold processStateChangeTx
  cases getServiceNodeStateChangeFromTxExtra tx.extra with
  | none => rfl
  | some stateChange =>
    simp only [bind_eq_bind, bind_some]
    rw [← stateChangeQuorums_bind, bind_assoc]

/-- Two histories with the same verdict on every state change of a block. -/
def SameVerdicts (env : Env) (history history' : StateSet) (b : ChainBlock) : Prop :=
  ∀ tx ∈ b.txs, tx.txType = .stateChange →
    ∀ stateChange, getServiceNodeStateChangeFromTxExtra tx.extra = some stateChange →
      vouchingQuorum env history b.block stateChange =
        vouchingQuorum env history' b.block stateChange

theorem updateFromBlock_congr {history history' : StateSet}
    (h : SameVerdicts env history history' b) (s : State) :
    updateFromBlock env history [] s b.block b.txs =
      updateFromBlock env history' [] s b.block b.txs := by
  have hstep : ∀ (acc : State × Bool), ∀ entry ∈ b.txs.zipIdx,
      processTx env history [] b.block acc entry = processTx env history' [] b.block acc entry := by
    intro acc entry hentry
    by_cases htype : entry.1.txType = .stateChange
    · have hchange : processStateChangeTx env history [] acc.1 b.block entry.1 =
          processStateChangeTx env history' [] acc.1 b.block entry.1 := by
        rw [processStateChangeTx_eq, processStateChangeTx_eq]
        cases hextra : getServiceNodeStateChangeFromTxExtra entry.1.extra with
        | none => rfl
        | some stateChange =>
          simp only [bind_some, h _ (fst_mem_of_mem_zipIdx hentry) htype _ hextra]
      simp only [processTx, hchange]
    · simp only [processTx, if_neg htype]
  have htxs : processTxs env history [] s b.block b.txs =
      processTxs env history' [] s b.block b.txs := foldl_ext _ _ _ hstep
  simp only [updateFromBlock, htxs]

end Congruence

section Views

def advance (env : Env) (v : View) (b : ChainBlock) : View :=
  (updateFromBlock env (v.historyFor b) [] v.1 b.block b.txs, v.historyFor b)

def replay (env : Env) (v : View) (bs : List ChainBlock) : View := bs.foldl (advance env) v

variable {env : Env} {chain : Chain}

theorem ServiceNodeList.view_processBlock
    (h16 : 16 ≤ chain.hardForkVersion (getBlockHeight b.block)) :
    (l.processBlock env chain b).view = advance env l.view b := by
  rw [view, processBlock_state h16, processBlock_stateHistory h16]
  rfl

theorem ServiceNodeList.view_foldl
    (h16 : ∀ b ∈ bs, 16 ≤ chain.hardForkVersion (getBlockHeight b.block)) :
    (bs.foldl (processBlock env chain) l).view = replay env l.view bs := by
  induction bs generalizing l with
  | nil => rfl
  | cons b bs ih =>
    rw [foldl_cons, ih fun c hc => h16 c (mem_cons_of_mem _ hc),
      view_processBlock (h16 b mem_cons_self)]
    rfl

@[simp] theorem ServiceNodeList.view_store (l : ServiceNodeList) :
    (l.store chain).view = l.view := by
  simp [view]

theorem ServiceNodeList.view_storeEveryTenth (storeToDisk : Bool) (i : ℕ) (l : ServiceNodeList) :
    (storeEveryTenth chain storeToDisk i l).view = l.view := by
  unfold storeEveryTenth
  split_ifs
  · exact l.view_store
  · rfl

theorem replay_cons (v : View) (b : ChainBlock) (bs : List ChainBlock) :
    replay env v (b :: bs) = replay env (advance env v b) bs := rfl

theorem replay_append (v : View) (bs cs : List ChainBlock) :
    replay env v (bs ++ cs) = replay env (replay env v bs) cs := foldl_append

theorem replay_height (v : View) (bs : List ChainBlock) :
    (replay env v bs).1.height = v.1.height + bs.length := by
  induction bs generalizing v with
  | nil => rfl
  | cons b bs ih =>
    rw [replay_cons, ih, advance, updateFromBlock_height, length_cons]
    omega

end Views

section Histories

variable {env : Env} {v w : View} {b : ChainBlock}

/-- The history is about earlier states. -/
def Below (v : View) : Prop := ∀ s ∈ v.2.rows, s.height < v.1.height

theorem Below.mem_historyFor (h : Below v) {s : State} : s ∈ (v.historyFor b).rows ↔
      s = v.1 ∨ s ∈ v.2.rows ∧ shortTermStateCullHeight (getBlockHeight b.block) < s.height := by
  grind [Below, View.historyFor, OrderedTable.mem_insert_of_free, OrderedTable.mem_filter]

theorem Below.advance (h : Below v) (env : Env) (b : ChainBlock) : Below (advance env v b) := by
  intro s hs
  change s.height < (updateFromBlock env _ [] v.1 b.block b.txs).height
  rw [updateFromBlock_height]
  rcases h.mem_historyFor.mp hs with rfl | ⟨hrow, -⟩
  · exact Nat.lt_succ_self _
  · exact (h s hrow).trans (Nat.lt_succ_self _)

theorem Below.obligationsAt_historyFor (h : Below v) (b : ChainBlock) (height : ℕ) :
    obligationsAt (v.historyFor b) height =
      if height = v.1.height then v.1.quorums.obligations
      else if shortTermStateCullHeight (getBlockHeight b.block) < height then
        obligationsAt v.2 height
      else none := by
  unfold obligationsAt
  split_ifs with hcurrent hkept
  · have hfind : (v.historyFor b).find? height = some v.1 :=
      OrderedTable.find?_eq_some.mpr ⟨h.mem_historyFor.mpr (Or.inl rfl), hcurrent.symm⟩
    rw [hfind, bind_some]
  · congr 1
    refine Option.ext fun s => ?_
    grind [OrderedTable.find?_eq_some, h.mem_historyFor]
  · have hfind : (v.historyFor b).find? height = none := by
      refine OrderedTable.find?_eq_none.mpr fun s hs hheight => ?_
      rcases h.mem_historyFor.mp hs with rfl | ⟨-, hcull⟩
      · exact hcurrent hheight.symm
      · exact hkept (hheight ▸ hcull)
    rw [hfind, bind_none]

/-- State changes of the block that refer to a height below `lo` have no quorum that
vouches for them. -/
def RefersFrom (env : Env) (lo : ℕ) (history : StateSet) (b : ChainBlock) : Prop :=
  ∀ tx ∈ b.txs, tx.txType = .stateChange →
    ∀ stateChange, getServiceNodeStateChangeFromTxExtra tx.extra = some stateChange →
      stateChange.blockHeight < lo → vouchingQuorum env history b.block stateChange = none

/-- The history reaches back to `lo` only. -/
structure Window (lo : ℕ) (v : View) : Prop where
  below : Below v
  lo_le : lo ≤ v.1.height
  lo_le_history : ∀ s ∈ v.2.rows, lo ≤ s.height

theorem Below.window (h : Below v) : Window 0 v := ⟨h, Nat.zero_le _, fun _ _ => Nat.zero_le _⟩

theorem Window.advance (h : Window lo v) (env : Env) (b : ChainBlock) :
    Window lo (advance env v b) where
  below := h.below.advance env b
  lo_le := by
    change lo ≤ (updateFromBlock env _ [] v.1 b.block b.txs).height
    rw [updateFromBlock_height]
    exact h.lo_le.trans (Nat.le_succ _)
  lo_le_history := by
    intro s hs
    rcases h.below.mem_historyFor.mp hs with rfl | ⟨hrow, -⟩
    · exact h.lo_le
    · exact h.lo_le_history s hrow

theorem Window.replay (h : Window lo v) (env : Env) (bs : List ChainBlock) :
    Window lo (replay env v bs) := by
  induction bs generalizing v with
  | nil => exact h
  | cons b bs ih => exact ih (h.advance env b)

theorem Window.vouchingQuorum_eq_none (h : Window lo v) (env : Env) (b : ChainBlock)
    (hlow : stateChange.blockHeight < lo) :
    vouchingQuorum env (v.historyFor b) b.block stateChange = none := by
  have hfind : (v.historyFor b).find? stateChange.blockHeight = none := by
    refine OrderedTable.find?_eq_none.mpr fun s hs hheight => ?_
    rcases h.below.mem_historyFor.mp hs with rfl | ⟨hrow, -⟩
    · have := h.lo_le
      omega
    · have := h.lo_le_history s hrow
      omega
  rw [vouchingQuorum, obligationsAt, hfind, bind_none, filter_none]

/-- The second list has the state of the first and a history that reaches back to `lo`
only, with the same quorums that test anyone from there on. -/
structure Coupled (lo : ℕ) (v w : View) : Prop where
  state : w.1 = v.1
  below : Below v
  window : Window lo w
  testing : ∀ height, lo ≤ height → testingAt w.2 height = testingAt v.2 height

theorem Coupled.testingAt_historyFor (h : Coupled lo v w) (b : ChainBlock) {height : ℕ}
    (hlo : lo ≤ height) :
    testingAt (w.historyFor b) height = testingAt (v.historyFor b) height := by
  have htesting := h.testing height hlo
  unfold testingAt at htesting ⊢
  rw [h.window.below.obligationsAt_historyFor, h.below.obligationsAt_historyFor, h.state]
  split_ifs
  · rfl
  · exact htesting
  · rfl

theorem Coupled.sameVerdicts (h : Coupled lo v w) (hrefers : RefersFrom env lo (v.historyFor b) b) :
    SameVerdicts env (w.historyFor b) (v.historyFor b) b := by
  intro tx htx htype stateChange hextra
  obtain hlow | hlo := Nat.lt_or_ge stateChange.blockHeight lo
  · rw [hrefers tx htx htype stateChange hextra hlow, h.window.vouchingQuorum_eq_none env b hlow]
  · rw [vouchingQuorum_eq_filter, vouchingQuorum_eq_filter, h.testingAt_historyFor b hlo]

theorem Coupled.advance (h : Coupled lo v w) (hrefers : RefersFrom env lo (v.historyFor b) b) :
    Coupled lo (advance env v b) (advance env w b) where
  state := by
    simp only [ServiceNodes.advance, h.state, updateFromBlock_congr (h.sameVerdicts hrefers)]
  below := h.below.advance env b
  window := h.window.advance env b
  testing _ hlo := h.testingAt_historyFor b hlo

/-- Coupled lists stay together over a replay whose state changes refer far enough. -/
theorem Coupled.replay (h : Coupled lo v w)
    (hrefers : ∀ i b, bs[i]? = some b →
      RefersFrom env lo ((replay env v (bs.take i)).historyFor b) b) :
    Coupled lo (replay env v bs) (replay env w bs) := by
  induction bs generalizing v w with
  | nil => exact h
  | cons b bs ih => exact ih (h.advance (hrefers 0 b rfl)) fun i c hc => hrefers (i + 1) c hc

/-- A list that has pruned its history below `lo` and one that has not process all blocks alike
from a vote's lifetime above `lo` on. -/
theorem pruned_history_agrees (env : Env) (chain : Chain) (l pruned : ServiceNodeList) (lo : ℕ)
    (h : Coupled lo l.view pruned.view) (bs : List ChainBlock)
    (hblocks : ∀ b ∈ bs, 16 ≤ chain.hardForkVersion (getBlockHeight b.block) ∧
      lo + stateChangeTxLifetimeInBlocks ≤ getBlockHeight b.block) :
    (bs.foldl (processBlock env chain) pruned).state =
      (bs.foldl (processBlock env chain) l).state := by
  have h16 : ∀ b ∈ bs, 16 ≤ chain.hardForkVersion (getBlockHeight b.block) :=
    fun b hb => (hblocks b hb).1
  -- what refers to a height below `lo` is too old, whatever the history has
  have hold : ∀ i b, bs[i]? = some b →
      RefersFrom env lo ((replay env l.view (bs.take i)).historyFor b) b := by
    intro i b hb tx _ _ stateChange _ hlow
    have hheight := (hblocks b (mem_of_getElem? hb)).2
    exact vouchingQuorum_eq_none_of_old (by omega)
  have hstate := (h.replay hold).state
  rwa [← view_foldl h16, ← view_foldl h16] at hstate

/-- The quorum at height one tests node 7. -/
def testedState : State where
  height := 1
  quorums := { obligations := some ⟨(List.range 5).map (BitVec.ofNat 256), [7]⟩ }

/-- Two registrations, and a deregistration by the quorum that one of the lists has no more. -/
theorem culled_state_not_missed :
    let chain : Chain := ⟨[], fun _ => 16, 16, 1, fun _ => none⟩
    let l : ServiceNodeList :=
      { state := { height := 99 }, stateHistory := OrderedTable.empty.insert testedState }
    let pruned : ServiceNodeList := { state := { height := 99 } }
    let bs : List ChainBlock := [⟨sampleBlock 16 100, [fullRegistration 7]⟩,
      ⟨sampleBlock 16 101, [deregistrationTx 1, fullRegistration 8]⟩]
    let after := (bs.foldl (processBlock sampleEnv chain) pruned).state
    after = (bs.foldl (processBlock sampleEnv chain) l).state ∧
      (after.serviceNodesInfos.lookup 7).isSome ∧ (after.serviceNodesInfos.lookup 8).isSome := by
  intro chain l pruned bs after
  refine ⟨pruned_history_agrees sampleEnv chain l pruned 2 ⟨rfl, ?_, ⟨?_, by decide, ?_⟩, ?_⟩ bs
    (by decide), by decide +kernel⟩
  · intro s hs
    obtain rfl := mem_singleton.mp hs
    decide
  · exact fun s hs => absurd hs not_mem_nil
  · exact fun s hs => absurd hs not_mem_nil
  · intro height hlo
    have hfind : l.stateHistory.find? height = none := by
      refine OrderedTable.find?_eq_none.mpr fun s hs => ?_
      obtain rfl := mem_singleton.mp hs
      exact (Nat.lt_of_succ_le hlo).ne
    exact congrArg (fun s => (Option.bind s _).filter _) hfind.symm

end Histories

section Quiet

variable {env : Env} {v : View} {b : ChainBlock}

/-- No node is about to expire, and none has the null key. -/
structure Lasting (infos : ServiceNodesInfos) : Prop where
  unlocks : ∀ e ∈ infos.entries, e.2.requestedUnlockHeight = keyImageAwaitingUnlockHeight
  null : infos.lookup 0 = none

/-- A block that names no winner and at most has state changes that refer to heights
below `lo`. -/
def QuietBlock (lo : ℕ) (b : ChainBlock) : Prop :=
  getServiceNodeWinnerFromTxExtra b.block.minerTx.extra = 0 ∧
  ∀ tx ∈ b.txs, tx.txType = .stateChange ∧
    ∀ stateChange, getServiceNodeStateChangeFromTxExtra tx.extra = some stateChange →
      stateChange.blockHeight < lo

theorem Lasting.getExpiredNodes {s : State} (h : Lasting s.serviceNodesInfos) (height : ℕ) :
    s.getExpiredNodes height = [] := by
  grind [h.unlocks, State.getExpiredNodes, filter_eq_nil_iff.mpr]

theorem Lasting.advance (h : Lasting v.1.serviceNodesInfos) (hwindow : Window lo v)
    (hb : QuietBlock lo b) :
    (advance env v b).1 = { startBlock v.1 b.block with
        quorums := generateQuorums env.rng b.block.majorVersion (startBlock v.1 b.block) } := by
  have hwinner : (startBlock v.1 b.block).serviceNodesInfos.lookup
      (getServiceNodeWinnerFromTxExtra b.block.minerTx.extra) = none := by
    rw [hb.1]
    exact h.null
  change updateFromBlock env (v.historyFor b) [] v.1 b.block b.txs = _
  rw [updateFromBlock_of_untouched (h.getExpiredNodes _), advanceWinner_of_none hwinner]
  intro acc entry hentry
  obtain ⟨htype, hlow⟩ := hb.2 entry.1 (fst_mem_of_mem_zipIdx hentry)
  have hnone : processStateChangeTx env (v.historyFor b) [] acc.1 b.block entry.1 = none := by
    rw [processStateChangeTx_eq]
    cases hextra : getServiceNodeStateChangeFromTxExtra entry.1.extra with
    | none => rfl
    | some stateChange =>
      rw [bind_some, hwindow.vouchingQuorum_eq_none env b (hlow _ hextra), bind_none]
  simp [processTx, Transaction.isTransfer, htype, hnone]

theorem Lasting.replay (h : Lasting v.1.serviceNodesInfos) (hwindow : Window lo v)
    (hbs : ∀ b ∈ bs, QuietBlock lo b) :
    (replay env v bs).1.serviceNodesInfos = v.1.serviceNodesInfos := by
  induction bs generalizing v with
  | nil => rfl
  | cons b bs ih =>
    have hstep : (ServiceNodes.advance env v b).1.serviceNodesInfos = v.1.serviceNodesInfos := by
      rw [h.advance hwindow (hbs b mem_cons_self)]
      rfl
    have hrest := ih (hstep ▸ h) (hwindow.advance env b) fun c hc =>
      hbs c (mem_cons_of_mem _ hc)
    exact hrest.trans hstep

theorem replay_lookup_none (h : v.1.serviceNodesInfos.lookup key = none)
    (hbs : ∀ b ∈ bs, b.txs = []) :
    (replay env v bs).1.serviceNodesInfos.lookup key = none := by
  induction bs generalizing v with
  | nil => exact h
  | cons b bs ih =>
    refine ih ?_ fun c hc => hbs c (mem_cons_of_mem _ hc)
    grind [advance, hbs b mem_cons_self, updateFromBlock_lookup_none]

theorem Lasting.lookup_deregistered (h : Lasting v.1.serviceNodesInfos)
    (hwinner : getServiceNodeWinnerFromTxExtra b.block.minerTx.extra = 0) {tx : Transaction}
    (htxs : b.txs = [tx]) (htype : tx.txType = .stateChange)
    (hextra : getServiceNodeStateChangeFromTxExtra tx.extra = some stateChange)
    (hstate : stateChange.state = .deregister) {quorum : Quorum}
    (hvouched : vouchingQuorum env (v.historyFor b) b.block stateChange = some quorum)
    (hworker : quorum.workers[stateChange.serviceNodeIndex]? = some key)
    {info : ServiceNodeInfo} (hinfo : v.1.serviceNodesInfos.lookup key = some info) :
    (ServiceNodes.advance env v b).1.serviceNodesInfos.lookup key = none := by
  have hstart : processTxs env (v.historyFor b) [] v.1 b.block [] =
      (startBlock v.1 b.block, false) := by
    rw [processTxs_of_untouched (h.getExpiredNodes _) (by simp), advanceWinner_of_none]
    rw [hwinner]
    exact h.null
  have hchange : ∃ s, processStateChangeTx env (v.historyFor b) [] (startBlock v.1 b.block) b.block
      tx = some s ∧ s.serviceNodesInfos.lookup key = none := by
    have hinfo' : (startBlock v.1 b.block).serviceNodesInfos.lookup key = some info := hinfo
    rw [processStateChangeTx_eq, hextra, bind_some, hvouched, bind_some, hworker,
      bind_some, hinfo', bind_some, hstate]
    exact ⟨_, rfl, AList.lookup_erase _ _⟩
  obtain ⟨s, hs, hlookup⟩ := hchange
  have hprocessed : processTxs env (v.historyFor b) [] v.1 b.block [tx] = (s, true) := by
    have happend := @processTxs_append (v.historyFor b) env b.block [] v.1 [] tx
    rw [nil_append, hstart] at happend
    rw [happend]
    simp [processTx, Transaction.isTransfer, htype, hs]
  change (updateFromBlock env _ [] v.1 b.block b.txs).serviceNodesInfos.lookup key = none
  rw [htxs, updateFromBlock, hprocessed]
  exact updateSwarms_lookup_none hlookup

end Quiet

section Rescan

variable {env : Env} {chain : Chain} {storeToDisk : Bool}

theorem rescanBatches_view (fuel i : ℕ) (l : ServiceNodeList)
    (hfuel : chain.blocks.length - 1 - l.state.height ≤ fuel)
    (h16 : ∀ b ∈ chain.blocks.drop (l.state.height + 1),
      16 ≤ chain.hardForkVersion (getBlockHeight b.block)) :
    (rescanBatches env chain storeToDisk fuel i l).1.view =
      replay env l.view (chain.blocks.drop (l.state.height + 1)) := by
  induction fuel generalizing i l with
  | zero =>
    rw [drop_eq_nil_of_le (by omega)]
    rfl
  | succ fuel ih =>
    rw [rescanBatches]
    by_cases hend : chain.blocks.length - 1 ≤ l.state.height
    · rw [if_pos hend, drop_eq_nil_of_le (by omega)]
      rfl
    · rw [if_neg hend]
      generalize hrest : chain.blocks.drop (l.state.height + 1) = rest at h16
      have hscanned : ((rest.take 1000).foldl (processBlock env chain)
          (l.storeEveryTenth chain storeToDisk i)).view = replay env l.view (rest.take 1000) := by
        rw [view_foldl fun b hb => h16 b (mem_of_mem_take hb), view_storeEveryTenth]
      simp only
      generalize (rest.take 1000).foldl (processBlock env chain)
        (l.storeEveryTenth chain storeToDisk i) = scanned at hscanned
      have hheight : scanned.state.height = l.state.height + min 1000 rest.length := by
        change scanned.view.1.height = _
        rw [hscanned, replay_height, length_take]
        rfl
      have hlength : rest.length = chain.blocks.length - (l.state.height + 1) := by
        rw [← hrest, length_drop]
      have hdrop : chain.blocks.drop (scanned.state.height + 1) = rest.drop 1000 := by
        grind [drop_drop, drop_eq_nil_of_le]
      have h16' : ∀ b ∈ chain.blocks.drop (scanned.state.height + 1),
          16 ≤ chain.hardForkVersion (getBlockHeight b.block) := by
        rw [hdrop]
        exact fun b hb => h16 b (mem_of_mem_drop hb)
      rw [if_neg (by omega), ih _ _ (by omega) h16', hscanned, hdrop, ← replay_append,
        take_append_drop]

theorem rescan_view (l : ServiceNodeList) (hcurrent : 16 ≤ chain.currentHardForkVersion)
    (h16 : ∀ b ∈ chain.blocks.drop (l.state.height + 1),
      16 ≤ chain.hardForkVersion (getBlockHeight b.block)) :
    (l.rescanStartingFromCurrState env chain storeToDisk).view =
      replay env l.view (chain.blocks.drop (l.state.height + 1)) := by
  unfold rescanStartingFromCurrState
  by_cases hdone : chain.currentHardForkVersion < 16 ∨ l.state.height = chain.blocks.length - 1
  · rw [if_pos hdone, drop_eq_nil_of_le (by omega)]
    rfl
  · grind [view_store, rescanBatches_view]

end Rescan
end Arqma.ServiceNodes
