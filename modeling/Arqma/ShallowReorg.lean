import Mathlib.Data.List.TakeWhile
import Arqma.ServiceNodeList

/-!
# Going back within the history

A run adds blocks and goes back to states that are still in the history. Beside the
list we record the states that held after the blocks of the current chain and the
lowest height the culls so far have left. The history then is exactly the part of
the record from that height on, without the current state.
-/
namespace Arqma.ServiceNodes
open Arqma.Cryptonote List ServiceNodeList

variable {r : Recorded} {height : ℕ} {env : Env} {states : List State} {chain : Chain}

inductive ListOp
  | process (chain : Chain) (b : ChainBlock)
  | detach (chain : Chain) (height : ℕ)

/-- A list with the states after the blocks of its current chain, the last one first. -/
structure Recorded where
  list : ServiceNodeList
  states : List State
  keptFrom : ℕ

namespace Recorded

/-- The record before the first block. -/
def start (l : ServiceNodeList) : Recorded := ⟨l, [l.state], 0⟩

def apply (env : Env) (r : Recorded) : ListOp → Recorded
  | .process chain b =>
    let list := r.list.processBlock env chain b
    { list
      states := list.state :: r.states
      -- the state the block builds on is added after the cull
      keptFrom := max r.keptFrom
        (min (shortTermStateCullHeight (getBlockHeight b.block) + 1) r.list.state.height) }
  | .detach chain height =>
    { list := r.list.blockchainDetached env chain height
      states := r.states.dropWhile fun s => height ≤ s.height
      keptFrom := r.keptFrom }

/-- Blocks come at consecutive heights, and a detach finds its target in the history
with all its data. -/
def Allowed (r : Recorded) : ListOp → Prop
  | .process chain b =>
    getBlockHeight b.block = r.list.state.height + 1 ∧
      16 ≤ chain.hardForkVersion (getBlockHeight b.block)
  | .detach _ height =>
    1 ≤ height ∧ ∃ s, r.list.stateHistory.find? (height - 1) = some s ∧ s.onlyLoadedQuorums = false

/-- The records of the runs that begin with an empty history. -/
inductive Reachable (env : Env) : Recorded → Prop
  | start (l : ServiceNodeList) (h : l.stateHistory = OrderedTable.empty) : Reachable env (start l)
  | step {r : Recorded} (op : ListOp) (hr : Reachable env r) (hop : r.Allowed op) :
      Reachable env (r.apply env op)

/-- What the record says about the list. -/
structure Exact (r : Recorded) : Prop where
  current : r.states.head? = some r.list.state
  consecutive : r.states.IsChain fun s t => s.height = t.height + 1
  bounded : r.keptFrom ≤ r.list.state.height
  history : ∀ s, s ∈ r.list.stateHistory.rows ↔ s ∈ r.states.tail ∧ r.keptFrom ≤ s.height

theorem Exact.states_eq (h : r.Exact) : r.states = r.list.state :: r.states.tail :=
  (cons_head?_tail h.current).symm

/-- Later states of the record are higher. -/
theorem Exact.descending (h : r.Exact) : r.states.Pairwise fun s t => t.height < s.height := by
  have : IsTrans State fun s t => t.height < s.height := ⟨fun _ _ _ hab hbc => hbc.trans hab⟩
  refine isChain_iff_pairwise.mp (h.consecutive.imp fun s t hst => ?_)
  omega

theorem Exact.tail_lt (h : r.Exact) {s : State} (hs : s ∈ r.states.tail) :
    s.height < r.list.state.height := by
  have hdescending := h.descending
  rw [h.states_eq] at hdescending
  exact rel_of_pairwise_cons hdescending hs

theorem Exact.process (h : r.Exact) {b : ChainBlock}
    (hop : r.Allowed (.process chain b)) : (r.apply env (.process chain b)).Exact := by
  obtain ⟨hheight, h16⟩ := hop
  have hnext : (r.list.processBlock env chain b).state.height = r.list.state.height + 1 := by
    rw [processBlock_state h16, updateFromBlock_height]
  refine ⟨rfl, ?_, ?_, ?_⟩
  · grind [apply, h.states_eq, h.consecutive]
  · have hbounded := h.bounded
    simp only [apply, hnext]
    omega
  · intro s
    have hfree : ∀ t ∈ (r.list.stateHistory.filter fun t =>
        shortTermStateCullHeight (getBlockHeight b.block) < t.height).rows,
        t.height ≠ r.list.state.height := by
      intro t ht
      have htail := ((h.history t).mp (OrderedTable.mem_filter.mp ht).1).1
      exact (h.tail_lt htail).ne
    change s ∈ (r.list.processBlock env chain b).stateHistory.rows ↔ s ∈ r.states ∧ _
    rw [processBlock_stateHistory h16, View.historyFor, view,
      OrderedTable.mem_insert_of_free hfree, OrderedTable.mem_filter, h.history, h.states_eq,
      mem_cons, decide_eq_true_eq, tail_cons]
    grind [apply, h.bounded, h.tail_lt]

/-- The record after a detach begins with the state it goes back to. -/
theorem Exact.dropWhile_eq (h : r.Exact) (hpos : 1 ≤ height) {t : State} (ht : t ∈ r.states)
    (hheight : t.height = height - 1) :
    ∃ above below, r.states = above ++ t :: below ∧ (∀ s ∈ above, height ≤ s.height) ∧
      (r.states.dropWhile fun s => height ≤ s.height) = t :: below := by
  obtain ⟨above, below, hsplit⟩ := append_of_mem ht
  grind [dropWhile_append_of_pos, dropWhile_cons_of_neg, h.descending]

theorem Exact.detach (h : r.Exact)
    (hop : r.Allowed (.detach chain height)) : (r.apply env (.detach chain height)).Exact := by
  obtain ⟨hpos, t, hfind, hfull⟩ := hop
  obtain ⟨hrow, hheight⟩ := OrderedTable.find?_eq_some.mp hfind
  obtain ⟨htail, hkept⟩ := (h.history t).mp hrow
  obtain ⟨hstate, hhistory⟩ := @blockchainDetached_of_history env chain r.list height t hfind hfull
  obtain ⟨above, below, hsplit, habove, hdrop⟩ :=
    h.dropWhile_eq hpos (mem_of_mem_tail htail) hheight
  have hdescending := h.descending
  rw [hsplit, pairwise_append] at hdescending
  refine ⟨?_, ?_, ?_, ?_⟩
  · simp only [apply, hdrop, hstate, head?_cons]
  · have hconsecutive := h.consecutive
    rw [hsplit] at hconsecutive
    simp only [apply, hdrop]
    exact hconsecutive.right_of_append
  · simpa only [apply, hstate] using hkept
  · intro s
    simp only [apply, hdrop, hhistory, OrderedTable.mem_filter, h.history, tail_cons,
      decide_eq_true_eq]
    constructor
    · grind [mem_of_mem_tail]
    · grind [rel_of_pairwise_cons]

theorem Reachable.exact (h : Reachable env r) : r.Exact := by
  induction h with
  | start l hempty =>
    refine ⟨rfl, isChain_singleton _, Nat.zero_le _, fun s => ?_⟩
    simp [Recorded.start, hempty]
  | step op hr hop ih =>
    cases op with
    | process chain b => exact ih.process hop
    | detach chain height => exact ih.detach hop

end Recorded

/-- Consecutive states leave out no height. -/
theorem exists_height_of_consecutive
    (hconsecutive : states.IsChain fun s t => s.height = t.height + 1)
    (habove : ∀ s, states.head? = some s → height ≤ s.height)
    (hbelow : ∃ s ∈ states, s.height ≤ height) : ∃ s ∈ states, s.height = height := by
  induction states with
  | nil => simp at hbelow
  | cons s rest ih =>
    by_cases hs : s.height = height
    · exact ⟨s, mem_cons_self, hs⟩
    · have hlt : height < s.height := lt_of_le_of_ne (habove s rfl) (Ne.symm hs)
      obtain ⟨t, ht, hle⟩ := hbelow
      have htrest : t ∈ rest := by
        rcases mem_cons.mp ht with rfl | htrest
        · omega
        · exact htrest
      obtain ⟨u, hu, hheight⟩ := ih hconsecutive.tail (fun u hu => by
        have hnext := (isChain_cons.mp hconsecutive).1 u hu
        omega) ⟨t, htrest, hle⟩
      exact ⟨u, mem_cons_of_mem _ hu, hheight⟩

/-- The history has the state of every height it keeps. -/
theorem Recorded.Exact.find?_history (h : r.Exact) (hkept : r.keptFrom ≤ height)
    (hlt : height < r.list.state.height) (hbelow : ∃ s ∈ r.states, s.height ≤ height) :
    ∃ s ∈ r.states, s.height = height ∧ r.list.stateHistory.find? height = some s := by
  have habove : ∀ s, r.states.head? = some s → height ≤ s.height := by
    intro s hs
    rw [Option.some.inj (hs.symm.trans h.current)]
    exact hlt.le
  obtain ⟨s, hs, rfl⟩ := exists_height_of_consecutive h.consecutive habove hbelow
  grind [h.states_eq, OrderedTable.find?_eq_some.mpr, h.history]

/-- In every run a detach within the history restores the state that held after the
block it goes back to. The history has only states that held after blocks of the
current chain, and has them without gaps from `keptFrom` to below the current one. -/
theorem shallow_reorg_exact (env : Env) (r : Recorded) (h : Recorded.Reachable env r) :
    (∀ chain height, r.Allowed (.detach chain height) →
      ∃ s ∈ r.states, s.height = height - 1 ∧
        (r.list.blockchainDetached env chain height).state = s) ∧
    r.states.head? = some r.list.state ∧
    (r.states.IsChain fun s t => s.height = t.height + 1) ∧
    (∀ s ∈ r.list.stateHistory.rows,
      s ∈ r.states ∧ r.keptFrom ≤ s.height ∧ s.height < r.list.state.height) ∧
    ∀ height, r.keptFrom ≤ height → height < r.list.state.height →
      (∃ s ∈ r.states, s.height ≤ height) →
      ∃ s ∈ r.states, s.height = height ∧ r.list.stateHistory.find? height = some s := by
  have hexact := h.exact
  refine ⟨?_, hexact.current, hexact.consecutive, ?_,
    fun height hkept hlt hbelow => hexact.find?_history hkept hlt hbelow⟩
  · rintro chain height ⟨-, s, hfind, hfull⟩
    obtain ⟨hrow, hheight⟩ := OrderedTable.find?_eq_some.mp hfind
    refine ⟨s, mem_of_mem_tail ((hexact.history s).mp hrow).1, hheight, ?_⟩
    exact (ServiceNodeList.blockchainDetached_of_history hfind hfull).1
  · intro s hs
    obtain ⟨htail, hkept⟩ := (hexact.history s).mp hs
    exact ⟨mem_of_mem_tail htail, hkept, hexact.tail_lt htail⟩

section Sample

def stakedChain : Chain where
  blocks := []
  hardForkVersion _ := 16
  currentHardForkVersion := 16
  hardFork16FromHeight := 160
  immutableCheckpoint _ := none

/-- Every tenth block registers a node. -/
def stakedBlock (height : ℕ) : ChainBlock :=
  ⟨sampleBlock 16 height, if height % 10 = 0 then [fullRegistration height] else []⟩

/-- The first `n` blocks from height 160 on. -/
def stakedRun : ℕ → Recorded
  | 0 => Recorded.start { state := { height := 159 } }
  | n + 1 => (stakedRun n).apply sampleEnv (.process stakedChain (stakedBlock (160 + n)))

theorem stakedRun_height (n : ℕ) : (stakedRun n).list.state.height = 159 + n := by
  induction n with
  | zero => rfl
  | succ n ih =>
    change ((stakedRun n).list.processBlock sampleEnv stakedChain
      (stakedBlock (160 + n))).state.height = _
    rw [processBlock_state (show 16 ≤ 16 from le_rfl), updateFromBlock_height, ih]
    omega

theorem stakedRun_reachable (n : ℕ) : Recorded.Reachable sampleEnv (stakedRun n) := by
  induction n with
  | zero => exact .start _ rfl
  | succ n ih =>
    refine .step _ ih ⟨?_, le_rfl⟩
    rw [stakedRun_height]
    change 160 + n = _
    omega

/-- The record of the run goes back to its start, and all its states have their data. -/
theorem stakedRun_states (n : ℕ) : (∃ s ∈ (stakedRun n).states, s.height = 159) ∧
      ∀ s ∈ (stakedRun n).states, s.onlyLoadedQuorums = false := by
  induction n with
  | zero => exact ⟨⟨_, mem_singleton_self _, rfl⟩, by simp [stakedRun, Recorded.start]⟩
  | succ n ih =>
    obtain ⟨⟨s, hs, hheight⟩, hfull⟩ := ih
    refine ⟨⟨s, mem_cons_of_mem _ hs, hheight⟩, ?_⟩
    intro t ht
    rcases mem_cons.mp ht with rfl | ht
    · rw [processBlock_state (show 16 ≤ 16 from le_rfl), (updateFromBlock_header _ _ _).2.2]
      refine hfull (stakedRun n).list.state ?_
      rw [(stakedRun_reachable n).exact.states_eq]
      exact mem_cons_self
    · exact hfull t ht

theorem mem_dropWhile_of_neg {p : State → Bool} {s : State} (hs : s ∈ states)
    (hp : ¬p s = true) : s ∈ states.dropWhile p := by
  rw [← takeWhile_append_dropWhile (p := p) (l := states), mem_append] at hs
  exact hs.resolve_left fun htake => hp (mem_takeWhile_imp htake)

theorem stakedRun_keptFrom (n : ℕ) : (stakedRun (n + 1)).keptFrom = n - 200 + 1 := by
  induction n with
  | zero => rfl
  | succ n ih =>
    change max (stakedRun (n + 1)).keptFrom
      (min (shortTermStateCullHeight (160 + (n + 1)) + 1) (stakedRun (n + 1)).list.state.height) = _
    rw [ih, stakedRun_height, shortTermStateCullHeight_eq]
    omega

theorem stakedRun_allowed {n height : ℕ} (hkept : (stakedRun n).keptFrom < height)
    (hstart : 159 < height) (hbelow : height < 160 + n) :
    (stakedRun n).Allowed (.detach stakedChain height) := by
  obtain ⟨⟨s₀, hs₀, hheight₀⟩, hfull⟩ := stakedRun_states n
  have hlt : height - 1 < (stakedRun n).list.state.height := by
    rw [stakedRun_height]
    omega
  obtain ⟨s, hs, -, hfind⟩ := (stakedRun_reachable n).exact.find?_history
    (Nat.le_sub_one_of_lt hkept) hlt ⟨s₀, hs₀, by omega⟩
  exact ⟨by omega, s, hfind, hfull s hs⟩

end Sample

theorem stakedRun_detach :
    ∃ s ∈ (stakedRun 3).states, s.height = 160 ∧
      ((stakedRun 3).list.blockchainDetached sampleEnv stakedChain 161).state = s :=
  (shallow_reorg_exact sampleEnv (stakedRun 3) (stakedRun_reachable 3)).1 stakedChain 161
    (stakedRun_allowed (by rw [stakedRun_keptFrom]; omega) (by omega) (by omega))

/-- A run that has culled the state at 161 goes back to 519, and a block 520 comes. -/
theorem exists_gap_of_keptFrom (hrun : Recorded.Reachable sampleEnv r) (hkept : r.keptFrom = 162)
    (hallowed : r.Allowed (.detach stakedChain 520)) (hstart : ∃ s ∈ r.states, s.height = 159) :
    ∃ r, Recorded.Reachable sampleEnv r ∧ r.Allowed (.process stakedChain (stakedBlock 520)) ∧
      shortTermStateCullHeight 520 < 161 ∧
      161 < (r.apply sampleEnv (.process stakedChain (stakedBlock 520))).list.state.height ∧
      (∃ s ∈ (r.apply sampleEnv (.process stakedChain (stakedBlock 520))).states, s.height = 161) ∧
      (r.apply sampleEnv (.process stakedChain (stakedBlock 520))).list.stateHistory.find? 161 =
        none := by
  obtain ⟨s₀, hs₀, hheight₀⟩ := hstart
  have hreachable := Recorded.Reachable.step _ hrun hallowed
  obtain ⟨-, t, hfind, hfull⟩ := hallowed
  have hheight : (r.list.blockchainDetached sampleEnv stakedChain 520).state.height = 519 := by
    rw [(blockchainDetached_of_history hfind hfull).1]
    exact (OrderedTable.find?_eq_some.mp hfind).2
  have hprocess : (r.apply sampleEnv (.detach stakedChain 520)).Allowed
      (.process stakedChain (stakedBlock 520)) := by
    refine ⟨?_, le_rfl⟩
    change 520 = (r.list.blockchainDetached sampleEnv stakedChain 520).state.height + 1
    rw [hheight]
  have hexact := (Recorded.Reachable.step _ hreachable hprocess).exact
  have htop : ((r.apply sampleEnv (.detach stakedChain 520)).apply sampleEnv
      (.process stakedChain (stakedBlock 520))).list.state.height = 520 := by
    change (processBlock sampleEnv stakedChain _ (stakedBlock 520)).state.height = 520
    rw [processBlock_state (show 16 ≤ 16 from le_rfl), updateFromBlock_height]
    exact congrArg (· + 1) hheight
  refine ⟨_, hreachable, hprocess, by decide, by rw [htop]; decide, ?_, ?_⟩
  · refine exists_height_of_consecutive hexact.consecutive (fun s hs => ?_) ?_ <;>
      grind [Recorded.apply, mem_dropWhile_of_neg]
  · grind [Recorded.apply, OrderedTable.find?_eq_none.mpr, hexact.history]

/-- Blocks 160 to 521 are added, then the chain goes back to 519 and a block 520 comes.
Its cull height is 160, but the state after block 161 was culled before. -/
theorem stakedRun_gap :
    ∃ r, Recorded.Reachable sampleEnv r ∧ r.Allowed (.process stakedChain (stakedBlock 520)) ∧
      shortTermStateCullHeight 520 < 161 ∧
      161 < (r.apply sampleEnv (.process stakedChain (stakedBlock 520))).list.state.height ∧
      (∃ s ∈ (r.apply sampleEnv (.process stakedChain (stakedBlock 520))).states, s.height = 161) ∧
      (r.apply sampleEnv (.process stakedChain (stakedBlock 520))).list.stateHistory.find? 161 =
        none := by
  have hkept : (stakedRun 362).keptFrom = 162 := stakedRun_keptFrom 361
  refine exists_gap_of_keptFrom (stakedRun_reachable 362) hkept ?_ (stakedRun_states 362).1
  exact stakedRun_allowed (by omega) (by omega) (by omega)

end Arqma.ServiceNodes
