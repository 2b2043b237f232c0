import Arqma.Replay

/-!
# The first pass over a chain

The list of a node that has processed the blocks of a chain in order, and what its
history and its archive hold of the states on the way.
-/
namespace Arqma.ServiceNodes
open Arqma.Cryptonote List ServiceNodeList Arqma.ServiceNodes.Chain

variable {s : State} {b : ChainBlock} {top : ℕ}

/-- Blocks know their heights, and the service node rules hold from their fork on. -/
structure Chain.Valid (chain : Chain) : Prop where
  heights : ∀ h b, chain.blocks[h]? = some b → getBlockHeight b.block = h
  versions : ∀ h, chain.hardFork16FromHeight ≤ h → 16 ≤ chain.hardForkVersion h
  positive : 1 ≤ chain.hardFork16FromHeight

/-- The list before the first block of the service node rules. -/
def Chain.startView (chain : Chain) : View :=
  ({ height := chain.hardFork16FromHeight - 1 }, OrderedTable.empty)

/-- State and history after the blocks below a height, processed in order. -/
def Chain.viewAt (env : Env) (chain : Chain) (height : ℕ) : View :=
  replay env chain.startView ((chain.blocks.take height).drop chain.hardFork16FromHeight)

/-- The list after all blocks of the chain, processed in order. -/
def ServiceNodeList.firstPass (env : Env) (chain : Chain) (l : ServiceNodeList) :
    ServiceNodeList :=
  (chain.blocks.drop chain.hardFork16FromHeight).foldl (processBlock env chain)
    (l.reset chain true)

section FirstPass

variable {env : Env} {chain : Chain}

variable {height : ℕ} {bs : List ChainBlock} {l : ServiceNodeList}

theorem Chain.Valid.versions_drop (h : chain.Valid)
    (hheight : chain.hardFork16FromHeight ≤ height) :
    ∀ b ∈ chain.blocks.drop height, 16 ≤ chain.hardForkVersion (getBlockHeight b.block) := by
  intro b hb
  obtain ⟨i, hi⟩ := mem_iff_getElem?.mp hb
  rw [getElem?_drop] at hi
  rw [h.heights _ _ hi]
  exact h.versions _ (by omega)

theorem Below.replay {v : View} (h : Below v) (env : Env) (bs : List ChainBlock) :
    Below (replay env v bs) := by
  induction bs generalizing v with
  | nil => exact h
  | cons b bs ih => exact ih (h.advance env b)

theorem Chain.below_viewAt (env : Env) (chain : Chain) (height : ℕ) :
    Below (chain.viewAt env height) := by
  refine Below.replay (fun s hs => ?_) env _
  simp [startView] at hs

theorem Chain.viewAt_height (hlow : chain.hardFork16FromHeight ≤ height)
    (hpositive : 1 ≤ chain.hardFork16FromHeight) (hhigh : height ≤ chain.blocks.length) :
    (chain.viewAt env height).1.height + 1 = height := by
  rw [viewAt, replay_height, length_drop, List.length_take]
  simp only [startView]
  omega

/-- The blocks below a height continue those below an earlier one. -/
theorem drop_take_append {α : Type*} (l : List α) {a b c : ℕ} (hab : a ≤ b) (hbc : b ≤ c)
    (hc : b ≤ l.length) : (l.take c).drop a = (l.take b).drop a ++ (l.take c).drop b := by
  grind [take_append_drop]

theorem Chain.viewAt_eq_replay {low : ℕ} (hlow : chain.hardFork16FromHeight ≤ low)
    (hle : low ≤ height) (hlength : low ≤ chain.blocks.length) :
    chain.viewAt env height =
      replay env (chain.viewAt env low) ((chain.blocks.take height).drop low) := by
  rw [viewAt, drop_take_append _ hlow hle hlength, replay_append]
  rfl

/-- A list coupled with the first pass at a height stays coupled over the blocks after it. -/
theorem Chain.coupled_replay {lo low : ℕ} {w : View} (hlow : chain.hardFork16FromHeight ≤ low)
    (hle : low ≤ height) (hlength : height ≤ chain.blocks.length)
    (h : Coupled lo (chain.viewAt env low) w)
    (hrefers : ∀ k b, low ≤ k → k < height → chain.blocks[k]? = some b →
      RefersFrom env lo ((chain.viewAt env k).historyFor b) b) :
    Coupled lo (chain.viewAt env height) (replay env w ((chain.blocks.take height).drop low)) := by
  rw [viewAt_eq_replay hlow hle (by omega)]
  refine h.replay fun i b hb => ?_
  rw [getElem?_drop, getElem?_take] at hb
  split_ifs at hb with hi
  have hview := hrefers (low + i) b (by omega) hi hb
  rw [viewAt_eq_replay hlow (by omega) (by omega), drop_take, Nat.add_sub_cancel_left] at hview
  rwa [drop_take, take_take, Nat.min_eq_left (by omega)]

/-- What the culls leave of the states of a replay, in the history and in the archive. -/
def FromReplay (env : Env) (v : View) (bs : List ChainBlock) (l : ServiceNodeList) : Prop :=
  l.view = replay env v bs ∧
  (∀ s ∈ l.stateHistory.rows, ∃ n ≤ bs.length, s = (replay env v (bs.take n)).1) ∧
  ∀ s ∈ l.stateArchive.rows, ∃ n ≤ bs.length, s = ServiceNodeList.archived
    (replay env v (bs.take n)).1

theorem FromReplay.processBlock {v : View} (h : FromReplay env v bs l) (hbelow : Below v)
    (h16 : 16 ≤ chain.hardForkVersion (getBlockHeight b.block)) :
    FromReplay env v (bs ++ [b]) (l.processBlock env chain b) := by
  obtain ⟨hview, hhistory, harchive⟩ := h
  have hearlier : ∀ n ≤ bs.length, n ≤ (bs ++ [b]).length ∧ (bs ++ [b]).take n = bs.take n := by
    intro n hn
    exact ⟨by rw [length_append]; omega, take_append_of_le_length hn⟩
  have hbelow' : Below l.view := hview ▸ hbelow.replay env bs
  refine ⟨?_, ?_, ?_⟩
  · rw [view_processBlock h16, hview, replay_append]
    rfl
  · intro s hs
    rw [processBlock_stateHistory h16, hbelow'.mem_historyFor] at hs
    rcases hs with rfl | ⟨hrow, -⟩
    · refine ⟨bs.length, (hearlier _ le_rfl).1, ?_⟩
      rw [(hearlier _ le_rfl).2, take_length, hview]
    · obtain ⟨n, hn, rfl⟩ := hhistory s hrow
      exact ⟨n, (hearlier n hn).1, by rw [(hearlier n hn).2]⟩
  · intro s hs
    rw [processBlock_stateArchive h16] at hs
    rcases OrderedTable.mem_of_mem_foldl_insert hs with ⟨t, ht, rfl⟩ | hrow
    · grind
    · obtain ⟨n, hn, rfl⟩ := harchive s hrow
      exact ⟨n, (hearlier n hn).1, by rw [(hearlier n hn).2]⟩

theorem fromReplay_foldl (hhistory : l.stateHistory = OrderedTable.empty)
    (harchive : l.stateArchive = OrderedTable.empty)
    (h16 : ∀ b ∈ bs, 16 ≤ chain.hardForkVersion (getBlockHeight b.block)) :
    FromReplay env l.view bs (bs.foldl (ServiceNodeList.processBlock env chain) l) := by
  have hbelow : Below l.view := fun s hs => by simp [ServiceNodeList.view, hhistory] at hs
  induction bs using List.reverseRecOn with
  | nil => exact ⟨rfl, by simp [hhistory], by simp [harchive]⟩
  | append_singleton bs b ih =>
    rw [foldl_append]
    exact (ih fun c hc => h16 c (mem_append_left _ hc)).processBlock hbelow
      (h16 b (by simp))

theorem Chain.Valid.fromReplay (h : chain.Valid) (env : Env) (l : ServiceNodeList) :
    FromReplay env chain.startView (chain.blocks.drop chain.hardFork16FromHeight)
      (l.firstPass env chain) :=
  fromReplay_foldl rfl rfl (h.versions_drop le_rfl)

theorem Chain.eq_viewAt_of_replay (hpositive : 1 ≤ chain.hardFork16FromHeight) {n : ℕ}
    (hn : n ≤ (chain.blocks.drop chain.hardFork16FromHeight).length)
    (hs : s = (replay env chain.startView
      ((chain.blocks.drop chain.hardFork16FromHeight).take n)).1) :
    chain.hardFork16FromHeight ≤ s.height + 1 ∧ s = (chain.viewAt env (s.height + 1)).1 := by
  have hheight : s.height + 1 = chain.hardFork16FromHeight + n := by
    rw [hs, replay_height, List.length_take, Nat.min_eq_left hn]
    simp only [startView]
    omega
  refine ⟨by omega, ?_⟩
  rw [viewAt, drop_take, hheight, Nat.add_sub_cancel_left]
  exact hs

theorem Chain.Valid.state_of_history (h : chain.Valid)
    (hs : s ∈ (l.firstPass env chain).stateHistory.rows) :
    chain.hardFork16FromHeight ≤ s.height + 1 ∧ s = (chain.viewAt env (s.height + 1)).1 := by
  obtain ⟨n, hn, hs⟩ := (h.fromReplay env l).2.1 s hs
  exact eq_viewAt_of_replay h.positive hn hs

theorem Chain.Valid.state_of_archive (h : chain.Valid)
    (hs : s ∈ (l.firstPass env chain).stateArchive.rows) (hfull : s.onlyLoadedQuorums = false) :
    chain.hardFork16FromHeight ≤ s.height + 1 ∧ s = (chain.viewAt env (s.height + 1)).1 := by
  obtain ⟨n, hn, hs⟩ := (h.fromReplay env l).2.2 s hs
  refine eq_viewAt_of_replay h.positive hn ?_
  unfold ServiceNodeList.archived at hs
  split_ifs at hs
  · rw [hs] at hfull
    cases hfull
  · exact hs

theorem Chain.viewAt_start (env : Env) (chain : Chain) :
    chain.viewAt env chain.hardFork16FromHeight = chain.startView := by
  rw [viewAt, drop_eq_nil_of_le (length_take_le _ _)]
  rfl

theorem Chain.viewAt_succ (hlow : chain.hardFork16FromHeight ≤ height)
    (hb : chain.blocks[height]? = some b) :
    chain.viewAt env (height + 1) = advance env (chain.viewAt env height) b := by
  obtain ⟨hlength, rfl⟩ := List.getElem?_eq_some_iff.mp hb
  have hlast : (chain.blocks.take (height + 1)).drop height = [chain.blocks[height]] := by
    rw [List.take_succ_eq_append_getElem hlength, List.drop_left' (by rw [List.length_take]; omega)]
  rw [viewAt_eq_replay hlow (Nat.le_succ _) hlength.le, hlast]
  rfl

theorem ServiceNodeList.firstPass_view (h : chain.Valid) (l : ServiceNodeList) :
    (l.firstPass env chain).view = chain.viewAt env chain.blocks.length := by
  rw [firstPass, view_foldl (h.versions_drop le_rfl), viewAt, take_length]
  rfl

theorem replay_onlyLoadedQuorums (v : View) (bs : List ChainBlock) :
    (replay env v bs).1.onlyLoadedQuorums = v.1.onlyLoadedQuorums := by
  induction bs generalizing v with
  | nil => rfl
  | cons b bs ih =>
    refine (ih _).trans ?_
    exact (updateFromBlock_header env v.1 b.txs).2.2

theorem Chain.Valid.cull_lt (h : chain.Valid)
    (hb : chain.blocks[top]? = some b) (hkept : top < height + 360) (hpos : 0 < height) :
    shortTermStateCullHeight (getBlockHeight b.block) < height := by
  rw [h.heights _ _ hb, shortTermStateCullHeight_eq]
  omega

/-- A state stays in the history until it is culled. -/
theorem Chain.Valid.mem_viewAt_history (h : chain.Valid)
    (hlow : chain.hardFork16FromHeight ≤ height) (hpos : 1 < height) (hlt : height < top)
    (htop : top ≤ chain.blocks.length) (hkept : top < height + 360) :
    (chain.viewAt env height).1 ∈ (chain.viewAt env top).2.rows := by
  induction top, hlt using Nat.le_induction with
  | base =>
    obtain ⟨b, hb⟩ : ∃ b, chain.blocks[height]? = some b := ⟨_, getElem?_eq_getElem (by omega)⟩
    rw [viewAt_succ hlow hb]
    exact (chain.below_viewAt env height).mem_historyFor.mpr (Or.inl rfl)
  | succ top hlt ih =>
    have hheight : (chain.viewAt env height).1.height + 1 = height :=
      viewAt_height hlow h.positive (by omega)
    obtain ⟨b, hb⟩ : ∃ b, chain.blocks[top]? = some b := ⟨_, getElem?_eq_getElem (by omega)⟩
    rw [viewAt_succ (by omega) hb]
    refine (chain.below_viewAt env top).mem_historyFor.mpr (Or.inr ⟨ih (by omega) (by omega), ?_⟩)
    exact h.cull_lt hb (by omega) (by omega)

/-- States more than the length of the history behind the top are gone from it. -/
theorem Chain.Valid.find?_viewAt_history (h : chain.Valid)
    (hlow : chain.hardFork16FromHeight ≤ top) (htop : top < chain.blocks.length)
    (hgone : height + 360 ≤ top) : (chain.viewAt env (top + 1)).2.find? height = none := by
  obtain ⟨b, hb⟩ : ∃ b, chain.blocks[top]? = some b := ⟨_, getElem?_eq_getElem htop⟩
  have hheight : (chain.viewAt env top).1.height + 1 = top := viewAt_height hlow h.positive htop.le
  rw [viewAt_succ hlow hb]
  refine OrderedTable.find?_eq_none.mpr fun s hs hs' => ?_
  rcases (chain.below_viewAt env top).mem_historyFor.mp hs with rfl | ⟨-, hcull⟩
  · omega
  · rw [h.heights _ _ hb, shortTermStateCullHeight_eq] at hcull
    omega

/-- What the list has archived after some blocks it keeps. -/
theorem isSome_archive_foldl (h16 : ∀ b ∈ bs, 16 ≤ chain.hardForkVersion (getBlockHeight b.block))
    (h : (l.stateArchive.find? height).isSome) :
    ((bs.foldl (ServiceNodeList.processBlock env chain) l).stateArchive.find? height).isSome := by
  induction bs generalizing l with
  | nil => exact h
  | cons b bs ih =>
    refine ih (fun c hc => h16 c (mem_cons_of_mem _ hc)) ?_
    rw [processBlock_stateArchive (h16 b mem_cons_self)]
    exact OrderedTable.isSome_find?_foldl_insert (Or.inl h)

theorem archived_of_interval (h : s.height % storeLongTermStateInterval = 0) :
    ServiceNodeList.archived s = s := by
  have hneed : ServiceNodeList.needQuorumForFutureStates s.height = false := by
    have hinterval : storeLongTermStateInterval = 10000 := rfl
    have hlifetime : voteLifetime + voteOrTxVerifyHeightBuffer = 65 := rfl
    simp only [ServiceNodeList.needQuorumForFutureStates, hinterval, hlifetime,
      decide_eq_false_iff_not, not_le] at h ⊢
    omega
  rw [ServiceNodeList.archived, hneed]
  rfl

theorem Chain.Valid.isSome_archive (h : chain.Valid) (env : Env) (l : ServiceNodeList)
    (hlow : chain.hardFork16FromHeight ≤ height + 1) (hpos : 0 < height)
    (hinterval : height % storeLongTermStateInterval = 0)
    (hculled : height + 360 < chain.blocks.length) :
    ((l.firstPass env chain).stateArchive.find? height).isSome := by
  have hheight : (chain.viewAt env (height + 1)).1.height + 1 = height + 1 :=
    viewAt_height hlow h.positive (by omega)
  have hsplit : chain.blocks.drop chain.hardFork16FromHeight =
      (chain.blocks.take (height + 360)).drop chain.hardFork16FromHeight ++
        chain.blocks[height + 360] :: chain.blocks.drop (height + 361) := by
    rw [← drop_eq_getElem_cons hculled]
    simpa only [take_length] using
      drop_take_append chain.blocks (c := chain.blocks.length) (by omega) hculled.le hculled.le
  have h16 := h.versions_drop le_rfl
  rw [ServiceNodeList.firstPass, hsplit, foldl_append, foldl_cons]
  rw [hsplit] at h16
  generalize hl' : ((chain.blocks.take (height + 360)).drop chain.hardFork16FromHeight).foldl
    (ServiceNodeList.processBlock env chain) (l.reset chain true) = l'
  have hview : l'.view = chain.viewAt env (height + 360) := by
    rw [← hl', view_foldl fun b hb => h16 b (mem_append_left _ hb)]
    rfl
  have hrow : (chain.viewAt env (height + 1)).1 ∈ l'.stateHistory.rows := by
    change _ ∈ l'.view.2.rows
    rw [hview]
    exact h.mem_viewAt_history hlow (by omega) (by omega) hculled.le (by omega)
  refine isSome_archive_foldl (fun b hb => h16 b (mem_append_right _
    (mem_cons_of_mem _ hb))) ?_
  rw [processBlock_stateArchive (h16 _ (mem_append_right _ mem_cons_self))]
  refine OrderedTable.isSome_find?_foldl_insert
    (Or.inr ⟨(chain.viewAt env (height + 1)).1, ?_, ?_⟩)
  · grind [h.heights _ _ (getElem?_eq_getElem hculled), shortTermStateCullHeight_eq,
      ServiceNodeList.goesToArchive]
  · rw [archived_height]
    omega

/-- Every long term state is archived in full once it is culled. -/
theorem Chain.Valid.find?_archive (h : chain.Valid) (l : ServiceNodeList)
    (hlow : chain.hardFork16FromHeight ≤ height + 1) (hpos : 0 < height)
    (hinterval : height % storeLongTermStateInterval = 0)
    (hculled : height + 360 < chain.blocks.length) :
    (l.firstPass env chain).stateArchive.find? height = some (chain.viewAt env (height + 1)).1 ∧
      (chain.viewAt env (height + 1)).1.onlyLoadedQuorums = false := by
  have hfull : (chain.viewAt env (height + 1)).1.onlyLoadedQuorums = false :=
    replay_onlyLoadedQuorums _ _
  refine ⟨?_, hfull⟩
  obtain ⟨s, hs⟩ := Option.isSome_iff_exists.mp (h.isSome_archive env l hlow hpos hinterval hculled)
  obtain ⟨hrow, hsheight⟩ := OrderedTable.find?_eq_some.mp hs
  obtain ⟨n, -, harchived⟩ := (h.fromReplay env l).2.2 s hrow
  have hsfull : s.onlyLoadedQuorums = false := by
    have hn := congrArg State.height harchived
    rw [archived_height] at hn
    rw [harchived, archived_of_interval (by rw [← hn, hsheight, hinterval])]
    exact replay_onlyLoadedQuorums _ _
  rw [hs, (h.state_of_archive hrow hsfull).2, hsheight]

end FirstPass

section Sample

/-- The hard forks of the stagenet from the service node rules on. -/
def stagenetVersion (height : ℕ) : ℕ :=
  if height < 160 then 15
  else if height < 180 then 16
  else if height < 200 then 17
  else if height < 220 then 18
  else if height < 240 then 19
  else if height < 260 then 20
  else 21

def stagenetBlock (txs : ℕ → List Transaction) (height : ℕ) : ChainBlock :=
  ⟨sampleBlock (stagenetVersion height) height, txs height⟩

def stagenetChain (txs : ℕ → List Transaction) (length : ℕ) : Chain where
  blocks := (List.range length).map (stagenetBlock txs)
  hardForkVersion := stagenetVersion
  currentHardForkVersion := stagenetVersion length
  hardFork16FromHeight := 160
  immutableCheckpoint _ := none

variable {txs : ℕ → List Transaction} {length : ℕ}

@[simp] theorem stagenetChain_length : (stagenetChain txs length).blocks.length = length := by
  simp [stagenetChain]

variable {height : ℕ}

theorem stagenetChain_getElem? (h : height < length) :
    (stagenetChain txs length).blocks[height]? = some (stagenetBlock txs height) := by
  simp [stagenetChain, h]

theorem stagenetVersion_ge (h : 160 ≤ height) : 16 ≤ stagenetVersion height := by
  unfold stagenetVersion
  split_ifs <;> omega

theorem stagenetChain_valid (txs : ℕ → List Transaction) (length : ℕ) :
    (stagenetChain txs length).Valid where
  heights h b hb := by
    have hlt : h < length := by
      have := (List.getElem?_eq_some_iff.mp hb).1
      rwa [stagenetChain_length] at this
    rw [stagenetChain_getElem? hlt] at hb
    rw [← Option.some.inj hb]
    rfl
  versions h hh := stagenetVersion_ge hh
  positive := (by decide : 1 ≤ 160)

theorem stagenetChain_viewAt_start (env : Env) :
    (stagenetChain txs length).viewAt env 160 = ({ height := 159 }, OrderedTable.empty) :=
  viewAt_start env (stagenetChain txs length)

theorem stagenetChain_viewAt_succ {env : Env} (hlow : 160 ≤ height) (h : height < length) :
    (stagenetChain txs length).viewAt env (height + 1) =
      advance env ((stagenetChain txs length).viewAt env height) (stagenetBlock txs height) :=
  viewAt_succ hlow (stagenetChain_getElem? h)

/-- Between two heights without transactions the nodes stay as they are. -/
theorem stagenetChain_quiet {low : ℕ} (hlow : 160 ≤ low) (hle : low ≤ height)
    (hheight : height ≤ length) (hquiet : ∀ h, low ≤ h → h < height → txs h = [])
    (hlasting : Lasting ((stagenetChain txs length).viewAt sampleEnv low).1.serviceNodesInfos) :
    ((stagenetChain txs length).viewAt sampleEnv height).1.serviceNodesInfos =
      ((stagenetChain txs length).viewAt sampleEnv low).1.serviceNodesInfos := by
  have hbelow := (stagenetChain txs length).below_viewAt sampleEnv low
  rw [viewAt_eq_replay hlow hle (by rw [stagenetChain_length]; omega)]
  refine hlasting.replay hbelow.window ?_
  intro b hb
  obtain ⟨i, hi⟩ := mem_iff_getElem?.mp hb
  rw [getElem?_drop, getElem?_take] at hi
  split_ifs at hi with hlt
  rw [stagenetChain_getElem? (by omega)] at hi
  rw [← Option.some.inj hi]
  refine ⟨rfl, ?_⟩
  simp [stagenetBlock, hquiet (low + i) (by omega) hlt]

end Sample

end Arqma.ServiceNodes
