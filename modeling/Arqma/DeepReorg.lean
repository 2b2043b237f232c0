import Arqma.FirstPass

/-!
# Going back to an archived state

When the state to go back to is no longer in the history, the list continues from
the archived state before it and rescans the blocks in between. The history is empty
then, so a state change that refers to a quorum from before the archived state finds
none. The rescan gives the original states as long as no such state change was
vouched for originally.
-/
namespace Arqma.ServiceNodes
open Arqma.Cryptonote List

variable {s : State} {l : ServiceNodeList}

section Detach

variable {env : Env} {chain popped : Chain} {height interval : ℕ}

structure Chain.PoppedTo (chain : Chain) (height : ℕ) (popped : Chain) : Prop where
  blocks : popped.blocks = chain.blocks.take height
  versions : ∀ h < height, popped.hardForkVersion h = chain.hardForkVersion h
  current : 16 ≤ popped.currentHardForkVersion

/-- The rescan of the blocks between an archived state and a height. -/
def Chain.rescanned (env : Env) (chain : Chain) (interval height : ℕ) : View :=
  replay env ((chain.viewAt env (interval + 1)).1, OrderedTable.empty)
    ((chain.blocks.take height).drop (interval + 1))

/-- No state change of a rescanned block that refers to a height before the archived
state was vouched for when the block was first processed. -/
def Chain.RefersFrom (env : Env) (chain : Chain) (interval height : ℕ) : Prop :=
  ∀ k b, interval < k → k < height → chain.blocks[k]? = some b →
    ServiceNodes.RefersFrom env interval ((chain.viewAt env k).historyFor b) b

/-- The rescan decides on every state change as the first pass did. -/
def Chain.KeepsVerdicts (env : Env) (chain : Chain) (interval height : ℕ) : Prop :=
  ∀ k b, interval < k → k < height → chain.blocks[k]? = some b →
    SameVerdicts env ((chain.rescanned env interval k).historyFor b)
      ((chain.viewAt env k).historyFor b) b

theorem window_of_snapshot (h : interval ≤ s.height) : Window interval (s, OrderedTable.empty) :=
  ⟨fun t ht => by simp at ht, h, fun t ht => by simp at ht⟩

theorem Chain.coupled_rescanned (hvalid : chain.Valid)
    (hlow : chain.hardFork16FromHeight ≤ interval + 1) (hle : interval + 1 ≤ height)
    (hlength : height ≤ chain.blocks.length) (hrefers : chain.RefersFrom env interval height) :
    Coupled interval (chain.viewAt env height) (chain.rescanned env interval height) := by
  have hheight : (chain.viewAt env (interval + 1)).1.height + 1 = interval + 1 :=
    Chain.viewAt_height hlow hvalid.positive (by omega)
  have hbelow := chain.below_viewAt env (interval + 1)
  have hstart : Coupled interval (chain.viewAt env (interval + 1))
      ((chain.viewAt env (interval + 1)).1, OrderedTable.empty) := by
    refine ⟨rfl, hbelow, window_of_snapshot (by omega), ?_⟩
    intro j hj
    have hnone : (chain.viewAt env (interval + 1)).2.find? j = none := by
      refine OrderedTable.find?_eq_none.mpr fun s hs hs' => ?_
      have := hbelow s hs
      omega
    rw [testingAt, testingAt, obligationsAt, obligationsAt, hnone]
    rfl
  exact Chain.coupled_replay hlow hle hlength hstart fun k b hk hkh hb =>
    hrefers k b (by omega) hkh hb

theorem Chain.RefersFrom.mono (h : chain.RefersFrom env interval height) {k : ℕ} (hk : k ≤ height) :
    chain.RefersFrom env interval k :=
  fun j b hj hjk hb => h j b hj (hjk.trans_le hk) hb

theorem Chain.keepsVerdicts_iff (hvalid : chain.Valid)
    (hlow : chain.hardFork16FromHeight ≤ interval + 1) (hlength : height ≤ chain.blocks.length) :
    chain.KeepsVerdicts env interval height ↔ chain.RefersFrom env interval height := by
  constructor
  · intro hkeeps k b hk hkh hb tx htx htype stateChange hextra hbefore
    rw [← hkeeps k b hk hkh hb tx htx htype stateChange hextra]
    have hheight : (chain.viewAt env (interval + 1)).1.height + 1 = interval + 1 :=
      Chain.viewAt_height hlow hvalid.positive (by omega)
    exact ((window_of_snapshot (by omega)).replay env _).vouchingQuorum_eq_none env b hbefore
  · intro hrefers k b hk hkh hb
    exact (Chain.coupled_rescanned hvalid hlow hk (by omega) (hrefers.mono hkh.le)).sameVerdicts
      (hrefers k b hk hkh hb)

theorem blockchainDetached_of_archive
    (hgone : l.stateHistory.find? (height - 1) = none)
    (hs : l.stateArchive.find? (height - 1 - (height - 1) % storeLongTermStateInterval) = some s)
    (hfull : s.onlyLoadedQuorums = false) (hcurrent : 16 ≤ popped.currentHardForkVersion)
    (hlength : popped.blocks.length = height)
    (h16 : ∀ b ∈ popped.blocks.drop (s.height + 1),
      16 ≤ popped.hardForkVersion (getBlockHeight b.block)) :
    (l.blockchainDetached env popped height).view =
      replay env (s, OrderedTable.empty) (popped.blocks.drop (s.height + 1)) := by
  have hfilter : (l.stateArchive.find? (height - 1 - (height - 1) %
      storeLongTermStateInterval)).filter (fun s => !s.onlyLoadedQuorums) = some s := by
    simp [hs, hfull]
  simp only [ServiceNodeList.blockchainDetached, hgone, Option.filter_none, hfilter,
    ServiceNodeList.revertTo, ServiceNodeList.view_store]
  split_ifs with hrescan
  · exact rescan_view _ hcurrent h16
  · rw [drop_eq_nil_of_le (by simp only [ne_eq, not_not] at hrescan; omega)]
    rfl

theorem Chain.Valid.blockchainDetached_view (hvalid : chain.Valid)
    (hpopped : chain.PoppedTo height popped) (hheight : height ≤ chain.blocks.length)
    (hgone : (l.firstPass env chain).stateHistory.find? (height - 1) = none)
    (hs : (l.firstPass env chain).stateArchive.find?
      (height - 1 - (height - 1) % storeLongTermStateInterval) = some s)
    (hfull : s.onlyLoadedQuorums = false) :
    ((l.firstPass env chain).blockchainDetached env popped height).view =
      chain.rescanned env (height - 1 - (height - 1) % storeLongTermStateInterval) height := by
  obtain ⟨hrow, hinterval⟩ := OrderedTable.find?_eq_some.mp hs
  obtain ⟨hlow, hstate⟩ := hvalid.state_of_archive hrow hfull
  have hlength : popped.blocks.length = height := by
    rw [hpopped.blocks, length_take]
    omega
  have h16 : ∀ b ∈ popped.blocks.drop (s.height + 1),
      16 ≤ popped.hardForkVersion (getBlockHeight b.block) := by
    intro b hb
    obtain ⟨i, hi⟩ := mem_iff_getElem?.mp hb
    rw [getElem?_drop, hpopped.blocks, getElem?_take] at hi
    split_ifs at hi with hlt
    rw [hvalid.heights _ _ hi, hpopped.versions _ hlt]
    exact hvalid.versions _ (by omega)
  rw [blockchainDetached_of_archive hgone hs hfull hpopped.current hlength h16, ← hinterval,
    Chain.rescanned, ← hstate, ← hpopped.blocks]

end Detach

/-- A detach to an archived state decides on the state changes of the rescanned blocks
as the first pass did exactly when none of them that refers to a height before the
archived state was vouched for then, and in that case it ends in the original state. -/
theorem deep_reorg_iff (env : Env) (chain popped : Chain) (l : ServiceNodeList) (height : ℕ)
    (hvalid : chain.Valid) (hpopped : chain.PoppedTo height popped)
    (hheight : height ≤ chain.blocks.length) (hpos : 1 ≤ height)
    (hgone : (l.firstPass env chain).stateHistory.find? (height - 1) = none)
    (harchived : ∃ s, (l.firstPass env chain).stateArchive.find?
      (height - 1 - (height - 1) % storeLongTermStateInterval) = some s ∧
      s.onlyLoadedQuorums = false) :
    (chain.KeepsVerdicts env (height - 1 - (height - 1) % storeLongTermStateInterval) height ↔
      chain.RefersFrom env (height - 1 - (height - 1) % storeLongTermStateInterval) height) ∧
    (chain.RefersFrom env (height - 1 - (height - 1) % storeLongTermStateInterval) height →
      ((l.firstPass env chain).blockchainDetached env popped height).state =
        (chain.viewAt env height).1) := by
  obtain ⟨s, hs, hfull⟩ := harchived
  obtain ⟨hrow, hinterval⟩ := OrderedTable.find?_eq_some.mp hs
  obtain ⟨hlow, -⟩ := hvalid.state_of_archive hrow hfull
  have hview := hvalid.blockchainDetached_view hpopped hheight hgone hs hfull
  rw [← hinterval] at hview ⊢
  refine ⟨Chain.keepsVerdicts_iff hvalid hlow hheight, fun hrefers => ?_⟩
  have hcoupled := Chain.coupled_rescanned hvalid hlow (by omega) hheight hrefers
  exact (congrArg Prod.fst hview).trans hcoupled.state

section Sample

variable {length : ℕ}

theorem stagenetChain_poppedTo (txs : ℕ → List Transaction) {height : ℕ} (hlow : 160 ≤ height)
    (hlength : height ≤ length) :
    (stagenetChain txs length).PoppedTo height (stagenetChain txs height) where
  blocks := by
    simp only [stagenetChain, ← map_take, take_range]
    rw [Nat.min_eq_left hlength]
  versions _ _ := rfl
  current := stagenetVersion_ge hlow

theorem stagenetChain_archived (txs : ℕ → List Transaction) (l : ServiceNodeList)
    (hlength : 10381 ≤ length) :
    (l.firstPass sampleEnv (stagenetChain txs length)).stateHistory.find? 10020 = none ∧
    (l.firstPass sampleEnv (stagenetChain txs length)).stateArchive.find? 10000 =
      some ((stagenetChain txs length).viewAt sampleEnv 10001).1 ∧
    ((stagenetChain txs length).viewAt sampleEnv 10001).1.onlyLoadedQuorums = false := by
  have hvalid := stagenetChain_valid txs length
  refine ⟨?_, hvalid.find?_archive l (show 160 ≤ 10001 by omega) (by omega) (by decide)
    (by rw [stagenetChain_length]; omega)⟩
  change (l.firstPass sampleEnv (stagenetChain txs length)).view.2.find? 10020 = none
  obtain ⟨top, rfl⟩ : ∃ top, length = top + 1 := ⟨length - 1, by omega⟩
  rw [ServiceNodeList.firstPass_view hvalid, stagenetChain_length]
  exact hvalid.find?_viewAt_history (show 160 ≤ top by omega)
    (by rw [stagenetChain_length]; omega) (by omega)

end Sample

/-- Eleven nodes are registered at height 160. Block 10002 deregisters the one that the quorum of
height 10000 tests, which is still there after the rescan. -/
def nearReference (height : ℕ) : List Transaction :=
  if height = 160 then (List.range' 1 11).map fullRegistration
  else if height = 10002 then [deregistrationTx 10000]
  else []

theorem nearReference_deep_reorg :
    ((ServiceNodeList.firstPass sampleEnv (stagenetChain nearReference 10401)
      {}).blockchainDetached sampleEnv (stagenetChain nearReference 10021) 10021).state =
      ((stagenetChain nearReference 10401).viewAt sampleEnv 10021).1 := by
  obtain ⟨hgone, hs, hfull⟩ := @stagenetChain_archived 10401 nearReference {} (by omega)
  refine (deep_reorg_iff sampleEnv _ _ {} 10021 (stagenetChain_valid _ 10401)
    (stagenetChain_poppedTo _ (by omega) (by omega)) (by rw [stagenetChain_length]; omega)
    (by omega) hgone ⟨_, hs, hfull⟩).2 ?_
  intro k b hk hkh hb tx htx _ stateChange hextra hlow
  simp only [storeLongTermStateInterval] at hk hlow
  rw [stagenetChain_getElem? (by omega)] at hb
  rw [← Option.some.inj hb, stagenetBlock, nearReference, if_neg (by omega)] at htx
  split_ifs at htx
  · obtain rfl := mem_singleton.mp htx
    obtain rfl := Option.some.inj hextra
    exact absurd hlow (by decide)
  · cases htx

section Sample

variable {length : ℕ}

/-- Eleven nodes are registered at height 160. Block 10001 deregisters the one that the
quorum of height 9999 tests. -/
def lateReference (height : ℕ) : List Transaction :=
  if height = 160 then (List.range' 1 11).map fullRegistration
  else if height = 10001 then [deregistrationTx 9999]
  else []

def elevenNodes : ServiceNodesInfos :=
  (advance sampleEnv ({ height := 159 }, OrderedTable.empty)
    (stagenetBlock lateReference 160)).1.serviceNodesInfos

theorem elevenNodes_lasting : Lasting elevenNodes where
  unlocks := by decide +kernel
  null := by decide +kernel

/-- The quorum of height 9999. -/
def testingQuorum : Quorum :=
  obligationsQuorum sampleEnv.rng { serviceNodesInfos := elevenNodes, blockHash := 9999 }

theorem testingQuorum_worker : testingQuorum.workers[0]? = some 10 ∧
    (verifyTxStateChange sampleEnv.crypto testingQuorum 21
      ⟨.deregister, 9999, 0, (List.range 4).map fun i => ⟨0, i⟩⟩ 10001).isOk = true := by
  decide +kernel

theorem lateReference_quiet {height : ℕ} (h₁ : height ≠ 160) (h₂ : height ≠ 10001) :
    lateReference height = [] := by
  simp [lateReference, h₁, h₂]

theorem lateReference_registered {height : ℕ} (hlow : 161 ≤ height) (hhigh : height ≤ 10001)
    (hlength : height ≤ length) :
    ((stagenetChain lateReference length).viewAt sampleEnv height).1.serviceNodesInfos =
      elevenNodes := by
  have hfirst : ((stagenetChain lateReference length).viewAt sampleEnv 161).1.serviceNodesInfos =
      elevenNodes := by
    rw [stagenetChain_viewAt_succ le_rfl (by omega), stagenetChain_viewAt_start]
    rfl
  grind [stagenetChain_quiet, lateReference_quiet, elevenNodes_lasting]

/-- The state of height 9999 has the testing quorum. -/
theorem lateReference_quorum (hlength : 10000 ≤ length) :
    ((stagenetChain lateReference length).viewAt sampleEnv 10000).1.quorums.obligations =
      some testingQuorum := by
  have hinfos := @lateReference_registered length 9999 (by omega) (by omega) (by omega)
  have hbelow := (stagenetChain lateReference length).below_viewAt sampleEnv 9999
  rw [stagenetChain_viewAt_succ (by omega) (by omega)]
  generalize (stagenetChain lateReference length).viewAt sampleEnv 9999 = v at hinfos hbelow
  have hquiet : QuietBlock 0 (stagenetBlock lateReference 9999) := by
    refine ⟨rfl, ?_⟩
    rw [stagenetBlock, lateReference_quiet (by omega) (by omega)]
    simp
  rw [Lasting.advance (hinfos ▸ elevenNodes_lasting) hbelow.window hquiet]
  have hquorum : obligationsQuorum sampleEnv.rng
      (startBlock v.1 (stagenetBlock lateReference 9999).block) =
      obligationsQuorum sampleEnv.rng
        { serviceNodesInfos := v.1.serviceNodesInfos, blockHash := 9999 } := rfl
  rw [hinfos] at hquorum
  exact congrArg some hquorum

theorem lateReference_vouched (hlength : 10001 ≤ length) : vouchingQuorum sampleEnv
      (((stagenetChain lateReference length).viewAt sampleEnv 10001).historyFor
        (stagenetBlock lateReference 10001)) (stagenetBlock lateReference 10001).block
      ⟨.deregister, 9999, 0, (List.range 4).map fun i => ⟨0, i⟩⟩ = some testingQuorum := by
  have hvalid := stagenetChain_valid lateReference length
  have hlength' : 10001 ≤ (stagenetChain lateReference length).blocks.length := by
    rwa [stagenetChain_length]
  have hrow := @Chain.Valid.mem_viewAt_history 10001 sampleEnv _ 10000 hvalid
    (show 160 ≤ 10000 by omega) (by omega) (by omega) hlength' (by omega)
  have hheight := @Chain.viewAt_height sampleEnv (stagenetChain lateReference length) 10001
    (show 160 ≤ 10001 by omega) hvalid.positive hlength'
  have hheight' := @Chain.viewAt_height sampleEnv (stagenetChain lateReference length) 10000
    (show 160 ≤ 10000 by omega) hvalid.positive (by omega)
  have hbelow := (stagenetChain lateReference length).below_viewAt sampleEnv 10001
  have hfind : ((stagenetChain lateReference length).viewAt sampleEnv 10001).2.find? 9999 =
      some ((stagenetChain lateReference length).viewAt sampleEnv 10000).1 :=
    OrderedTable.find?_eq_some.mpr ⟨hrow, by omega⟩
  have hcull : shortTermStateCullHeight (getBlockHeight
      (stagenetBlock lateReference 10001).block) < 9999 := by decide
  have hobligations := hbelow.obligationsAt_historyFor (stagenetBlock lateReference 10001) 9999
  rw [if_neg (by omega), if_pos hcull, obligationsAt, obligationsAt, hfind, Option.bind_some,
    lateReference_quorum (by omega)] at hobligations
  rw [vouchingQuorum, obligationsAt, hobligations, Option.filter_some]
  exact if_pos testingQuorum_worker.2

/-- The first pass deregisters node 10. -/
theorem lateReference_deregistered {height : ℕ} (hlow : 10002 ≤ height)
    (hlength : height ≤ length) :
    ((stagenetChain lateReference length).viewAt sampleEnv height).1.serviceNodesInfos.lookup 10 =
      none := by
  obtain ⟨info, hinfo⟩ : ∃ info, elevenNodes.lookup 10 = some info :=
    Option.isSome_iff_exists.mp (by decide +kernel)
  have hinfos := @lateReference_registered length 10001 (by omega) (by omega) (by omega)
  have hfirst : ((stagenetChain lateReference length).viewAt sampleEnv
      10002).1.serviceNodesInfos.lookup 10 = none := by
    rw [stagenetChain_viewAt_succ (by omega) (by omega)]
    refine Lasting.lookup_deregistered (hinfos ▸ elevenNodes_lasting) rfl rfl rfl rfl rfl
      (lateReference_vouched (by omega)) testingQuorum_worker.1 (hinfos ▸ hinfo)
  rw [Chain.viewAt_eq_replay (show 160 ≤ 10002 by omega) hlow
    (by rw [stagenetChain_length]; omega)]
  refine replay_lookup_none hfirst fun b hb => ?_
  obtain ⟨i, hi⟩ := mem_iff_getElem?.mp hb
  rw [getElem?_drop, getElem?_take] at hi
  split_ifs at hi with hlt
  rw [stagenetChain_getElem? (by omega)] at hi
  rw [← Option.some.inj hi]
  exact lateReference_quiet (by omega) (by omega)

theorem lateReference_rescanned {height : ℕ} (hlow : 10001 ≤ height) (hlength : height ≤ length) :
    ((stagenetChain lateReference length).rescanned sampleEnv 10000
      height).1.serviceNodesInfos.lookup 10 ≠ none := by
  have hinfos := @lateReference_registered length 10001 (by omega) (by omega) (by omega)
  have hheight := @Chain.viewAt_height sampleEnv (stagenetChain lateReference length) 10001
    (show 160 ≤ 10001 by omega) (stagenetChain_valid lateReference length).positive
    (by rw [stagenetChain_length]; omega)
  have hlasting : Lasting ((stagenetChain lateReference length).viewAt sampleEnv
      10001).1.serviceNodesInfos := hinfos ▸ elevenNodes_lasting
  have hreplay := @Lasting.replay 10000
    (((stagenetChain lateReference length).blocks.take height).drop 10001) sampleEnv
    (((stagenetChain lateReference length).viewAt sampleEnv 10001).1, OrderedTable.empty) hlasting
    (window_of_snapshot (by omega)) ?_
  · rw [Chain.rescanned, hreplay, hinfos]
    decide +kernel
  · intro b hb
    obtain ⟨i, hi⟩ := mem_iff_getElem?.mp hb
    rw [getElem?_drop, getElem?_take] at hi
    split_ifs at hi with hlt
    rw [stagenetChain_getElem? (by omega)] at hi
    rw [← Option.some.inj hi]
    refine ⟨rfl, ?_⟩
    cases i with
    | zero =>
      intro tx htx
      rw [mem_singleton.mp htx]
      refine ⟨rfl, fun stateChange hextra => ?_⟩
      rw [← Option.some.inj hextra]
      decide
    | succ i =>
      rw [stagenetBlock, lateReference_quiet (by omega) (by omega)]
      simp

theorem lateReference_diverges (l : ServiceNodeList) (hlength : 10381 ≤ length) :
    ((l.firstPass sampleEnv (stagenetChain lateReference length)).blockchainDetached sampleEnv
      (stagenetChain lateReference 10021) 10021).state.serviceNodesInfos.lookup 10 ≠ none := by
  have hvalid := stagenetChain_valid lateReference length
  obtain ⟨hgone, hs, hfull⟩ := stagenetChain_archived lateReference l hlength
  have hview := hvalid.blockchainDetached_view
    (@stagenetChain_poppedTo length lateReference 10021 (by omega) (by omega))
    (by rw [stagenetChain_length]; omega) hgone hs hfull
  have hstate := congrArg Prod.fst hview
  change ServiceNodeList.state _ = _ at hstate
  rw [hstate]
  exact lateReference_rescanned (by omega) (by omega)

end Sample

/-- The rescan does not find the quorum of height 9999, so node 10, deregistered in the
first pass, is registered again. -/
theorem deep_reorg_diverges :
    (ServiceNodeList.firstPass sampleEnv (stagenetChain lateReference 10401)
      {}).stateHistory.find? 10020 = none ∧
    (∃ s, (ServiceNodeList.firstPass sampleEnv (stagenetChain lateReference 10401)
      {}).stateArchive.find? 10000 = some s ∧ s.onlyLoadedQuorums = false) ∧
    ((stagenetChain lateReference 10401).viewAt sampleEnv 10021).1.serviceNodesInfos.lookup 10 =
      none ∧
    ((ServiceNodeList.firstPass sampleEnv (stagenetChain lateReference 10401)
      {}).blockchainDetached sampleEnv (stagenetChain lateReference 10021)
      10021).state.serviceNodesInfos.lookup 10 ≠ none := by
  obtain ⟨hgone, hs, hfull⟩ := @stagenetChain_archived 10401 lateReference {} (by omega)
  exact ⟨hgone, ⟨_, hs, hfull⟩, lateReference_deregistered (by omega) (by omega),
    lateReference_diverges {} (by omega)⟩

end Arqma.ServiceNodes
