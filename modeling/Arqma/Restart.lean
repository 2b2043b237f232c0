import Arqma.FirstPass
import Arqma.RewardRotation

/-!
# Restarting a node

`store` keeps the full state of one height of the history and the quorums below it.
`load` gives that state the height and the quorums before it, so the rescan processes
the block of that height a second time, and with no quorum from further back. The
restarted node ends in the state of the running one when neither matters.
-/
namespace Arqma.ServiceNodes
open Arqma.Cryptonote List ServiceNodeList Arqma.ServiceNodes.Chain

variable {loaded : ServiceNodeList} {b : ChainBlock} {s : State} {currentHeight : ℕ}

/-- The height of the last state `store` keeps, the only one in full. -/
def snapshotHeight (height : ℕ) : ℕ :=
  shortTermStateCullHeight (height - 1) + voteLifetime + voteOrTxVerifyHeightBuffer

theorem snapshotHeight_eq (height : ℕ) : snapshotHeight height = height - 361 + 65 := by
  have hlifetime : voteLifetime = 60 := rfl
  have hbuffer : voteOrTxVerifyHeightBuffer = 5 := rfl
  rw [snapshotHeight, shortTermStateCullHeight_eq, hlifetime, hbuffer]
  omega

/-- The snapshot of a node that has processed the chain. -/
def Chain.snapshot (chain : Chain) : ℕ := snapshotHeight (chain.blocks.length - 1)

/-- What `load` makes of the snapshot. -/
def Chain.loadedState (env : Env) (chain : Chain) : State :=
  ServiceNodeList.migrated chain
    (serializeServiceNodeStateObject (chain.viewAt env chain.snapshot).1 true)
    (serializeServiceNodeStateObject (chain.viewAt env (chain.snapshot + 1)).1 false)

section Load

variable {env : Env} {chain : Chain} {l : ServiceNodeList}

theorem getLast?_zipWith_tail {α β : Type*} (f : α → α → β) (init : List α) (p q : α) :
    (List.zipWith f (init ++ [p, q]) (init ++ [p, q]).tail).getLast? = some (f p q) := by
  induction init with
  | nil => rfl
  | cons a init ih =>
    grind

/-- The states of the history that `store` keeps. -/
def storedStates (chain : Chain) (l : ServiceNodeList) : StateSet :=
  l.stateHistory.filter fun s => s.height ≤ chain.snapshot

theorem Chain.Valid.firstPass_height (h : chain.Valid)
    (hstarted : chain.hardFork16FromHeight ≤ chain.blocks.length) :
    (l.firstPass env chain).state.height + 1 = chain.blocks.length := by
  change (l.firstPass env chain).view.1.height + 1 = _
  rw [firstPass_view h]
  exact viewAt_height hstarted h.positive le_rfl

theorem Chain.Valid.height_lt_of_history (h : chain.Valid)
    (hstarted : chain.hardFork16FromHeight ≤ chain.blocks.length)
    (hs : s ∈ (l.firstPass env chain).stateHistory.rows) : s.height + 1 < chain.blocks.length := by
  have hbelow : Below (l.firstPass env chain).view := by
    rw [firstPass_view h]
    exact chain.below_viewAt env _
  rw [← @h.firstPass_height env chain l hstarted]
  exact Nat.succ_lt_succ (hbelow s hs)

/-- The last two stored states are those of the snapshot and of the height before it. -/
theorem Chain.Valid.storedStates_last (h : chain.Valid)
    (hlow : chain.hardFork16FromHeight ≤ chain.snapshot)
    (hlength : chain.snapshot + 1 < chain.blocks.length) :
    ∃ init, (storedStates chain (l.firstPass env chain)).rows =
      init ++ [(chain.viewAt env chain.snapshot).1, (chain.viewAt env (chain.snapshot + 1)).1] := by
  have hsnapshot : chain.snapshot = chain.blocks.length - 1 - 361 + 65 := snapshotHeight_eq _
  have hmem : ∀ height, chain.snapshot ≤ height → height ≤ chain.snapshot + 1 →
      (chain.viewAt env height).1 ∈ (storedStates chain (l.firstPass env chain)).rows ∧
        (chain.viewAt env height).1.height + 1 = height := by
    intro height hrecent hhigh
    have hheight := @viewAt_height env chain height (by omega) h.positive (by omega)
    refine ⟨OrderedTable.mem_filter.mpr ⟨?_, decide_eq_true (by omega)⟩, hheight⟩
    change _ ∈ (l.firstPass env chain).view.2.rows
    rw [firstPass_view h]
    exact h.mem_viewAt_history (by omega) (by omega) (by omega) le_rfl (by omega)
  obtain ⟨hprevious, hpheight⟩ := hmem chain.snapshot le_rfl (Nat.le_succ _)
  obtain ⟨hlast, hqheight⟩ := hmem (chain.snapshot + 1) (Nat.le_succ _) le_rfl
  refine OrderedTable.exists_append_pair hprevious hlast (by omega) fun s hs => ?_
  have := of_decide_eq_true (OrderedTable.mem_filter.mp hs).2
  omega

/-- Two stored states, the last of them in full, are from after the start. -/
theorem Chain.Valid.snapshot_of_stored (h : chain.Valid)
    (hstarted : chain.hardFork16FromHeight ≤ chain.blocks.length) {init : List State} {p q : State}
    (hrows : (storedStates chain (l.firstPass env chain)).rows = init ++ [p, q])
    (hq : chain.snapshot ≤ q.height) :
    chain.hardFork16FromHeight ≤ chain.snapshot ∧ chain.snapshot + 1 < chain.blocks.length := by
  have hmem : ∀ s ∈ init ++ [p, q], s ∈ (l.firstPass env chain).stateHistory.rows ∧
      s.height ≤ chain.snapshot := by
    intro s hs
    rw [← hrows] at hs
    obtain ⟨hrow, hle⟩ := OrderedTable.mem_filter.mp hs
    exact ⟨hrow, of_decide_eq_true hle⟩
  have hsorted := (storedStates chain (l.firstPass env chain)).sorted
  rw [hrows, pairwise_append, pairwise_pair] at hsorted
  have hstart := (h.state_of_history (hmem p (by simp)).1).1
  have hlength := h.height_lt_of_history hstarted (hmem q (by simp)).1
  have hle := (hmem q (by simp)).2
  omega

theorem Chain.Valid.store_shortTerm (h : chain.Valid) (hcurrent : 16 ≤ chain.currentHardForkVersion)
    (hstarted : chain.hardFork16FromHeight ≤ chain.blocks.length) :
    ((l.firstPass env chain).store chain).db.shortTerm = some
      ⟨(l.firstPass env chain).oldQuorumStates.map fun q => serializeQuorumState q.height q.quorums,
        (storedStates chain (l.firstPass env chain)).rows.map fun s =>
          serializeServiceNodeStateObject s (s.height < chain.snapshot)⟩ := by
  have hheight : (l.firstPass env chain).state.height = chain.blocks.length - 1 :=
    Nat.eq_sub_of_add_eq (h.firstPass_height hstarted)
  rw [ServiceNodeList.store, if_neg (by omega), hheight]
  rfl

/-- What a successful load leaves in state and history. -/
theorem load_eq_some (h : l.load chain currentHeight = some loaded) :
    ∃ data last, l.db.shortTerm = some data ∧ data.states.getLast? = some last ∧
      last.onlyStoredQuorums = false ∧
      loaded.view = ((ServiceNodeList.migratedStates chain data.states).getLast?.getD
        chain.startView.1, OrderedTable.empty) := by
  simp only [ServiceNodeList.load, Option.bind_eq_bind, Option.bind_eq_some_iff] at h
  grind [ServiceNodeList.reset, ServiceNodeList.view, startView]

theorem migratedStates_map_getLast? (f : State → StateSerialized) (init : List State)
    (p q : State) :
    (ServiceNodeList.migratedStates chain ((init ++ [p, q]).map f)).getLast? =
      some (ServiceNodeList.migrated chain (f p) (f q)) := by
  rw [map_append]
  exact getLast?_zipWith_tail _ _ _ _

theorem Chain.Valid.migratedStates_stored (h : chain.Valid)
    (hlow : chain.hardFork16FromHeight ≤ chain.snapshot)
    (hlength : chain.snapshot + 1 < chain.blocks.length) :
    (ServiceNodeList.migratedStates chain
      ((storedStates chain (l.firstPass env chain)).rows.map fun s =>
        serializeServiceNodeStateObject s (s.height < chain.snapshot))).getLast? =
      some (chain.loadedState env) := by
  obtain ⟨init, hrows⟩ := @h.storedStates_last env chain l hlow hlength
  grind [loadedState, migratedStates_map_getLast?, viewAt_height, h.positive]

/-- A successful load continues from the start or from the snapshot. -/
theorem Chain.Valid.load_view (h : chain.Valid) (hcurrent : 16 ≤ chain.currentHardForkVersion)
    (hstarted : chain.hardFork16FromHeight ≤ chain.blocks.length)
    (hloaded : ((l.firstPass env chain).store chain).restarted.load chain currentHeight =
      some loaded) :
    loaded.view = chain.startView ∨
      chain.hardFork16FromHeight ≤ chain.snapshot ∧ chain.snapshot + 1 < chain.blocks.length ∧
        loaded.view = (chain.loadedState env, OrderedTable.empty) := by
  obtain ⟨data, last, hdata, hlast, hfull, hview⟩ := load_eq_some hloaded
  rw [ServiceNodeList.restarted, h.store_shortTerm hcurrent hstarted] at hdata
  rw [← Option.some.inj hdata] at hlast hview
  by_cases hsnapshot : chain.hardFork16FromHeight ≤ chain.snapshot ∧
      chain.snapshot + 1 < chain.blocks.length
  · refine Or.inr ⟨hsnapshot.1, hsnapshot.2, ?_⟩
    rw [hview, h.migratedStates_stored hsnapshot.1 hsnapshot.2]
    rfl
  · left
    simp only at hlast hview
    rcases eq_nil_or_concat' (storedStates chain (l.firstPass env chain)).rows with
      hnil | ⟨rest, q, hq⟩
    · rw [hnil] at hlast
      cases hlast
    rcases eq_nil_or_concat' rest with rfl | ⟨init, p, rfl⟩
    · rw [hview, hq]
      rfl
    · grind [serializeServiceNodeStateObject, h.snapshot_of_stored]

theorem Chain.loadedState_height (h : chain.Valid)
    (hlow : chain.hardFork16FromHeight ≤ chain.snapshot)
    (hlength : chain.snapshot < chain.blocks.length) :
    (chain.loadedState env).height + 1 = chain.snapshot := by
  have hheight := @viewAt_height env chain (chain.snapshot + 1) (by omega) h.positive hlength
  have hpositive := h.positive
  change (chain.viewAt env (chain.snapshot + 1)).1.height - 1 + 1 = _
  omega

theorem Chain.Valid.rescan_loaded (h : chain.Valid) (hcurrent : 16 ≤ chain.currentHardForkVersion)
    (hlow : chain.hardFork16FromHeight ≤ chain.snapshot)
    (hlength : chain.snapshot + 1 < chain.blocks.length)
    (hview : loaded.view = (chain.loadedState env, OrderedTable.empty)) (storeToDisk : Bool) :
    (loaded.rescanStartingFromCurrState env chain storeToDisk).view =
      replay env (chain.loadedState env, OrderedTable.empty)
        (chain.blocks.drop chain.snapshot) := by
  grind [ServiceNodeList.view, rescan_view, h.versions_drop, loadedState_height]

theorem Chain.Valid.init_view (h : chain.Valid) (hcurrent : 16 ≤ chain.currentHardForkVersion)
    (hstarted : chain.hardFork16FromHeight ≤ chain.blocks.length) :
    (((l.firstPass env chain).store chain).restarted.init env chain).view =
        chain.viewAt env chain.blocks.length ∨
      chain.hardFork16FromHeight ≤ chain.snapshot ∧ chain.snapshot + 1 < chain.blocks.length ∧
        (((l.firstPass env chain).store chain).restarted.init env chain).view =
          replay env (chain.loadedState env, OrderedTable.empty)
            (chain.blocks.drop chain.snapshot) := by
  have hfromStart : ∀ (l' : ServiceNodeList) (storeToDisk : Bool), l'.view = chain.startView →
      (l'.rescanStartingFromCurrState env chain storeToDisk).view =
        chain.viewAt env chain.blocks.length := by
    intro l' storeToDisk hview
    have hheight : l'.state.height + 1 = chain.hardFork16FromHeight := by
      grind [startView, ServiceNodeList.view, h.positive]
    rw [rescan_view l' hcurrent (by rw [hheight]; exact h.versions_drop le_rfl), hheight, hview,
      viewAt, take_length]
  rw [ServiceNodeList.init, if_neg (by omega)]
  simp only
  split
  · rename_i loaded hloaded
    split_ifs
    · exact Or.inl (hfromStart _ _ rfl)
    · rcases h.load_view hcurrent hstarted hloaded with hview | ⟨hlow, hlength, hview⟩
      · exact Or.inl (hfromStart _ _ hview)
      · exact Or.inr ⟨hlow, hlength, h.rescan_loaded hcurrent hlow hlength hview false⟩
  · exact Or.inl (hfromStart _ _ rfl)

/-- A node that keeps no quorum history has none. -/
theorem firstPass_oldQuorumStates (h : l.storeQuorumHistory = 0) :
    (l.firstPass env chain).storeQuorumHistory = 0 ∧
      (l.firstPass env chain).oldQuorumStates = [] := by
  refine List.foldlRecOn (motive := fun l' : ServiceNodeList =>
    l'.storeQuorumHistory = 0 ∧ l'.oldQuorumStates = []) _ _ ⟨h, rfl⟩ ?_
  rintro l' ⟨hhistory, hold⟩ b -
  grind [ServiceNodeList.cullHistory, ServiceNodeList.cullAltState, ServiceNodeList.processBlock]

theorem load_of_full {data : DataForSerialization} {last : StateSerialized}
    (hdata : l.db.shortTerm = some data) (hlast : data.states.getLast? = some last)
    (hfull : last.onlyStoredQuorums = false) (hquorums : data.quorumStates = [])
    (currentHeight : ℕ) :
    ∃ loaded, l.load chain currentHeight = some loaded ∧ loaded.oldQuorumStates = [] := by
  simp [hdata, hlast, hquorums, hfull, ServiceNodeList.loadQuorumStates, ServiceNodeList.load]

/-- Without a quorum history nothing keeps the snapshot from being loaded. -/
theorem Chain.Valid.init_state_of_snapshot (h : chain.Valid)
    (hcurrent : 16 ≤ chain.currentHardForkVersion)
    (hlow : chain.hardFork16FromHeight ≤ chain.snapshot)
    (hlength : chain.snapshot + 1 < chain.blocks.length) (hhistory : l.storeQuorumHistory = 0) :
    (((l.firstPass env chain).store chain).restarted.init env chain).state =
      (replay env (chain.loadedState env, OrderedTable.empty)
        (chain.blocks.drop chain.snapshot)).1 := by
  have hstarted : chain.hardFork16FromHeight ≤ chain.blocks.length := by omega
  obtain ⟨hhistory', hold⟩ := @firstPass_oldQuorumStates env chain l hhistory
  have hstore : ((l.firstPass env chain).store chain).restarted.storeQuorumHistory = 0 := by
    unfold ServiceNodeList.restarted ServiceNodeList.store
    split_ifs <;> exact hhistory'
  obtain ⟨init, hrows⟩ := @h.storedStates_last env chain l hlow hlength
  have hheight := @viewAt_height env chain (chain.snapshot + 1) (by omega) h.positive
    hlength.le
  have hlast : ((storedStates chain (l.firstPass env chain)).rows.map fun s =>
      serializeServiceNodeStateObject s (s.height < chain.snapshot)).getLast? =
        some (serializeServiceNodeStateObject (chain.viewAt env (chain.snapshot + 1)).1 false) := by
    rw [hrows, map_append, getLast?_append_of_ne_nil _ (by simp),
      ← decide_eq_false (show ¬ (chain.viewAt env (chain.snapshot + 1)).1.height < chain.snapshot by
        omega)]
    rfl
  have hfull : (serializeServiceNodeStateObject (chain.viewAt env (chain.snapshot + 1)).1
      false).onlyStoredQuorums = false := by
    change ((chain.viewAt env (chain.snapshot + 1)).1.onlyLoadedQuorums || false) = false
    rw [Bool.or_false]
    exact replay_onlyLoadedQuorums _ _
  obtain ⟨loaded, hloaded, hquorums⟩ :=
    @load_of_full chain ((l.firstPass env chain).store chain).restarted _ _
      (h.store_shortTerm hcurrent hstarted) hlast hfull (by rw [hold]; rfl) chain.blocks.length
  have hview : loaded.view = (chain.loadedState env, OrderedTable.empty) := by
    obtain ⟨data, last, hdata, -, -, hview⟩ := load_eq_some hloaded
    rw [ServiceNodeList.restarted, h.store_shortTerm hcurrent hstarted] at hdata
    rw [hview, ← Option.some.inj hdata, h.migratedStates_stored hlow hlength]
    rfl
  have hloadedHeight : loaded.state.height + 1 = chain.snapshot := by
    have : loaded.state.height = (chain.loadedState env).height :=
      congrArg (fun v : View => v.1.height) hview
    rw [this]
    exact loadedState_height h hlow (by omega)
  rw [ServiceNodeList.init, if_neg (by omega)]
  simp only [hloaded, hstore, hquorums]
  rw [if_neg (by simp; omega)]
  exact congrArg Prod.fst (h.rescan_loaded hcurrent hlow hlength hview false)

end Load

section Safe

variable {env : Env} {chain : Chain}

theorem advanceWinner_idem (s : State) (block : Block) :
    advanceWinner (advanceWinner s block) block = advanceWinner s block := by
  cases hwinner : s.serviceNodesInfos.lookup
      (getServiceNodeWinnerFromTxExtra block.minerTx.extra) with
  | none => simp only [advanceWinner, hwinner]
  | some info =>
    simp only [advanceWinner, hwinner, AList.lookup_insert, AList.insert_insert]
    rfl

theorem upgradedInfos_of_current {infos : ServiceNodesInfos}
    (h : ∀ e ∈ infos.entries, e.2.version = .v1) : upgradedInfos infos = infos := by
  refine AList.ext ?_
  change infos.entries.map (fun e => (⟨e.1, upgraded e.2⟩ : Σ _ : PublicKey, ServiceNodeInfo)) = _
  refine (map_congr_left fun e he => ?_).trans (map_id _)
  rw [upgraded, ← h e he]
  rfl

theorem getExpiredNodes_eq_nil {height : ℕ} :
    s.getExpiredNodes height = [] ↔ ∀ key info, s.serviceNodesInfos.lookup key = some info →
      info.requestedUnlockHeight ≠ keyImageAwaitingUnlockHeight →
        height ≤ info.requestedUnlockHeight := by
  rw [State.getExpiredNodes, map_eq_nil_iff, filter_eq_nil_iff]
  simp only [decide_eq_true_eq, not_and, not_lt]
  constructor
  · intro h key info hinfo
    exact h ⟨key, info⟩ (AList.mem_lookup_iff.mp hinfo)
  · intro h e he
    exact h e.1 e.2 (AList.mem_lookup_iff.mpr he)

theorem advanceWinner_getExpiredNodes {block : Block} {height : ℕ}
    (h : s.getExpiredNodes height = []) : (advanceWinner s block).getExpiredNodes height = [] := by
  rw [getExpiredNodes_eq_nil] at h ⊢
  unfold advanceWinner
  simp only
  split
  · exact h
  · rename_i winner hwinner
    intro key info hinfo
    by_cases hkey : key = getServiceNodeWinnerFromTxExtra block.minerTx.extra
    · rw [hkey, AList.lookup_insert] at hinfo
      rw [← Option.some.inj hinfo]
      exact h _ winner hwinner
    · rw [AList.lookup_insert_ne hkey] at hinfo
      exact h _ _ hinfo

theorem advanceWinner_eq (s : State) (block : Block) : advanceWinner s block =
      { s with serviceNodesInfos := (advanceWinner s block).serviceNodesInfos } := by
  cases hwinner : s.serviceNodesInfos.lookup
      (getServiceNodeWinnerFromTxExtra block.minerTx.extra) with
  | none => simp only [advanceWinner, hwinner]
  | some info => simp only [advanceWinner, hwinner]

theorem updateFromBlock_again {history history' : StateSet} {s t : State}
    (hexpired : s.getExpiredNodes (getBlockHeight b.block) = [])
    (hother : ∀ tx ∈ b.txs, isServiceNodeTx tx = false) (hheight : t.height = s.height)
    (honly : t.onlyLoadedQuorums = s.onlyLoadedQuorums)
    (hinfos : t.serviceNodesInfos =
      (updateFromBlock env history [] s b.block b.txs).serviceNodesInfos)
    (hblacklist : t.keyImageBlacklist =
      (updateFromBlock env history [] s b.block b.txs).keyImageBlacklist) :
    updateFromBlock env history' [] t b.block b.txs =
      updateFromBlock env history [] s b.block b.txs := by
  have huntouched : ∀ (history : StateSet) (acc : State × Bool), ∀ entry ∈ b.txs.zipIdx,
      processTx env history [] b.block acc entry = acc := fun history acc entry hentry =>
    processTx_other _ _ _ _ (hother _ (fst_mem_of_mem_zipIdx hentry))
  rw [updateFromBlock_of_untouched hexpired (huntouched _)] at hinfos hblacklist ⊢
  have hstart : startBlock t b.block = advanceWinner (startBlock s b.block) b.block := by
    grind [advanceWinner_eq, startBlock, filter_filter]
  have hexpired' : t.getExpiredNodes (getBlockHeight b.block) = [] := by
    have := @advanceWinner_getExpiredNodes _ b.block _
      (show (startBlock s b.block).getExpiredNodes (getBlockHeight b.block) = [] from hexpired)
    rwa [← hstart] at this
  rw [updateFromBlock_of_untouched hexpired' (huntouched _), hstart, advanceWinner_idem]

/-- The block of the snapshot is without service node transactions and expires no node,
and the nodes after it are of the current version. -/
structure Chain.QuietSnapshot (env : Env) (chain : Chain) : Prop where
  other : ∀ b, chain.blocks[chain.snapshot]? = some b → ∀ tx ∈ b.txs, isServiceNodeTx tx = false
  expires : (chain.viewAt env chain.snapshot).1.getExpiredNodes chain.snapshot = []
  current : ∀ e ∈ (chain.viewAt env (chain.snapshot + 1)).1.serviceNodesInfos.entries,
    e.2.version = .v1

theorem Chain.QuietSnapshot.reprocessed (h : chain.Valid) (hquiet : chain.QuietSnapshot env)
    (hlow : chain.hardFork16FromHeight ≤ chain.snapshot)
    (hb : chain.blocks[chain.snapshot]? = some b) :
    (advance env (chain.loadedState env, OrderedTable.empty) b).1 =
      (chain.viewAt env (chain.snapshot + 1)).1 := by
  have hlength := (List.getElem?_eq_some_iff.mp hb).1
  have hheight := @viewAt_height env chain _ hlow h.positive hlength.le
  have hloaded := @loadedState_height env chain h hlow hlength
  have hafter := @viewAt_succ b env chain _ hlow hb
  have honly : ∀ height, (chain.viewAt env height).1.onlyLoadedQuorums = false := fun height =>
    replay_onlyLoadedQuorums _ _
  have hexpires : (chain.viewAt env chain.snapshot).1.getExpiredNodes (getBlockHeight b.block) =
      [] := by
    rw [h.heights _ _ hb, hquiet.expires]
  rw [hafter]
  refine updateFromBlock_again hexpires (hquiet.other b hb) (by simp only; omega) ?_ ?_ ?_
  · change ((chain.viewAt env (chain.snapshot + 1)).1.onlyLoadedQuorums || false) = _
    rw [honly, honly, Bool.or_false]
  · change upgradedInfos (chain.viewAt env (chain.snapshot + 1)).1.serviceNodesInfos = _
    rw [upgradedInfos_of_current hquiet.current, hafter]
    rfl
  · change (chain.viewAt env (chain.snapshot + 1)).1.keyImageBlacklist = _
    rw [hafter]
    rfl

/-- What a restart from the snapshot needs: its block is quiet, and no state change within its
lifetime after the snapshot was vouched for by a quorum from before the one that is loaded. -/
structure Chain.RestartSafe (env : Env) (chain : Chain) : Prop where
  quiet : chain.QuietSnapshot env
  refers : ∀ k b, chain.snapshot < k → k < chain.snapshot - 1 + stateChangeTxLifetimeInBlocks →
    chain.blocks[k]? = some b →
      ServiceNodes.RefersFrom env (chain.snapshot - 1) ((chain.viewAt env k).historyFor b) b

theorem Chain.RestartSafe.refersFrom (h : chain.Valid) (hsafe : chain.RestartSafe env) {k : ℕ}
    (hk : chain.snapshot < k) (hb : chain.blocks[k]? = some b) :
    ServiceNodes.RefersFrom env (chain.snapshot - 1) ((chain.viewAt env k).historyFor b) b := by
  by_cases hlate : k < chain.snapshot - 1 + stateChangeTxLifetimeInBlocks
  · exact hsafe.refers k b hk hlate hb
  · intro tx _ _ stateChange _ hbefore
    refine vouchingQuorum_eq_none_of_old ?_
    rw [h.heights k b hb]
    omega

theorem Below.testingAt_historyFor {v : View} (h : Below v) (b : ChainBlock) {height : ℕ}
    (hle : v.1.height ≤ height) :
    testingAt (v.historyFor b) height =
      if height = v.1.height then v.1.quorums.obligations.filter fun quorum => quorum.workers ≠ []
      else none := by
  have hnone : obligationsAt v.2 height = none := by
    grind [Below, obligationsAt, OrderedTable.find?_eq_none.mpr]
  rw [testingAt, h.obligationsAt_historyFor, hnone, ite_self]
  split_ifs <;> rfl

/-- After the block of the snapshot the restarted node is coupled with the running one. -/
theorem Chain.RestartSafe.coupled (h : chain.Valid) (hsafe : chain.RestartSafe env)
    (hlow : chain.hardFork16FromHeight ≤ chain.snapshot)
    (hb : chain.blocks[chain.snapshot]? = some b) :
    Coupled (chain.snapshot - 1) (chain.viewAt env (chain.snapshot + 1))
      (advance env (chain.loadedState env, OrderedTable.empty) b) := by
  have hlength := (List.getElem?_eq_some_iff.mp hb).1
  have hheight := @viewAt_height env chain _ hlow h.positive hlength.le
  have hloaded := @loadedState_height env chain h hlow hlength
  have hwindow : Window (chain.snapshot - 1) (chain.loadedState env, OrderedTable.empty) :=
    ⟨fun s hs => by simp at hs, by simp only; omega, fun s hs => by simp at hs⟩
  have hbelow := chain.below_viewAt env chain.snapshot
  refine ⟨hsafe.quiet.reprocessed h hlow hb, chain.below_viewAt env _, hwindow.advance env b, ?_⟩
  intro height hle
  rw [viewAt_succ hlow hb]
  change testingAt (View.historyFor (chain.loadedState env, OrderedTable.empty) b) height =
    testingAt ((chain.viewAt env chain.snapshot).historyFor b) height
  rw [hwindow.below.testingAt_historyFor b (by simp only; omega),
    hbelow.testingAt_historyFor b (by omega)]
  simp only [show (chain.loadedState env).height = (chain.viewAt env chain.snapshot).1.height by
    omega]
  split_ifs
  · change (some ((chain.viewAt env chain.snapshot).1.quorums.obligations.getD {})).filter _ = _
    cases (chain.viewAt env chain.snapshot).1.quorums.obligations with
    | none => rfl
    | some quorum => rfl
  · rfl

end Safe

section Sample

/-- Node 7 is registered in block 160 with a stake of 400 coins. -/
def partialStake (height : ℕ) : List Transaction :=
  if height = 160 then
    [registrationTx 7 [(sampleAddress 0, stakingShareParts)] (sampleAddress 0)
      [(400000000000, 1)]]
  else []

/-- The nodes after block 160, processed on the start and on what is loaded after it. -/
def stakedOnce : ServiceNodesInfos :=
  (advance sampleEnv ({ height := 159 }, OrderedTable.empty)
    (stagenetBlock partialStake 160)).1.serviceNodesInfos

def stakedTwice : ServiceNodesInfos :=
  (advance sampleEnv ((stagenetChain partialStake 457).loadedState sampleEnv, OrderedTable.empty)
    (stagenetBlock partialStake 160)).1.serviceNodesInfos

theorem stakedOnce_lasting : Lasting stakedOnce where
  unlocks := by decide +kernel
  null := by decide +kernel

theorem stakedTwice_lasting : Lasting stakedTwice where
  unlocks := by decide +kernel
  null := by decide +kernel

theorem partialStake_quiet {height : ℕ} (h : 161 ≤ height) : partialStake height = [] := by
  rw [partialStake, if_neg (by omega)]

/-- The node is there at every later height. -/
theorem partialStake_viewAt {height length : ℕ} (hlow : 161 ≤ height) (hhigh : height ≤ length) :
    ((stagenetChain partialStake length).viewAt sampleEnv height).1.serviceNodesInfos =
      stakedOnce := by
  have hfirst : ((stagenetChain partialStake length).viewAt sampleEnv 161).1.serviceNodesInfos =
      stakedOnce := by
    rw [stagenetChain_viewAt_succ le_rfl (by omega), stagenetChain_viewAt_start]
    rfl
  rw [stagenetChain_quiet (by omega) hlow hhigh (fun h hh _ => partialStake_quiet hh)
    (hfirst ▸ stakedOnce_lasting), hfirst]

theorem partialStake_running :
    (ServiceNodeList.firstPass sampleEnv (stagenetChain partialStake 457)
      {}).state.serviceNodesInfos = stakedOnce := by
  change (ServiceNodeList.firstPass sampleEnv (stagenetChain partialStake 457)
    {}).view.1.serviceNodesInfos = stakedOnce
  rw [firstPass_view (stagenetChain_valid partialStake 457), stagenetChain_length]
  exact partialStake_viewAt (by omega) le_rfl

/-- The node is registered in block 400 instead. -/
def lateStake (height : ℕ) : List Transaction := partialStake (height - 240)

theorem lateStake_quiet {height : ℕ} (h : height < 400) : lateStake height = [] := by
  rw [lateStake, partialStake, if_neg (by omega)]

theorem partialStake_restarted :
    ((((ServiceNodeList.firstPass sampleEnv (stagenetChain partialStake 457) {}).store
      (stagenetChain partialStake 457)).restarted.init sampleEnv
      (stagenetChain partialStake 457)).state.serviceNodesInfos) = stakedTwice := by
  have hsnapshot : (stagenetChain partialStake 457).snapshot = 160 := by
    rw [snapshot, stagenetChain_length]
    rfl
  have hstate := @(stagenetChain_valid partialStake 457).init_state_of_snapshot sampleEnv _ {}
    (show 16 ≤ stagenetVersion 457 from stagenetVersion_ge (by omega))
    (by rw [hsnapshot]; exact le_rfl) (by rw [hsnapshot, stagenetChain_length]; omega) rfl
  have hblocks : (stagenetChain partialStake 457).blocks.drop 160 =
      stagenetBlock partialStake 160 :: (stagenetChain partialStake 457).blocks.drop 161 := by
    have hlt : 160 < (stagenetChain partialStake 457).blocks.length := by
      rw [stagenetChain_length]
      omega
    have hb := @stagenetChain_getElem? partialStake 457 160 (by omega)
    rw [List.drop_eq_getElem_cons hlt, (List.getElem?_eq_some_iff.mp hb).2]
  rw [hsnapshot, hblocks, replay_cons] at hstate
  have hwindow : Window 0 (advance sampleEnv
      ((stagenetChain partialStake 457).loadedState sampleEnv, OrderedTable.empty)
      (stagenetBlock partialStake 160)) :=
    (Below.window fun s hs => by simp at hs).advance sampleEnv _
  have hlasting : Lasting (advance sampleEnv
      ((stagenetChain partialStake 457).loadedState sampleEnv, OrderedTable.empty)
      (stagenetBlock partialStake 160)).1.serviceNodesInfos := stakedTwice_lasting
  have hreplay := @Lasting.replay 0
    ((stagenetChain partialStake 457).blocks.drop 161) sampleEnv _ hlasting hwindow ?_
  · rw [hstate, hreplay, stakedTwice]
  · intro b hb
    obtain ⟨i, hi⟩ := mem_iff_getElem?.mp hb
    rw [getElem?_drop] at hi
    have hlt := (List.getElem?_eq_some_iff.mp hi).1
    rw [stagenetChain_length] at hlt
    rw [stagenetChain_getElem? hlt] at hi
    rw [← Option.some.inj hi]
    refine ⟨rfl, ?_⟩
    simp [stagenetBlock, partialStake_quiet (show 161 ≤ 161 + i by omega)]

end Sample

end Arqma.ServiceNodes
