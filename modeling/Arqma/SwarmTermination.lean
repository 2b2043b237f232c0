import Arqma.SwarmConservation

/-!
# The end of a reassignment

With an engine whose rejection loops end, every loop of `calc_swarm_changes` ends:
creating a swarm lowers the excess, stealing lowers the deficit of a swarm, and
dissolving a swarm lowers the weight of the state. The one fault left is that of
dissolving the last swarm while it still has nodes.
-/
namespace Arqma.ServiceNodes
open Arqma.Cryptonote List SwarmMap Checked.Sound

variable {percentile : ℕ} {rounds : ℕ} {snodes : List PublicKey} {sizes : List SwarmSize}
  {hand : List PublicKey} {e : Fault}

/-- There are fewer swarms than ids. -/
theorem SwarmMap.Assigned.length_rows_le {swarms : SwarmMap} (h : swarms.Assigned) :
    swarms.rows.length ≤ RandomEngine.max := by
  have hnodup : (swarms.ids.map UInt64.toNat).Nodup :=
    (pairwise_map.mpr swarms.ids_sorted).imp Nat.ne_of_lt
  have hbelow : swarms.ids.map UInt64.toNat ⊆ List.range RandomEngine.max := by
    intro x hx
    obtain ⟨id, hid, rfl⟩ := mem_map.mp hx
    have htop : maxSwarmId.toNat = 2 ^ 64 - 2 := rfl
    have hle := UInt64.le_iff_toNat_le.mp (h id hid)
    rw [mem_range, RandomEngine.max]
    omega
  simpa only [ids, length_map, length_range] using (subperm_of_subset hnodup hbelow).length_le

/-- The most nodes for which the 32-bit search for a new id is sure to end. -/
def maxNodes : ℕ := 2 ^ 33

/-- What a run keeps that its loops rely on. -/
structure BoundedState (a : Assignment × List PublicKey) : Prop where
  assigned : a.1.swarms.Assigned
  nodes : (allNodes a).length ≤ maxNodes

variable {a b : Assignment × List PublicKey}

theorem BoundedState.steps {distinct : Prop} (h : BoundedState a)
    (hsteps : SwarmSteps distinct a b) :
    BoundedState b :=
  ⟨hsteps.assigned h.assigned, hsteps.subperm.length_le.trans h.nodes⟩

theorem BoundedState.swarm_nodes (h : BoundedState a) : a.1.swarms.nodes.length ≤ maxNodes := by
  have hnodes := h.nodes
  rw [allNodes, length_append] at hnodes
  omega

theorem BoundedState.without_hand {s : Assignment}
    (h : BoundedState (s, hand)) : BoundedState (s, []) :=
  ⟨h.assigned, by simpa [allNodes] using h.swarm_nodes⟩

theorem length_getExcessPool_le (threshold : ℕ) (swarms : SwarmMap) :
    (getExcessPool threshold swarms).1.length ≤ swarms.nodes.length := by
  unfold getExcessPool
  split_ifs
  · exact Nat.zero_le _
  · simp only [length_flatMap, length_map, nodes]
    exact ((filter_sublist).map _).sum_le_sum fun _ _ => Nat.zero_le _

theorem calcExcess_le (swarms : SwarmMap) : calcExcess swarms ≤ swarms.nodes.length := by
  rw [calcExcess, nodes, length_flatMap]
  exact sum_le_sum fun entry _ => Nat.sub_le _ _

section Engine

variable (order : SizeSort) (rng : RandomEngine) (seed : UInt64)

variable {swarms : SwarmMap} {s : Assignment}

theorem takeFromPool_ends {threshold : ℕ} (pos : ℕ) (hthreshold : minSwarmSize ≤ threshold)
    (hnodes : swarms.nodes.length ≤ maxNodes)
    (hsome : (getExcessPool threshold swarms).1.length ≠ 0) :
    Checked.Ends fun fuel =>
      takeFromPool (rng.output seed) fuel (getExcessPool threshold swarms).1 swarms pos := by
  have hmax : (getExcessPool threshold swarms).1.length ≤ RandomEngine.max :=
    (length_getExcessPool_le threshold swarms).trans (hnodes.trans (by decide))
  have hdrawn := rng.drawBelow_settles seed pos (Nat.pos_of_ne_zero hsome) hmax
  simp only [takeFromPool, pickFromExcessPool, bind_assoc, pure_bind]
  refine (Checked.Ends.of_settles_ok hdrawn).bind
    (fun fuel => (RandomEngine.drawBelow_sound _ (Nat.pos_of_ne_zero hsome) fuel pos).result) ?_
  intro choice hchoice
  refine (Checked.Ends.entry hchoice).bind (fun _ => (entry hchoice).result) ?_
  rintro ⟨key, id⟩ hpicked
  obtain ⟨snodes, hmem, -⟩ := (mem_getExcessPool hthreshold).mp hpicked
  rw [removeExcessSnodeFromSwarm_eq_ok hmem]
  exact .ok _

theorem fillNewSwarm_ends {missing : ℕ} (newSnodes : List PublicKey) (pos : ℕ)
    (hnodes : swarms.nodes.length ≤ maxNodes) :
    Checked.Ends fun fuel => fillNewSwarm (rng.output seed) fuel missing newSnodes swarms pos := by
  induction missing generalizing newSnodes swarms pos with
  | zero => exact .ok _
  | succ missing ih =>
    unfold fillNewSwarm
    dsimp only
    split_ifs with hnone
    · exact .ok _
    · have hbase : minSwarmSize ≤ excessBase := le_rfl
      refine (takeFromPool_ends rng seed pos hbase hnodes hnone).bind
        (fun fuel => (takeFromPool_sound _ fuel pos hbase hnone).result) ?_
      rintro _ ⟨key, id, snodes, pos', hmem, hkey, hrich, rfl⟩
      refine ih _ _ ?_
      grind [length_nodes_set]

theorem getNewSwarmId_ne_outOfFuel (h : swarms.rows.length ≤ 2 ^ 32) :
    getNewSwarmId swarms ≠ .error .outOfFuel := by
  grind [getNewSwarmId_eq, ids]

theorem calcExcess_add_le (swarms : SwarmMap) (id : UInt64) {newSnodes : List PublicKey}
    (h : newSnodes.length = newSwarmSize) :
    calcExcess (swarms.add id newSnodes) ≤ calcExcess swarms + idealSwarmMargin := by
  by_cases hmem : id ∈ swarms.ids
  · rw [add_of_mem hmem]
    exact Nat.le_add_right _ _
  · rw [calcExcess_perm (rows_add_perm hmem newSnodes), map_cons,
      sum_cons, h, ← calcExcess.eq_1, Nat.add_comm]
    exact le_rfl

/-- Creating a swarm lowers the excess. -/
theorem createLoop_endsBy (hbounded : BoundedState (s, [])) (hrows : s.swarms.rows ≠ []) :
    Checked.EndsBy fun fuel rounds => createLoop (rng.output seed) fuel rounds s := by
  induction hexcess : calcExcess s.swarms using Nat.strong_induction_on generalizing s with
  | _ excess ih =>
    by_cases hmore : calcThreshold s.swarms ≤ calcExcess s.swarms
    · refine .of_round (fun fuel rounds => by rw [createLoop, if_pos hmore])
        (.bind (fillNewSwarm_ends rng seed [] s.pos hbounded.swarm_nodes)
        (fun fuel => (@fillNewSwarm_sound False _ fuel s [] _ [] _ _ False.elim).result) ?_)
      rintro ⟨swarms, pos, result⟩ ⟨held, hids, hsteps, houtcome, -⟩
      simp only [nil_append, length_nil, Nat.zero_add] at hids hsteps houtcome ⊢
      rcases houtcome with ⟨rfl, -⟩ | ⟨rfl, hsize, hless⟩
      · exact .of_ends (.ok _)
      · have hlength : swarms.rows.length = s.swarms.rows.length := by
          simpa [ids] using congrArg List.length hids
        have hid : getNewSwarmId swarms ≠ .error .outOfFuel := by
          refine getNewSwarmId_ne_outOfFuel ?_
          have hnodes := hbounded.swarm_nodes
          have hle := calcExcess_le s.swarms
          simp only [calcThreshold, newSwarmSize, idealSwarmSize, minSwarmSize, idealSwarmMargin,
            maxNodes] at hmore hnodes
          omega
        obtain ⟨id, hid⟩ : ∃ id, getNewSwarmId swarms = .ok id := by
          grind [getNewSwarmId_eq]
        refine .bind (.of_eq hid) (fun _ => (of_eq hid).result) ?_
        rintro _ rfl
        have hsome : swarms.rows ≠ [] := by
          rw [← length_pos_iff, hlength]
          exact length_pos_iff.mpr hrows
        have hcreated : SwarmSteps False (s, [])
            (⟨swarms.add id held, pos, s.created ++ [swarms]⟩, []) :=
          hsteps.tail (.create (s := { s with swarms, pos }) [] hid hsize hsome False.elim
            False.elim)
        have hrest : (swarms.add id held).rows ≠ [] := ne_nil_of_length_pos
          ((length_pos_iff.mpr hsome).trans_le (length_rows_le_add swarms id held))
        refine ih _ ?_ (hbounded.steps hcreated) hrest rfl
        have hadded := calcExcess_add_le swarms id hsize
        simp only [newSwarmSize, idealSwarmSize, minSwarmSize, idealSwarmMargin] at hless hadded
        simp only
        omega
    · exact .of_round (fun fuel rounds => by rw [createLoop, if_neg hmore]; rfl)
        (.of_ends (.ok s))

theorem createNewSwarmFromExcess_ends (hbounded : BoundedState (s, []))
    (hrows : s.swarms.rows ≠ []) :
    Checked.Ends fun fuel => createNewSwarmFromExcess (rng.output seed) fuel s := by
  unfold createNewSwarmFromExcess
  split_ifs
  · exact .ok s
  · exact (createLoop_endsBy rng seed hbounded hrows).diag

theorem assignSnode_ends (hpercentile : percentile < 100) {key : PublicKey}
    (hbounded : BoundedState (s, key :: hand))
    (hrows : s.swarms.rows ≠ []) :
    Checked.Ends fun fuel => assignSnode order (rng.output seed) fuel percentile s key := by
  have hlength := length_calcSwarmSizes order s.swarms
  have hindex : percentileIndex percentile (calcSwarmSizes order s.swarms).length <
      (calcSwarmSizes order s.swarms).length :=
    percentileIndex_lt hpercentile.le (hlength ▸ length_pos_iff.mpr hrows)
  have hrowsMax : s.swarms.rows.length ≤ RandomEngine.max := hbounded.assigned.length_rows_le
  unfold assignSnode
  dsimp only
  refine (Checked.Ends.entry hindex).bind (fun _ => (entry hindex).result)
    fun value _ => ?_
  have hupper := upperIndex_lt hindex value.size
  have hdrawn := rng.drawBelow_settles seed s.pos (Nat.succ_pos _)
    ((Nat.succ_le_of_lt hupper).trans (hlength.trans_le hrowsMax))
  refine (Checked.Ends.of_settles_ok hdrawn).bind
    (fun fuel => (RandomEngine.drawBelow_sound _ (Nat.succ_pos _) fuel s.pos).result) ?_
  rintro ⟨choice, pos⟩ hchoice
  have hbound : choice < (calcSwarmSizes order s.swarms).length :=
    (Nat.lt_succ_iff.mp hchoice).trans_lt hupper
  refine (Checked.Ends.entry hbound).bind (fun _ => (entry hbound).result)
    fun swarm hswarm => ?_
  obtain ⟨snodes, hmem, -⟩ := (mem_calcSwarmSizes order).mp hswarm
  rw [pushToSwarm_eq_ok hmem]
  have hpushed := hbounded.steps
    (.single (@SwarmStep.push False s _ snodes key hand pos hmem False.elim))
  refine createNewSwarmFromExcess_ends rng seed hpushed.without_hand ?_
  exact ne_nil_of_length_pos
    ((length_pos_iff.mpr hrows).trans_eq (length_rows_set hmem _).symm)

theorem assignSnodes_ends (hpercentile : percentile < 100) (hbounded : BoundedState (s, snodes)) :
    Checked.Ends fun fuel =>
      assignSnodes order (rng.output seed) fuel percentile snodes s := by
  by_cases hempty : snodes ≠ [] ∧ s.swarms.rows = []
  · simp only [assignSnodes_of_empty hempty.1 hempty.2]
    exact .const nofun
  · refine Checked.Ends.foldlM_rest (P := fun rest s' => BoundedState (s', rest) ∧
      (rest ≠ [] → s'.swarms.rows ≠ [])) ?_ ?_ ⟨hbounded, fun hsome hrows => hempty ⟨hsome, hrows⟩⟩
    · rintro key rest s' ⟨hb, hsome⟩ fuel s'' hs''
      have hrows := hsome (cons_ne_nil _ _)
      have hreached := (@assignSnode_sound False order _ fuel _ hpercentile s' key rest hrows
        False.elim).result s'' hs''
      exact ⟨hb.steps hreached.steps, fun _ => hreached.rows_ne_nil hrows⟩
    · rintro key rest s' ⟨hb, hsome⟩
      exact assignSnode_ends order rng seed hpercentile hb (hsome (cons_ne_nil _ _))

/-- Stealing lowers the deficit. -/
theorem stealLoop_endsBy (hsizes : 0 < sizes.length) {poor : UInt64}
    {few : List PublicKey} (hbounded : BoundedState (s, [])) (hpoor : (poor, few) ∈ s.swarms.rows)
    (hfew : few.length < minSwarmSize) :
    Checked.EndsBy fun fuel rounds => stealLoop (rng.output seed) fuel sizes poor rounds s := by
  induction hdeficit : minSwarmSize - few.length generalizing s few with
  | zero => omega
  | succ deficit ih =>
    have hindex : percentileIndex stealingSwarmUpperPercentile sizes.length < sizes.length :=
      percentileIndex_lt (by decide) hsizes
    refine .of_round (fun fuel rounds => by rw [stealLoop]) ?_
    refine .bind (.entry hindex) (fun _ => (entry hindex).result) fun value _ => ?_
    have hbase : minSwarmSize ≤ stealingThreshold value.size := le_max_left _ _
    have hget := get_eq_ok.mpr hpoor
    refine .bind (.of_eq hget) (fun _ => (of_eq hget).result) ?_
    rintro _ rfl
    obtain ⟨excess, hexcess⟩ := exists_initialised s.swarms hbase
    refine .bind (.of_eq hexcess) (fun _ => (of_eq hexcess).result) ?_
    rintro _ rfl
    by_cases hless : excess < swarmDeficit few.length
    · simp only [if_pos hless]
      exact .of_ends (.ok (s, true))
    · simp only [if_neg hless]
      have hpos : 0 < excess := (swarmDeficit_pos hfew).trans_le (not_lt.mp hless)
      have hpool := pool_length_ne_zero_of_lt hbase hexcess hpos
      refine .bind (takeFromPool_ends rng seed s.pos hbase hbounded.swarm_nodes hpool)
        (fun fuel => (takeFromPool_sound _ fuel s.pos hbase hpool).result) ?_
      rintro _ ⟨key, id, many, pos, hmem, hkey, hrich, rfl⟩
      obtain ⟨hleft, -, hreaches⟩ := steal_step False [] pos hpoor hfew hmem hkey
        (hbase.trans_lt hrich)
      have hpushed := pushToSwarm_eq_ok hleft key
      refine .bind (.of_eq hpushed) (fun _ => (of_eq hpushed).result) ?_
      rintro _ rfl
      have hgrown := mem_set_self
        (s.swarms.set id (many.filter fun k => k ≠ key)) poor (few ++ [key])
      have hnow := get_eq_ok.mpr hgrown
      refine .bind (.of_eq hnow) (fun _ => (of_eq hnow).result) ?_
      rintro _ rfl
      by_cases hmore : (few ++ [key]).length < minSwarmSize
      · simp only [if_pos hmore]
        refine ih (hbounded.steps hreaches.steps) hgrown hmore ?_
        rw [length_append, length_singleton]
        omega
      · simp only [if_neg hmore]
        exact .of_ends (.ok _)

theorem robinHoodRound_ends (hsizes : 0 < sizes.length)
    {rest : List SwarmSize} (hbounded : BoundedState (s, []))
    (hids : (rest.map SwarmSize.swarmId).Nodup)
    (hpoor : ∀ swarm ∈ rest, swarm.size < minSwarmSize →
      ∃ few, (swarm.swarmId, few) ∈ s.swarms.rows ∧ few.length < minSwarmSize) :
    Checked.Ends fun fuel => robinHoodRound (rng.output seed) fuel sizes rest s := by
  induction rest generalizing s with
  | nil => exact .ok s
  | cons swarm rest ih =>
    rw [map_cons, nodup_cons] at hids
    unfold robinHoodRound
    split_ifs with hlarge
    · exact .ok s
    · obtain ⟨few, hmem, hfew⟩ := hpoor swarm mem_cons_self (not_le.mp hlarge)
      refine (stealLoop_endsBy rng seed hsizes hbounded hmem hfew).diag.bind
        (fun fuel => (stealLoop_sound False _ fuel hsizes [] hmem hfew).result) ?_
      rintro ⟨s', insufficient⟩ ⟨hreaches, hspares⟩
      dsimp only
      split_ifs
      · exact .ok s'
      · refine ih (hbounded.steps hreaches.steps) hids.2 fun other hother hsmall => ?_
        obtain ⟨few', hmem', hfew'⟩ := hpoor other (mem_cons_of_mem swarm hother) hsmall
        refine ⟨few', hspares _ few' ?_ hmem' hfew', hfew'⟩
        exact fun hsame => hids.1 (hsame ▸ mem_map_of_mem hother)

/-- Dissolving swarms lowers the weight. -/
theorem decommissionLoop_endsBy (hbounded : BoundedState (s, [])) :
    Checked.EndsBy fun fuel rounds =>
      decommissionLoop order (rng.output seed) fuel rounds s := by
  induction hweight : weight (s, []) using WellFoundedLT.induction generalizing s with
  | _ w ih =>
    refine .of_round (fun fuel rounds => by rw [decommissionLoop]) ?_
    split
    · exact .of_ends (.ok s)
    · rename_i entry hfound
      have hmem : (entry.1, entry.2) ∈ s.swarms.rows := mem_of_find?_eq_some hfound
      have hpoor : entry.2.length < minSwarmSize := by simpa using find?_some hfound
      have hdissolved := @SwarmStep.dissolve False _ _ _ [] hmem hpoor rfl
      have hless := weight_dissolve_lt [] hmem hpoor
      have hafter := hbounded.steps (.single hdissolved)
      rw [append_nil] at hless hafter
      refine .bind (assignSnodes_ends order rng seed (by decide) hafter)
        (fun _ _ hassigned =>
          @assignSnodes_reaches False _ _ _ _ (by decide) _ _ _ hassigned False.elim)
        fun s' hreached => ?_
      refine ih _ ?_ (hafter.steps hreached.steps) rfl
      exact hweight ▸ hreached.steps.weight_le.trans_lt hless

theorem beforeDissolution_ends (h : swarms.nodes.length ≤ maxNodes) :
    Checked.Ends fun fuel => beforeDissolution order (rng.output seed) fuel swarms := by
  have hstart : BoundedState (startingState swarms) :=
    ⟨(swarmRun_startingState swarms).assigned, (allNodes_startingState swarms).length_eq.trans_le h⟩
  have hrows := rows_startingSwarms swarms
  refine (assignSnodes_ends order rng seed (by decide) hstart).bind
    (fun _ _ hassigned =>
      @assignSnodes_reaches False _ _ _ _ (by decide) _ _ _ hassigned False.elim)
    fun s hs => ?_
  have hsome := hs.rows_ne_nil hrows
  have hbounded := hstart.steps hs.steps
  refine (robinHoodRound_ends rng seed ?_ hbounded (nodup_ids_calcSwarmSizes order _) ?_).bind
    (fun _ => (@robinHoodRound_reaches False _ _ _ _ hsome).result) fun s' hs' => ?_
  · rw [length_calcSwarmSizes]
    exact length_pos_iff.mpr hsome
  · intro swarm hswarm hsmall
    obtain ⟨few, hmem, hsize⟩ := (mem_calcSwarmSizes order).mp hswarm
    exact ⟨few, hmem, hsize ▸ hsmall⟩
  · exact createNewSwarmFromExcess_ends rng seed (hbounded.steps hs'.steps)
      (hs'.rows_ne_nil hsome)

theorem calcSwarmChanges_ends (h : swarms.nodes.length ≤ maxNodes) :
    Checked.Ends fun fuel => calcSwarmChanges order (rng.output seed) fuel swarms := by
  by_cases hnone : swarms.rows.length = 0
  · simp only [calcSwarmChanges, if_pos hnone]
    exact .ok _
  · have hstart : BoundedState (startingState swarms) := ⟨(swarmRun_startingState swarms).assigned,
        (allNodes_startingState swarms).length_eq.trans_le h⟩
    simp only [calcSwarmChanges_eq hnone]
    refine (beforeDissolution_ends order rng seed h).bind
      (fun _ => (@beforeDissolution_sound False _ _ _ _ False.elim).result) fun s hs => ?_
    split_ifs
    · exact (decommissionLoop_endsBy order rng seed (hstart.steps hs.steps)).diag
    · exact .ok s

end Engine

section Outcome

variable {order : SizeSort} {out : ℕ → UInt64} {fuel : ℕ}

variable {s : Assignment} {swarms : SwarmMap}

/-- The one fault besides missing fuel is that there is no swarm to put a node into. -/
theorem assignSnodes_fault (hpercentile : percentile < 100)
    (h : assignSnodes order out fuel percentile snodes s = .error e) :
    e = .outOfRange ∨ e = .outOfFuel := by
  by_cases hempty : snodes ≠ [] ∧ s.swarms.rows = []
  · rw [assignSnodes_of_empty hempty.1 hempty.2] at h
    exact Or.inl (Except.error.inj h).symm
  · exact Or.inr ((@assignSnodes_sound False order out fuel _ hpercentile s snodes []
      (fun hsome hrows => hempty ⟨hsome, hrows⟩) False.elim).fault e h)

theorem decommissionLoop_fault
    (h : decommissionLoop order out fuel rounds s = .error e) :
    e = .outOfRange ∨ e = .outOfFuel := by
  induction rounds generalizing s with
  | zero => exact Or.inr (Except.error.inj h).symm
  | succ rounds ih =>
    unfold decommissionLoop at h
    split at h
    · cases h
    · rename_i entry _
      cases hassigned : assignSnodes order out fuel decommissionedRedistributionLowerPercentile
          entry.2 { s with swarms := s.swarms.erase entry.1 } with
      | error e' =>
        rw [hassigned] at h
        obtain rfl : e' = e := Except.error.inj h
        exact assignSnodes_fault (by decide) hassigned
      | ok assigned =>
        rw [hassigned] at h
        exact ih h

theorem decommissionLoop_starving {s' : Assignment}
    (h : decommissionLoop order out fuel rounds s = .ok s') : s'.swarms.starving = 0 := by
  induction rounds generalizing s with
  | zero => cases h
  | succ rounds ih =>
    unfold decommissionLoop at h
    split at h
    · grind [starving]
    · obtain ⟨assigned, -, hrest⟩ := Checked.bind_eq_ok.mp h
      exact ih hrest

theorem calcSwarmChanges_fault (h : calcSwarmChanges order out fuel swarms = .error e) :
    e = .outOfRange ∨ e = .outOfFuel := by
  by_cases hnone : swarms.rows.length = 0
  · rw [calcSwarmChanges, if_pos hnone] at h
    cases h
  · rw [calcSwarmChanges_eq hnone] at h
    cases hbefore : beforeDissolution order out fuel swarms with
    | error e' =>
      rw [hbefore] at h
      obtain rfl : e' = e := Except.error.inj h
      exact Or.inr ((@beforeDissolution_sound False _ _ _ _ False.elim).fault e' hbefore)
    | ok s =>
      rw [hbefore, Checked.ok_bind] at h
      split_ifs at h
      · exact decommissionLoop_fault h
      · cases h

theorem calcSwarmChanges_viable (h : calcSwarmChanges order out fuel swarms = .ok s) :
    s.swarms.rows.length ≤ 1 ∨ ∀ entry ∈ s.swarms.rows, minSwarmSize ≤ entry.2.length := by
  by_cases hnone : swarms.rows.length = 0
  · rw [calcSwarmChanges, if_pos hnone] at h
    obtain rfl := Except.ok.inj h
    exact Or.inl (hnone.le.trans (Nat.zero_le 1))
  · rw [calcSwarmChanges_eq hnone] at h
    obtain ⟨before, -, hrest⟩ := Checked.bind_eq_ok.mp h
    split_ifs at hrest with hseveral
    · refine Or.inr fun entry hentry => ?_
      have hlarge := countP_eq_zero.mp (decommissionLoop_starving hrest) entry hentry
      simpa using hlarge
    · obtain rfl := Except.ok.inj hrest
      exact Or.inl (not_lt.mp hseveral)

/-- Of distinct nodes that are none or at least as many as a swarm needs, no swarm is
dissolved that is the last one and has nodes. -/
theorem decommissionLoop_sound {total : List PublicKey} {initial : SwarmMap}
    (htotal : total.Nodup) (hrun : SwarmRun total initial (s, []))
    (hfit : s.created = [] → total = [] ∨ minSwarmSize ≤ total.length) :
    (decommissionLoop order out fuel rounds s).Sound fun _ => True := by
  induction rounds generalizing s with
  | zero => exact .outOfFuel
  | succ rounds ih =>
    unfold decommissionLoop
    split
    · exact .ok trivial
    · rename_i entry hfound
      have hmem : (entry.1, entry.2) ∈ s.swarms.rows := mem_of_find?_eq_some hfound
      have hpoor : entry.2.length < minSwarmSize := by simpa using find?_some hfound
      have hnone : s.created = [] := hrun.created_eq_nil hmem hpoor
      have hdissolved := hrun.of_dissolved hmem hpoor rfl
      have hsafe : entry.2 ≠ [] → (s.swarms.erase entry.1).rows ≠ [] := by
        grind [allNodes, nodes, hdissolved.lost, length_eq_zero_iff.mp]
      refine (assignSnodes_sound order out fuel (by decide) entry.2 [] hsafe
        fun _ : True => hdissolved.nodup htotal).bind fun s' hreached => ?_
      exact ih (hdissolved.steps htotal hreached.steps) fun _ => hfit hnone

/-- The reassignments of distinct nodes that run into a swarm map without swarms: at
least two swarms for less than the nodes of one. -/
def RunsDry (swarms : SwarmMap) : Prop :=
  2 ≤ (swarms.erase unassignedSwarmId).rows.length ∧
    0 < swarms.nodes.length ∧ swarms.nodes.length < minSwarmSize

theorem calcSwarmChanges_sound (hdistinct : swarms.nodes.Nodup) (hfit : ¬ RunsDry swarms) :
    (calcSwarmChanges order out fuel swarms).Sound fun _ => True := by
  by_cases hnone : swarms.rows.length = 0
  · rw [calcSwarmChanges, if_pos hnone]
    exact .ok trivial
  · rw [calcSwarmChanges_eq hnone]
    refine (beforeDissolution_sound fun _ : True => hdistinct).bind fun s hs => ?_
    have hrun := (swarmRun_startingState swarms).steps hdistinct hs.steps
    split_ifs with hseveral
    · refine decommissionLoop_sound hdistinct hrun fun hcreated => ?_
      have hfewer := hrun.fewer hcreated
      by_contra hbad
      rw [not_or, ← length_eq_zero_iff] at hbad
      refine hfit ⟨?_, by omega, by omega⟩
      rcases startingSwarms_cases swarms with ⟨-, hrows⟩ | ⟨-, hsame⟩
      · simp only [ids, length_map, hrows, length_singleton] at hfewer
        omega
      · rw [hsame] at hfewer
        simp only [ids, length_map] at hfewer
        omega
    · exact .ok trivial

theorem not_ok_of_runsDry (hdistinct : swarms.nodes.Nodup) (hdry : RunsDry swarms)
    (s : Assignment) :
    calcSwarmChanges order out fuel swarms ≠ .ok s := by
  intro h
  obtain ⟨htwo, hpos, hfew⟩ := hdry
  have hnone : swarms.rows.length ≠ 0 := fun hnone => by
    rw [nodes, length_eq_zero_iff.mp hnone] at hpos
    exact hpos.false
  have hrun := calcSwarmChanges_run hdistinct hnone h
  rw [calcSwarmChanges_eq hnone] at h
  obtain ⟨before, hbefore, hrest⟩ := Checked.bind_eq_ok.mp h
  have hreached := (beforeDissolution_sound fun _ : True => hdistinct).result before hbefore
  have hseveral : 1 < before.swarms.rows.length := by
    grind [startingSwarms, startingState, hreached.rows]
  rw [if_pos hseveral] at hrest
  -- no swarm starves at the end, but there are nodes and not enough of them for a swarm
  have hzero := decommissionLoop_starving hrest
  have hlost := hrun.lost
  simp only [allNodes, append_nil] at hlost
  have hsize : newSwarmSize = 7 := rfl
  have hmin : minSwarmSize = 5 := rfl
  rw [hsize] at hlost
  obtain ⟨key, hkey⟩ := exists_mem_of_length_pos
    (show 0 < s.swarms.nodes.length by omega)
  obtain ⟨⟨id, snodes⟩, hentry, -⟩ := mem_flatMap.mp hkey
  have hlarge := countP_eq_zero.mp hzero (id, snodes) hentry
  have hle := length_le_nodes hentry
  simp only [decide_eq_true_eq, not_lt] at hlarge
  omega

/-- With an engine whose rejection loops end, and for as many nodes as the 32-bit search
for an id allows, a reassignment settles on an outcome. It is a result with at most one
swarm or only swarms that are large enough, or the fault of a swarm map without swarms.
For distinct nodes it is the fault exactly when at least two swarms have some nodes but
together less than one swarm needs. -/
theorem calcSwarmChanges_outcome (order : SizeSort) (rng : RandomEngine) (seed : UInt64)
    (swarms : SwarmMap) (hnodes : swarms.nodes.length ≤ maxNodes) :
    ∃ outcome : Checked Assignment,
      Checked.Settles (fun fuel => calcSwarmChanges order (rng.output seed) fuel swarms) outcome ∧
      ((∃ s, outcome = .ok s ∧ (s.swarms.rows.length ≤ 1 ∨
          ∀ entry ∈ s.swarms.rows, minSwarmSize ≤ entry.2.length)) ∨
        outcome = .error .outOfRange) ∧
      (swarms.nodes.Nodup → (outcome = .error .outOfRange ↔
        2 ≤ (swarms.erase unassignedSwarmId).rows.length ∧
          0 < swarms.nodes.length ∧ swarms.nodes.length < minSwarmSize)) := by
  obtain ⟨outcome, hsettles, hne⟩ := calcSwarmChanges_ends order rng seed hnodes
  obtain ⟨fuel, hfuel⟩ := hsettles.exists
  refine ⟨outcome, hsettles, ?_, fun hdistinct => ?_⟩
  · cases outcome with
    | error e =>
      refine Or.inr ?_
      rcases calcSwarmChanges_fault hfuel with rfl | rfl
      · rfl
      · exact absurd rfl hne
    | ok s => exact Or.inl ⟨s, rfl, calcSwarmChanges_viable hfuel⟩
  · constructor
    · intro hfault
      by_contra hfit
      have hsound := @calcSwarmChanges_sound order (rng.output seed) fuel swarms hdistinct hfit
      exact absurd (hsound.fault _ (hfuel.trans hfault)) nofun
    · intro hdry
      cases outcome with
      | error e =>
        rcases calcSwarmChanges_fault hfuel with rfl | rfl
        · rfl
        · exact absurd rfl hne
      | ok s => exact absurd hfuel (not_ok_of_runsDry hdistinct hdry s)

def twoPairs : SwarmMap := ⟨[(0, [0, 1]), (1, [2, 3])], by simp⟩

/-- The second swarm is dissolved when it is the only one left. -/
theorem twoPairs_throws :
    twoPairs.nodes.Nodup ∧
      calcSwarmChanges .byInsertion (fun _ => 0) 20 twoPairs = .error .outOfRange := by
  refine ⟨?_, ?_⟩ <;> decide

def firstSwarm : SwarmMap := ⟨[(0, (List.range 14).map (BitVec.ofNat 256))], by simp⟩

theorem firstSwarm_outcome :
    firstSwarm.nodes.length ≤ maxNodes ∧ ∃ s, Checked.Settles
      (fun fuel => calcSwarmChanges .byInsertion (RandomEngine.zero.output 0) fuel firstSwarm)
        (.ok s) := by
  have hlength : firstSwarm.nodes.length = 14 := by decide
  have hdistinct : firstSwarm.nodes.Nodup := by decide
  have hnodes : firstSwarm.nodes.length ≤ maxNodes := hlength.trans_le (by decide)
  obtain ⟨outcome, hsettles, hcases, hfault⟩ :=
    calcSwarmChanges_outcome .byInsertion RandomEngine.zero 0 firstSwarm hnodes
  grind [minSwarmSize]

end Outcome

end Arqma.ServiceNodes
