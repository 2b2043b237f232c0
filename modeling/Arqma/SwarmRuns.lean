import Arqma.SwarmSteps

/-!
# Runs of a reassignment

Every phase of `calc_swarm_changes` goes from the state before it to the state after
it by elementary steps and has no access out of range, as long as there is a swarm to
put nodes into. Only the dissolution of starving swarms can leave none.
-/
namespace Arqma.ServiceNodes
open Arqma.Cryptonote List SwarmMap Checked.Sound

section Pool

variable {swarms : SwarmMap} {threshold : ℕ}

theorem mem_getExcessPool (h : minSwarmSize ≤ threshold) {snode : ExcessPoolSnode} :
    snode ∈ (getExcessPool threshold swarms).1 ↔
      ∃ snodes, (snode.swarmId, snodes) ∈ swarms.rows ∧ threshold < snodes.length ∧
        snode.publicKey ∈ snodes := by
  rw [getExcessPool, if_neg (not_lt.mpr h)]
  simp only [mem_flatMap, mem_filter, mem_map, decide_eq_true_eq]
  constructor
  · rintro ⟨⟨id, snodes⟩, ⟨hmem, hrich⟩, key, hkey, rfl⟩
    exact ⟨snodes, hmem, hrich, hkey⟩
  · rintro ⟨snodes, hmem, hrich, hkey⟩
    exact ⟨(snode.swarmId, snodes), ⟨hmem, hrich⟩, snode.publicKey, hkey, rfl⟩

theorem calcExcess_set {id : UInt64} {snodes : List PublicKey} (mem : (id, snodes) ∈ swarms.rows)
    (snodes' : List PublicKey) :
    calcExcess (swarms.set id snodes') + (snodes.length - excessBase) =
      calcExcess swarms + (snodes'.length - excessBase) := by
  rw [calcExcess_perm (rows_set_perm swarms id snodes'), calcExcess_perm (rows_perm mem)]
  simp only [map_cons, sum_cons]
  omega

/-- Where there is excess there is somebody to take. -/
theorem pool_length_ne_zero (h : 0 < calcExcess swarms) :
    (getExcessPool excessBase swarms).1.length ≠ 0 := by
  intro hnone
  have hempty := length_eq_zero_iff.mp hnone
  refine h.ne' (sum_eq_zero fun n hn => ?_)
  obtain ⟨⟨id, snodes⟩, hmem, rfl⟩ := mem_map.mp hn
  by_contra hpos
  have hrich : excessBase < snodes.length := by
    simp only at hpos
    omega
  obtain ⟨key, hkey⟩ := exists_mem_of_length_pos (Nat.zero_lt_of_lt hrich)
  have hpool : (⟨key, id⟩ : ExcessPoolSnode) ∈ (getExcessPool excessBase swarms).1 :=
    (mem_getExcessPool le_rfl).mpr ⟨snodes, hmem, hrich, hkey⟩
  rw [hempty] at hpool
  cases hpool

theorem removeExcessSnodeFromSwarm_eq_ok {key : PublicKey} {id : UInt64} {snodes : List PublicKey}
    (h : (id, snodes) ∈ swarms.rows) :
    removeExcessSnodeFromSwarm ⟨key, id⟩ swarms =
      .ok (swarms.set id (snodes.filter fun k => k ≠ key)) := by
  unfold removeExcessSnodeFromSwarm
  rw [get_eq_ok.mpr h]
  rfl

/-- Taking from a pool that is not empty takes a node out of a rich swarm. -/
theorem takeFromPool_sound (out : ℕ → UInt64) (fuel pos : ℕ) (h : minSwarmSize ≤ threshold)
    (hsome : (getExcessPool threshold swarms).1.length ≠ 0) :
    (takeFromPool out fuel (getExcessPool threshold swarms).1 swarms pos).Sound fun taken =>
      ∃ key id snodes pos', (id, snodes) ∈ swarms.rows ∧ key ∈ snodes ∧ threshold < snodes.length ∧
        taken = (⟨key, id⟩, swarms.set id (snodes.filter fun k => k ≠ key), pos') := by
  unfold takeFromPool pickFromExcessPool
  refine Checked.Sound.bind (P := fun picked => picked.1 ∈ (getExcessPool threshold swarms).1)
    ?_ ?_
  · refine (RandomEngine.drawBelow_sound out (Nat.pos_of_ne_zero hsome) fuel pos).bind ?_
    intro choice hchoice
    exact (Checked.Sound.entry hchoice).bind fun snode hsnode => .ok hsnode
  · rintro ⟨⟨key, id⟩, pos'⟩ hpicked
    obtain ⟨snodes, hmem, hrich, hkey⟩ := (mem_getExcessPool h).mp hpicked
    rw [removeExcessSnodeFromSwarm_eq_ok hmem]
    exact .ok ⟨key, id, snodes, pos', hmem, hkey, hrich, rfl⟩

end Pool

section Creation

variable {distinct : Prop} (out : ℕ → UInt64) (fuel : ℕ)

/-- What collecting nodes for a new swarm leaves. -/
structure Filled (distinct : Prop) (s : Assignment) (hand newSnodes : List PublicKey)
    (missing : ℕ) (swarms : SwarmMap) (pos : ℕ)
    (r : SwarmMap × ℕ × Option (List PublicKey)) (held : List PublicKey) : Prop where
  ids : r.1.ids = swarms.ids
  steps : SwarmSteps distinct ({ s with swarms, pos }, newSnodes ++ hand)
    ({ s with swarms := r.1, pos := r.2.1 }, held ++ hand)
  outcome : r.2.2 = none ∧ ¬ distinct ∨
    r.2.2 = some held ∧ held.length = newSnodes.length + missing ∧
      calcExcess r.1 + missing ≤ calcExcess swarms
  kept : distinct → r.1.nodes.length + held.length = swarms.nodes.length + newSnodes.length

theorem fillNewSwarm_sound (s : Assignment) (hand : List PublicKey) {missing : ℕ}
    (newSnodes : List PublicKey) {swarms : SwarmMap} {pos : ℕ}
    (hfit : distinct → (swarms.nodes ++ (newSnodes ++ hand)).Nodup ∧ missing ≤ calcExcess swarms) :
    (fillNewSwarm out fuel missing newSnodes swarms pos).Sound fun r =>
      ∃ held, Filled distinct s hand newSnodes missing swarms pos r held := by
  induction missing generalizing newSnodes swarms pos with
  | zero => exact .ok ⟨newSnodes, rfl, .refl, Or.inr ⟨rfl, rfl, le_rfl⟩, fun _ => rfl⟩
  | succ missing ih =>
    unfold fillNewSwarm
    dsimp only
    split_ifs with hnone
    · refine .ok ⟨newSnodes, rfl, .refl, Or.inl ⟨rfl, fun hdistinct => ?_⟩, fun _ => rfl⟩
      have hexcess := (hfit hdistinct).2
      exact pool_length_ne_zero (by omega) hnone
    · have hbase : minSwarmSize ≤ excessBase := le_rfl
      refine (takeFromPool_sound out fuel pos hbase hnone).bind ?_
      rintro _ ⟨key, id, snodes, pos', hmem, hkey, hrich, rfl⟩
      dsimp only
      have hexcess := calcExcess_set hmem (snodes.filter fun k => k ≠ key)
      have hless := length_filter_add_one_le hkey
      have hsteps : SwarmSteps distinct ({ s with swarms, pos }, newSnodes ++ hand)
          ({ s with swarms := swarms.set id (snodes.filter fun k => k ≠ key), pos := pos' },
            (newSnodes ++ [key]) ++ hand) := by
        refine (Relation.ReflTransGen.single
          (.take (s := { s with swarms, pos }) _ pos' hmem hkey hrich)).tail (.reorder _ ?_)
        rw [append_assoc]
        exact perm_middle.symm
      refine (ih (newSnodes ++ [key]) fun hdistinct => ?_).mono ?_
      · obtain ⟨hnodup, hmissing⟩ := hfit hdistinct
        refine ⟨hsteps.nodup hnodup, ?_⟩
        have hone := length_filter_add_one
          (nodup_of_mem hmem (nodup_append'.mp hnodup).1) hkey
        omega
      · rintro r ⟨held, hids, hrest, houtcome, hkept⟩
        refine ⟨held, hids.trans (ids_set hmem _), hsteps.trans hrest, ?_, fun hdistinct => ?_⟩
        · refine houtcome.imp_right ?_
          rintro ⟨hheld, hlength, hlow⟩
          refine ⟨hheld, ?_, ?_⟩
          · rw [hlength, length_append, length_singleton]
            omega
          · omega
        · have hone := length_filter_add_one
            (nodup_of_mem hmem (nodup_append'.mp (hfit hdistinct).1).1) hkey
          have hnodes := length_nodes_set hmem (snodes.filter fun k => k ≠ key)
          rw [hkept hdistinct, length_append, length_singleton]
          omega

theorem getNewSwarmId_sound (swarms : SwarmMap) :
    (getNewSwarmId swarms).Sound fun id => getNewSwarmId swarms = .ok id := by
  refine ⟨fun e he => ?_, fun id hid => hid⟩
  rw [getNewSwarmId_eq] at he
  split_ifs at he
  exact (Except.error.inj he).symm

/-- Without a starving swarm the excess is what is above the least sizes. -/
theorem calcExcess_add {swarms : SwarmMap} (h : swarms.starving = 0) :
    calcExcess swarms + minSwarmSize * swarms.rows.length = swarms.nodes.length := by
  have hfed : ∀ entry ∈ swarms.rows, minSwarmSize ≤ entry.2.length := by
    simpa using countP_eq_zero.mp h
  unfold calcExcess SwarmMap.nodes
  generalize swarms.rows = rows at hfed
  induction rows with
  | nil => rfl
  | cons entry rows ih =>
    have hrest := ih fun e he => hfed e (mem_cons_of_mem _ he)
    have hfirst := hfed entry mem_cons_self
    simp only [map_cons, sum_cons, length_cons, flatMap_cons, length_append, excessBase,
      Nat.mul_add_one] at hrest ⊢
    omega

theorem length_rows_le_add (swarms : SwarmMap) (id : UInt64) (newSnodes : List PublicKey) :
    swarms.rows.length ≤ (swarms.add id newSnodes).rows.length := by
  by_cases hmem : id ∈ swarms.ids
  · rw [add_of_mem hmem]
  · rw [(rows_add_perm hmem newSnodes).length_eq, length_cons]
    omega

/-- What a phase of the reassignment leaves that places some of the nodes at hand:
no swarm is gone. -/
structure Reaches (distinct : Prop) (a b : Assignment × List PublicKey) : Prop where
  steps : SwarmSteps distinct a b
  rows : a.1.swarms.rows.length ≤ b.1.swarms.rows.length

theorem Reaches.refl (a : Assignment × List PublicKey) : Reaches distinct a a := ⟨.refl, le_rfl⟩

theorem Reaches.trans {a b c : Assignment × List PublicKey} (h : Reaches distinct a b)
    (h' : Reaches distinct b c) : Reaches distinct a c :=
  ⟨h.steps.trans h'.steps, h.rows.trans h'.rows⟩

theorem Reaches.rows_ne_nil {a b : Assignment × List PublicKey} (h : Reaches distinct a b)
    (hrows : a.1.swarms.rows ≠ []) : b.1.swarms.rows ≠ [] :=
  ne_nil_of_length_pos ((length_pos_iff.mpr hrows).trans_le h.rows)

theorem createLoop_sound {rounds : ℕ} {s : Assignment} (hand : List PublicKey)
    (hrows : s.swarms.rows ≠ [])
    (hfit : distinct → (allNodes (s, hand)).Nodup ∧ s.swarms.starving = 0) :
    (createLoop out fuel rounds s).Sound fun s' => Reaches distinct (s, hand) (s', hand) := by
  induction rounds generalizing s with
  | zero => exact .outOfFuel
  | succ rounds ih =>
    unfold createLoop
    split_ifs with hexcess
    · have henough : newSwarmSize ≤ calcExcess s.swarms := (Nat.le_add_right _ _).trans hexcess
      refine (fillNewSwarm_sound out fuel s hand [] fun hdistinct =>
        ⟨(hfit hdistinct).1, henough⟩).bind ?_
      rintro ⟨swarms, pos, result⟩ ⟨held, hids, hsteps, houtcome, hkept⟩
      simp only [nil_append, length_nil, Nat.zero_add, Nat.add_zero] at hids hsteps houtcome hkept ⊢
      have hlength : swarms.rows.length = s.swarms.rows.length := by
        simpa [SwarmMap.ids] using congrArg List.length hids
      rcases houtcome with ⟨rfl, hrepeated⟩ | ⟨rfl, hsize, -⟩
      · exact .ok ⟨hsteps.tail (.abandon _ held hand hrepeated), hlength.ge⟩
      · refine (getNewSwarmId_sound swarms).bind fun id hid => ?_
        have hsome : swarms.rows ≠ [] := by
          rw [← length_pos_iff, hlength]
          exact length_pos_iff.mpr hrows
        have hcreated : Reaches distinct (s, hand)
            ({ swarms := swarms.add id held, pos, created := s.created ++ [swarms] }, hand) := by
          refine ⟨hsteps.tail (.create (s := { s with swarms, pos }) hand hid
            hsize hsome (fun hdistinct => ?_) fun hdistinct => ?_),
            hlength.ge.trans (length_rows_le_add swarms id held)⟩
          · exact hsteps.starving_eq_zero (hfit hdistinct).1 (hfit hdistinct).2
          · have hnodes := calcExcess_add (hfit hdistinct).2
            have hpos := length_pos_iff.mpr hrows
            have hfilled := hkept hdistinct
            simp only [calcThreshold, hlength] at hexcess ⊢
            simp only [minSwarmSize] at hnodes ⊢
            omega
        refine (ih (hcreated.rows_ne_nil hrows) fun hdistinct => ?_).mono
          fun _ => hcreated.trans
        exact ⟨hcreated.steps.nodup (hfit hdistinct).1,
          hcreated.steps.starving_eq_zero (hfit hdistinct).1 (hfit hdistinct).2⟩
    · exact .ok (Reaches.refl _)

theorem createNewSwarmFromExcess_sound {s : Assignment} (hand : List PublicKey)
    (hrows : s.swarms.rows ≠ []) (hfit : distinct → (allNodes (s, hand)).Nodup) :
    (createNewSwarmFromExcess out fuel s).Sound fun s' =>
      Reaches distinct (s, hand) (s', hand) := by
  unfold createNewSwarmFromExcess
  split_ifs with hstarving
  · exact .ok (Reaches.refl _)
  · exact createLoop_sound out fuel hand hrows fun hdistinct =>
      ⟨hfit hdistinct, starving_eq_zero.mpr (Bool.eq_false_iff.mpr hstarving)⟩

end Creation

section Placement

variable {distinct : Prop} (order : SizeSort) (out : ℕ → UInt64) (fuel : ℕ)

theorem percentileIndex_lt {percentile count : ℕ} (hpercentile : percentile ≤ 100)
    (hcount : 0 < count) : percentileIndex percentile count < count := by
  have hwrapped : (count + (2 ^ 64 - 1)) % 2 ^ 64 ≤ count - 1 := by
    rw [show count + (2 ^ 64 - 1) = count - 1 + 2 ^ 64 by omega, Nat.add_mod_right]
    exact Nat.mod_le _ _
  have hscaled : percentile * ((count + (2 ^ 64 - 1)) % 2 ^ 64) ≤ 100 * (count - 1) :=
    Nat.mul_le_mul hpercentile hwrapped
  have hindex : percentileIndex percentile count ≤ 100 * (count - 1) / 100 :=
    Nat.div_le_div_right ((Nat.mod_le _ _).trans hscaled)
  omega

theorem percentileIndex_lt_pred {percentile count : ℕ} (hpercentile : percentile < 100)
    (hcount : 2 ≤ count) : percentileIndex percentile count < count - 1 := by
  have hwrapped : (count + (2 ^ 64 - 1)) % 2 ^ 64 ≤ count - 1 := by
    rw [show count + (2 ^ 64 - 1) = count - 1 + 2 ^ 64 by omega, Nat.add_mod_right]
    exact Nat.mod_le _ _
  have hscaled : percentile * ((count + (2 ^ 64 - 1)) % 2 ^ 64) ≤ 99 * (count - 1) :=
    Nat.mul_le_mul (by omega) hwrapped
  have hindex : percentileIndex percentile count ≤ 99 * (count - 1) / 100 :=
    Nat.div_le_div_right ((Nat.mod_le _ _).trans hscaled)
  omega

theorem upperIndex_lt {sizes : List SwarmSize} {index : ℕ} (hindex : index < sizes.length)
    (value : ℕ) : upperIndex sizes index value < sizes.length := by
  grind [upperIndex, findIdx_le_length]

theorem length_calcSwarmSizes (swarms : SwarmMap) :
    (calcSwarmSizes order swarms).length = swarms.rows.length := by
  rw [calcSwarmSizes, (order.perm _).length_eq, length_map]

theorem mem_calcSwarmSizes {swarms : SwarmMap} {swarm : SwarmSize} :
    swarm ∈ calcSwarmSizes order swarms ↔
      ∃ snodes, (swarm.swarmId, snodes) ∈ swarms.rows ∧ snodes.length = swarm.size := by
  rw [calcSwarmSizes, (order.perm _).mem_iff, mem_map]
  constructor
  · rintro ⟨⟨id, snodes⟩, hmem, rfl⟩
    exact ⟨snodes, hmem, rfl⟩
  · rintro ⟨snodes, hmem, hsize⟩
    exact ⟨(swarm.swarmId, snodes), hmem, by rw [hsize]⟩

theorem nodup_ids_calcSwarmSizes (swarms : SwarmMap) :
    ((calcSwarmSizes order swarms).map SwarmSize.swarmId).Nodup := by
  have hperm : ((calcSwarmSizes order swarms).map SwarmSize.swarmId).Perm swarms.ids := by
    rw [calcSwarmSizes, SwarmMap.ids]
    refine ((order.perm _).map _).trans (List.Perm.of_eq ?_)
    rw [map_map]
    rfl
  refine hperm.nodup_iff.mpr (swarms.ids_sorted.imp fun hless hsame => ?_)
  exact absurd (congrArg UInt64.toNat hsame) hless.ne

theorem pushToSwarm_eq_ok {swarms : SwarmMap} {id : UInt64} {snodes : List PublicKey}
    (h : (id, snodes) ∈ swarms.rows) (key : PublicKey) :
    pushToSwarm id key swarms = .ok (swarms.set id (snodes ++ [key])) := by
  unfold pushToSwarm
  rw [get_eq_ok.mpr h]
  rfl

/-- The swarms up to the upper index are no larger than the one at the percentile. -/
theorem size_le_of_le_upperIndex {sizes : List SwarmSize} {index choice : ℕ}
    {value swarm : SwarmSize} (hsorted : sizes.Pairwise fun a b => a.size ≤ b.size)
    (hvalue : sizes[index]? = some value) (hswarm : sizes[choice]? = some swarm)
    (hchoice : choice ≤ upperIndex sizes index value.size) : swarm.size ≤ value.size := by
  obtain ⟨hindex, rfl⟩ := List.getElem?_eq_some_iff.mp hvalue
  obtain ⟨hbound, rfl⟩ := List.getElem?_eq_some_iff.mp hswarm
  rcases Nat.lt_trichotomy choice index with hless | rfl | hmore
  · exact pairwise_iff_getElem.mp hsorted _ _ hbound hindex hless
  · exact le_rfl
  · have hrest : choice - index < (sizes.drop index).findIdx
        (fun swarm => sizes[index].size < swarm.size) := by
      unfold upperIndex at hchoice
      omega
    have hsmall := not_of_lt_findIdx hrest
    simp only [getElem_drop] at hsmall
    simpa [Nat.add_sub_cancel' hmore.le] using hsmall

theorem sorted_calcSwarmSizes (swarms : SwarmMap) :
    (calcSwarmSizes order swarms).Pairwise fun a b => a.size ≤ b.size := order.sorted _

/-- The rule for `assign_snodes`: the node goes to a swarm that is not the largest alone. -/
theorem assignSnode_sound_of {percentile : ℕ} (hpercentile : percentile < 100) {s : Assignment}
    {key : PublicKey} (hrows : s.swarms.rows ≠ []) {Q : Assignment → Prop}
    (hplaced : ∀ id snodes pos, (id, snodes) ∈ s.swarms.rows → s.swarms.Fits id snodes →
      (createNewSwarmFromExcess out fuel { s with
        swarms := s.swarms.set id (snodes ++ [key]), pos }).Sound Q) :
    (assignSnode order out fuel percentile s key).Sound Q := by
  have hlength := length_calcSwarmSizes order s.swarms
  have hsome : 0 < (calcSwarmSizes order s.swarms).length := hlength ▸ length_pos_iff.mpr hrows
  have hindex := percentileIndex_lt hpercentile.le hsome
  have hsorted := sorted_calcSwarmSizes order s.swarms
  unfold assignSnode
  refine (of_eq (Checked.entry_eq_ok (getElem?_eq_getElem hindex))).bind ?_
  rintro value rfl
  refine (RandomEngine.drawBelow_sound out (Nat.succ_pos _) fuel s.pos).bind ?_
  rintro ⟨choice, pos⟩ hchoice
  have hupper := Nat.lt_succ_iff.mp hchoice
  have hbound : choice < (calcSwarmSizes order s.swarms).length :=
    hupper.trans_lt (upperIndex_lt hindex _)
  refine (of_eq (Checked.entry_eq_ok (getElem?_eq_getElem hbound))).bind ?_
  rintro swarm hswarm
  obtain ⟨snodes, hmem, hsize⟩ := (mem_calcSwarmSizes order).mp (hswarm ▸ getElem_mem hbound)
  have hle := size_le_of_le_upperIndex hsorted (getElem?_eq_getElem hindex)
    (hswarm ▸ getElem?_eq_getElem hbound) hupper
  rw [pushToSwarm_eq_ok hmem]
  refine hplaced _ _ _ hmem (.inr (or_iff_not_imp_left.mpr fun hseveral => ?_))
  -- the swarm at the percentile, or the largest one if that is the same
  obtain ⟨j, hj, hne, hlarge⟩ : ∃ j, ∃ hj : j < (calcSwarmSizes order s.swarms).length,
      j ≠ choice ∧ snodes.length ≤ (calcSwarmSizes order s.swarms)[j].size := by
    by_cases hsame : choice = percentileIndex percentile (calcSwarmSizes order s.swarms).length
    · have hlast := percentileIndex_lt_pred hpercentile
        (show 2 ≤ (calcSwarmSizes order s.swarms).length by omega)
      refine ⟨(calcSwarmSizes order s.swarms).length - 1, by omega, by omega, ?_⟩
      rw [hsize, ← hswarm]
      exact pairwise_iff_getElem.mp hsorted _ _ _ _ (by omega)
    · exact ⟨_, hindex, Ne.symm hsame, hsize ▸ hle⟩
  obtain ⟨others, hother, hothers⟩ := (mem_calcSwarmSizes order).mp (getElem_mem hj)
  refine ⟨_, hother, fun heq => hne ?_, hothers ▸ hlarge⟩
  have hids := nodup_ids_calcSwarmSizes order s.swarms
  refine (@Nodup.getElem_inj_iff _ _ hids _ (by simpa using hj) _ (by simpa using hbound)).mp ?_
  simpa [hswarm] using heq

theorem assignSnode_sound {percentile : ℕ} (hpercentile : percentile < 100) {s : Assignment}
    (key : PublicKey) (hand : List PublicKey) (hrows : s.swarms.rows ≠ [])
    (hfit : distinct → (allNodes (s, key :: hand)).Nodup) :
    (assignSnode order out fuel percentile s key).Sound fun s' =>
      Reaches distinct (s, key :: hand) (s', hand) := by
  refine assignSnode_sound_of order out fuel hpercentile hrows fun id snodes pos hmem hfits => ?_
  have hpushed : Reaches distinct (s, key :: hand) ({ s with
      swarms := s.swarms.set id (snodes ++ [key]), pos }, hand) :=
    ⟨.single (.push key hand pos hmem fun _ => hfits), (length_rows_set hmem _).ge⟩
  exact (createNewSwarmFromExcess_sound out fuel hand (hpushed.rows_ne_nil hrows)
    fun hdistinct => hpushed.steps.nodup (hfit hdistinct)).mono fun _ => hpushed.trans

theorem assignSnodes_sound {percentile : ℕ} (hpercentile : percentile < 100) {s : Assignment}
    (snodes hand : List PublicKey) (hrows : snodes ≠ [] → s.swarms.rows ≠ [])
    (hfit : distinct → (allNodes (s, snodes ++ hand)).Nodup) :
    (assignSnodes order out fuel percentile snodes s).Sound fun s' =>
      Reaches distinct (s, snodes ++ hand) (s', hand) := by
  refine foldlM_rest
    (P := fun rest s' => Reaches distinct (s, snodes ++ hand) (s', rest ++ hand) ∧
      (rest ≠ [] → s'.swarms.rows ≠ [])) ?_ ⟨Reaches.refl _, hrows⟩ |>.mono fun _ h => h.1
  rintro key rest s' ⟨hreached, hsome⟩
  refine (assignSnode_sound order out fuel hpercentile key (rest ++ hand)
    (hsome (cons_ne_nil _ _)) fun hdistinct =>
    hreached.steps.nodup (hfit hdistinct)).mono fun s'' hplaced => ?_
  exact ⟨hreached.trans hplaced, fun _ => hplaced.rows_ne_nil (hsome (cons_ne_nil _ _))⟩

end Placement

section Stealing

variable (distinct : Prop) (out : ℕ → UInt64) (fuel : ℕ)

theorem exists_initialised (swarms : SwarmMap) {threshold : ℕ} (h : minSwarmSize ≤ threshold) :
    ∃ excess, Checked.initialised (getExcessPool threshold swarms).2 = .ok excess := by
  rw [getExcessPool, if_neg (not_lt.mpr h)]
  exact ⟨_, rfl⟩

/-- What can be taken is there to be taken. -/
theorem pool_length_ne_zero_of_lt {swarms : SwarmMap} {threshold excess : ℕ}
    (h : minSwarmSize ≤ threshold)
    (hexcess : Checked.initialised (getExcessPool threshold swarms).2 = .ok excess)
    (hpos : 0 < excess) : (getExcessPool threshold swarms).1.length ≠ 0 := by
  intro hnone
  have hempty := length_eq_zero_iff.mp hnone
  rw [getExcessPool, if_neg (not_lt.mpr h)] at hexcess
  obtain rfl := Except.ok.inj hexcess
  refine hpos.ne' (sum_eq_zero fun n hn => ?_)
  obtain ⟨⟨id, snodes⟩, hrich, -⟩ := mem_map.mp hn
  obtain ⟨hmem, hsize⟩ := mem_filter.mp hrich
  have hsize : threshold < snodes.length := by simpa using hsize
  obtain ⟨key, hkey⟩ := exists_mem_of_length_pos (Nat.zero_lt_of_lt hsize)
  have hpool : (⟨key, id⟩ : ExcessPoolSnode) ∈ (getExcessPool threshold swarms).1 :=
    (mem_getExcessPool h).mpr ⟨snodes, hmem, hsize, hkey⟩
  rw [hempty] at hpool
  cases hpool

theorem swarmDeficit_pos {size : ℕ} (h : size < minSwarmSize) : 0 < swarmDeficit size := by
  unfold swarmDeficit minSwarmSize at *
  omega

/-- The small swarms other than `poor` are left alone. -/
def SparesPoor (poor : UInt64) (swarms swarms' : SwarmMap) : Prop :=
  ∀ id snodes, id ≠ poor → (id, snodes) ∈ swarms.rows → snodes.length < minSwarmSize →
    (id, snodes) ∈ swarms'.rows

/-- One round of stealing: a node goes from a rich swarm to a poor one. -/
theorem steal_step {s : Assignment} {poor id : UInt64} {few many : List PublicKey} {key : PublicKey}
    (hand : List PublicKey) (pos : ℕ) (hpoor : (poor, few) ∈ s.swarms.rows)
    (hfew : few.length < minSwarmSize) (hmem : (id, many) ∈ s.swarms.rows) (hkey : key ∈ many)
    (hrich : minSwarmSize < many.length) :
    let taken := s.swarms.set id (many.filter fun k => k ≠ key)
    (poor, few) ∈ taken.rows ∧ SparesPoor poor s.swarms (taken.set poor (few ++ [key])) ∧
      Reaches distinct (s, hand)
        ({ s with swarms := taken.set poor (few ++ [key]), pos }, hand) := by
  intro taken
  have hdiffer : ∀ {id' few'}, (id', few') ∈ s.swarms.rows → few'.length < minSwarmSize →
      id' ≠ id := by
    rintro id' few' hmem' hsmall rfl
    rw [eq_of_mem hmem' hmem] at hsmall
    exact absurd hsmall hrich.not_gt
  have hleft : (poor, few) ∈ taken.rows := mem_set_of_ne hpoor (hdiffer hpoor hfew) _
  refine ⟨hleft, fun id' few' hne hmem' hsmall => ?_, ?_, ?_⟩
  · exact mem_set_of_ne (mem_set_of_ne hmem' (hdiffer hmem' hsmall) _) hne _
  · exact (Relation.ReflTransGen.single (.take hand pos hmem hkey hrich)).tail
      (.push (s := { s with swarms := taken, pos }) key hand pos hleft fun _ => .inl hfew)
  · exact (length_rows_set hleft _).trans (length_rows_set hmem _) |>.ge

theorem stealLoop_sound {sizes : List SwarmSize} (hsizes : 0 < sizes.length) {poor : UInt64}
    {rounds : ℕ} {s : Assignment} {few : List PublicKey} (hand : List PublicKey)
    (hpoor : (poor, few) ∈ s.swarms.rows) (hfew : few.length < minSwarmSize) :
    (stealLoop out fuel sizes poor rounds s).Sound fun r =>
      Reaches distinct (s, hand) (r.1, hand) ∧ SparesPoor poor s.swarms r.1.swarms := by
  induction rounds generalizing s few with
  | zero => exact .outOfFuel
  | succ rounds ih =>
    unfold stealLoop
    have hindex : percentileIndex stealingSwarmUpperPercentile sizes.length < sizes.length :=
      percentileIndex_lt (by decide) hsizes
    refine (Checked.Sound.entry hindex).bind fun value _ => ?_
    have hbase : minSwarmSize ≤ stealingThreshold value.size := le_max_left _ _
    refine (of_eq (get_eq_ok.mpr hpoor)).bind ?_
    rintro _ rfl
    obtain ⟨excess, hexcess⟩ := exists_initialised s.swarms hbase
    refine (of_eq hexcess).bind ?_
    rintro _ rfl
    split_ifs with hless
    · exact .ok ⟨Reaches.refl _, fun _ _ _ hmem _ => hmem⟩
    · have hpos : 0 < excess := (swarmDeficit_pos hfew).trans_le (not_lt.mp hless)
      refine (takeFromPool_sound out fuel s.pos hbase
        (pool_length_ne_zero_of_lt hbase hexcess hpos)).bind ?_
      rintro _ ⟨key, id, many, pos, hmem, hkey, hrich, rfl⟩
      obtain ⟨hleft, hspares, hreaches⟩ := steal_step distinct hand pos hpoor hfew
        hmem hkey (hbase.trans_lt hrich)
      refine (of_eq (pushToSwarm_eq_ok hleft key)).bind ?_
      rintro _ rfl
      have hgrown := mem_set_self
        (s.swarms.set id (many.filter fun k => k ≠ key)) poor (few ++ [key])
      refine (of_eq (get_eq_ok.mpr hgrown)).bind ?_
      rintro _ rfl
      split_ifs with hmore
      · refine (ih hgrown hmore).mono fun r hr => ⟨hreaches.trans hr.1, ?_⟩
        intro id' few' hne hmem' hsmall
        exact hr.2 id' few' hne (hspares id' few' hne hmem' hsmall) hsmall
      · exact .ok ⟨hreaches, hspares⟩

theorem robinHoodRound_sound {sizes : List SwarmSize} (hsizes : 0 < sizes.length)
    {rest : List SwarmSize} {s : Assignment} (hand : List PublicKey)
    (hids : (rest.map SwarmSize.swarmId).Nodup)
    (hpoor : ∀ swarm ∈ rest, swarm.size < minSwarmSize →
      ∃ few, (swarm.swarmId, few) ∈ s.swarms.rows ∧ few.length < minSwarmSize) :
    (robinHoodRound out fuel sizes rest s).Sound fun s' =>
      Reaches distinct (s, hand) (s', hand) := by
  induction rest generalizing s with
  | nil => exact .ok (Reaches.refl _)
  | cons swarm rest ih =>
    rw [map_cons, nodup_cons] at hids
    unfold robinHoodRound
    split_ifs with hlarge
    · exact .ok (Reaches.refl _)
    · obtain ⟨few, hmem, hfew⟩ := hpoor swarm mem_cons_self (not_le.mp hlarge)
      refine (stealLoop_sound distinct out fuel hsizes hand hmem hfew).bind ?_
      rintro ⟨s', insufficient⟩ ⟨hreaches, hspares⟩
      dsimp only
      split_ifs
      · exact .ok hreaches
      · refine (ih hids.2 fun other hother hsmall => ?_).mono fun _ => hreaches.trans
        grind [SparesPoor]

end Stealing

section Whole

variable {distinct : Prop} {order : SizeSort} {out : ℕ → UInt64} {fuel : ℕ}

/-- There is no swarm to put a node into. -/
theorem assignSnodes_of_empty {percentile : ℕ} {s : Assignment} {snodes : List PublicKey}
    (hsnodes : snodes ≠ []) (hrows : s.swarms.rows = []) :
    assignSnodes order out fuel percentile snodes s = .error .outOfRange := by
  obtain ⟨key, rest, rfl⟩ := exists_cons_of_ne_nil hsnodes
  have hsizes : calcSwarmSizes order s.swarms = [] := by
    rw [← length_eq_zero_iff, length_calcSwarmSizes, hrows, length_nil]
  have hfault : assignSnode order out fuel percentile s key = .error .outOfRange := by
    unfold assignSnode
    rw [hsizes]
    rfl
  rw [assignSnodes, foldlM_cons, hfault]
  rfl

theorem assignSnodes_reaches {percentile : ℕ} (hpercentile : percentile < 100) {s s' : Assignment}
    {snodes : List PublicKey} (h : assignSnodes order out fuel percentile snodes s = .ok s')
    (hfit : distinct → (allNodes (s, snodes)).Nodup) : Reaches distinct (s, snodes) (s', []) := by
  have hsound := assignSnodes_sound order out fuel hpercentile snodes []
    (fun hsnodes hrows => ?_) (by rwa [append_nil])
  · rw [append_nil] at hsound
    exact hsound.result s' h
  · rw [assignSnodes_of_empty hsnodes hrows] at h
    cases h

theorem decommissionLoop_steps {rounds : ℕ} {s s' : Assignment}
    (h : decommissionLoop order out fuel rounds s = .ok s')
    (hfit : distinct → (allNodes (s, [])).Nodup) : SwarmSteps distinct (s, []) (s', []) := by
  induction rounds generalizing s with
  | zero => cases h
  | succ rounds ih =>
    unfold decommissionLoop at h
    split at h
    · obtain rfl := Except.ok.inj h
      exact .refl
    · rename_i entry hfound
      have hmem : (entry.1, entry.2) ∈ s.swarms.rows := mem_of_find?_eq_some hfound
      have hpoor : entry.2.length < minSwarmSize := by simpa using find?_some hfound
      have hdissolved : SwarmSteps distinct (s, [])
          ({ s with swarms := s.swarms.erase entry.1 }, entry.2 ++ []) :=
        .single (.dissolve [] hmem hpoor rfl)
      rw [append_nil] at hdissolved
      obtain ⟨assigned, hassigned, hrest⟩ := Checked.bind_eq_ok.mp h
      have hplaced := hdissolved.trans (assignSnodes_reaches (by decide) hassigned
        fun hdistinct => hdissolved.nodup (hfit hdistinct)).steps
      exact hplaced.trans (ih hrest fun hdistinct => SwarmSteps.nodup hplaced (hfit hdistinct))

theorem robinHoodRound_reaches {s : Assignment} (hrows : s.swarms.rows ≠ []) :
    (robinHoodRound out fuel (calcSwarmSizes order s.swarms) (calcSwarmSizes order s.swarms)
      s).Sound fun s' => Reaches distinct (s, []) (s', []) := by
  refine robinHoodRound_sound distinct out fuel ?_ [] (nodup_ids_calcSwarmSizes order _) ?_
  · rw [length_calcSwarmSizes]
    exact length_pos_iff.mpr hrows
  · intro swarm hswarm hsmall
    obtain ⟨few, hmem, hsize⟩ := (mem_calcSwarmSizes order).mp hswarm
    exact ⟨few, hmem, hsize ▸ hsmall⟩

/-- The state in which the nodes without a swarm are at hand. -/
def startingState (swarms : SwarmMap) : Assignment × List PublicKey :=
  ({ swarms := startingSwarms swarms }, unassignedSnodes swarms)

theorem startingSwarms_cases (swarms : SwarmMap) :
    (swarms.erase unassignedSwarmId).rows = [] ∧ (startingSwarms swarms).rows = [(0, [])] ∨
      (swarms.erase unassignedSwarmId).rows ≠ [] ∧
        startingSwarms swarms = swarms.erase unassignedSwarmId := by
  unfold startingSwarms
  grind [SwarmMap.ids, rows_add_perm, perm_singleton.mp]

theorem rows_startingSwarms (swarms : SwarmMap) : (startingSwarms swarms).rows ≠ [] := by
  rcases startingSwarms_cases swarms with ⟨-, hrows⟩ | ⟨hsome, hsame⟩
  · rw [hrows]
    exact cons_ne_nil _ _
  · rwa [hsame]

theorem nodes_startingSwarms (swarms : SwarmMap) :
    (startingSwarms swarms).nodes = (swarms.erase unassignedSwarmId).nodes := by
  rcases startingSwarms_cases swarms with ⟨hnone, hrows⟩ | ⟨-, hsame⟩
  · rw [SwarmMap.nodes, SwarmMap.nodes, hrows, hnone]
    rfl
  · rw [hsame]

theorem allNodes_startingState (swarms : SwarmMap) :
    (allNodes (startingState swarms)).Perm swarms.nodes := by
  unfold allNodes startingState unassignedSnodes
  rw [nodes_startingSwarms]
  dsimp only
  split
  · rename_i hnone
    have hsame : swarms.erase unassignedSwarmId = swarms :=
      OrderedTable.remove_of_free (OrderedTable.find?_eq_none.mp hnone)
    rw [hsame, append_nil]
  · rename_i entry hfound
    obtain ⟨hmem, hkey⟩ := OrderedTable.find?_eq_some.mp hfound
    grind [UInt64.toNat_inj.mp, perm_append_comm.trans, nodes_perm]

def beforeDissolution (order : SizeSort) (out : ℕ → UInt64) (fuel : ℕ) (swarms : SwarmMap) :
    Checked Assignment := do
  let s ← assignSnodes order out fuel fillSwarmLowerPercentile (unassignedSnodes swarms)
    { swarms := startingSwarms swarms }
  let s ← robinHoodRound out fuel (calcSwarmSizes order s.swarms)
    (calcSwarmSizes order s.swarms) s
  createNewSwarmFromExcess out fuel s

theorem calcSwarmChanges_eq {swarms : SwarmMap} (h : swarms.rows.length ≠ 0) :
    calcSwarmChanges order out fuel swarms =
      beforeDissolution order out fuel swarms >>= fun s =>
        if 1 < s.swarms.rows.length then decommissionLoop order out fuel fuel s else pure s := by
  rw [calcSwarmChanges, if_neg h, beforeDissolution]
  simp only [bind_assoc]

theorem beforeDissolution_sound {swarms : SwarmMap} (hfit : distinct → swarms.nodes.Nodup) :
    (beforeDissolution order out fuel swarms).Sound fun s =>
      Reaches distinct (startingState swarms) (s, []) := by
  have hstart : distinct → (allNodes (startingState swarms)).Nodup := fun hdistinct =>
    (allNodes_startingState swarms).nodup_iff.mpr (hfit hdistinct)
  have hrows := rows_startingSwarms swarms
  have hplaced : (assignSnodes order out fuel fillSwarmLowerPercentile
      (unassignedSnodes swarms) { swarms := startingSwarms swarms }).Sound fun s =>
        Reaches distinct (startingState swarms) (s, []) := by
    have hsound := assignSnodes_sound order out fuel (by decide : fillSwarmLowerPercentile < 100)
      (unassignedSnodes swarms) [] (fun _ => hrows) (by rwa [append_nil])
    rwa [append_nil] at hsound
  refine hplaced.bind fun s hs => ?_
  have hround := @robinHoodRound_reaches distinct order out fuel s (hs.rows_ne_nil hrows)
  refine hround.bind fun s' hs' => ?_
  have hreached := hs.trans hs'
  exact (createNewSwarmFromExcess_sound out fuel [] (hreached.rows_ne_nil hrows)
    fun hdistinct => hreached.steps.nodup (hstart hdistinct)).mono fun _ => hreached.trans

/-- Every run consists of elementary steps. -/
theorem calcSwarmChanges_steps {swarms : SwarmMap} {s : Assignment} (hsome : swarms.rows.length ≠ 0)
    (h : calcSwarmChanges order out fuel swarms = .ok s) (hfit : distinct → swarms.nodes.Nodup) :
    SwarmSteps distinct (startingState swarms) (s, []) := by
  rw [calcSwarmChanges_eq hsome] at h
  obtain ⟨before, hbefore, hrest⟩ := Checked.bind_eq_ok.mp h
  have hreached := (beforeDissolution_sound hfit).result before hbefore
  split_ifs at hrest
  · refine hreached.steps.trans (decommissionLoop_steps hrest fun hdistinct => ?_)
    exact hreached.steps.nodup ((allNodes_startingState swarms).nodup_iff.mpr (hfit hdistinct))
  · obtain rfl := Except.ok.inj hrest
    exact hreached.steps

end Whole

end Arqma.ServiceNodes
