import Arqma.SwarmConservation

/-!
# Nodes lost by a reassignment

The second swarm ever made gets the middle id, and so does a new one beside it once it is the only
one left. Then the seven nodes taken for the new swarm are lost. On which maps this happens can be
told in advance: the swarm with the middle id is alone, or the others and the nodes that wait have
so few nodes, and so many of the others none, that nobody is moved to save them.
-/
namespace Arqma.ServiceNodes
open Arqma.Cryptonote List SwarmMap Checked.Sound

def middleId : UInt64 := maxSwarmId / 2

variable {total size : ℕ} {s s' : Assignment} {id : UInt64} {snodes big : List PublicKey}
  {a b : Assignment × List PublicKey} {order : SizeSort} {out : ℕ → UInt64} {fuel hand : ℕ}

/-- The lookups are only added to. -/
theorem SwarmStep.created_subset {distinct : Prop} (h : SwarmStep distinct a b) :
    a.1.created ⊆ b.1.created := by
  cases h with
  | create => exact subset_append_left _ _
  | _ => exact List.Subset.refl _

theorem SwarmSteps.created_subset {distinct : Prop} (h : SwarmSteps distinct a b) :
    a.1.created ⊆ b.1.created := by
  induction h with
  | refl => exact List.Subset.refl _
  | tail _ hstep ih => exact List.Subset.trans ih hstep.created_subset

/-- A new swarm was looked for beside the one with the middle id. -/
def Assignment.Lost (s : Assignment) : Prop := ∃ swarms ∈ s.created, swarms.Clashes

theorem Assignment.Lost.steps {distinct : Prop} (h : a.1.Lost) (hsteps : SwarmSteps distinct a b) :
    b.1.Lost := by
  obtain ⟨swarms, hmem, hclash⟩ := h
  exact ⟨swarms, hsteps.created_subset hmem, hclash⟩

section Steady

/-- Nothing has been lost and nothing will be: the swarm with the middle id is not there, there are
too few nodes for two swarms, or there are other swarms that will stay. -/
structure Steady (total : ℕ) (a : Assignment × List PublicKey) : Prop where
  unclashed : ∀ swarms ∈ a.1.created, ¬ swarms.Clashes
  kept : (allNodes a).length = total
  safe : middleId ∉ a.1.swarms.ids ∨ total < 14 ∨ 2 ≤ a.1.swarms.rows.length ∧
    (a.1.swarms.starving = 0 ∨
      ∀ big, (middleId, big) ∈ a.1.swarms.rows → big.length + 5 ≤ total)

theorem mem_rows_set {swarms : SwarmMap} {other : UInt64} {snodes' : List PublicKey}
    (h : (id, snodes) ∈ (swarms.set other snodes').rows) :
    id = other ∧ snodes = snodes' ∨ id ≠ other ∧ (id, snodes) ∈ swarms.rows := by
  rcases OrderedTable.mem_put.mp h with heq | ⟨hmem, hne⟩
  · exact .inl (Prod.mk.inj heq)
  · exact .inr ⟨fun heq => hne (congrArg UInt64.toNat heq), hmem⟩

/-- A swarm with other nodes leaves the state steady if the middle one stays small enough. -/
theorem Steady.of_set {snodes' : List PublicKey} {pos : ℕ} {hand hand' : List PublicKey}
    (h : Steady total (s, hand)) (mem : (id, snodes) ∈ s.swarms.rows)
    (hkept : (allNodes ({ s with swarms := s.swarms.set id snodes', pos }, hand')).length = total)
    (hstarving : s.swarms.starving = 0 → (s.swarms.set id snodes').starving = 0)
    (hmiddle : id = middleId → 14 ≤ total → 2 ≤ s.swarms.rows.length →
      snodes.length + 5 ≤ total → snodes'.length + 5 ≤ total) :
    Steady total ({ s with swarms := s.swarms.set id snodes', pos }, hand') := by
  refine ⟨h.unclashed, hkept, ?_⟩
  rw [ids_set mem, length_rows_set mem]
  rcases h.safe with hnone | hfew | ⟨hrows, hsafe⟩
  · exact .inl hnone
  · exact .inr (.inl hfew)
  · refine or_iff_not_imp_left.mpr fun _ => or_iff_not_imp_left.mpr fun hmany =>
      ⟨hrows, hsafe.imp hstarving fun hbig big hmem => ?_⟩
    rcases mem_rows_set hmem with ⟨rfl, rfl⟩ | ⟨-, hold⟩
    · exact hmiddle rfl (by omega) hrows (hbig _ mem)
    · exact hbig big hold

theorem mem_erase_of_ne {swarms : SwarmMap} {other : UInt64} (h : (id, snodes) ∈ swarms.rows)
    (hne : id ≠ other) : (id, snodes) ∈ (swarms.erase other).rows :=
  OrderedTable.mem_remove.mpr ⟨h, fun heq => hne (UInt64.toNat_inj.mp heq)⟩

theorem Steady.of_dissolved (h : Steady total (s, [])) (mem : (id, snodes) ∈ s.swarms.rows)
    (poor : snodes.length < minSwarmSize) :
    Steady total ({ s with swarms := s.swarms.erase id }, snodes ++ []) := by
  have hkept : s.swarms.nodes.length = total := by simpa [allNodes] using h.kept
  have hnodes := (nodes_perm mem).length_eq
  rw [length_append] at hnodes
  refine ⟨h.unclashed, by simp [allNodes]; omega, ?_⟩
  rcases h.safe with hnone | hfew | ⟨-, hzero | hbig⟩
  · refine .inl fun hmem => hnone ?_
    exact (ids_erase_perm mem).mem_iff.mpr (mem_cons_of_mem _ hmem)
  · exact .inr (.inl hfew)
  · have herased := starving_erase mem poor
    simp only at hzero
    omega
  · by_cases hmiddle : middleId ∈ (s.swarms.erase id).ids
    · -- what the two swarms leave over is in a third one
      obtain ⟨big, hmem, -⟩ := exists_get hmiddle
      have hold := (OrderedTable.mem_remove.mp hmem).1
      have hrest := (nodes_perm hmem).length_eq
      have hrows := (rows_perm hmem).length_eq
      have hlarge := hbig big hold
      rw [length_append] at hrest
      have hthird : ((s.swarms.erase id).erase middleId).rows ≠ [] := by
        intro hnil
        have hzero : ((s.swarms.erase id).erase middleId).nodes = [] := by
          rw [SwarmMap.nodes, hnil]
          rfl
        rw [hzero] at hrest
        simp only [minSwarmSize, length_nil] at poor hrest
        omega
      have hpos := length_pos_iff.mpr hthird
      rw [length_cons] at hrows
      exact .inr (.inr ⟨by simp only; omega, .inr fun big' hmem' =>
        hbig big' (OrderedTable.mem_remove.mp hmem').1⟩)
    · exact .inl hmiddle

variable {nodes : List PublicKey} {initial : SwarmMap}

theorem Steady.step (h : Steady total a) (hrun : SwarmRun nodes initial a) (hnodes : nodes.Nodup)
    (hstep : SwarmStep True a b) : Steady total b := by
  have hnodup := hrun.nodup hnodes
  have hzero := hstep.starving_eq_zero hnodup
  have hkept := h.kept
  cases hstep with
  | @push s id snodes key hand pos mem fits =>
    refine h.of_set mem ((push_perm mem key hand).length_eq.trans h.kept) hzero ?_
    rintro rfl hmany hrows hsmall
    simp only [allNodes, length_append, length_cons, length_nil] at hkept ⊢
    rcases fits trivial with hpoor | hone | ⟨other, hother, hne, hle⟩
    · simp only [minSwarmSize] at hpoor
      omega
    · omega
    · have htwo := length_add_le_nodes mem hother hne
      omega
  | @take s id snodes key hand pos mem holds rich =>
    have hsnodes := nodup_of_mem mem (nodup_append'.mp hnodup).1
    refine h.of_set mem ((take_perm mem hsnodes holds hand).length_eq.trans h.kept) hzero ?_
    have hless := length_filter_add_one_le holds
    intros
    omega
  | @create s id newSnodes hand newId size some healthy large =>
    have hroom := large trivial
    have hclash : ¬ s.swarms.Clashes := by
      intro hclash
      have hids : s.swarms.ids = [middleId] := hclash
      have hone : s.swarms.rows.length = 1 := by
        simpa [SwarmMap.ids] using congrArg List.length hids
      simp only [calcThreshold, hone, newSwarmSize, idealSwarmSize, minSwarmSize,
        idealSwarmMargin] at hroom size
      simp only [allNodes, length_append] at hkept
      rcases h.safe with hnone | hfew | ⟨hrows, -⟩
      · exact hnone (hids ▸ mem_singleton_self _)
      · omega
      · simp only at hrows
        omega
    have hfree : id ∉ s.swarms.ids := fun hmem =>
      hclash ((getNewSwarmId_spec hrun.assigned newId).2.mp hmem)
    refine ⟨fun swarms hmem => ?_, (add_perm hfree newSnodes hand).length_eq.trans h.kept, ?_⟩
    · rcases mem_append.mp hmem with hold | hnew
      · exact h.unclashed swarms hold
      · rw [mem_singleton.mp hnew]
        exact hclash
    · have hpos := length_pos_iff.mpr some
      have hrows := (rows_add_perm hfree newSnodes).length_eq
      rw [length_cons] at hrows
      exact .inr (.inr ⟨by simp only; omega, .inl (hzero (healthy trivial))⟩)
  | abandon s newSnodes hand repeated => exact absurd trivial repeated
  | dissolve hand mem poor idle =>
    subst idle
    exact h.of_dissolved mem poor
  | reorder s perm => exact ⟨h.unclashed, (perm.append_left _).length_eq.symm.trans h.kept, h.safe⟩

theorem Steady.steps (h : Steady total a) (hrun : SwarmRun nodes initial a) (hnodes : nodes.Nodup)
    (hsteps : SwarmSteps True a b) : Steady total b := by
  induction hsteps with
  | refl => exact h
  | tail hfirst hstep ih => exact ih.step (hrun.steps hnodes hfirst) hnodes hstep

end Steady

section Alone

theorem Clashes.rows_eq {swarms : SwarmMap} (h : swarms.Clashes) :
    ∃ big, swarms.rows = [(middleId, big)] ∧ swarms.nodes = big := by
  have hids : swarms.ids = [middleId] := h
  obtain ⟨⟨id, big⟩, hrows⟩ := length_eq_one_iff.mp
    (show swarms.rows.length = 1 by simpa [SwarmMap.ids] using congrArg List.length hids)
  rw [SwarmMap.ids, hrows] at hids
  obtain rfl : id = middleId := by simpa using hids
  exact ⟨big, hrows, by simp [SwarmMap.nodes, hrows]⟩

theorem Clashes.starving {swarms : SwarmMap} (h : swarms.Clashes) :
    swarms.starving = if swarms.nodes.length < minSwarmSize then 1 else 0 := by
  obtain ⟨big, hrows, rfl⟩ := Clashes.rows_eq h
  simp [SwarmMap.starving, hrows]

/-- From fourteen nodes on a second swarm is made, and its nodes are lost. -/
theorem lost_create (hclash : s.swarms.Clashes) (hmany : 14 ≤ s.swarms.nodes.length)
    (hnodup : s.swarms.nodes.Nodup) :
    (createNewSwarmFromExcess out fuel s).Sound fun s' => s'.Lost ∧ s'.swarms.rows ≠ [] := by
  have hids : s.swarms.ids = [middleId] := hclash
  have hone : s.swarms.rows.length = 1 := by
    simpa [SwarmMap.ids] using congrArg List.length hids
  have hrows : s.swarms.rows ≠ [] := ne_nil_of_length_pos (by omega)
  have hzero : s.swarms.starving = 0 := by
    rw [Clashes.starving hclash, if_neg (by simp only [minSwarmSize]; omega)]
  have hexcess := calcExcess_add hzero
  simp only [hone, minSwarmSize] at hexcess
  have henough : newSwarmSize ≤ calcExcess s.swarms := by
    simp only [newSwarmSize, idealSwarmSize, minSwarmSize, idealSwarmMargin]
    omega
  have hfit : True → (allNodes (s, [])).Nodup ∧ s.swarms.starving = 0 := fun _ =>
    ⟨by simpa [allNodes] using hnodup, hzero⟩
  unfold createNewSwarmFromExcess
  rw [if_neg (by simp [starving_eq_zero.mp hzero])]
  cases fuel with
  | zero => exact .outOfFuel
  | succ fuel =>
    unfold createLoop
    rw [if_pos (by simp only [calcThreshold, hone, newSwarmSize, idealSwarmSize, minSwarmSize,
      idealSwarmMargin]; omega)]
    refine (@fillNewSwarm_sound True out (fuel + 1) s [] _ [] _ _ fun hdistinct =>
      ⟨(hfit hdistinct).1, henough⟩).bind ?_
    rintro ⟨swarms, pos, result⟩ ⟨held, hkeptIds, -, houtcome, -⟩
    rcases houtcome with ⟨-, hrepeated⟩ | ⟨hheld, -, -⟩
    · exact absurd trivial hrepeated
    · dsimp only at hheld hkeptIds ⊢
      subst hheld
      refine (getNewSwarmId_sound swarms).bind fun id _ => ?_
      have hsome : swarms.rows ≠ [] := by
        intro hnil
        rw [SwarmMap.ids, hnil, hids] at hkeptIds
        cases hkeptIds
      have hadded : (swarms.add id held).rows ≠ [] := ne_nil_of_length_pos
        ((length_pos_iff.mpr hsome).trans_le (length_rows_le_add swarms id held))
      refine (@createLoop_sound False out (fuel + 1) _ _ [] hadded
        False.elim).mono fun s' hreaches => ⟨?_, hreaches.rows_ne_nil hadded⟩
      refine Assignment.Lost.steps ⟨swarms, ?_, hkeptIds.trans hids⟩ hreaches.steps
      exact mem_append_right _ (mem_singleton_self _)

/-- With fewer nodes nothing is made. -/
theorem alone_create (hclash : s.swarms.Clashes) (hfew : s.swarms.nodes.length < 14) :
    (createNewSwarmFromExcess out fuel s).Sound (· = s) := by
  have hids : s.swarms.ids = [middleId] := hclash
  have hone : s.swarms.rows.length = 1 := by
    simpa [SwarmMap.ids] using congrArg List.length hids
  unfold createNewSwarmFromExcess
  split_ifs with hstarving
  · exact .ok rfl
  · have hexcess := calcExcess_add (starving_eq_zero.mpr (Bool.eq_false_iff.mpr hstarving))
    simp only [hone, minSwarmSize] at hexcess
    cases fuel with
    | zero => exact .outOfFuel
    | succ fuel =>
      unfold createLoop
      rw [if_neg (by simp only [calcThreshold, hone, newSwarmSize, idealSwarmSize, minSwarmSize,
        idealSwarmMargin]; omega)]
      exact .ok rfl

/-- Nodes that bring the only swarm to fourteen are too many. -/
theorem lost_assign {percentile : ℕ} (hpercentile : percentile < 100) (hclash : s.swarms.Clashes)
    (hsome : snodes ≠ []) (hmany : 14 ≤ s.swarms.nodes.length + snodes.length)
    (hnodup : (allNodes (s, snodes)).Nodup) :
    (assignSnodes order out fuel percentile snodes s).Sound Assignment.Lost := by
  induction snodes generalizing s with
  | nil => exact absurd rfl hsome
  | cons key rest ih =>
    have hids : s.swarms.ids = [middleId] := hclash
    have hrows : s.swarms.rows ≠ [] := by
      intro hnil
      rw [SwarmMap.ids, hnil] at hids
      cases hids
    rw [assignSnodes, foldlM_cons]
    refine Checked.Sound.bind (P := fun s' => s'.Lost ∧ s'.swarms.rows ≠ [] ∨
      rest ≠ [] ∧ s'.swarms.Clashes ∧ 14 ≤ s'.swarms.nodes.length + rest.length ∧
        (allNodes (s', rest)).Nodup) ?_ ?_
    · refine assignSnode_sound_of order out fuel hpercentile hrows
        fun id before pos hmem hfits => ?_
      have hstep : SwarmSteps True (s, key :: rest) ({ s with
          swarms := s.swarms.set id (before ++ [key]), pos }, rest) :=
        .single (.push key rest pos hmem fun _ => hfits)
      have hset : (s.swarms.set id (before ++ [key])).Clashes := (ids_set hmem _).trans hids
      have hlength := length_nodes_set hmem (before ++ [key])
      have hafter := hstep.nodup hnodup
      rw [length_append, length_singleton] at hlength
      rw [length_cons] at hmany
      by_cases hfull : 14 ≤ (s.swarms.set id (before ++ [key])).nodes.length
      · exact (lost_create hset hfull (nodup_append'.mp hafter).1).mono fun _ => .inl
      · refine (alone_create hset (not_le.mp hfull)).mono ?_
        rintro _ rfl
        refine .inr ⟨?_, hset, by simp only; omega, hafter⟩
        rintro rfl
        simp only [length_nil] at hmany
        omega
    · rintro s' (⟨hlost, hsome'⟩ | ⟨hrest, hclash', hmany', hnodup'⟩)
      · exact (@assignSnodes_sound False order out fuel _ hpercentile _ rest []
          (fun _ => hsome') False.elim).mono fun _ hreaches => hlost.steps hreaches.steps
      · exact ih hclash' hrest hmany' hnodup'

end Alone

section Whole

variable {swarms : SwarmMap} {waiting : List PublicKey}

/-- The four phases of a reassignment that returns. -/
theorem calcSwarmChanges_eq_ok (hsome : swarms.rows.length ≠ 0)
    (h : calcSwarmChanges order out fuel swarms = .ok s) :
    ∃ assigned stolen grown,
      assignSnodes order out fuel fillSwarmLowerPercentile (unassignedSnodes swarms)
        { swarms := startingSwarms swarms } = .ok assigned ∧
      robinHoodRound out fuel (calcSwarmSizes order assigned.swarms)
        (calcSwarmSizes order assigned.swarms) assigned = .ok stolen ∧
      createNewSwarmFromExcess out fuel stolen = .ok grown ∧
      (if 1 < grown.swarms.rows.length then decommissionLoop order out fuel fuel grown
        else pure grown) = .ok s := by
  rw [calcSwarmChanges, if_neg hsome] at h
  obtain ⟨assigned, hassigned, h⟩ := Checked.bind_eq_ok.mp h
  obtain ⟨stolen, hstolen, h⟩ := Checked.bind_eq_ok.mp h
  obtain ⟨grown, hgrown, h⟩ := Checked.bind_eq_ok.mp h
  exact ⟨assigned, stolen, grown, hassigned, hstolen, hgrown, h⟩

theorem dissolve_steps {distinct : Prop} {rounds : ℕ}
    (hrest : (if 1 < s.swarms.rows.length then decommissionLoop order out fuel rounds s
      else pure s) = .ok s') (hfit : distinct → (allNodes (s, [])).Nodup) :
    SwarmSteps distinct (s, []) (s', []) := by
  split_ifs at hrest
  · exact decommissionLoop_steps hrest hfit
  · obtain rfl := Except.ok.inj hrest
    exact .refl

/-- A large swarm with the middle id that is alone gets a second one beside it at once. -/
theorem lost_of_alone (hclash : (startingSwarms swarms).Clashes)
    (hdistinct : swarms.nodes.Nodup) (hmany : 14 ≤ swarms.nodes.length)
    (hsome : swarms.rows.length ≠ 0) (h : calcSwarmChanges order out fuel swarms = .ok s) :
    s.Lost := by
  have hperm := allNodes_startingState swarms
  have hlength := hperm.length_eq
  have hnodup := hperm.nodup_iff.mpr hdistinct
  have hrows := rows_startingSwarms swarms
  rw [allNodes, length_append] at hlength
  obtain ⟨assigned, stolen, grown, hassigned, hstolen, hgrown, hrest⟩ :=
    calcSwarmChanges_eq_ok hsome h
  refine Assignment.Lost.steps (a := (grown, [])) ?_
    (@dissolve_steps _ _ _ _ _ False _ hrest False.elim)
  by_cases hnil : unassignedSnodes swarms = []
  · have hall : 14 ≤ (startingSwarms swarms).nodes.length := by
      simp only [startingState, hnil, length_nil] at hlength
      omega
    rw [hnil] at hassigned
    obtain rfl := Except.ok.inj hassigned
    have hidle : stolen = { swarms := startingSwarms swarms } := by
      obtain ⟨big, hbig, hnodes⟩ := Clashes.rows_eq hclash
      cases hsizes : calcSwarmSizes order (startingSwarms swarms) with
      | nil =>
        simp only [hsizes] at hstolen
        exact (Except.ok.inj hstolen).symm
      | cons swarm rest =>
        obtain ⟨snodes, hmem, hsize⟩ := (mem_calcSwarmSizes order).mp
          (hsizes ▸ mem_cons_self : swarm ∈ calcSwarmSizes order (startingSwarms swarms))
        rw [hbig, mem_singleton] at hmem
        have hlarge : minSwarmSize ≤ swarm.size := by
          rw [← hsize, (Prod.mk.inj hmem).2, ← hnodes]
          exact le_trans (by decide) hall
        simp only [hsizes, robinHoodRound, if_pos hlarge] at hstolen
        exact (Except.ok.inj hstolen).symm
    subst hidle
    exact ((lost_create hclash hall (nodup_append'.mp hnodup).1).result _ hgrown).1
  · have hlost := (lost_assign (by decide) hclash hnil (hlength ▸ hmany) hnodup).result _ hassigned
    have hreached := @assignSnodes_reaches False _ _ _ _ (by decide) _ _ _ hassigned False.elim
    have hstill := hreached.rows_ne_nil hrows
    have hround := (@robinHoodRound_reaches False order out fuel assigned hstill).result _ hstolen
    have hlast := (@createNewSwarmFromExcess_sound False out fuel stolen []
      (hround.rows_ne_nil hstill) False.elim).result _ hgrown
    exact (hlost.steps hround.steps).steps hlast.steps

theorem not_lost_of_steady (h : calcSwarmChanges order out fuel swarms = .ok s)
    (hdistinct : swarms.nodes.Nodup) (hsome : swarms.rows.length ≠ 0)
    (hsteady : Steady swarms.nodes.length (startingState swarms)) : ¬ s.Lost := by
  have hlast := hsteady.steps (swarmRun_startingState swarms) hdistinct
    (calcSwarmChanges_steps hsome h fun _ => hdistinct)
  rintro ⟨swarms, hmem, hclash⟩
  exact hlast.unclashed swarms hmem hclash

theorem startingSwarms_of_mem (h : (middleId, big) ∈ swarms.rows) :
    startingSwarms swarms = swarms.erase unassignedSwarmId := by
  rcases startingSwarms_cases swarms with ⟨hnone, -⟩ | ⟨-, hsame⟩
  · have hmem := mem_erase_of_ne h (by decide : middleId ≠ unassignedSwarmId)
    rw [hnone] at hmem
    cases hmem
  · exact hsame

theorem mem_startingSwarms :
    (middleId, big) ∈ (startingSwarms swarms).rows ↔ (middleId, big) ∈ swarms.rows := by
  constructor
  · intro h
    rcases startingSwarms_cases swarms with ⟨-, hrows⟩ | ⟨-, hsame⟩
    · rw [hrows, mem_singleton] at h
      exact absurd (Prod.mk.inj h).1 (by decide)
    · rw [hsame] at h
      exact (OrderedTable.mem_remove.mp h).1
  · intro h
    rw [startingSwarms_of_mem h]
    exact mem_erase_of_ne h (by decide)

/-- What keeps all nodes of a map: there is no swarm with the middle id, there are fewer than
fourteen nodes, or the swarm with the middle id is not alone and five nodes are outside it. -/
def SwarmMap.KeepsNodes (swarms : SwarmMap) : Prop :=
  middleId ∉ swarms.ids ∨ swarms.nodes.length < 14 ∨
    2 ≤ (swarms.erase unassignedSwarmId).rows.length ∧
      ∀ big, (middleId, big) ∈ swarms.rows → big.length + 5 ≤ swarms.nodes.length

/-- All swarms are one with the middle id, and it has or gets at least fourteen nodes. -/
def SwarmMap.LosesNodes (swarms : SwarmMap) : Prop :=
  (swarms.erase unassignedSwarmId).ids = [middleId] ∧ 14 ≤ swarms.nodes.length

theorem SwarmMap.KeepsNodes.steady (h : swarms.KeepsNodes) :
    Steady swarms.nodes.length (startingState swarms) := by
  refine ⟨nofun, (allNodes_startingState swarms).length_eq, ?_⟩
  by_cases hmiddle : middleId ∈ (startingSwarms swarms).ids
  · obtain ⟨big, hbig, -⟩ := exists_get hmiddle
    have hmem := mem_startingSwarms.mp hbig
    rcases h with hnone | hfew | ⟨hrows, hsmall⟩
    · exact absurd (mem_map_of_mem (f := Prod.fst) hmem) hnone
    · exact .inr (.inl hfew)
    · rw [← startingSwarms_of_mem hmem] at hrows
      exact .inr (.inr ⟨hrows, .inr fun big' hbig' => hsmall big' (mem_startingSwarms.mp hbig')⟩)
  · exact .inl hmiddle

theorem SwarmMap.LosesNodes.clashes (h : swarms.LosesNodes) :
    (startingSwarms swarms).Clashes := by
  rcases startingSwarms_cases swarms with ⟨hnone, -⟩ | ⟨-, hsame⟩
  · have hids := h.1
    rw [SwarmMap.ids, hnone] at hids
    cases hids
  · rw [hsame]
    exact h.1

end Whole

/-- A single swarm with the middle id and enough nodes for a second one. -/
def loneSwarm : SwarmMap :=
  ⟨[(maxSwarmId / 2, (List.range 14).map (BitVec.ofNat 256))], by simp⟩

/-- The same swarm beside a small one, and three nodes that wait. -/
def unevenSwarms : SwarmMap :=
  ⟨[(0, [14, 15]), (maxSwarmId / 2, (List.range 14).map (BitVec.ofNat 256)),
    (unassignedSwarmId, [16, 17, 18])], by decide⟩

end Arqma.ServiceNodes
