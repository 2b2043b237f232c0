import Mathlib.Data.List.Perm.Subperm
import Arqma.SwarmIds

/-!
# What a reassignment of swarms can do

Every run of `calc_swarm_changes` is a sequence of elementary steps on the swarms
and the nodes at hand: a node is put into a swarm or taken out of a large one, a new
swarm is made of nodes at hand, a starving swarm is dissolved. The guards of a step
are what the code has checked before it.
-/
namespace Arqma.ServiceNodes
open Arqma.Cryptonote List SwarmMap OrderedTable

variable {id : UInt64} {rows : List (UInt64 × List PublicKey)} {snodes : List PublicKey}
  {swarms : SwarmMap}

namespace SwarmMap

variable {swarms : SwarmMap} {id : UInt64} {snodes snodes' : List PublicKey}

theorem get_eq_ok : swarms.get id = .ok snodes ↔ (id, snodes) ∈ swarms.rows := by
  unfold SwarmMap.get
  grind [UInt64.toNat_inj.mp, find?_eq_some.mpr, find?_eq_some.mp]

theorem exists_get (h : id ∈ swarms.ids) :
    ∃ snodes, (id, snodes) ∈ swarms.rows ∧ swarms.get id = .ok snodes := by
  obtain ⟨⟨id, snodes⟩, hmem, rfl⟩ := mem_map.mp h
  exact ⟨snodes, hmem, get_eq_ok.mpr hmem⟩

theorem rows_perm (h : (id, snodes) ∈ swarms.rows) :
    swarms.rows.Perm ((id, snodes) :: (swarms.erase id).rows) := perm_remove h

theorem rows_set_perm (swarms : SwarmMap) (id : UInt64) (snodes : List PublicKey) :
    (swarms.set id snodes).rows.Perm ((id, snodes) :: (swarms.erase id).rows) :=
  perm_put swarms (id, snodes)

/-- Changing the nodes of a swarm leaves the ids. -/
theorem ids_set (h : (id, snodes) ∈ swarms.rows) (snodes' : List PublicKey) :
    (swarms.set id snodes').ids = swarms.ids := by
  have hperm : (swarms.set id snodes').ids.Perm swarms.ids :=
    ((rows_set_perm swarms id snodes').map Prod.fst).trans ((rows_perm h).map Prod.fst).symm
  exact hperm.eq_of_pairwise (fun a b _ _ hab hba => absurd (hab.trans hba) (lt_irrefl _))
    (ids_sorted _) (ids_sorted _)

theorem length_rows_set (h : (id, snodes) ∈ swarms.rows) (snodes' : List PublicKey) :
    (swarms.set id snodes').rows.length = swarms.rows.length := by
  simpa [SwarmMap.ids] using congrArg List.length (ids_set h snodes')

theorem nodes_perm (h : (id, snodes) ∈ swarms.rows) :
    swarms.nodes.Perm (snodes ++ (swarms.erase id).nodes) :=
  (rows_perm h).flatMap_right Prod.snd

theorem nodes_set_perm (swarms : SwarmMap) (id : UInt64) (snodes : List PublicKey) :
    (swarms.set id snodes).nodes.Perm (snodes ++ (swarms.erase id).nodes) :=
  (rows_set_perm swarms id snodes).flatMap_right Prod.snd

theorem mem_set_self (swarms : SwarmMap) (id : UInt64) (snodes : List PublicKey) :
    (id, snodes) ∈ (swarms.set id snodes).rows := mem_put.mpr (Or.inl rfl)

theorem mem_set_of_ne (h : (id, snodes) ∈ swarms.rows) {id' : UInt64} (hne : id ≠ id')
    (snodes' : List PublicKey) : (id, snodes) ∈ (swarms.set id' snodes').rows :=
  mem_put.mpr (Or.inr ⟨h, fun hkey => hne (UInt64.toNat_inj.mp hkey)⟩)

theorem eq_of_mem (h : (id, snodes) ∈ swarms.rows) (h' : (id, snodes') ∈ swarms.rows) :
    snodes = snodes' := congrArg Prod.snd (eq_of_key_eq h h' rfl)

theorem length_nodes_set (h : (id, snodes) ∈ swarms.rows) (snodes' : List PublicKey) :
    (swarms.set id snodes').nodes.length + snodes.length =
      swarms.nodes.length + snodes'.length := by
  have hbefore := (nodes_perm h).length_eq
  have hafter := (nodes_set_perm swarms id snodes').length_eq
  rw [length_append] at hbefore hafter
  omega

theorem length_le_nodes (h : (id, snodes) ∈ swarms.rows) : snodes.length ≤ swarms.nodes.length := by
  rw [(nodes_perm h).length_eq, length_append]
  omega

/-- Two swarms have no more nodes than all together. -/
theorem length_add_le_nodes {other : UInt64} (h : (id, snodes) ∈ swarms.rows)
    (h' : (other, snodes') ∈ swarms.rows) (hne : other ≠ id) :
    snodes.length + snodes'.length ≤ swarms.nodes.length := by
  have hrest : (other, snodes') ∈ (swarms.erase id).rows := by
    rcases mem_cons.mp ((rows_perm h).mem_iff.mp h') with heq | hrest
    · exact absurd (congrArg Prod.fst heq) hne
    · exact hrest
  rw [(nodes_perm h).length_eq, length_append]
  exact Nat.add_le_add_left (length_le_nodes hrest) _

/-- An id that is free is added, one that is taken is not. -/
theorem add_of_mem (h : id ∈ swarms.ids) (snodes : List PublicKey) :
    swarms.add id snodes = swarms := by
  obtain ⟨taken, hmem, -⟩ := exists_get h
  refine if_pos (isSome_find?.mpr ⟨(id, taken), hmem, rfl⟩)

theorem rows_add_perm (h : id ∉ swarms.ids) (snodes : List PublicKey) :
    (swarms.add id snodes).rows.Perm ((id, snodes) :: swarms.rows) := by
  have hfree : ∀ entry ∈ swarms.rows, entry.1.toNat ≠ id.toNat := by
    intro entry hentry hkey
    exact h (UInt64.toNat_inj.mp hkey ▸ mem_map_of_mem hentry)
  have hnone : swarms.find? id.toNat = none := find?_eq_none.mpr hfree
  have hadd : swarms.add id snodes = swarms.put (id, snodes) := if_neg (by simp [hnone])
  have hsame : swarms.remove id.toNat = swarms := remove_of_free hfree
  rw [hadd]
  have hperm := perm_put swarms (id, snodes)
  rwa [hsame] at hperm

/-- How many swarms are too small. -/
def starving (swarms : SwarmMap) : ℕ :=
  swarms.rows.countP fun entry => entry.2.length < minSwarmSize

theorem starving_eq_zero : swarms.starving = 0 ↔ hasStarvingSwarms swarms = false := by
  simp [SwarmMap.starving, hasStarvingSwarms, countP_eq_zero]

theorem starving_perm (h : swarms.rows.Perm rows) :
    swarms.starving = rows.countP fun entry => entry.2.length < minSwarmSize := h.countP_eq _

theorem calcExcess_perm (h : swarms.rows.Perm rows) :
    calcExcess swarms = (rows.map fun entry => entry.2.length - excessBase).sum :=
  (h.map _).sum_eq

end SwarmMap

/-- A swarm that gets a node: it starves, it is the only one, or another is as large. -/
def SwarmMap.Fits (swarms : SwarmMap) (id : UInt64) (snodes : List PublicKey) : Prop :=
  snodes.length < minSwarmSize ∨ swarms.rows.length = 1 ∨
    ∃ other ∈ swarms.rows, other.1 ≠ id ∧ snodes.length ≤ other.2.length

/-- The elementary steps of a reassignment, on the swarms and the nodes at hand. The
parameter says whether no node is there twice, which rules out that a swarm shrinks by
more than one node or that there are too few nodes for a new swarm. -/
inductive SwarmStep (distinct : Prop) :
    Assignment × List PublicKey → Assignment × List PublicKey → Prop
  | push {s : Assignment} {id : UInt64} {snodes : List PublicKey} (key : PublicKey)
      (hand : List PublicKey) (pos : ℕ) (mem : (id, snodes) ∈ s.swarms.rows)
      (fits : distinct → s.swarms.Fits id snodes) :
      SwarmStep distinct (s, key :: hand)
        ({ s with swarms := s.swarms.set id (snodes ++ [key]), pos }, hand)
  | take {s : Assignment} {id : UInt64} {snodes : List PublicKey} {key : PublicKey}
      (hand : List PublicKey) (pos : ℕ) (mem : (id, snodes) ∈ s.swarms.rows)
      (holds : key ∈ snodes) (rich : minSwarmSize < snodes.length) :
      SwarmStep distinct (s, hand)
        ({ s with swarms := s.swarms.set id (snodes.filter fun k => k ≠ key), pos }, key :: hand)
  | create {s : Assignment} {id : UInt64} {newSnodes : List PublicKey} (hand : List PublicKey)
      (newId : getNewSwarmId s.swarms = .ok id) (size : newSnodes.length = newSwarmSize)
      (some : s.swarms.rows ≠ []) (healthy : distinct → s.swarms.starving = 0)
      (large : distinct →
        minSwarmSize + calcThreshold s.swarms ≤ s.swarms.nodes.length + newSwarmSize) :
      SwarmStep distinct (s, newSnodes ++ hand)
        ({ s with
          swarms := s.swarms.add id newSnodes
          created := s.created ++ [s.swarms] }, hand)
  | abandon (s : Assignment) (newSnodes hand : List PublicKey) (repeated : ¬ distinct) :
      SwarmStep distinct (s, newSnodes ++ hand) (s, hand)
  | dissolve {s : Assignment} {id : UInt64} {snodes : List PublicKey} (hand : List PublicKey)
      (mem : (id, snodes) ∈ s.swarms.rows) (poor : snodes.length < minSwarmSize)
      (idle : hand = []) :
      SwarmStep distinct (s, hand) ({ s with swarms := s.swarms.erase id }, snodes ++ hand)
  | reorder (s : Assignment) {hand hand' : List PublicKey} (perm : hand.Perm hand') :
      SwarmStep distinct (s, hand) (s, hand')

abbrev SwarmSteps (distinct : Prop) := Relation.ReflTransGen (SwarmStep distinct)

section Nodes

variable {swarms : SwarmMap} {id : UInt64} {snodes : List PublicKey} {key : PublicKey}

theorem push_perm (mem : (id, snodes) ∈ swarms.rows) (key : PublicKey) (hand : List PublicKey) :
    ((swarms.set id (snodes ++ [key])).nodes ++ hand).Perm (swarms.nodes ++ key :: hand) := by
  rw [perm_iff_count]
  intro x
  have hbefore := (nodes_perm mem).count_eq x
  grind [nodes_set_perm]

theorem cons_filter_subperm (h : key ∈ snodes) :
    (key :: snodes.filter fun k => k ≠ key).Subperm snodes := by
  rw [subperm_ext_iff]
  grind [count_filter]

theorem cons_filter_perm (hnodup : snodes.Nodup) (h : key ∈ snodes) :
    (key :: snodes.filter fun k => k ≠ key).Perm snodes := by
  have herase : (snodes.filter fun k => k ≠ key) = snodes.erase key := by
    rw [hnodup.erase_eq_filter]
    refine filter_congr fun k _ => ?_
    rw [Bool.eq_iff_iff]
    simp
  rw [herase]
  exact (perm_cons_erase h).symm

theorem take_subperm (mem : (id, snodes) ∈ swarms.rows) (holds : key ∈ snodes)
    (hand : List PublicKey) :
    ((swarms.set id (snodes.filter fun k => k ≠ key)).nodes ++ key :: hand).Subperm
      (swarms.nodes ++ hand) := by
  rw [subperm_ext_iff]
  intro x _
  have hbefore := (nodes_perm mem).count_eq x
  have hafter := (nodes_set_perm swarms id (snodes.filter fun k => k ≠ key)).count_eq x
  have htaken := (cons_filter_subperm holds).count_le x
  simp only [count_append, count_cons] at hbefore hafter htaken ⊢
  omega

theorem take_perm (mem : (id, snodes) ∈ swarms.rows) (hnodup : snodes.Nodup) (holds : key ∈ snodes)
    (hand : List PublicKey) :
    ((swarms.set id (snodes.filter fun k => k ≠ key)).nodes ++ key :: hand).Perm
      (swarms.nodes ++ hand) := by
  rw [perm_iff_count]
  intro x
  have hbefore := (nodes_perm mem).count_eq x
  have hafter := (nodes_set_perm swarms id (snodes.filter fun k => k ≠ key)).count_eq x
  have htaken := (cons_filter_perm hnodup holds).count_eq x
  simp only [count_append, count_cons] at hbefore hafter htaken ⊢
  omega

theorem add_perm (hfree : id ∉ swarms.ids) (newSnodes hand : List PublicKey) :
    ((swarms.add id newSnodes).nodes ++ hand).Perm (swarms.nodes ++ (newSnodes ++ hand)) := by
  have hnodes : (swarms.add id newSnodes).nodes.Perm (newSnodes ++ swarms.nodes) :=
    (rows_add_perm hfree newSnodes).flatMap_right Prod.snd
  refine (hnodes.append_right hand).trans ?_
  rw [← append_assoc]
  exact perm_append_comm.append_right hand

theorem add_subperm (swarms : SwarmMap) (id : UInt64) (newSnodes hand : List PublicKey) :
    ((swarms.add id newSnodes).nodes ++ hand).Subperm (swarms.nodes ++ (newSnodes ++ hand)) := by
  by_cases hmem : id ∈ swarms.ids
  · rw [add_of_mem hmem]
    exact ((sublist_append_right newSnodes hand).append_left _).subperm
  · exact (add_perm hmem newSnodes hand).subperm

theorem erase_perm (mem : (id, snodes) ∈ swarms.rows) (hand : List PublicKey) :
    ((swarms.erase id).nodes ++ (snodes ++ hand)).Perm (swarms.nodes ++ hand) := by
  refine List.Perm.trans ?_ ((nodes_perm mem).append_right hand).symm
  rw [← append_assoc]
  exact perm_append_comm.append_right hand

theorem length_filter_add_one_le (holds : key ∈ snodes) :
    (snodes.filter fun k => k ≠ key).length + 1 ≤ snodes.length :=
  (cons_filter_subperm holds).length_le

theorem length_filter_add_one (hnodup : snodes.Nodup) (holds : key ∈ snodes) :
    (snodes.filter fun k => k ≠ key).length + 1 = snodes.length :=
  (cons_filter_perm hnodup holds).length_eq

theorem nodup_of_mem (mem : (id, snodes) ∈ swarms.rows) (h : swarms.nodes.Nodup) : snodes.Nodup :=
  (nodup_append'.mp ((nodes_perm mem).nodup_iff.mp h)).1

end Nodes

section Starving

variable {swarms : SwarmMap} {id : UInt64} {snodes : List PublicKey}

/-- A swarm that is not made smaller than the least size does not starve. -/
theorem starving_set_le (mem : (id, snodes) ∈ swarms.rows) {snodes' : List PublicKey}
    (h : snodes'.length < minSwarmSize → snodes.length < minSwarmSize) :
    (swarms.set id snodes').starving ≤ swarms.starving := by
  rw [starving_perm (rows_set_perm swarms id snodes'), starving_perm (rows_perm mem)]
  grind

theorem starving_add_le (swarms : SwarmMap) (id : UInt64) {newSnodes : List PublicKey}
    (h : newSnodes.length = newSwarmSize) :
    (swarms.add id newSnodes).starving ≤ swarms.starving := by
  by_cases hmem : id ∈ swarms.ids
  · rw [add_of_mem hmem]
  · rw [starving_perm (rows_add_perm hmem newSnodes), countP_cons, h, if_neg (by decide)]
    exact le_rfl

theorem starving_erase (mem : (id, snodes) ∈ swarms.rows) (poor : snodes.length < minSwarmSize) :
    (swarms.erase id).starving + 1 = swarms.starving := by
  rw [starving_perm (rows_perm mem), countP_cons, if_pos (by simpa using poor)]
  rfl

end Starving

section Step

variable {distinct : Prop} {a b : Assignment × List PublicKey}

/-- All nodes of a state, those at hand included. -/
def allNodes (a : Assignment × List PublicKey) : List PublicKey := a.1.swarms.nodes ++ a.2

/-- A step loses nodes at most. -/
theorem SwarmStep.subperm (h : SwarmStep distinct a b) : (allNodes b).Subperm (allNodes a) := by
  unfold allNodes
  cases h with
  | push key hand pos mem fits => exact (push_perm mem key hand).subperm
  | take hand pos mem holds rich => exact take_subperm mem holds hand
  | create hand newId size some healthy large => exact add_subperm _ _ _ hand
  | abandon s newSnodes hand =>
    exact ((sublist_append_right newSnodes hand).append_left _).subperm
  | dissolve hand mem poor idle => exact (erase_perm mem hand).subperm
  | reorder s perm => exact (perm.append_left _).symm.subperm

theorem SwarmSteps.subperm (h : SwarmSteps distinct a b) : (allNodes b).Subperm (allNodes a) := by
  induction h with
  | refl => exact List.Subperm.refl _
  | tail _ hstep ih => exact hstep.subperm.trans ih

theorem SwarmSteps.nodup (h : SwarmSteps distinct a b) (hnodup : (allNodes a).Nodup) :
    (allNodes b).Nodup := by
  obtain ⟨l, hperm, hsublist⟩ := h.subperm
  exact hperm.nodup_iff.mp (hsublist.nodup hnodup)

/-- Swarms stay large enough while no node is there twice. -/
theorem SwarmStep.starving_eq_zero (h : SwarmStep distinct a b) (hnodup : (allNodes a).Nodup)
    (hzero : a.1.swarms.starving = 0) : b.1.swarms.starving = 0 := by
  refine Nat.le_zero.mp ?_
  cases h with
  | push key hand pos mem fits =>
    refine (starving_set_le mem ?_).trans hzero.le
    rw [length_append]
    omega
  | take hand pos mem holds rich =>
    refine (starving_set_le mem ?_).trans hzero.le
    have hsize := length_filter_add_one (nodup_of_mem mem (nodup_append'.mp hnodup).1) holds
    omega
  | create hand newId size some healthy large => exact (starving_add_le _ _ size).trans hzero.le
  | abandon s newSnodes hand => exact hzero.le
  | dissolve hand mem poor idle =>
    have herased := starving_erase mem poor
    simp only at hzero
    omega
  | reorder s perm => exact hzero.le

theorem SwarmSteps.starving_eq_zero (h : SwarmSteps distinct a b) (hnodup : (allNodes a).Nodup)
    (hzero : a.1.swarms.starving = 0) : b.1.swarms.starving = 0 := by
  induction h with
  | refl => exact hzero
  | tail hsteps hstep ih => exact hstep.starving_eq_zero (SwarmSteps.nodup hsteps hnodup) ih

theorem SwarmMap.ids_add_perm (h : id ∉ swarms.ids)
    (newSnodes : List PublicKey) : (swarms.add id newSnodes).ids.Perm (id :: swarms.ids) :=
  (rows_add_perm h newSnodes).map Prod.fst

theorem SwarmMap.ids_erase_perm
    (h : (id, snodes) ∈ swarms.rows) : swarms.ids.Perm (id :: (swarms.erase id).ids) :=
  (rows_perm h).map Prod.fst

/-- No step hands out the id that stands for no swarm. -/
theorem SwarmStep.assigned (h : SwarmStep distinct a b) (hassigned : a.1.swarms.Assigned) :
    b.1.swarms.Assigned := by
  intro other hother
  cases h with
  | push key hand pos mem fits => exact hassigned other (ids_set mem _ ▸ hother)
  | take hand pos mem holds rich => exact hassigned other (ids_set mem _ ▸ hother)
  | @create s id newSnodes hand newId size some healthy large =>
    obtain ⟨hid, -⟩ := getNewSwarmId_spec hassigned newId
    by_cases hmem : id ∈ s.swarms.ids
    · simp only [add_of_mem hmem] at hother
      exact hassigned other hother
    · rcases mem_cons.mp ((ids_add_perm hmem newSnodes).mem_iff.mp hother)
        with rfl | hold
      · exact hid
      · exact hassigned other hold
  | abandon s newSnodes hand => exact hassigned other hother
  | @dissolve s id snodes hand mem poor idle =>
    exact hassigned other
      ((ids_erase_perm mem).mem_iff.mpr (mem_cons_of_mem id hother))
  | reorder s perm => exact hassigned other hother

theorem SwarmSteps.assigned (h : SwarmSteps distinct a b) (hassigned : a.1.swarms.Assigned) :
    b.1.swarms.Assigned := by
  induction h with
  | refl => exact hassigned
  | tail _ hstep ih => exact hstep.assigned ih

/-- What a run lowers: the number of nodes, and then the number of starving swarms. -/
def weight (a : Assignment × List PublicKey) : ℕ ×ₗ ℕ :=
  toLex ((allNodes a).length, a.1.swarms.starving)

theorem SwarmStep.weight_le (h : SwarmStep distinct a b) : weight b ≤ weight a := by
  have hlength := h.subperm.length_le
  rcases hlength.lt_or_eq with hless | hsame
  · exact Prod.Lex.toLex_le_toLex.mpr (Or.inl hless)
  · refine Prod.Lex.toLex_le_toLex.mpr (Or.inr ⟨hsame, ?_⟩)
    cases h with
    | push key hand pos mem fits =>
      refine starving_set_le mem ?_
      rw [length_append]
      omega
    | @take s id snodes key hand pos mem holds rich =>
      -- as many nodes as before means that only one left its swarm
      grind [allNodes, starving_set_le, length_nodes_set]
    | create hand newId size some healthy large => exact starving_add_le _ _ size
    | abandon s newSnodes hand => exact le_rfl
    | dissolve hand mem poor idle =>
      have herased := starving_erase mem poor
      simp only
      omega
    | reorder s perm => exact le_rfl

theorem SwarmSteps.weight_le (h : SwarmSteps distinct a b) : weight b ≤ weight a := by
  induction h with
  | refl => exact le_rfl
  | tail _ hstep ih => exact hstep.weight_le.trans ih

theorem weight_dissolve_lt {s : Assignment}
    (hand : List PublicKey) (mem : (id, snodes) ∈ s.swarms.rows)
    (poor : snodes.length < minSwarmSize) :
    weight ({ s with swarms := s.swarms.erase id }, snodes ++ hand) < weight (s, hand) := by
  refine Prod.Lex.toLex_lt_toLex.mpr (Or.inr ⟨(erase_perm mem hand).length_eq, ?_⟩)
  have herased := starving_erase mem poor
  simp only
  omega

end Step

end Arqma.ServiceNodes
