import Arqma.SwarmRuns

/-!
# Nodes kept by a reassignment

A reassignment of distinct nodes never duplicates or invents a node and never hands
out the id that stands for no swarm. A new swarm gets an id that is taken exactly when
the only swarm has the middle id; its seven nodes are then lost, because `insert` does
not touch the entry that is there.
-/
namespace Arqma.ServiceNodes
open Arqma.Cryptonote List SwarmMap

variable {s : Assignment} {id : UInt64} {swarms : SwarmMap} {snodes hand : List PublicKey}
  {out : ℕ → UInt64} {order : SizeSort}

/-- What holds along a reassignment of the distinct nodes `total` that starts from the
swarms `initial`. -/
structure SwarmRun (total : List PublicKey) (initial : SwarmMap)
    (a : Assignment × List PublicKey) : Prop where
  nodes : (allNodes a).Subperm total
  lost : (allNodes a).length + newSwarmSize * a.1.created.countP (·.Clashes) = total.length
  assigned : a.1.swarms.Assigned
  healthy : a.1.created ≠ [] → a.1.swarms.starving = 0
  fewer : a.1.created = [] → a.1.swarms.ids.length ≤ initial.ids.length

namespace SwarmRun

variable {total : List PublicKey} {initial : SwarmMap} {a b : Assignment × List PublicKey}

theorem nodup (h : SwarmRun total initial a) (htotal : total.Nodup) : (allNodes a).Nodup := by
  obtain ⟨l, hperm, hsublist⟩ := h.nodes
  exact hperm.nodup_iff.mp (hsublist.nodup htotal)

theorem of_moved (h : SwarmRun total initial a) (htotal : total.Nodup) (hstep : SwarmStep True a b)
    (hperm : (allNodes b).Perm (allNodes a)) (hids : b.1.swarms.ids = a.1.swarms.ids)
    (hcreated : b.1.created = a.1.created) : SwarmRun total initial b where
  nodes := hperm.subperm.trans h.nodes
  lost := by
    rw [hperm.length_eq, hcreated]
    exact h.lost
  assigned := hstep.assigned h.assigned
  healthy := fun hsome => hstep.starving_eq_zero (h.nodup htotal) (h.healthy (hcreated ▸ hsome))
  fewer := by
    rw [hcreated, hids]
    exact h.fewer

theorem of_created {newSnodes hand : List PublicKey}
    (h : SwarmRun total initial (s, newSnodes ++ hand)) (newId : getNewSwarmId s.swarms = .ok id)
    (size : newSnodes.length = newSwarmSize) (some : s.swarms.rows ≠ [])
    (healthy : s.swarms.starving = 0)
    (large : minSwarmSize + calcThreshold s.swarms ≤ s.swarms.nodes.length + newSwarmSize) :
    SwarmRun total initial ({ s with
      swarms := s.swarms.add id newSnodes
      created := s.created ++ [s.swarms] }, hand) := by
  have hclash : id ∈ s.swarms.ids ↔ s.swarms.Clashes := (getNewSwarmId_spec h.assigned newId).2
  have hcount : (s.created ++ [s.swarms]).countP (·.Clashes) =
      s.created.countP (·.Clashes) + if s.swarms.Clashes then 1 else 0 := by
    simp [countP_append, countP_cons]
  have hlost := h.lost
  refine ⟨(add_subperm s.swarms id newSnodes hand).trans h.nodes, ?_, ?_, ?_, ?_⟩
  · rw [hcount]
    simp only [allNodes, length_append] at hlost ⊢
    by_cases htaken : s.swarms.Clashes
    · rw [if_pos htaken, add_of_mem (hclash.mpr htaken), Nat.mul_succ]
      rw [size] at hlost
      omega
    · have hperm := (add_perm (fun hmem => htaken (hclash.mp hmem)) newSnodes hand).length_eq
      simp only [length_append] at hperm
      rw [if_neg htaken, Nat.add_zero]
      omega
  · exact (@SwarmStep.create True _ _ _ hand newId size some (fun _ => healthy)
      fun _ => large).assigned h.assigned
  · exact fun _ => Nat.le_zero.mp (healthy ▸ starving_add_le s.swarms id size)
  · intro hnone
    simp at hnone

/-- While a swarm starves, no swarm has been created. -/
theorem created_eq_nil (h : SwarmRun total initial (s, hand))
    (mem : (id, snodes) ∈ s.swarms.rows) (poor : snodes.length < minSwarmSize) :
    s.created = [] := by
  by_contra hsome
  have hzero := h.healthy hsome
  have herased := starving_erase mem poor
  simp only at hzero
  omega

theorem of_dissolved (h : SwarmRun total initial (s, hand))
    (mem : (id, snodes) ∈ s.swarms.rows) (poor : snodes.length < minSwarmSize)
    (idle : hand = []) :
    SwarmRun total initial ({ s with swarms := s.swarms.erase id }, snodes ++ hand) := by
  have hperm : (allNodes ({ s with swarms := s.swarms.erase id }, snodes ++ hand)).Perm
      (allNodes (s, hand)) := erase_perm mem hand
  have hnone := h.created_eq_nil mem poor
  have hids := ids_erase_perm mem
  refine ⟨hperm.subperm.trans h.nodes, ?_,
    (@SwarmStep.dissolve True _ _ _ hand mem poor idle).assigned h.assigned,
    fun hsome => absurd hnone hsome, fun _ => ?_⟩
  · rw [hperm.length_eq]
    exact h.lost
  · have hfewer := h.fewer hnone
    rw [hids.length_eq, length_cons] at hfewer
    exact (Nat.le_succ _).trans hfewer

/-- Every step keeps the invariant. -/
theorem step (h : SwarmRun total initial a) (htotal : total.Nodup) (hstep : SwarmStep True a b) :
    SwarmRun total initial b := by
  have hnodup := h.nodup htotal
  cases hstep with
  | push key hand pos mem fits =>
    exact h.of_moved htotal (.push key hand pos mem fits) (push_perm mem key hand)
      (ids_set mem _) rfl
  | take hand pos mem holds rich =>
    have hsnodes := nodup_of_mem mem (nodup_append'.mp hnodup).1
    exact h.of_moved htotal (.take hand pos mem holds rich) (take_perm mem hsnodes holds hand)
      (ids_set mem _) rfl
  | create hand newId size some healthy large =>
    exact h.of_created newId size some (healthy trivial) (large trivial)
  | abandon s newSnodes hand repeated => exact absurd trivial repeated
  | dissolve hand mem poor idle => exact h.of_dissolved mem poor idle
  | reorder s perm =>
    exact h.of_moved htotal (.reorder s perm) (perm.append_left _).symm rfl rfl

theorem steps (h : SwarmRun total initial a) (htotal : total.Nodup) (hsteps : SwarmSteps True a b) :
    SwarmRun total initial b := by
  induction hsteps with
  | refl => exact h
  | tail _ hstep ih => exact ih.step htotal hstep

theorem perm_iff (h : SwarmRun total initial a) :
    (allNodes a).Perm total ↔ ∀ m ∈ a.1.created, ¬ m.Clashes := by
  have hlost := h.lost
  constructor
  · intro hperm
    rw [hperm.length_eq, Nat.add_eq_left] at hlost
    have hcount := (Nat.mul_eq_zero.mp hlost).resolve_left (by decide)
    simpa using countP_eq_zero.mp hcount
  · grind [countP_eq_zero.mpr, h.nodes.perm_of_length_le]

end SwarmRun

theorem ids_startingSwarms (h : id ∈ (startingSwarms swarms).ids) :
    id = 0 ∨ id ∈ swarms.ids ∧ id ≠ unassignedSwarmId := by
  rcases startingSwarms_cases swarms with ⟨-, hrows⟩ | ⟨-, hsame⟩
  · rw [SwarmMap.ids, hrows] at h
    exact Or.inl (mem_singleton.mp h)
  · rw [hsame] at h
    obtain ⟨entry, hentry, rfl⟩ := mem_map.mp h
    obtain ⟨hmem, hkey⟩ := OrderedTable.mem_remove.mp hentry
    exact Or.inr ⟨mem_map_of_mem hmem, fun heq => hkey (congrArg UInt64.toNat heq)⟩

theorem le_maxSwarmId : id ≤ maxSwarmId ↔ id ≠ unassignedSwarmId := by
  grind [maxSwarmId, unassignedSwarmId]

theorem swarmRun_startingState (swarms : SwarmMap) :
    SwarmRun swarms.nodes (startingSwarms swarms) (startingState swarms) := by
  have hperm := allNodes_startingState swarms
  refine ⟨hperm.subperm, hperm.length_eq, fun id hid => le_maxSwarmId.mpr ?_,
    fun hsome => absurd rfl hsome, fun _ => le_rfl⟩
  rcases ids_startingSwarms hid with rfl | ⟨-, hne⟩
  · decide
  · exact hne

/-- The run of a reassignment that returns. -/
theorem calcSwarmChanges_run {fuel : ℕ} (hdistinct : swarms.nodes.Nodup)
    (hsome : swarms.rows.length ≠ 0)
    (h : calcSwarmChanges order out fuel swarms = .ok s) :
    SwarmRun swarms.nodes (startingSwarms swarms) (s, []) :=
  (swarmRun_startingState swarms).steps hdistinct
    (calcSwarmChanges_steps hsome h fun _ => hdistinct)

/-- A reassignment invents no node. -/
theorem calcSwarmChanges_subset {fuel : ℕ} (hdistinct : swarms.nodes.Nodup)
    (h : calcSwarmChanges order out fuel swarms = .ok s) : s.swarms.nodes ⊆ swarms.nodes := by
  by_cases hnone : swarms.rows.length = 0
  · rw [calcSwarmChanges, if_pos hnone] at h
    obtain rfl := Except.ok.inj h
    exact List.Subset.refl _
  · have hsub := (calcSwarmChanges_run hdistinct hnone h).nodes.subset
    rwa [allNodes, append_nil] at hsub

end Arqma.ServiceNodes
