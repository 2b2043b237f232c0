import Arqma.Swarm

/-!
# Ids of new swarms

A new swarm gets the middle of the widest gap between the ids that are there, with
the last id next to the first. With two ids or more this id is free, and it is never
the one that stands for no swarm. With one id it is free unless the only swarm has
the middle id already.
-/
namespace Arqma.ServiceNodes
open Arqma.Cryptonote List UInt64

variable {best : UInt64 × ℕ} {n : ℕ}

section Gaps

variable {ids : List UInt64}

/-- The scan of up to `2 ^ 32` ids makes one round for each gap. -/
theorem scanGaps_eq_ok (hlen : ids.length ≤ 2 ^ 32) {fuel : ℕ} {idx : UInt32}
    (hidx : idx.toNat ≤ ids.length - 1) (hfuel : ids.length - 1 < idx.toNat + fuel) :
    scanGaps ids fuel idx best = .ok ((List.range' idx.toNat (ids.length - 1 - idx.toNat)).foldl
      (widestGapStep ids) best) := by
  induction fuel generalizing idx best with
  | zero => omega
  | succ fuel ih =>
    rw [scanGaps]
    split_ifs with hmore
    · have hnext : (idx + 1).toNat = idx.toNat + 1 := by
        rw [UInt32.toNat_add, UInt32.toNat_one, Nat.mod_eq_of_lt (by omega)]
      have hrest : ids.length - 1 - idx.toNat = ids.length - 1 - (idx.toNat + 1) + 1 := by omega
      rw [ih (by omega) (by omega), hnext, hrest, range'_succ, foldl_cons]
    · rw [Nat.sub_eq_zero_of_le (by omega), range'_zero, foldl_nil]

/-- Above `2 ^ 32` ids the index starts over before it reaches the last gap, and the scan goes on
for as long as it may. -/
theorem scanGaps_never_ends (hlen : 2 ^ 32 < ids.length) (fuel : ℕ) (idx : UInt32) :
    scanGaps ids fuel idx best = .error .outOfFuel := by
  induction fuel generalizing idx best with
  | zero => rfl
  | succ fuel ih =>
    have hidx := idx.toNat_lt
    rw [scanGaps, if_pos (by omega), ih]

/-- The middle of the gap that a scan of all gaps finds. -/
def middleOfWidestGap (ids : List UInt64) : UInt64 :=
  middleOfGap ids ((List.range (ids.length - 1)).foldl (widestGapStep ids) (0, 0))

theorem getNewSwarmId_eq (swarms : SwarmMap) :
    getNewSwarmId swarms =
      if swarms.ids.length = 0 then .ok 0
      else if swarms.ids.length = 1 then .ok (maxSwarmId / 2)
      else if 2 ^ 32 < swarms.ids.length then .error .outOfFuel
      else .ok (middleOfWidestGap swarms.ids) := by
  unfold getNewSwarmId
  split_ifs with hnone hone hmany
  · rfl
  · rfl
  · rw [scanGaps_never_ends hmany]
    rfl
  · rw [scanGaps_eq_ok (by omega) (by simp) (by simp; omega), UInt32.toNat_zero, Nat.sub_zero,
      ← range_eq_range']
    rfl

/-- Id `i` as a number. -/
def idAt (ids : List UInt64) (i : ℕ) : ℕ := (ids.getD i 0).toNat

/-- What the scan knows after `n` gaps. -/
structure WidestOf (ids : List UInt64) (n : ℕ) (best : UInt64 × ℕ) : Prop where
  index : 0 < n → best.2 < n
  width : 0 < n → best.1.toNat = idAt ids (best.2 + 1) - idAt ids best.2
  widest : ∀ j < n, idAt ids (j + 1) - idAt ids j ≤ best.1.toNat

theorem idAt_lt (hsorted : ids.Pairwise fun a b => a.toNat < b.toNat) {i j : ℕ} (hij : i < j)
    (hj : j < ids.length) : idAt ids i < idAt ids j := by
  grind [idAt, pairwise_iff_getElem.mp]

theorem widestOf_step (hsorted : ids.Pairwise fun a b => a.toNat < b.toNat)
    (hn : n + 1 < ids.length) (h : WidestOf ids n best) (hstart : n = 0 → best.1 = 0) :
    WidestOf ids (n + 1) (widestGapStep ids best n) := by
  have hgap : idAt ids n < idAt ids (n + 1) := idAt_lt hsorted (Nat.lt_succ_self n) hn
  have hdist : (ids.getD (n + 1) 0 - ids.getD n 0).toNat = idAt ids (n + 1) - idAt ids n :=
    toNat_sub_of_le hgap.le
  unfold widestGapStep
  simp only [UInt64.lt_iff_toNat_lt, hdist]
  split_ifs with hwider
  · refine ⟨fun _ => Nat.lt_succ_self n, fun _ => hdist, fun j hj => ?_⟩
    rw [hdist]
    rcases Nat.lt_succ_iff_lt_or_eq.mp hj with hj | rfl
    · exact (h.widest j hj).trans hwider.le
    · exact le_rfl
  · have hpos : 0 < n := by
      by_contra hzero
      have hfirst := hstart (by omega)
      rw [hfirst, UInt64.toNat_zero] at hwider
      omega
    refine ⟨fun _ => (h.index hpos).trans (Nat.lt_succ_self n), fun _ => h.width hpos, ?_⟩
    intro j hj
    rcases Nat.lt_succ_iff_lt_or_eq.mp hj with hj | rfl
    · exact h.widest j hj
    · omega

theorem widestOf_foldl (hsorted : ids.Pairwise fun a b => a.toNat < b.toNat)
    (hn : n < ids.length) :
    WidestOf ids n ((List.range n).foldl (widestGapStep ids) (0, 0)) := by
  induction n with
  | zero => exact ⟨by simp, by simp, by simp⟩
  | succ n ih =>
    grind [range_succ, widestOf_step]

/-- Gaps of one at most span no more than their number. -/
theorem idAt_le_add (hgap : ∀ j < n, idAt ids (j + 1) - idAt ids j ≤ 1) :
    idAt ids n ≤ idAt ids 0 + n := by
  induction n <;> grind

theorem toNat_getLastD : (ids.getLastD 0).toNat = idAt ids (ids.length - 1) := by
  rw [idAt, getLastD_eq_getLast?, getLast?_eq_getElem?, getD_eq_getElem?_getD]

theorem toNat_headD : (ids.headD 0).toNat = idAt ids 0 := by
  rw [idAt, headD_eq_head?_getD, head?_eq_getElem?, getD_eq_getElem?_getD]

theorem exists_idAt_of_mem {id : UInt64} (h : id ∈ ids) :
    ∃ i < ids.length, idAt ids i = id.toNat := by
  obtain ⟨i, hi, rfl⟩ := getElem_of_mem h
  exact ⟨i, hi, by simp [idAt, getD_eq_getElem?_getD, hi]⟩

/-- The id half a width above an id, counted on from zero behind the last id. -/
def halfwayFrom (ids : List UInt64) (best : UInt64 × ℕ) : UInt64 :=
  let diff := best.1 / 2
  let toMax := maxSwarmId - ids.getD best.2 0
  if toMax < diff then diff - toMax - 1 else ids.getD best.2 0 + diff

theorem toNat_halfwayFrom (hbound : idAt ids best.2 ≤ 2 ^ 64 - 2) : (halfwayFrom ids best).toNat =
      if 2 ^ 64 - 2 - idAt ids best.2 < best.1.toNat / 2 then
        best.1.toNat / 2 - (2 ^ 64 - 2 - idAt ids best.2) - 1
      else idAt ids best.2 + best.1.toNat / 2 := by
  have htop : maxSwarmId.toNat = 2 ^ 64 - 2 := rfl
  have htoMax : (maxSwarmId - ids.getD best.2 0).toNat = 2 ^ 64 - 2 - idAt ids best.2 :=
    toNat_sub_of_le hbound
  have hdiff : (best.1 / 2).toNat = best.1.toNat / 2 := UInt64.toNat_div best.1 2
  unfold halfwayFrom
  simp only [UInt64.lt_iff_toNat_lt, htoMax, hdiff]
  split_ifs with hover
  · have hfirst := toNat_sub_of_le (a := best.1 / 2) (b := maxSwarmId - ids.getD best.2 0)
      (by rw [htoMax, hdiff]; exact hover.le)
    rw [htoMax, hdiff] at hfirst
    rw [toNat_sub_of_le (by rw [hfirst, toNat_one]; omega), hfirst, toNat_one]
  · rw [toNat_add_of_lt (by rw [hdiff]; simp only [idAt] at *; omega), hdiff]
    rfl

/-- The middle of an inner gap lies between two neighbours. -/
theorem halfwayFrom_inner (hsorted : ids.Pairwise fun a b => a.toNat < b.toNat)
    (hbound : ∀ i < ids.length, idAt ids i ≤ 2 ^ 64 - 2)
    (hindex : best.2 + 1 < ids.length)
    (hwidth : best.1.toNat = idAt ids (best.2 + 1) - idAt ids best.2) (hwide : 2 ≤ best.1.toNat) :
    halfwayFrom ids best ∉ ids ∧ halfwayFrom ids best ≤ maxSwarmId := by
  have hnext := hbound _ hindex
  have hhalf := toNat_halfwayFrom (hbound best.2 (by omega))
  rw [if_neg (by omega)] at hhalf
  refine ⟨fun hmem => ?_, ?_⟩
  · obtain ⟨i, hi, heq⟩ := exists_idAt_of_mem hmem
    rcases Nat.lt_or_ge best.2 i with hbehind | hbefore
    · rcases Nat.eq_or_lt_of_le (Nat.succ_le_of_lt hbehind) with rfl | hfar
      · simp only [Nat.succ_eq_add_one] at heq
        omega
      · have := idAt_lt hsorted hfar hi
        simp only [Nat.succ_eq_add_one] at this
        omega
    · rcases Nat.eq_or_lt_of_le hbefore with rfl | hfar
      · omega
      · have := idAt_lt hsorted hfar (by omega)
        omega
  · rw [le_iff_toNat_le, hhalf, show maxSwarmId.toNat = 2 ^ 64 - 2 from rfl]
    omega

/-- The middle of the gap over the end lies above all ids or below them. -/
theorem halfwayFrom_over (hsorted : ids.Pairwise fun a b => a.toNat < b.toNat)
    (hbound : ∀ i < ids.length, idAt ids i ≤ 2 ^ 64 - 2)
    (hsome : 0 < ids.length) (hindex : best.2 = ids.length - 1)
    (hwidth : best.1.toNat = 2 ^ 64 - 1 - idAt ids best.2 + idAt ids 0) (hwide : 2 ≤ best.1.toNat) :
    halfwayFrom ids best ∉ ids ∧ halfwayFrom ids best ≤ maxSwarmId := by
  have hlast := hbound best.2 (by omega)
  have hhalf := toNat_halfwayFrom hlast
  refine ⟨fun hmem => ?_, ?_⟩
  · obtain ⟨i, hi, heq⟩ := exists_idAt_of_mem hmem
    have hupper : idAt ids i ≤ idAt ids best.2 := by
      rcases Nat.eq_or_lt_of_le (show i ≤ best.2 by omega) with rfl | hlt
      · exact le_rfl
      · exact (idAt_lt hsorted hlt (by omega)).le
    have hlower : idAt ids 0 ≤ idAt ids i := by
      rcases Nat.eq_zero_or_pos i with rfl | hpos
      · exact le_rfl
      · exact (idAt_lt hsorted hpos hi).le
    split_ifs at hhalf <;> omega
  · rw [le_iff_toNat_le, show maxSwarmId.toNat = 2 ^ 64 - 2 from rfl]
    have := best.1.toNat_lt
    split_ifs at hhalf <;> omega

/-- The width of the gap behind id `i`; behind the last id the count goes on from zero. -/
def gapAfter (ids : List UInt64) (i : ℕ) : ℕ :=
  if i + 1 < ids.length then idAt ids (i + 1) - idAt ids i else 2 ^ 64 - 1 - idAt ids i + idAt ids 0

theorem idAt_le (hmax : ∀ id ∈ ids, id ≤ maxSwarmId) {i : ℕ} (hi : i < ids.length) :
    idAt ids i ≤ 2 ^ 64 - 2 := by
  have hmem : ids[i] ≤ maxSwarmId := hmax _ (getElem_mem hi)
  simpa [idAt, getD_eq_getElem?_getD, hi, le_iff_toNat_le, maxSwarmId] using hmem

/-- The scan finds a widest gap, and its width is exact. -/
theorem middleOfWidestGap_eq (hsorted : ids.Pairwise fun a b => a.toNat < b.toNat)
    (hmax : ∀ id ∈ ids, id ≤ maxSwarmId) (htwo : 2 ≤ ids.length) :
    ∃ best : UInt64 × ℕ, middleOfWidestGap ids = halfwayFrom ids best ∧ best.2 < ids.length ∧
      best.1.toNat = gapAfter ids best.2 ∧ ∀ j < ids.length, gapAfter ids j ≤ best.1.toNat := by
  have htop : maxSwarmId.toNat = 2 ^ 64 - 2 := rfl
  have hlast : ids.length - 1 < ids.length := by omega
  have hscan := widestOf_foldl hsorted hlast
  have hfirstLast := idAt_lt hsorted (show 0 < ids.length - 1 by omega) hlast
  have hlastBound := idAt_le hmax hlast
  have hover : (maxSwarmId - ids.getLastD 0 + ids.headD 0 + 1).toNat =
      gapAfter ids (ids.length - 1) := by
    have hrest : (maxSwarmId - ids.getLastD 0).toNat = 2 ^ 64 - 2 - idAt ids (ids.length - 1) := by
      rw [toNat_sub_of_le (by rw [toNat_getLastD, htop]; exact hlastBound), toNat_getLastD, htop]
    have hsum : (maxSwarmId - ids.getLastD 0 + ids.headD 0).toNat =
        2 ^ 64 - 2 - idAt ids (ids.length - 1) + idAt ids 0 := by
      rw [toNat_add_of_lt (by rw [hrest, toNat_headD]; omega), hrest, toNat_headD]
    rw [toNat_add_of_lt (by rw [hsum, toNat_one]; omega), hsum, toNat_one, gapAfter,
      if_neg (by omega)]
    omega
  have hinner : ∀ j < ids.length - 1, gapAfter ids j = idAt ids (j + 1) - idAt ids j :=
    fun j hj => if_pos (by omega)
  refine ⟨_, rfl, ?_⟩
  generalize (List.range (ids.length - 1)).foldl (widestGapStep ids) (0, 0) = inner at hscan ⊢
  generalize maxSwarmId - ids.getLastD 0 + ids.headD 0 + 1 = dist at hover ⊢
  have hindex := hscan.index (by omega)
  have hwidth := hscan.width (by omega)
  have hwidest : ∀ j < ids.length, gapAfter ids j ≤ max inner.1.toNat dist.toNat := by
    intro j hj
    rcases Nat.eq_or_lt_of_le (Nat.le_pred_of_lt hj) with rfl | hj
    · exact hover ▸ le_max_right _ _
    · exact (hinner j hj ▸ hscan.widest j hj).trans (le_max_left _ _)
  simp only [UInt64.lt_iff_toNat_lt]
  split_ifs with hwider
  · exact ⟨hlast, hover, fun j hj => (hwidest j hj).trans (max_le hwider.le le_rfl)⟩
  · refine ⟨by omega, (hinner _ hindex).symm ▸ hwidth, fun j hj => ?_⟩
    exact (hwidest j hj).trans (max_le le_rfl (by omega))

/-- Some gap is at least two wide, and its middle is free. -/
theorem middleOfWidestGap_fresh (hsorted : ids.Pairwise fun a b => a.toNat < b.toNat)
    (hmax : ∀ id ∈ ids, id ≤ maxSwarmId) (htwo : 2 ≤ ids.length) (hlen : ids.length ≤ 2 ^ 32) :
    middleOfWidestGap ids ∉ ids ∧ middleOfWidestGap ids ≤ maxSwarmId := by
  obtain ⟨best, heq, hindex, hwidth, hwidest⟩ := middleOfWidestGap_eq hsorted hmax htwo
  have hbound : ∀ i < ids.length, idAt ids i ≤ 2 ^ 64 - 2 := fun i => idAt_le hmax
  -- gaps of one at most would mean more ids than there are
  have hwide : 2 ≤ best.1.toNat := by
    by_contra hnarrow
    have hspan : idAt ids (ids.length - 1) ≤ _ := idAt_le_add fun j hj => by
      have hgap := hwidest j (by omega)
      rw [gapAfter, if_pos (by omega)] at hgap
      omega
    have hend := hwidest (ids.length - 1) (by omega)
    rw [gapAfter, if_neg (by omega)] at hend
    have := hbound (ids.length - 1) (by omega)
    omega
  rw [heq]
  unfold gapAfter at hwidth
  split_ifs at hwidth with hinner
  · exact halfwayFrom_inner hsorted hbound hinner hwidth hwide
  · exact halfwayFrom_over hsorted hbound (by omega) (by omega) hwidth hwide

/-- The new id is the middle of a widest gap on the circle of the ids, computed exactly. -/
def MiddleOfWidest (ids : List UInt64) (id : UInt64) : Prop :=
  ∃ i < ids.length, (∀ j < ids.length, gapAfter ids j ≤ gapAfter ids i) ∧
    id.toNat = (idAt ids i + gapAfter ids i / 2) % (2 ^ 64 - 1)

theorem middleOfWidest_middleOfWidestGap (hsorted : ids.Pairwise fun a b => a.toNat < b.toNat)
    (hmax : ∀ id ∈ ids, id ≤ maxSwarmId) (htwo : 2 ≤ ids.length) :
    MiddleOfWidest ids (middleOfWidestGap ids) := by
  obtain ⟨best, heq, hindex, hwidth, hwidest⟩ := middleOfWidestGap_eq hsorted hmax htwo
  have hbound := idAt_le hmax hindex
  have hlt := best.1.toNat_lt
  refine ⟨best.2, hindex, fun j hj => hwidth ▸ hwidest j hj, ?_⟩
  rw [heq, toNat_halfwayFrom hbound, ← hwidth]
  split_ifs with hover
  · rw [Nat.mod_eq_sub_mod (by omega), Nat.mod_eq_of_lt (by omega)]
    omega
  · rw [Nat.mod_eq_of_lt (by omega)]

end Gaps

section NewId

variable {swarms : SwarmMap} {id : UInt64}

/-- No swarm has the id that stands for none. -/
def SwarmMap.Assigned (swarms : SwarmMap) : Prop := ∀ id ∈ swarms.ids, id ≤ maxSwarmId

theorem SwarmMap.ids_sorted (swarms : SwarmMap) :
    swarms.ids.Pairwise fun a b => a.toNat < b.toNat :=
  pairwise_map.mpr swarms.sorted

/-- The only map for which the id of a new swarm is taken. -/
def SwarmMap.Clashes (swarms : SwarmMap) : Prop := swarms.ids = [maxSwarmId / 2]

instance (swarms : SwarmMap) : Decidable swarms.Clashes := inferInstanceAs (Decidable (_ = _))

theorem getNewSwarmId_spec (hassigned : swarms.Assigned) (h : getNewSwarmId swarms = .ok id) :
    id ≤ maxSwarmId ∧ (id ∈ swarms.ids ↔ swarms.Clashes) := by
  rw [getNewSwarmId_eq] at h
  unfold SwarmMap.Clashes
  split_ifs at h with hnone hone hmany
  · obtain rfl := Except.ok.inj h
    rw [length_eq_zero_iff.mp hnone]
    exact ⟨by decide, by simp⟩
  · obtain rfl := Except.ok.inj h
    obtain ⟨only, honly⟩ := length_eq_one_iff.mp hone
    rw [honly]
    exact ⟨by decide, by simp [eq_comm]⟩
  · grind [SwarmMap.Assigned, middleOfWidestGap_fresh, swarms.ids_sorted]

/-- With two ids or more, up to `2 ^ 32`, a new swarm gets a free id, the exact middle of a widest
gap; with more the call does not end. -/
theorem fresh_swarm_id_iff (htwo : 2 ≤ swarms.ids.length)
    (hassigned : ∀ id ∈ swarms.ids, id ≠ unassignedSwarmId) :
    (∃ id, getNewSwarmId swarms = .ok id ∧ id ∉ swarms.ids ∧ id ≠ unassignedSwarmId ∧
        MiddleOfWidest swarms.ids id) ↔ swarms.ids.length ≤ 2 ^ 32 := by
  have hmax : ∀ id ∈ swarms.ids, id ≤ maxSwarmId := fun id hid => by
    have hne : id.toNat ≠ 2 ^ 64 - 1 := fun h => hassigned id hid (UInt64.toNat_inj.mp h)
    have hlt := id.toNat_lt
    exact UInt64.le_iff_toNat_le.mpr (Nat.le_of_lt_succ (by simp [maxSwarmId]; omega))
  rw [getNewSwarmId_eq, if_neg (by omega), if_neg (by omega)]
  split_ifs with hmany
  · exact ⟨fun ⟨_, hid, _⟩ => (nomatch hid), fun hfew => absurd hmany (by omega)⟩
  · have hfew : swarms.ids.length ≤ 2 ^ 32 := by omega
    obtain ⟨hfree, hle⟩ := middleOfWidestGap_fresh swarms.ids_sorted hmax htwo hfew
    refine ⟨fun _ => hfew, fun _ => ⟨_, rfl, hfree, ?_, ?_⟩⟩
    · rintro heq
      rw [heq] at hle
      exact absurd hle (by decide)
    · exact middleOfWidest_middleOfWidestGap swarms.ids_sorted hmax htwo

/-- Empty swarms with the first `n` ids. -/
def firstSwarms (n : ℕ) (hn : n ≤ 2 ^ 63) : SwarmMap where
  rows := (List.range n).map fun i => (UInt64.ofNat i, [])
  sorted := pairwise_map.mpr <| pairwise_lt_range.imp_of_mem fun {i j} hi hj hlt => by
    have hj := mem_range.mp hj
    have hsize : ∀ k < n, (UInt64.ofNat k).toNat = k := fun k hk =>
      UInt64.toNat_ofNat_of_lt' (by simp [UInt64.size]; omega)
    simpa [hsize i (by omega), hsize j hj] using hlt

theorem length_ids_firstSwarms (n : ℕ) (hn : n ≤ 2 ^ 63) : (firstSwarms n hn).ids.length = n := by
  simp [SwarmMap.ids, firstSwarms]

theorem ne_unassigned_of_mem_firstSwarms {hn : n ≤ 2 ^ 63} :
    ∀ id ∈ (firstSwarms n hn).ids, id ≠ unassignedSwarmId := by
  intro id hid heq
  obtain ⟨row, hrow, rfl⟩ := mem_map.mp hid
  obtain ⟨i, hi, rfl⟩ := mem_map.mp hrow
  have hi := mem_range.mp hi
  have hnat := congrArg UInt64.toNat heq
  rw [toNat_ofNat_of_lt' (by simp [UInt64.size]; omega)] at hnat
  exact absurd hnat (by simp [unassignedSwarmId]; omega)

theorem two_swarms_fresh_id : ∃ id, getNewSwarmId (firstSwarms 2 (by omega)) = .ok id ∧
    id ∉ (firstSwarms 2 (by omega)).ids ∧ id ≠ unassignedSwarmId ∧
    MiddleOfWidest (firstSwarms 2 (by omega)).ids id :=
  (fresh_swarm_id_iff (by simp [length_ids_firstSwarms])
    ne_unassigned_of_mem_firstSwarms).mpr (by simp [length_ids_firstSwarms])

theorem many_swarms_no_id :
    let swarms := firstSwarms (2 ^ 32 + 1) (by omega)
    2 ≤ swarms.ids.length ∧ swarms.ids.length < 2 ^ 63 ∧
      (∀ id ∈ swarms.ids, id ≠ unassignedSwarmId) ∧
      (∀ fuel, scanGaps swarms.ids fuel 0 (0, 0) = .error .outOfFuel) ∧
      getNewSwarmId swarms = .error .outOfFuel := by
  intro swarms
  have hlength : swarms.ids.length = 2 ^ 32 + 1 := length_ids_firstSwarms _ _
  refine ⟨by omega, by omega, ne_unassigned_of_mem_firstSwarms,
    fun fuel => scanGaps_never_ends (by omega) fuel 0, ?_⟩
  rw [getNewSwarmId_eq, if_neg (by omega), if_neg (by omega), if_pos (by omega)]

end NewId

end Arqma.ServiceNodes
