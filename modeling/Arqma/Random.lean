import Mathlib.Data.Nat.Find
import Arqma.Checked

/-!
# Portable random choices

A seeded generator is the stream of its outputs, one stream for every seed. A
choice below `n` rejects the outputs from a cut-off on, so its loop ends only on a
stream that falls below the cut-off again; `RandomEngine` is the type of the
streams on which every such loop ends, and `rejectionLoop` the loop on any stream.
-/
namespace Arqma

variable {n : ℕ}

namespace RandomEngine

/-- The largest output, `rng.max()`. -/
def max : ℕ := 2 ^ 64 - 1

/-- The cut-off of a choice below `n`. -/
def secureMax (n : ℕ) : ℕ := max - max % n

end RandomEngine

structure RandomEngine where
  output : UInt64 → ℕ → UInt64
  fair : ∀ seed i n, 0 < n → n ≤ RandomEngine.max →
    ∃ k, (output seed (i + k)).toNat < RandomEngine.secureMax n

namespace RandomEngine

theorem secureMax_eq (n : ℕ) : secureMax n = n * (max / n) := by
  have := Nat.div_add_mod max n
  unfold secureMax
  omega

theorem secureMax_pos (hpos : 0 < n) (hmax : n ≤ max) : 0 < secureMax n := by
  rw [secureMax_eq]
  exact Nat.mul_pos hpos (Nat.div_pos hmax hpos)

/-- An output below the cut-off gives a choice below `n`. -/
theorem div_lt_of_lt_secureMax {n x : ℕ} (hpos : 0 < n) (hx : x < secureMax n) :
    x / (secureMax n / n) < n := by
  rw [secureMax_eq] at hx ⊢
  rw [Nat.mul_div_cancel_left _ hpos]
  exact Nat.div_lt_of_lt_mul (by rwa [mul_comm] at hx)

/-- The stream that is zero everywhere. -/
def zero : RandomEngine where
  output _ _ := 0
  fair _ _ _ hpos hmax := ⟨0, secureMax_pos hpos hmax⟩

variable (rng : RandomEngine)

/-- `uniform_distribution_portable`: the choice below `n` made from position
`pos` of the stream, with the position after it. -/
def uniformDistributionPortable (seed : UInt64) (pos n : ℕ) : ℕ × ℕ :=
  if h : 0 < n ∧ n ≤ max then
    let k := Nat.find (rng.fair seed pos n h.1 h.2)
    ((rng.output seed (pos + k)).toNat / (secureMax n / n), pos + k + 1)
  else
    (0, pos)

theorem uniformDistributionPortable_lt (seed : UInt64) (pos : ℕ) (hpos : 0 < n) :
    (rng.uniformDistributionPortable seed pos n).1 < n := by
  unfold uniformDistributionPortable
  split_ifs with h
  · exact div_lt_of_lt_secureMax hpos (Nat.find_spec (rng.fair seed pos n h.1 h.2))
  · exact hpos

/-- One round of `shuffle_portable`: exchange entry `i` with an earlier one. -/
def shuffleStep {α : Type*} (seed : UInt64) (acc : Array α × ℕ) (i : ℕ) : Array α × ℕ :=
  let choice := rng.uniformDistributionPortable seed acc.2 (i + 1)
  (acc.1.swapIfInBounds i choice.1, choice.2)

def shufflePortable {α : Type*} (l : List α) (seed : UInt64) : List α :=
  ((List.range' 1 (l.length - 1)).foldl (rng.shuffleStep seed) (l.toArray, 0)).1.toList

theorem swapIfInBounds_perm {α : Type*} (a : Array α) (i j : ℕ) :
    (a.swapIfInBounds i j).toList.Perm a.toList := by
  unfold Array.swapIfInBounds
  split_ifs
  · exact (Array.swap_perm _ _).toList
  · exact List.Perm.refl _
  · exact List.Perm.refl _

theorem shuffle_foldl_perm {α : Type*} (seed : UInt64) (is : List ℕ) (acc : Array α × ℕ) :
    (is.foldl (rng.shuffleStep seed) acc).1.toList.Perm acc.1.toList := by
  induction is generalizing acc with
  | nil => exact List.Perm.refl _
  | cons i is ih => exact (ih _).trans (swapIfInBounds_perm acc.1 i _)

/-- A shuffle only reorders. -/
theorem shufflePortable_perm {α : Type*} (l : List α) (seed : UInt64) :
    (rng.shufflePortable l seed).Perm l :=
  rng.shuffle_foldl_perm seed _ (l.toArray, 0)

section Stream

variable (out : ℕ → UInt64)

/-- The loop of `uniform_distribution_portable` on any stream. -/
def rejectionLoop (n : ℕ) : ℕ → ℕ → Checked (ℕ × ℕ)
  | 0, _ => .error .outOfFuel
  | fuel + 1, pos =>
    let x := (out pos).toNat
    if secureMax n ≤ x then rejectionLoop n fuel (pos + 1)
    else .ok (x / (secureMax n / n), pos + 1)

/-- `uniform_distribution_portable` on any stream, which divides by `n`. -/
def drawBelow (n fuel pos : ℕ) : Checked (ℕ × ℕ) :=
  if n = 0 then .error .divisionByZero else rejectionLoop out n fuel pos

theorem rejectionLoop_sound (hpos : 0 < n) (fuel pos : ℕ) :
    (rejectionLoop out n fuel pos).Sound fun choice => choice.1 < n := by
  induction fuel generalizing pos with
  | zero => exact .outOfFuel
  | succ fuel ih =>
    unfold rejectionLoop
    dsimp only
    split_ifs with hrejected
    · exact ih (pos + 1)
    · exact .ok (div_lt_of_lt_secureMax hpos (not_le.mp hrejected))

theorem drawBelow_sound (hpos : 0 < n) (fuel pos : ℕ) :
    (drawBelow out n fuel pos).Sound fun choice => choice.1 < n := by
  rw [drawBelow, if_neg hpos.ne']
  exact rejectionLoop_sound out hpos fuel pos

/-- The loop stops at the first output below the cut-off. -/
theorem rejectionLoop_eq_ok {n k fuel pos : ℕ}
    (hrejected : ∀ j < k, secureMax n ≤ (out (pos + j)).toNat)
    (haccepted : (out (pos + k)).toNat < secureMax n) (hfuel : k < fuel) :
    rejectionLoop out n fuel pos =
      .ok ((out (pos + k)).toNat / (secureMax n / n), pos + k + 1) := by
  induction k generalizing fuel pos with
  | zero =>
    grind [rejectionLoop, Nat.exists_eq_add_of_lt]
  | succ k ih =>
    obtain ⟨fuel, rfl⟩ : ∃ m, fuel = m + 1 := ⟨fuel - 1, by omega⟩
    have hshift : ∀ j, pos + 1 + j = pos + (j + 1) := fun j => by omega
    have hrest := @ih fuel (pos + 1)
    rw [rejectionLoop]
    rw [if_pos (by simpa using hrejected 0 (Nat.succ_pos k))]
    simp only [hshift] at hrest
    exact hrest (fun j hj => hrejected (j + 1) (by omega)) haccepted (by omega)

/-- On a stream that stays at the cut-off or above it the loop does not end. -/
theorem rejectionLoop_endless {n pos : ℕ} (hstuck : ∀ i, pos ≤ i → secureMax n ≤ (out i).toNat)
    (fuel : ℕ) : rejectionLoop out n fuel pos = .error .outOfFuel := by
  induction fuel generalizing pos with
  | zero => rfl
  | succ fuel ih =>
    rw [rejectionLoop, if_pos (hstuck pos le_rfl)]
    exact ih fun i hi => hstuck i (by omega)

/-- One round of `shuffle_portable` on any stream. -/
def shuffleRound {α : Type} (fuel : ℕ) (acc : Array α × ℕ) (i : ℕ) : Checked (Array α × ℕ) := do
  let choice ← drawBelow out (i + 1) fuel acc.2
  if h : i < acc.1.size ∧ choice.1 < acc.1.size then
    .ok (acc.1.swap i choice.1 h.1 h.2, choice.2)
  else
    .error .outOfRange

/-- `shuffle_portable` on any stream. -/
def shuffleOn {α : Type} (fuel : ℕ) (l : List α) : Checked (List α) := do
  let acc ← (List.range' 1 (l.length - 1)).foldlM (shuffleRound out fuel) (l.toArray, 0)
  pure acc.1.toList

theorem shuffleOn_sound {α : Type} (fuel : ℕ) (l : List α) :
    (shuffleOn out fuel l).Sound fun shuffled => shuffled.Perm l := by
  refine (Checked.Sound.foldlM (P := fun acc => acc.1.toList.Perm l) ?_ (.refl l)).bind
    fun acc hacc => .ok hacc
  intro i hi acc hacc
  refine (drawBelow_sound out (Nat.succ_pos i) fuel acc.2).bind fun choice hchoice => ?_
  have hsize : acc.1.size = l.length := by simpa using hacc.length_eq
  have hlast : i < l.length := by
    have := List.mem_range'_1.mp hi
    omega
  have hbounds : i < acc.1.size ∧ choice.1 < acc.1.size := by omega
  rw [dif_pos hbounds]
  exact .ok ((Array.swap_perm hbounds.1 hbounds.2).toList.trans hacc)

end Stream

/-- The choice of an engine is what the loop settles on. -/
theorem drawBelow_settles (seed : UInt64) (pos : ℕ) (hpos : 0 < n) (hmax : n ≤ max) :
    Checked.Settles (fun fuel => drawBelow (rng.output seed) n fuel pos)
      (.ok (rng.uniformDistributionPortable seed pos n)) := by
  filter_upwards [Filter.eventually_gt_atTop (Nat.find (rng.fair seed pos n hpos hmax))]
    with fuel hfuel
  rw [drawBelow, if_neg hpos.ne', uniformDistributionPortable, dif_pos ⟨hpos, hmax⟩]
  exact rejectionLoop_eq_ok _
    (fun j hj => not_lt.mp (Nat.find_min (rng.fair seed pos n hpos hmax) hj))
    (Nat.find_spec (rng.fair seed pos n hpos hmax)) hfuel

theorem shuffleOn_settles {α : Type} (seed : UInt64) (l : List α) (hmax : l.length ≤ max) :
    Checked.Settles (fun fuel => shuffleOn (rng.output seed) fuel l)
      (.ok (rng.shufflePortable l seed)) := by
  refine (Checked.Settles.foldlM (g := rng.shuffleStep seed)
    (P := fun acc => acc.1.size = l.length) ?_ (by simp)).bind (.const _)
  intro i hi acc hsize
  have hlast : i < l.length := by
    have := List.mem_range'_1.mp hi
    omega
  have hchoice := rng.uniformDistributionPortable_lt seed acc.2 (n := i + 1) (by omega)
  have hbounds : i < acc.1.size ∧ (rng.uniformDistributionPortable seed acc.2 (i + 1)).1 <
      acc.1.size := by omega
  have hround : rng.shuffleStep seed acc i = (acc.1.swap i _ hbounds.1 hbounds.2,
        (rng.uniformDistributionPortable seed acc.2 (i + 1)).2) := by
    simp [shuffleStep, Array.swapIfInBounds, hbounds.1, hbounds.2]
  refine ⟨by simp [hround, hsize], ?_⟩
  refine (rng.drawBelow_settles seed acc.2 (Nat.succ_pos i) (by omega)).bind ?_
  rw [dif_pos hbounds, hround]
  exact .const _

end RandomEngine
end Arqma
