import Arqma.IntUtil

/-!
# The difficulty algorithm of version 16

The next difficulty is the average over the window, times the target, over a weighted average of
the solve times. Everything is computed in words of 64 bits. The large difficulties that would
overflow are meant to take another branch, but the threshold is too high for windows of more than
fifty blocks, and in between the product wraps.
-/
namespace Arqma.Chain
open IntUtil

section Algorithm

def difficultyTargetV16 : UInt64 := 120

def difficultyWindowV16 : ℕ := 90

/-- `TS`: the timestamps with those that go back replaced by the one before. -/
def tightened (timestamps : List UInt64) : ℕ → UInt64
  | 0 => timestamps.getD 0 0
  | i + 1 =>
    let last := tightened timestamps i
    let next := timestamps.getD (i + 1) 0
    if last < next then next else last

/-- A long solve time is tempered if it comes after fast ones. -/
def solveTime (ts : ℕ → UInt64) (i : ℕ) : UInt64 :=
  let target := difficultyTargetV16
  let st := ts i - ts (i - 1)
  if 4 < i ∧ 5 * target < st ∧ ts (i - 1) - ts (i - 4) < 14 * target / 10 then 2 * target
  else if 7 < i ∧ 5 * target < st ∧ ts (i - 1) - ts (i - 7) < 4 * target then 2 * target
  else min (3 * target) st

def weightedSolveTimes (ts : ℕ → UInt64) : ℕ → UInt64
  | 0 => 0
  | i + 1 => weightedSolveTimes ts i + solveTime ts (i + 1) * UInt64.ofNat (i + 1)

/-- `L`, which is not let go below a twentieth of the square of the window. -/
def limitedSolveTimes (ts : ℕ → UInt64) (n : ℕ) : UInt64 :=
  let l := weightedSolveTimes ts n
  let least := UInt64.ofNat n * UInt64.ofNat n * difficultyTargetV16 / 20
  if l < least then least else l

def averageDifficulty (cumulativeDifficulties : List UInt64) (n : ℕ) : UInt64 :=
  (cumulativeDifficulties.getD n 0 - cumulativeDifficulties.getD 0 0) / UInt64.ofNat n

/-- The difficulty before it is adjusted to the last blocks and rounded. -/
def lwmaEstimate (n l avgD : UInt64) : UInt64 :=
  let target := difficultyTargetV16
  if 2000000 * n * n * target < avgD then avgD / (200 * l) * (n * (n + 1) * target * 97)
  else avgD * n * (n + 1) * target * 97 / (200 * l)

/-- The rule for a jump by ten percent after fast blocks. -/
def jumped (ts : ℕ → UInt64) (n : ℕ) (prevD avgD nextD : UInt64) : UInt64 :=
  let target := difficultyTargetV16
  if ts n - ts (n - 1) < 2 * target / 10 ∨ ts n - ts (n - 2) < 5 * target / 10 ∨
      ts n - ts (n - 3) < 8 * target / 10 then
    max nextD (min (prevD * 110 / 100) (105 * avgD / 100))
  else nextD

/-- The loop that sets the insignificant digits to zero. -/
def roundLoop : ℕ → UInt64 → UInt64 → UInt64
  | 0, _, nextD => nextD
  | fuel + 1, i, nextD =>
    if 1 < i then
      if i * 100 < nextD then (nextD + i / 2) / i * i else roundLoop fuel (i / 10) nextD
    else nextD

def roundDigits (nextD : UInt64) : UInt64 := roundLoop 10 1000000000 nextD

/-- The last three digits tell the average of the last ten solve times. -/
def setLastDigits (ts : ℕ → UInt64) (n : ℕ) (nextD : UInt64) : UInt64 :=
  if 100000 < nextD then (nextD + 500) / 1000 * 1000 + min 999 ((ts n - ts (n - 10)) / 10)
  else nextD

/-- The number of blocks, one less than the timestamps, and never more than the window. -/
def blocksUsed (timestamps : List UInt64) : ℕ :=
  if timestamps.length < difficultyWindowV16 + 1 then timestamps.length - 1 else difficultyWindowV16

def estimateV16 (timestamps cumulativeDifficulties : List UInt64) : UInt64 :=
  let n := blocksUsed timestamps
  lwmaEstimate (UInt64.ofNat n) (limitedSolveTimes (tightened timestamps) n)
    (averageDifficulty cumulativeDifficulties n)

def nextDifficultyV16 (timestamps cumulativeDifficulties : List UInt64) : UInt64 :=
  if timestamps.length ≤ 16 then 80000
  else
    let n := blocksUsed timestamps
    let ts := tightened timestamps
    let prevD := cumulativeDifficulties.getD n 0 - cumulativeDifficulties.getD (n - 1) 0
    setLastDigits ts n (roundDigits (jumped ts n prevD (averageDifficulty cumulativeDifficulties n)
      (estimateV16 timestamps cumulativeDifficulties)))

end Algorithm

section Exact

def latest (timestamps : List UInt64) : ℕ → ℕ
  | 0 => (timestamps.getD 0 0).toNat
  | i + 1 => max (latest timestamps i) (timestamps.getD (i + 1) 0).toNat

def exactSolveTime (t : ℕ → ℕ) (i : ℕ) : ℕ :=
  if 4 < i ∧ 600 < t i - t (i - 1) ∧ t (i - 1) - t (i - 4) < 168 then 240
  else if 7 < i ∧ 600 < t i - t (i - 1) ∧ t (i - 1) - t (i - 7) < 480 then 240
  else min 360 (t i - t (i - 1))

/-- The weighted sum of the solve times, with its lower limit. -/
def exactSolveTimes (t : ℕ → ℕ) (n : ℕ) : ℕ :=
  max (n * n * 120 / 20) (∑ i ∈ Finset.range n, exactSolveTime t (i + 1) * (i + 1))

def exactAverage (cumulativeDifficulties : List UInt64) (n : ℕ) : ℕ :=
  ((cumulativeDifficulties.getD n 0).toNat - (cumulativeDifficulties.getD 0 0).toNat) / n

def exactLwma (n l avgD : ℕ) : ℕ := avgD * n * (n + 1) * 120 * 97 / (200 * l)

end Exact

section SolveTimes

variable (timestamps : List UInt64)

theorem toNat_tightened (i : ℕ) : (tightened timestamps i).toNat = latest timestamps i := by
  induction i with
  | zero => rfl
  | succ i ih =>
    grind [tightened, latest, UInt64.lt_iff_toNat_lt]

theorem latest_mono : Monotone (latest timestamps) :=
  monotone_nat_of_le_succ fun _ => le_max_left _ _

/-- Differences of tightened timestamps do not wrap. -/
theorem toNat_gap {i j : ℕ} (h : j ≤ i) : (tightened timestamps i - tightened timestamps j).toNat =
      latest timestamps i - latest timestamps j := by
  have hle : tightened timestamps j ≤ tightened timestamps i := by
    rw [UInt64.le_iff_toNat_le, toNat_tightened, toNat_tightened]
    exact latest_mono timestamps h
  rw [UInt64.toNat_sub_of_le _ _ hle, toNat_tightened, toNat_tightened]

theorem toNat_solveTime (i : ℕ) :
    (solveTime (tightened timestamps) i).toNat = exactSolveTime (latest timestamps) i := by
  have hfive : (5 * difficultyTargetV16).toNat = 600 := rfl
  have hfast : (14 * difficultyTargetV16 / 10).toNat = 168 := rfl
  have hfaster : (4 * difficultyTargetV16).toNat = 480 := rfl
  simp only [solveTime, exactSolveTime, UInt64.lt_iff_toNat_lt, hfive, hfast, hfaster,
    toNat_gap timestamps (Nat.sub_le i 1), toNat_gap timestamps (show i - 4 ≤ i - 1 by omega),
    toNat_gap timestamps (show i - 7 ≤ i - 1 by omega)]
  split_ifs
  · rfl
  · rfl
  · rw [UInt64.toNat_min, toNat_gap timestamps (Nat.sub_le i 1)]
    rfl

theorem exactSolveTime_le (t : ℕ → ℕ) (i : ℕ) : exactSolveTime t i ≤ 360 := by
  unfold exactSolveTime
  split_ifs
  · decide
  · decide
  · exact min_le_left _ _

theorem sum_exactSolveTime_le (t : ℕ → ℕ) (n : ℕ) :
    ∑ i ∈ Finset.range n, exactSolveTime t (i + 1) * (i + 1) ≤ 180 * (n * (n + 1)) := by
  induction n with
  | zero => exact Nat.le_refl 0
  | succ n ih =>
    rw [Finset.sum_range_succ]
    have hlast : exactSolveTime t (n + 1) * (n + 1) ≤ 360 * (n + 1) :=
      Nat.mul_le_mul_right _ (exactSolveTime_le t (n + 1))
    calc _ ≤ 180 * (n * (n + 1)) + 360 * (n + 1) := Nat.add_le_add ih hlast
      _ = 180 * ((n + 1) * (n + 1 + 1)) := by ring

theorem toNat_weightedSolveTimes {n : ℕ} (hn : n ≤ 90) :
    (weightedSolveTimes (tightened timestamps) n).toNat =
      ∑ i ∈ Finset.range n, exactSolveTime (latest timestamps) (i + 1) * (i + 1) := by
  induction n with
  | zero => rfl
  | succ n ih =>
    have hsum := sum_exactSolveTime_le (latest timestamps) n
    have hsmall : 180 * (n * (n + 1)) ≤ 180 * (90 * 90) :=
      Nat.mul_le_mul_left _ (Nat.mul_le_mul (by omega) (by omega))
    have hone := exactSolveTime_le (latest timestamps) (n + 1)
    have hlast : exactSolveTime (latest timestamps) (n + 1) * (n + 1) ≤ 360 * 90 :=
      Nat.mul_le_mul hone (by omega)
    have hword : (UInt64.ofNat (n + 1)).toNat = n + 1 := by
      rw [UInt64.toNat_ofNat', Nat.mod_eq_of_lt (by omega)]
    rw [weightedSolveTimes, Finset.sum_range_succ, UInt64.toNat_add, ih (by omega),
      toNat_mul_of_lt (by rw [toNat_solveTime, hword]; omega), toNat_solveTime, hword,
      Nat.mod_eq_of_lt (by omega)]

theorem toNat_limitedSolveTimes {n : ℕ} (hn : n ≤ 90) :
    (limitedSolveTimes (tightened timestamps) n).toNat = exactSolveTimes (latest timestamps) n := by
  have hsquare : n * n ≤ 90 * 90 := Nat.mul_le_mul hn hn
  have hword : (UInt64.ofNat n).toNat = n := by
    rw [UInt64.toNat_ofNat', Nat.mod_eq_of_lt (by omega)]
  have hleast : (UInt64.ofNat n * UInt64.ofNat n * difficultyTargetV16 / 20).toNat =
      n * n * 120 / 20 := by
    have hn2 : (UInt64.ofNat n * UInt64.ofNat n).toNat = n * n := by
      rw [toNat_mul_of_lt (by rw [hword]; omega), hword]
    have htarget : difficultyTargetV16.toNat = 120 := rfl
    have htwenty : (20 : UInt64).toNat = 20 := rfl
    rw [UInt64.toNat_div, toNat_mul_of_lt (by rw [hn2, htarget]; omega), hn2, htarget, htwenty]
  grind [limitedSolveTimes, exactSolveTimes, UInt64.lt_iff_toNat_lt, toNat_weightedSolveTimes]

theorem exactSolveTimes_bounds (t : ℕ → ℕ) (n : ℕ) :
    6 * (n * n) ≤ exactSolveTimes t n ∧ exactSolveTimes t n ≤ 180 * (n * (n + 1)) := by
  have hleast : n * n * 120 / 20 = 6 * (n * n) := by omega
  have hsquare : n * n ≤ n * (n + 1) := Nat.mul_le_mul_left n (Nat.le_succ n)
  rw [exactSolveTimes, hleast]
  exact ⟨le_max_left _ _, max_le (by omega) (sum_exactSolveTime_le t n)⟩

end SolveTimes

section Estimate

variable {n l avgD : ℕ}

/-- The factor of the average. -/
def lwmaFactor (n : ℕ) : ℕ := n * (n + 1) * 120 * 97

theorem exactLwma_eq (n l avgD : ℕ) : exactLwma n l avgD = avgD * lwmaFactor n / (200 * l) := by
  rw [exactLwma, lwmaFactor]
  congr 1
  ring

/-- Above this average the branch for large difficulties is taken. -/
def largeAbove (n : ℕ) : ℕ := 2000000 * (n * n) * 120

theorem ofNat_lwmaFactor (n : ℕ) :
    UInt64.ofNat n * (UInt64.ofNat n + 1) * difficultyTargetV16 * 97 =
      UInt64.ofNat (lwmaFactor n) := by
  simp only [lwmaFactor, UInt64.ofNat_mul, UInt64.ofNat_add]
  rfl

/-- The estimate with its products taken modulo a word. -/
theorem toNat_lwmaEstimate (hn : n ≤ 90) (l avgD : UInt64) (hl : l.toNat ≤ 180 * (n * (n + 1))) :
    (lwmaEstimate (UInt64.ofNat n) l avgD).toNat =
      if largeAbove n < avgD.toNat then avgD.toNat / (200 * l.toNat) * lwmaFactor n % 2 ^ 64
      else avgD.toNat * lwmaFactor n % 2 ^ 64 / (200 * l.toNat) := by
  have hsquare : n * n ≤ 90 * 90 := Nat.mul_le_mul hn hn
  have hproduct : n * (n + 1) ≤ 90 * 91 := Nat.mul_le_mul hn (by omega)
  have hthreshold : (2000000 * UInt64.ofNat n * UInt64.ofNat n * difficultyTargetV16).toNat =
      largeAbove n := by
    have hword : 2000000 * UInt64.ofNat n * UInt64.ofNat n * difficultyTargetV16 =
        UInt64.ofNat (largeAbove n) := by
      simp only [largeAbove, UInt64.ofNat_mul, ← UInt64.mul_assoc]
      rfl
    rw [hword, UInt64.toNat_ofNat', Nat.mod_eq_of_lt (by unfold largeAbove; omega)]
  have hdivisor : (200 * l).toNat = 200 * l.toNat := by
    have htwo : (200 : UInt64).toNat = 200 := rfl
    rw [toNat_mul_of_lt (by rw [htwo]; omega), htwo]
  have hsmall : avgD * UInt64.ofNat n * (UInt64.ofNat n + 1) * difficultyTargetV16 * 97 =
      UInt64.ofNat (avgD.toNat * lwmaFactor n) := by
    rw [UInt64.ofNat_mul, ← ofNat_lwmaFactor, UInt64.ofNat_toNat]
    simp only [UInt64.mul_assoc]
  simp only [lwmaEstimate, UInt64.lt_iff_toNat_lt, hthreshold]
  split_ifs
  · rw [ofNat_lwmaFactor, UInt64.toNat_mul, UInt64.toNat_div, hdivisor, UInt64.toNat_ofNat',
      Nat.mul_mod_mod]
  · rw [hsmall, UInt64.toNat_div, hdivisor, UInt64.toNat_ofNat']

/-- The product of the branch for small difficulties does not fit into a word. -/
def Wraps (n avgD : ℕ) : Prop := avgD ≤ largeAbove n ∧ 2 ^ 64 ≤ avgD * lwmaFactor n

/-- The estimate is the exact value, up to a hundredth of it in the branch for large
difficulties. -/
structure NearExact (n avgD estimate exact : ℕ) : Prop where
  small : avgD ≤ largeAbove n → estimate = exact
  large : largeAbove n < avgD → estimate ≤ exact ∧ 100 * (exact - estimate) < exact

/-- A remainder by a word is divided to less than the whole. -/
theorem mod_div_lt {p m : ℕ} (hm : 0 < m) (hle : m ≤ 2 ^ 64) (hp : 2 ^ 64 ≤ p) :
    p % 2 ^ 64 / m < p / m := by
  have hlost : p % 2 ^ 64 + m ≤ p := by omega
  calc p % 2 ^ 64 / m < (p % 2 ^ 64 + m) / m := by
        rw [Nat.add_div_right _ hm]
        exact Nat.lt_succ_self _
    _ ≤ p / m := Nat.div_le_div_right hlost

/-- Dividing first loses less than one factor. -/
theorem div_mul_bounds {a k m : ℕ} (hm : 0 < m) (hk : 0 < k) :
    a / m * k ≤ a * k / m ∧ a * k / m < a / m * k + k := by
  constructor
  · rw [Nat.le_div_iff_mul_le hm]
    calc a / m * k * m = a / m * m * k := by ring
      _ ≤ a * k := Nat.mul_le_mul_right k (Nat.div_mul_le_self a m)
  · rw [Nat.div_lt_iff_lt_mul hm]
    calc a * k < (a / m + 1) * m * k :=
          Nat.mul_lt_mul_of_pos_right (Nat.lt_div_mul_add hm |>.trans_eq (by ring)) hk
      _ = (a / m * k + k) * m := by ring

/-- The size of the window and the limits of the solve times. -/
structure LwmaInput (n l : ℕ) : Prop where
  lower : 16 ≤ n
  upper : n ≤ 90
  solveTimes_lower : 6 * (n * n) ≤ l
  solveTimes_upper : l ≤ 180 * (n * (n + 1))

theorem LwmaInput.divisor_pos (h : LwmaInput n l) : 0 < 200 * l := by
  have hsquare : 16 * 16 ≤ n * n := Nat.mul_le_mul h.lower h.lower
  have := h.solveTimes_lower
  omega

theorem LwmaInput.divisor_le (h : LwmaInput n l) : 200 * l ≤ 2 ^ 64 := by
  have hproduct : n * (n + 1) ≤ 90 * 91 := Nat.mul_le_mul h.upper (by have := h.upper; omega)
  have := h.solveTimes_upper
  omega

/-- In the branch for large difficulties the quotient keeps two digits. -/
theorem LwmaInput.le_quotient (h : LwmaInput n l) (hlarge : largeAbove n < avgD) :
    100 ≤ avgD / (200 * l) := by
  have hproduct : n * (n + 1) ≤ 2 * (n * n) := by
    have := Nat.mul_le_mul_left n h.lower
    rw [Nat.mul_add]
    omega
  have := h.solveTimes_upper
  rw [Nat.le_div_iff_mul_le h.divisor_pos]
  unfold largeAbove at hlarge
  omega

theorem lwmaFactor_pos (hn : 16 ≤ n) : 0 < lwmaFactor n := by
  unfold lwmaFactor
  positivity

/-- The estimate of the branch for large difficulties. -/
theorem LwmaInput.large_estimate (h : LwmaInput n l) (hlarge : largeAbove n < avgD)
    (hfits : exactLwma n l avgD < 2 ^ 64) :
    avgD / (200 * l) * lwmaFactor n % 2 ^ 64 = avgD / (200 * l) * lwmaFactor n ∧
      avgD / (200 * l) * lwmaFactor n ≤ exactLwma n l avgD ∧
      100 * (exactLwma n l avgD - avgD / (200 * l) * lwmaFactor n) < exactLwma n l avgD := by
  have hquotient := h.le_quotient hlarge
  obtain ⟨hle, hlt⟩ := div_mul_bounds (a := avgD) h.divisor_pos (lwmaFactor_pos h.lower)
  rw [← exactLwma_eq] at hle hlt
  have hscaled : 100 * lwmaFactor n ≤ avgD / (200 * l) * lwmaFactor n :=
    Nat.mul_le_mul_right _ hquotient
  exact ⟨Nat.mod_eq_of_lt (by omega), hle, by omega⟩

/-- The estimate is right exactly if the product of the branch for small difficulties fits. -/
theorem nearExact_iff {words avg : UInt64} (h : LwmaInput n words.toNat)
    (hfits : exactLwma n words.toNat avg.toNat < 2 ^ 64) :
    NearExact n avg.toNat (lwmaEstimate (UInt64.ofNat n) words avg).toNat
        (exactLwma n words.toNat avg.toNat) ↔ ¬ Wraps n avg.toNat := by
  rw [toNat_lwmaEstimate h.upper words avg h.solveTimes_upper]
  by_cases hlarge : largeAbove n < avg.toNat
  · obtain ⟨hmod, hle, hclose⟩ := h.large_estimate hlarge hfits
    rw [if_pos hlarge, hmod]
    exact iff_of_true ⟨fun hsmall => absurd hlarge (not_lt.mpr hsmall), fun _ => ⟨hle, hclose⟩⟩
      fun hwraps => absurd hlarge (not_lt.mpr hwraps.1)
  · rw [if_neg hlarge, exactLwma_eq]
    constructor
    · rintro ⟨hsmall, -⟩ ⟨hle, hwraps⟩
      exact (mod_div_lt h.divisor_pos h.divisor_le hwraps).ne (hsmall hle)
    · intro hwraps
      have hfit : avg.toNat * lwmaFactor n < 2 ^ 64 :=
        not_le.mp fun hle => hwraps ⟨not_lt.mp hlarge, hle⟩
      rw [Nat.mod_eq_of_lt hfit]
      exact ⟨fun _ => rfl, fun hlarge' => absurd hlarge' hlarge⟩

/-- An average of four is enough for the estimate not to be zero. -/
theorem estimate_pos {words avg : UInt64} (h : LwmaInput n words.toNat)
    (hfits : exactLwma n words.toNat avg.toNat < 2 ^ 64) (hwraps : ¬ Wraps n avg.toNat)
    (havg : 4 ≤ avg.toNat) : 0 < (lwmaEstimate (UInt64.ofNat n) words avg).toNat := by
  have hnear := (nearExact_iff h hfits).mpr hwraps
  by_cases hlarge : largeAbove n < avg.toNat
  · obtain ⟨hle, hclose⟩ := hnear.large hlarge
    omega
  · rw [hnear.small (not_lt.mp hlarge), exactLwma_eq, Nat.div_pos_iff]
    refine ⟨h.divisor_pos, ?_⟩
    have hscaled : 4 * lwmaFactor n ≤ avg.toNat * lwmaFactor n := Nat.mul_le_mul_right _ havg
    have := h.solveTimes_upper
    unfold lwmaFactor at hscaled ⊢
    omega

end Estimate

section Rounding

variable {i d : UInt64}

theorem toNat_rounded (hroom : d.toNat + i.toNat / 2 < 2 ^ 64) :
    ((d + i / 2) / i * i).toNat = (d.toNat + i.toNat / 2) / i.toNat * i.toNat := by
  have htwo : (2 : UInt64).toNat = 2 := rfl
  have hsum : (d + i / 2).toNat = d.toNat + i.toNat / 2 := by
    rw [UInt64.toNat_add, UInt64.toNat_div, htwo, Nat.mod_eq_of_lt hroom]
  have hle := Nat.div_mul_le_self (d.toNat + i.toNat / 2) i.toNat
  rw [toNat_mul_of_lt (by rw [UInt64.toNat_div, hsum]; omega), UInt64.toNat_div, hsum]

/-- Below the largest step of the loop a value that is not zero stays so and hardly grows. -/
theorem roundLoop_spec (fuel : ℕ) (hi : i.toNat ≤ 1000000000) (hd : d.toNat ≠ 0)
    (hsmall : d.toNat ≤ 100000000000) :
    (roundLoop fuel i d).toNat ≠ 0 ∧ (roundLoop fuel i d).toNat ≤ 100500000000 := by
  induction fuel generalizing i with
  | zero => exact ⟨hd, by rw [roundLoop]; omega⟩
  | succ fuel ih =>
    have hhundred : (i * 100).toNat = i.toNat * 100 := by
      have htoNat : (100 : UInt64).toNat = 100 := rfl
      rw [toNat_mul_of_lt (by rw [htoNat]; omega), htoNat]
    rw [roundLoop]
    simp only [UInt64.lt_iff_toNat_lt, hhundred]
    split_ifs with hone hround
    · rw [toNat_rounded (by omega)]
      have hpos : 0 < i.toNat := by
        have hone' : (1 : UInt64).toNat = 1 := rfl
        omega
      have hquotient : 1 ≤ (d.toNat + i.toNat / 2) / i.toNat :=
        (Nat.le_div_iff_mul_le hpos).mpr (by omega)
      have hproduct := Nat.mul_le_mul hquotient (le_refl i.toNat)
      have hle := Nat.div_mul_le_self (d.toNat + i.toNat / 2) i.toNat
      exact ⟨by omega, by omega⟩
    · refine ih ?_
      rw [UInt64.toNat_div]
      exact (Nat.div_le_self _ _).trans hi
    · exact ⟨hd, by omega⟩

theorem roundDigits_of_large (hlarge : 100000000000 < d.toNat) :
    roundDigits d = (d + 500000000) / 1000000000 * 1000000000 := by
  grind [roundDigits, roundLoop, UInt64.lt_iff_toNat_lt.mpr]

/-- Only a value that the rounding takes past a word becomes zero. -/
theorem roundDigits_spec (hd : d.toNat ≠ 0) :
    ((roundDigits d).toNat ≠ 0 ∧ (roundDigits d).toNat + 2000 < 2 ^ 64 ∧
        d.toNat + 500000000 < 2 ^ 64) ∨
      ((roundDigits d).toNat = 0 ∧ 2 ^ 64 ≤ d.toNat + 500000000) := by
  have hword := d.toNat_lt
  by_cases hlarge : 100000000000 < d.toNat
  · grind [UInt64.toNat_add, roundDigits_of_large, toNat_mul_of_lt, UInt64.toNat_div]
  · obtain ⟨hne, hle⟩ := roundLoop_spec 10 (i := 1000000000) (by decide) hd (by omega)
    exact Or.inl ⟨hne, by rw [roundDigits]; omega, by omega⟩

theorem setLastDigits_zero (ts : ℕ → UInt64) (n : ℕ) (h : d.toNat = 0) :
    (setLastDigits ts n d).toNat = 0 := by
  have hnot : ¬ (100000 : UInt64) < d := by
    rw [UInt64.lt_iff_toNat_lt, h]
    exact Nat.not_lt_zero _
  rw [setLastDigits, if_neg hnot, h]

theorem setLastDigits_ne_zero (ts : ℕ → UInt64) (n : ℕ) (hd : d.toNat ≠ 0)
    (hroom : d.toNat + 2000 < 2 ^ 64) : (setLastDigits ts n d).toNat ≠ 0 := by
  unfold setLastDigits
  split_ifs with hlarge
  · have hlimit : (100000 : UInt64).toNat = 100000 := rfl
    rw [UInt64.lt_iff_toNat_lt, hlimit] at hlarge
    have hthousand : (1000 : UInt64).toNat = 1000 := rfl
    have hhalf : (500 : UInt64).toNat = 500 := rfl
    have hsum : (d + 500).toNat = d.toNat + 500 := by
      rw [UInt64.toNat_add, hhalf, Nat.mod_eq_of_lt (by omega)]
    have hproduct : ((d + 500) / 1000 * 1000).toNat = (d.toNat + 500) / 1000 * 1000 := by
      rw [toNat_mul_of_lt (by rw [UInt64.toNat_div, hsum, hthousand]; omega), UInt64.toNat_div,
        hsum, hthousand]
    grind [UInt64.toNat_min, UInt64.toNat_add]
  · exact hd

/-- The last steps give zero exactly if the rounding goes past a word. -/
theorem setLastDigits_roundDigits (ts : ℕ → UInt64) (n : ℕ) (hd : d.toNat ≠ 0) :
    (setLastDigits ts n (roundDigits d)).toNat ≠ 0 ↔ d.toNat + 500000000 < 2 ^ 64 := by
  obtain ⟨hne, hroom, hfits⟩ | ⟨hzero, hpast⟩ := roundDigits_spec hd
  · exact iff_of_true (setLastDigits_ne_zero ts n hne hroom) hfits
  · exact iff_of_false (not_not_intro (setLastDigits_zero ts n hzero)) (by omega)

/-- A jump does not take the difficulty far above the estimate or a hundredth of a word. -/
theorem jumped_bounds (ts : ℕ → UInt64) (n : ℕ) (prevD avgD nextD : UInt64) :
    nextD.toNat ≤ (jumped ts n prevD avgD nextD).toNat ∧
      (jumped ts n prevD avgD nextD).toNat ≤ max nextD.toNat (2 ^ 64 / 100) := by
  unfold jumped
  dsimp only
  split_ifs
  · have hjump : (min (prevD * 110 / 100) (105 * avgD / 100)).toNat ≤ 2 ^ 64 / 100 := by
      rw [UInt64.toNat_min, UInt64.toNat_div]
      exact (min_le_left _ _).trans (Nat.div_le_div_right (prevD * 110).toNat_lt.le)
    rw [UInt64.toNat_max]
    exact ⟨le_max_left _ _, max_le_max (le_refl _) hjump⟩
  · exact ⟨le_refl _, le_max_left _ _⟩

end Rounding

section Window

/-- Between 17 and 91 blocks, with cumulative difficulties that grow. -/
structure LwmaWindow (timestamps cumulativeDifficulties : List UInt64) : Prop where
  length_eq : cumulativeDifficulties.length = timestamps.length
  lower : 17 ≤ timestamps.length
  upper : timestamps.length ≤ 91
  increasing : cumulativeDifficulties.Pairwise fun a b => a.toNat < b.toNat

variable {timestamps cumulativeDifficulties : List UInt64}

theorem LwmaWindow.blocksUsed_eq (h : LwmaWindow timestamps cumulativeDifficulties) :
    blocksUsed timestamps = timestamps.length - 1 := by
  have := h.upper
  unfold blocksUsed difficultyWindowV16
  split_ifs <;> omega

theorem LwmaWindow.first_lt_last (h : LwmaWindow timestamps cumulativeDifficulties) :
    (cumulativeDifficulties.getD 0 0).toNat <
      (cumulativeDifficulties.getD (timestamps.length - 1) 0).toNat := by
  grind [h.lower, h.length_eq, List.pairwise_iff_getElem.mp, h.increasing]

theorem LwmaWindow.toNat_averageDifficulty (h : LwmaWindow timestamps cumulativeDifficulties) :
    (averageDifficulty cumulativeDifficulties (timestamps.length - 1)).toNat =
      exactAverage cumulativeDifficulties (timestamps.length - 1) := by
  have hupper := h.upper
  have hle := UInt64.le_iff_toNat_le.mpr h.first_lt_last.le
  rw [averageDifficulty, exactAverage, UInt64.toNat_div, UInt64.toNat_sub_of_le _ _ hle,
    UInt64.toNat_ofNat', Nat.mod_eq_of_lt (by omega)]

theorem LwmaWindow.input (h : LwmaWindow timestamps cumulativeDifficulties) :
    LwmaInput (timestamps.length - 1)
      (limitedSolveTimes (tightened timestamps) (timestamps.length - 1)).toNat := by
  have hlower := h.lower
  have hupper := h.upper
  rw [toNat_limitedSolveTimes timestamps (by omega)]
  obtain ⟨hleast, hmost⟩ := exactSolveTimes_bounds (latest timestamps) (timestamps.length - 1)
  exact ⟨by omega, by omega, hleast, hmost⟩

/-- The solve times are long enough for the exact value to fit, with room for the rounding. -/
theorem LwmaInput.exactLwma_lt {n l avgD : ℕ} (h : LwmaInput n l) (havg : avgD * n < 2 ^ 64) :
    exactLwma n l avgD + 500000000 < 2 ^ 64 := by
  have hgrowth : 256 * (n + 1) ≤ 17 * (n * n) := by
    have := Nat.mul_le_mul_right n h.lower
    have := h.lower
    omega
  have hfactor : avgD * lwmaFactor n ≤ 2 ^ 64 * (11640 * (n + 1)) := by
    calc avgD * lwmaFactor n = avgD * n * (11640 * (n + 1)) := by
          rw [lwmaFactor]
          ring
      _ ≤ 2 ^ 64 * (11640 * (n + 1)) := Nat.mul_le_mul_right _ havg.le
  have hlt : exactLwma n l avgD < 2 ^ 64 - 500000000 := by
    rw [exactLwma_eq, Nat.div_lt_iff_lt_mul h.divisor_pos]
    have := h.solveTimes_lower
    have := h.lower
    omega
  omega

/-- For any window the estimate is the exact value, up to a hundredth in the branch for large
difficulties, exactly if the product of the other branch fits into a word. Then the difficulty is
not zero for an average of four or more. -/
theorem lwma_near_exact_iff (timestamps cumulativeDifficulties : List UInt64)
    (h : LwmaWindow timestamps cumulativeDifficulties) :
    let n := timestamps.length - 1
    let avgD := exactAverage cumulativeDifficulties n
    let exact := exactLwma n (exactSolveTimes (latest timestamps) n) avgD
    exact < 2 ^ 64 ∧
      (NearExact n avgD (estimateV16 timestamps cumulativeDifficulties).toNat exact ↔
        ¬ Wraps n avgD) ∧
      (¬ Wraps n avgD → 4 ≤ avgD →
        nextDifficultyV16 timestamps cumulativeDifficulties ≠ 0) := by
  intro n avgD exact
  have hlower := h.lower
  have hupper := h.upper
  have hinput := h.input
  have haverage := h.toNat_averageDifficulty
  have htimes := toNat_limitedSolveTimes timestamps (show n ≤ 90 by omega)
  have hestimate : estimateV16 timestamps cumulativeDifficulties =
      lwmaEstimate (UInt64.ofNat n) (limitedSolveTimes (tightened timestamps) n)
        (averageDifficulty cumulativeDifficulties n) := by
    rw [estimateV16, h.blocksUsed_eq]
  have hexact : exact = exactLwma n (limitedSolveTimes (tightened timestamps) n).toNat
      (averageDifficulty cumulativeDifficulties n).toNat := by
    rw [haverage, htimes]
  have hroom : exact + 500000000 < 2 ^ 64 := by
    rw [hexact]
    refine hinput.exactLwma_lt (lt_of_le_of_lt ?_
      (cumulativeDifficulties.getD n 0).toNat_lt)
    rw [haverage]
    exact (Nat.div_mul_le_self _ _).trans (Nat.sub_le _ _)
  have hnear : NearExact n avgD (estimateV16 timestamps cumulativeDifficulties).toNat exact ↔
      ¬ Wraps n avgD := by
    rw [hestimate, hexact, show avgD = _ from haverage.symm]
    exact nearExact_iff hinput (by rw [← hexact]; omega)
  refine ⟨by omega, hnear, fun hwraps havg => ?_⟩
  have hpos : 0 < (estimateV16 timestamps cumulativeDifficulties).toNat := by
    rw [hestimate]
    refine estimate_pos hinput (by rw [← hexact]; omega) ?_ ?_
    · rwa [haverage]
    · rwa [haverage]
  have hle : (estimateV16 timestamps cumulativeDifficulties).toNat ≤ exact := by
    obtain ⟨hsmall, hlarge⟩ := hnear.mpr hwraps
    by_cases hbranch : largeAbove n < avgD
    · exact (hlarge hbranch).1
    · exact (hsmall (not_lt.mp hbranch)).le
  rw [nextDifficultyV16, if_neg (by omega), h.blocksUsed_eq]
  obtain ⟨hgrows, hbound⟩ := jumped_bounds (tightened timestamps) n
    (cumulativeDifficulties.getD n 0 - cumulativeDifficulties.getD (n - 1) 0)
    (averageDifficulty cumulativeDifficulties n) (estimateV16 timestamps cumulativeDifficulties)
  have hfinal := setLastDigits_roundDigits (tightened timestamps) n
    (Nat.ne_of_gt (hpos.trans_le hgrows))
  refine fun hzero => hfinal.mpr ?_ (congrArg UInt64.toNat hzero)
  omega

/-- Blocks at the target, each of the same difficulty. -/
def steadyWindow (count difficulty : ℕ) : List UInt64 × List UInt64 :=
  ((List.range count).map fun i => UInt64.ofNat (120 * i),
    (List.range count).map fun i => UInt64.ofNat (difficulty * (i + 1)))

theorem steady_window_near_exact :
    let w := steadyWindow 91 1000000
    let n := w.1.length - 1
    NearExact n (exactAverage w.2 n) (estimateV16 w.1 w.2).toNat
        (exactLwma n (exactSolveTimes (latest w.1) n) (exactAverage w.2 n)) ∧
      nextDifficultyV16 w.1 w.2 ≠ 0 := by
  intro w n
  have hwindow : LwmaWindow w.1 w.2 := ⟨by decide, by decide, by decide, by decide +kernel⟩
  have hfits : ¬ Wraps n (exactAverage w.2 n) := by
    unfold Wraps
    decide +kernel
  obtain ⟨-, hnear, hne⟩ := lwma_near_exact_iff w.1 w.2 hwindow
  exact ⟨hnear.mpr hfits, hne hfits (by decide +kernel)⟩

/-- At a difficulty of a million millions the product wraps five times, and the estimate is a
thirtieth of what it should be. -/
theorem steady_window_wraps :
    LwmaWindow (steadyWindow 91 1000000000000).1 (steadyWindow 91 1000000000000).2 ∧
      exactLwma 90 (exactSolveTimes (latest (steadyWindow 91 1000000000000).1) 90)
        (exactAverage (steadyWindow 91 1000000000000).2 90) = 970000000000 ∧
      (estimateV16 (steadyWindow 91 1000000000000).1 (steadyWindow 91 1000000000000).2).toNat =
        31520956770 := by
  refine ⟨⟨by decide, by decide, by decide, by decide +kernel⟩, by decide +kernel,
    by decide +kernel⟩

end Window

end Arqma.Chain
