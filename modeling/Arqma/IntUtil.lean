import Mathlib.Tactic

/-!
# 64-bit words and 128-bit products

`int-util.h` multiplies two words into a high and a low word with 32-bit limbs
and divides a double word by a word with a 128-step shift-and-subtract loop.
Both are translated on `UInt64`, whose operations wrap as the source's do, and
then read back as exact arithmetic on naturals.
-/
namespace Arqma.IntUtil

variable (x : UInt64)

def hiDword (val : UInt64) : UInt64 := val >>> 32
def loDword (val : UInt64) : UInt64 := val &&& 0xFFFFFFFF

/-- High and low word of the product, in this order. -/
def mul128 (multiplier multiplicand : UInt64) : UInt64 × UInt64 :=
  let a := hiDword multiplier
  let b := loDword multiplier
  let c := hiDword multiplicand
  let d := loDword multiplicand
  let ac := a * c
  let ad := a * d
  let bc := b * c
  let bd := b * d
  let adbc := ad + bc
  let adbcCarry : UInt64 := if adbc < ad then 1 else 0
  let productLo := bd + (adbc <<< 32)
  let productLoCarry : UInt64 := if productLo < bd then 1 else 0
  (ac + (adbc >>> 32) + (adbcCarry <<< 32) + productLoCarry, productLo)

theorem toNat_hiDword : (hiDword x).toNat = x.toNat / 2 ^ 32 := by
  simp [hiDword, Nat.shiftRight_eq_div_pow]

theorem toNat_loDword : (loDword x).toNat = x.toNat % 2 ^ 32 := by
  have h : (0xFFFFFFFF : UInt64).toNat = 2 ^ 32 - 1 := rfl
  rw [loDword, UInt64.toNat_and, h, Nat.and_two_pow_sub_one_eq_mod]

theorem toNat_mul_of_lt {x y : UInt64} (h : x.toNat * y.toNat < 2 ^ 64) :
    (x * y).toNat = x.toNat * y.toNat := by
  rw [UInt64.toNat_mul, Nat.mod_eq_of_lt h]

theorem limb_mul_le {m n : ℕ} (hm : m < 2 ^ 32) (hn : n < 2 ^ 32) :
    m * n ≤ (2 ^ 32 - 1) * (2 ^ 32 - 1) :=
  Nat.mul_le_mul (by omega) (by omega)

theorem toNat_ite (p : Prop) [Decidable p] :
    (if p then (1 : UInt64) else 0).toNat = if p then 1 else 0 := by
  split <;> rfl

/-- The limb product is exact: no carry is lost. -/
theorem mul128_exact (x y : UInt64) :
    (mul128 x y).1.toNat * 2 ^ 64 + (mul128 x y).2.toNat = x.toNat * y.toNat := by
  have ha : (hiDword x).toNat < 2 ^ 32 := by
    have := x.toNat_lt; rw [toNat_hiDword]; omega
  have hb : (loDword x).toNat < 2 ^ 32 := by
    rw [toNat_loDword]; omega
  have hc : (hiDword y).toNat < 2 ^ 32 := by
    have := y.toNat_lt; rw [toNat_hiDword]; omega
  have hd : (loDword y).toNat < 2 ^ 32 := by
    rw [toNat_loDword]; omega
  have hx : x.toNat = (hiDword x).toNat * 2 ^ 32 + (loDword x).toNat := by
    rw [toNat_hiDword, toNat_loDword]; omega
  have hy : y.toNat = (hiDword y).toNat * 2 ^ 32 + (loDword y).toNat := by
    rw [toNat_hiDword, toNat_loDword]; omega
  have hxy : x.toNat * y.toNat = (hiDword x).toNat * (hiDword y).toNat * 2 ^ 64 +
      ((hiDword x).toNat * (loDword y).toNat + (loDword x).toNat * (hiDword y).toNat) * 2 ^ 32 +
      (loDword x).toNat * (loDword y).toNat := by
    rw [hx, hy]; ring
  have hac := limb_mul_le ha hc
  have had := limb_mul_le ha hd
  have hbc := limb_mul_le hb hc
  have hbd := limb_mul_le hb hd
  have eac := toNat_mul_of_lt (x := hiDword x) (y := hiDword y) (by omega)
  have ead := toNat_mul_of_lt (x := hiDword x) (y := loDword y) (by omega)
  have ebc := toNat_mul_of_lt (x := loDword x) (y := hiDword y) (by omega)
  have ebd := toNat_mul_of_lt (x := loDword x) (y := loDword y) (by omega)
  simp only [mul128, UInt64.toNat_add, UInt64.toNat_shiftLeft, UInt64.toNat_shiftRight,
    UInt64.lt_iff_toNat_lt, toNat_ite, eac, ead, ebc, ebd, Nat.shiftRight_eq_div_pow,
    Nat.shiftLeft_eq,
    show (32 : UInt64).toNat % 64 = 32 from rfl]
  rw [hxy]
  split_ifs <;> omega

/-- The bit a left shift pushes out. -/
def topBit (x : UInt64) : Bool := x >>> 63 ≠ 0

/-- One bit to the left over both words; the carry comes first. -/
def shl128 (hi lo : UInt64) : Bool × UInt64 × UInt64 :=
  (topBit hi, (hi <<< 1) + (lo >>> 63), lo <<< 1)

/-- A word shifted left with a bit taken in at the bottom. -/
def shiftIn (x : UInt64) (bit : Bool) : UInt64 := if bit then (x <<< 1) ||| 1 else x <<< 1

structure Division where
  dividendHi : UInt64
  dividendLo : UInt64
  remainder : UInt64

def divStep (divisor : UInt64) (s : Division) : Division :=
  let carry := topBit s.remainder
  let shifted := shl128 s.dividendHi s.dividendLo
  let remainder := shiftIn s.remainder shifted.1
  if carry ∨ remainder ≥ divisor then ⟨shifted.2.1, shifted.2.2 ||| 1, remainder - divisor⟩
  else ⟨shifted.2.1, shifted.2.2, remainder⟩

/-- The quotient words stand where the dividend was. -/
def div128_64 (dividendHi dividendLo divisor : UInt64) : Division :=
  (divStep divisor)^[128] ⟨dividendHi, dividendLo, 0⟩

/-- The double word a division state holds. -/
def Division.dividend (s : Division) : ℕ := s.dividendHi.toNat * 2 ^ 64 + s.dividendLo.toNat

theorem toNat_shiftIn (b : Bool) : (shiftIn x b).toNat = 2 * x.toNat % 2 ^ 64 + b.toNat := by
  have hs : (x <<< 1).toNat = 2 * x.toNat % 2 ^ 64 := by
    rw [UInt64.toNat_shiftLeft, show (1 : UInt64).toNat % 64 = 1 from rfl, Nat.shiftLeft_eq]
    omega
  cases b with
  | false => simpa [shiftIn] using hs
  | true =>
    have h2 : (2 * x.toNat % 2 ^ 64) ||| 1 = 2 * x.toNat % 2 ^ 64 + 1 := by
      have hm : 2 * x.toNat % 2 ^ 64 = 2 * (x.toNat % 2 ^ 63) := by omega
      rw [hm]
      have := Nat.two_pow_add_eq_or_of_lt (i := 1) (b := 1) (by omega) (x.toNat % 2 ^ 63)
      simpa using this.symm
    simp only [shiftIn, ↓reduceIte, UInt64.toNat_or, hs, UInt64.toNat_one, h2, Bool.toNat_true]

theorem toNat_shl_one : (x <<< 1).toNat = 2 * x.toNat % 2 ^ 64 := by
  simpa [shiftIn] using toNat_shiftIn x false

theorem toNat_shr_63 : (x >>> 63).toNat = x.toNat / 2 ^ 63 := by
  rw [UInt64.toNat_shiftRight, show (63 : UInt64).toNat % 64 = 63 from rfl,
    Nat.shiftRight_eq_div_pow]

theorem toNat_topBit : (topBit x).toNat = x.toNat / 2 ^ 63 := by
  have hx := x.toNat_lt
  have hz : x >>> 63 = 0 ↔ x.toNat / 2 ^ 63 = 0 := by
    rw [← UInt64.toNat_inj, toNat_shr_63, UInt64.toNat_zero]
  grind [topBit]

theorem topBit_iff : topBit x = true ↔ 2 ^ 63 ≤ x.toNat := by
  have h := toNat_topBit x
  cases hb : topBit x <;> simp only [hb, Bool.toNat_true, Bool.toNat_false] at h <;> simp <;> omega

/-- The step on naturals: the top bit of the dividend moves into the remainder
and the quotient bit takes its place at the bottom. -/
theorem divStep_spec (d : UInt64) (s : Division) (hr : s.remainder.toNat < d.toNat) :
    (divStep d s).remainder.toNat = (2 * s.remainder.toNat + s.dividend / 2 ^ 127) % d.toNat ∧
      (divStep d s).dividend = 2 * s.dividend % 2 ^ 128 +
        (2 * s.remainder.toNat + s.dividend / 2 ^ 127) / d.toNat := by
  have hhi := s.dividendHi.toNat_lt
  have hlo := s.dividendLo.toNat_lt
  have hd := d.toNat_lt
  have htop : s.dividend / 2 ^ 127 = s.dividendHi.toNat / 2 ^ 63 := by
    simp only [Division.dividend]; omega
  have hhi' : ((s.dividendHi <<< 1) + (s.dividendLo >>> 63)).toNat =
      2 * s.dividendHi.toNat % 2 ^ 64 + s.dividendLo.toNat / 2 ^ 63 := by
    rw [UInt64.toNat_add, toNat_shl_one, toNat_shr_63]
    omega
  have hlo1 : (s.dividendLo <<< 1 ||| 1).toNat = 2 * s.dividendLo.toNat % 2 ^ 64 + 1 := by
    simpa [shiftIn] using toNat_shiftIn s.dividendLo true
  have hrem := toNat_shiftIn s.remainder (topBit s.dividendHi)
  rw [toNat_topBit] at hrem
  obtain ⟨w, hw⟩ : ∃ w, 2 * s.remainder.toNat + s.dividendHi.toNat / 2 ^ 63 = w := ⟨_, rfl⟩
  rw [htop, hw]
  have hsmall : w < 2 * d.toNat := by omega
  by_cases hc : topBit s.remainder = true ∨ shiftIn s.remainder (topBit s.dividendHi) ≥ d
  · have hge : d.toNat ≤ w := by
      rcases hc with hc | hc
      · have := (topBit_iff _).mp hc; omega
      · have := UInt64.le_iff_toNat_le.mp hc; omega
    have hdiv : w / d.toNat = 1 := Nat.div_eq_of_lt_le (by omega) (by omega)
    have hmod : w % d.toNat = w - d.toNat := by
      rw [Nat.mod_eq_sub_mod hge, Nat.mod_eq_of_lt (by omega)]
    have hstep : divStep d s = ⟨(s.dividendHi <<< 1) + (s.dividendLo >>> 63),
        (s.dividendLo <<< 1) ||| 1, shiftIn s.remainder (topBit s.dividendHi) - d⟩ := if_pos hc
    rw [hdiv, hmod, hstep]
    simp only [Division.dividend, hhi', hlo1, UInt64.toNat_sub, hrem]
    constructor <;> omega
  · rw [not_or] at hc
    have hlt : w < d.toNat := by
      have h1 := mt (topBit_iff _).mpr hc.1
      have h2 := mt UInt64.le_iff_toNat_le.mpr hc.2
      omega
    have hstep : divStep d s = ⟨(s.dividendHi <<< 1) + (s.dividendLo >>> 63),
        s.dividendLo <<< 1, shiftIn s.remainder (topBit s.dividendHi)⟩ := if_neg (not_or.mpr hc)
    rw [Nat.div_eq_of_lt hlt, Nat.mod_eq_of_lt hlt, hstep]
    simp only [Division.dividend, hhi', toNat_shl_one, hrem]
    have h1 := mt (topBit_iff _).mpr hc.1
    constructor <;> omega

/-- After `i` steps the top `i` bits of the dividend are divided: their quotient
fills the bottom of the register and their remainder is held apart. -/
theorem divStep_iterate (d hi lo : UInt64) (hd : 0 < d.toNat) (n i : ℕ) (h128 : i ≤ 128)
    (hn : n = hi.toNat * 2 ^ 64 + lo.toNat) :
    ((divStep d)^[i] ⟨hi, lo, 0⟩).remainder.toNat = n / 2 ^ (128 - i) % d.toNat ∧
      ((divStep d)^[i] ⟨hi, lo, 0⟩).dividend =
        n % 2 ^ (128 - i) * 2 ^ i + n / 2 ^ (128 - i) / d.toNat := by
  have hlt : n < 2 ^ 128 := by have := hi.toNat_lt; have := lo.toNat_lt; omega
  induction i with
  | zero =>
    simp only [Function.iterate_zero, id_eq, Division.dividend, UInt64.toNat_zero, Nat.sub_zero,
      Nat.div_eq_of_lt hlt, Nat.zero_mod, Nat.zero_div, Nat.mod_eq_of_lt hlt, pow_zero, mul_one,
      add_zero, true_and]
    exact hn.symm
  | succ i ih =>
    obtain ⟨hrem, hdiv⟩ := ih (by omega)
    rw [Function.iterate_succ_apply']
    generalize (divStep d)^[i] ⟨hi, lo, 0⟩ = s at hrem hdiv ⊢
    obtain ⟨hrem', hdiv'⟩ := divStep_spec d s (by rw [hrem]; exact Nat.mod_lt _ hd)
    obtain ⟨j, hj⟩ : ∃ j, 128 - i = j + 1 := ⟨127 - i, by omega⟩
    have hj' : 128 - (i + 1) = j := by omega
    have hij : 2 ^ j * 2 ^ i = 2 ^ 127 := by rw [← pow_add]; congr 1; omega
    rw [hj] at hrem hdiv
    rw [hj']
    -- bit `j` of the dividend moves from its low part to its divided top part
    obtain ⟨b, hb⟩ : ∃ b, n / 2 ^ j % 2 = b := ⟨_, rfl⟩
    obtain ⟨t, ht⟩ : ∃ t, n / 2 ^ (j + 1) = t := ⟨_, rfl⟩
    have hb2 : b < 2 := by omega
    have htop : n / 2 ^ j = 2 * t + b := by
      have : n / 2 ^ j / 2 = t := by rw [Nat.div_div_eq_div_mul, ← pow_succ, ht]
      omega
    have hlow : n % 2 ^ (j + 1) = b * 2 ^ j + n % 2 ^ j := by
      rw [Nat.mod_pow_succ, hb]; ring
    have hti : t < 2 ^ i := by
      rw [← ht]
      apply Nat.div_lt_of_lt_mul
      rwa [← pow_add, show j + 1 + i = 128 by omega]
    have hq : t / d.toNat < 2 ^ i := lt_of_le_of_lt (Nat.div_le_self _ _) hti
    have hlowlt : n % 2 ^ j < 2 ^ j := Nat.mod_lt _ (by positivity)
    have hlowi : n % 2 ^ j * 2 ^ i + t / d.toNat < 2 ^ 127 := by
      calc n % 2 ^ j * 2 ^ i + t / d.toNat < n % 2 ^ j * 2 ^ i + 2 ^ i := by omega
        _ = (n % 2 ^ j + 1) * 2 ^ i := by ring
        _ ≤ 2 ^ j * 2 ^ i := Nat.mul_le_mul_right _ hlowlt
        _ = 2 ^ 127 := hij
    have hs : s.dividend = b * 2 ^ 127 + (n % 2 ^ j * 2 ^ i + t / d.toNat) := by
      rw [hdiv, hlow, ht, ← hij]; ring
    obtain ⟨q, hq'⟩ : ∃ q, t / d.toNat = q := ⟨_, rfl⟩
    obtain ⟨m, hm⟩ : ∃ m, n % 2 ^ j * 2 ^ i = m := ⟨_, rfl⟩
    rw [hq', hm] at hs hlowi
    have hout : s.dividend / 2 ^ 127 = b := by omega
    rw [hout, hrem, ht] at hrem' hdiv'
    have hsplit : 2 * t + b = d.toNat * (2 * q) + (2 * (t % d.toNat) + b) := by
      have h := Nat.div_add_mod t d.toNat
      rw [hq'] at h
      rw [Nat.mul_left_comm]
      omega
    rw [hrem', hdiv', htop]
    constructor
    · rw [hsplit, Nat.mul_add_mod]
    · rw [hsplit, Nat.mul_add_div hd, pow_succ 2 i, ← mul_assoc, hm, hs]
      omega

/-- The loop returns the exact quotient, in two words, and the exact remainder. -/
theorem div128_64_exact (hi lo d : UInt64) (hd : 0 < d.toNat) :
    (div128_64 hi lo d).dividend = (hi.toNat * 2 ^ 64 + lo.toNat) / d.toNat ∧
      (div128_64 hi lo d).remainder.toNat = (hi.toNat * 2 ^ 64 + lo.toNat) % d.toNat := by
  obtain ⟨hrem, hdiv⟩ := divStep_iterate d hi lo hd _ 128 le_rfl rfl
  grind [div128_64]

theorem toNat_mulDiv (x y d : UInt64) (hd : 0 < d.toNat) (hx : y ≤ d) :
    (div128_64 (mul128 x y).1 (mul128 x y).2 d).dividendLo.toNat = x.toNat * y.toNat / d.toNat := by
  obtain ⟨hdiv, -⟩ := div128_64_exact (mul128 x y).1 (mul128 x y).2 d hd
  rw [mul128_exact] at hdiv
  have hle : x.toNat * y.toNat / d.toNat ≤ x.toNat := Nat.div_le_of_le_mul (by
      rw [mul_comm d.toNat]; exact Nat.mul_le_mul_left _ (UInt64.le_iff_toNat_le.mp hx))
  have hx64 := x.toNat_lt
  have hlo := (div128_64 (mul128 x y).1 (mul128 x y).2 d).dividendLo.toNat_lt
  simp only [Division.dividend] at hdiv
  omega

end Arqma.IntUtil
