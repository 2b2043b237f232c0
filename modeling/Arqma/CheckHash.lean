import Arqma.Cryptonote
import Arqma.IntUtil

/-!
# The proof of work

A hash meets a difficulty if their product, with the hash read as a little-endian number, does not
go beyond 256 bits. The product is formed word by word. Of each sum only the carry is kept, and the
highest word is looked at first, since it decides for nearly all hashes.
-/
namespace Arqma.Cryptonote
open IntUtil

section Multiplication

/-- The two words of a product. -/
structure Product where
  low : UInt64
  high : UInt64

/-- `mul` on x86. -/
def mulX86 (a b : UInt64) : Product := ⟨(mul128 a b).2, (mul128 a b).1⟩

/-- `mul` elsewhere, in limbs of 32 bits. -/
def mulPortable (a b : UInt64) : Product :=
  let aLow := a &&& 0xFFFFFFFF
  let aHigh := a >>> 32
  let bLow := b &&& 0xFFFFFFFF
  let bHigh := b >>> 32
  let res := aLow * bLow
  let lowRes1 := res &&& 0xFFFFFFFF
  let carry := res >>> 32
  let res := aHigh * bLow + carry
  let highResHigh1 := res >>> 32
  let highResLow1 := res &&& 0xFFFFFFFF
  let res := aLow * bHigh
  let lowRes2 := res &&& 0xFFFFFFFF
  let carry := res >>> 32
  let res := aHigh * bHigh + carry
  let highResHigh2 := res >>> 32
  let highResLow2 := res &&& 0xFFFFFFFF
  let r := highResLow1 + lowRes2
  let carry := r >>> 32
  let low := (r <<< 32) ||| lowRes1
  let r := highResHigh1 + highResLow2 + carry
  let d3 := r &&& 0xFFFFFFFF
  let carry := r >>> 32
  let r := highResHigh2 + carry
  ⟨low, d3 ||| (r <<< 32)⟩

/-- Both words of every product are right. -/
def ExactMul (mul : UInt64 → UInt64 → Product) : Prop :=
  ∀ a b, (mul a b).high.toNat * 2 ^ 64 + (mul a b).low.toNat = a.toNat * b.toNat

theorem exactMul_mulX86 : ExactMul mulX86 := mul128_exact

/-- A word put above a half word. -/
theorem toNat_shiftLeft_or (r low : UInt64) (hlow : low.toNat < 2 ^ 32) :
    ((r <<< 32) ||| low).toNat = r.toNat % 2 ^ 32 * 2 ^ 32 + low.toNat := by
  have hshift : (r <<< 32).toNat = r.toNat % 2 ^ 32 * 2 ^ 32 := by
    rw [UInt64.toNat_shiftLeft, show (32 : UInt64).toNat % 64 = 32 from rfl, Nat.shiftLeft_eq]
    omega
  rw [UInt64.toNat_or, hshift, Nat.mul_comm, ← Nat.two_pow_add_eq_or_of_lt hlow]

theorem toNat_lowHalf (x : UInt64) : (x &&& 0xFFFFFFFF).toNat = x.toNat % 2 ^ 32 := toNat_loDword x

theorem toNat_highHalf (x : UInt64) : (x >>> 32).toNat = x.toNat / 2 ^ 32 := toNat_hiDword x

theorem halves_product {aLow aHigh bLow bHigh : ℕ} (haLow : aLow < 2 ^ 32) (haHigh : aHigh < 2 ^ 32)
    (hbLow : bLow < 2 ^ 32) (hbHigh : bHigh < 2 ^ 32) :
    let cross := aHigh * bLow + aLow * bLow / 2 ^ 32
    let upper := aHigh * bHigh + aLow * bHigh / 2 ^ 32
    let middle := cross % 2 ^ 32 + aLow * bHigh % 2 ^ 32
    let third := cross / 2 ^ 32 + upper % 2 ^ 32 + middle / 2 ^ 32
    cross < 2 ^ 64 ∧ upper < 2 ^ 64 ∧ upper / 2 ^ 32 + third / 2 ^ 32 < 2 ^ 32 ∧
      ((upper / 2 ^ 32 + third / 2 ^ 32) * 2 ^ 32 + third % 2 ^ 32) * 2 ^ 64 +
          (middle % 2 ^ 32 * 2 ^ 32 + aLow * bLow % 2 ^ 32) =
        (aHigh * 2 ^ 32 + aLow) * (bHigh * 2 ^ 32 + bLow) := by
  intro cross upper middle third
  have hproduct : (aHigh * 2 ^ 32 + aLow) * (bHigh * 2 ^ 32 + bLow) =
      aHigh * bHigh * 2 ^ 64 + (aHigh * bLow + aLow * bHigh) * 2 ^ 32 + aLow * bLow := by
    ring
  have hlow := limb_mul_le haLow hbLow
  have hcross := limb_mul_le haHigh hbLow
  have hcross' := limb_mul_le haLow hbHigh
  have hhigh := limb_mul_le haHigh hbHigh
  rw [hproduct]
  omega

theorem toNat_mulAdd {a b c : UInt64} (h : a.toNat * b.toNat + c.toNat < 2 ^ 64) :
    (a * b + c).toNat = a.toNat * b.toNat + c.toNat := by
  rw [UInt64.toNat_add, toNat_mul_of_lt (by omega), Nat.mod_eq_of_lt h]

theorem exactMul_mulPortable : ExactMul mulPortable := by
  intro a b
  have ha := a.toNat_lt
  have hb := b.toNat_lt
  have haLow := toNat_lowHalf a
  have haHigh := toNat_highHalf a
  have hbLow := toNat_lowHalf b
  have hbHigh := toNat_highHalf b
  have ha' : a.toNat = a.toNat / 2 ^ 32 * 2 ^ 32 + a.toNat % 2 ^ 32 := by omega
  have hb' : b.toNat = b.toNat / 2 ^ 32 * 2 ^ 32 + b.toNat % 2 ^ 32 := by omega
  rw [← haLow, ← haHigh] at ha'
  rw [← hbLow, ← hbHigh] at hb'
  unfold mulPortable
  dsimp only
  generalize a &&& 0xFFFFFFFF = aLow at *
  generalize a >>> 32 = aHigh at *
  generalize b &&& 0xFFFFFFFF = bLow at *
  generalize b >>> 32 = bHigh at *
  have haLow' : aLow.toNat < 2 ^ 32 := by omega
  have haHigh' : aHigh.toNat < 2 ^ 32 := by omega
  have hbLow' : bLow.toNat < 2 ^ 32 := by omega
  have hbHigh' : bHigh.toNat < 2 ^ 32 := by omega
  obtain ⟨hcrossFits, hupperFits, htopFits, hproduct⟩ :=
    halves_product haLow' haHigh' hbLow' hbHigh'
  have hlow := limb_mul_le haLow' hbLow'
  have hmixed := limb_mul_le haLow' hbHigh'
  have eLow : (aLow * bLow).toNat = aLow.toNat * bLow.toNat := toNat_mul_of_lt (by omega)
  have eMixed : (aLow * bHigh).toNat = aLow.toNat * bHigh.toNat := toNat_mul_of_lt (by omega)
  have eCross : (aHigh * bLow + (aLow * bLow) >>> 32).toNat =
      aHigh.toNat * bLow.toNat + aLow.toNat * bLow.toNat / 2 ^ 32 := by
    rw [toNat_mulAdd (by rw [toNat_highHalf, eLow]; exact hcrossFits), toNat_highHalf, eLow]
  have eUpper : (aHigh * bHigh + (aLow * bHigh) >>> 32).toNat =
      aHigh.toNat * bHigh.toNat + aLow.toNat * bHigh.toNat / 2 ^ 32 := by
    rw [toNat_mulAdd (by rw [toNat_highHalf, eMixed]; exact hupperFits), toNat_highHalf, eMixed]
  rw [UInt64.or_comm, toNat_shiftLeft_or _ _ (by rw [toNat_lowHalf]; omega),
    toNat_shiftLeft_or _ _ (by rw [toNat_lowHalf]; omega)]
  simp only [UInt64.toNat_add, toNat_lowHalf, toNat_highHalf, eLow, eMixed, eCross, eUpper]
  rw [ha', hb', ← hproduct]
  clear hproduct
  generalize aHigh.toNat * bLow.toNat + aLow.toNat * bLow.toNat / 2 ^ 32 = cross at *
  generalize aHigh.toNat * bHigh.toNat + aLow.toNat * bHigh.toNat / 2 ^ 32 = upper at *
  generalize aLow.toNat * bHigh.toNat = mixed at *
  -- None of the sums reaches a whole word.
  grind

end Multiplication

section Check

def cadd (a b : UInt64) : Bool := a + b < a

def cadc (a b : UInt64) (c : Bool) : Bool := a + b < a || (c && a + b = 0xFFFFFFFFFFFFFFFF)

/-- A word of the hash, the lowest first. -/
def hashWord (hash : Hash) (i : ℕ) : UInt64 := UInt64.ofNat (hash.toNat / 2 ^ (64 * i))

def checkHash (mul : UInt64 → UInt64 → Product) (hash : Hash) (difficulty : UInt64) : Bool :=
  let top := mul (hashWord hash 3) difficulty
  if top.high ≠ 0 then false
  else
    let first := mul (hashWord hash 0) difficulty
    let second := mul (hashWord hash 1) difficulty
    let carry := cadd first.high second.low
    let third := mul (hashWord hash 2) difficulty
    let carry := cadc second.high third.low carry
    let carry := cadc third.high top.low carry
    !carry

theorem toNat_cadd (a b : UInt64) : (cadd a b).toNat = (a.toNat + b.toNat) / 2 ^ 64 := by
  have ha := a.toNat_lt
  have hb := b.toNat_lt
  unfold cadd
  grind [UInt64.lt_iff_toNat_lt, UInt64.toNat_add]

theorem toNat_cadc (a b : UInt64) (c : Bool) :
    (cadc a b c).toNat = (a.toNat + b.toNat + c.toNat) / 2 ^ 64 := by
  have hadd := toNat_cadd a b
  have ha := a.toNat_lt
  have hb := b.toNat_lt
  have hfull : (a + b = 0xFFFFFFFFFFFFFFFF) ↔ (a.toNat + b.toNat) % 2 ^ 64 = 2 ^ 64 - 1 := by
    rw [← UInt64.toNat_inj, UInt64.toNat_add]
    rfl
  rw [cadc, ← cadd]
  cases c with
  | false =>
    rw [Bool.false_and, Bool.or_false, hadd, Bool.toNat_false, Nat.add_zero]
  | true =>
    grind

/-- The hash is put together from its words. -/
theorem toNat_hash (hash : Hash) :
    hash.toNat = (hashWord hash 0).toNat + 2 ^ 64 * (hashWord hash 1).toNat +
      2 ^ 128 * (hashWord hash 2).toNat + 2 ^ 192 * (hashWord hash 3).toNat := by
  have hlt := hash.isLt
  simp only [hashWord, UInt64.toNat_ofNat']
  omega

/-- With an exact multiplication the check compares the whole product with 256 bits. -/
theorem checkHash_iff {mul : UInt64 → UInt64 → Product} (hmul : ExactMul mul) (hash : Hash)
    (difficulty : UInt64) :
    checkHash mul hash difficulty = true ↔ hash.toNat * difficulty.toNat < 2 ^ 256 := by
  have hproduct : hash.toNat * difficulty.toNat = (hashWord hash 0).toNat * difficulty.toNat +
        2 ^ 64 * ((hashWord hash 1).toNat * difficulty.toNat) +
        2 ^ 128 * ((hashWord hash 2).toNat * difficulty.toNat) +
        2 ^ 192 * ((hashWord hash 3).toNat * difficulty.toNat) := by
    rw [toNat_hash hash]
    ring
  rw [← hmul, ← hmul, ← hmul, ← hmul] at hproduct
  rw [hproduct, checkHash]
  generalize mul (hashWord hash 0) difficulty = first
  generalize mul (hashWord hash 1) difficulty = second
  generalize mul (hashWord hash 2) difficulty = third
  generalize mul (hashWord hash 3) difficulty = top
  have hfirst := first.low.toNat_lt
  have hsecond := second.low.toNat_lt
  have hthird := third.low.toNat_lt
  have htop := top.low.toNat_lt
  have hcarry₁ := toNat_cadd first.high second.low
  have hcarry₂ := toNat_cadc second.high third.low (cadd first.high second.low)
  have hcarry₃ := toNat_cadc third.high top.low
    (cadc second.high third.low (cadd first.high second.low))
  dsimp only
  by_cases hhigh : top.high = 0
  · rw [if_neg (not_not_intro hhigh), hhigh, UInt64.toNat_zero]
    have hlast : ∀ carry : Bool, ((!carry) = true ↔ carry.toNat = 0) := by decide
    rw [hlast, hcarry₃, hcarry₂, hcarry₁]
    omega
  · have hpos : top.high.toNat ≠ 0 := fun hzero => hhigh (UInt64.toNat_inj.mp hzero)
    rw [if_pos hhigh]
    exact iff_of_false Bool.false_ne_true (by omega)

/-- The check is right for every hash and difficulty with either multiplication, and the one in half
words gives both words of every product. -/
theorem check_hash_exact :
    (∀ a b : UInt64, (mulPortable a b).low.toNat = a.toNat * b.toNat % 2 ^ 64 ∧
        (mulPortable a b).high.toNat = a.toNat * b.toNat / 2 ^ 64) ∧
      ∀ (hash : Hash) (difficulty : UInt64),
        (checkHash mulPortable hash difficulty = true ↔
            hash.toNat * difficulty.toNat < 2 ^ 256) ∧
          (checkHash mulX86 hash difficulty = true ↔
            hash.toNat * difficulty.toNat < 2 ^ 256) := by
  refine ⟨fun a b => ?_, fun hash difficulty =>
    ⟨checkHash_iff exactMul_mulPortable hash difficulty,
      checkHash_iff exactMul_mulX86 hash difficulty⟩⟩
  have hexact := exactMul_mulPortable a b
  have hlow := (mulPortable a b).low.toNat_lt
  omega

end Check

end Arqma.Cryptonote
