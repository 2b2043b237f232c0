import Arqma.BtSerialize

/-!
# Integers of a given type in the bt codec

`bt_serialize` and `bt_deserialize` are templates over the integral types of at most 64 bits. All
of them share the reader of a sign and 64 bits; what is stored in the variable of the caller
depends on the type.
-/
namespace Arqma.Net
open Arqma.Storage (toDecimal digitsValue)

structure IntegralType where
  signed : Bool
  bits : ℕ
  pos : 0 < bits
  le : bits ≤ 64

namespace IntegralType

def min (type : IntegralType) : ℤ := if type.signed then -2 ^ (type.bits - 1) else 0

def max (type : IntegralType) : ℤ :=
  if type.signed then 2 ^ (type.bits - 1) - 1 else 2 ^ type.bits - 1

/-- The values of the type. -/
def Holds (type : IntegralType) (x : ℤ) : Prop := type.min ≤ x ∧ x ≤ type.max

/-- `static_cast` to the type. -/
def cast (type : IntegralType) (x : ℤ) : ℤ :=
  if type.signed then Int.bmod x (2 ^ type.bits) else x % 2 ^ type.bits

end IntegralType

/-- An integer as it is written, whatever its type. -/
def integerText (negative : Bool) (digits : Bytes) : Bytes :=
  [105] ++ (if negative then [45] else []) ++ digits ++ [101]

def btSerializeInteger (x : ℤ) : Bytes := integerText (x < 0) (toDecimal x.natAbs)

/-- `bt_deserialize_integer`: the 64 bits of the union and whether there was a sign. -/
def btDeserializeInteger (raw : Bytes) : Except BtError ((UInt64 × Bool) × Bytes) := do
  let raw ← btExpect 105 .invalidType raw
  if raw.head? = some 45 then
    let (uval, raw) ← readUnsigned (raw.drop 1)
    if 2 ^ 63 < uval.toNat then .error (.invalid .tooLargeNegative)
    else .ok ((-uval, true), raw)
  else
    let (uval, raw) ← readUnsigned raw
    .ok ((uval, false), raw)

inductive TypedError
  | reading (error : BtError)
  | tooLarge (value : UInt64)
  | outOfRange (value : Int64)
  | invalidNegative (value : Int64)
deriving DecidableEq

/-- `bt_deserialize` into a variable that holds `val`: what it holds afterwards, and the input that
is left. For an unsigned type the assignment stands in the branch of a negative number, behind
the exception that is thrown there. -/
def btDeserializeTyped (type : IntegralType) (val : ℤ) (raw : Bytes) :
    Except TypedError (ℤ × Bytes) :=
  match btDeserializeInteger raw with
  | .error error => .error (.reading error)
  | .ok ((read, negative), rest) =>
    if type.signed then
      if !negative then
        if type.max < read.toNat then .error (.tooLarge read)
        else .ok (type.cast read.toNat, rest)
      else
        let i64 := read.toInt64
        if type.bits < 64 ∧ (i64.toInt < type.min ∨ type.max < i64.toInt) then
          .error (.outOfRange i64)
        else .ok (type.cast i64.toInt, rest)
    else if negative then .error (.invalidNegative read.toInt64)
    else .ok (val, rest)

/-- Every value of the type is read back over any content, and every other number is refused. -/
structure TypedRoundTrip (type : IntegralType) : Prop where
  readsBack : ∀ x val rest, type.Holds x → type.Holds val →
    btDeserializeTyped type val (btSerializeInteger x ++ rest) = .ok (x, rest)
  refuses : ∀ negative digits val rest, digits ≠ [] → (∀ c ∈ digits, isDigit c = true) →
    ¬type.Holds (if negative then -digitsValue digits else digitsValue digits) →
    ∃ error, btDeserializeTyped type val (integerText negative digits ++ rest) = .error error

variable {type : IntegralType}

theorem readUnsigned_digits {digits : Bytes} (hne : digits ≠ [])
    (hdigits : ∀ c ∈ digits, isDigit c = true) (rest : Bytes) :
    readUnsigned (digits ++ 101 :: rest) =
      if 2 ^ 64 ≤ digitsValue digits then .error (.invalid .ioError)
      else .ok (UInt64.ofNat (digitsValue digits), rest) := by
  obtain ⟨c, tail, rfl⟩ := List.exists_cons_of_ne_nil hne
  have htake : (c :: tail ++ 101 :: rest).takeWhile isDigit = c :: tail := by
    rw [List.takeWhile_append_of_pos hdigits, List.takeWhile_cons_of_neg (by decide),
      List.append_nil]
  have hvalue : digitsValue (c :: tail ++ 101 :: rest) = digitsValue (c :: tail) := by
    change ((c :: tail ++ 101 :: rest).takeWhile isDigit).foldl _ 0 =
      ((c :: tail).takeWhile isDigit).foldl _ 0
    rw [htake, List.takeWhile_eq_self_iff.mpr hdigits]
  have hdrop : (c :: tail ++ 101 :: rest).dropWhile isDigit = 101 :: rest := by
    rw [List.dropWhile_append_of_pos hdigits, List.dropWhile_cons_of_neg (by decide)]
  have hhead : (c :: tail ++ 101 :: rest).head? = some c := rfl
  rw [readUnsigned, hhead]
  simp only [hdigits c List.mem_cons_self, Bool.not_true, Bool.false_eq_true, if_false, readNumber,
    hvalue, hdrop]
  split_ifs <;> rfl

/-- The shared reader on a text of digits: the value if it fits 64 bits. -/
theorem btDeserializeInteger_text {digits : Bytes} (hne : digits ≠ [])
    (hdigits : ∀ c ∈ digits, isDigit c = true) (negative : Bool) (rest : Bytes) :
    btDeserializeInteger (integerText negative digits ++ rest) =
      if 2 ^ 64 ≤ digitsValue digits then .error (.invalid .ioError)
      else if negative ∧ 2 ^ 63 < digitsValue digits then .error (.invalid .tooLargeNegative)
      else .ok ((if negative then -UInt64.ofNat (digitsValue digits)
        else UInt64.ofNat (digitsValue digits), negative), rest) := by
  have hread := readUnsigned_digits hne hdigits rest
  cases negative with
  | true =>
    have htext : integerText true digits ++ rest = 105 :: 45 :: (digits ++ 101 :: rest) := by
      simp [integerText]
    simp only [htext, btDeserializeInteger, btExpect, if_true, bind, Except.bind,
      List.head?_cons, List.drop_succ_cons, List.drop_zero, hread]
    split_ifs <;> simp_all <;> omega
  | false =>
    have htext : integerText false digits ++ rest = 105 :: (digits ++ 101 :: rest) := by
      simp [integerText]
    have hsign : (digits ++ 101 :: rest).head? ≠ some 45 := by
      obtain ⟨c, tail, rfl⟩ := List.exists_cons_of_ne_nil hne
      rintro heq
      obtain rfl : c = 45 := Option.some.inj heq
      exact absurd (hdigits 45 List.mem_cons_self) (by decide)
    simp only [htext, btDeserializeInteger, btExpect, if_true, bind, Except.bind, if_neg hsign,
      hread]
    split_ifs <;> simp_all

theorem toInt_neg_ofNat {n : ℕ} (h : n ≤ 2 ^ 63) : (-UInt64.ofNat n).toInt64.toInt = -n := by
  rcases Nat.eq_zero_or_pos n with rfl | hpos
  · rfl
  · have hi : (Int64.ofInt (-n)).toInt = -n := Int64.toInt_ofInt_of_le (by omega) (by omega)
    have hneg := toInt64_of_neg (i := Int64.ofInt (-n)) (by omega)
    rw [hi, Int.natAbs_neg, Int.natAbs_natCast] at hneg
    rw [hneg.1, hi]

/-- The bounds of a signed type, with half of its width a power of two. -/
theorem exists_half (hsigned : type.signed = true) : ∃ half : ℕ, half ≤ 2 ^ 63 ∧
    (type.bits < 64 ∨ half = 2 ^ 63) ∧ type.min = -half ∧ type.max = half - 1 ∧
    ∀ x : ℤ, -half ≤ x → x < half → type.cast x = x := by
  obtain ⟨bits, hbits⟩ : ∃ bits, type.bits = bits + 1 := ⟨type.bits - 1, by have := type.pos; omega⟩
  have hle := type.le
  refine ⟨2 ^ bits, Nat.pow_le_pow_right (by decide) (by omega), ?_, ?_, ?_, fun x hlow hhigh => ?_⟩
  · rcases Nat.lt_or_ge type.bits 64 with hlt | hge
    · exact Or.inl hlt
    · obtain rfl : bits = 63 := by omega
      exact Or.inr rfl
  · simp [IntegralType.min, hsigned, hbits]
  · simp [IntegralType.max, hsigned, hbits]
  · rw [IntegralType.cast, if_pos hsigned, hbits, Nat.pow_succ]
    push_cast at hlow hhigh
    exact Int.bmod_eq_of_le_mul_two (by push_cast; omega) (by push_cast; omega)

/-- A signed type stores the number of a text or refuses it, and refuses only what it cannot
hold. -/
theorem btDeserializeTyped_text (hsigned : type.signed = true) {digits : Bytes} (hne : digits ≠ [])
    (hdigits : ∀ c ∈ digits, isDigit c = true) (negative : Bool) (val : ℤ) (rest : Bytes) :
    let x : ℤ := if negative then -digitsValue digits else digitsValue digits
    (type.Holds x ∧
        btDeserializeTyped type val (integerText negative digits ++ rest) = .ok (x, rest)) ∨
      ¬type.Holds x ∧ ∃ error,
        btDeserializeTyped type val (integerText negative digits ++ rest) = .error error := by
  obtain ⟨half, hhalf, hfull, hmin, hmax, hcast⟩ := exists_half hsigned
  rw [btDeserializeTyped, btDeserializeInteger_text hne hdigits]
  generalize digitsValue digits = n
  simp only [IntegralType.Holds, hmin, hmax]
  cases negative with
  | true =>
    simp only [if_true, true_and]
    split_ifs with hlarge hnegative
    · exact Or.inr ⟨by omega, _, rfl⟩
    · exact Or.inr ⟨by omega, _, rfl⟩
    · have hint := toInt_neg_ofNat (Nat.not_lt.mp hnegative)
      simp only [Bool.not_true, Bool.false_eq_true, if_false, hint]
      split_ifs with hrange
      · exact Or.inr ⟨by omega, _, rfl⟩
      · exact Or.inl ⟨by omega, by rw [hcast _ (by omega) (by omega)]⟩
  | false =>
    simp only [Bool.false_eq_true, if_false, false_and]
    split_ifs with hlarge
    · exact Or.inr ⟨by omega, _, rfl⟩
    · have hnat : (UInt64.ofNat n).toNat = n := UInt64.toNat_ofNat_of_lt' (Nat.not_le.mp hlarge)
      simp only [if_true, Bool.not_false, hnat]
      split_ifs with hrange
      · exact Or.inr ⟨by omega, _, rfl⟩
      · exact Or.inl ⟨by omega, by rw [hcast _ (by omega) (by omega)]⟩

theorem btSerializeInteger_value (x : ℤ) :
    (if decide (x < 0) = true then -digitsValue (toDecimal x.natAbs)
      else digitsValue (toDecimal x.natAbs) : ℤ) = x := by
  rw [Storage.digitsValue_toDecimal]
  split_ifs with hneg <;> simp at hneg <;> omega

/-- An unsigned type keeps what the variable held before. -/
theorem btDeserializeTyped_of_unsigned (hunsigned : type.signed = false) {n : ℕ} (h : n < 2 ^ 64)
    (val : ℤ) (rest : Bytes) :
    btDeserializeTyped type val (btSerializeInteger n ++ rest) = .ok (val, rest) := by
  grind [btDeserializeTyped, btSerializeInteger, btDeserializeInteger_text,
    Storage.toDecimal_ne_nil, Storage.digitsValue_toDecimal, isDigit_of_mem_toDecimal]

/-- Integers of a type are read back, and numbers it cannot hold refused, exactly if the type is
signed. -/
theorem typed_integers_iff (type : IntegralType) : TypedRoundTrip type ↔ type.signed = true := by
  constructor
  · intro h
    by_contra hsigned
    have hunsigned : type.signed = false := by simpa using hsigned
    have hmax : 1 ≤ type.max := by
      have hpow := Nat.pow_le_pow_right (show 0 < 2 by decide) type.pos
      simp only [IntegralType.max, hunsigned, Bool.false_eq_true, if_false]
      push_cast at hpow
      zify at hpow
      omega
    have hholds : ∀ x : ℤ, 0 ≤ x → x ≤ 1 → type.Holds x := fun x hlow hhigh =>
      ⟨by simpa [IntegralType.min, hunsigned] using hlow, hhigh.trans hmax⟩
    have hzero := h.readsBack 0 1 [] (hholds 0 le_rfl zero_le_one) (hholds 1 zero_le_one le_rfl)
    have hkept := btDeserializeTyped_of_unsigned hunsigned (n := 0) (by decide) 1 []
    rw [Nat.cast_zero, hzero] at hkept
    cases hkept
  · intro hsigned
    refine ⟨fun x val rest hx _ => ?_, fun negative digits val rest hne hdigits hout => ?_⟩
    · grind [btSerializeInteger, btSerializeInteger_value, btDeserializeTyped_text,
        Storage.toDecimal_ne_nil, isDigit_of_mem_toDecimal]
    · exact ((btDeserializeTyped_text hsigned hne hdigits negative val rest).resolve_left
        fun hin => hout hin.1).2

theorem unsigned_value_not_stored :
    let uint64 : IntegralType := ⟨false, 64, by decide, by decide⟩
    uint64.Holds 5 ∧ uint64.Holds 7 ∧
      btDeserializeTyped uint64 7 (btSerializeInteger 5) = .ok (7, []) := by
  refine ⟨by constructor <;> decide, by constructor <;> decide, ?_⟩
  have hkept :=
    @btDeserializeTyped_of_unsigned ⟨false, 64, by decide, by decide⟩ rfl 5 (by decide) 7 []
  simpa using hkept

end Arqma.Net
