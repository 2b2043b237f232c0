import Mathlib.Tactic

/-!
# Reading bytes

A reader takes a value from the front of a list of bytes. `Decodes` says that some bytes stand for
a value whatever follows them. `Extends` compares two readers: what the first reads, the second
also reads when more bytes follow, and it stops at the same place. Both are kept by every way of
putting readers together, so a format is settled by its parts.
-/
namespace Arqma.ByteReader
open List

variable {bits shift value n : ℕ} {input rest : List UInt8} {cut : Bool}

abbrev Reader := StateT (List UInt8) Option

variable {α β : Type}

def Decodes (r : Reader α) (bytes : List UInt8) (a : α) : Prop :=
  ∀ more, r (bytes ++ more) = some (a, more)

structure Extends (r s : Reader α) : Prop where
  append : ∀ ⦃input a rest⦄, r input = some (a, rest) →
    ∀ more, s (input ++ more) = some (a, rest ++ more)
  length_le : ∀ ⦃input a rest⦄, s input = some (a, rest) → rest.length ≤ input.length

section Composition

theorem bind_apply (r : Reader α) (f : α → Reader β) (input : List UInt8) :
    (r >>= f) input = (r input).bind fun p => f p.1 p.2 := rfl

theorem bind_eq_some_iff {r : Reader α} {f : α → Reader β} {b : β} :
    (r >>= f) input = some (b, rest) ↔
      ∃ a middle, r input = some (a, middle) ∧ f a middle = some (b, rest) := by
  simp [bind_apply, Option.bind_eq_some_iff]

theorem Decodes.pure (a : α) : Decodes (Pure.pure a) [] a := fun _ => rfl

theorem Decodes.bind {r : Reader α} {f : α → Reader β} {bytes more : List UInt8} {a : α} {b : β}
    (hr : Decodes r bytes a) (hf : Decodes (f a) more b) : Decodes (r >>= f) (bytes ++ more) b := by
  intro rest
  rw [bind_apply, append_assoc, hr]
  exact hf rest

theorem Extends.pure (a : α) : Extends (Pure.pure a) (Pure.pure a) where
  append input b rest h more := by
    obtain ⟨rfl, rfl⟩ := Prod.mk.inj (Option.some.inj h)
    rfl
  length_le input b rest h := by
    obtain ⟨rfl, rfl⟩ := Prod.mk.inj (Option.some.inj h)
    exact le_rfl

theorem Extends.bind {r s : Reader α} {f g : α → Reader β} (hr : Extends r s)
    (hf : ∀ a, Extends (f a) (g a)) : Extends (r >>= f) (s >>= g) where
  append input b rest h more := by
    obtain ⟨a, middle, hread, hrest⟩ := bind_eq_some_iff.mp h
    exact bind_eq_some_iff.mpr ⟨a, middle ++ more, hr.append hread more, (hf a).append hrest more⟩
  length_le input b rest h := by
    obtain ⟨a, middle, hread, hrest⟩ := bind_eq_some_iff.mp h
    exact ((hf a).length_le hrest).trans (hr.length_le hread)

theorem Extends.map {r s : Reader α} (f : α → β) (h : Extends r s) : Extends (f <$> r) (f <$> s) :=
  h.bind fun a => .pure (f a)

theorem Decodes.map {r : Reader α} {bytes : List UInt8} {a : α} (f : α → β)
    (h : Decodes r bytes a) :
    Decodes (f <$> r) bytes (f a) := by
  have := h.bind (f := fun a => Pure.pure (f a)) (Decodes.pure (f a))
  rwa [append_nil] at this

theorem Extends.ite {p : Prop} [Decidable p] {r s r' s' : Reader α} (h : Extends r s)
    (h' : Extends r' s') : Extends (if p then r else r') (if p then s else s') := by
  split_ifs
  · exact h
  · exact h'

end Composition

section Primitives

def fail : Reader α := fun _ => none

/-- The value if the test holds. -/
def accept (test : Bool) (a : α) : Reader α := if test then pure a else fail

def byte : Reader UInt8
  | [] => none
  | b :: rest => some (b, rest)

def take (count : ℕ) : Reader (List UInt8) := fun input =>
  if input.length < count then none else some (input.take count, input.drop count)

/-- Fails if fewer bytes are left. -/
def need (count : ℕ) : Reader Unit := fun input =>
  if input.length < count then none else some ((), input)

theorem Extends.fail : Extends (fail : Reader α) fail :=
  ⟨fun _ _ _ h => (nomatch h), fun _ _ _ h => (nomatch h)⟩

theorem Extends.accept (test : Bool) (a : α) : Extends (accept test a) (accept test a) := by
  cases test
  · exact .fail
  · exact .pure a

theorem byte_eq_some {b : UInt8} (h : byte input = some (b, rest)) : input = b :: rest := by
  cases input with
  | nil => cases h
  | cons c input =>
    obtain ⟨rfl, rfl⟩ := Prod.mk.inj (Option.some.inj h)
    rfl

theorem Extends.byte : Extends byte byte where
  append input b rest h more := by
    rw [byte_eq_some h]
    rfl
  length_le input b rest h := by
    rw [byte_eq_some h]
    exact Nat.le_succ _

theorem Decodes.byte (b : UInt8) : Decodes byte [b] b := fun _ => rfl

theorem Decodes.take (bytes : List UInt8) {count : ℕ} (h : bytes.length = count) :
    Decodes (take count) bytes bytes := by
  intro more
  have hlen : ¬(bytes ++ more).length < count := by simp [h]
  rw [ByteReader.take, if_neg hlen, take_left' h, drop_left' h]

theorem Extends.take (count : ℕ) : Extends (take count) (take count) where
  append input a rest h more := by
    grind [ByteReader.take]
  length_le input a rest h := by
    grind [ByteReader.take]

theorem Extends.need (count : ℕ) : Extends (need count) (need count) where
  append input a rest h more := by
    grind [ByteReader.need]
  length_le input a rest h := by
    unfold ByteReader.need at h
    split_ifs at h with hlen
    obtain ⟨rfl, rfl⟩ := Prod.mk.inj (Option.some.inj h)
    exact le_rfl

end Primitives

section Many

def many (r : Reader α) : ℕ → Reader (List α)
  | 0 => pure []
  | count + 1 => do
    let a ← r
    let rest ← many r count
    pure (a :: rest)

theorem Extends.many {r s : Reader α} (h : Extends r s) (count : ℕ) :
    Extends (many r count) (many s count) := by
  induction count with
  | zero => exact .pure []
  | succ count ih => exact h.bind fun a => ih.bind fun rest => .pure (a :: rest)

/-- The bytes of the elements one after the other. -/
theorem Decodes.many {r : Reader α} {write : α → List UInt8} {l : List α}
    (h : ∀ a ∈ l, Decodes r (write a) a) : Decodes (many r l.length) (l.flatMap write) l := by
  induction l with
  | nil => exact .pure []
  | cons a l ih =>
    have htail := (ih fun b hb => h b (mem_cons_of_mem a hb)).bind (f := fun rest =>
      Pure.pure (a :: rest)) (Decodes.pure (a :: l))
    rw [append_nil] at htail
    exact (h a mem_cons_self).bind htail

end Many

section Varint

/-- Seven bits a byte, the lowest first. A number that does not fit the bits of its type is
refused, and so is a zero byte after the first. `cut` says whether the end of the input also
ends a number. -/
def varintFrom (cut : Bool) (bits : ℕ) (shift value : ℕ) : Reader ℕ
  | [] => if cut then some (value, []) else none
  | b :: rest =>
    if bits ≤ shift + 7 ∧ 2 ^ (bits - shift) ≤ b.toNat then none
    else if b = 0 ∧ shift ≠ 0 then none
    else if b.toNat < 128 then some (value + b.toNat % 128 * 2 ^ shift, rest)
    else varintFrom cut bits (shift + 7) (value + b.toNat % 128 * 2 ^ shift) rest

def varint (cut : Bool) (bits : ℕ) : Reader ℕ := varintFrom cut bits 0 0

/-- At most `more` bytes after the first. -/
def writeVarint : ℕ → ℕ → List UInt8
  | 0, n => [n.toUInt8]
  | more + 1, n =>
    if n < 128 then [n.toUInt8] else (n % 128 + 128).toUInt8 :: writeVarint more (n / 128)

/-- A number of 64 bits. -/
def varintBytes (n : ℕ) : List UInt8 := writeVarint 9 n

theorem varintFrom_append (h : varintFrom false bits shift value input = some (n, rest))
    (more : List UInt8) :
    varintFrom cut bits shift value (input ++ more) = some (n, rest ++ more) := by
  induction input generalizing shift value with
  | nil => cases h
  | cons b input ih =>
    grind [varintFrom]

theorem varintFrom_length_le (h : varintFrom cut bits shift value input = some (n, rest)) :
    rest.length ≤ input.length := by
  induction input generalizing shift value with
  | nil =>
    unfold varintFrom at h
    split_ifs at h with hcut
    obtain ⟨-, rfl⟩ := Prod.mk.inj (Option.some.inj h)
    exact le_rfl
  | cons b input ih =>
    grind [varintFrom]

theorem Extends.varint (cut : Bool) (bits : ℕ) : Extends (varint false bits) (varint cut bits) :=
  ⟨fun _ _ _ h more => varintFrom_append h more, fun _ _ _ h => varintFrom_length_le h⟩

theorem toNat_toUInt8 {n : ℕ} (h : n < 256) : n.toUInt8.toNat = n := by
  simpa using Nat.mod_eq_of_lt h

/-- One byte that is the last. -/
theorem varintFrom_last (hn : n < 128) (hbits : n < 2 ^ (bits - shift)) (hzero : shift = 0 ∨ n ≠ 0)
    (rest : List UInt8) :
    varintFrom cut bits shift value (n.toUInt8 :: rest) = some (value + n * 2 ^ shift, rest) := by
  have hval : n.toUInt8.toNat = n := toNat_toUInt8 (by omega)
  have hne : ¬(n.toUInt8 = 0 ∧ shift ≠ 0) := by
    rintro ⟨h, hshift⟩
    have : n = 0 := by rw [← hval, h]; rfl
    omega
  unfold varintFrom
  rw [hval, if_neg (by omega), if_neg hne, if_pos hn, Nat.mod_eq_of_lt hn]

/-- One byte that is not the last. -/
theorem varintFrom_next (hn : 128 ≤ n) (hbits : n < 2 ^ (bits - shift)) (rest : List UInt8) :
    varintFrom cut bits shift value ((n % 128 + 128).toUInt8 :: rest) =
      varintFrom cut bits (shift + 7) (value + n % 128 * 2 ^ shift) rest := by
  have hval : (n % 128 + 128).toUInt8.toNat = n % 128 + 128 := toNat_toUInt8 (by omega)
  have hwide : ¬bits ≤ shift + 7 := by
    intro h
    have : 2 ^ (bits - shift) ≤ 2 ^ 7 := Nat.pow_le_pow_right (by norm_num) (by omega)
    omega
  have hne : ¬((n % 128 + 128).toUInt8 = 0 ∧ shift ≠ 0) := by
    rintro ⟨h, -⟩
    rw [h] at hval
    simp at hval
  conv_lhs => unfold varintFrom
  rw [hval, if_neg (fun h => hwide h.1), if_neg hne, if_neg (by omega), Nat.add_mod_right,
    Nat.mod_mod]

theorem varintFrom_write {bits more shift value n : ℕ} (hn : n < 128 ^ (more + 1))
    (hbits : n < 2 ^ (bits - shift)) (hzero : shift = 0 ∨ n ≠ 0) (rest : List UInt8) :
    varintFrom cut bits shift value (writeVarint more n ++ rest) =
      some (value + n * 2 ^ shift, rest) := by
  induction more generalizing shift value n with
  | zero => exact varintFrom_last (by simpa using hn) hbits hzero rest
  | succ more ih =>
    unfold writeVarint
    split_ifs with hlast
    · exact varintFrom_last hlast hbits hzero rest
    · have hge : 128 ≤ n := Nat.le_of_not_lt hlast
      rw [cons_append, varintFrom_next hge hbits]
      have hhigh : n / 128 < 128 ^ (more + 1) := by
        rw [Nat.div_lt_iff_lt_mul (by norm_num), ← pow_succ]
        exact hn
      have hhighBits : n / 128 < 2 ^ (bits - (shift + 7)) := by
        rw [Nat.div_lt_iff_lt_mul (by norm_num)]
        refine hbits.trans_le ?_
        rw [show (128 : ℕ) = 2 ^ 7 by norm_num, ← pow_add]
        exact Nat.pow_le_pow_right (by norm_num) (by omega)
      rw [ih hhigh hhighBits (.inr (by omega))]
      have hsplit : n % 128 * 2 ^ shift + n / 128 * 2 ^ (shift + 7) = n * 2 ^ shift := by
        calc n % 128 * 2 ^ shift + n / 128 * 2 ^ (shift + 7)
            = (n % 128 + 128 * (n / 128)) * 2 ^ shift := by rw [pow_add]; ring
          _ = n * 2 ^ shift := by rw [Nat.mod_add_div]
      rw [Nat.add_assoc, hsplit]

/-- A number is read back by a type with enough bits. -/
theorem Decodes.varint (cut : Bool) {bits n : ℕ} (hbits : n < 2 ^ bits) (hn : n < 2 ^ 64) :
    Decodes (varint cut bits) (varintBytes n) n := by
  intro more
  have h := @varintFrom_write cut bits 9 0 0 n (hn.trans_le (by norm_num)) hbits (.inl rfl) more
  rwa [Nat.zero_add, Nat.pow_zero, Nat.mul_one] at h

theorem length_writeVarint {more n : ℕ} (hn : n < 128 ^ (more + 1)) :
    (writeVarint more n).length = n.log2 / 7 + 1 := by
  induction more generalizing n with
  | zero =>
    have hlog : n.log2 < 7 := by
      by_cases h : n = 0
      · simp [h]
      · exact (Nat.log2_lt h).mpr (by simpa using hn)
    rw [Nat.div_eq_of_lt hlog]
    rfl
  | succ more ih =>
    unfold writeVarint
    split_ifs with hlast
    · have hlog : n.log2 < 7 := by
        by_cases h : n = 0
        · simp [h]
        · exact (Nat.log2_lt h).mpr hlast
      rw [Nat.div_eq_of_lt hlog]
      rfl
    · have hhigh : n / 128 < 128 ^ (more + 1) := by
        rw [Nat.div_lt_iff_lt_mul (by norm_num), ← pow_succ]
        exact hn
      have hlog : (n / 128).log2 = n.log2 - 7 := by
        rw [Nat.log2_eq_log_two, Nat.log2_eq_log_two, show (128 : ℕ) = 2 ^ 7 by norm_num]
        exact Nat.log_div_base_pow 2 n 7
      have hge : 7 ≤ n.log2 := by
        rw [Nat.le_log2 (by omega)]
        omega
      rw [length_cons, ih hhigh, hlog]
      omega

end Varint

section Vector

/-- The number of elements and the elements. There have to be as many bytes as elements. -/
def vector (cut : Bool) (r : Reader α) : Reader (List α) := do
  let count ← varint cut 64
  need count
  many r count

/-- The number of bytes and the bytes. -/
def string (cut : Bool) : Reader (List UInt8) := do
  let count ← varint cut 64
  take count

theorem Extends.vector (cut : Bool) {r s : Reader α} (h : Extends r s) :
    Extends (vector false r) (vector cut s) :=
  (Extends.varint cut 64).bind fun count => (Extends.need count).bind fun _ => h.many count

theorem Extends.string (cut : Bool) : Extends (string false) (string cut) :=
  (Extends.varint cut 64).bind fun count => .take count

def vectorBytes (write : α → List UInt8) (l : List α) : List UInt8 :=
  varintBytes l.length ++ l.flatMap write

theorem Decodes.vector (cut : Bool) {r : Reader α} {write : α → List UInt8} {l : List α}
    (hlen : l.length < 2 ^ 64) (hsome : ∀ a ∈ l, write a ≠ [])
    (h : ∀ a ∈ l, Decodes r (write a) a) :
    Decodes (vector cut r) (vectorBytes write l) l := by
  refine (Decodes.varint cut hlen hlen).bind fun more => ?_
  have hle : l.length ≤ (l.flatMap write).length := by
    grind [length_map, length_le_sum_of_one_le, length_pos_iff.mpr]
  have hneed : need l.length (l.flatMap write ++ more) = some ((), l.flatMap write ++ more) := by
    rw [need, if_neg (by rw [length_append]; omega)]
  rw [bind_apply, hneed]
  exact Decodes.many h more

end Vector

end Arqma.ByteReader
