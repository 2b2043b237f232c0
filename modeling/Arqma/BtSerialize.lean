import Arqma.AssocMap
import Arqma.HttpIo

/-!
# The bt codec

Values are integers, byte strings, lists and dictionaries. A dictionary is a hash map, whose order
of iteration is left open, and is written with its keys in order. The reader walks over the input
once: a byte of lookahead decides what comes next, numbers are read up to the first byte that is
not a digit, and long strings in pieces.
-/
namespace Arqma.Net
open List

variable {v : BtValue} {entries : List (Bytes × BtValue)} {fuel : ℕ} {c : UInt8} {n : ℕ}
open Arqma.Storage (toDecimal digitsValue)

/-- A value, with the entries of a dictionary in the order of iteration. -/
inductive BtValue
  | string (s : Bytes)
  | int (i : Int64)
  | list (values : List BtValue)
  | dict (entries : List (Bytes × BtValue))

/-! ## Writing -/

def btInteger (i : Int64) : Bytes :=
  [105] ++
    (if i.toInt < 0 then 45 :: toDecimal i.toInt.natAbs else toDecimal i.toInt.toNat) ++ [101]

def btString (s : Bytes) : Bytes := toDecimal s.length ++ [58] ++ s

mutual

/-- `bt_serialize`. -/
def btSerialize : BtValue → Bytes
  | .string s => btString s
  | .int i => btInteger i
  | .list values => [108] ++ btSerializeAll values ++ [101]
  | .dict entries =>
    [100] ++ (inKeyOrder (btSerializePairs entries)).flatMap (fun p => btString p.1 ++ p.2) ++ [101]

def btSerializeAll : List BtValue → Bytes
  | [] => []
  | v :: values => btSerialize v ++ btSerializeAll values

/-- The entries with their values written out. -/
def btSerializePairs : List (Bytes × BtValue) → List (Bytes × Bytes)
  | [] => []
  | (key, v) :: entries => (key, btSerialize v) :: btSerializePairs entries

end

/-! ## Reading -/

/-- What the message of an exception says, apart from the location. -/
inductive BtProblem
  | unexpectedEof
  | expected (wanted found : UInt8)
  | expectedDigit (found : UInt8)
  | ioError
  | tooLargeNegative
  | invalidValue (found : UInt8)
deriving DecidableEq, Repr

inductive BtError
  | invalid (problem : BtProblem)
  | invalidType (problem : BtProblem)
deriving DecidableEq, Repr

/-- The error of an element is one of the container. -/
def BtError.rethrow : BtError → BtError
  | .invalid problem => .invalid problem
  | .invalidType problem => .invalid problem

def rethrowing {α : Type} : Except BtError α → Except BtError α :=
  Except.mapError BtError.rethrow

def isDigit (c : UInt8) : Bool := 48 ≤ c && c ≤ 57

/-- `is >> n` for a number that begins here: the number and the input that is left. -/
def readNumber (raw : Bytes) : Option (UInt64 × Bytes) :=
  if 2 ^ 64 ≤ digitsValue raw then none
  else some (UInt64.ofNat (digitsValue raw), raw.dropWhile isDigit)

/-- `bt_expect`: the input behind a byte. -/
def btExpect (wanted : UInt8) (fail : BtProblem → BtError) : Bytes → Except BtError Bytes
  | [] => .error (.invalid .unexpectedEof)
  | c :: rest => if c = wanted then .ok rest else .error (fail (.expected wanted c))

/-- The loop over the pieces of a long string. -/
def readPieces : ℕ → ℕ → Bytes → Bytes → Except BtError (Bytes × Bytes)
  | 0, _, raw, val => .ok (val, raw)
  | fuel + 1, len, raw, val =>
    if len = 0 then .ok (val, raw)
    else if raw.length < min len 4096 then .error (.invalid .unexpectedEof)
    else
      readPieces fuel (len - min len 4096) (raw.drop (min len 4096))
        (val ++ raw.take (min len 4096))

/-- The bytes of a string after its length. -/
def readBytes (len : ℕ) (raw : Bytes) : Except BtError (Bytes × Bytes) :=
  if len ≤ 4096 then
    if raw.length < len then .error (.invalid .unexpectedEof)
    else .ok (raw.take len, raw.drop len)
  else readPieces len len raw []

def readString (raw : Bytes) : Except BtError (Bytes × Bytes) :=
  match raw.head? with
  | none => .error (.invalid .unexpectedEof)
  | some first =>
    if !isDigit first then .error (.invalidType (.expectedDigit first))
    else
      -- `peek` gives 255 at the end of the input and after a failed read
      match readNumber raw with
      | none => .error (.invalid (.expected 58 255))
      | some (_, []) => .error (.invalid (.expected 58 255))
      | some (len, c :: rest) =>
        if c = 58 then readBytes len.toNat rest else .error (.invalid (.expected 58 c))

/-- `bt_deserialize_integer` behind its first byte and the sign. -/
def readUnsigned (raw : Bytes) : Except BtError (UInt64 × Bytes) :=
  match raw.head? with
  | none => .error (.invalid .unexpectedEof)
  | some first =>
    if !isDigit first then .error (.invalid (.expectedDigit first))
    else
      match readNumber raw with
      | none => .error (.invalid .ioError)
      | some (uval, raw) => (btExpect 101 .invalid raw).map fun rest => (uval, rest)

/-- `bt_deserialize_integer`. -/
def readInteger (raw : Bytes) : Except BtError (Int64 × Bytes) := do
  let raw ← btExpect 105 .invalidType raw
  if raw.head? = some 45 then
    let (uval, raw) ← readUnsigned (raw.drop 1)
    if 2 ^ 63 < uval.toNat then .error (.invalid .tooLargeNegative)
    else .ok ((-uval).toInt64, raw)
  else
    let (uval, raw) ← readUnsigned raw
    .ok (uval.toInt64, raw)

/-- `dict.insert` for a dictionary: an entry that is there stays. -/
def insertEntry (dict : List (Bytes × BtValue)) (key : Bytes) (v : BtValue) :
    List (Bytes × BtValue) :=
  if key ∈ dict.map Prod.fst then dict else dict ++ [(key, v)]

mutual

/-- `bt_deserialize` for any value. -/
def btDeserialize : ℕ → Bytes → Except BtError (BtValue × Bytes)
  | 0, _ => .error (.invalid .unexpectedEof)
  | fuel + 1, raw =>
    match raw with
    | [] => .error (.invalid .unexpectedEof)
    | c :: rest =>
      if c = 100 then (readDict fuel rest []).map fun p => (.dict p.1, p.2)
      else if c = 108 then (readList fuel rest []).map fun p => (.list p.1, p.2)
      else if c = 105 then (readInteger raw).map fun p => (.int p.1, p.2)
      else if isDigit c then (readString raw).map fun p => (.string p.1, p.2)
      else .error (.invalid (.invalidValue c))

/-- The loop over the elements of a list. -/
def readList : ℕ → Bytes → List BtValue → Except BtError (List BtValue × Bytes)
  | 0, _, _ => .error (.invalid .unexpectedEof)
  | fuel + 1, raw, values =>
    match raw with
    | [] => .error (.invalid .unexpectedEof)
    | c :: rest =>
      if c = 101 then .ok (values, rest)
      else
        match rethrowing (btDeserialize fuel raw) with
        | .error e => .error e
        | .ok (v, raw) => readList fuel raw (values ++ [v])

/-- The loop over the entries of a dictionary. -/
def readDict : ℕ → Bytes → List (Bytes × BtValue) →
    Except BtError (List (Bytes × BtValue) × Bytes)
  | 0, _, _ => .error (.invalid .unexpectedEof)
  | fuel + 1, raw, dict =>
    match raw with
    | [] => .error (.invalid .unexpectedEof)
    | c :: rest =>
      if c = 101 then .ok (dict, rest)
      else
        match rethrowing (readString raw) with
        | .error e => .error e
        | .ok (key, raw) =>
          match rethrowing (btDeserialize fuel raw) with
          | .error e => .error e
          | .ok (v, raw) => readDict fuel raw (insertEntry dict key v)

end

/-- `bt_get`: what comes after the value is not looked at. -/
def btGet (raw : Bytes) : Except BtError BtValue :=
  (btDeserialize (raw.length + 1) raw).map Prod.fst

/-! ## Values up to the order of iteration -/

/-- What holds in any program: the keys of a dictionary are different, and the size of a string
is a 64-bit number. -/
inductive BtValue.Proper : BtValue → Prop
  | string {s : Bytes} (size : s.length < 2 ^ 64) : Proper (.string s)
  | int (i : Int64) : Proper (.int i)
  | list {values : List BtValue} (proper : ∀ v ∈ values, Proper v) : Proper (.list values)
  | dict {entries : List (Bytes × BtValue)} (distinct : (entries.map Prod.fst).Nodup)
      (size : ∀ p ∈ entries, p.1.length < 2 ^ 64) (proper : ∀ p ∈ entries, Proper p.2) :
      Proper (.dict entries)

/-- The values of the program. -/
def Bt : Type := { v : BtValue // v.Proper }

/-- The same value, whatever the order of iteration: lists agree place by place, dictionaries key
by key. -/
inductive SameContent : BtValue → BtValue → Prop
  | string (s : Bytes) : SameContent (.string s) (.string s)
  | int (i : Int64) : SameContent (.int i) (.int i)
  | list {values values' : List BtValue} (length : values.length = values'.length)
      (same : ∀ (n : ℕ) v v', values[n]? = some v → values'[n]? = some v' → SameContent v v') :
      SameContent (.list values) (.list values')
  | dict {entries entries' : List (Bytes × BtValue)}
      (keys : ∀ key, key ∈ entries.map Prod.fst ↔ key ∈ entries'.map Prod.fst)
      (same : ∀ key v v', (key, v) ∈ entries → (key, v') ∈ entries' → SameContent v v') :
      SameContent (.dict entries) (.dict entries')

@[elab_as_elim]
theorem BtValue.induct {motive : BtValue → Prop} (string : ∀ s, motive (.string s))
    (int : ∀ i, motive (.int i)) (list : ∀ values, (∀ v ∈ values, motive v) → motive (.list values))
    (dict : ∀ entries, (∀ p ∈ entries, motive p.2) → motive (.dict entries)) (v : BtValue) :
    motive v :=
  @BtValue.rec motive (fun values => ∀ v ∈ values, motive v)
    (fun entries => ∀ p ∈ entries, motive p.2) (fun p => motive p.2)
    string int list dict (forall_mem_nil _)
    (fun _ _ hv hvalues => forall_mem_cons.mpr ⟨hv, hvalues⟩)
    (forall_mem_nil _) (fun _ _ hp hentries => forall_mem_cons.mpr ⟨hp, hentries⟩)
    (fun _ _ hv => hv) v

theorem btSerializeAll_eq (values : List BtValue) :
    btSerializeAll values = values.flatMap btSerialize := by
  induction values with
  | nil => rfl
  | cons v values ih => rw [btSerializeAll, ih, flatMap_cons]

theorem btSerializePairs_eq (entries : List (Bytes × BtValue)) :
    btSerializePairs entries = entries.map fun p => (p.1, btSerialize p.2) := by
  induction entries with
  | nil => rfl
  | cons p entries ih => rw [btSerializePairs, ih, map_cons]

/-- The pairs are sorted first and then written one after the other. -/
theorem btSerialize_dict (entries : List (Bytes × BtValue)) : btSerialize (.dict entries) =
      [100] ++ (inKeyOrder entries).flatMap (fun p => btString p.1 ++ btSerialize p.2) ++
        [101] := by
  rw [btSerialize, btSerializePairs_eq, inKeyOrder_map, flatMap_map]

theorem btSerialize_list (values : List BtValue) :
    btSerialize (.list values) = [108] ++ values.flatMap btSerialize ++ [101] := by
  rw [btSerialize, btSerializeAll_eq]

mutual

/-- The value with all dictionaries in the order of their keys. -/
def BtValue.sorted : BtValue → BtValue
  | .string s => .string s
  | .int i => .int i
  | .list values => .list (BtValue.sortedAll values)
  | .dict entries => .dict (inKeyOrder (BtValue.sortedPairs entries))

def BtValue.sortedAll : List BtValue → List BtValue
  | [] => []
  | v :: values => v.sorted :: BtValue.sortedAll values

def BtValue.sortedPairs : List (Bytes × BtValue) → List (Bytes × BtValue)
  | [] => []
  | (key, v) :: entries => (key, v.sorted) :: BtValue.sortedPairs entries

end

theorem sorted_list (values : List BtValue) :
    BtValue.sorted (.list values) = .list (values.map BtValue.sorted) := by
  have hall : BtValue.sortedAll values = values.map BtValue.sorted := by
    induction values with
    | nil => rfl
    | cons v values ih => rw [BtValue.sortedAll, ih, map_cons]
  rw [BtValue.sorted, hall]

theorem sorted_dict (entries : List (Bytes × BtValue)) : BtValue.sorted (.dict entries) =
      .dict ((inKeyOrder entries).map fun p => (p.1, p.2.sorted)) := by
  have hall : BtValue.sortedPairs entries = entries.map fun p => (p.1, p.2.sorted) := by
    induction entries with
    | nil => rfl
    | cons p entries ih => rw [BtValue.sortedPairs, ih, map_cons]
  rw [BtValue.sorted, hall, inKeyOrder_map]

/-! ## Reading back what was written -/

section ReadBack

theorem isDigit_of_mem_toDecimal (h : c ∈ toDecimal n) : isDigit c = true := by
  simpa [isDigit] using Storage.digit_of_mem_toDecimal h

theorem readNumber_toDecimal (h : n < 2 ^ 64) (hc : isDigit c = false)
    (rest : Bytes) :
    readNumber (toDecimal n ++ c :: rest) = some (UInt64.ofNat n, c :: rest) := by
  have hvalue : digitsValue (toDecimal n ++ c :: rest) = n := by
    have htake : (toDecimal n ++ c :: rest).takeWhile isDigit = toDecimal n := by
      rw [takeWhile_append_of_pos fun d hd => isDigit_of_mem_toDecimal hd,
        takeWhile_cons_of_neg (by simp [hc]), append_nil]
    change ((toDecimal n ++ c :: rest).takeWhile isDigit).foldl _ 0 = n
    rw [htake, Storage.foldl_toDecimal]
  grind [dropWhile_append_of_pos, isDigit_of_mem_toDecimal, dropWhile_cons_of_neg, readNumber]

theorem exists_head_toDecimal (n : ℕ) (rest : Bytes) :
    ∃ c, (toDecimal n ++ rest).head? = some c ∧ isDigit c = true := by
  obtain ⟨c, digits, hdigits⟩ := exists_cons_of_ne_nil (Storage.toDecimal_ne_nil n)
  refine ⟨c, by rw [hdigits]; rfl, isDigit_of_mem_toDecimal (n := n) ?_⟩
  rw [hdigits]
  exact mem_cons_self

/-- The pieces of a string make up the string. -/
theorem readPieces_append {s : Bytes} (h : s.length ≤ fuel) (rest val : Bytes) :
    readPieces fuel s.length (s ++ rest) val = .ok (val ++ s, rest) := by
  induction fuel generalizing s val with
  | zero =>
    rw [length_eq_zero_iff.mp (Nat.le_zero.mp h)]
    simp [readPieces]
  | succ fuel ih =>
    rw [readPieces]
    by_cases hempty : s = []
    · simp [hempty]
    · have hpos : 0 < s.length := length_pos_iff.mpr hempty
      have hlong : ¬(s ++ rest).length < min s.length 4096 := by
        rw [length_append]
        omega
      have hshort : (s.drop (min s.length 4096)).length ≤ fuel := by
        rw [length_drop]
        omega
      grind [take_append_drop]

theorem readBytes_append (s rest : Bytes) : readBytes s.length (s ++ rest) = .ok (s, rest) := by
  simp [readBytes, readPieces_append]

theorem readString_btString {s : Bytes} (h : s.length < 2 ^ 64) (rest : Bytes) :
    readString (btString s ++ rest) = .ok (s, rest) := by
  have hraw : btString s ++ rest = toDecimal s.length ++ 58 :: (s ++ rest) := by simp [btString]
  obtain ⟨c, hhead, hdigit⟩ := exists_head_toDecimal s.length (58 :: (s ++ rest))
  rw [hraw, readString, hhead]
  simp only [hdigit, Bool.not_true, Bool.false_eq_true, if_false,
    readNumber_toDecimal h (by decide : isDigit 58 = false), if_true,
    UInt64.toNat_ofNat_of_lt' h, readBytes_append]

theorem readUnsigned_toDecimal (h : n < 2 ^ 64) (rest : Bytes) :
    readUnsigned (toDecimal n ++ 101 :: rest) = .ok (UInt64.ofNat n, rest) := by
  obtain ⟨c, hhead, hdigit⟩ := exists_head_toDecimal n (101 :: rest)
  rw [readUnsigned, hhead]
  simp only [hdigit, Bool.not_true, Bool.false_eq_true, if_false,
    readNumber_toDecimal h (by decide : isDigit 101 = false)]
  rfl

theorem toInt64_of_nonneg {i : Int64} (h : 0 ≤ i.toInt) :
    (UInt64.ofNat i.toInt.toNat).toInt64 = i := by
  rw [← Int64.toBitVec_inj]
  rw [← Int64.toInt_toBitVec] at h ⊢
  apply BitVec.eq_of_toNat_eq
  have := i.toBitVec.isLt
  simp [BitVec.toInt_eq_toNat_cond] at h ⊢
  split_ifs at h ⊢ <;> omega

theorem toInt64_of_neg {i : Int64} (h : i.toInt < 0) :
    (-UInt64.ofNat i.toInt.natAbs).toInt64 = i ∧ i.toInt.natAbs ≤ 2 ^ 63 := by
  have hlt := i.toBitVec.isLt
  rw [← Int64.toInt_toBitVec, BitVec.toInt_eq_toNat_cond] at h ⊢
  split_ifs at h ⊢ with hcond
  · omega
  · have habs : ((i.toBitVec.toNat : ℤ) - (2 ^ 64 : ℕ)).natAbs = 2 ^ 64 - i.toBitVec.toNat := by
      omega
    rw [habs]
    refine ⟨?_, by omega⟩
    rw [← Int64.toBitVec_inj]
    apply BitVec.eq_of_toNat_eq
    simp
    omega

theorem readInteger_btInteger (i : Int64) (rest : Bytes) :
    readInteger (btInteger i ++ rest) = .ok (i, rest) := by
  rw [btInteger, readInteger]
  split_ifs with hneg
  · obtain ⟨hvalue, hbound⟩ := toInt64_of_neg hneg
    have hlt : i.toInt.natAbs < 2 ^ 64 := by omega
    have hraw : [105] ++ 45 :: toDecimal i.toInt.natAbs ++ [101] ++ rest =
        105 :: 45 :: (toDecimal i.toInt.natAbs ++ 101 :: rest) := by simp
    rw [hraw]
    simp only [btExpect, if_true, bind, Except.bind, head?_cons, drop_succ_cons,
      drop_zero, readUnsigned_toDecimal hlt, UInt64.toNat_ofNat_of_lt' hlt,
      if_neg (Nat.not_lt.mpr hbound), hvalue]
  · have hnonneg : 0 ≤ i.toInt := Int.not_lt.mp hneg
    have hlt : i.toInt.toNat < 2 ^ 64 := by
      have := i.toInt_lt
      omega
    have hraw : [105] ++ toDecimal i.toInt.toNat ++ [101] ++ rest =
        105 :: (toDecimal i.toInt.toNat ++ 101 :: rest) := by simp
    obtain ⟨c, hhead, hdigit⟩ := exists_head_toDecimal i.toInt.toNat (101 :: rest)
    have hsign : ¬c = 45 := by
      rintro rfl
      revert hdigit
      decide
    rw [hraw]
    simp only [btExpect, if_true, bind, Except.bind, hhead, Option.some.injEq, hsign, if_false,
      readUnsigned_toDecimal hlt, toInt64_of_nonneg hnonneg]

/-- The first byte of a value is neither the end of a container nor the end of the input. -/
theorem exists_head_btSerialize (v : BtValue) : ∃ c rest, btSerialize v = c :: rest ∧ c ≠ 101 := by
  cases v with
  | string s =>
    obtain ⟨c, digits, hdigits⟩ := exists_cons_of_ne_nil (Storage.toDecimal_ne_nil s.length)
    refine ⟨c, digits ++ [58] ++ s, by rw [btSerialize, btString, hdigits]; rfl, ?_⟩
    rintro rfl
    have hdigit : isDigit 101 = true :=
      isDigit_of_mem_toDecimal (n := s.length) (hdigits ▸ mem_cons_self)
    revert hdigit
    decide
  | int i => exact ⟨105, _, rfl, by decide⟩
  | list values => exact ⟨108, _, rfl, by decide⟩
  | dict entries => exact ⟨100, _, rfl, by decide⟩

theorem length_btSerialize_pos (v : BtValue) : 0 < (btSerialize v).length := by
  obtain ⟨c, rest, heq, -⟩ := exists_head_btSerialize v
  rw [heq]
  exact Nat.succ_pos _

/-- What is written for the value is read as the sorted value, by a reader with enough fuel. -/
def ReadsBack (v : BtValue) : Prop :=
  ∀ fuel rest, (btSerialize v).length ≤ fuel →
    btDeserialize fuel (btSerialize v ++ rest) = .ok (v.sorted, rest)

theorem readList_flatMap {values : List BtValue} (h : ∀ v ∈ values, ReadsBack v)
    (hfuel : (values.flatMap btSerialize).length < fuel) (rest : Bytes) (before : List BtValue) :
    readList fuel (values.flatMap btSerialize ++ 101 :: rest) before =
      .ok (before ++ values.map BtValue.sorted, rest) := by
  induction values generalizing fuel before with
  | nil =>
    obtain ⟨fuel, rfl⟩ := Nat.exists_eq_succ_of_ne_zero hfuel.ne'
    simp [readList]
  | cons v values ih =>
    obtain ⟨fuel, rfl⟩ := Nat.exists_eq_succ_of_ne_zero (Nat.ne_of_gt (Nat.zero_lt_of_lt hfuel))
    obtain ⟨c, tail, hhead, hc⟩ := exists_head_btSerialize v
    have hpos := length_btSerialize_pos v
    rw [flatMap_cons, length_append] at hfuel
    have hv := h v mem_cons_self fuel (values.flatMap btSerialize ++ 101 :: rest) (by omega)
    have hnext := ih (fun v' hv' => h v' (mem_cons_of_mem _ hv')) (by omega : _ < fuel)
      (before ++ [v.sorted])
    rw [flatMap_cons, append_assoc]
    rw [hhead] at hv ⊢
    simp only [readList, cons_append, if_neg hc, rethrowing, Except.mapError] at hv ⊢
    rw [hv]
    simp only [hnext, map_cons, append_assoc, singleton_append]

theorem readDict_flatMap (h : ∀ p ∈ entries, ReadsBack p.2)
    (hsize : ∀ p ∈ entries, p.1.length < 2 ^ 64)
    (hfuel : (entries.flatMap fun p => btString p.1 ++ btSerialize p.2).length < fuel)
    (rest : Bytes) (before : List (Bytes × BtValue))
    (hnodup : ((before ++ entries).map Prod.fst).Nodup) :
    readDict fuel ((entries.flatMap fun p => btString p.1 ++ btSerialize p.2) ++ 101 :: rest)
      before = .ok (before ++ entries.map fun p => (p.1, p.2.sorted), rest) := by
  induction entries generalizing fuel before with
  | nil =>
    obtain ⟨fuel, rfl⟩ := Nat.exists_eq_succ_of_ne_zero hfuel.ne'
    simp [readDict]
  | cons p entries ih =>
    obtain ⟨fuel, rfl⟩ := Nat.exists_eq_succ_of_ne_zero (Nat.ne_of_gt (Nat.zero_lt_of_lt hfuel))
    obtain ⟨c, tail, hhead, hc⟩ := exists_head_btSerialize (.string p.1)
    have hpos := length_btSerialize_pos (.string p.1)
    rw [btSerialize] at hhead hpos
    rw [flatMap_cons, length_append, length_append] at hfuel
    set written := (entries.flatMap fun p => btString p.1 ++ btSerialize p.2) with hwritten
    have hkey := readString_btString (hsize p mem_cons_self)
      (btSerialize p.2 ++ (written ++ 101 :: rest))
    have hv := h p mem_cons_self fuel (written ++ 101 :: rest) (by omega)
    have hinsert : insertEntry before p.1 p.2.sorted = before ++ [(p.1, p.2.sorted)] := by
      refine if_neg fun hmem => ?_
      rw [map_append, map_cons, nodup_append] at hnodup
      exact hnodup.2.2 p.1 hmem p.1 mem_cons_self rfl
    have hnext := ih (fun q hq => h q (mem_cons_of_mem _ hq))
      (fun q hq => hsize q (mem_cons_of_mem _ hq)) (by omega : _ < fuel)
      (before ++ [(p.1, p.2.sorted)]) (by simpa using hnodup)
    rw [flatMap_cons, ← hwritten, append_assoc, append_assoc]
    rw [hhead] at hkey ⊢
    simp only [readDict, cons_append, if_neg hc, rethrowing, Except.mapError] at hkey ⊢
    rw [hkey]
    simp only [hv, hinsert, hnext, map_cons, append_assoc, singleton_append]

theorem btDeserialize_of_digit (fuel : ℕ) {raw : Bytes} (hhead : raw.head? = some c)
    (hdigit : isDigit c = true) :
    btDeserialize (fuel + 1) raw = (readString raw).map fun p => (.string p.1, p.2) := by
  obtain ⟨tail, rfl⟩ := head?_eq_some_iff.mp hhead
  grind [isDigit, btDeserialize]

theorem btDeserialize_list (fuel : ℕ) (raw : Bytes) : btDeserialize (fuel + 1) (108 :: raw) =
      (readList fuel raw []).map fun p => (.list p.1, p.2) := by
  simp [btDeserialize]

theorem btDeserialize_dict (fuel : ℕ) (raw : Bytes) : btDeserialize (fuel + 1) (100 :: raw) =
      (readDict fuel raw []).map fun p => (.dict p.1, p.2) := by
  simp [btDeserialize]

theorem btDeserialize_int (fuel : ℕ) (raw : Bytes) : btDeserialize (fuel + 1) (105 :: raw) =
      (readInteger (105 :: raw)).map fun p => (.int p.1, p.2) := by
  simp [btDeserialize]

theorem ReadsBack.of_succ
    (h : ∀ fuel rest, (btSerialize v).length ≤ fuel + 1 →
      btDeserialize (fuel + 1) (btSerialize v ++ rest) = .ok (v.sorted, rest)) : ReadsBack v := by
  intro fuel rest hfuel
  obtain ⟨fuel, rfl⟩ := Nat.exists_eq_succ_of_ne_zero
    (Nat.ne_of_gt (Nat.lt_of_lt_of_le (length_btSerialize_pos v) hfuel))
  exact h fuel rest hfuel

/-- Every proper value is read back with its dictionaries sorted. -/
theorem readsBack (hv : v.Proper) : ReadsBack v := by
  induction v using BtValue.induct with
  | string s =>
    cases hv with
    | string size =>
      refine ReadsBack.of_succ fun fuel rest _ => ?_
      obtain ⟨c, hhead, hdigit⟩ := exists_head_toDecimal s.length ([58] ++ s ++ rest)
      have hhead' : (btString s ++ rest).head? = some c := by
        rw [← hhead]
        simp [btString]
      rw [btSerialize, btDeserialize_of_digit fuel hhead' hdigit, readString_btString size]
      rfl
  | int i =>
    refine ReadsBack.of_succ fun fuel rest _ => ?_
    have hread := readInteger_btInteger i rest
    rw [btInteger, append_assoc, append_assoc, singleton_append] at hread
    rw [btSerialize, btInteger, append_assoc, append_assoc, singleton_append,
      btDeserialize_int, hread]
    rfl
  | list values ih =>
    cases hv with
    | list proper =>
      refine ReadsBack.of_succ fun fuel rest hfuel => ?_
      rw [btSerialize_list] at hfuel ⊢
      simp only [length_append, length_singleton] at hfuel
      have hloop := readList_flatMap (fun v hv => ih v hv (proper v hv)) (by omega : _ < fuel)
        rest []
      rw [append_assoc, append_assoc, singleton_append, btDeserialize_list,
        singleton_append, hloop, sorted_list]
      rfl
  | dict entries ih =>
    cases hv with
    | dict distinct size proper =>
      refine ReadsBack.of_succ fun fuel rest hfuel => ?_
      rw [btSerialize_dict] at hfuel ⊢
      simp only [length_append, length_singleton] at hfuel
      have hloop := readDict_flatMap
        (fun p hp => ih p (mem_inKeyOrder.mp hp) (proper p (mem_inKeyOrder.mp hp)))
        (fun p hp => size p (mem_inKeyOrder.mp hp)) (by omega : _ < fuel) rest []
        (nodup_inKeyOrder distinct)
      rw [append_assoc, append_assoc, singleton_append, btDeserialize_dict,
        singleton_append, hloop, sorted_dict]
      rfl

theorem btGet_btSerialize (hv : v.Proper) : btGet (btSerialize v) = .ok v.sorted := by
  have hread := readsBack hv ((btSerialize v).length + 1) [] (Nat.le_succ _)
  rw [append_nil] at hread
  rw [btGet, hread]
  rfl

end ReadBack

/-! ## Content -/

section Content

theorem SameContent.symm {v w : BtValue} (h : SameContent v w) : SameContent w v := by
  induction h with
  | string s => exact .string s
  | int i => exact .int i
  | list length _ ih => exact .list length.symm fun n v v' hv hv' => ih n v' v hv' hv
  | dict keys _ ih =>
    exact .dict (fun key => (keys key).symm) fun key v v' hv hv' => ih key v' v hv' hv

theorem eq_of_mem_of_nodup
    (hdistinct : (entries.map Prod.fst).Nodup) {key : Bytes} {v v' : BtValue}
    (hv : (key, v) ∈ entries) (hv' : (key, v') ∈ entries) : v = v' :=
  (Prod.mk.inj (inj_on_of_nodup_map hdistinct hv hv' rfl)).2

theorem SameContent.trans {u v w : BtValue} (huv : SameContent u v) (hvw : SameContent v w) :
    SameContent u w := by
  induction huv generalizing w with
  | string s => exact hvw
  | int i => exact hvw
  | @list values values' length _ ih =>
    cases hvw with
    | list length' same' =>
      refine .list (length.trans length') fun n v v' hv hv' => ?_
      grind
  | dict keys _ ih =>
    cases hvw with
    | dict keys' same' =>
      refine .dict (fun key => (keys key).trans (keys' key)) fun key v v' hv hv' => ?_
      grind [mem_map_of_mem]

theorem sameContent_sorted (hv : v.Proper) : SameContent v v.sorted := by
  induction v using BtValue.induct with
  | string s => exact .string s
  | int i => exact .int i
  | list values ih =>
    cases hv with
    | list proper =>
      rw [sorted_list]
      refine .list (length_map _).symm fun n v v' hv hv' => ?_
      grind
  | dict entries ih =>
    cases hv with
    | dict distinct size proper =>
      have hmem : ∀ key v, (key, v) ∈ (inKeyOrder entries).map (fun p => (p.1, p.2.sorted)) ↔
          ∃ u, (key, u) ∈ entries ∧ u.sorted = v := by
        intro key v
        simp only [mem_map, mem_inKeyOrder, Prod.mk.injEq]
        constructor
        · rintro ⟨⟨key', u⟩, hu, rfl, rfl⟩
          exact ⟨u, hu, rfl⟩
        · rintro ⟨u, hu, rfl⟩
          exact ⟨(key, u), hu, rfl, rfl⟩
      rw [sorted_dict]
      refine .dict (fun key => ?_) fun key v v' hv hv' => ?_
      · rw [map_map]
        exact ((inKeyOrder_perm entries).map Prod.fst).mem_iff.symm
      · obtain ⟨u, hu, rfl⟩ := (hmem key v').mp hv'
        obtain rfl := eq_of_mem_of_nodup distinct hv hu
        exact ih (key, v) hv (proper (key, v) hv)

theorem proper_sorted (hv : v.Proper) : v.sorted.Proper := by
  induction v using BtValue.induct with
  | string s => exact hv
  | int i => exact hv
  | list values ih =>
    cases hv with
    | list proper =>
      rw [sorted_list]
      refine .list fun v hv => ?_
      obtain ⟨u, hu, rfl⟩ := mem_map.mp hv
      exact ih u hu (proper u hu)
  | dict entries ih =>
    cases hv with
    | dict distinct size proper =>
      rw [sorted_dict]
      refine .dict ?_ (fun p hp => ?_) fun p hp => ?_
      · rw [map_map]
        exact nodup_inKeyOrder distinct
      · obtain ⟨q, hq, rfl⟩ := mem_map.mp hp
        exact size q (mem_inKeyOrder.mp hq)
      · obtain ⟨q, hq, rfl⟩ := mem_map.mp hp
        exact ih q (mem_inKeyOrder.mp hq) (proper q (mem_inKeyOrder.mp hq))

/-- The bytes of a value are determined by its content. -/
theorem SameContent.btSerialize_eq {v w : BtValue} (h : SameContent v w) (hv : v.Proper)
    (hw : w.Proper) : btSerialize v = btSerialize w := by
  induction h with
  | string s => rfl
  | int i => rfl
  | @list values values' length _ ih =>
    cases hv with
    | list hv =>
      cases hw with
      | list hw =>
        have hsame : values.map btSerialize = values'.map btSerialize := by
          refine ext_getElem (by simp [length]) fun n hn hn' => ?_
          rw [length_map] at hn hn'
          rw [getElem_map, getElem_map]
          exact ih n _ _ (getElem?_eq_getElem hn) (getElem?_eq_getElem hn')
            (hv _ (getElem_mem hn)) (hw _ (getElem_mem hn'))
        rw [btSerialize_list, btSerialize_list, flatMap_def, flatMap_def, hsame]
  | @dict entries entries' keys _ ih =>
    cases hv with
    | dict distinct size proper =>
      cases hw with
      | dict distinct' size' proper' =>
        have hkeys : ∀ (entries : List (Bytes × BtValue)),
            (entries.map fun p => (p.1, btSerialize p.2)).map Prod.fst = entries.map Prod.fst := by
          intro entries
          rw [map_map]
          rfl
        have hperm : (entries.map fun p => (p.1, btSerialize p.2)).Perm
            (entries'.map fun p => (p.1, btSerialize p.2)) := by
          refine (perm_ext_iff_of_nodup (List.Nodup.of_map Prod.fst (by rwa [hkeys]))
            (List.Nodup.of_map Prod.fst (by rwa [hkeys]))).mpr fun pair => ?_
          simp only [mem_map]
          constructor
          · rintro ⟨⟨key, v⟩, hv, rfl⟩
            obtain ⟨⟨_, v'⟩, hv', rfl⟩ := mem_map.mp ((keys key).mp (mem_map_of_mem hv))
            exact ⟨_, hv', by rw [ih _ v v' hv hv' (proper _ hv) (proper' _ hv')]⟩
          · rintro ⟨⟨key, v'⟩, hv', rfl⟩
            obtain ⟨⟨_, v⟩, hv, rfl⟩ := mem_map.mp ((keys key).mpr (mem_map_of_mem hv'))
            exact ⟨_, hv, by rw [ih _ v v' hv hv' (proper _ hv) (proper' _ hv')]⟩
        rw [btSerialize, btSerialize, btSerializePairs_eq, btSerializePairs_eq,
          inKeyOrder_eq_of_perm (by rwa [hkeys]) hperm]

end Content

/-- What is written is read back, and two values are written alike exactly if they have the same
content, whatever the order in which their dictionaries are iterated. -/
theorem bt_round_trip_canonical (v w : Bt) :
    (∃ v' : Bt, btGet (btSerialize v.1) = .ok v'.1 ∧ SameContent v.1 v'.1) ∧
      (btSerialize v.1 = btSerialize w.1 ↔ SameContent v.1 w.1) := by
  refine ⟨⟨⟨v.1.sorted, proper_sorted v.2⟩, btGet_btSerialize v.2, sameContent_sorted v.2⟩, ?_, ?_⟩
  · intro heq
    have hread := btGet_btSerialize v.2
    rw [heq, btGet_btSerialize w.2] at hread
    have hsorted : w.1.sorted = v.1.sorted := Except.ok.inj hread
    exact (sameContent_sorted v.2).trans (hsorted ▸ (sameContent_sorted w.2).symm)
  · exact fun hsame => hsame.btSerialize_eq v.2 w.2

/-- A dictionary with a negative number, empty containers and a list, in two orders. -/
def sampleDict (swapped : Bool) : BtValue :=
  let first := (Storage.asciiBytes "b", BtValue.int (-9223372036854775808))
  let second := (Storage.asciiBytes "a", BtValue.list [.dict [], .list [], .string []])
  .dict (if swapped then [second, first] else [first, second])

example : ∀ swapped, btSerialize (sampleDict swapped) =
    Storage.asciiBytes "d1:aldele0:e1:bi-9223372036854775808ee" := by
  decide

end Arqma.Net
