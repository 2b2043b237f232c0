import Mathlib.Tactic

/-!
# Percent-encoding

Texts are byte strings. Encoding keeps letters, digits and `-_.~` and writes every other byte
as `%` with two hexadecimal digits. Decoding takes whatever follows the form literally and
reads `+` as a blank.
-/
namespace Arqma
open List

variable {raw : Bytes}

abbrev Bytes := List UInt8

/-- What holds of all bytes of a text is decided by a walk over it, not over all bytes. -/
instance (priority := 2000) decidableForallMemBytes (p : UInt8 → Prop) [DecidablePred p]
    (l : Bytes) : Decidable (∀ c ∈ l, p c) := List.decidableBAll p l

def asciiUnreserved (c : UInt8) : Bool :=
  (48 ≤ c && c ≤ 57) || (65 ≤ c && c ≤ 90) || (97 ≤ c && c ≤ 122) || c = 45 || c = 95 ||
    c = 46 || c = 126

def hexNibble (v : UInt8) : UInt8 := if v < 10 then 48 + v else 97 + (v - 10)

def fromHex (c : UInt8) : Option UInt8 :=
  if 48 ≤ c ∧ c ≤ 57 then some (c - 48)
  else if 97 ≤ c ∧ c ≤ 102 then some (10 + (c - 97))
  else if 65 ≤ c ∧ c ≤ 70 then some (10 + (c - 65))
  else none

def urlEncode : Bytes → Bytes
  | [] => []
  | c :: raw =>
    if asciiUnreserved c then c :: urlEncode raw
    else 37 :: hexNibble (c >>> 4) :: hexNibble (c &&& 15) :: urlEncode raw

def urlDecode : Bytes → Bytes
  | [] => []
  | 37 :: hi :: lo :: raw =>
    match fromHex hi, fromHex lo with
    | some h, some l => (h <<< 4 ||| l) :: urlDecode raw
    | _, _ => 37 :: urlDecode (hi :: lo :: raw)
  | c :: raw => (if c = 43 then 32 else c) :: urlDecode raw

/-- Both digits of a byte are read back and stay as they are in an encoded text. -/
theorem hexNibble_halves (c : UInt8) :
    (fromHex (hexNibble (c >>> 4)) = some (c >>> 4) ∧
      fromHex (hexNibble (c &&& 15)) = some (c &&& 15) ∧ (c >>> 4) <<< 4 ||| c &&& 15 = c) ∧
    asciiUnreserved (hexNibble (c >>> 4)) = true ∧
      asciiUnreserved (hexNibble (c &&& 15)) = true := by
  have hall : ∀ n : Fin 256, let c := UInt8.ofFin n
      (fromHex (hexNibble (c >>> 4)) = some (c >>> 4) ∧
        fromHex (hexNibble (c &&& 15)) = some (c &&& 15) ∧ (c >>> 4) <<< 4 ||| c &&& 15 = c) ∧
      asciiUnreserved (hexNibble (c >>> 4)) = true ∧
        asciiUnreserved (hexNibble (c &&& 15)) = true := by
    decide +kernel
  exact hall c.toFin

variable {c : UInt8} {params : List (Bytes × Bytes)}

theorem ne_of_asciiUnreserved (h : asciiUnreserved c = true) : c ≠ 37 ∧ c ≠ 43 := by
  constructor
  · rintro rfl
    revert h
    decide
  · rintro rfl
    revert h
    decide

theorem urlDecode_cons_of_unreserved (h : asciiUnreserved c = true) (raw : Bytes) :
    urlDecode (c :: raw) = c :: urlDecode raw := by
  obtain ⟨hpercent, hplus⟩ := ne_of_asciiUnreserved h
  rw [urlDecode, if_neg hplus]
  rintro hi lo rest rfl
  exact absurd rfl hpercent

/-- What is encoded is decoded to itself. -/
theorem urlDecode_urlEncode (raw : Bytes) : urlDecode (urlEncode raw) = raw := by
  induction raw with
  | nil => rfl
  | cons c raw ih =>
    by_cases h : asciiUnreserved c = true
    · rw [urlEncode, if_pos h, urlDecode_cons_of_unreserved h, ih]
    · obtain ⟨⟨hhi, hlo, hjoin⟩, _⟩ := hexNibble_halves c
      simp only [urlEncode, if_neg h, urlDecode, hhi, hlo, hjoin, ih]

theorem urlEncode_injective : Function.Injective urlEncode :=
  Function.LeftInverse.injective urlDecode_urlEncode

/-- The value of the first parameter of a query with some name, empty if there is none. -/
def queryGet (query name : Bytes) : Bytes :=
  ((query.splitOn 38).findSome? fun pair =>
    if urlDecode (pair.takeWhile (· ≠ 61)) = name then
      some (urlDecode ((pair.dropWhile (· ≠ 61)).drop 1))
    else none).getD []

theorem takeWhile_ne_append_cons {α : Type*} [DecidableEq α] {a : α} {l : List α} (h : a ∉ l)
    (rest : List α) : (l ++ a :: rest).takeWhile (· ≠ a) = l := by
  rw [takeWhile_append_of_pos fun c hc => decide_eq_true (ne_of_mem_of_not_mem hc h),
    takeWhile_cons_of_neg (by simp), append_nil]

theorem dropWhile_ne_append_cons {α : Type*} [DecidableEq α] {a : α} {l : List α} (h : a ∉ l)
    (rest : List α) : (l ++ a :: rest).dropWhile (· ≠ a) = a :: rest := by
  rw [dropWhile_append_of_pos fun c hc => decide_eq_true (ne_of_mem_of_not_mem hc h),
    dropWhile_cons_of_neg (by simp)]

/-- All parameters of a query, names and values decoded. -/
def queryPairs (query : Bytes) : List (Bytes × Bytes) :=
  (query.splitOn 38).map fun pair =>
    (urlDecode (pair.takeWhile (· ≠ 61)), urlDecode ((pair.dropWhile (· ≠ 61)).drop 1))

theorem queryGet_eq_lookup (query name : Bytes) :
    queryGet query name = ((queryPairs query).lookup name).getD [] := by
  rw [queryGet, queryPairs]
  induction query.splitOn 38 with
  | nil => rfl
  | cons pair rest ih =>
    grind

/-- A query from parameters whose values are already encoded. -/
def joinQuery (params : List (Bytes × Bytes)) : Bytes :=
  [38].intercalate (params.map fun p => p.1 ++ 61 :: p.2)

theorem joinQuery_append (h : params ≠ []) (name value : Bytes) :
    joinQuery (params ++ [(name, value)]) = joinQuery params ++ 38 :: (name ++ 61 :: value) := by
  induction params with
  | nil => exact absurd rfl h
  | cons p params ih =>
    cases params with
    | nil => simp [joinQuery, List.intercalate]
    | cons p' params =>
      grind [joinQuery, intercalate_cons_cons]

/-- The parameters are read back, unless a value has an ampersand. -/
theorem queryPairs_joinQuery (h : params ≠ []) (hname : ∀ p ∈ params, 38 ∉ p.1 ∧ 61 ∉ p.1)
    (hvalue : ∀ p ∈ params, 38 ∉ p.2) :
    queryPairs (joinQuery params) = params.map fun p => (urlDecode p.1, urlDecode p.2) := by
  have hsplit : (joinQuery params).splitOn 38 = params.map fun p => p.1 ++ 61 :: p.2 := by
    refine splitOn_intercalate 38 ?_ (by simpa using h)
    intro piece hpiece
    obtain ⟨p, hp, rfl⟩ := mem_map.mp hpiece
    simp [(hname p hp).1, hvalue p hp]
  grind [queryPairs, takeWhile_ne_append_cons, dropWhile_ne_append_cons, map_congr_left]

/-- An encoded text has no byte that would need encoding, apart from the percent sign. -/
theorem asciiUnreserved_of_mem_urlEncode (h : c ∈ urlEncode raw) :
    asciiUnreserved c = true ∨ c = 37 := by
  induction raw with
  | nil => simp [urlEncode] at h
  | cons d raw ih =>
    grind [urlEncode, hexNibble_halves]

theorem not_mem_urlEncode (hc : asciiUnreserved c = false) (hpercent : c ≠ 37) :
    c ∉ urlEncode raw := by
  intro h
  rcases asciiUnreserved_of_mem_urlEncode h with h | h
  · rw [hc] at h
    exact Bool.false_ne_true h
  · exact hpercent h

theorem urlDecode_of_unreserved (h : ∀ c ∈ raw, asciiUnreserved c = true) :
    urlDecode raw = raw := by
  induction raw <;> grind [urlDecode, urlDecode_cons_of_unreserved]

theorem urlEncode_of_unreserved (h : ∀ c ∈ raw, asciiUnreserved c = true) :
    urlEncode raw = raw := by
  induction raw <;> grind [urlEncode]

/-- Parameters with their values encoded. -/
def encodeParams (params : List (Bytes × Bytes)) : List (Bytes × Bytes) :=
  params.map fun p => (p.1, urlEncode p.2)

/-- Encoded parameters are read back. -/
theorem queryPairs_encodeParams (h : params ≠ [])
    (hname : ∀ p ∈ params, ∀ c ∈ p.1, asciiUnreserved c = true) :
    queryPairs (joinQuery (encodeParams params)) = params := by
  have hreserved : ∀ p ∈ params, ∀ c, asciiUnreserved c = false → c ∉ p.1 := by
    intro p hp c hc hmem
    rw [hname p hp c hmem] at hc
    exact Bool.false_ne_true hc.symm
  rw [queryPairs_joinQuery (by simpa [encodeParams] using h), encodeParams, map_map]
  · refine (map_congr_left fun p hp => ?_).trans (map_id params)
    rw [Function.comp_apply, urlDecode_of_unreserved (hname p hp), urlDecode_urlEncode]
    rfl
  · intro q hq
    obtain ⟨p, hp, rfl⟩ := mem_map.mp hq
    exact ⟨hreserved p hp 38 rfl, hreserved p hp 61 rfl⟩
  · intro q hq
    obtain ⟨p, hp, rfl⟩ := mem_map.mp hq
    exact not_mem_urlEncode rfl (by decide)

theorem mem_joinQuery (h : c ∈ joinQuery params) :
    c = 38 ∨ c = 61 ∨ ∃ p ∈ params, c ∈ p.1 ∨ c ∈ p.2 := by
  induction params with
  | nil => simp [joinQuery] at h
  | cons p params ih =>
    have hpiece : c ∈ p.1 ++ 61 :: p.2 → c = 38 ∨ c = 61 ∨
        ∃ q ∈ p :: params, c ∈ q.1 ∨ c ∈ q.2 := by
      intro hc
      rcases mem_append.mp hc with hc | hc
      · exact Or.inr (Or.inr ⟨p, mem_cons_self, Or.inl hc⟩)
      · rcases mem_cons.mp hc with rfl | hc
        · exact Or.inr (Or.inl rfl)
        · exact Or.inr (Or.inr ⟨p, mem_cons_self, Or.inr hc⟩)
    cases params with
    | nil => exact hpiece (by simpa [joinQuery, List.intercalate] using h)
    | cons p' params =>
      grind [joinQuery, intercalate_cons_cons]

theorem length_urlDecode_le (raw : Bytes) : (urlDecode raw).length ≤ raw.length := by
  fun_induction urlDecode raw <;> simp only [length_cons, length_nil] at * <;> omega

end Arqma
