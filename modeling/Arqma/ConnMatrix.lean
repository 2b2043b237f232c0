import Mathlib.Tactic

/-!
# Connections within a quorum

Which members of a quorum connect to which is read from a table with one matrix per
supported quorum size. The iterators walk over a row (outgoing) or a column (incoming) by
pointer arithmetic; the check for a missing matrix looks at the pointer after the offset
was added, so it only catches the member at position 0.
-/
namespace Arqma.Arqnet

/-- How a read of the table can go wrong: the exception, a read at an offset from a null
pointer, or one behind the end. -/
inductive RelayError
  | domainError (quorumSize : ℕ)
  | nullRead
  | outOfRange
deriving DecidableEq, Repr

/-- `quorum_conn_matrix`: a row of flags is a binary numeral. -/
def quorumConnMatrix : ℕ → Option (List ℕ)
  | 7 => some [
      0b0101010, 0b0011001, 0b1001100, 0b0000111, 0b1000010, 0b0100001, 0b0010100]
  | 8 => some [
      0b01110100, 0b00111000, 0b00010110, 0b00001011, 0b10100001, 0b01000010, 0b10001001,
      0b11000100]
  | 9 => some [
      0b011001000, 0b001001010, 0b000110001, 0b000010110, 0b110000100, 0b001100100, 0b100000011,
      0b100010001, 0b010101000]
  | 10 => some [
      0b0100010001, 0b0010001100, 0b0001000011, 0b0000111000, 0b1000000110, 0b0110001000,
      0b1000100100, 0b0011000010, 0b1100000001, 0b0001110000]
  | 13 => some [
      0b0111010000000, 0b0010000100001, 0b0001001100000, 0b0000110001000, 0b1000000000110,
      0b0000001010100, 0b0000100101000, 0b1000100010000, 0b0101000001000, 0b0000010000011,
      0b1010000000010, 0b0100000010001, 0b0010001000100]
  | 14 => some [
      0b01000100000001, 0b00101000100000, 0b00010001100000, 0b00001010010000, 0b10000110000000,
      0b00000011001000, 0b01000001001100, 0b00000000110010, 0b00010000010001, 0b00000100000110,
      0b10100000000100, 0b01001000000010, 0b10000000000001, 0b00110000001000]
  | 15 => some [
      0b011001000000000, 0b001000101100000, 0b000100110001000, 0b000010100100000,
      0b100000000000101, 0b010000100010000, 0b000010010010000, 0b000000001100100,
      0b100000000101000, 0b000001000000011, 0b001000000001010, 0b000100010000100,
      0b100001000000010, 0b010010000000001, 0b000100001010000]
  | 16 => some [
      0b0110000000001001, 0b0010010000001100, 0b0001000010100001, 0b0000100010010000,
      0b1000000000010001, 0b0010001000000010, 0b1001000100000000, 0b1000000011000000,
      0b0100000001000100, 0b0100110000000000, 0b0000000100011000, 0b0000001001001000,
      0b0000011000000100, 0b0001000000000011, 0b0000100100100000, 0b0000010000100010]
  | 17 => some [
      0b01000011000000010, 0b00100101000000000, 0b00011100100000000, 0b00001010000010000,
      0b11000000010000000, 0b00000010001100010, 0b00000001000000110, 0b00000000101100000,
      0b00000000010101001, 0b00000110000001000, 0b10000000000100001, 0b00010000010010000,
      0b10000000100001000, 0b01001000000000100, 0b00011000001000000, 0b00100000000010001,
      0b00100000000001100]
  | 18 => some [
      0b010101001000000000, 0b001000000100010100, 0b000100010000000110, 0b010010100100000000,
      0b100000100000001000, 0b000000110010001000, 0b010000010100100000, 0b000000001001100010,
      0b001000000100000001, 0b000001000000010001, 0b001100000001000000, 0b000100000000100100,
      0b100010000000010000, 0b000000000010001010, 0b100000001010000001, 0b000001100000000010,
      0b000010000000100001, 0b000000010001000100]
  | 19 => some [
      0b0100010100000000000, 0b0011000001000001000, 0b0001000100001001000, 0b0000100001010000000,
      0b1000000000000110010, 0b0000001000110000010, 0b0000000100011000100, 0b0000000010001010000,
      0b0001000001000100010, 0b0000011000000100000, 0b0110000000010000000, 0b0000100000001000001,
      0b1000100000000100001, 0b0000000000100010100, 0b0000000010100001001, 0b0000011000000000100,
      0b0010100000000000010, 0b1100000000000000001, 0b0001000010000001000]
  | 20 => some [
      0b01000100100000010000, 0b00100000000001010000, 0b00010001000000010001,
      0b00001100011000000000, 0b10000010000010100000, 0b00000010001100100000,
      0b00000001000101001000, 0b00001000100010000010, 0b00010100010000000100,
      0b01001100000001000000, 0b00100000000100000100, 0b10000000000010000010,
      0b10000000000001000010, 0b00000000000100101001, 0b00000000001010000001,
      0b00000011000000001100, 0b00011000000000000100, 0b01000001000000100010,
      0b00110000000000000001, 0b00000000110000010000]
  | _ => none

def rowFlags (n row : ℕ) : List Bool := (List.range n).map fun j => row.testBit (n - 1 - j)

def getMatrix (n : ℕ) : Option (List Bool) :=
  (quorumConnMatrix n).map fun rows => rows.flatMap (rowFlags n)

/-- A pointer into a matrix, or the same offset from null. -/
structure FlagPtr where
  matrix : Option (List Bool)
  offset : ℕ

namespace FlagPtr

def isNull (p : FlagPtr) : Bool := p.matrix.isNone && p.offset = 0

def read (p : FlagPtr) (i : ℕ) : Except RelayError Bool :=
  match p.matrix with
  | none => .error .nullRead
  | some flags =>
    match flags[p.offset + i]? with
    | none => .error .outOfRange
    | some flag => .ok flag

end FlagPtr

section Iterator

variable (flags : FlagPtr) (n step : ℕ)

/-- The first of the last `left` indices whose flag is set, or the end. -/
def seek : ℕ → Except RelayError ℕ
  | 0 => .ok n
  | left + 1 => do
    if ← flags.read ((n - (left + 1)) * step) then return n - (left + 1) else seek left

/-- `operator++`. -/
def advance (i : ℕ) : Except RelayError ℕ := seek flags n step (n - (i + 1))

/-- What a loop from `i` to the end visits; every round moves on. -/
def visit : ℕ → ℕ → Except RelayError (List ℕ)
  | 0, _ => .ok []
  | fuel + 1, i =>
    if i = n then .ok []
    else do
      let next ← advance flags n step i
      let rest ← visit fuel next
      return i :: rest

/-- The constructor of the iterator, then the loop. -/
def quorumConns : Except RelayError (List ℕ) :=
  if flags.isNull && n ≠ 0 then .error (.domainError n)
  else do
    let first ← flags.read 0
    let start ← if !first && 0 < n then advance flags n step 0 else .ok 0
    visit flags n step n start

end Iterator

def quorumOutgoingConns (i n : ℕ) : Except RelayError (List ℕ) :=
  quorumConns ⟨getMatrix n, i * n⟩ n 1

def quorumIncomingConns (i n : ℕ) : Except RelayError (List ℕ) :=
  quorumConns ⟨getMatrix n, i⟩ n n

section Walk

variable {flags : FlagPtr} {n step : ℕ} {f : ℕ → Bool}

/-- The walk over the last `left` indices visits those whose flag is set. -/
theorem seek_visit (hread : ∀ i < n, flags.read (i * step) = .ok (f i)) {left fuel : ℕ}
    (hleft : left ≤ n) (hfuel : left ≤ fuel) :
    (seek flags n step left).bind (visit flags n step fuel) =
      .ok ((List.range' (n - left) left).filter f) := by
  induction left generalizing fuel with
  | zero => cases fuel <;> simp [seek, visit, Except.bind]
  | succ left ih =>
    have hnext : n - (left + 1) + 1 = n - left := by omega
    have hvisit := hread (n - (left + 1)) (by omega)
    rw [List.range'_succ, hnext]
    cases hf : f (n - (left + 1)) with
    | false =>
      have hseek : seek flags n step (left + 1) = seek flags n step left := by
        simp [seek, hvisit, hf, bind, Except.bind]
      rw [hseek, ih (by omega) (by omega)]
      simp [hf]
    | true =>
      have hseek : seek flags n step (left + 1) = .ok (n - (left + 1)) := by
        simp [seek, hvisit, hf, bind, Except.bind, pure, Except.pure]
      obtain ⟨fuel, rfl⟩ : ∃ k, fuel = k + 1 := ⟨fuel - 1, by omega⟩
      have hrest := @ih fuel (by omega) (by omega)
      have hadvance : advance flags n step (n - (left + 1)) = seek flags n step left := by
        rw [advance, hnext]
        congr 1
        omega
      cases hlater : seek flags n step left with
      | error e =>
        rw [hlater] at hrest
        cases hrest
      | ok next =>
        rw [hlater] at hrest
        have hlt : n - (left + 1) ≠ n := by omega
        have hvisited : visit flags n step fuel next =
            .ok ((List.range' (n - left) left).filter f) := hrest
        rw [hseek]
        simp [Except.bind, visit, hlt, hadvance, hlater, hvisited, hf, bind, pure, Except.pure]

/-- With a flag for every index, the loop visits the indices whose flag is set. -/
theorem quorumConns_eq (hn : 0 < n) (hmatrix : flags.matrix.isSome = true)
    (hread : ∀ i < n, flags.read (i * step) = .ok (f i)) :
    quorumConns flags n step = .ok ((List.range n).filter f) := by
  have hwalk := seek_visit hread le_rfl (le_refl n)
  have hfirst : flags.read 0 = .ok (f 0) := by simpa using hread 0 hn
  have hnull : flags.isNull = false := by
    rw [FlagPtr.isNull, Option.isNone_eq_false_iff.mpr hmatrix, Bool.false_and]
  obtain ⟨m, rfl⟩ : ∃ m, n = m + 1 := ⟨n - 1, by omega⟩
  rw [Nat.sub_self, ← List.range_eq_range'] at hwalk
  rw [← hwalk, quorumConns]
  cases hf : f 0 <;>
    simp [hnull, hfirst, hf, seek, advance, bind, Except.bind, pure, Except.pure]

/-- Without a matrix, the constructor throws at offset 0 and reads through null elsewhere. -/
theorem quorumConns_of_none (hn : n ≠ 0) (hmatrix : flags.matrix = none) :
    quorumConns flags n step =
      .error (if flags.offset = 0 then .domainError n else .nullRead) := by
  by_cases hoffset : flags.offset = 0
  · simp [quorumConns, FlagPtr.isNull, hmatrix, hoffset, hn]
  · simp [quorumConns, FlagPtr.isNull, FlagPtr.read, hmatrix, hoffset, bind, Except.bind]

end Walk

section Table

variable {n i : ℕ} {flags : List Bool}

/-- The quorum sizes with a matrix. -/
theorem isSome_getMatrix_iff : (getMatrix n).isSome = true ↔ 7 ≤ n ∧ n ≤ 10 ∨ 13 ≤ n ∧ n ≤ 20 := by
  rw [getMatrix, Option.isSome_map]
  by_cases hn : n ≤ 20
  · interval_cases n <;> decide
  · have hnone : quorumConnMatrix n = none := by
      unfold quorumConnMatrix
      split <;> simp at hn ⊢
    simp [hnone]
    omega

theorem getMatrix_length (h : getMatrix n = some flags) : flags.length = n * n := by
  obtain ⟨rows, hrows, rfl⟩ := Option.map_eq_some_iff.mp h
  have hlength : rows.length = n := by
    unfold quorumConnMatrix at hrows
    split at hrows <;> simp at hrows <;> subst hrows <;> rfl
  simp [rowFlags, hlength]

/-- A matrix has all the flags of a row and a column, so both iterators stay inside it. -/
theorem quorumConns_of_supported (h : (getMatrix n).isSome = true) (hi : i < n) :
    ∃ outgoing incoming, quorumOutgoingConns i n = .ok ((List.range n).filter outgoing) ∧
      quorumIncomingConns i n = .ok ((List.range n).filter incoming) := by
  obtain ⟨flags, hflags⟩ := Option.isSome_iff_exists.mp h
  have hlength := getMatrix_length hflags
  have hread : ∀ offset j, offset + j < n * n → (FlagPtr.mk (getMatrix n) offset).read j =
      .ok (flags.getD (offset + j) false) := by
    intro offset j hlt
    rw [← hlength] at hlt
    simp [FlagPtr.read, hflags, List.getElem?_eq_getElem hlt]
  refine ⟨fun j => flags.getD (i * n + j * 1) false, fun j => flags.getD (i + j * n) false,
    quorumConns_eq (by omega) h fun j hj => hread _ _ ?_,
    quorumConns_eq (by omega) h fun j hj => hread _ _ ?_⟩
  · nlinarith
  · nlinarith

/-- Without a matrix no member gets its connections. -/
theorem quorumOutgoingConns_of_unsupported (h : getMatrix n = none) (hn : n ≠ 0) :
    quorumOutgoingConns i n = .error (if i = 0 then .domainError n else .nullRead) := by
  rw [quorumOutgoingConns, quorumConns_of_none hn h]
  simp [hn]

end Table

end Arqma.Arqnet
