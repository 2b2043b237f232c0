import Arqma.Checked
import Arqma.ServiceNodeRules

/-!
# The arguments of a registration

Amounts are turned into portions by rounding up and portions into amounts by
rounding down. The portions of a registration are read from the command line and
entered one contributor after the other; one who is short of the minimum by little
more than a rounding error borrows from the others.
-/
namespace Arqma.ServiceNodes
open List Checked

section Portions

/-- The product of the amount and the whole with `staking_requirement - 1` added, carried by
hand over the two words. -/
def roundUpDividend (stakingRequirement amount : UInt64) : UInt64 × UInt64 :=
  let product := IntUtil.mul128 amount stakingShareParts
  (if product.2 > 0xffffffffffffffff - (stakingRequirement - 1) then product.1 + 1 else product.1,
    product.2 + (stakingRequirement - 1))

def getPortionsToMakeAmount (stakingRequirement amount : UInt64) : UInt64 :=
  let dividend := roundUpDividend stakingRequirement amount
  (IntUtil.div128_64 dividend.1 dividend.2 stakingRequirement).dividendLo

variable {stakingRequirement amount : UInt64}

/-- The carry loses nothing: the upper word of the product is never the largest one. -/
theorem roundUpDividend_exact (hpos : 0 < stakingRequirement) :
    (roundUpDividend stakingRequirement amount).1.toNat * 2 ^ 64 +
        (roundUpDividend stakingRequirement amount).2.toNat =
      amount.toNat * stakingShareParts.toNat + (stakingRequirement.toNat - 1) := by
  have hproduct := IntUtil.mul128_exact amount stakingShareParts
  have hupper : (IntUtil.mul128 amount stakingShareParts).1.toNat < 2 ^ 64 - 1 := by
    have hle : amount.toNat * stakingShareParts.toNat ≤ (2 ^ 64 - 1) * (2 ^ 64 - 4) :=
      Nat.mul_le_mul (Nat.le_pred_of_lt amount.toNat_lt) le_rfl
    omega
  have hlower := (IntUtil.mul128 amount stakingShareParts).2.toNat_lt
  rw [← hproduct]
  clear hproduct
  unfold roundUpDividend
  generalize IntUtil.mul128 amount stakingShareParts = product at hupper hlower ⊢
  have hone : (stakingRequirement - 1).toNat = stakingRequirement.toNat - 1 :=
    toNat_sub_of_le (UInt64.lt_iff_toNat_lt.mp hpos)
  have hroom : (0xffffffffffffffff - (stakingRequirement - 1)).toNat =
      2 ^ 64 - 1 - (stakingRequirement - 1).toNat :=
    toNat_sub_of_le (Nat.le_pred_of_lt (stakingRequirement - 1).toNat_lt)
  have hreq := stakingRequirement.toNat_lt
  simp only [gt_iff_lt, UInt64.lt_iff_toNat_lt, hroom, hone]
  split_ifs <;> simp only [UInt64.toNat_add, UInt64.toNat_one, hone] <;> omega

/-- The quotient is the amount in portions, rounded up. -/
theorem roundUp_quotient (hpos : 0 < stakingRequirement) :
    let dividend := roundUpDividend stakingRequirement amount
    (IntUtil.div128_64 dividend.1 dividend.2 stakingRequirement).dividend =
      (amount.toNat * stakingShareParts.toNat + (stakingRequirement.toNat - 1)) /
        stakingRequirement.toNat := by
  intro dividend
  rw [(IntUtil.div128_64_exact _ _ _ (UInt64.lt_iff_toNat_lt.mp hpos)).1,
    roundUpDividend_exact hpos]

/-- A quotient below one word leaves the upper word empty. -/
theorem upper_eq_zero {s : IntUtil.Division} (h : s.dividend < 2 ^ 64) :
    s.dividendHi = 0 ∧ s.dividendLo.toNat = s.dividend := by
  unfold IntUtil.Division.dividend at h ⊢
  have hzero : s.dividendHi.toNat = 0 := by omega
  exact ⟨UInt64.toNat_inj.mp hzero, by omega⟩

/-- For an amount of at most the requirement the conversion to portions is exact: converted
back they give the amount, no smaller portion does, and no double word is cut on the way. -/
theorem portions_of_amount_exact (hpos : 0 < stakingRequirement)
    (hparts : stakingRequirement ≤ stakingShareParts) (hamount : amount ≤ stakingRequirement) :
    let portions := getPortionsToMakeAmount stakingRequirement amount
    let dividend := roundUpDividend stakingRequirement amount
    let product := IntUtil.mul128 stakingRequirement portions
    portionsToAmount portions stakingRequirement = amount ∧ portions ≤ stakingShareParts ∧
      (∀ q, portionsToAmount q stakingRequirement = amount → portions ≤ q) ∧
      dividend.1.toNat * 2 ^ 64 + dividend.2.toNat =
        amount.toNat * stakingShareParts.toNat + (stakingRequirement.toNat - 1) ∧
      (IntUtil.div128_64 dividend.1 dividend.2 stakingRequirement).dividendHi = 0 ∧
      (IntUtil.div128_64 product.1 product.2 stakingShareParts).dividendHi = 0 := by
  intro portions dividend product
  have hreq : 0 < stakingRequirement.toNat := UInt64.lt_iff_toNat_lt.mp hpos
  have hwhole := UInt64.le_iff_toNat_le.mp hparts
  have hquotient : (IntUtil.div128_64 dividend.1 dividend.2 stakingRequirement).dividend = _ :=
    roundUp_quotient hpos
  have hlower := Nat.div_mul_le_self
    (amount.toNat * stakingShareParts.toNat + (stakingRequirement.toNat - 1))
    stakingRequirement.toNat
  have hupper := Nat.lt_div_mul_add hreq
    (a := amount.toNat * stakingShareParts.toNat + (stakingRequirement.toNat - 1))
  rw [← hquotient] at hlower hupper
  have hle : (IntUtil.div128_64 dividend.1 dividend.2 stakingRequirement).dividend ≤
      stakingShareParts.toNat := by
    have hmul := Nat.mul_le_mul_right stakingShareParts.toNat (UInt64.le_iff_toNat_le.mp hamount)
    rw [hquotient, ← Nat.lt_succ_iff, Nat.div_lt_iff_lt_mul hreq, Nat.succ_mul,
      Nat.mul_comm stakingShareParts.toNat]
    omega
  obtain ⟨hhi, hportions⟩ := upper_eq_zero (hle.trans_lt stakingShareParts.toNat_lt)
  have hportions : portions.toNat = _ := hportions
  rw [← hportions] at hlower hupper hle
  have hback : stakingRequirement.toNat * portions.toNat / stakingShareParts.toNat =
      amount.toNat := by
    refine Nat.div_eq_of_lt_le ?_ ?_ <;>
      simp only [Nat.succ_mul, Nat.mul_comm stakingRequirement.toNat] <;> omega
  refine ⟨UInt64.toNat_inj.mp ((toNat_portionsToAmount (UInt64.le_iff_toNat_le.mpr hle) _).trans
    hback), UInt64.le_iff_toNat_le.mpr hle, fun q hq => ?_, roundUpDividend_exact hpos, hhi, ?_⟩
  · by_contra hlt
    have hlt := UInt64.lt_iff_toNat_lt.mp (UInt64.not_le.mp hlt)
    have hexact := toNat_portionsToAmount
      (UInt64.le_iff_toNat_le.mpr (hlt.le.trans hle)) stakingRequirement
    rw [hq] at hexact
    have hshare := Nat.div_mul_le_self (stakingRequirement.toNat * q.toNat) stakingShareParts.toNat
    rw [← hexact] at hshare
    have hmul := Nat.mul_le_mul_left stakingRequirement.toNat (Nat.succ_le_of_lt hlt)
    rw [Nat.mul_succ, Nat.mul_comm _ portions.toNat] at hmul
    omega
  · refine (upper_eq_zero ?_).1
    rw [(IntUtil.div128_64_exact _ _ _ (by decide)).1, IntUtil.mul128_exact, hback]
    exact amount.toNat_lt

theorem mainnet_quarter_exact :
    portionsToAmount (getPortionsToMakeAmount 100000000000000 25000000000000) 100000000000000 =
      25000000000000 :=
  (portions_of_amount_exact (by decide) (by decide) (by decide)).1

end Portions

section Conversion
open Arqma.Cryptonote

structure AddressParseInfo where
  address : AccountPublicAddress
  isSubaddress : Bool
  hasPaymentId : Bool

/-- How the two kinds of arguments are read, for the network of the node. -/
structure ArgReader where
  getAccountAddressFromStr : String → Option AddressParseInfo
  lexicalCast : String → Option UInt64

structure ConvertedRegistrationArgs where
  addresses : List AccountPublicAddress := []
  portions : List UInt64 := []
  portionsForOperator : UInt64
deriving DecidableEq

def getMinNodeContributionInPortions (stakingRequirement totalReserved : UInt64)
    (numContributions : ℕ) : UInt64 :=
  let atomicAmount := getMinNodeContribution stakingRequirement totalReserved numContributions
  if atomicAmount = 0xffffffffffffffff then 0xffffffffffffffff
  else getPortionsToMakeAmount stakingRequirement atomicAmount

/-- `addr_to_portion_t` with the address of the parsed information. -/
structure AddrToPortion where
  address : AccountPublicAddress
  portions : UInt64

def readContributors (reader : ArgReader) : List String → Except String (List AddrToPortion)
  | address :: amount :: rest =>
    match reader.getAccountAddressFromStr address with
    | none => .error ("Failed to parse address: " ++ address)
    | some info =>
      if info.hasPaymentId then .error "Can't use a payment id for staking tx"
      else if info.isSubaddress then .error "Can't use subaddress for staking tx"
      else
        match reader.lexicalCast amount with
        | none => .error ("Invalid amount for contributor: " ++ address ++
            ", with contribution amount that could not be converted to a number: " ++ amount)
        | some numPortions =>
          (readContributors reader rest).map ({ info with portions := numPortions } :: ·)
  | _ => .ok []

/-- What each contributor has above the minimum, with the conversion to an amount as it is
called there: the requirement first. -/
def excessPortions (stakingRequirement : UInt64) :
    List AddrToPortion → ℕ → UInt64 → List UInt64
  | [], _, _ => []
  | contributor :: rest, index, arqmaReserved =>
    let minContribution :=
      getMinNodeContributionInPortions stakingRequirement arqmaReserved index
    let amount := portionsToAmount stakingRequirement contributor.portions
    (if contributor.portions > minContribution then contributor.portions - minContribution
      else 0) ::
      excessPortions stakingRequirement rest (index + 1) (arqmaReserved + amount)

/-- The state of the inner loop: the portions of the contributor who is short, what is still
`needed`, the last `portions_to_steal`, the excess of all and the portions entered so far. -/
structure Loan where
  portions : UInt64
  needed : UInt64
  portionsToSteal : UInt64 := 0
  excess : List UInt64
  entered : List UInt64

def Loan.steal (loan : Loan) (subIndex : ℕ) (contributorExcess entered : UInt64) : Loan :=
  let steal := if contributorExcess < loan.needed then contributorExcess else loan.needed
  { portions := loan.portions + steal
    needed := loan.needed - steal
    portionsToSteal := steal
    excess := loan.excess.set subIndex (contributorExcess - steal)
    entered := loan.entered.set subIndex (entered - steal) }

/-- The inner loop of contributor `i` over the indices that are left. -/
def borrow (i : ℕ) : List ℕ → Loan → Checked Loan
  | [], loan => .ok loan
  | subIndex :: rest, loan => do
    if i = subIndex then borrow i rest loan
    else
      let contributorExcess ← Checked.entry loan.excess subIndex
      if contributorExcess > 0 then
        let loan := loan.steal subIndex contributorExcess (← Checked.entry loan.entered subIndex)
        if loan.needed = 0 then .ok loan else borrow i rest loan
      else borrow i rest loan

/-- The state of the outer loop. -/
structure Entering where
  portionsLeft : UInt64 := stakingShareParts
  totalReserved : UInt64 := 0
  excess : List UInt64
  result : ConvertedRegistrationArgs

/-- Ten times the portions of one atomic unit. -/
def dust (stakingRequirement : UInt64) : UInt64 := stakingShareParts / stakingRequirement * 10

/-- The loan of contributor `i` before anyone was asked. -/
def Entering.loan (s : Entering) (portions minPortions : UInt64) : Loan where
  portions := portions
  needed := minPortions - portions
  excess := s.excess
  entered := s.result.portions

/-- The first part of a round: the loan of a contributor who is short, or none where the loop
goes on to the next one. -/
def settleShortage (stakingRequirement : UInt64) (count i : ℕ) (s : Entering)
    (portions minPortions : UInt64) : Checked (Option Loan) :=
  if portions < minPortions then
    if stakingRequirement = 0 then .error .divisionByZero
    else if minPortions - portions > dust stakingRequirement then .ok none
    else do
      let loan ← borrow i (List.range count) (s.loan portions minPortions)
      if loan.needed > 0 ∧ count < maxNumberOfContributors then
        .ok (some { loan with portions := loan.portions + loan.needed })
      else .ok (some loan)
  else .ok (some { s.loan portions minPortions with needed := 0 })

/-- The second part of a round. The message names the arguments at `i` and `i + 1`, which are
not those of contributor `i`. -/
def Entering.accept (s : Entering) (args : List String) (stakingRequirement : UInt64)
    (address : AccountPublicAddress) (i : ℕ) (loan : Loan) : Except String Entering :=
  let minPortions := getMinNodeContributionInPortions stakingRequirement s.totalReserved i
  if loan.portions < minPortions ∨ loan.portions > s.portionsLeft then
    .error ("Invalid contributor amount: " ++ args.getD i "" ++ ", with portion amount: " ++
      args.getD (i + 1) "" ++ ". \n" ++
      "Each contributor must have at least 25% required stake to last contributor be allowed " ++
      "less contributions\nthan required 25% minimum.")
  else if minPortions = 0xffffffffffffffff then
    .error ("Too many contributors specified. You can only split between " ++
      toString maxNumberOfContributors ++ " contributors.")
  else
    .ok {
      portionsLeft := s.portionsLeft - loan.portions + loan.portionsToSteal
      totalReserved := s.totalReserved + portionsToAmount loan.portions stakingRequirement
      excess := loan.excess
      result := { s.result with
        addresses := s.result.addresses ++ [address]
        portions := loan.entered ++ [loan.portions] } }

/-- One round of the outer loop. -/
def enterContributor (args : List String) (stakingRequirement : UInt64) (count : ℕ)
    (s : Entering) (entry : AddrToPortion × ℕ) : ExceptT String Checked Entering := .mk do
  match ← settleShortage stakingRequirement count entry.2 s entry.1.portions
      (getMinNodeContributionInPortions stakingRequirement s.totalReserved entry.2) with
  | none => return .ok s
  | some loan => return s.accept args stakingRequirement entry.1.address entry.2 loan

def Entering.start (stakingRequirement portionsForOperator : UInt64)
    (contributors : List AddrToPortion) : Entering where
  excess := excessPortions stakingRequirement contributors 0 0
  result := { portionsForOperator }

/-- The outer loop up to contributor `i`. -/
def enterFirst (args : List String) (stakingRequirement portionsForOperator : UInt64)
    (contributors : List AddrToPortion) (i : ℕ) : ExceptT String Checked Entering :=
  (contributors.zipIdx.take i).foldlM
    (enterContributor args stakingRequirement contributors.length)
    (Entering.start stakingRequirement portionsForOperator contributors)

def convertRegistrationArgs (reader : ArgReader) (args : List String)
    (stakingRequirement : UInt64) : ExceptT String Checked ConvertedRegistrationArgs :=
  if args.length % 2 = 0 ∨ args.length < 3 then
    throw "Usage: <operator cut> <address> <contribution %> [<address> <contribution %> [...]]"
  else if (args.length - 1) / 2 > maxNumberOfContributors then
    throw ("Exceeds the maximum number of contributors, which is: " ++
      toString maxNumberOfContributors)
  else
    match (reader.lexicalCast (args.getD 0 "")).filter (· ≤ stakingShareParts) with
    | none => throw ("Invalid contribution % amount: " ++ args.getD 0 "" ++
        ". Must be between 0 (0%) and " ++ toString stakingShareParts)
    | some portionsForOperator =>
      match readContributors reader args.tail with
      | .error message => throw message
      | .ok contributors => do
        let s ← enterFirst args stakingRequirement portionsForOperator contributors
          contributors.length
        return s.result

structure Converted (contributors : List AddrToPortion) (result : ConvertedRegistrationArgs) :
    Prop where
  addresses : result.addresses = contributors.map AddrToPortion.address
  count : result.portions.length = contributors.length
  distinct : result.addresses.Nodup
  check : checkServiceNodePortions result.portions = true
  sum : (result.portions.map UInt64.toNat).sum ≤ stakingShareParts.toNat

/-- No access to the portions is out of range, and a success is what was asked for. -/
def ConversionSound (reader : ArgReader) (args : List String) (stakingRequirement : UInt64) :
    Prop :=
  (convertRegistrationArgs reader args stakingRequirement).run ≠ .error .outOfRange ∧
    ∀ result, (convertRegistrationArgs reader args stakingRequirement).run = .ok (.ok result) →
      ∃ contributors, readContributors reader args.tail = .ok contributors ∧
        Converted contributors result

variable {i : ℕ} {contributors : List AddrToPortion} {s : Entering} {args : List String}
  {requirement : UInt64}

theorem run_bind_of_ok {α β : Type} {x : ExceptT String Checked α} {a : α} (h : x.run = .ok (.ok a))
    (f : α → ExceptT String Checked β) : (x >>= f).run = (f a).run := by
  have hrun : (x >>= f).run = x.run >>= ExceptT.bindCont f := rfl
  rw [hrun, h]
  rfl

theorem run_bind_of_error {α β : Type} {x : ExceptT String Checked α} {message : String}
    (h : x.run = .ok (.error message)) (f : α → ExceptT String Checked β) :
    (x >>= f).run = .ok (.error message) := by
  have hrun : (x >>= f).run = x.run >>= ExceptT.bindCont f := rfl
  rw [hrun, h]
  rfl

/-! ## Arguments that need no loan -/

/-- Nobody is short of the minimum that the amounts before leave. -/
def NobodyShort (requirement : UInt64) : List AddrToPortion → ℕ → UInt64 → Prop
  | [], _, _ => True
  | contributor :: rest, i, reserved =>
    getMinNodeContributionInPortions requirement reserved i ≤ contributor.portions ∧
      NobodyShort requirement rest (i + 1)
        (reserved + portionsToAmount contributor.portions requirement)

/-- All portions together. -/
def wholeOf (contributors : List AddrToPortion) : ℕ :=
  (contributors.map fun c => c.portions.toNat).sum

/-- A contributor who is not short is entered with its portions, if that much is left. -/
theorem enterContributor_eq (args : List String) (count : ℕ) {c : AddrToPortion}
    (hleast : getMinNodeContributionInPortions requirement s.totalReserved i ≤ c.portions)
    (hleft : s.portionsLeft ≤ stakingShareParts) :
    (c.portions ≤ s.portionsLeft ∧ (enterContributor args requirement count s (c, i)).run =
      .ok (.ok {
        portionsLeft := s.portionsLeft - c.portions
        totalReserved := s.totalReserved + portionsToAmount c.portions requirement
        excess := s.excess
        result := { s.result with
          addresses := s.result.addresses ++ [c.address]
          portions := s.result.portions ++ [c.portions] } })) ∨
    s.portionsLeft < c.portions ∧ ∃ message,
      (enterContributor args requirement count s (c, i)).run = .ok (.error message) := by
  have hrun : (enterContributor args requirement count s (c, i)).run =
      .ok (s.accept args requirement c.address i
        { s.loan c.portions (getMinNodeContributionInPortions requirement s.totalReserved i) with
          needed := 0 }) := by
    simp only [enterContributor, settleShortage, if_neg (UInt64.not_lt.mpr hleast)]
    rfl
  rw [hrun, Entering.accept]
  by_cases hfits : c.portions ≤ s.portionsLeft
  · have hmax : getMinNodeContributionInPortions requirement s.totalReserved i ≠
        0xffffffffffffffff := fun hmax =>
      absurd (UInt64.le_trans (hmax ▸ hleast) (UInt64.le_trans hfits hleft)) (by decide)
    left
    simp [Entering.loan, UInt64.not_lt.mpr hleast, UInt64.not_lt.mpr hfits, hmax, hfits]
  · right
    simp [Entering.loan, UInt64.not_le.mp hfits]

/-- Contributors of whom nobody is short are entered as they are, or exceed what is left. -/
theorem NobodyShort.enter (args : List String) (count : ℕ) {l : List AddrToPortion}
    (h : NobodyShort requirement l i s.totalReserved) (hleft : s.portionsLeft ≤ stakingShareParts) :
    let run := ((l.zipIdx i).foldlM (enterContributor args requirement count) s).run
    (wholeOf l ≤ s.portionsLeft.toNat ∧ ∃ s', run = .ok (.ok s') ∧ s'.result =
      { s.result with
        addresses := s.result.addresses ++ l.map AddrToPortion.address
        portions := s.result.portions ++ l.map AddrToPortion.portions }) ∨
    s.portionsLeft.toNat < wholeOf l ∧ ∃ message, run = .ok (.error message) := by
  induction l generalizing i s with
  | nil => exact Or.inl ⟨Nat.zero_le _, s, rfl, by simp⟩
  | cons c l ih =>
    intro run
    obtain ⟨hleast, hrest⟩ := h
    have hwhole : wholeOf (c :: l) = c.portions.toNat + wholeOf l := rfl
    rcases enterContributor_eq args count hleast hleft with
      ⟨hfits, hround⟩ | ⟨hover, message, hround⟩
    · have hfits := UInt64.le_iff_toNat_le.mp hfits
      have hsub := toNat_sub_of_le hfits
      have hless : s.portionsLeft - c.portions ≤ stakingShareParts := by
        rw [UInt64.le_iff_toNat_le] at hleft ⊢
        omega
      have hrun : run = _ := run_bind_of_ok hround _
      rcases ih (s := ⟨_, _, s.excess, _⟩) hrest hless with
        ⟨hle, s', hs', hresult⟩ | ⟨hlt, message, hmessage⟩
      · exact Or.inl ⟨by dsimp only at hle; omega, s', hrun.trans hs', by simp [hresult]⟩
      · exact Or.inr ⟨by dsimp only at hlt; omega, message, hrun.trans hmessage⟩
    · refine Or.inr ⟨?_, message, ?_⟩
      · have := UInt64.lt_iff_toNat_lt.mp hover
        omega
      · exact run_bind_of_error hround _

/-- Each portion is at least an equal share, among the contributors still possible, of what the
portions before it leave. -/
def AboveMinima : List UInt64 → ℕ → ℕ → Prop
  | [], _, _ => True
  | portion :: rest, i, reserved =>
    (stakingShareParts.toNat - reserved) / (maxNumberOfContributors - i) ≤ portion.toNat ∧
      AboveMinima rest (i + 1) (reserved + portion.toNat)

theorem sumPortionsAboveMin_eq_some_iff {l : List UInt64} {reserved t : UInt64}
    (hsum : reserved.toNat + (l.map UInt64.toNat).sum ≤ stakingShareParts.toNat)
    (hlength : i + l.length ≤ maxNumberOfContributors) :
    sumPortionsAboveMin l i reserved = some t ↔
      AboveMinima l i reserved.toNat ∧ t.toNat = reserved.toNat + (l.map UInt64.toNat).sum := by
  induction l generalizing i reserved with
  | nil => simp [sumPortionsAboveMin, AboveMinima, eq_comm, UInt64.toNat_inj]
  | cons a l ih =>
    simp only [map_cons, sum_cons, length_cons] at hsum hlength ⊢
    have hmin : (getMinNodeContribution stakingShareParts reserved i).toNat = _ :=
      toNat_getMinNodeContribution (by omega) (by omega)
    have hadd : (reserved + a).toNat = reserved.toNat + a.toNat :=
      toNat_add_of_lt (by have := stakingShareParts.toNat_lt; omega)
    rw [sumPortionsAboveMin, AboveMinima, ← hmin, ← hadd, ← UInt64.le_iff_toNat_le, ← Nat.add_assoc,
      ← hadd]
    split_ifs with hlt
    · simp [UInt64.not_le.mpr hlt]
    · rw [ih (by omega) (by omega)]
      simp [UInt64.not_lt.mp hlt]

theorem checkServiceNodePortions_iff {l : List UInt64}
    (hsum : (l.map UInt64.toNat).sum ≤ stakingShareParts.toNat)
    (hlength : l.length ≤ maxNumberOfContributors) :
    checkServiceNodePortions l = true ↔ AboveMinima l 0 0 := by
  have hiff : ∀ t, sumPortionsAboveMin l 0 0 = some t ↔
      AboveMinima l 0 0 ∧ t.toNat = 0 + (l.map UInt64.toNat).sum := fun t =>
    sumPortionsAboveMin_eq_some_iff (by simpa using hsum) (by simpa using hlength)
  rw [checkServiceNodePortions, if_neg (by omega)]
  cases hl : sumPortionsAboveMin l 0 0 with
  | none =>
    refine ⟨nofun, fun h => ?_⟩
    have hsome := (hiff (l.foldl (· + ·) 0)).mpr
      ⟨h, toNat_sum_of_lt (by have := stakingShareParts.toNat_lt; simp; omega)⟩
    rw [hl] at hsome
    cases hsome
  | some t =>
    obtain ⟨hminima, ht⟩ := (hiff t).mp hl
    simp only [hminima, decide_eq_true_eq, iff_true, UInt64.le_iff_toNat_le]
    omega

theorem length_readContributors {reader : ArgReader} {l : List String}
    (h : readContributors reader l = .ok contributors) : contributors.length ≤ l.length / 2 := by
  fun_induction readContributors reader l generalizing contributors with
  | case1 => cases h
  | case2 => cases h
  | case3 => cases h
  | case4 => cases h
  | case5 address amount rest info _ _ _ numPortions _ ih =>
    cases hrest : readContributors reader rest with
    | error message => simp [hrest, Except.map] at h
    | ok others =>
      grind [Except.map]
  | case6 =>
    obtain rfl := Except.ok.inj h
    simp

/-- The arguments are refused as they are read. -/
def Malformed (reader : ArgReader) (args : List String) : Prop :=
  (args.length % 2 = 0 ∨ args.length < 3) ∨ (args.length - 1) / 2 > maxNumberOfContributors ∨
    (reader.lexicalCast (args.getD 0 "")).filter (· ≤ stakingShareParts) = none ∨
    ∃ message, readContributors reader args.tail = .error message

theorem Malformed.refused {reader : ArgReader} (h : Malformed reader args) (requirement : UInt64) :
    ∃ message, (convertRegistrationArgs reader args requirement).run = .ok (.error message) := by
  unfold convertRegistrationArgs
  split_ifs with husage hmany
  · exact ⟨_, rfl⟩
  · exact ⟨_, rfl⟩
  · split
    next => exact ⟨_, rfl⟩
    next hcut =>
      obtain ⟨message, hmessage⟩ :
          ∃ message, readContributors reader args.tail = .error message := by
        rcases h with husage' | hmany' | hnone | hread
        · exact absurd husage' husage
        · exact absurd hmany' hmany
        · cases hcut.symm.trans hnone
        · exact hread
      exact ⟨message, by rw [hmessage]; rfl⟩

/-- What is left of the function behind its tests of the arguments. -/
theorem convertRegistrationArgs_of_not_malformed {reader : ArgReader} (h : ¬Malformed reader args)
    (requirement : UInt64) :
    ∃ cut contributors, readContributors reader args.tail = .ok contributors ∧
      contributors.length ≤ maxNumberOfContributors ∧
      convertRegistrationArgs reader args requirement =
        (enterFirst args requirement cut contributors contributors.length >>= fun s =>
          pure s.result) := by
  obtain ⟨husage, hmany, hcut, hread⟩ : ¬(args.length % 2 = 0 ∨ args.length < 3) ∧
      ¬(args.length - 1) / 2 > maxNumberOfContributors ∧
      (reader.lexicalCast (args.getD 0 "")).filter (· ≤ stakingShareParts) ≠ none ∧
      ¬∃ message, readContributors reader args.tail = .error message := by
    simpa only [Malformed, not_or] using h
  obtain ⟨cut, hcut⟩ := Option.ne_none_iff_exists'.mp hcut
  cases hcontributors : readContributors reader args.tail with
  | error message => exact absurd ⟨message, hcontributors⟩ hread
  | ok contributors =>
    have hlength := length_readContributors hcontributors
    rw [length_tail] at hlength
    refine ⟨cut, contributors, rfl, by omega, ?_⟩
    rw [convertRegistrationArgs, if_neg husage, if_neg hmany, hcut, hcontributors]

/-- Every string is the address of the same account, and the only numbers are the portions of
the smallest contribution to a stagenet node, less one, and of the whole but one. -/
def sampleReader : ArgReader where
  getAccountAddressFromStr _ := some ⟨⟨0, 0⟩, false, false⟩
  lexicalCast s :=
    if s = "0" then some 0
    else if s = "dust" then some (getMinNodeContributionInPortions 1000000000000 0 0 - 1)
    else some (stakingShareParts - 1)

/-- Half of the whole for each of two accounts. -/
def halvesReader : ArgReader where
  getAccountAddressFromStr s := some ⟨⟨if s = "first" then 1 else 2, 0⟩, false, false⟩
  lexicalCast s := if s = "0" then some 0 else some (stakingShareParts / 2)

end Conversion

end Arqma.ServiceNodes
