import Arqma.Contributions

/-!
# The shares of a winner's contributors

`getBlockWinner` divides what the operator leaves of the whole by the stakes of
the contributors, each share rounded down, and adds the operator's cut to the
share of the operator. The whole is paid out but for less than one part for each
contributor, as long as the operator is one of them.
-/
namespace Arqma.ServiceNodes
open Arqma.Cryptonote List UInt64

variable {info : ServiceNodeInfo}

section Floors

variable {requirement : ℕ} (rest : ℕ) (amounts : List ℕ)

/-- Each rounding loses less than one part. -/
theorem sum_shares_bounds (hpos : 0 < requirement) :
    requirement * (amounts.map fun amount => amount * rest / requirement).sum ≤ amounts.sum * rest ∧
      amounts.sum * rest + amounts.length ≤
        requirement * ((amounts.map fun amount => amount * rest / requirement).sum +
          amounts.length) := by
  induction amounts with
  | nil => simp
  | cons amount amounts ih =>
    have hdiv := Nat.div_add_mod (amount * rest) requirement
    have hmod := Nat.mod_lt (amount * rest) hpos
    simp only [map_cons, sum_cons, length_cons, Nat.mul_add, Nat.add_mul, Nat.mul_one] at ih ⊢
    omega

variable {amounts}

/-- Shares of a whole, rounded down, make up at most the whole. -/
theorem sum_shares_le (hpos : 0 < requirement) (hsum : amounts.sum = requirement) :
    (amounts.map fun amount => amount * rest / requirement).sum ≤ rest := by
  refine Nat.le_of_mul_le_mul_left ?_ hpos
  have hbound := (sum_shares_bounds rest amounts hpos).1
  rwa [hsum] at hbound

theorem lt_sum_shares_add_length (hpos : 0 < requirement) (hsum : amounts.sum = requirement)
    (hsome : 0 < amounts.length) :
    rest < (amounts.map fun amount => amount * rest / requirement).sum + amounts.length := by
  refine Nat.lt_of_mul_lt_mul_left (a := requirement) ?_
  have hbound := (sum_shares_bounds rest amounts hpos).2
  rw [hsum] at hbound
  omega

end Floors

section Shares

/-- Both words of the quotient of which `getBlockWinner` keeps the low one. -/
def payoutQuotient (info : ServiceNodeInfo) (contributor : Contributor) : IntUtil.Division :=
  let product := IntUtil.mul128 contributor.amount (stakingShareParts - info.portionsForOperator)
  IntUtil.div128_64 product.1 product.2 info.stakingRequirement

/-- The high word that is dropped is zero, and adding the operator's cut does not wrap. -/
structure PayoutExact (info : ServiceNodeInfo) (contributor : Contributor) : Prop where
  high : (payoutQuotient info contributor).dividendHi = 0
  portions : (payoutOf info contributor).portions.toNat =
    (payoutQuotient info contributor).dividendLo.toNat +
      if contributor.address = info.operatorAddress then info.portionsForOperator.toNat else 0

/-- The portions add up to the whole but for less than one part for each of them. -/
structure PaysWhole (payouts : List PayoutEntry) : Prop where
  upper : (payouts.map fun payout => payout.portions.toNat).sum ≤ stakingShareParts.toNat
  lower : stakingShareParts.toNat <
    (payouts.map fun payout => payout.portions.toNat).sum + payouts.length

/-- The operator is one of the contributors, and only one. -/
def OperatorListed (info : ServiceNodeInfo) : Prop :=
  (info.contributors.map Contributor.address).count info.operatorAddress = 1

instance (info : ServiceNodeInfo) : Decidable (OperatorListed info) :=
  inferInstanceAs (Decidable (_ = _))

variable {info : ServiceNodeInfo} {contributor : Contributor}

theorem toNat_rest (hcut : info.portionsForOperator ≤ stakingShareParts) :
    (stakingShareParts - info.portionsForOperator).toNat =
      stakingShareParts.toNat - info.portionsForOperator.toNat :=
  toNat_sub_of_le (le_iff_toNat_le.mp hcut)

theorem payoutQuotient_dividend (hpos : 0 < info.stakingRequirement)
    (hcut : info.portionsForOperator ≤ stakingShareParts) (contributor : Contributor) :
    (payoutQuotient info contributor).dividend =
      contributor.amount.toNat * (stakingShareParts.toNat - info.portionsForOperator.toNat) /
        info.stakingRequirement.toNat := by
  unfold payoutQuotient
  simp only
  rw [(IntUtil.div128_64_exact _ _ _ (lt_iff_toNat_lt.mp hpos)).1, IntUtil.mul128_exact,
    toNat_rest hcut]

/-- A stake within the requirement has a share within what the operator leaves. -/
theorem payoutExact_of_amount_le (hpos : 0 < info.stakingRequirement)
    (hcut : info.portionsForOperator ≤ stakingShareParts)
    (hamount : contributor.amount ≤ info.stakingRequirement) :
    PayoutExact info contributor ∧ (payoutQuotient info contributor).dividendLo.toNat =
        contributor.amount.toNat * (stakingShareParts.toNat - info.portionsForOperator.toNat) /
          info.stakingRequirement.toNat := by
  have hdividend := payoutQuotient_dividend hpos hcut contributor
  have hshare : contributor.amount.toNat *
      (stakingShareParts.toNat - info.portionsForOperator.toNat) /
        info.stakingRequirement.toNat ≤
      stakingShareParts.toNat - info.portionsForOperator.toNat :=
    Nat.div_le_of_le_mul (Nat.mul_le_mul_right _ (le_iff_toNat_le.mp hamount))
  have hwhole : stakingShareParts.toNat < 2 ^ 64 := stakingShareParts.toNat_lt
  have hcut' := le_iff_toNat_le.mp hcut
  have hhigh : (payoutQuotient info contributor).dividendHi.toNat = 0 := by
    rw [IntUtil.Division.dividend] at hdividend
    omega
  have hlow : (payoutQuotient info contributor).dividendLo.toNat =
      contributor.amount.toNat * (stakingShareParts.toNat - info.portionsForOperator.toNat) /
        info.stakingRequirement.toNat := by
    rw [← hdividend, IntUtil.Division.dividend, hhigh]
    omega
  refine ⟨⟨UInt64.toNat_inj.mp hhigh, ?_⟩, hlow⟩
  have hportions : (payoutOf info contributor).portions =
      if contributor.address = info.operatorAddress then
        (payoutQuotient info contributor).dividendLo + info.portionsForOperator
      else (payoutQuotient info contributor).dividendLo := rfl
  rw [hportions]
  split_ifs
  · exact toNat_add_of_lt (by omega)
  · rfl

theorem sum_operatorCut (contributors : List Contributor) (address : AccountPublicAddress)
    (cut : ℕ) :
    (contributors.map fun c => if c.address = address then cut else 0).sum =
      (contributors.map Contributor.address).count address * cut := by
  induction contributors with
  | nil => simp
  | cons c contributors ih =>
    simp only [map_cons, sum_cons, ih, count_cons, beq_iff_eq, Nat.add_mul]
    split_ifs <;> omega

namespace StakeAccounted

variable (haccounted : StakeAccounted info) (hfunded : info.isFullyFunded)

include haccounted hfunded

/-- The stakes of a fully funded node make up what it requires. -/
theorem sum_amounts_eq :
    (info.contributors.map fun c => c.amount.toNat).sum = info.stakingRequirement.toNat := by
  grind [ServiceNodeInfo.isFullyFunded, haccounted.contributed_le, haccounted.reserved_le,
    haccounted.totalContributed_eq]

theorem amount_le_requirement (hmem : contributor ∈ info.contributors) :
    contributor.amount ≤ info.stakingRequirement := by
  rw [le_iff_toNat_le, ← haccounted.sum_amounts_eq hfunded]
  exact single_le_sum (fun _ _ => Nat.zero_le _) _ (mem_map_of_mem hmem)

theorem sum_payouts (hpos : 0 < info.stakingRequirement)
    (hcut : info.portionsForOperator ≤ stakingShareParts) :
    ((info.contributors.map (payoutOf info)).map fun payout => payout.portions.toNat).sum =
      ((info.contributors.map fun c => c.amount.toNat).map fun amount =>
        amount * (stakingShareParts.toNat - info.portionsForOperator.toNat) /
          info.stakingRequirement.toNat).sum +
      (info.contributors.map Contributor.address).count info.operatorAddress *
        info.portionsForOperator.toNat := by
  rw [← sum_operatorCut, map_map, map_map, ← sum_map_add]
  congr 1
  refine map_congr_left fun c hc => ?_
  obtain ⟨hexact, hlow⟩ :=
    payoutExact_of_amount_le hpos hcut (haccounted.amount_le_requirement hfunded hc)
  rw [Function.comp_apply, hexact.portions, hlow, Function.comp_apply]

theorem paysWhole (hpos : 0 < info.stakingRequirement)
    (hcut : info.portionsForOperator ≤ stakingShareParts) (hlisted : OperatorListed info) :
    PaysWhole (info.contributors.map (payoutOf info)) := by
  have hpayouts := haccounted.sum_payouts hfunded hpos hcut
  rw [OperatorListed] at hlisted
  rw [hlisted, Nat.one_mul] at hpayouts
  have hsum := haccounted.sum_amounts_eq hfunded
  have hpos' := lt_iff_toNat_lt.mp hpos
  have hcut' := le_iff_toNat_le.mp hcut
  have hsome : 0 < (info.contributors.map fun c => c.amount.toNat).length := by
    grind
  have hle := sum_shares_le (stakingShareParts.toNat - info.portionsForOperator.toNat) hpos' hsum
  have hlt := lt_sum_shares_add_length
    (stakingShareParts.toNat - info.portionsForOperator.toNat) hpos' hsum hsome
  rw [length_map] at hlt
  refine ⟨by omega, ?_⟩
  rw [length_map]
  omega

end StakeAccounted

end Shares

section Runs

/-- What a registration settles for good: the operator is a contributor, the cut is
part of the whole, and something is required. -/
structure OperatorSettled (info : ServiceNodeInfo) : Prop where
  mem : info.operatorAddress ∈ info.contributors.map Contributor.address
  cut : info.portionsForOperator ≤ stakingShareParts
  pos : 0 < info.stakingRequirement

theorem getStakingRequirement_pos (nettype : NetworkType) (height : ℕ) :
    0 < getStakingRequirement nettype height := by
  unfold getStakingRequirement
  split_ifs <;> decide

theorem isRegistrationTx_operatorSettled {crypto : Crypto} {nettype : NetworkType}
    {hardForkVersion : ℕ} {tx : Transaction} {timestamp : UInt64} {height index : ℕ}
    {key : PublicKey}
    (h : isRegistrationTx crypto nettype hardForkVersion tx timestamp height index {} =
      some (key, info)) : OperatorSettled info := by
  obtain ⟨fields, -, -, hvalid, hreserve⟩ := isRegistrationTx_eq_some h
  simp only [registrationIsValid, Bool.and_eq_true, decide_eq_true_eq] at hvalid
  obtain ⟨⟨⟨⟨⟨⟨hlength, hsome⟩, -⟩, hcut⟩, -⟩, -⟩, -⟩ := hvalid
  have haddresses : (fields.addresses.zip fields.portions).map Prod.fst = fields.addresses :=
    map_fst_zip (by omega)
  rw [reserveContributors_eq hreserve]
  refine ⟨?_, hcut, getStakingRequirement_pos nettype height⟩
  · simp only [nil_append, map_map, Function.comp_def]
    rw [haddresses]
    cases hfields : fields.addresses with
    | nil =>
      rw [hfields, length_nil, length_eq_zero_iff] at hlength
      simp [hlength] at hsome
    | cons address addresses => exact mem_cons_self

theorem operatorSettled_invariant (env : Env) : NodeInvariant env OperatorSettled where
  register := isRegistrationTx_operatorSettled
  status := by
    rintro a b h ⟨hcontributors, hoperator, hcut, -, -, hrequirement⟩
    exact ⟨by rw [hcontributors, hoperator]; exact h.mem, by rw [hcut]; exact h.cut,
      by rw [hrequirement]; exact h.pos⟩
  contribution height index h _ := by
    refine ⟨?_, h.cut, h.pos⟩
    rw [map_address_contribute]
    split_ifs
    · exact h.mem
    · exact mem_append_left _ h.mem

theorem operatorListed_of_settled (hsettled : OperatorSettled info)
    (hdistinct : DistinctContributors info) : OperatorListed info :=
  count_eq_one_of_mem hdistinct hsettled.mem

/-- The payouts of every fully funded node of a run are exact. -/
def PayoutsExact (info : ServiceNodeInfo) : Prop :=
  (∀ contributor ∈ info.contributors, PayoutExact info contributor) ∧
    PaysWhole (info.contributors.map (payoutOf info))

theorem StakeAccounted.payoutsExact (haccounted : StakeAccounted info)
    (hfunded : info.isFullyFunded) (hpos : 0 < info.stakingRequirement)
    (hcut : info.portionsForOperator ≤ stakingShareParts) (hlisted : OperatorListed info) :
    PayoutsExact info :=
  ⟨fun _ hmem => (payoutExact_of_amount_le hpos hcut
      (haccounted.amount_le_requirement hfunded hmem)).1,
    haccounted.paysWhole hfunded hpos hcut hlisted⟩

theorem applyBlocks_payoutsExact (env : Env) (height : ℕ) (inputs : List BlockInput) :
    AllNodes (fun info => info.isFullyFunded → PayoutsExact info)
      (applyBlocks env { height } inputs) := by
  intro key info hinfo hfunded
  have haccounted := (stakeAccounted_invariant env).applyBlocks
    (allNodes_of_empty (s := { height }) rfl) inputs key info hinfo
  have hdistinct := (distinctContributors_invariant env).applyBlocks
    (allNodes_of_empty (s := { height }) rfl) inputs key info hinfo
  have hsettled := (operatorSettled_invariant env).applyBlocks
    (allNodes_of_empty (s := { height }) rfl) inputs key info hinfo
  exact haccounted.payoutsExact hfunded hsettled.pos hsettled.cut
    (operatorListed_of_settled hsettled hdistinct)

theorem paysWhole_nullBlockWinner : PaysWhole nullBlockWinner.payouts := by
  constructor <;> decide

theorem applyBlocks_winner_paysWhole (env : Env) (height : ℕ) (inputs : List BlockInput) :
    PaysWhole (applyBlocks env { height } inputs).getBlockWinner.payouts := by
  rcases getBlockWinner_cases (applyBlocks env { height } inputs) with
    hnull | ⟨key, info, hinfo, hactive, hpayouts⟩
  · rw [hnull]
    exact paysWhole_nullBlockWinner
  · rw [hpayouts]
    have hfunded : info.isFullyFunded = true := by
      simp only [ServiceNodeInfo.isActive, Bool.and_eq_true] at hactive
      exact hactive.1
    exact (applyBlocks_payoutsExact env height inputs key info hinfo hfunded).2

/-- The shares of a fully funded node with exact accounts are exact and make up the
whole, if it requires something and its operator is listed once; this is so for every
node, and for the winner, after any blocks. -/
theorem winner_payout_shares :
    (∀ info, StakeAccounted info → info.isFullyFunded →
      info.portionsForOperator ≤ stakingShareParts → 0 < info.stakingRequirement →
      OperatorListed info → PayoutsExact info) ∧
    ∀ env height inputs,
      AllNodes (fun info => info.isFullyFunded → PayoutsExact info)
        (applyBlocks env { height } inputs) ∧
      PaysWhole (applyBlocks env { height } inputs).getBlockWinner.payouts :=
  ⟨fun _ haccounted hfunded hcut hpos hlisted =>
      haccounted.payoutsExact hfunded hpos hcut hlisted,
    fun env height inputs => ⟨applyBlocks_payoutsExact env height inputs,
      applyBlocks_winner_paysWhole env height inputs⟩⟩

/-- A node with two equal stakes whose operator, who takes half, is the first holder. -/
def sharedNode : ServiceNodeInfo where
  contributors := [{ amount := 50, reserved := 50, address := ⟨1, 1⟩ },
    { amount := 50, reserved := 50, address := ⟨2, 2⟩ }]
  totalContributed := 100
  totalReserved := 100
  stakingRequirement := 100
  portionsForOperator := 0x7ffffffffffffffe
  operatorAddress := ⟨1, 1⟩

theorem sharedNode_accounted : StakeAccounted sharedNode := by
  constructor <;> decide

theorem sharedNode_shares : PayoutsExact sharedNode :=
  winner_payout_shares.1 sharedNode sharedNode_accounted (by decide) (by decide) (by decide)
    (by decide)

/-- The node with an operator that holds no stake. -/
def absentOperator : ServiceNodeInfo := { sharedNode with operatorAddress := ⟨3, 3⟩ }

/-- A node that requires nothing. -/
def unstakedNode : ServiceNodeInfo where
  contributors := [{ address := ⟨0, 0⟩ }]

/-- The accounts say nothing of the operator: half of the whole is paid to nobody when the
operator holds no stake. And a node that requires nothing is divided by zero. -/
theorem operator_without_stake_unpaid :
    (StakeAccounted absentOperator ∧ absentOperator.isFullyFunded ∧
      absentOperator.portionsForOperator ≤ stakingShareParts ∧
      ((absentOperator.contributors.map (payoutOf absentOperator)).map fun payout =>
        payout.portions.toNat).sum = 0x7ffffffffffffffe ∧
      ¬ PaysWhole (absentOperator.contributors.map (payoutOf absentOperator))) ∧
    StakeAccounted unstakedNode ∧ unstakedNode.isFullyFunded ∧
      ∀ c ∈ unstakedNode.contributors, (payoutQuotient unstakedNode c).dividendHi ≠ 0 := by
  have haccounted : StakeAccounted absentOperator := by
    constructor <;> decide
  have hsum : ((absentOperator.contributors.map (payoutOf absentOperator)).map fun payout =>
      payout.portions.toNat).sum = 0x7ffffffffffffffe := by
    rw [haccounted.sum_payouts (by decide) (by decide) (by decide)]
    decide
  refine ⟨⟨haccounted, by decide, by decide, hsum, fun hwhole => ?_⟩, ?_, by decide, ?_⟩
  · have hlower := hwhole.lower
    rw [hsum] at hlower
    revert hlower
    decide
  · constructor <;> decide
  · intro c hc
    rw [mem_singleton.mp hc]
    decide +kernel

end Runs

end Arqma.ServiceNodes
