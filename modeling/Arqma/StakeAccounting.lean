import Mathlib.Algebra.Order.BigOperators.Group.List
import Arqma.NodeInvariant

/-!
# Stake accounting

The totals of a node are the exact sums over its contributors, nobody has paid
in more than is reserved for them, and no more is reserved than the node
requires. Registration establishes this by the bound on signed portions, and the
clamp on credited amounts keeps it, whatever amounts the outputs decode to.
-/
namespace Arqma.ServiceNodes
open Arqma.Cryptonote List

variable {info : ServiceNodeInfo} {nettype : NetworkType} {timestamp : UInt64} {tx : Transaction}
  {crypto : Crypto}

structure StakeAccounted (info : ServiceNodeInfo) : Prop where
  totalReserved_eq :
    info.totalReserved.toNat = (info.contributors.map fun c => c.reserved.toNat).sum
  totalContributed_eq :
    info.totalContributed.toNat = (info.contributors.map fun c => c.amount.toNat).sum
  amount_le : ∀ c ∈ info.contributors, c.amount ≤ c.reserved
  contributed_le : info.totalContributed ≤ info.totalReserved
  reserved_le : info.totalReserved ≤ info.stakingRequirement

/-- The subtractions and the addition of a contribution stay within 64 bits. -/
structure StakeArithmeticExact (info : ServiceNodeInfo) : Prop where
  canIncrease : (info.stakingRequirement - info.totalReserved).toNat =
    info.stakingRequirement.toNat - info.totalReserved.toNat
  maxAmount : ∀ address, let c := contributorAt info.contributors address
    (c.reserved + (info.stakingRequirement - info.totalReserved)).toNat =
      c.reserved.toNat + (info.stakingRequirement.toNat - info.totalReserved.toNat)
  room : ∀ address, let c := contributorAt info.contributors address
    (c.reserved + (info.stakingRequirement - info.totalReserved) - c.amount).toNat =
      c.reserved.toNat + (info.stakingRequirement.toNat - info.totalReserved.toNat) -
        c.amount.toNat

section Registration

theorem registrationIsValid_portions {height : ℕ} {fields : RegTxFields}
    (h : registrationIsValid crypto nettype tx timestamp height info fields = true) :
    fields.portions.length = fields.addresses.length ∧
      (fields.portions.map UInt64.toNat).sum ≤ stakingShareParts.toNat := by
  grind [registrationIsValid, getRegistrationHash_sum]

theorem isRegistrationTx_accounted {hardForkVersion : ℕ} {height index : ℕ} {key : PublicKey}
    (h : isRegistrationTx crypto nettype hardForkVersion tx timestamp height index {} =
      some (key, info)) : StakeAccounted info := by
  obtain ⟨fields, -, -, hvalid, hreserve⟩ := isRegistrationTx_eq_some h
  obtain ⟨hlen, hsum⟩ := registrationIsValid_portions hvalid
  rw [reserveContributors_eq hreserve]
  simp only [nil_append]
  generalize getStakingRequirement nettype height = requirement
  have hportions : (fields.addresses.zip fields.portions).map Prod.snd = fields.portions :=
    map_snd_zip (by omega)
  have hshares : (((fields.addresses.zip fields.portions).map fun e =>
      portionsToAmount e.2 requirement).map UInt64.toNat).sum ≤ requirement.toNat := by
    have hle := sum_portionsToAmount_le_requirement requirement hsum
    rw [← hportions, map_map] at hle
    rw [map_map]
    exact hle
  have htotal := @toNat_sum_of_lt ((fields.addresses.zip fields.portions).map fun e =>
    portionsToAmount e.2 requirement) 0 (by
      have := requirement.toNat_lt
      simp only [UInt64.toNat_zero]
      omega)
  simp only [UInt64.toNat_zero, Nat.zero_add] at htotal
  refine ⟨?_, ?_, ?_, ?_, ?_⟩
  · rw [htotal]
    simp [Function.comp_def]
  · simp [Function.comp_def]
  · intro c hc
    obtain ⟨e, -, rfl⟩ := mem_map.mp hc
    exact UInt64.zero_le
  · exact UInt64.zero_le
  · exact UInt64.le_iff_toNat_le.mpr (by rw [htotal]; exact hshares)

end Registration

section Contribution

theorem contributorAt_cases (contributors : List Contributor) (address : AccountPublicAddress) :
    contributorAt contributors address ∈ contributors ∨
      contributorAt contributors address = { address } := by
  unfold contributorAt
  cases hfind : contributors.find? fun c => c.address = address <;> grind

theorem sum_setContributor (f : Contributor → ℕ) (hf : ∀ address, f { address } = 0)
    (c : Contributor) (contributors : List Contributor) :
    ((setContributor c contributors).map f).sum + f (contributorAt contributors c.address) =
      (contributors.map f).sum + f c := by
  induction contributors with
  | nil => simp [setContributor, contributorAt, hf]
  | cons d ds ih =>
    unfold setContributor contributorAt
    grind [contributorAt]

theorem le_sum_contributorAt (f : Contributor → ℕ) (hf : ∀ address, f { address } = 0)
    (contributors : List Contributor) (address : AccountPublicAddress) :
    f (contributorAt contributors address) ≤ (contributors.map f).sum := by
  rcases contributorAt_cases contributors address with hmem | hfresh
  · exact single_le_sum (fun _ _ => Nat.zero_le _) _ (mem_map_of_mem hmem)
  · rw [hfresh, hf]
    exact Nat.zero_le _

theorem mem_setContributor {c d : Contributor} {contributors : List Contributor}
    (h : d ∈ setContributor c contributors) : d = c ∨ d ∈ contributors := by
  induction contributors with
  | nil => exact Or.inl (by simpa [setContributor] using h)
  | cons e es ih =>
    unfold setContributor at h
    grind

namespace StakeAccounted

variable {info : ServiceNodeInfo} (h : StakeAccounted info) (address : AccountPublicAddress)

include h

theorem amount_contributorAt_le : (contributorAt info.contributors address).amount.toNat ≤
      (contributorAt info.contributors address).reserved.toNat := by
  rcases contributorAt_cases info.contributors address with hmem | hfresh
  · exact UInt64.le_iff_toNat_le.mp (h.amount_le _ hmem)
  · rw [hfresh]

theorem reserved_contributorAt_le :
    (contributorAt info.contributors address).reserved.toNat ≤ info.totalReserved.toNat := by
  rw [h.totalReserved_eq]
  exact le_sum_contributorAt (fun c => c.reserved.toNat) (fun _ => rfl) _ address

theorem open_contributorAt_le :
    (contributorAt info.contributors address).reserved.toNat + info.totalContributed.toNat ≤
      info.totalReserved.toNat + (contributorAt info.contributors address).amount.toNat := by
  have hone := le_sum_contributorAt (fun c => c.reserved.toNat - c.amount.toNat) (fun _ => rfl)
    info.contributors address
  have hall : (info.contributors.map fun c => c.reserved.toNat - c.amount.toNat).sum +
      info.totalContributed.toNat = info.totalReserved.toNat := by
    rw [h.totalContributed_eq, h.totalReserved_eq, ← sum_map_add]
    congr 1
    refine map_congr_left fun c hc => ?_
    have := UInt64.le_iff_toNat_le.mp (h.amount_le c hc)
    omega
  have := h.amount_contributorAt_le address
  omega

theorem arithmeticExact : StakeArithmeticExact info := by
  have hreq := UInt64.le_iff_toNat_le.mp h.reserved_le
  have hlt := info.stakingRequirement.toNat_lt
  have hcan : (info.stakingRequirement - info.totalReserved).toNat =
      info.stakingRequirement.toNat - info.totalReserved.toNat := toNat_sub_of_le hreq
  have hmax : ∀ address, ((contributorAt info.contributors address).reserved +
      (info.stakingRequirement - info.totalReserved)).toNat =
        (contributorAt info.contributors address).reserved.toNat +
          (info.stakingRequirement.toNat - info.totalReserved.toNat) := by
    intro address
    have hres := h.reserved_contributorAt_le address
    rw [toNat_add_of_lt (by rw [hcan]; omega), hcan]
  refine ⟨hcan, hmax, ?_⟩
  intro address
  have ham := h.amount_contributorAt_le address
  simp only
  rw [toNat_sub_of_le (by rw [hmax]; omega), hmax]

/-- The credit is the transfer, cut off at the free part of the stake. -/
theorem toNat_creditedAmount (transferred : UInt64) :
    (creditedAmount info (contributorAt info.contributors address) transferred).toNat =
      min ((contributorAt info.contributors address).reserved.toNat +
        (info.stakingRequirement.toNat - info.totalReserved.toNat) -
          (contributorAt info.contributors address).amount.toNat) transferred.toNat := by
  grind [creditedAmount, UInt64.lt_iff_toNat_lt, h.arithmeticExact.room]

end StakeAccounted

/-- Raising one contributor to a new amount and reservation, and the totals with
it, keeps the accounts, as long as the requirement covers the reservations. -/
theorem StakeAccounted.replace {info info' : ServiceNodeInfo} (h : StakeAccounted info)
    {c : Contributor} (hc : c.amount ≤ c.reserved)
    (hcontributors : info'.contributors = setContributor c info.contributors)
    (hcontributed : info'.totalContributed.toNat +
      (contributorAt info.contributors c.address).amount.toNat =
        info.totalContributed.toNat + c.amount.toNat)
    (hreserved : info'.totalReserved.toNat +
      (contributorAt info.contributors c.address).reserved.toNat =
        info.totalReserved.toNat + c.reserved.toNat)
    (hrequired : info'.totalReserved ≤ info'.stakingRequirement) : StakeAccounted info' := by
  have hamounts := sum_setContributor (fun c => c.amount.toNat) (fun _ => rfl) c info.contributors
  have hreserves :=
    sum_setContributor (fun c => c.reserved.toNat) (fun _ => rfl) c info.contributors
  rw [← h.totalContributed_eq, ← hcontributors] at hamounts
  rw [← h.totalReserved_eq, ← hcontributors] at hreserves
  have hle : ∀ d ∈ info'.contributors, d.amount ≤ d.reserved := by
    intro d hd
    rw [hcontributors] at hd
    rcases mem_setContributor hd with rfl | hd
    · exact hc
    · exact h.amount_le d hd
  have hsums : (info'.contributors.map fun c => c.amount.toNat).sum ≤
      (info'.contributors.map fun c => c.reserved.toNat).sum :=
    sum_le_sum fun d hd => UInt64.le_iff_toNat_le.mp (hle d hd)
  exact ⟨by omega, by omega, hle, UInt64.le_iff_toNat_le.mpr (by omega), hrequired⟩

theorem contribute_accounted (h : StakeAccounted info)
    (parsed : ParsedTxContribution) (height index : ℕ) :
    StakeAccounted (contribute info parsed height index) := by
  have hcredit := h.toNat_creditedAmount parsed.address parsed.transferred
  have ham := h.amount_contributorAt_le parsed.address
  have hres := h.reserved_contributorAt_le parsed.address
  have hreq := UInt64.le_iff_toNat_le.mp h.reserved_le
  have hopen := h.open_contributorAt_le parsed.address
  have hlt := info.stakingRequirement.toNat_lt
  have haddr := contributorAt_address info.contributors parsed.address
  unfold contribute
  simp only
  obtain ⟨c, hc⟩ : ∃ c, contributorAt info.contributors parsed.address = c := ⟨_, rfl⟩
  rw [hc] at hcredit ham hres hopen haddr ⊢
  obtain ⟨credit, hcr⟩ : ∃ t, creditedAmount info c parsed.transferred = t := ⟨_, rfl⟩
  rw [hcr] at hcredit ⊢
  have hamount : (c.amount + credit).toNat = c.amount.toNat + credit.toNat :=
    toNat_add_of_lt (by omega)
  have hgrown : c.reserved < c.amount + credit →
      (info.totalReserved + (c.amount + credit - c.reserved)).toNat =
        info.totalReserved.toNat + (c.amount.toNat + credit.toNat - c.reserved.toNat) := by
    intro hgrow
    have hgrow' := UInt64.lt_iff_toNat_lt.mp hgrow
    have hdiff := toNat_sub_of_le (Nat.le_of_lt hgrow')
    rw [toNat_add_of_lt (by omega), hdiff, hamount]
  refine h.replace (c := { c with
    amount := c.amount + credit
    reserved := if c.reserved < c.amount + credit then c.amount + credit else c.reserved
    lockedContributions := c.lockedContributions ++ parsed.lockedContributions }) ?_ rfl ?_ ?_ ?_
  · simp only
    split_ifs with hgrow
    · exact UInt64.le_refl _
    · exact UInt64.not_lt.mp hgrow
  · simp only [haddr, hc]
    rw [toNat_add_of_lt (by omega), hamount]
    omega
  · simp only [haddr, hc]
    split_ifs with hgrow
    · have hgrow' := UInt64.lt_iff_toNat_lt.mp hgrow
      rw [hgrown hgrow]
      omega
    · rfl
  · grind [UInt64.le_iff_toNat_le]

end Contribution

theorem stakeAccounted_invariant (env : Env) : NodeInvariant env StakeAccounted where
  register := isRegistrationTx_accounted
  contribution height index h _ := contribute_accounted h _ height index
  status := by
    rintro a b h ⟨hcontributors, -, -, hcontributed, hreserved, hrequirement⟩
    exact ⟨by rw [hreserved, hcontributors]; exact h.totalReserved_eq,
      by rw [hcontributed, hcontributors]; exact h.totalContributed_eq,
      by rw [hcontributors]; exact h.amount_le,
      by rw [hcontributed, hreserved]; exact h.contributed_le,
      by rw [hreserved, hrequirement]; exact h.reserved_le⟩

/-- The accounts of every node are exact after any blocks, and wherever a
contribution of the next block is processed: after the transactions before it
and after the registration it may itself contain. -/
theorem stake_accounting (env : Env) (height : ℕ) (inputs : List BlockInput) :
    AllNodes StakeAccounted (applyBlocks env { height } inputs) ∧
      ∀ (next : BlockInput) (tx : Transaction) (index : ℕ),
        let before := (processTxs env next.history next.altStates
          (applyBlocks env { height } inputs) next.block next.txs).1
        AllNodes (fun info => StakeAccounted info ∧ StakeArithmeticExact info)
          ((processRegistrationTx env before next.block tx index).getD before) := by
  have hinv := stakeAccounted_invariant env
  have hrun : AllNodes StakeAccounted (applyBlocks env { height } inputs) :=
    hinv.applyBlocks (allNodes_of_empty rfl) inputs
  refine ⟨hrun, ?_⟩
  intro next tx index before key info hinfo
  have hbefore : AllNodes StakeAccounted before :=
    hinv.changes (processTxs_changes _ _ _ _) hrun
  have hacc : StakeAccounted info :=
    hinv.passiveChanges (processRegistrationTx_changes before tx index) hbefore key info hinfo
  exact ⟨hacc, hacc.arithmeticExact⟩

end Arqma.ServiceNodes
