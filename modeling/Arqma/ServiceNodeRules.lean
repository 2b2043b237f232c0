import Mathlib.Algebra.BigOperators.Group.List.Basic
import Arqma.IntUtil
import Arqma.Cryptonote

/-!
# The rules of staking

Amounts and portions are 64-bit words with the wrapping arithmetic of the
source. Next to each function stands what it computes over the naturals in the
range where nothing wraps.
-/
namespace Arqma.ServiceNodes
open Arqma.Cryptonote List

variable {portions : List UInt64}

def stakingShareParts : UInt64 := 0xfffffffffffffffc
def maxNumberOfContributors : ℕ := 12
def stateChangeMinVotesToChangeState : ℕ := 4
def stateChangeQuorumSize : ℕ := 10
def stateChangeMinNodesToTest : ℕ := 50
def stateChangeNthOfTheNetworkToTest : ℕ := 100
def checkpointInterval : ℕ := 4
def checkpointNumCheckpointsForChainFinality : ℕ := 2
def checkpointStorePersistentlyInterval : ℕ := 60
def checkpointQuorumSize : ℕ := 20
def checkpointMinVotes : ℕ := 5
def reorgSafetyBufferInBlocks : ℕ :=
  checkpointInterval * checkpointNumCheckpointsForChainFinality + (checkpointInterval - 1)
def keyImageAwaitingUnlockHeight : ℕ := 0
def unassignedSwarmId : UInt64 := 0xffffffffffffffff
def uint32Max : ℕ := 2 ^ 32 - 1
def uint64Max : ℕ := 2 ^ 64 - 1

def blocksExpectedInHours (hours : ℕ) : ℕ := 60 * 60 * hours / 120
def blocksExpectedInDays (days : ℕ) : ℕ := blocksExpectedInHours 24 * days

def voteLifetime : ℕ := blocksExpectedInHours 2
def stateChangeTxLifetimeInBlocks : ℕ := voteLifetime
def voteOrTxVerifyHeightBuffer : ℕ := 5

def getStakingRequirement (nettype : NetworkType) (_height : ℕ) : UInt64 :=
  if nettype ≠ .mainnet then 1000 * 1000000000 else 100000 * 1000000000

def stakingNumLockBlocks : NetworkType → ℕ
  | .testnet => blocksExpectedInDays 2
  | .stagenet => blocksExpectedInDays 2
  | _ => blocksExpectedInDays 30

def getLockedKeyImageUnlockHeight (nettype : NetworkType) (_nodeRegisterHeight currHeight : ℕ) :
    ℕ :=
  currHeight + stakingNumLockBlocks nettype / 2

def portionsToAmount (portions stakingRequirement : UInt64) : UInt64 :=
  let product := IntUtil.mul128 stakingRequirement portions
  (IntUtil.div128_64 product.1 product.2 stakingShareParts).dividendLo

def getMinNodeContribution (stakingRequirement totalReserved : UInt64) (numContributions : ℕ) :
    UInt64 :=
  let needed := stakingRequirement - totalReserved
  if maxNumberOfContributors ≤ numContributions then
    0xffffffffffffffff
  else
    needed / (maxNumberOfContributors - numContributions).toUInt64

/-- The loop of `check_service_node_portions` from entry `i` on, with the sum
`reserved` of the entries before it. -/
def sumPortionsAboveMin : List UInt64 → ℕ → UInt64 → Option UInt64
  | [], _, reserved => some reserved
  | portion :: rest, i, reserved =>
    if portion < getMinNodeContribution stakingShareParts reserved i then none
    else sumPortionsAboveMin rest (i + 1) (reserved + portion)

def checkServiceNodePortions (portions : List UInt64) : Bool :=
  if maxNumberOfContributors < portions.length then false
  else
    match sumPortionsAboveMin portions 0 0 with
    | none => false
    | some reserved => reserved ≤ stakingShareParts

/-- What is left of `left` after handing out the portions one by one. -/
def portionsLeft (portions : List UInt64) (left : UInt64) : Option UInt64 :=
  portions.foldlM (fun left portion => if left < portion then none else some (left - portion)) left

/-- The hash an operator signs. It exists only if the portions fit together. -/
def getRegistrationHash (crypto : Crypto) (addresses : List AccountPublicAddress)
    (operatorPortions : UInt64) (portions : List UInt64) (expirationTimestamp : UInt64) :
    Option Hash :=
  if addresses.length ≠ portions.length then none
  else
    (portionsLeft portions stakingShareParts).map fun _ =>
      crypto.cnFastHash <|
        wordBytes operatorPortions ++
        (addresses.zip portions).flatMap (fun entry =>
          keyBytes entry.1.spendPublicKey ++ keyBytes entry.1.viewPublicKey ++
            wordBytes entry.2) ++
        wordBytes expirationTimestamp

/-- `generate_request_stake_unlock_hash`: the nonce repeated over the hash. -/
def generateRequestStakeUnlockHash (nonce : UInt32) : Hash :=
  let bytes := (List.range 4).map fun i => nonce.toNat / 2 ^ (8 * i) % 256
  BitVec.ofNat 256 ((List.replicate 8 bytes).flatten.foldl (fun acc b => acc * 256 + b) 0)

theorem stakingNumLockBlocks_pos (nettype : NetworkType) : 2 ≤ stakingNumLockBlocks nettype := by
  cases nettype <;> decide

/-- A portion of at most the whole is turned into its exact rounded-down share. -/
theorem toNat_portionsToAmount {portions : UInt64} (h : portions ≤ stakingShareParts)
    (stakingRequirement : UInt64) :
    (portionsToAmount portions stakingRequirement).toNat =
      stakingRequirement.toNat * portions.toNat / stakingShareParts.toNat :=
  IntUtil.toNat_mulDiv stakingRequirement portions stakingShareParts (by decide) h

theorem toNat_add_of_lt {a b : UInt64} (h : a.toNat + b.toNat < 2 ^ 64) :
    (a + b).toNat = a.toNat + b.toNat := by
  rw [UInt64.toNat_add, Nat.mod_eq_of_lt h]

theorem toNat_sum_of_lt {l : List UInt64} {a : UInt64}
    (h : a.toNat + (l.map UInt64.toNat).sum < 2 ^ 64) :
    (l.foldl (· + ·) a).toNat = a.toNat + (l.map UInt64.toNat).sum := by
  induction l generalizing a with
  | nil => simp
  | cons b l ih =>
    simp only [map_cons, sum_cons] at h
    have hab : (a + b).toNat = a.toNat + b.toNat := toNat_add_of_lt (by omega)
    rw [foldl_cons, ih (by omega), hab, map_cons, sum_cons, Nat.add_assoc]

theorem toNat_sub_of_le {a b : UInt64} (h : b.toNat ≤ a.toNat) :
    (a - b).toNat = a.toNat - b.toNat :=
  UInt64.toNat_sub_of_le a b (UInt64.le_iff_toNat_le.mpr h)

/-- Below the contribution limit the minimum is an equal share of what is missing. -/
theorem toNat_getMinNodeContribution {stakingRequirement totalReserved : UInt64} {num : ℕ}
    (hr : totalReserved.toNat ≤ stakingRequirement.toNat) (hn : num < maxNumberOfContributors) :
    (getMinNodeContribution stakingRequirement totalReserved num).toNat =
      (stakingRequirement.toNat - totalReserved.toNat) / (maxNumberOfContributors - num) := by
  grind [maxNumberOfContributors, UInt64.toNat_ofNat', getMinNodeContribution, UInt64.toNat_div,
    toNat_sub_of_le]

theorem portionsLeft_sum {left rest : UInt64} (h : portionsLeft portions left = some rest) :
    rest.toNat + (portions.map UInt64.toNat).sum = left.toNat := by
  induction portions generalizing left with
  | nil =>
    obtain rfl : left = rest := by simpa [portionsLeft] using h
    simp
  | cons portion portions ih =>
    simp only [portionsLeft, foldlM_cons] at h
    split_ifs at h with hlt
    · simp at h
    · have hle : portion.toNat ≤ left.toNat := UInt64.le_iff_toNat_le.mp (UInt64.not_lt.mp hlt)
      have hstep : portionsLeft portions (left - portion) = some rest := h
      have hrest := ih hstep
      rw [toNat_sub_of_le hle] at hrest
      simp only [map_cons, sum_cons]
      omega

/-- An operator cannot sign portions that add up to more than the whole. -/
theorem getRegistrationHash_sum {crypto : Crypto} {addresses : List AccountPublicAddress}
    {operatorPortions : UInt64} {expirationTimestamp : UInt64} {hash : Hash}
    (h : getRegistrationHash crypto addresses operatorPortions portions expirationTimestamp =
      some hash) :
    (portions.map UInt64.toNat).sum ≤ stakingShareParts.toNat := by
  unfold getRegistrationHash at h
  split_ifs at h
  obtain ⟨rest, hrest, -⟩ := Option.map_eq_some_iff.mp h
  have := portionsLeft_sum hrest
  omega

theorem div_add_div_le (a b d : ℕ) : a / d + b / d ≤ (a + b) / d := by
  rcases Nat.eq_zero_or_pos d with rfl | hd
  · simp
  · rw [Nat.le_div_iff_mul_le hd, Nat.add_mul]
    exact Nat.add_le_add (Nat.div_mul_le_self a d) (Nat.div_mul_le_self b d)

/-- Rounding each share down keeps the sum within the share of the sum. -/
theorem sum_portionsToAmount_le (stakingRequirement : UInt64)
    (h : (portions.map UInt64.toNat).sum ≤ stakingShareParts.toNat) :
    (portions.map fun p => (portionsToAmount p stakingRequirement).toNat).sum ≤
      stakingRequirement.toNat * (portions.map UInt64.toNat).sum / stakingShareParts.toNat := by
  induction portions with
  | nil => simp
  | cons portion portions ih =>
    simp only [map_cons, sum_cons] at h ⊢
    have hp : portion ≤ stakingShareParts := UInt64.le_iff_toNat_le.mpr (by omega)
    rw [toNat_portionsToAmount hp, Nat.mul_add]
    exact (Nat.add_le_add_left (ih (by omega)) _).trans (div_add_div_le _ _ _)

theorem sum_portionsToAmount_le_requirement (stakingRequirement : UInt64)
    (h : (portions.map UInt64.toNat).sum ≤ stakingShareParts.toNat) :
    (portions.map fun p => (portionsToAmount p stakingRequirement).toNat).sum ≤
      stakingRequirement.toNat := by
  refine (sum_portionsToAmount_le stakingRequirement h).trans ?_
  have hpos : 0 < stakingShareParts.toNat := by decide
  exact Nat.div_le_of_le_mul (by
    rw [Nat.mul_comm stakingShareParts.toNat]
    exact Nat.mul_le_mul_left _ h)

end Arqma.ServiceNodes
