import Arqma.MinerTx
import Arqma.PulseCollector

/-!
# Conservation of the block reward

The outputs of a constructed miner transaction add up to the announced reward, and the
checks of a received block accept them. Producer and verifier compute the reward with
different payouts; what they agree on is the sum of the miner's part and the part paid to
the nodes.
-/
namespace Arqma.Cryptonote
open Arqma.ServiceNodes List

variable {vout : List TxOut} {payouts : List PayoutEntry} {checked : BlockRewardParts}
  {payout :
  PayoutEntry} {total : UInt64} {wallet : AccountPublicAddress}
  {medianWeight weight : ℕ} {tx : Transaction} {key : PublicKey} {coins : UInt64}

section Portions

variable {payouts : List PayoutEntry} {total : UInt64}

/-- The portions of the payouts add up to at most the whole. -/
def WithinWhole (payouts : List PayoutEntry) : Prop :=
  (payouts.map fun payout => payout.portions.toNat).sum ≤ stakingShareParts.toNat

theorem WithinWhole.le (h : WithinWhole payouts) (hmem : payout ∈ payouts) :
    payout.portions ≤ stakingShareParts := by
  refine UInt64.le_iff_toNat_le.mpr (le_trans ?_ h)
  exact single_le_sum (fun _ _ => Nat.zero_le _) _ (mem_map_of_mem hmem)

theorem WithinWhole.toNat_portion (h : WithinWhole payouts) (hmem : payout ∈ payouts)
    (total : UInt64) :
    (getPortionOfReward payout.portions total).toNat =
      total.toNat * payout.portions.toNat / stakingShareParts.toNat :=
  toNat_portionsToAmount (h.le hmem) total

/-- The rounded portions add up to at most the total. -/
theorem WithinWhole.sum_portions_le (h : WithinWhole payouts) (total : UInt64) :
    (payouts.map fun payout => (getPortionOfReward payout.portions total).toNat).sum ≤
      total.toNat := by
  have hsum : ((payouts.map PayoutEntry.portions).map UInt64.toNat).sum ≤
      stakingShareParts.toNat := by
    rw [map_map]
    exact h
  have hle := sum_portionsToAmount_le_requirement total hsum
  rwa [map_map] at hle

theorem WithinWhole.toNat_sum (h : WithinWhole payouts) (total : UInt64) :
    (calculateSumOfPortions payouts total).toNat =
      (payouts.map fun payout => (getPortionOfReward payout.portions total).toNat).sum := by
  have hle := h.sum_portions_le total
  have hlt := total.toNat_lt
  have hfold : calculateSumOfPortions payouts total =
      (payouts.map fun payout => getPortionOfReward payout.portions total).foldl (· + ·) 0 := by
    rw [calculateSumOfPortions, foldl_map]
  have hsum : ((payouts.map fun payout => getPortionOfReward payout.portions total).map
      UInt64.toNat).sum =
      (payouts.map fun payout => (getPortionOfReward payout.portions total).toNat).sum := by
    rw [map_map]
    rfl
  rw [hfold, toNat_sum_of_lt (by rw [hsum, UInt64.toNat_zero]; omega), hsum, UInt64.toNat_zero,
    Nat.zero_add]

theorem withinWhole_nullBlockWinner : WithinWhole nullBlockWinner.payouts := by
  simp [WithinWhole, nullBlockWinner]

end Portions

section Outputs

variable {crypto : Crypto} {sec : SecretKey} {total : UInt64} {payouts : List PayoutEntry}
  {outs : List TxOut} {i : ℕ}

theorem exists_payoutOutputs (total : UInt64)
    (hkeys : ∀ j payout, payouts[j]? = some payout →
      (outputKey crypto payout.address sec (1 + (i + j))).isSome) :
    ∃ outs, payoutOutputs crypto sec total i payouts = some outs := by
  induction payouts generalizing i with
  | nil => exact ⟨[], rfl⟩
  | cons payout payouts ih =>
    obtain ⟨key, hkey⟩ := Option.isSome_iff_exists.mp (hkeys 0 payout rfl)
    have hrest : ∀ j other, payouts[j]? = some other →
        (outputKey crypto other.address sec (1 + (i + 1 + j))).isSome := by
      intro j other hother
      have hkey := hkeys (j + 1) other hother
      rwa [Nat.add_assoc i 1 j, Nat.add_comm 1 j]
    obtain ⟨rest, hrest⟩ := ih hrest
    rw [Nat.add_zero] at hkey
    simp [payoutOutputs, hkey, hrest]

theorem payoutOutputs_cons (h : payoutOutputs crypto sec total i (payout :: payouts) = some outs) :
    ∃ key rest, outputKey crypto payout.address sec (1 + i) = some key ∧
      payoutOutputs crypto sec total (i + 1) payouts = some rest ∧
      outs = ⟨getPortionOfReward payout.portions total, .toKey key⟩ :: rest := by
  grind [payoutOutputs, Option.bind_eq_some_iff]

theorem payoutOutputs_amounts (h : payoutOutputs crypto sec total i payouts = some outs) :
    outs.map TxOut.amount = payouts.map fun payout => getPortionOfReward payout.portions total := by
  induction payouts generalizing i outs with
  | nil =>
    obtain rfl := Option.some.inj h
    rfl
  | cons payout payouts ih =>
    obtain ⟨key, rest, -, hrest, rfl⟩ := payoutOutputs_cons h
    rw [map_cons, map_cons, ih hrest]

theorem payoutOutputs_length (h : payoutOutputs crypto sec total i payouts = some outs) :
    outs.length = payouts.length := by
  have hlength := congrArg List.length (payoutOutputs_amounts h)
  rwa [length_map, length_map] at hlength

theorem addFundOutput_eq (vout : List TxOut)
    (hkey : outputKey crypto wallet sec i = some key) (hlength : vout.length = i)
    (amount : UInt64) :
    addFundOutput crypto sec wallet amount vout = some (vout ++ [⟨amount, .toKey key⟩]) := by
  simp only [addFundOutput, hlength, hkey, Option.bind_eq_bind, Option.bind_some]

theorem withinOne_self (a : UInt64) : withinOne a a = true := by
  simp [withinOne]

/-- The checks accept the outputs at their positions. -/
theorem checkPayouts_payoutOutputs {env : CoinbaseEnv} {height : ℕ}
    (h : payoutOutputs env.crypto (env.getDeterministicKeypairFromHeight height).sec total i
      payouts = some outs)
    (hvout : ∀ j out, outs[j]? = some out → vout[i + 1 + j]? = some out) :
    checkPayouts env height total vout i payouts = .ok () := by
  induction payouts generalizing i outs with
  | nil => rfl
  | cons payout payouts ih =>
    obtain ⟨key, rest, hkey, hrest, rfl⟩ := payoutOutputs_cons h
    have hout := hvout 0 _ rfl
    have htail := ih hrest fun j out hj => by
      have hnext := hvout (j + 1) out hj
      rwa [Nat.add_comm j 1, ← Nat.add_assoc] at hnext
    rw [Nat.add_zero] at hout
    rw [Nat.add_comm 1 i] at hkey
    simp only [checkPayouts, hout, withinOne_self, check, hkey, htail]
    rfl

end Outputs

section Totals

theorem sumAmounts_append (vout : List TxOut) (out : TxOut) :
    sumAmounts (vout ++ [out]) = sumAmounts vout + out.amount := by
  rw [sumAmounts, foldl_append]
  rfl

/-- The loop over the outputs and the one over the payouts add the same amounts. -/
theorem sumAmounts_cons_payouts
    (h : vout.map TxOut.amount =
      payouts.map fun payout => getPortionOfReward payout.portions total) (out : TxOut) :
    sumAmounts (out :: vout) = out.amount + calculateSumOfPortions payouts total := by
  have hfold : ∀ (amounts : List UInt64) (a : UInt64),
      amounts.foldl (· + ·) a = a + amounts.foldl (· + ·) 0 := by
    intro amounts a
    have hassoc : amounts.foldl (· + ·) (a + 0) = a + amounts.foldl (· + ·) 0 := foldl_assoc
    rwa [UInt64.add_zero] at hassoc
  have hvout : sumAmounts (out :: vout) = (vout.map TxOut.amount).foldl (· + ·) out.amount := by
    rw [sumAmounts, foldl_cons, foldl_map, UInt64.zero_add]
  grind [calculateSumOfPortions, foldl_map]

end Totals

section Construction

variable {env : CoinbaseEnv} {height hardForkVersion : ℕ} {baseReward fee : UInt64}
  {parts : BlockRewardParts}

/-- All outputs: the miner's, those of the winner and the three funds'. -/
def rewardOutputs (parts : BlockRewardParts) (minerKey : PublicKey) (nodes : List TxOut)
    (govKey devKey netKey : PublicKey) : List TxOut :=
  ⟨parts.minerReward, .toKey minerKey⟩ :: nodes ++
    [⟨parts.gov, .toKey govKey⟩, ⟨parts.dev, .toKey devKey⟩, ⟨parts.net, .toKey netKey⟩]

/-- The keys of all outputs can be derived. -/
structure KeysDerivable (env : CoinbaseEnv) (height hardForkVersion : ℕ)
    (minerAddress : AccountPublicAddress) (payouts : List PayoutEntry) (txkey : Keypair) :
    Prop where
  miner : (outputKey env.crypto minerAddress txkey.sec 0).isSome
  nodes : ∀ i payout, payouts[i]? = some payout → (outputKey env.crypto payout.address
    (env.getDeterministicKeypairFromHeight height).sec (1 + i)).isSome
  gov : (outputKey env.crypto (env.govWallet hardForkVersion)
    (env.getDeterministicKeypairFromHeight height).sec (1 + payouts.length)).isSome
  dev : (outputKey env.crypto (env.devWallet hardForkVersion)
    (env.getDeterministicKeypairFromHeight height).sec (2 + payouts.length)).isSome
  net : (outputKey env.crypto (env.netWallet hardForkVersion)
    (env.getDeterministicKeypairFromHeight height).sec (3 + payouts.length)).isSome

theorem getArqmaBlockReward_eq
    {context : BlockRewardContext}
    (hbase : env.getBaseBlockReward medianWeight weight coins hardForkVersion context.height =
      some baseReward) (hpos : baseReward ≠ 0) (hcoins : coins ≠ 0) :
    getArqmaBlockReward env medianWeight weight coins hardForkVersion context =
      some (splitBaseReward hardForkVersion baseReward context) := by
  simp only [getArqmaBlockReward, hbase, Option.bind_eq_bind, Option.bind_some, if_neg hpos,
    if_neg hcoins]

/-- As they are pushed one after the other. -/
theorem rewardOutputs_eq_append (minerKey : PublicKey) (nodes : List TxOut)
    (govKey devKey netKey : PublicKey) :
    rewardOutputs parts minerKey nodes govKey devKey netKey =
      (((⟨parts.minerReward, .toKey minerKey⟩ :: nodes) ++ [⟨parts.gov, .toKey govKey⟩]) ++
        [⟨parts.dev, .toKey devKey⟩]) ++ [⟨parts.net, .toKey netKey⟩] := by
  simp [rewardOutputs]

theorem sumAmounts_rewardOutputs {nodes : List TxOut}
    (hnodes : nodes.map TxOut.amount =
      payouts.map fun payout => getPortionOfReward payout.portions parts.serviceNodeTotal)
    (hpaid : parts.serviceNodePaid = calculateSumOfPortions payouts parts.serviceNodeTotal)
    (minerKey govKey devKey netKey : PublicKey) :
    sumAmounts (rewardOutputs parts minerKey nodes govKey devKey netKey) =
      parts.minerReward + parts.serviceNodePaid + parts.gov + parts.dev + parts.net := by
  rw [rewardOutputs_eq_append, sumAmounts_append, sumAmounts_append, sumAmounts_append,
    sumAmounts_cons_payouts hnodes, hpaid]

/-- From version 16 on the construction succeeds with the outputs above. -/
theorem constructMinerTx_eq
    {minerAddress : AccountPublicAddress} {extraNonce : List UInt8} {context : MinerTxContext}
    {txkey : Keypair} (hfork : 16 ≤ hardForkVersion)
    (hnonce : extraNonce.length ≤ txExtraNonceMaxCount)
    (hparts : getArqmaBlockReward env medianWeight weight coins hardForkVersion
      { height, fee, serviceNodePayouts := context.blockWinner.payouts } = some parts)
    (hpaid : parts.serviceNodePaid =
      calculateSumOfPortions context.blockWinner.payouts parts.serviceNodeTotal)
    (hkeys : KeysDerivable env height hardForkVersion minerAddress context.blockWinner.payouts
      txkey) :
    ∃ tx minerKey nodes govKey devKey netKey,
      constructMinerTx env height medianWeight coins weight fee minerAddress extraNonce
        hardForkVersion context txkey = some tx ∧
      payoutOutputs env.crypto (env.getDeterministicKeypairFromHeight height).sec
        parts.serviceNodeTotal 0 context.blockWinner.payouts = some nodes ∧
      outputKey env.crypto (env.govWallet hardForkVersion)
        (env.getDeterministicKeypairFromHeight height).sec (1 + nodes.length) = some govKey ∧
      outputKey env.crypto (env.devWallet hardForkVersion)
        (env.getDeterministicKeypairFromHeight height).sec (2 + nodes.length) = some devKey ∧
      outputKey env.crypto (env.netWallet hardForkVersion)
        (env.getDeterministicKeypairFromHeight height).sec (3 + nodes.length) = some netKey ∧
      tx.vout = rewardOutputs parts minerKey nodes govKey devKey netKey ∧
      tx.vin = [.gen height] ∧ tx.txType = .standard ∧
      tx.version = getMaxVersionForHf hardForkVersion ∧
      getServiceNodeWinnerFromTxExtra tx.extra = context.blockWinner.key := by
  obtain ⟨minerKey, hminer⟩ := Option.isSome_iff_exists.mp hkeys.miner
  obtain ⟨nodes, hnodes⟩ := exists_payoutOutputs parts.serviceNodeTotal
    fun i payout hi => (Nat.zero_add i).symm ▸ hkeys.nodes i payout hi
  have hlength := payoutOutputs_length hnodes
  obtain ⟨govKey, hgov⟩ := Option.isSome_iff_exists.mp (hlength ▸ hkeys.gov)
  obtain ⟨devKey, hdev⟩ := Option.isSome_iff_exists.mp (hlength ▸ hkeys.dev)
  obtain ⟨netKey, hnet⟩ := Option.isSome_iff_exists.mp (hlength ▸ hkeys.net)
  obtain ⟨extra, hextra⟩ : ∃ extra, minerTxExtra txkey.pub
      (env.getDeterministicKeypairFromHeight height).pub extraNonce context = some extra :=
    ⟨_, if_neg (not_lt.mpr hnonce)⟩
  have hwinner : getServiceNodeWinnerFromTxExtra extra = context.blockWinner.key := by
    rw [minerTxExtra, if_neg (not_lt.mpr hnonce)] at hextra
    obtain rfl := Option.some.inj hextra
    by_cases hempty : extraNonce = [] <;> simp [getServiceNodeWinnerFromTxExtra, hempty]
  have haddGov := addFundOutput_eq (⟨parts.minerReward, .toKey minerKey⟩ :: nodes) hgov
    (Nat.add_comm _ _) parts.gov
  have haddDev := addFundOutput_eq
    ((⟨parts.minerReward, .toKey minerKey⟩ :: nodes) ++ [⟨parts.gov, .toKey govKey⟩]) hdev
    (by simp; omega) parts.dev
  have haddNet := addFundOutput_eq
    (((⟨parts.minerReward, .toKey minerKey⟩ :: nodes) ++ [⟨parts.gov, .toKey govKey⟩]) ++
      [⟨parts.dev, .toKey devKey⟩]) hnet (by simp; omega) parts.net
  have hsum := sumAmounts_rewardOutputs (payoutOutputs_amounts hnodes) hpaid minerKey govKey devKey
    netKey
  refine ⟨{
    version := getMaxVersionForHf hardForkVersion
    txType := .standard
    vin := [.gen height]
    vout := rewardOutputs parts minerKey nodes govKey devKey netKey
    extra }, minerKey, nodes, govKey, devKey, netKey, ?_, hnodes, hgov, hdev, hnet, rfl, rfl, rfl,
    rfl, hwinner⟩
  simp only [constructMinerTx, hextra, hparts, hminer, if_pos hfork, hnodes, singleton_append,
    haddGov, haddDev, haddNet, Option.bind_eq_bind, Option.bind_some]
  rw [← rewardOutputs_eq_append, if_pos hsum]

end Construction

section Verification

variable {env : CoinbaseEnv} {height hardForkVersion : ℕ} {baseReward fee : UInt64}
  {parts : BlockRewardParts} {nodes : List TxOut} {minerKey govKey devKey netKey : PublicKey}

theorem length_rewardOutputs :
    (rewardOutputs parts minerKey nodes govKey devKey netKey).length = nodes.length + 4 := by
  simp [rewardOutputs]

theorem WithinWhole.amounts (hportions : WithinWhole payouts)
    (hnodes : nodes.map TxOut.amount =
      payouts.map fun payout => getPortionOfReward payout.portions total) :
    (nodes.map fun out => out.amount.toNat) = payouts.map fun payout =>
      total.toNat * payout.portions.toNat / stakingShareParts.toNat := by
  have hmap : (nodes.map fun out => out.amount.toNat) =
      (nodes.map TxOut.amount).map UInt64.toNat := by
    rw [map_map]
    rfl
  rw [hmap, hnodes, map_map]
  exact map_congr_left fun payout hmem => hportions.toNat_portion hmem total

/-- The winner's outputs stand after the miner's. -/
theorem checkServiceNodeOutputs_rewardOutputs {winner : BlockWinner}
    (htotal : serviceNodeRewardFormula checked.originalBaseReward hardForkVersion = total)
    (hnodes : payoutOutputs env.crypto (env.getDeterministicKeypairFromHeight height).sec total 0
      winner.payouts = some nodes)
    (hvout : tx.vout = rewardOutputs parts minerKey nodes govKey devKey netKey)
    (hwinner : getServiceNodeWinnerFromTxExtra tx.extra = winner.key) :
    checkServiceNodeOutputs env winner tx height hardForkVersion checked = .ok () := by
  have hcount : winner.payouts.length ≤ tx.vout.length - 3 := by
    rw [hvout, length_rewardOutputs, payoutOutputs_length hnodes]
    omega
  have hplace : ∀ j out, nodes[j]? = some out → tx.vout[0 + 1 + j]? = some out := by
    grind [rewardOutputs]
  have hpayouts := checkPayouts_payoutOutputs hnodes hplace
  simp only [checkServiceNodeOutputs, htotal, check, hwinner, hcount, or_true, decide_true,
    hpayouts]
  rfl

theorem checkFundOutput_eq_ok {amount : UInt64} {fromEnd i : ℕ}
    (hlength : vout.length = i + fromEnd)
    (hout : vout[i]? = some ⟨amount, .toKey key⟩)
    (hkey : outputKey env.crypto wallet (env.getDeterministicKeypairFromHeight height).sec i =
      some key) :
    checkFundOutput env height wallet amount vout fromEnd = .ok () := by
  have hindex : vout.length - fromEnd = i := by omega
  rw [checkFundOutput, if_neg (by omega), hindex, hout]
  simp only [check, hkey, decide_true]
  rfl

theorem checkFunds_rewardOutputs (hfork : 16 ≤ hardForkVersion)
    (hvout : tx.vout = rewardOutputs parts minerKey nodes govKey devKey netKey)
    (hgov : outputKey env.crypto (env.govWallet hardForkVersion)
      (env.getDeterministicKeypairFromHeight height).sec (1 + nodes.length) = some govKey)
    (hdev : outputKey env.crypto (env.devWallet hardForkVersion)
      (env.getDeterministicKeypairFromHeight height).sec (2 + nodes.length) = some devKey)
    (hnet : outputKey env.crypto (env.netWallet hardForkVersion)
      (env.getDeterministicKeypairFromHeight height).sec (3 + nodes.length) = some netKey)
    (hfunds : checked.gov = parts.gov ∧ checked.dev = parts.dev ∧ checked.net = parts.net)
    (htype : tx.txType = .standard) (hversion : tx.version = getMaxVersionForHf hardForkVersion) :
    checkFunds env tx height hardForkVersion checked = .ok () := by
  have hlength : tx.vout.length = nodes.length + 4 := by rw [hvout, length_rewardOutputs]
  have hfund : ∀ k, tx.vout[1 + nodes.length + k]? = ([⟨parts.gov, .toKey govKey⟩,
      ⟨parts.dev, .toKey devKey⟩, ⟨parts.net, .toKey netKey⟩] : List TxOut)[k]? := by
    intro k
    have hbefore : (⟨parts.minerReward, .toKey minerKey⟩ :: nodes : List TxOut).length =
        1 + nodes.length := Nat.add_comm _ _
    rw [hvout, rewardOutputs, getElem?_append_right (by omega), hbefore, Nat.add_sub_cancel_left]
  have hgovOk := checkFundOutput_eq_ok (by omega : tx.vout.length = 1 + nodes.length + 3)
    (hfund 0) hgov
  have hdevOk := checkFundOutput_eq_ok (by omega : tx.vout.length = 2 + nodes.length + 2)
    ((by omega : 2 + nodes.length = 1 + nodes.length + 1) ▸ hfund 1) hdev
  have hnetOk := checkFundOutput_eq_ok (by omega : tx.vout.length = 3 + nodes.length + 1)
    ((by omega : 3 + nodes.length = 1 + nodes.length + 2) ▸ hfund 2) hnet
  have hversions : getMaxVersionForHf hardForkVersion = getMinVersionForHf hardForkVersion := by
    rw [getMaxVersionForHf, getMinVersionForHf, if_neg (by omega), if_neg (by omega)]
  rw [checkFunds, if_neg (by omega), hfunds.1, hfunds.2.1, hfunds.2.2, hgovOk, hdevOk, hnetOk]
  simp only [check, htype, hversion, hversions, le_refl, and_self, decide_true]
  rfl

/-- The parts of a base reward in the naturals. -/
theorem splitBaseReward_spec (baseReward : UInt64) (context : BlockRewardContext)
    (hportions : WithinWhole context.serviceNodePayouts) (hfork : 16 ≤ hardForkVersion) :
    (splitBaseReward hardForkVersion baseReward context).serviceNodeTotal.toNat =
        baseReward.toNat / 2 ∧
      (splitBaseReward hardForkVersion baseReward context).baseMiner.toNat +
        (splitBaseReward hardForkVersion baseReward context).serviceNodePaid.toNat =
        baseReward.toNat := by
  have htotal : (splitBaseReward hardForkVersion baseReward context).serviceNodeTotal.toNat =
      baseReward.toNat / 2 := by
    simp only [splitBaseReward, serviceNodeRewardFormula, if_pos hfork, UInt64.toNat_div]
    rfl
  have hpaid : (splitBaseReward hardForkVersion baseReward context).serviceNodePaid.toNat ≤
      (splitBaseReward hardForkVersion baseReward context).serviceNodeTotal.toNat := by
    have hsum := hportions.toNat_sum
      (splitBaseReward hardForkVersion baseReward context).serviceNodeTotal
    exact hsum.trans_le (hportions.sum_portions_le _)
  refine ⟨htotal, ?_⟩
  have hminer : (splitBaseReward hardForkVersion baseReward context).baseMiner.toNat =
      baseReward.toNat -
        (splitBaseReward hardForkVersion baseReward context).serviceNodePaid.toNat :=
    toNat_sub_of_le (hpaid.trans (htotal.trans_le (Nat.div_le_self _ 2)))
  omega

theorem checkTotal_eq_ok
    (hsum : sumAmounts vout =
      parts.minerReward + parts.serviceNodePaid + parts.gov + parts.dev + parts.net)
    (hfee : parts.baseMinerFee = fee)
    (hbase : parts.baseMiner.toNat + parts.serviceNodePaid.toNat = baseReward.toNat)
    (hchecked : checked.baseMiner.toNat + checked.serviceNodePaid.toNat = baseReward.toNat)
    (hfunds : checked.gov = parts.gov ∧ checked.dev = parts.dev ∧ checked.net = parts.net)
    (hlt : baseReward.toNat + fee.toNat + parts.gov.toNat + parts.dev.toNat + parts.net.toNat +
      1 < 2 ^ 64) :
    (sumAmounts vout).toNat = baseReward.toNat + fee.toNat + parts.gov.toNat + parts.dev.toNat +
        parts.net.toNat ∧
      checkTotal vout fee checked = .ok (sumAmounts vout - fee) := by
  have hminer : parts.minerReward.toNat = parts.baseMiner.toNat + fee.toNat := by
    rw [BlockRewardParts.minerReward, hfee]
    exact toNat_add_of_lt (by omega)
  have htotal : (sumAmounts vout).toNat = baseReward.toNat + fee.toNat + parts.gov.toNat +
      parts.dev.toNat + parts.net.toNat := by
    have hadd := toNat_sum_of_lt (a := parts.minerReward)
      (l := [parts.serviceNodePaid, parts.gov, parts.dev, parts.net]) (by
        simp only [map_cons, map_nil, sum_cons, sum_nil]
        omega)
    simp only [map_cons, map_nil, sum_cons, sum_nil] at hadd
    rw [hsum]
    exact hadd.trans (by omega)
  have hmax : (checked.baseMiner + checked.net + checked.gov + checked.dev +
      checked.serviceNodePaid + 1 + fee).toNat = baseReward.toNat + fee.toNat +
      parts.gov.toNat + parts.dev.toNat + parts.net.toNat + 1 := by
    have hone : (1 : UInt64).toNat = 1 := rfl
    have hadd := toNat_sum_of_lt (a := checked.baseMiner)
      (l := [parts.net, parts.gov, parts.dev, checked.serviceNodePaid, 1, fee]) (by
        simp only [map_cons, map_nil, sum_cons, sum_nil]
        omega)
    simp only [map_cons, map_nil, sum_cons, sum_nil] at hadd
    rw [hfunds.1, hfunds.2.1, hfunds.2.2]
    exact hadd.trans (by omega)
  refine ⟨htotal, ?_⟩
  have hwithin : sumAmounts vout ≤ checked.baseMiner + checked.net + checked.gov + checked.dev +
      checked.serviceNodePaid + 1 + fee := UInt64.le_iff_toNat_le.mpr (by omega)
  have hfeeLe : fee ≤ sumAmounts vout := UInt64.le_iff_toNat_le.mpr (by omega)
  simp only [checkTotal, check, hwithin, hfeeLe, decide_true]
  rfl

/-- From version 16 on, with a base reward and coins that are not zero and keys that can be
derived, the construction succeeds and its outputs add up to the announced reward. The checks
of the outputs accept it with the same parts of the reward, and in the validation of a block
only the checks of a Pulse certificate are left to fail. -/
theorem coinbase_conservation (env : CoinbaseEnv) (height hardForkVersion : ℕ)
    (medianWeight weight medianWeight' weight' : ℕ) (baseReward fee coins : UInt64)
    (minerAddress : AccountPublicAddress) (extraNonce : List UInt8) (context : MinerTxContext)
    (txkey : Keypair) (hfork : 16 ≤ hardForkVersion)
    (hbase : env.getBaseBlockReward medianWeight weight coins hardForkVersion height =
      some baseReward)
    (hbase' : env.getBaseBlockReward medianWeight' weight' coins hardForkVersion height =
      some baseReward)
    (hpos : baseReward ≠ 0) (hcoins : coins ≠ 0)
    (hnonce : extraNonce.length ≤ txExtraNonceMaxCount)
    (hkeys : KeysDerivable env height hardForkVersion minerAddress context.blockWinner.payouts
      txkey)
    (hportions : WithinWhole context.blockWinner.payouts) (parts : BlockRewardParts)
    (hparts : parts = splitBaseReward hardForkVersion baseReward
      { height, fee, serviceNodePayouts := context.blockWinner.payouts })
    (hsum : baseReward.toNat + fee.toNat + parts.gov.toNat + parts.dev.toNat + parts.net.toNat +
      1 < 2 ^ 64) :
    ∃ tx, constructMinerTx env height medianWeight coins weight fee minerAddress extraNonce
        hardForkVersion context txkey = some tx ∧
      (tx.vout.map fun out => out.amount.toNat) =
        (parts.baseMiner.toNat + fee.toNat) ::
          (context.blockWinner.payouts.map fun payout => parts.serviceNodeTotal.toNat *
            payout.portions.toNat / stakingShareParts.toNat) ++
          [parts.gov.toNat, parts.dev.toNat, parts.net.toNat] ∧
      (tx.vout.map fun out => out.amount.toNat).sum =
        parts.baseMiner.toNat + parts.serviceNodePaid.toNat + parts.gov.toNat +
          parts.dev.toNat + parts.net.toNat + fee.toNat ∧
      checkServiceNodeOutputs env context.blockWinner tx height hardForkVersion parts = .ok () ∧
      checkFunds env tx height hardForkVersion parts = .ok () ∧
      checkTotal tx.vout fee parts = .ok (sumAmounts tx.vout - fee) ∧
      ∀ (activePubs : List PublicKey) (parentTimestamp : ℕ) (b : Block), b.minerTx = tx →
        validateMinerTransaction env context.blockWinner activePubs parentTimestamp b medianWeight'
            weight' fee coins hardForkVersion = do
          checkPulseCertificate env.crypto activePubs b.prevId tx height hardForkVersion
          checkPulsePayload env.crypto parentTimestamp b hardForkVersion
          return sumAmounts tx.vout - fee := by
  have hreward : getArqmaBlockReward env medianWeight weight coins hardForkVersion
      { height, fee, serviceNodePayouts := context.blockWinner.payouts } = some parts := by
    rw [hparts]
    exact getArqmaBlockReward_eq hbase hpos hcoins
  have hpaid : parts.serviceNodePaid =
      calculateSumOfPortions context.blockWinner.payouts parts.serviceNodeTotal := by
    rw [hparts]
    rfl
  have hfee : parts.baseMinerFee = fee := by
    rw [hparts]
    rfl
  have hnodeTotal : serviceNodeRewardFormula baseReward hardForkVersion =
      parts.serviceNodeTotal := by
    rw [hparts]
    rfl
  have hsplit : parts.baseMiner.toNat + parts.serviceNodePaid.toNat = baseReward.toNat := by
    rw [hparts]
    exact (splitBaseReward_spec baseReward _ hportions hfork).2
  obtain ⟨tx, minerKey, nodes, govKey, devKey, netKey, hconstruct, hnodes, hgov, hdev, hnet,
    hvout, hvin, htype, hversion, hwinner⟩ :=
    constructMinerTx_eq hfork hnonce hreward hpaid hkeys
  have hamounts := payoutOutputs_amounts hnodes
  have hamount := sumAmounts_rewardOutputs hamounts hpaid minerKey govKey devKey netKey
  rw [← hvout] at hamount
  -- What the producer's parts and the verifier's own ones share is enough for every check.
  have hchecks : ∀ checked : BlockRewardParts, checked.originalBaseReward = baseReward →
      checked.baseMiner.toNat + checked.serviceNodePaid.toNat = baseReward.toNat →
      checked.gov = parts.gov ∧ checked.dev = parts.dev ∧ checked.net = parts.net →
      checkServiceNodeOutputs env context.blockWinner tx height hardForkVersion checked = .ok () ∧
        checkFunds env tx height hardForkVersion checked = .ok () ∧
        checkTotal tx.vout fee checked = .ok (sumAmounts tx.vout - fee) := by
    intro checked horiginal hchecked hfunds
    refine ⟨checkServiceNodeOutputs_rewardOutputs ?_ hnodes hvout hwinner,
      checkFunds_rewardOutputs hfork hvout hgov hdev hnet hfunds htype hversion,
      (checkTotal_eq_ok hamount hfee hsplit hchecked hfunds hsum).2⟩
    rw [horiginal, hnodeTotal]
  obtain ⟨hnodesOk, hfundsOk, htotalOk⟩ := hchecks parts (by rw [hparts]; rfl) hsplit
    ⟨rfl, rfl, rfl⟩
  have hminer : parts.minerReward.toNat = parts.baseMiner.toNat + fee.toNat := by
    rw [BlockRewardParts.minerReward, hfee]
    exact toNat_add_of_lt (by omega)
  have houts : (tx.vout.map fun out => out.amount.toNat) =
      (parts.baseMiner.toNat + fee.toNat) ::
        (context.blockWinner.payouts.map fun payout => parts.serviceNodeTotal.toNat *
          payout.portions.toNat / stakingShareParts.toNat) ++
        [parts.gov.toNat, parts.dev.toNat, parts.net.toNat] := by
    rw [hvout, rewardOutputs, map_append, map_cons, hportions.amounts hamounts, hminer]
    rfl
  refine ⟨tx, hconstruct, houts, ?_, hnodesOk, hfundsOk, htotalOk, ?_⟩
  · have hpayouts : (context.blockWinner.payouts.map fun payout =>
        parts.serviceNodeTotal.toNat * payout.portions.toNat / stakingShareParts.toNat).sum =
        parts.serviceNodePaid.toNat := by
      rw [hpaid, hportions.toNat_sum]
      exact congrArg List.sum (map_congr_left fun payout hmem =>
        (hportions.toNat_portion hmem parts.serviceNodeTotal).symm)
    rw [houts, sum_append, sum_cons, hpayouts]
    simp only [sum_cons, sum_nil]
    omega
  · intro activePubs parentTimestamp b hb
    have hheight : getBlockHeight b = height := by
      rw [getBlockHeight, hb, hvin]
    obtain ⟨hownNodes, hownFunds, hownTotal⟩ := hchecks
      (splitBaseReward hardForkVersion baseReward { height, fee }) rfl
      (splitBaseReward_spec baseReward { height, fee } withinWhole_nullBlockWinner hfork).2
      (by rw [hparts]; exact ⟨rfl, rfl, rfl⟩)
    have hne : tx.vout ≠ [] := by
      rw [hvout]
      exact cons_ne_nil _ _
    have hownReward : getArqmaBlockReward env medianWeight' weight' coins hardForkVersion
        { height, fee } = some (splitBaseReward hardForkVersion baseReward { height, fee }) :=
      getArqmaBlockReward_eq hbase' hpos hcoins
    have hnotOld : ¬ hardForkVersion < 16 := not_lt.mpr hfork
    simp only [validateMinerTransaction, validateMinerTx, hb, hheight, check, hne, hownReward,
      if_neg hnotOld, hownNodes, hownFunds, hownTotal, decide_true, ne_eq, not_false_eq_true,
      if_true]
    cases checkPulseCertificate env.crypto activePubs b.prevId tx height hardForkVersion with
    | error => rfl
    | ok =>
      cases checkPulsePayload env.crypto parentTimestamp b hardForkVersion with
      | error => rfl
      | ok => rfl

end Verification

section Sample

/-- The reward that is paid from version 16 on. -/
def fork16Env : CoinbaseEnv where
  crypto := Pulse.sampleCrypto
  getBaseBlockReward _ _ _ _ _ := some (20 * arqma)
  getDeterministicKeypairFromHeight height := ⟨0, BitVec.ofNat 256 height⟩
  govWallet _ := ⟨11, 12⟩
  devWallet _ := ⟨13, 14⟩
  netWallet _ := ⟨15, 16⟩

/-- Nothing is derived for the null address. -/
def strictCrypto : Crypto :=
  { Pulse.sampleCrypto with
    generateKeyDerivation := fun key _ => if key = 0 then none else some 0 }

/-- A winner with two contributors. -/
def sharedWinner : BlockWinner where
  key := 9
  payouts := [⟨⟨1, 2⟩, 0x7ffffffffffffffe⟩, ⟨⟨3, 4⟩, 0x4000000000000001⟩]

theorem sharedWinner_coinbase :
    ∃ tx, constructMinerTx fork16Env 100 0 1 0 7 ⟨5, 6⟩ [] 16 { blockWinner := sharedWinner }
        ⟨7, 8⟩ = some tx ∧ (tx.vout.map fun out => out.amount.toNat).sum = 29000000007 := by
  have hkeys : KeysDerivable fork16Env 100 16 ⟨5, 6⟩ sharedWinner.payouts ⟨7, 8⟩ :=
    ⟨rfl, fun _ _ _ => rfl, rfl, rfl, rfl⟩
  have hportions : WithinWhole sharedWinner.payouts := by
    simp [WithinWhole, sharedWinner, stakingShareParts]
  obtain ⟨tx, hconstruct, -, hsum, -⟩ := coinbase_conservation fork16Env 100 16 0 0 0 0
    (20 * arqma) 7 1 ⟨5, 6⟩ [] { blockWinner := sharedWinner } ⟨7, 8⟩ (by decide) rfl rfl
    (by decide) (by decide) (by decide) hkeys hportions _ rfl (by decide +kernel)
  refine ⟨tx, hconstruct, hsum.trans ?_⟩
  decide +kernel

/-- All of the base reward goes to the miner. -/
def coinlessParts : BlockRewardParts where
  originalBaseReward := 20 * arqma
  adjustedBaseReward := 20 * arqma
  baseMiner := 20 * arqma

/-- With no coins generated so far the nodes and the fee are not paid, and the hook of the
service node list refuses the transaction against the same parts. A zero base reward, an
address no key can be derived for and a long nonce make the construction fail. -/
theorem coinbase_refused :
    getArqmaBlockReward fork16Env 0 0 0 16 { height := 100, fee := 7 } =
        some coinlessParts ∧
      (constructMinerTx fork16Env 100 0 0 0 7 ⟨5, 6⟩ [] 16 {} ⟨7, 8⟩).map (fun tx =>
          (tx.vout.map TxOut.amount,
            checkServiceNodeOutputs fork16Env nullBlockWinner tx 100 16 coinlessParts)) =
        some ([20 * arqma, 0, 0, 0, 0], .error .payoutAmount) ∧
      constructMinerTx { fork16Env with getBaseBlockReward := fun _ _ _ _ _ => some 0 } 100 0 1 0 7
        ⟨5, 6⟩ [] 16 {} ⟨7, 8⟩ = none ∧
      constructMinerTx { fork16Env with crypto := strictCrypto } 100 0 1 0 7 ⟨5, 6⟩ [] 16 {}
        ⟨7, 8⟩ = none ∧
      constructMinerTx fork16Env 100 0 1 0 7 ⟨5, 6⟩ (List.replicate 256 0) 16 {} ⟨7, 8⟩ = none := by
  decide +kernel

end Sample

end Arqma.Cryptonote
