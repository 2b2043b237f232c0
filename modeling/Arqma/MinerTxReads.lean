import Arqma.Coinbase

/-!
# The outputs that the checks of a miner transaction read

The checks again, with their reads of `vout` as accesses that may be out of range and with the
number of outputs in 64 bits. The three funds are counted from the end, and the number of outputs
is only compared with that of the payouts after three have been subtracted from it, so one or two
outputs look like very many.
-/
namespace Arqma.Cryptonote
open Arqma.ServiceNodes Checked

variable {wallet : AccountPublicAddress} {payouts : List PayoutEntry} {c : MinerTxCheck}
  {out : TxOut} {total : UInt64} {payout : PayoutEntry} {i : ℕ} {amount : UInt64}
  {reward : UInt64} {fromEnd : ℕ} {winner : BlockWinner}

section Prevalidate

/-- The amounts from a sum on do not overflow. -/
def checkOutsOverflow : UInt64 → List TxOut → Bool
  | _, [] => true
  | money, out :: vout =>
    if out.amount + money < money then false else checkOutsOverflow (money + out.amount) vout

def blockUnlockConfirmations : UInt64 := 18

/-- With the unlock time, which the transactions of the model do not keep. -/
def prevalidateMinerTransaction (b : Block) (unlockTime height : UInt64) (hardForkVersion : ℕ) :
    Bool :=
  match b.minerTx.vin with
  | [.gen h] =>
    (2 < b.minerTx.version ∨ hardForkVersion < 16) ∧
      (16 ≤ hardForkVersion ∧ 3 ≤ b.minerTx.version → b.minerTx.rctSignatures.type = .null) ∧
      h = height.toNat ∧ unlockTime = height + blockUnlockConfirmations ∧
      checkOutsOverflow 0 b.minerTx.vout
  | _ => false

end Prevalidate

section Validate

abbrev Validation := ExceptT MinerTxError Checked

/-- A check that reads no output. -/
def Validation.of {α : Type} (r : Except MinerTxError α) : Validation α := ExceptT.mk (.ok r)

/-- The check ends with a verdict. -/
def Validation.NoFault {α : Type} (x : Validation α) : Prop := ∃ r, x = .of r

def readOutput (vout : List TxOut) (i : ℕ) : Validation TxOut :=
  ExceptT.mk (Except.ok <$> Checked.entry vout i)

/-- Subtraction of sizes, which wraps around. -/
def sizeSub (m n : ℕ) : ℕ := (m + 2 ^ 64 - n) % 2 ^ 64

variable (env : CoinbaseEnv)

def checkPayout (height : ℕ) (total : UInt64) (voutIndex : ℕ) (payout : PayoutEntry)
    (out : TxOut) : Except MinerTxError Unit := do
  check (withinOne out.amount (getPortionOfReward payout.portions total)) .payoutAmount
  let sec := (env.getDeterministicKeypairFromHeight height).sec
  match out.target with
  | .toKey key => check (outputKey env.crypto payout.address sec voutIndex = some key) .payoutKey
  | _ => .error .payoutTarget

def checkedPayouts (height : ℕ) (total : UInt64) (vout : List TxOut) :
    ℕ → List PayoutEntry → Validation Unit
  | _, [] => pure ()
  | i, payout :: payouts => do
    let out ← readOutput vout (i + 1)
    .of (checkPayout env height total (i + 1) payout out)
    checkedPayouts height total vout (i + 1) payouts

def checkedServiceNodeOutputs (winner : BlockWinner) (minerTx : Transaction)
    (height hardForkVersion : ℕ) (parts : BlockRewardParts) : Validation Unit := do
  let total := serviceNodeRewardFormula parts.originalBaseReward hardForkVersion
  .of (check (winner.key = getServiceNodeWinnerFromTxExtra minerTx.extra) .wrongWinner)
  .of (check (winner.payouts.length ≤ sizeSub minerTx.vout.length 3) .tooFewOutputs)
  checkedPayouts env height total minerTx.vout 0 winner.payouts

def checkedValidateMinerTx (winner : BlockWinner) (activePubs : List PublicKey) (prevId : Hash)
    (minerTx : Transaction) (height hardForkVersion : ℕ) (parts : BlockRewardParts) :
    Validation Unit :=
  if hardForkVersion < 16 then pure ()
  else do
    checkedServiceNodeOutputs env winner minerTx height hardForkVersion parts
    .of (checkPulseCertificate env.crypto activePubs prevId minerTx height hardForkVersion)

/-- The key of an output of another kind is an exception. -/
def checkFund (height : ℕ) (wallet : AccountPublicAddress) (amount : UInt64) (voutIndex : ℕ)
    (out : TxOut) : Except MinerTxError Unit := do
  check (out.amount = amount) .fundAmount
  let sec := (env.getDeterministicKeypairFromHeight height).sec
  match out.target with
  | .toKey key => check (outputKey env.crypto wallet sec voutIndex = some key) .fundKey
  | _ => .error .undefinedRead

def checkedFundOutput (height : ℕ) (wallet : AccountPublicAddress) (amount : UInt64)
    (vout : List TxOut) (fromEnd : ℕ) : Validation Unit := do
  let out ← readOutput vout (sizeSub vout.length fromEnd)
  .of (checkFund env height wallet amount (sizeSub vout.length fromEnd) out)

def checkedFunds (minerTx : Transaction) (height hardForkVersion : ℕ) (parts : BlockRewardParts) :
    Validation Unit :=
  if hardForkVersion < 16 then pure ()
  else do
    checkedFundOutput env height (env.govWallet hardForkVersion) parts.gov minerTx.vout 3
    checkedFundOutput env height (env.devWallet hardForkVersion) parts.dev minerTx.vout 2
    checkedFundOutput env height (env.netWallet hardForkVersion) parts.net minerTx.vout 1
    .of (check (minerTx.txType = .standard) .txType)
    .of (check (getMaxVersionForHf hardForkVersion ≤ minerTx.version ∧
      minerTx.version ≤ getMinVersionForHf hardForkVersion) .txVersion)

/-- What a block and its miner transaction are checked against. -/
structure MinerTxCheck where
  env : CoinbaseEnv
  winner : BlockWinner
  activePubs : List PublicKey := []
  parentTimestamp : ℕ := 0
  block : Block
  unlockTime : UInt64
  height : UInt64
  medianWeight : ℕ := 0
  cumulativeBlockWeight : ℕ := 0
  fee : UInt64 := 0
  alreadyGeneratedCoins : UInt64
  hardForkVersion : ℕ

def MinerTxCheck.prevalidated (c : MinerTxCheck) : Bool :=
  prevalidateMinerTransaction c.block c.unlockTime c.height c.hardForkVersion

/-- `validate_miner_transaction` with its reads. -/
def MinerTxCheck.validate (c : MinerTxCheck) : Validation UInt64 := do
  .of (check (c.block.minerTx.vout ≠ []) .noOutputs)
  let height := getBlockHeight c.block
  let parts ← .of ((getArqmaBlockReward c.env c.medianWeight c.cumulativeBlockWeight
    c.alreadyGeneratedCoins c.hardForkVersion { height, fee := c.fee }).elim
      (.error .noReward) .ok)
  checkedValidateMinerTx c.env c.winner c.activePubs c.block.prevId c.block.minerTx height
    c.hardForkVersion parts
  .of (checkPulsePayload c.env.crypto c.parentTimestamp c.block c.hardForkVersion)
  checkedFunds c.env c.block.minerTx height c.hardForkVersion parts
  .of (checkTotal c.block.minerTx.vout c.fee parts)

/-- The same check without the reads. -/
def MinerTxCheck.verdict (c : MinerTxCheck) : Except MinerTxError UInt64 :=
  validateMinerTransaction c.env c.winner c.activePubs c.parentTimestamp c.block c.medianWeight
    c.cumulativeBlockWeight c.fee c.alreadyGeneratedCoins c.hardForkVersion

end Validate

section Agreement

variable {env : CoinbaseEnv} {α β : Type}

theorem sizeSub_of_le {m n : ℕ} (h : n ≤ m) (hm : m < 2 ^ 64) : sizeSub m n = m - n := by
  unfold sizeSub
  omega

theorem sizeSub_of_lt {m n : ℕ} (h : m < n) : sizeSub m n = m + 2 ^ 64 - n := by
  unfold sizeSub
  omega

theorem of_bind {r : Except MinerTxError α} {f : α → Validation β} {g : α → Except MinerTxError β}
    (h : ∀ a, r = .ok a → f a = .of (g a)) : (Validation.of r >>= f) = .of (r >>= g) := by
  cases r with
  | error e => rfl
  | ok a => exact h a rfl

theorem check_eq_ok {condition : Bool} {error : MinerTxError} {u : Unit}
    (h : check condition error = .ok u) : condition = true := by
  unfold check at h
  split_ifs at h with hc
  exact hc

theorem check_of {condition : Bool} (h : condition = true) (error : MinerTxError) :
    check condition error = .ok () := if_pos h

variable {vout : List TxOut} {height : ℕ} {minerTx : Transaction} {hardForkVersion : ℕ}
  {parts : BlockRewardParts}

theorem readOutput_bind (h : vout[i]? = some out) (f : TxOut → Validation β) :
    (readOutput vout i >>= f) = f out := by
  have hread : readOutput vout i = ExceptT.mk (.ok (.ok out)) := by
    rw [readOutput, entry_eq_ok h]
    rfl
  rw [hread]
  rfl

theorem checkPayouts_cons (h : vout[i + 1]? = some out) :
    checkPayouts env height total vout i (payout :: payouts) =
      checkPayout env height total (i + 1) payout out >>= fun _ =>
        checkPayouts env height total vout (i + 1) payouts := by
  conv_lhs => unfold checkPayouts
  rw [h, checkPayout, bind_assoc]
  obtain ⟨amount, target⟩ := out
  cases target <;> rfl

/-- The reads of the payouts are in range if their number was compared correctly. -/
theorem checkedPayouts_eq (h : i + payouts.length < vout.length) :
    checkedPayouts env height total vout i payouts =
      .of (checkPayouts env height total vout i payouts) := by
  induction payouts generalizing i with
  | nil => rfl
  | cons payout payouts ih =>
    grind [checkPayouts, checkedPayouts, readOutput_bind, checkPayouts_cons, of_bind]

theorem checkedServiceNodeOutputs_eq (hmany : 3 ≤ minerTx.vout.length)
    (hsize : minerTx.vout.length < 2 ^ 64) :
    checkedServiceNodeOutputs env winner minerTx height hardForkVersion parts =
      .of (checkServiceNodeOutputs env winner minerTx height hardForkVersion parts) := by
  unfold checkedServiceNodeOutputs checkServiceNodeOutputs
  grind [check, sizeSub_of_le, of_bind, checkedPayouts_eq]

theorem checkedValidateMinerTx_eq {activePubs : List PublicKey}
    {prevId : Hash} (hmany : 3 ≤ minerTx.vout.length) (hsize : minerTx.vout.length < 2 ^ 64) :
    checkedValidateMinerTx env winner activePubs prevId minerTx height hardForkVersion parts =
      .of (validateMinerTx env winner activePubs prevId minerTx height hardForkVersion parts) := by
  unfold checkedValidateMinerTx validateMinerTx
  split_ifs with hold
  · rfl
  · rw [checkedServiceNodeOutputs_eq hmany hsize]
    exact of_bind fun _ _ => rfl

theorem checkedFundOutput_eq (hpos : 0 < fromEnd)
    (hmany : fromEnd ≤ vout.length) (hsize : vout.length < 2 ^ 64) :
    checkedFundOutput env height wallet amount vout fromEnd =
      .of (checkFundOutput env height wallet amount vout fromEnd) := by
  obtain ⟨out, hout⟩ : ∃ out, vout[vout.length - fromEnd]? = some out :=
    ⟨_, List.getElem?_eq_getElem (show vout.length - fromEnd < vout.length by omega)⟩
  unfold checkedFundOutput checkFundOutput
  rw [sizeSub_of_le hmany hsize, readOutput_bind hout, if_neg (by omega), hout]
  rfl

theorem checkedFunds_eq (hmany : 3 ≤ minerTx.vout.length) (hsize : minerTx.vout.length < 2 ^ 64) :
    checkedFunds env minerTx height hardForkVersion parts =
      .of (checkFunds env minerTx height hardForkVersion parts) := by
  unfold checkedFunds checkFunds
  split_ifs with hold
  · rfl
  · rw [checkedFundOutput_eq (by norm_num) hmany hsize,
      checkedFundOutput_eq (by norm_num) (by omega) hsize,
      checkedFundOutput_eq (by norm_num) (by omega) hsize]
    exact of_bind fun _ _ => of_bind fun _ _ => of_bind fun _ _ => of_bind fun _ _ => rfl

/-- With no output or with at least three the reads make no difference. -/
theorem MinerTxCheck.validate_eq (h : c.block.minerTx.vout = [] ∨ 3 ≤ c.block.minerTx.vout.length)
    (hsize : c.block.minerTx.vout.length < 2 ^ 64) : c.validate = .of c.verdict := by
  unfold MinerTxCheck.validate MinerTxCheck.verdict validateMinerTransaction
  refine of_bind fun _ hok => ?_
  have hmany := h.resolve_left (of_decide_eq_true (check_eq_ok hok))
  dsimp only
  cases getArqmaBlockReward c.env c.medianWeight c.cumulativeBlockWeight c.alreadyGeneratedCoins
    c.hardForkVersion { height := getBlockHeight c.block, fee := c.fee } with
  | none => rfl
  | some parts =>
    show (checkedValidateMinerTx c.env c.winner c.activePubs c.block.prevId c.block.minerTx _
      c.hardForkVersion parts >>= _) = _
    rw [checkedValidateMinerTx_eq hmany hsize, checkedFunds_eq hmany hsize]
    exact of_bind fun _ _ => of_bind fun _ _ => of_bind fun _ _ => rfl

end Agreement

section Accepted

variable {env : CoinbaseEnv}

variable {vout : List TxOut} {height : ℕ}

theorem readOutput_eq_ok (h : (readOutput vout i).run = .ok (.ok out)) : vout[i]? = some out := by
  unfold readOutput Checked.entry at h
  cases hread : vout[i]? with
  | none =>
    rw [hread] at h
    cases h
  | some found =>
    rw [hread] at h
    exact congrArg some (Except.ok.inj (Except.ok.inj h))

/-- A fund is read in range only if there are enough outputs. -/
theorem checkedFundOutput_accepts (hsize : vout.length < 2 ^ 64)
    (hend : fromEnd ≤ 2 ^ 63)
    (h : (checkedFundOutput env height wallet amount vout fromEnd).run = .ok (.ok ())) :
    fromEnd ≤ vout.length := by
  obtain ⟨out, hread, -⟩ := run_bind_eq_ok.mp h
  obtain ⟨hlt, -⟩ := List.getElem?_eq_some_iff.mp (readOutput_eq_ok hread)
  by_contra hfew
  rw [sizeSub_of_lt (by omega)] at hlt
  omega

theorem MinerTxCheck.three_le_of_accepts (hfork : 16 ≤ c.hardForkVersion)
    (hsize : c.block.minerTx.vout.length < 2 ^ 64) (h : c.validate = .of (.ok reward)) :
    3 ≤ c.block.minerTx.vout.length := by
  have hrun : c.validate.run = .ok (.ok reward) := by
    rw [h]
    rfl
  obtain ⟨⟨⟩, -, hrun⟩ := run_bind_eq_ok.mp hrun
  obtain ⟨parts, -, hrun⟩ := run_bind_eq_ok.mp hrun
  obtain ⟨⟨⟩, -, hrun⟩ := run_bind_eq_ok.mp hrun
  obtain ⟨⟨⟩, -, hrun⟩ := run_bind_eq_ok.mp hrun
  obtain ⟨⟨⟩, hfunds, -⟩ := run_bind_eq_ok.mp hrun
  unfold checkedFunds at hfunds
  rw [if_neg (by omega)] at hfunds
  obtain ⟨⟨⟩, hgov, -⟩ := run_bind_eq_ok.mp hfunds
  exact checkedFundOutput_accepts hsize (by norm_num) hgov

theorem except_bind_eq_ok {α β : Type} {r : Except MinerTxError α} {f : α → Except MinerTxError β}
    {b : β} (h : r >>= f = .ok b) :
    ∃ a, r = .ok a ∧ f a = .ok b := by
  cases r with
  | error e => cases h
  | ok a => exact ⟨a, rfl, h⟩

theorem bind_of_ok {α β : Type} {r : Except MinerTxError α} {a : α} (h : r = .ok a)
    (f : α → Except MinerTxError β) : r >>= f = f a := by
  rw [h]
  rfl

/-- Every payout has an output of its own key. -/
theorem checkPayouts_eq_ok (h : checkPayouts env height total vout i payouts = .ok ()) {j : ℕ}
    (hpayout : payouts[j]? = some payout) :
    ∃ out, vout[i + j + 1]? = some out ∧
      checkPayout env height total (i + j + 1) payout out = .ok () := by
  induction payouts generalizing i j with
  | nil => cases hpayout
  | cons first payouts ih =>
    cases hread : vout[i + 1]? with
    | none =>
      unfold checkPayouts at h
      simp only [hread] at h
      cases h
    | some out =>
      rw [checkPayouts_cons hread] at h
      obtain ⟨⟨⟩, hfirst, hrest⟩ := except_bind_eq_ok h
      cases j <;> grind

/-- The payouts pass if each has its output. -/
theorem checkPayouts_of_forall
    (h : ∀ j payout, payouts[j]? = some payout →
      ∃ out, vout[i + j + 1]? = some out ∧
        checkPayout env height total (i + j + 1) payout out = .ok ()) :
    checkPayouts env height total vout i payouts = .ok () := by
  induction payouts generalizing i with
  | nil => rfl
  | cons first payouts ih =>
    obtain ⟨out, hout, hfirst⟩ := h 0 first rfl
    rw [checkPayouts_cons hout, bind_of_ok hfirst]
    refine ih fun j payout hpayout => ?_
    rw [Nat.add_right_comm i 1 j]
    exact h (j + 1) payout hpayout

/-- The service nodes' share, as the check computes it. -/
def MinerTxCheck.nodesReward (c : MinerTxCheck) (parts : BlockRewardParts) : UInt64 :=
  serviceNodeRewardFormula parts.originalBaseReward c.hardForkVersion

def MinerTxCheck.parts (c : MinerTxCheck) : Option BlockRewardParts :=
  getArqmaBlockReward c.env c.medianWeight c.cumulativeBlockWeight c.alreadyGeneratedCoins
    c.hardForkVersion { height := getBlockHeight c.block, fee := c.fee }

/-- What the fields of a block have to be: the outputs from the second on pay the winner, the last
three the funds. -/
structure MinerTxCheck.Fits (c : MinerTxCheck) (parts : BlockRewardParts) : Prop where
  winner : c.winner.key = getServiceNodeWinnerFromTxExtra c.block.minerTx.extra
  payouts : ∀ j payout, c.winner.payouts[j]? = some payout →
    ∃ out, c.block.minerTx.vout[0 + j + 1]? = some out ∧
      checkPayout c.env (getBlockHeight c.block) (c.nodesReward parts) (0 + j + 1) payout out =
        .ok ()
  funds : checkFunds c.env c.block.minerTx (getBlockHeight c.block) c.hardForkVersion parts = .ok ()
  certificate : checkPulseCertificate c.env.crypto c.activePubs c.block.prevId c.block.minerTx
    (getBlockHeight c.block) c.hardForkVersion = .ok ()
  payload : checkPulsePayload c.env.crypto c.parentTimestamp c.block c.hardForkVersion = .ok ()
  total : ∃ reward, checkTotal c.block.minerTx.vout c.fee parts = .ok reward

/-- The checks that an accepted transaction passed. -/
theorem MinerTxCheck.fits_of_verdict (hfork : 16 ≤ c.hardForkVersion)
    (hthree : 3 ≤ c.block.minerTx.vout.length) (h : c.verdict = .ok reward) :
    ∃ parts, c.parts = some parts ∧ c.Fits parts ∧
      c.winner.payouts.length + 3 ≤ c.block.minerTx.vout.length := by
  unfold MinerTxCheck.verdict validateMinerTransaction at h
  obtain ⟨⟨⟩, -, h⟩ := except_bind_eq_ok h
  dsimp only at h
  split at h
  · next parts hparts =>
    obtain ⟨⟨⟩, hhook, h⟩ := except_bind_eq_ok h
    obtain ⟨⟨⟩, hpayload, h⟩ := except_bind_eq_ok h
    obtain ⟨⟨⟩, hfunds, htotal⟩ := except_bind_eq_ok h
    unfold validateMinerTx at hhook
    rw [if_neg (by omega)] at hhook
    obtain ⟨⟨⟩, hnodes, hcertificate⟩ := except_bind_eq_ok hhook
    obtain ⟨⟨⟩, hwinner, hnodes⟩ := except_bind_eq_ok hnodes
    obtain ⟨⟨⟩, hcount, hpayouts⟩ := except_bind_eq_ok hnodes
    have hcount := of_decide_eq_true (check_eq_ok hcount)
    exact ⟨parts, hparts, ⟨of_decide_eq_true (check_eq_ok hwinner),
      fun _ _ => checkPayouts_eq_ok hpayouts, hfunds, hcertificate, hpayload, reward, htotal⟩,
      by omega⟩
  · cases h

/-- A block whose fields fit is accepted if it has an output for each payout and each fund. -/
theorem MinerTxCheck.Fits.verdict {parts : BlockRewardParts} (h : c.Fits parts)
    (hparts : c.parts = some parts) (hfork : 16 ≤ c.hardForkVersion)
    (hcount : c.winner.payouts.length + 3 ≤ c.block.minerTx.vout.length) :
    ∃ reward, c.verdict = .ok reward := by
  obtain ⟨reward, htotal⟩ := h.total
  have hsome : c.block.minerTx.vout ≠ [] := List.ne_nil_of_length_pos (by omega)
  have hnodes : checkServiceNodeOutputs c.env c.winner c.block.minerTx (getBlockHeight c.block)
      c.hardForkVersion parts = .ok () := by
    unfold checkServiceNodeOutputs
    dsimp only
    rw [bind_of_ok (check_of (decide_eq_true h.winner) _),
      bind_of_ok (check_of (decide_eq_true (.inr (by omega))) _)]
    exact checkPayouts_of_forall h.payouts
  have hhook : validateMinerTx c.env c.winner c.activePubs c.block.prevId c.block.minerTx
      (getBlockHeight c.block) c.hardForkVersion parts = .ok () := by
    rw [validateMinerTx, if_neg (by omega), bind_of_ok hnodes]
    exact h.certificate
  refine ⟨reward, ?_⟩
  unfold MinerTxCheck.verdict validateMinerTransaction
  rw [bind_of_ok (check_of (decide_eq_true hsome) _)]
  unfold MinerTxCheck.parts at hparts
  simp only [hparts]
  rw [bind_of_ok hhook, bind_of_ok h.payload, bind_of_ok h.funds]
  exact htotal

end Accepted

section Faults

variable {env : CoinbaseEnv} {α β : Type} {vout : List TxOut}

theorem noFault_of_bind {r : Except MinerTxError α} {f : α → Validation β} :
    (Validation.of r >>= f).NoFault ↔ ∀ a, r = .ok a → (f a).NoFault := by
  cases r with
  | error e => exact ⟨fun _ _ => nofun, fun _ => ⟨.error e, rfl⟩⟩
  | ok a => exact ⟨fun h _ ha => Except.ok.inj ha ▸ h, fun h => h a rfl⟩

theorem noFault_read_bind {f : TxOut → Validation β} :
    (readOutput vout i >>= f).NoFault ↔ ∃ out, vout[i]? = some out ∧ (f out).NoFault := by
  cases hread : vout[i]? with
  | none =>
    refine ⟨?_, fun ⟨_, hout, _⟩ => nomatch hout⟩
    rintro ⟨r, hr⟩
    have hfault : (readOutput vout i >>= f).run = .error .outOfRange := by
      unfold readOutput Checked.entry
      rw [hread]
      rfl
    rw [hr] at hfault
    cases hfault
  | some out =>
    rw [readOutput_bind hread]
    exact ⟨fun h => ⟨out, rfl, h⟩, fun ⟨_, hout, h⟩ => Option.some_inj.mp hout ▸ h⟩

/-- A block with one or two outputs is refused before an output that is not there is read: its
reward is too large, it names another winner, its second output is not that of the first payout,
or there are no more payouts and its Pulse field is wrong. -/
def MinerTxCheck.RefusedEarly (c : MinerTxCheck) : Prop :=
  ∀ parts, c.parts = some parts →
    c.winner.key = getServiceNodeWinnerFromTxExtra c.block.minerTx.extra →
    (∃ payout out, c.winner.payouts.head? = some payout ∧ c.block.minerTx.vout[1]? = some out ∧
      checkPayout c.env (getBlockHeight c.block) (c.nodesReward parts) 1 payout out ≠ .ok ()) ∨
    c.winner.payouts.length < c.block.minerTx.vout.length ∧
      (checkPulseCertificate c.env.crypto c.activePubs c.block.prevId c.block.minerTx
          (getBlockHeight c.block) c.hardForkVersion ≠ .ok () ∨
        checkPulsePayload c.env.crypto c.parentTimestamp c.block c.hardForkVersion ≠ .ok ())

/-- After the payouts of a short block nothing but the Pulse field keeps the checks from the
funds. -/
theorem noFault_payouts_iff {height : ℕ} {rest : Validation β} (hsome : vout ≠ [])
    (hshort : vout.length < 3) :
    (checkedPayouts env height total vout 0 payouts >>= fun _ => rest).NoFault ↔
      (∃ payout out, payouts.head? = some payout ∧ vout[1]? = some out ∧
        checkPayout env height total 1 payout out ≠ .ok ()) ∨
      payouts.length < vout.length ∧ rest.NoFault := by
  have hpos := List.length_pos_iff.mpr hsome
  cases payouts with
  | nil => simp [checkedPayouts, hpos]
  | cons first payouts =>
    simp only [checkedPayouts, bind_assoc, noFault_read_bind, noFault_of_bind, zero_add]
    cases hsecond : vout[1]? with
    | none =>
      have hone := List.getElem?_eq_none_iff.mp hsecond
      have hlong : ¬ payouts.length + 1 < vout.length := by omega
      simp [hlong]
    | some out =>
      have htwo := (List.getElem?_eq_some_iff.mp hsecond).1
      cases payouts with
      | nil =>
        by_cases hcheck : checkPayout env height total 1 first out = .ok () <;>
          simp [hcheck, checkedPayouts, htwo]
      | cons second payouts =>
        have hthird : vout[2]? = none := List.getElem?_eq_none_iff.mpr (by omega)
        have hlong : ¬ payouts.length + 1 + 1 < vout.length := by omega
        simp only [checkedPayouts, bind_assoc, noFault_read_bind, Nat.reduceAdd, hthird]
        simp only [Option.some.injEq, exists_eq_left', reduceCtorEq, false_and, exists_false,
          imp_false, List.head?_cons, List.length_cons, hlong, or_false]
        constructor
        · exact fun h => ⟨first, out, rfl, rfl, h ()⟩
        · rintro ⟨_, _, rfl, rfl, h⟩ ⟨⟩
          exact h

/-- A short block makes the checks read out of range unless it is refused before. -/
theorem MinerTxCheck.noFault_iff_refusedEarly (hfork : 16 ≤ c.hardForkVersion)
    (hpayouts : c.winner.payouts.length < 2 ^ 64 - 2) (hsome : c.block.minerTx.vout ≠ [])
    (hshort : c.block.minerTx.vout.length < 3) : c.validate.NoFault ↔ c.RefusedEarly := by
  have hpos := List.length_pos_iff.mpr hsome
  have hend : c.block.minerTx.vout[sizeSub c.block.minerTx.vout.length 3]? = none := by
    rw [sizeSub_of_lt hshort]
    exact List.getElem?_eq_none_iff.mpr (by omega)
  have hcount : c.winner.payouts.length ≤ sizeSub c.block.minerTx.vout.length 3 := by
    rw [sizeSub_of_lt hshort]
    omega
  have hold : ¬ c.hardForkVersion < 16 := by omega
  have hparts : ∀ parts, (c.parts.elim (Except.error MinerTxError.noReward) .ok) = .ok parts ↔
      c.parts = some parts := fun parts => by cases c.parts <;> simp
  unfold MinerTxCheck.parts at hparts
  unfold MinerTxCheck.validate checkedValidateMinerTx checkedServiceNodeOutputs checkedFunds
    checkedFundOutput MinerTxCheck.RefusedEarly
  simp only [hold, if_false, bind_assoc, noFault_of_bind, noFault_payouts_iff hsome hshort,
    noFault_read_bind, hend, hparts]
  simp [check, hsome, hcount, MinerTxCheck.nodesReward, MinerTxCheck.parts]
  refine forall_congr' fun parts => forall_congr' fun _ => forall_congr' fun _ =>
    or_congr Iff.rfl (and_congr Iff.rfl ?_)
  exact ⟨fun h => not_or_of_imp fun hcertificate => h () hcertificate (),
    fun h _ hcertificate _ hpayload => h.elim (· hcertificate) (· hpayload)⟩

end Faults

section Sample

/-- A block of height 100 that names the winner. -/
def coinbaseCheck (winner : BlockWinner) (vout : List TxOut) : MinerTxCheck where
  env := fork16Env
  winner
  block :=
    { majorVersion := 16
      minerTx := { vin := [.gen 100], vout, extra := [.serviceNodeWinner winner.key] }
      hash := 1 }
  unlockTime := 118
  height := 100
  alreadyGeneratedCoins := 1
  hardForkVersion := 16

/-- The key that the checks expect at a position. -/
def expectedKey (address : AccountPublicAddress) (voutIndex : ℕ) : TxOutTarget :=
  .toKey ((outputKey fork16Env.crypto address 100 voutIndex).getD 0)

/-- One output, or two of which the second is that of the payout. -/
def shortCoinbase (outputs : ℕ) : MinerTxCheck :=
  coinbaseCheck nullBlockWinner
    ([⟨0, .toKey 1⟩, ⟨10 * arqma, expectedKey ⟨0, 0⟩ 1⟩].take outputs)

/-- The governance wallet has three tenths of the stake. -/
def govWinner : BlockWinner where
  key := 9
  payouts := [⟨⟨1, 2⟩, 0xb333333333333332⟩, ⟨⟨11, 12⟩, 0x4cccccccccccccca⟩]

/-- One output for the payout of the governance wallet and for the governance fund. -/
def sharedOutputCoinbase : MinerTxCheck :=
  coinbaseCheck govWinner
    [⟨0, .toKey 1⟩, ⟨7 * arqma, expectedKey ⟨1, 2⟩ 1⟩, ⟨3 * arqma, expectedKey ⟨11, 12⟩ 2⟩,
      ⟨3 * arqma, expectedKey ⟨13, 14⟩ 3⟩, ⟨3 * arqma, expectedKey ⟨15, 16⟩ 4⟩]

end Sample

/-- The checks read no output that is not there, and they refuse a block with fewer outputs than
one for the miner, one for each payout and three for the funds. -/
def MinerTxCheck.Safe (c : MinerTxCheck) : Prop :=
  c.validate.NoFault ∧ ∀ reward, c.validate = .of (.ok reward) →
    c.winner.payouts.length + 4 ≤ c.block.minerTx.vout.length

/-- The checks are safe on a block exactly if it does not have one or two outputs, or is refused
before they matter, and if its outputs are not one too few and fit all the same, with one for the
last payout and the governance fund. -/
theorem coinbase_reads_in_range_iff (c : MinerTxCheck) (hfork : 16 ≤ c.hardForkVersion)
    (hsize : c.block.minerTx.vout.length < 2 ^ 64)
    (hpayouts : c.winner.payouts.length < 2 ^ 64 - 2) :
    c.Safe ↔
      (c.block.minerTx.vout = [] ∨ 3 ≤ c.block.minerTx.vout.length ∨ c.RefusedEarly) ∧
        ∀ parts, c.parts = some parts →
          c.block.minerTx.vout.length = c.winner.payouts.length + 3 → ¬ c.Fits parts := by
  refine ⟨fun hsafe => ⟨?_, fun parts hparts hless hfits => ?_⟩, fun h => ⟨?_, ?_⟩⟩
  · by_cases hsome : c.block.minerTx.vout = []
    · exact .inl hsome
    · rcases Nat.lt_or_ge c.block.minerTx.vout.length 3 with hshort | hmany
      · exact .inr (.inr ((c.noFault_iff_refusedEarly hfork hpayouts hsome hshort).mp hsafe.1))
      · exact .inr (.inl hmany)
  · obtain ⟨reward, hverdict⟩ := hfits.verdict hparts hfork hless.ge
    have hmany := hsafe.2 reward (by rw [c.validate_eq (.inr (by omega)) hsize, hverdict])
    omega
  · rcases Nat.lt_or_ge c.block.minerTx.vout.length 3 with hshort | hmany
    · rcases h.1 with hnone | hmany | hearly
      · exact ⟨_, c.validate_eq (.inl hnone) hsize⟩
      · omega
      · by_cases hsome : c.block.minerTx.vout = []
        · exact ⟨_, c.validate_eq (.inl hsome) hsize⟩
        · exact (c.noFault_iff_refusedEarly hfork hpayouts hsome hshort).mpr hearly
    · exact ⟨_, c.validate_eq (.inr hmany) hsize⟩
  · intro reward haccepted
    have hthree := c.three_le_of_accepts hfork hsize haccepted
    rw [c.validate_eq (.inr hthree) hsize] at haccepted
    obtain ⟨parts, hparts, hfits, hcount⟩ := c.fits_of_verdict hfork hthree
      (Except.ok.inj haccepted)
    have hless : c.block.minerTx.vout.length ≠ c.winner.payouts.length + 3 := fun hless =>
      h.2 parts hparts hless hfits
    omega

/-- One output for each payout and each fund. -/
def fullCoinbase : MinerTxCheck :=
  coinbaseCheck govWinner
    [⟨0, .toKey 1⟩, ⟨7 * arqma, expectedKey ⟨1, 2⟩ 1⟩, ⟨3 * arqma, expectedKey ⟨11, 12⟩ 2⟩,
      ⟨3 * arqma, expectedKey ⟨11, 12⟩ 3⟩, ⟨3 * arqma, expectedKey ⟨13, 14⟩ 4⟩,
      ⟨3 * arqma, expectedKey ⟨15, 16⟩ 5⟩]

theorem fullCoinbase_safe :
    fullCoinbase.Safe ∧ fullCoinbase.validate.run = .ok (.ok (19 * arqma)) :=
  ⟨(coinbase_reads_in_range_iff fullCoinbase (by decide) (by decide) (by decide)).mpr
    ⟨.inr (.inl (by decide)), fun _ _ hless => absurd hless (by decide)⟩, by decide +kernel⟩

/-- A coinbase with one output passes the prevalidation and makes the checks read an output that
is not there. With two payouts, five outputs instead of six are accepted. -/
theorem short_coinbase_read_out_of_range :
    (shortCoinbase 1).prevalidated = true ∧
      (shortCoinbase 1).validate.run = .error .outOfRange ∧
      (shortCoinbase 2).prevalidated = true ∧
      (shortCoinbase 2).validate.run = .error .outOfRange ∧
      sharedOutputCoinbase.prevalidated = true ∧
      sharedOutputCoinbase.validate.run = .ok (.ok (16 * arqma)) ∧
      sharedOutputCoinbase.block.minerTx.vout.length =
        sharedOutputCoinbase.winner.payouts.length + 3 := by
  decide +kernel

end Arqma.Cryptonote
