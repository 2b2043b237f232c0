import Arqma.Pulse
import Arqma.ServiceNodeState

/-!
# The miner transaction

The reward of a block is split between the miner, the contributors of the winning service
node and three funds. `constructMinerTx` makes the outputs; `validateMinerTx` and
`validateMinerTransaction` check those of a received block. The emission schedule, the keys
of the wallets and the curve are parameters.
-/
namespace Arqma.Cryptonote
open Arqma.ServiceNodes

structure Keypair where
  pub : PublicKey
  sec : SecretKey
deriving DecidableEq, Repr

/-- What the construction and the checks of a miner transaction share. -/
structure CoinbaseEnv where
  crypto : Crypto
  /-- From the weights, the coins so far, the hard fork version and the height. -/
  getBaseBlockReward : ℕ → ℕ → UInt64 → ℕ → ℕ → Option UInt64
  getDeterministicKeypairFromHeight : ℕ → Keypair
  govWallet : ℕ → AccountPublicAddress
  devWallet : ℕ → AccountPublicAddress
  netWallet : ℕ → AccountPublicAddress

section Reward

/-- The share of one fund. -/
def devRewardFormula (baseReward : UInt64) (hardForkVersion : ℕ) : UInt64 :=
  if 16 ≤ hardForkVersion then baseReward * 15 / 100 else 0

def serviceNodeRewardFormula (baseReward : UInt64) (hardForkVersion : ℕ) : UInt64 :=
  if 16 ≤ hardForkVersion then baseReward / 2 else 0

def getPortionOfReward (portions totalServiceNodeReward : UInt64) : UInt64 :=
  portionsToAmount portions totalServiceNodeReward

def calculateSumOfPortions (payouts : List PayoutEntry) (totalServiceNodeReward : UInt64) :
    UInt64 :=
  payouts.foldl
    (fun reward payout => reward + getPortionOfReward payout.portions totalServiceNodeReward) 0

structure BlockRewardParts where
  serviceNodeTotal : UInt64 := 0
  serviceNodePaid : UInt64 := 0
  gov : UInt64 := 0
  dev : UInt64 := 0
  net : UInt64 := 0
  baseMiner : UInt64 := 0
  baseMinerFee : UInt64 := 0
  adjustedBaseReward : UInt64 := 0
  originalBaseReward : UInt64 := 0
deriving DecidableEq, Repr

def BlockRewardParts.minerReward (parts : BlockRewardParts) : UInt64 :=
  parts.baseMiner + parts.baseMinerFee

/-- `arqma_block_reward_context`; without a winner all goes to the null address. -/
structure BlockRewardContext where
  height : ℕ
  fee : UInt64
  serviceNodePayouts : List PayoutEntry := nullBlockWinner.payouts

def arqma : UInt64 := 1000000000

/-- The height at which the funds get a single extra payment. -/
def fundBonusHeight : ℕ := 1731482

/-- The parts of a base reward once coins have been generated. -/
def splitBaseReward (hardForkVersion : ℕ) (baseReward : UInt64) (context : BlockRewardContext) :
    BlockRewardParts :=
  let serviceNodeTotal := serviceNodeRewardFormula baseReward hardForkVersion
  let serviceNodePaid := calculateSumOfPortions context.serviceNodePayouts serviceNodeTotal
  let fund := devRewardFormula baseReward hardForkVersion
  let bonus := context.height = fundBonusHeight
  { originalBaseReward := baseReward
    serviceNodeTotal
    serviceNodePaid
    adjustedBaseReward := baseReward + (fund + fund + fund)
    baseMiner := baseReward - serviceNodePaid
    baseMinerFee := context.fee
    gov := if bonus then fund + 2000000 * arqma else fund
    dev := if bonus then fund + 500000 * arqma else fund
    net := if bonus then fund + 500000 * arqma else fund }

def getArqmaBlockReward (env : CoinbaseEnv) (medianWeight currentBlockWeight : ℕ)
    (alreadyGeneratedCoins : UInt64) (hardForkVersion : ℕ) (context : BlockRewardContext) :
    Option BlockRewardParts := do
  let baseReward ← env.getBaseBlockReward medianWeight currentBlockWeight alreadyGeneratedCoins
    hardForkVersion context.height
  if baseReward = 0 then none
  else if alreadyGeneratedCoins = 0 then
    some {
      originalBaseReward := baseReward
      adjustedBaseReward := baseReward
      baseMiner := baseReward }
  else some (splitBaseReward hardForkVersion baseReward context)

end Reward

section Construct

def outputKey (crypto : Crypto) (address : AccountPublicAddress) (sec : SecretKey) (index : ℕ) :
    Option PublicKey := do
  let derivation ← crypto.generateKeyDerivation address.viewPublicKey sec
  crypto.derivePublicKey derivation index address.spendPublicKey

/-- The outputs of the payouts from position `i` on; the miner's output is before them. -/
def payoutOutputs (crypto : Crypto) (sec : SecretKey) (total : UInt64) :
    ℕ → List PayoutEntry → Option (List TxOut)
  | _, [] => some []
  | i, payout :: payouts => do
    let key ← outputKey crypto payout.address sec (1 + i)
    let rest ← payoutOutputs crypto sec total (i + 1) payouts
    some (⟨getPortionOfReward payout.portions total, .toKey key⟩ :: rest)

def addFundOutput (crypto : Crypto) (sec : SecretKey) (wallet : AccountPublicAddress)
    (amount : UInt64) (vout : List TxOut) : Option (List TxOut) := do
  let key ← outputKey crypto wallet sec vout.length
  some (vout ++ [⟨amount, .toKey key⟩])

def sumAmounts (vout : List TxOut) : UInt64 := vout.foldl (fun sum out => sum + out.amount) 0

def txExtraNonceMaxCount : ℕ := 255

structure MinerTxContext where
  blockWinner : BlockWinner := nullBlockWinner
  pulseRound : Option Pulse.PulseRound := none

/-- The keys come first and the nonce after the first one, as `sort_tx_extra` leaves them. -/
def minerTxExtra (txPub govPub : PublicKey) (extraNonce : List UInt8) (context : MinerTxContext) :
    Option (List TxExtraField) :=
  if txExtraNonceMaxCount < extraNonce.length then none
  else
    some (.other 1 (keyBytes txPub) ::
      (if extraNonce = [] then [] else [.other 2 extraNonce]) ++
      [.other 1 (keyBytes govPub), .serviceNodeWinner context.blockWinner.key] ++
      (context.pulseRound.map TxExtraField.pulseRound).toList)

def getMinVersionForHf (hardForkVersion : ℕ) : ℕ :=
  if hardForkVersion < 14 then 1 else if hardForkVersion < 16 then 2 else 3

def getMaxVersionForHf (hardForkVersion : ℕ) : ℕ := if hardForkVersion < 16 then 2 else 3

/-- With the random key pair of the transaction. The unlock times are left out. -/
def constructMinerTx (env : CoinbaseEnv) (height medianWeight : ℕ)
    (alreadyGeneratedCoins : UInt64) (currentBlockWeight : ℕ) (fee : UInt64)
    (minerAddress : AccountPublicAddress) (extraNonce : List UInt8) (hardForkVersion : ℕ)
    (context : MinerTxContext) (txkey : Keypair) : Option Transaction := do
  let payouts := context.blockWinner.payouts
  let govKey := env.getDeterministicKeypairFromHeight height
  let extra ← minerTxExtra txkey.pub govKey.pub extraNonce context
  let parts ← getArqmaBlockReward env medianWeight currentBlockWeight alreadyGeneratedCoins
    hardForkVersion { height, fee, serviceNodePayouts := payouts }
  let minerKey ← outputKey env.crypto minerAddress txkey.sec 0
  let vout := [⟨parts.minerReward, .toKey minerKey⟩]
  let vout ←
    if 16 ≤ hardForkVersion then do
      let nodes ← payoutOutputs env.crypto govKey.sec parts.serviceNodeTotal 0 payouts
      let vout ← addFundOutput env.crypto govKey.sec (env.govWallet hardForkVersion) parts.gov
        (vout ++ nodes)
      let vout ← addFundOutput env.crypto govKey.sec (env.devWallet hardForkVersion) parts.dev vout
      addFundOutput env.crypto govKey.sec (env.netWallet hardForkVersion) parts.net vout
    else some vout
  let expectedAmount := parts.minerReward + parts.serviceNodePaid + parts.gov + parts.dev +
    parts.net
  if sumAmounts vout = expectedAmount then
    some {
      version := getMaxVersionForHf hardForkVersion
      txType := .standard
      vin := [.gen height]
      vout
      extra }
  else none

end Construct

section Validate

inductive MinerTxError
  | noOutputs
  | noReward
  | wrongWinner
  | tooFewOutputs
  /-- The source reads an output, or the key of one, that is not there. -/
  | undefinedRead
  | payoutAmount
  | payoutTarget
  | payoutKey
  | pulseCertificate
  | pulseRound
  | pulseTarget
  | pulsePayload
  | fundAmount
  | fundKey
  | txType
  | txVersion
  | tooMuchMoney
  | lessThanFee
deriving DecidableEq, Repr

def withinOne (a b : UInt64) : Bool := (if b < a then a - b else b - a) ≤ 1

def check (condition : Bool) (error : MinerTxError) : Except MinerTxError Unit :=
  if condition then .ok () else .error error

/-- The loop over the payouts, from position `i` on. -/
def checkPayouts (env : CoinbaseEnv) (height : ℕ) (total : UInt64) (vout : List TxOut) :
    ℕ → List PayoutEntry → Except MinerTxError Unit
  | _, [] => .ok ()
  | i, payout :: payouts =>
    match vout[i + 1]? with
    | none => .error .undefinedRead
    | some out => do
      check (withinOne out.amount (getPortionOfReward payout.portions total)) .payoutAmount
      let sec := (env.getDeterministicKeypairFromHeight height).sec
      match out.target with
      | .toKey key => check (outputKey env.crypto payout.address sec (i + 1) = some key) .payoutKey
      | _ => .error .payoutTarget
      checkPayouts env height total vout (i + 1) payouts

/-- The outputs of the winner's contributors. The number of outputs is compared after a
subtraction that wraps below three. -/
def checkServiceNodeOutputs (env : CoinbaseEnv) (winner : BlockWinner) (minerTx : Transaction)
    (height hardForkVersion : ℕ) (parts : BlockRewardParts) : Except MinerTxError Unit := do
  let total := serviceNodeRewardFormula parts.originalBaseReward hardForkVersion
  check (winner.key = getServiceNodeWinnerFromTxExtra minerTx.extra) .wrongWinner
  check (minerTx.vout.length < 3 ∨ winner.payouts.length ≤ minerTx.vout.length - 3)
    .tooFewOutputs
  checkPayouts env height total minerTx.vout 0 winner.payouts

/-- A certificate is not required at any version, as `pow_replacement_ready` is never true. -/
def checkPulseCertificate (crypto : Crypto) (activePubs : List PublicKey) (prevId : Hash)
    (minerTx : Transaction) (height hardForkVersion : ℕ) : Except MinerTxError Unit :=
  if Pulse.hybridSnPermitted hardForkVersion then
    match getPulseRoundFromTxExtra minerTx.extra with
    | none => .ok ()
    | some pulse =>
      check (Pulse.verifyMajorityCertificate crypto pulse height prevId activePubs.length
        (Pulse.quorumPubkeys crypto height activePubs pulse.round)) .pulseCertificate
  else .ok ()

/-- The hook of the service node list. -/
def validateMinerTx (env : CoinbaseEnv) (winner : BlockWinner) (activePubs : List PublicKey)
    (prevId : Hash) (minerTx : Transaction) (height hardForkVersion : ℕ)
    (parts : BlockRewardParts) : Except MinerTxError Unit :=
  if hardForkVersion < 16 then .ok ()
  else do
    checkServiceNodeOutputs env winner minerTx height hardForkVersion parts
    checkPulseCertificate env.crypto activePubs prevId minerTx height hardForkVersion

/-- The round and the payload of a certificate fit the block. -/
def checkPulsePayload (crypto : Crypto) (parentTimestamp : ℕ) (b : Block)
    (hardForkVersion : ℕ) : Except MinerTxError Unit :=
  if Pulse.hybridSnPermitted hardForkVersion then
    match getPulseRoundFromTxExtra b.minerTx.extra with
    | none => .ok ()
    | some pulse => do
      check (Pulse.extraRoundMatchesTimestamps parentTimestamp b.timestamp.toNat pulse.round)
        .pulseRound
      match b.minerTx.vout.head?.map TxOut.target with
      | some (.toKey key) =>
        check (pulse.payloadHash =
          Pulse.minerPayloadHash crypto b.timestamp.toNat b.txHashes key) .pulsePayload
      | _ => .error .pulseTarget
  else .ok ()

def checkFundOutput (env : CoinbaseEnv) (height : ℕ) (wallet : AccountPublicAddress)
    (amount : UInt64) (vout : List TxOut) (fromEnd : ℕ) : Except MinerTxError Unit :=
  if vout.length < fromEnd then .error .undefinedRead
  else
    match vout[vout.length - fromEnd]? with
    | none => .error .undefinedRead
    | some out => do
      check (out.amount = amount) .fundAmount
      let sec := (env.getDeterministicKeypairFromHeight height).sec
      match out.target with
      | .toKey key =>
        check (outputKey env.crypto wallet sec (vout.length - fromEnd) = some key) .fundKey
      | _ => .error .undefinedRead

def checkFunds (env : CoinbaseEnv) (minerTx : Transaction) (height hardForkVersion : ℕ)
    (parts : BlockRewardParts) : Except MinerTxError Unit :=
  if hardForkVersion < 16 then .ok ()
  else do
    checkFundOutput env height (env.govWallet hardForkVersion) parts.gov minerTx.vout 3
    checkFundOutput env height (env.devWallet hardForkVersion) parts.dev minerTx.vout 2
    checkFundOutput env height (env.netWallet hardForkVersion) parts.net minerTx.vout 1
    check (minerTx.txType = .standard) .txType
    -- The two bounds are exchanged; from version 16 on they are the same.
    check (getMaxVersionForHf hardForkVersion ≤ minerTx.version ∧
      minerTx.version ≤ getMinVersionForHf hardForkVersion) .txVersion

/-- The total against the reward; what is left without the fee is the generated amount. -/
def checkTotal (vout : List TxOut) (fee : UInt64) (parts : BlockRewardParts) :
    Except MinerTxError UInt64 := do
  let moneyInUse := sumAmounts vout
  let maxBaseReward := parts.baseMiner + parts.net + parts.gov + parts.dev +
    parts.serviceNodePaid + 1
  check (moneyInUse ≤ maxBaseReward + fee) .tooMuchMoney
  check (fee ≤ moneyInUse) .lessThanFee
  return moneyInUse - fee

/-- With the winner and the active nodes of the service node list and the timestamp of the
parent. The reward is computed without the payouts of the winner. -/
def validateMinerTransaction (env : CoinbaseEnv) (winner : BlockWinner)
    (activePubs : List PublicKey) (parentTimestamp : ℕ) (b : Block)
    (medianWeight cumulativeBlockWeight : ℕ) (fee alreadyGeneratedCoins : UInt64)
    (hardForkVersion : ℕ) : Except MinerTxError UInt64 := do
  check (b.minerTx.vout ≠ []) .noOutputs
  let height := getBlockHeight b
  let some parts := getArqmaBlockReward env medianWeight cumulativeBlockWeight
    alreadyGeneratedCoins hardForkVersion { height, fee } | throw .noReward
  validateMinerTx env winner activePubs b.prevId b.minerTx height hardForkVersion parts
  checkPulsePayload env.crypto parentTimestamp b hardForkVersion
  checkFunds env b.minerTx height hardForkVersion parts
  checkTotal b.minerTx.vout fee parts

end Validate

end Arqma.Cryptonote
