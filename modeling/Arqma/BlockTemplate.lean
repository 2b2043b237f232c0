import Arqma.MinerTx
import Arqma.PulseCollector

/-!
# Block templates

`create_block_template` makes a block for a miner. From version 20 on it votes for the payload
of the block, and when the collector holds a majority for it the certificate replaces part of
the padding of the miner transaction. The last template is kept and handed out again while the
miner, the pool and the tip are the same. The chain, the pool, the clock and the random keys
are inputs of a call; the votes of other nodes may arrive between any two uses of the collector.
-/
namespace Arqma.Chain
open Arqma.Cryptonote Arqma.ServiceNodes Arqma.Pulse

section Extra

def varintSize (n : ℕ) : ℕ := n.log2 / 7 + 1

/-- The bytes of a Pulse field with its tag. -/
def pulseRoundSize (cert : PulseRound) : ℕ :=
  1 + varintSize cert.height + 1 + varintSize cert.leaderIndex + 32 +
    varintSize cert.votes.length +
    (cert.votes.map fun vote => varintSize vote.validatorIndex + 64).sum

def majorityCertificateBlobSize : ℕ :=
  pulseRoundSize
    { height := 2 ^ 64 - 1
      round := kMaxRound
      leaderIndex := 2 ^ 32 - 1
      votes := (List.range (minSignaturesForQuorum kQuorumSize)).map fun i => ⟨0, i⟩ }

def txExtraPaddingMaxCount : ℕ := 255

/-- Zeros at the end, the first of which is read as the tag. -/
def zeros (count : ℕ) : List TxExtraField :=
  if count = 0 then [] else [.other 0 (List.replicate (count - 1) 0)]

/-- Longer padding does not parse, and then no field is found. -/
def paddingParses (extra : List TxExtraField) : Bool :=
  extra.all fun
    | .other 0 data => data.length < txExtraPaddingMaxCount
    | _ => true

/-- `get_pulse_round_from_tx_extra` on an extra that may have padding. -/
def parsePulseRound (extra : List TxExtraField) : Option PulseRound :=
  if paddingParses extra then getPulseRoundFromTxExtra extra else none

/-- With the fields before the padding and the length of the padding. -/
def spliceMajorityCertificate (extra : List TxExtraField) (padding : ℕ) (cert : PulseRound) :
    Option (List TxExtraField) :=
  if padding < pulseRoundSize cert then none
  else some (extra ++ [.pulseRound cert] ++ zeros (padding - pulseRoundSize cert))

end Extra

/-- What all calls share. The timestamp of a block that is not stored is 0. -/
structure TemplateEnv where
  coinbase : CoinbaseEnv
  getTransactionWeight : Transaction → ℕ
  blockTimestamp : Hash → ℕ

/-- What the chain says on the next block after the parent. -/
structure TemplateStart where
  height : ℕ
  majorVersion : ℕ
  medianWeight : ℕ
  alreadyGeneratedCoins : UInt64
  difficulty : ℕ

/-- What `fill_block_template` takes from the pool. -/
structure FilledTemplate where
  txHashes : List Hash
  txsWeight : ℕ
  fee : UInt64

structure TemplateCall where
  fromBlock : Option Hash := none
  minerAddress : AccountPublicAddress
  exNonce : List UInt8 := []
  tailId : Hash
  /-- None if the branch of an explicit parent cannot be built. -/
  start : Option TemplateStart
  cookie : ℕ := 0
  /-- The clock when the round is compared with that of the kept template. -/
  roundNow : UInt64
  /-- The clock when the kept template is handed out. -/
  servedNow : UInt64
  /-- The clock for a new template. -/
  now : UInt64
  /-- The median of the last timestamps, if there are enough. -/
  medianTimestamp : Option UInt64 := none
  filled : Option FilledTemplate
  filledCookie : ℕ := 0
  blockWinner : BlockWinner := nullBlockWinner
  activePubs : List PublicKey := []
  ownKey : Option PublicKey := none
  /-- The signatures of the own key at its uses. -/
  sign : ℕ → Hash → Signature := fun _ _ => 0
  /-- The random keys of the miner transactions. -/
  txkeys : ℕ → Keypair
  /-- What is done to the collector before each of its uses. -/
  meanwhile : ℕ → List CollectorOp := fun _ => []

def TemplateCall.prevId (call : TemplateCall) : Hash := call.fromBlock.getD call.tailId

/-- `m_btc` and what is kept with it. `madeAt` is the timestamp the template was made with,
which the source does not keep. -/
structure CachedTemplate where
  block : Block
  address : AccountPublicAddress
  nonce : List UInt8
  height : ℕ
  cookie : ℕ
  madeAt : UInt64

structure TemplateState where
  cache : Option CachedTemplate := none
  collector : RoundCollector := {}

section Cached

/-- The kept template has the certificate that the collector has now, or both have none. -/
def pulseCacheOk (env : TemplateEnv) (call : TemplateCall) (cached : CachedTemplate)
    (collector : RoundCollector) : Bool :=
  if hybridSnPermitted cached.block.majorVersion then
    let rnd := roundFromTimestamps (env.blockTimestamp call.tailId) call.roundNow.toNat
    let cachedPulse := parsePulseRound cached.block.minerTx.extra
    let live := collector.snapshot.filter fun live => live.height = cached.height ∧ live.round = rnd
    match live with
    | some live => cachedPulse.any fun pulse =>
        pulse.round = live.round ∧ pulse.payloadHash = live.payloadHash ∧
          pulse.votes.map RoundVote.validatorIndex = live.votes.map RoundVote.validatorIndex
    | none => cachedPulse.isNone
  else true

/-- The kept template, if it may be handed out. -/
def cacheHit (env : TemplateEnv) (call : TemplateCall) (state : TemplateState) :
    Option CachedTemplate :=
  state.cache.filter fun cached =>
    call.fromBlock = none ∧ call.minerAddress = cached.address ∧ cached.nonce = call.exNonce ∧
      cached.cookie = call.cookie ∧ cached.block.prevId = call.tailId ∧
      pulseCacheOk env call cached state.collector

/-- The timestamp is always that of the clock. -/
def CachedTemplate.serve (cached : CachedTemplate) (servedNow : UInt64) : CachedTemplate :=
  { cached with block := { cached.block with timestamp := servedNow } }

end Cached

section Fresh

/-- What is settled before the miner transaction is made. -/
structure Draft where
  start : TemplateStart
  filled : FilledTemplate
  prevId : Hash
  timestamp : UInt64

/-- The hash of the block is not computed here. -/
def Draft.block (draft : Draft) (minerTx : Transaction) : Block where
  majorVersion := draft.start.majorVersion
  timestamp := draft.timestamp
  prevId := draft.prevId
  minerTx := minerTx
  hash := 0
  txHashes := draft.filled.txHashes

variable (env : TemplateEnv) (call : TemplateCall)

def Draft.round (draft : Draft) : ℕ :=
  roundFromTimestamps (env.blockTimestamp draft.prevId) draft.timestamp.toNat

def Draft.minerTx (draft : Draft) (blockWeight : ℕ) (txkey : Keypair) : Option Transaction :=
  constructMinerTx env.coinbase draft.start.height draft.start.medianWeight
    draft.start.alreadyGeneratedCoins blockWeight draft.filled.fee call.minerAddress call.exNonce
    draft.start.majorVersion { blockWinner := call.blockWinner } txkey

/-- The own vote at the `use`-th use of the collector. -/
def Draft.participate (draft : Draft) (use : ℕ) (payloadHash : Hash) (collector : RoundCollector) :
    RoundCollector :=
  match call.ownKey with
  | none => collector
  | some pub => (participateRound env.coinbase.crypto collector
      { height := draft.start.height
        prevId := draft.prevId
        round := draft.round env
        pub
        sign := call.sign use
        activePubs := call.activePubs
        relay := true
        payloadHash }).1

def interfere (use : ℕ) (collector : RoundCollector) : RoundCollector :=
  (call.meanwhile use).foldl (CollectorOp.apply env.coinbase.crypto) collector

/-- The round is opened, with a vote that names no payload. -/
def Draft.openRound (draft : Draft) (collector : RoundCollector) : RoundCollector :=
  if hybridSnPermitted draft.start.majorVersion then
    let lead := leaderIndex env.coinbase.crypto draft.start.height call.activePubs.length
      (draft.round env) % 2 ^ 32
    draft.participate env call 2 0 (interfere env call 2
      ((interfere env call 1 collector).prepare draft.start.height draft.prevId (draft.round env)
        lead))
  else collector

def minerOutKey (tx : Transaction) : Option PublicKey :=
  match tx.vout.head?.map TxOut.target with
  | some (.toKey key) => some key
  | _ => none

/-- The certificate for the payload of a miner transaction. Only its payload is compared. -/
def Draft.collect (draft : Draft) (tryCount : ℕ) (tx : Transaction) (collector : RoundCollector) :
    RoundCollector × Option PulseRound :=
  match hybridSnPermitted draft.start.majorVersion, minerOutKey tx with
  | true, some minerOut =>
    let payload := minerPayloadHash env.coinbase.crypto draft.timestamp.toNat
      draft.filled.txHashes minerOut
    let voted := draft.participate env call (2 * tryCount + 3) payload
      (interfere env call (2 * tryCount + 3) collector)
    let seen := interfere env call (2 * tryCount + 4) voted
    (seen, seen.snapshot.filter fun collected => collected.payloadHash = payload)
  | _, _ => (collector, none)

/-- The end of a try: the miner transaction, another try with another weight, or failure. -/
inductive Try (α : Type)
  | done (result : α)
  | again (cumulativeWeight : ℕ)
  | failed
deriving DecidableEq

/-- The number of zeros that brings the block to its weight, with the weight of the miner
transaction for each number. The length of the extra may itself take one byte more. -/
def fitWeight (weight : ℕ → ℕ) (txsWeight cumulativeWeight : ℕ) : Try ℕ :=
  let delta := cumulativeWeight - txsWeight - weight 0
  if cumulativeWeight - txsWeight < weight 0 then .again (txsWeight + weight 0)
  else if weight 0 < cumulativeWeight - txsWeight ∧ cumulativeWeight ≠ txsWeight + weight delta then
    if cumulativeWeight + 1 ≠ txsWeight + weight delta then .failed
    else if cumulativeWeight ≠ txsWeight + weight (delta - 1) then
      .again (cumulativeWeight + (delta - 1))
    else .done (delta - 1)
  else if cumulativeWeight ≠ txsWeight + weight delta then .failed
  else .done delta

def padded (tx : Transaction) (count : ℕ) : Transaction :=
  { tx with extra := tx.extra ++ zeros count }

def withCertificate (tx : Transaction) (txsWeight cumulativeWeight padding : ℕ) :
    Option PulseRound → Try Transaction
  | none => .done (padded tx padding)
  | some cert =>
    match spliceMajorityCertificate tx.extra padding cert with
    | none => .again (cumulativeWeight + majorityCertificateBlobSize)
    | some extra =>
      if cumulativeWeight = txsWeight + env.getTransactionWeight { tx with extra } then
        .done { tx with extra }
      else .failed

def Draft.attempt (draft : Draft) (tryCount : ℕ) (collector : RoundCollector)
    (cumulativeWeight : ℕ) : RoundCollector × Try Transaction :=
  match draft.minerTx env call cumulativeWeight (call.txkeys (tryCount + 1)) with
  | none => (collector, .failed)
  | some tx =>
    let (collector, cert) := draft.collect env call tryCount tx collector
    match fitWeight (fun count => env.getTransactionWeight (padded tx count))
      draft.filled.txsWeight cumulativeWeight with
    | .done padding =>
      (collector, withCertificate env tx draft.filled.txsWeight cumulativeWeight padding cert)
    | .again weight => (collector, .again weight)
    | .failed => (collector, .failed)

/-- The loop, with the number of tries that are left. -/
def Draft.tries (draft : Draft) : ℕ → ℕ → RoundCollector → ℕ → RoundCollector × Option Transaction
  | 0, _, collector, _ => (collector, none)
  | left + 1, tryCount, collector, cumulativeWeight =>
    match draft.attempt env call tryCount collector cumulativeWeight with
    | (collector, .done tx) => (collector, some tx)
    | (collector, .again weight) => Draft.tries draft left (tryCount + 1) collector weight
    | (collector, .failed) => (collector, none)

def maxTries : ℕ := 10

def Draft.complete (draft : Draft) (collector : RoundCollector) :
    RoundCollector × Option Transaction :=
  let opened := draft.openRound env call collector
  match draft.minerTx env call draft.filled.txsWeight (call.txkeys 0) with
  | none => (opened, none)
  | some tx => draft.tries env call maxTries 0 opened
      (draft.filled.txsWeight + env.getTransactionWeight tx)

/-- The clock, but not before the median of the last timestamps. -/
def TemplateCall.timestamp : UInt64 :=
  match call.medianTimestamp with
  | some median => if call.now < median then median else call.now
  | none => call.now

def TemplateCall.draft : Option Draft := do
  let start ← call.start
  if start.difficulty = 0 then none
  else
    let filled ← call.filled
    some { start, filled, prevId := call.prevId, timestamp := call.timestamp }

def TemplateCall.cacheEntry (draft : Draft) (b : Block) : CachedTemplate where
  block := b
  address := call.minerAddress
  nonce := call.exNonce
  height := draft.start.height
  cookie := call.filledCookie
  madeAt := draft.timestamp

/-- A new template. It is kept if it follows the tip. -/
def makeTemplate (state : TemplateState) : TemplateState × Option Block :=
  match call.draft with
  | none => (state, none)
  | some draft =>
    match draft.complete env call state.collector with
    | (collector, none) => ({ state with collector }, none)
    | (collector, some tx) =>
      let b := draft.block tx
      (if call.fromBlock = none then { cache := some (call.cacheEntry draft b), collector }
        else { state with collector }, some b)

end Fresh

section History

/-- The state when the kept template is looked at. -/
def TemplateState.seenBy (env : TemplateEnv) (call : TemplateCall) (state : TemplateState) :
    TemplateState :=
  { state with collector := interfere env call 0 state.collector }

/-- A kept template that is not handed out is dropped, unless a parent is given. -/
def createBlockTemplate (env : TemplateEnv) (call : TemplateCall) (state : TemplateState) :
    TemplateState × Option Block :=
  let seen := state.seenBy env call
  match cacheHit env call seen with
  | some cached =>
    let served := cached.serve call.servedNow
    ({ seen with cache := some served }, some served.block)
  | none =>
    makeTemplate env call (if call.fromBlock = none then { seen with cache := none } else seen)

inductive TemplateEvent
  | create (call : TemplateCall)
  /-- A block was added or popped. -/
  | invalidate
  | collector (op : CollectorOp)

def TemplateState.step (env : TemplateEnv) (state : TemplateState) : TemplateEvent → TemplateState
  | .create call => (createBlockTemplate env call state).1
  | .invalidate => { state with cache := none }
  | .collector op => { state with collector := op.apply env.coinbase.crypto state.collector }

def TemplateState.after (env : TemplateEnv) (state : TemplateState)
    (events : List TemplateEvent) : TemplateState :=
  events.foldl (TemplateState.step env) state

end History

end Arqma.Chain
