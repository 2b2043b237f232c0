import Mathlib.Tactic

/-!
# Transactions, blocks and the cryptography they rely on

Keys, key images and hashes are 32-byte strings read as big-endian numbers, so
that `memcmp` is the order of `BitVec`. The curve and hash functions are the
fields of `Crypto`: every result of the development holds for whatever they
compute. The transaction extra is the list of fields `parse_tx_extra` yields.
-/
namespace Arqma.Cryptonote

inductive NetworkType
  | mainnet
  | testnet
  | stagenet
  | fakechain
  | undefined
deriving DecidableEq, Repr

abbrev Hash := BitVec 256
abbrev PublicKey := BitVec 256
abbrev SecretKey := BitVec 256
abbrev KeyImage := BitVec 256
abbrev KeyDerivation := BitVec 256
abbrev Signature := BitVec 512

structure AccountPublicAddress where
  spendPublicKey : PublicKey
  viewPublicKey : PublicKey
deriving DecidableEq, Repr, Inhabited

inductive RctType
  | null
  | full
  | simple
  | fullBulletproof
  | simpleBulletproof
  | bulletproof
  | bulletproof2
  | clsag
deriving DecidableEq, Repr

/-- The parts of a ring signature an output amount is decoded from. -/
structure RctSig where
  type : RctType := .null
  ecdhInfo : List (BitVec 256 × BitVec 256) := []
  outPk : List (BitVec 256) := []
deriving DecidableEq, Repr

/-- The cryptographic functions. `decodeRct` and `decodeRctSimple` return no
amount where the source throws. -/
structure Crypto where
  cnFastHash : List UInt8 → Hash
  checkKey : PublicKey → Bool
  checkSignature : Hash → PublicKey → Signature → Bool
  checkRingSignature : Hash → KeyImage → List PublicKey → List Signature → Bool
  generateKeyDerivation : PublicKey → SecretKey → Option KeyDerivation
  derivationToScalar : KeyDerivation → ℕ → SecretKey
  derivePublicKey : KeyDerivation → ℕ → PublicKey → Option PublicKey
  decodeRct : RctSig → SecretKey → ℕ → Option UInt64
  decodeRctSimple : RctSig → SecretKey → ℕ → Option UInt64

inductive NewState
  | deregister
  | decommission
  | recommission
  | ipChangePenalty
deriving DecidableEq, Repr

def NewState.toUInt16 : NewState → UInt16
  | .deregister => 0
  | .decommission => 1
  | .recommission => 2
  | .ipChangePenalty => 3

structure StateChangeVote where
  signature : Signature
  validatorIndex : ℕ
deriving DecidableEq, Repr

structure ServiceNodeStateChange where
  state : NewState
  blockHeight : ℕ
  serviceNodeIndex : ℕ
  votes : List StateChangeVote
deriving DecidableEq, Repr

structure ServiceNodeRegister where
  publicSpendKeys : List PublicKey
  publicViewKeys : List PublicKey
  portionsForOperator : UInt64
  portions : List UInt64
  expirationTimestamp : UInt64
  serviceNodeSignature : Signature
deriving DecidableEq, Repr

structure KeyImageProof where
  keyImage : KeyImage
  signature : Signature
deriving DecidableEq, Repr

structure KeyImageUnlock where
  keyImage : KeyImage
  signature : Signature
  nonce : UInt32
deriving DecidableEq, Repr

end Arqma.Cryptonote

namespace Arqma.Pulse
open Arqma.Cryptonote

/-- `tx_extra_pulse_round::vote`. -/
structure RoundVote where
  signature : Signature
  validatorIndex : ℕ
deriving DecidableEq, Repr

/-- `tx_extra_pulse_round`. -/
structure PulseRound where
  height : ℕ := 0
  round : ℕ := 0
  leaderIndex : ℕ := 0
  payloadHash : Hash := 0
  votes : List RoundVote := []
deriving DecidableEq, Repr

end Arqma.Pulse

namespace Arqma.Cryptonote

/-- A field of the transaction extra. `other` stands for the kinds that the
service-node code does not read. -/
inductive TxExtraField
  | serviceNodePubkey (key : PublicKey)
  | serviceNodeRegister (registration : ServiceNodeRegister)
  | serviceNodeContributor (address : AccountPublicAddress)
  | serviceNodeWinner (key : PublicKey)
  | serviceNodeStateChange (stateChange : ServiceNodeStateChange)
  | txSecretKey (key : SecretKey)
  | txKeyImageProofs (proofs : List KeyImageProof)
  | txKeyImageUnlock (unlock : KeyImageUnlock)
  | pulseRound (pulse : Pulse.PulseRound)
  | other (tag : UInt8) (data : List UInt8)
deriving DecidableEq, Repr

inductive TxIn
  | gen (height : ℕ)
  | toScript (prev : Hash) (prevout : ℕ)
  | toScriptHash (prev : Hash) (prevout : ℕ)
  | toKey (amount : UInt64) (keyOffsets : List ℕ) (keyImage : KeyImage)
deriving DecidableEq, Repr

inductive TxOutTarget
  | toScript (keys : List PublicKey)
  | toScriptHash (hash : Hash)
  | toKey (key : PublicKey)
deriving DecidableEq, Repr

structure TxOut where
  amount : UInt64
  target : TxOutTarget
deriving DecidableEq, Repr

inductive TxType
  | standard
  | stateChange
  | keyImageUnlock
  | stake
deriving DecidableEq, Repr

structure Transaction where
  version : ℕ := 3
  txType : TxType := .standard
  vin : List TxIn := []
  vout : List TxOut := []
  extra : List TxExtraField := []
  signatures : List (List Signature) := []
  rctSignatures : RctSig := {}
deriving DecidableEq, Repr

def Transaction.isTransfer (tx : Transaction) : Bool :=
  tx.txType = .standard || tx.txType = .stake

/-- The key images that the inputs spend. -/
def spentImages : List TxIn → List KeyImage
  | [] => []
  | .toKey _ _ image :: rest => image :: spentImages rest
  | _ :: rest => spentImages rest

/-- A block with its hash, which the source computes from the other fields. -/
structure Block where
  majorVersion : ℕ
  timestamp : UInt64 := 0
  prevId : Hash := 0
  minerTx : Transaction
  hash : Hash
  txHashes : List Hash := []
deriving DecidableEq, Repr

/-- `get_block_height`: the height the miner transaction claims. -/
def getBlockHeight (b : Block) : ℕ :=
  match b.minerTx.vin with
  | [.gen height] => height
  | _ => 0

section Extra

variable (extra : List TxExtraField)

def getServiceNodePubkeyFromTxExtra : Option PublicKey :=
  extra.findSome? fun
    | .serviceNodePubkey key => some key
    | _ => none

def getServiceNodeRegisterFromTxExtra : Option ServiceNodeRegister :=
  (extra.findSome? fun
    | .serviceNodeRegister registration => some registration
    | _ => none).filter
      fun r => r.publicSpendKeys.length = r.publicViewKeys.length

def getServiceNodeContributorFromTxExtra : Option AccountPublicAddress :=
  extra.findSome? fun
    | .serviceNodeContributor address => some address
    | _ => none

/-- The rewarded node of a miner transaction, the null key if it names none. -/
def getServiceNodeWinnerFromTxExtra : PublicKey :=
  (extra.findSome? fun
    | .serviceNodeWinner key => some key
    | _ => none).getD 0

def getServiceNodeStateChangeFromTxExtra : Option ServiceNodeStateChange :=
  extra.findSome? fun
    | .serviceNodeStateChange stateChange => some stateChange
    | _ => none

def getTxSecretKeyFromTxExtra : Option SecretKey :=
  extra.findSome? fun
    | .txSecretKey key => some key
    | _ => none

def getTxKeyImageProofsFromTxExtra : Option (List KeyImageProof) :=
  extra.findSome? fun
    | .txKeyImageProofs proofs => some proofs
    | _ => none

def getTxKeyImageUnlockFromTxExtra : Option KeyImageUnlock :=
  extra.findSome? fun
    | .txKeyImageUnlock unlock => some unlock
    | _ => none

def getPulseRoundFromTxExtra : Option Pulse.PulseRound :=
  extra.findSome? fun
    | .pulseRound pulse => some pulse
    | _ => none

end Extra

/-- The low `count` bytes of a number in little-endian order. -/
def leBytes (count n : ℕ) : List UInt8 :=
  (List.range count).map fun i => (n / 2 ^ (8 * i)).toUInt8

def wordBytes (w : UInt64) : List UInt8 := leBytes 8 w.toNat

def keyBytes (k : BitVec 256) : List UInt8 :=
  (List.range 32).map fun i => (k.toNat / 2 ^ (8 * (31 - i))).toUInt8

/-- The first eight bytes of a hash as a little-endian number. -/
def hashSeed (h : Hash) : UInt64 :=
  ((List.range 8).map fun i => h.toNat / 2 ^ (8 * (31 - i)) % 256 * 2 ^ (8 * i)).sum.toUInt64

end Arqma.Cryptonote
