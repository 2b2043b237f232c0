import Arqma.ServiceNodeRules

/-!
# Quorums and the votes of a state change

A state change transaction carries the votes of an obligations quorum.
`verifyTxStateChange` reports what it found wrong in the flags of the
verification context, as the source does.
-/
namespace Arqma.ServiceNodes
open Arqma.Cryptonote

inductive QuorumType
  | obligations
  | checkpointing
deriving DecidableEq, Repr

def QuorumType.toUInt64 : QuorumType → UInt64
  | .obligations => 0
  | .checkpointing => 1

def maxQuorumTypeForHf (hardForkVersion : ℕ) : QuorumType :=
  if hardForkVersion < 17 then .obligations else .checkpointing

structure Quorum where
  validators : List PublicKey := []
  workers : List PublicKey := []
deriving DecidableEq, Repr

structure QuorumManager where
  obligations : Option Quorum := none
  checkpointing : Option Quorum := none
deriving DecidableEq, Repr

def QuorumManager.get (quorums : QuorumManager) : QuorumType → Option Quorum
  | .obligations => quorums.obligations
  | .checkpointing => quorums.checkpointing

/-- The flags of a transaction's verification context that votes can raise. -/
structure TxVerificationContext where
  verificationFailed : Bool := true
  notEnoughVotes : Bool := false
  workerIndexOutOfBounds : Bool := false
  validatorIndexOutOfBounds : Bool := false
  invalidBlockHeight : Bool := false
  votesNotSorted : Bool := false
  duplicateVoters : Bool := false
  signatureNotValid : Bool := false
deriving DecidableEq, Repr

/-- What the voters sign. The state is left out for a deregistration. -/
def makeStateChangeVoteHash (crypto : Crypto) (blockHeight serviceNodeIndex : ℕ)
    (state : NewState) : Hash :=
  crypto.cnFastHash <|
    leBytes 8 blockHeight ++ leBytes 4 serviceNodeIndex ++
      (if state = .deregister then [] else leBytes 2 state.toUInt16.toNat)

section Verify

variable (crypto : Crypto) (quorum : Quorum) (hardForkVersion : ℕ)

/-- The loop over the votes, with the last index seen and the set of voters. -/
def verifyVotes (hash : Hash) :
    List StateChangeVote → Int → List ℕ → Except TxVerificationContext Unit
  | [], _, _ => .ok ()
  | vote :: votes, tracker, voters =>
    if 17 ≤ hardForkVersion ∧ (vote.validatorIndex : Int).bmod (2 ^ 32) ≤ tracker then
      .error { votesNotSorted := true }
    else if quorum.validators.length ≤ vote.validatorIndex then
      .error { validatorIndexOutOfBounds := true }
    else if vote.validatorIndex ∈ voters then
      .error { duplicateVoters := true }
    else if !crypto.checkSignature hash (quorum.validators.getD vote.validatorIndex 0)
        vote.signature then
      .error { signatureNotValid := true }
    else
      verifyVotes hash votes
        (if 17 ≤ hardForkVersion then vote.validatorIndex else tracker)
        (vote.validatorIndex :: voters)

def verifyTxStateChange (stateChange : ServiceNodeStateChange) (latestHeight : ℕ) :
    Except TxVerificationContext Unit :=
  if stateChange.votes.length < stateChangeMinVotesToChangeState then
    .error { notEnoughVotes := true }
  else if stateChangeQuorumSize < stateChange.votes.length then
    .error {}
  else if quorum.workers.length ≤ stateChange.serviceNodeIndex then
    .error { workerIndexOutOfBounds := true }
  else if latestHeight ≤ stateChange.blockHeight then
    .error {
      invalidBlockHeight := true
      verificationFailed := latestHeight + voteOrTxVerifyHeightBuffer ≤ stateChange.blockHeight }
  else if stateChange.blockHeight + stateChangeTxLifetimeInBlocks ≤ latestHeight then
    .error {
      invalidBlockHeight := true
      verificationFailed := stateChange.blockHeight +
        (stateChangeTxLifetimeInBlocks + voteOrTxVerifyHeightBuffer) ≤ latestHeight }
  else
    verifyVotes crypto quorum hardForkVersion
      (makeStateChangeVoteHash crypto stateChange.blockHeight stateChange.serviceNodeIndex
        stateChange.state)
      stateChange.votes (-1) []

end Verify

theorem verifyTxStateChange_isOk {crypto : Crypto} {quorum : Quorum} {hardForkVersion : ℕ}
    {stateChange : ServiceNodeStateChange} {latestHeight : ℕ}
    (h : (verifyTxStateChange crypto quorum hardForkVersion stateChange latestHeight).isOk = true) :
    stateChange.serviceNodeIndex < quorum.workers.length ∧ stateChange.blockHeight < latestHeight ∧
      latestHeight < stateChange.blockHeight + stateChangeTxLifetimeInBlocks := by
  unfold verifyTxStateChange at h
  grind [Except.toBool]

end Arqma.ServiceNodes
