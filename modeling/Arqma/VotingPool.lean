import Arqma.ServiceNodeVoting
import Arqma.SortedVector

/-!
# Votes and the voting pool

A quorum vote is about a worker's state or about the block at a checkpoint height. The
pool groups the votes on one subject, in the order of the voters' indices and at most one
for each of them.
-/
namespace Arqma.ServiceNodes
open Arqma.Cryptonote

inductive QuorumGroup
  | invalid
  | validator
  | worker
deriving DecidableEq, Repr

/-- What a vote is about; it decides the quorum type. -/
inductive VoteSubject
  | stateChange (workerIndex : ℕ) (state : NewState)
  | checkpoint (blockHash : Hash)
deriving DecidableEq, Repr

def VoteSubject.type : VoteSubject → QuorumType
  | .stateChange .. => .obligations
  | .checkpoint .. => .checkpointing

/-- `quorum_vote_t`. -/
structure QuorumVote where
  blockHeight : ℕ
  group : QuorumGroup := .validator
  indexInGroup : ℕ
  signature : Signature
  subject : VoteSubject
deriving DecidableEq, Repr

structure VoteVerificationContext where
  verificationFailed : Bool := false
  invalidBlockHeight : Bool := false
  validatorIndexOutOfBounds : Bool := false
  workerIndexOutOfBounds : Bool := false
  signatureNotValid : Bool := false
  addedToPool : Bool := false
  incorrectVotingGroup : Bool := false
deriving DecidableEq, Repr

/-- A vote is taken from its height on until its lifetime is over. Just outside of that it is
refused without being held against the sender. -/
def verifyVoteAge (vote : QuorumVote) (latestHeight : ℕ) : Except VoteVerificationContext Unit :=
  if vote.blockHeight + voteLifetime < latestHeight then
    .error {
      invalidBlockHeight := true
      verificationFailed :=
        vote.blockHeight + (voteLifetime + voteOrTxVerifyHeightBuffer) < latestHeight }
  else if latestHeight < vote.blockHeight then
    .error {
      invalidBlockHeight := true
      verificationFailed := latestHeight + voteOrTxVerifyHeightBuffer < vote.blockHeight }
  else .ok ()

/-- The group comes first, then the bounds of the index in it. -/
def verifyVoteSignature (crypto : Crypto) (vote : QuorumVote) (quorum : Quorum) :
    Except VoteVerificationContext Unit :=
  match vote.group with
  | .invalid => .error { incorrectVotingGroup := true }
  | .worker =>
    if quorum.workers.length ≤ vote.indexInGroup then
      .error { workerIndexOutOfBounds := true }
    else .error { incorrectVotingGroup := true }
  | .validator =>
    match quorum.validators[vote.indexInGroup]? with
    | none => .error { validatorIndexOutOfBounds := true }
    | some key =>
      match vote.subject with
      | .stateChange workerIndex state =>
        if quorum.workers.length ≤ workerIndex then
          .error { workerIndexOutOfBounds := true }
        else if crypto.checkSignature
            (makeStateChangeVoteHash crypto vote.blockHeight workerIndex state) key
            vote.signature then .ok ()
        else .error { signatureNotValid := true }
      | .checkpoint blockHash =>
        if crypto.checkSignature blockHash key vote.signature then .ok ()
        else .error { signatureNotValid := true }

structure PoolVoteEntry where
  vote : QuorumVote
  timeLastSentP2p : ℕ := 0
deriving DecidableEq, Repr

structure PoolEntry where
  height : ℕ
  subject : VoteSubject
  votes : List PoolVoteEntry := []
deriving DecidableEq, Repr

/-- One list stands for both pools of the source: the subject tells them apart. -/
abbrev VotingPool := List PoolEntry

def PoolVoteEntry.index (entry : PoolVoteEntry) : ℕ := entry.vote.indexInGroup

def QuorumVote.isAbout (vote : QuorumVote) (entry : PoolEntry) : Bool :=
  vote.blockHeight = entry.height ∧ vote.subject = entry.subject

/-- The flag says that the vote was unique. -/
def addVoteToPoolIfUnique (votes : List PoolVoteEntry) (vote : QuorumVote) :
    List PoolVoteEntry × Bool :=
  if SortedVector.occupied PoolVoteEntry.index vote.indexInGroup votes then (votes, false)
  else (SortedVector.insertSorted PoolVoteEntry.index ⟨vote, 0⟩ votes, true)

/-- The pool afterwards, a copy of the votes on the same subject, and whether the vote was
added. -/
def addPoolVoteIfUnique (pool : VotingPool) (vote : QuorumVote) :
    VotingPool × List PoolVoteEntry × Bool :=
  match pool with
  | [] =>
    let (votes, added) := addVoteToPoolIfUnique [] vote
    ([⟨vote.blockHeight, vote.subject, votes⟩], votes, added)
  | entry :: pool =>
    if vote.isAbout entry then
      let (votes, added) := addVoteToPoolIfUnique entry.votes vote
      ({ entry with votes } :: pool, votes, added)
    else
      let (pool, votes, added) := addPoolVoteIfUnique pool vote
      (entry :: pool, votes, added)

/-- Drop the votes on heights outside of the lifetime before `height`. -/
def removeExpiredVotes (pool : VotingPool) (height : ℕ) : VotingPool :=
  pool.filter fun entry => height - voteLifetime ≤ entry.height ∧ entry.height ≤ height

/-- Change the first entry of a vector that passes a test. -/
def modifyFirst {α : Type*} (p : α → Bool) (f : α → α) : List α → List α
  | [] => []
  | a :: l => if p a then f a :: l else a :: modifyFirst p f l

def markRelayed (now : ℕ) (pool : VotingPool) (vote : QuorumVote) : VotingPool :=
  modifyFirst vote.isAbout
    (fun entry => { entry with
      votes := modifyFirst (fun other => vote.indexInGroup = other.index)
        (fun other => { other with timeLastSentP2p := now }) entry.votes })
    pool

def setRelayed (now : ℕ) (pool : VotingPool) (votes : List QuorumVote) : VotingPool :=
  votes.foldl (markRelayed now) pool

/-- Drop the votes on the state change of a transaction. -/
def removeUsedVote (pool : VotingPool) (tx : Transaction) : VotingPool :=
  if tx.txType ≠ .stateChange then pool
  else
    match getServiceNodeStateChangeFromTxExtra tx.extra with
    | none => pool
    | some stateChange => pool.eraseP fun entry => entry.height = stateChange.blockHeight ∧
        entry.subject = .stateChange stateChange.serviceNodeIndex stateChange.state

def removeUsedVotes (pool : VotingPool) (txs : List Transaction) : VotingPool :=
  txs.foldl removeUsedVote pool

theorem addVoteToPoolIfUnique_eq (votes : List PoolVoteEntry) (vote : QuorumVote) :
    (addVoteToPoolIfUnique votes vote).1 =
      SortedVector.insertUnique PoolVoteEntry.index ⟨vote, 0⟩ votes :=
  apply_ite Prod.fst _ _ _

/-- The votes the pool holds on a subject. -/
def votesOn (pool : VotingPool) (vote : QuorumVote) : List PoolVoteEntry :=
  ((pool.find? fun entry => vote.isAbout entry).map PoolEntry.votes).getD []

/-- The flag of an added vote says that its index was new. -/
theorem addVoteToPoolIfUnique_snd {votes : List PoolVoteEntry}
    (hvotes : SortedVector.Increasing PoolVoteEntry.index votes) (vote : QuorumVote) :
    (addVoteToPoolIfUnique votes vote).2 = true ↔
      ∀ entry ∈ votes, entry.index ≠ vote.indexInGroup := by
  have hoccupied := hvotes.occupied_iff (k := vote.indexInGroup)
  unfold addVoteToPoolIfUnique
  grind

theorem QuorumVote.isAbout_iff {vote : QuorumVote} {entry : PoolEntry} : vote.isAbout entry = true ↔
      vote.blockHeight = entry.height ∧ vote.subject = entry.subject := by
  simp [QuorumVote.isAbout]

theorem votesOn_cons (entry : PoolEntry) (pool : VotingPool) (vote : QuorumVote) :
    votesOn (entry :: pool) vote =
      if vote.isAbout entry then entry.votes else votesOn pool vote := by
  unfold votesOn
  rw [List.find?_cons]
  cases hentry : vote.isAbout entry <;> simp

/-- Adding a vote changes the votes on its own subject only, and hands out a copy of them. -/
theorem addPoolVoteIfUnique_eq (pool : VotingPool) (vote : QuorumVote) :
    (addPoolVoteIfUnique pool vote).2 = addVoteToPoolIfUnique (votesOn pool vote) vote ∧
      ∀ other : QuorumVote, votesOn (addPoolVoteIfUnique pool vote).1 other =
        if other.blockHeight = vote.blockHeight ∧ other.subject = vote.subject then
          (addVoteToPoolIfUnique (votesOn pool vote) vote).1
        else votesOn pool other := by
  induction pool <;> grind [votesOn, addPoolVoteIfUnique, QuorumVote.isAbout_iff]

theorem votesOn_congr (pool : VotingPool) {vote other : QuorumVote}
    (hheight : vote.blockHeight = other.blockHeight) (hsubject : vote.subject = other.subject) :
    votesOn pool vote = votesOn pool other := by
  simp only [votesOn, QuorumVote.isAbout, hheight, hsubject]

/-- The votes on a height inside of the lifetime stay. -/
theorem votesOn_removeExpiredVotes (pool : VotingPool) {vote : QuorumVote} {height : ℕ}
    (hlow : height - voteLifetime ≤ vote.blockHeight) (hhigh : vote.blockHeight ≤ height) :
    votesOn (removeExpiredVotes pool height) vote = votesOn pool vote := by
  induction pool with
  | nil => rfl
  | cons entry pool ih =>
    grind [removeExpiredVotes, votesOn_cons, QuorumVote.isAbout_iff]

end Arqma.ServiceNodes
