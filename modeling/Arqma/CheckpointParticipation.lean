import Arqma.ObligationVotes

/-!
# Participation in checkpoints

The pool keeps the checkpoint votes of one height apart by the block hash, but whether
a validator took part is looked up by the height alone, in the first entry for it. The
votes for the block hash that was voted for first are found, those for another one
are not.
-/
namespace Arqma.ServiceNodes
open Arqma.Cryptonote List

def receivedCheckpointVote (pool : VotingPool) (height indexInQuorum : ℕ) : Bool :=
  match pool.find? fun entry => entry.subject.type = .checkpointing ∧ entry.height = height with
  | none => false
  | some entry => entry.votes.any fun other => other.vote.indexInGroup = indexInQuorum

/-- What changes the contents of the pool. -/
inductive PoolOp
  | addPoolVoteIfUnique (vote : QuorumVote)
  | removeExpiredVotes (height : ℕ)

def PoolOp.apply (pool : VotingPool) : PoolOp → VotingPool
  | .addPoolVoteIfUnique vote => (ServiceNodes.addPoolVoteIfUnique pool vote).1
  | .removeExpiredVotes height => ServiceNodes.removeExpiredVotes pool height

def poolAfter (ops : List PoolOp) : VotingPool := ops.foldl PoolOp.apply []

def HoldsVote (pool : VotingPool) (height : ℕ) (blockHash : Hash) (index : ℕ) : Prop :=
  ∃ entry ∈ pool, ∃ other ∈ entry.votes,
    other.vote.key = (height, .checkpoint blockHash) ∧ other.vote.indexInGroup = index

def hashAt (height : ℕ) : ℕ × VoteSubject → Option Hash
  | (_, .stateChange _ _) => none
  | (h, .checkpoint blockHash) => if h = height then some blockHash else none

/-- The block hash of the first vote on a height since the height was last expired. -/
def firstArrived (height : ℕ) (ops : List PoolOp) : Option Hash :=
  ops.foldl (fun first op => match op with
    | .addPoolVoteIfUnique vote => first.or (hashAt height vote.key)
    | .removeExpiredVotes latest =>
      if latest - voteLifetime ≤ height ∧ height ≤ latest then first else none) none

theorem hashAt_eq_some {height : ℕ} {key : ℕ × VoteSubject} {blockHash : Hash} :
    hashAt height key = some blockHash ↔ key = (height, .checkpoint blockHash) := by
  obtain ⟨h, subject⟩ := key
  cases subject <;> simp [hashAt]

section Pool

variable {pool : VotingPool} {height index : ℕ}

/-- Every entry has its own subject and votes on nothing else. -/
structure Tidy (pool : VotingPool) : Prop where
  keys : (pool.map PoolEntry.key).Nodup
  about : ∀ entry ∈ pool, ∀ other ∈ entry.votes, other.vote.key = entry.key

theorem Tidy.add (h : Tidy pool) (vote : QuorumVote) : Tidy (addPoolVoteIfUnique pool vote).1 := by
  refine ⟨?_, fun entry hentry other hother => ?_⟩
  · rw [key_addPoolVoteIfUnique]
    split_ifs with hknown
    · exact h.keys
    · exact h.keys.append (nodup_singleton _) (by simpa using hknown)
  · obtain hold | ⟨hkey, votes, hvotes, hfrom⟩ := mem_addPoolVoteIfUnique hentry
    · exact h.about entry hold other hother
    · rw [hvotes, addVoteToPoolIfUnique_eq] at hother
      obtain rfl | hother := SortedVector.mem_of_mem_insertUnique hother
      · exact hkey.symm
      · grind [h.about]

theorem Tidy.apply (h : Tidy pool) (op : PoolOp) : Tidy (op.apply pool) := by
  cases op with
  | addPoolVoteIfUnique vote => exact h.add vote
  | removeExpiredVotes latest =>
    have hsub : (removeExpiredVotes pool latest).Sublist pool := filter_sublist
    exact ⟨h.keys.sublist (hsub.map _), fun entry hentry => h.about entry (hsub.subset hentry)⟩

theorem tidy_poolAfter (ops : List PoolOp) : Tidy (poolAfter ops) :=
  List.foldlRecOn (motive := Tidy) ops _
    ⟨nodup_nil, fun _ hentry => absurd hentry not_mem_nil⟩ fun _ h op _ => h.apply op

/-- The block hash of the first entry for a height. -/
def firstHash (pool : VotingPool) (height : ℕ) : Option Hash :=
  (pool.map PoolEntry.key).findSome? (hashAt height)

theorem firstHash_add (pool : VotingPool) (vote : QuorumVote) (height : ℕ) :
    firstHash (addPoolVoteIfUnique pool vote).1 height =
      (firstHash pool height).or (hashAt height vote.key) := by
  unfold firstHash
  rw [key_addPoolVoteIfUnique]
  split_ifs with hknown
  · -- The height has a first entry already, if the vote is about a block at it at all.
    cases hfirst : (pool.map PoolEntry.key).findSome? (hashAt height) <;> grind
  · rw [findSome?_append]
    simp

theorem firstHash_removeExpiredVotes (pool : VotingPool) (latest height : ℕ) :
    firstHash (removeExpiredVotes pool latest) height =
      if latest - voteLifetime ≤ height ∧ height ≤ latest then firstHash pool height
      else none := by
  induction pool with
  | nil => simp [firstHash, removeExpiredVotes]
  | cons entry pool ih =>
    unfold firstHash removeExpiredVotes at ih ⊢
    rw [filter_cons, map_cons, findSome?_cons]
    cases hhash : hashAt height entry.key with
    | none =>
      rw [← ih]
      split_ifs
      · rw [map_cons, findSome?_cons, hhash]
      · rfl
    | some blockHash =>
      obtain ⟨hheight, -⟩ := Prod.mk.inj (hashAt_eq_some.mp hhash)
      grind

theorem firstHash_poolAfter (ops : List PoolOp) (height : ℕ) :
    firstHash (poolAfter ops) height = firstArrived height ops := by
  induction ops using List.reverseRecOn with
  | nil => rfl
  | append_singleton ops op ih =>
    unfold poolAfter firstArrived at ih ⊢
    rw [foldl_append, foldl_append, ← ih]
    grind [PoolOp.apply, firstHash_add, firstHash_removeExpiredVotes]

/-- Every entry was made for a vote that was added. -/
theorem exists_added {ops : List PoolOp} {entry : PoolEntry} (h : entry ∈ poolAfter ops) :
    ∃ vote, .addPoolVoteIfUnique vote ∈ ops ∧ vote.key = entry.key := by
  induction ops using List.reverseRecOn generalizing entry with
  | nil => exact absurd h not_mem_nil
  | append_singleton ops op ih =>
    have hearlier : ∀ old ∈ poolAfter ops, ∃ vote,
        .addPoolVoteIfUnique vote ∈ ops ++ [op] ∧ vote.key = old.key := by
      intro old hold
      obtain ⟨vote, hvote, hkey⟩ := ih hold
      exact ⟨vote, mem_append_left _ hvote, hkey⟩
    unfold poolAfter at h hearlier
    rw [foldl_append] at h
    cases op with
    | addPoolVoteIfUnique vote =>
      obtain hold | ⟨hkey, -⟩ := mem_addPoolVoteIfUnique h
      · exact hearlier entry hold
      · exact ⟨vote, by simp, hkey.symm⟩
    | removeExpiredVotes latest => exact hearlier entry (mem_of_mem_filter h)

/-- The entry that is looked up is the one with the first block hash. -/
theorem firstHash_eq_find (pool : VotingPool) (height : ℕ) :
    firstHash pool height = (pool.find? fun entry =>
      entry.subject.type = .checkpointing ∧ entry.height = height).bind
        fun entry => hashAt height entry.key := by
  induction pool with
  | nil => rfl
  | cons entry pool ih =>
    unfold firstHash at ih ⊢
    rw [map_cons, findSome?_cons, find?_cons, ih]
    obtain ⟨h, subject, votes⟩ := entry
    cases subject with
    | stateChange workerIndex state => rfl
    | checkpoint blockHash =>
      grind [PoolEntry.key, hashAt, VoteSubject.type]

theorem Tidy.received_iff (h : Tidy pool) : receivedCheckpointVote pool height index = true ↔
    ∃ blockHash, firstHash pool height = some blockHash ∧
      HoldsVote pool height blockHash index := by
  unfold receivedCheckpointVote
  rw [firstHash_eq_find]
  cases hfind : pool.find? fun entry =>
      entry.subject.type = .checkpointing ∧ entry.height = height with
  | none => simp
  | some entry =>
    have hentry := mem_of_find?_eq_some hfind
    simp only [any_eq_true, decide_eq_true_eq, Option.bind_some, hashAt_eq_some]
    constructor
    · rintro ⟨other, hother, hindex⟩
      have hfirst := find?_some hfind
      obtain ⟨htype, hheight⟩ := of_decide_eq_true hfirst
      cases hsubject : entry.subject <;> grind [VoteSubject.type, PoolEntry.key, HoldsVote, h.about]
    · rintro ⟨blockHash, hkey, found, hfound, other, hother, hvote, hindex⟩
      -- No other entry is about the same block.
      grind [inj_on_of_nodup_map, h.keys, h.about]

end Pool

/-- A validator is found to have voted exactly if it voted for the block hash of the first
vote that arrived for the height. So the answer is right iff a validator that voted for
some block at the height also voted for that one, which is so as long as all votes on
the height are for the same block. -/
theorem received_checkpoint_vote_iff (ops : List PoolOp) (height index : ℕ) :
    (receivedCheckpointVote (poolAfter ops) height index = true ↔
      ∃ blockHash, firstArrived height ops = some blockHash ∧
        HoldsVote (poolAfter ops) height blockHash index) ∧
    ((receivedCheckpointVote (poolAfter ops) height index = true ↔
        ∃ blockHash, HoldsVote (poolAfter ops) height blockHash index) ↔
      ((∃ blockHash, HoldsVote (poolAfter ops) height blockHash index) →
        ∃ blockHash, firstArrived height ops = some blockHash ∧
          HoldsVote (poolAfter ops) height blockHash index)) ∧
    ∀ blockHash, (∀ vote other, .addPoolVoteIfUnique vote ∈ ops →
        hashAt height vote.key = some other → other = blockHash) →
      (receivedCheckpointVote (poolAfter ops) height index = true ↔
        ∃ blockHash, HoldsVote (poolAfter ops) height blockHash index) := by
  have hreceived : receivedCheckpointVote (poolAfter ops) height index = true ↔
      ∃ blockHash, firstArrived height ops = some blockHash ∧
        HoldsVote (poolAfter ops) height blockHash index := by
    rw [← firstHash_poolAfter]
    exact (tidy_poolAfter ops).received_iff
  refine ⟨hreceived, ?_, fun blockHash hsame => ?_⟩
  · rw [hreceived]
    constructor
    · exact fun h => h.mpr
    · exact fun h => ⟨fun ⟨blockHash, _, hholds⟩ => ⟨blockHash, hholds⟩, h⟩
  · rw [hreceived]
    have hadded : ∀ entry ∈ poolAfter ops, ∀ other, hashAt height entry.key = some other →
        other = blockHash := by
      intro entry hentry other hother
      obtain ⟨vote, hvote, hkey⟩ := exists_added hentry
      exact hsame vote other hvote (hkey ▸ hother)
    refine ⟨fun ⟨other, _, hholds⟩ => ⟨other, hholds⟩, ?_⟩
    rintro ⟨other, entry, hentry, vote, hvote, hkey, hindex⟩
    have hother : hashAt height entry.key = some other :=
      hashAt_eq_some.mpr (((tidy_poolAfter ops).about entry hentry vote hvote).symm.trans hkey)
    refine ⟨other, ?_, entry, hentry, vote, hvote, hkey, hindex⟩
    rw [← firstHash_poolAfter]
    cases hfirst : firstHash (poolAfter ops) height <;> grind [firstHash, mem_map_of_mem,
      exists_of_findSome?_eq_some]

/-- Validator 0 votes for block 1 at height 4, then validator 1 for block 2. -/
def disagreeingVotes : List PoolOp :=
  [.addPoolVoteIfUnique ⟨4, .validator, 0, 0, .checkpoint 1⟩,
    .addPoolVoteIfUnique ⟨4, .validator, 1, 0, .checkpoint 2⟩]

/-- The vote of validator 1 is in the pool, but hidden. -/
theorem later_block_hides_vote :
    receivedCheckpointVote (poolAfter disagreeingVotes) 4 1 = false ∧
      HoldsVote (poolAfter disagreeingVotes) 4 2 1 := by
  refine ⟨by decide, ⟨4, .checkpoint 2, [⟨⟨4, .validator, 1, 0, .checkpoint 2⟩, 0⟩]⟩,
    by decide +kernel, ⟨⟨4, .validator, 1, 0, .checkpoint 2⟩, 0⟩, mem_singleton_self _, rfl, rfl⟩

end Arqma.ServiceNodes
