import Arqma.Blockchain
import Arqma.VotingPool

/-!
# The quorum cop

A verified vote goes into the pool under the lock of the pool, and the call takes a copy of
the votes on the same block with it. Under the lock of the blockchain it then merges the
copy into the stored checkpoint. Other calls come in between.
-/
namespace Arqma.ServiceNodes
open Arqma.Cryptonote Arqma.Chain List PoolVoteEntry VoterToSignature

variable {checkpoint : Checkpoint} {signatures : List VoterToSignature} {changed : Bool}

def PoolVoteEntry.toSignature (entry : PoolVoteEntry) : VoterToSignature where
  voterIndex := entry.vote.indexInGroup
  signature := entry.vote.signature

section Cop

/-- Insert a signature unless its voter is there; the flag says that something was inserted. -/
def addSignature (acc : List VoterToSignature × Bool) (entry : PoolVoteEntry) :
    List VoterToSignature × Bool :=
  if SortedVector.occupied VoterToSignature.voterIndex entry.index acc.1 then acc
  else (SortedVector.insertSorted VoterToSignature.voterIndex entry.toSignature acc.1, true)

/-- The checkpoint that the votes call for, unless the stored one needs no change. -/
def checkpointToStore (stored : Option Checkpoint) (height : ℕ) (blockHash : Hash)
    (votes : List PoolVoteEntry) : Option Checkpoint :=
  match stored.filter fun checkpoint => checkpoint.blockHash = blockHash with
  | some checkpoint =>
    if checkpoint.signatures.length = checkpointQuorumSize then none
    else
      let sorted := checkpoint.signatures.insertionSort fun a b => a.voterIndex ≤ b.voterIndex
      let (signatures, changed) := votes.foldl addSignature (sorted, false)
      if changed then some { checkpoint with signatures } else none
  | none =>
    some { makeEmptyServiceNodeCheckpoint blockHash height with
      signatures := votes.map PoolVoteEntry.toSignature }

variable (currentVersion : List MainBlock → ℕ)

def handleCheckpointVote (chain : Blockchain) (height : ℕ) (blockHash : Hash)
    (votes : List PoolVoteEntry) : Blockchain × Option ℕ :=
  if votes.length < checkpointMinVotes then (chain, none)
  else
    match checkpointToStore (chain.getCheckpoint height) height blockHash votes with
    | none => (chain, none)
    | some checkpoint => chain.updateCheckpoint currentVersion checkpoint

/-- The pool, the chain and the calls of `handle_vote` between the two locks, each with its
copy of the votes. -/
structure QuorumCop where
  pool : VotingPool := []
  chain : Blockchain
  pending : List (QuorumVote × List PoolVoteEntry) := []

inductive CopStep
  /-- A verified vote enters the pool. -/
  | add (vote : QuorumVote)
  /-- A pending call goes on under the lock of the blockchain. -/
  | merge (i : ℕ)

namespace QuorumCop

def add (cop : QuorumCop) (vote : QuorumVote) : QuorumCop :=
  let (pool, votes, added) := addPoolVoteIfUnique cop.pool vote
  { cop with pool, pending := cop.pending ++ if added then [(vote, votes)] else [] }

/-- A state change vote ends in a transaction and leaves the checkpoints alone. When the
chain is detached the cop's own hook clears the pool. -/
def merge (cop : QuorumCop) (i : ℕ) : QuorumCop :=
  match cop.pending[i]? with
  | none => cop
  | some (vote, votes) =>
    let pending := cop.pending.eraseIdx i
    match vote.subject with
    | .stateChange .. => { cop with pending }
    | .checkpoint blockHash =>
      let (chain, detached) :=
        handleCheckpointVote currentVersion cop.chain vote.blockHeight blockHash votes
      { pool := detached.elim cop.pool (removeExpiredVotes cop.pool), chain, pending }

def step (cop : QuorumCop) : CopStep → QuorumCop
  | .add vote => cop.add vote
  | .merge i => cop.merge currentVersion i

def after (cop : QuorumCop) (steps : List CopStep) : QuorumCop :=
  steps.foldl (step currentVersion) cop

/-- A whole call of `handle_vote` by one thread, with the quorum the list has for the vote. -/
def handleVote (crypto : Crypto) (quorum : Option Quorum) (cop : QuorumCop) (vote : QuorumVote) :
    Except VoteVerificationContext QuorumCop := do
  verifyVoteAge vote cop.chain.height
  let some quorum := quorum | throw { invalidBlockHeight := true }
  verifyVoteSignature crypto vote quorum
  let added := cop.add vote
  return if added.pending.length = cop.pending.length then added
    else added.merge currentVersion cop.pending.length

end QuorumCop

end Cop

section Merge

variable {currentVersion : List MainBlock → ℕ} {chain : Blockchain} {height : ℕ}
  {blockHash : Hash} {votes copy : List PoolVoteEntry}

/-- The loop inserts every signature; without the flag it changed nothing. -/
theorem foldl_addSignature (entries : List PoolVoteEntry) (acc : List VoterToSignature × Bool) :
    (entries.foldl addSignature acc).1 = (entries.map toSignature).foldl
          (fun l x => SortedVector.insertUnique voterIndex x l) acc.1 ∧
      ((entries.foldl addSignature acc).2 = false → entries.foldl addSignature acc = acc) := by
  induction entries generalizing acc with
  | nil => exact ⟨rfl, fun _ => rfl⟩
  | cons entry entries ih =>
    have hfirst : (addSignature acc entry).1 =
        SortedVector.insertUnique voterIndex entry.toSignature acc.1 :=
      apply_ite Prod.fst _ _ _
    obtain ⟨hfold, hsame⟩ := ih (addSignature acc entry)
    rw [foldl_cons, map_cons, foldl_cons, ← hfirst]
    refine ⟨hfold, fun hflag => ?_⟩
    have hrest := hsame hflag
    rw [hrest] at hflag ⊢
    unfold addSignature at hflag ⊢
    split_ifs at hflag ⊢
    rfl

/-- What the cop makes of the votes on a block. -/
structure Aggregated (votes : List PoolVoteEntry) (blockHash : Hash) (checkpoint : Checkpoint) :
    Prop where
  type : checkpoint.type = .serviceNode
  blockHash : checkpoint.blockHash = blockHash
  increasing : SortedVector.Increasing VoterToSignature.voterIndex checkpoint.signatures
  minVotes : checkpointMinVotes ≤ checkpoint.signatures.length
  voted : ∀ signature ∈ checkpoint.signatures, signature ∈ votes.map PoolVoteEntry.toSignature

/-- The stored checkpoint is of the block and has a signature of every voter. -/
def Complete (votes : List PoolVoteEntry) (blockHash : Hash) (stored : Option Checkpoint) :
    Prop :=
  ∃ checkpoint ∈ stored, checkpoint.blockHash = blockHash ∧
    ∀ k ∈ votes.map PoolVoteEntry.index, k ∈ checkpoint.voters

theorem map_voterIndex_toSignature (votes : List PoolVoteEntry) :
    (votes.map toSignature).map voterIndex = votes.map index := by
  rw [map_map]
  rfl

theorem Aggregated.mono {votes' : List PoolVoteEntry} (h : Aggregated votes blockHash checkpoint)
    (hvotes : ∀ entry ∈ votes, entry ∈ votes') :
    Aggregated votes' blockHash checkpoint := by
  refine { h with voted := fun signature hsignature => ?_ }
  obtain ⟨entry, hentry, rfl⟩ := mem_map.mp (h.voted signature hsignature)
  exact mem_map_of_mem (hvotes entry hentry)

theorem Aggregated.mem_index (h : Aggregated votes blockHash checkpoint) {k : ℕ}
    (hk : k ∈ checkpoint.voters) :
    k ∈ votes.map index := by
  grind [Checkpoint.voters, map_voterIndex_toSignature, h.voted]

/-- The database gives back what was written. -/
theorem Aggregated.readBack_eq {checkpoint written : Checkpoint}
    (h : Aggregated votes blockHash checkpoint)
    (hwritten : checkpoint = { written with type := .serviceNode }) :
    written.readBack = checkpoint := by
  have hpos : 0 < checkpoint.signatures.length := lt_of_lt_of_le (by decide) h.minVotes
  subst hwritten
  simp only [Checkpoint.readBack, if_pos hpos]

theorem Aggregated.mem_voters_of_full (h : Aggregated votes blockHash checkpoint)
    (hfull : checkpoint.signatures.length = checkpointQuorumSize)
    (hvotes : SortedVector.Increasing index votes)
    (hbound : ∀ entry ∈ votes, entry.index < checkpointQuorumSize) {k : ℕ}
    (hk : k ∈ votes.map index) : k ∈ checkpoint.voters := by
  have hsubset : checkpoint.voters.toFinset ⊆
      (votes.map index).toFinset := by
    intro i hi
    exact mem_toFinset.mpr (h.mem_index (mem_toFinset.mp hi))
  have hcard : (votes.map index).toFinset.card ≤ checkpoint.voters.toFinset.card := by
    rw [hvotes.card_keys, Checkpoint.voters, h.increasing.card_keys, hfull]
    exact hvotes.length_le hbound
  have heq := Finset.eq_of_subset_of_card_le hsubset hcard
  rw [← mem_toFinset, heq]
  exact mem_toFinset.mpr hk

/-- A checkpoint made of the copy alone. -/
theorem aggregated_of_copy (hcopy : SortedVector.Increasing index copy)
    (hsub : ∀ entry ∈ copy, entry ∈ votes) (hmin : checkpointMinVotes ≤ copy.length) :
    Aggregated votes blockHash
      { makeEmptyServiceNodeCheckpoint blockHash height with
        signatures := copy.map toSignature } where
  type := rfl
  blockHash := rfl
  increasing := pairwise_map.mpr hcopy
  minVotes := by rwa [length_map]
  voted := by
    intro signature hsignature
    obtain ⟨entry, hentry, rfl⟩ := mem_map.mp hsignature
    exact mem_map_of_mem (hsub entry hentry)

/-- The stored signatures with those of the copy merged in. -/
theorem mergedSignatures_spec
    (hstored : checkpoint.Unsigned ∨ Aggregated votes blockHash checkpoint)
    (hsub : ∀ entry ∈ copy, entry ∈ votes)
    (hmerged : copy.foldl addSignature (checkpoint.signatures.insertionSort
      fun a b => a.voterIndex ≤ b.voterIndex, false) = (signatures, changed)) :
    SortedVector.Increasing voterIndex signatures ∧
      (∀ signature ∈ signatures, signature ∈ votes.map toSignature) ∧
      (∀ k, k ∈ signatures.map voterIndex ↔ k ∈ copy.map index ∨ k ∈ checkpoint.voters) ∧
      (changed = false → signatures = checkpoint.signatures) := by
  have hincreasing : SortedVector.Increasing voterIndex checkpoint.signatures := by
    rcases hstored with ⟨-, hnil⟩ | hstored
    · rw [hnil]
      exact List.Pairwise.nil
    · exact hstored.increasing
  have hvoted : ∀ signature ∈ checkpoint.signatures, signature ∈ votes.map toSignature := by
    rcases hstored with ⟨-, hnil⟩ | hstored
    · rw [hnil]
      exact fun _ h => absurd h not_mem_nil
    · exact hstored.voted
  rw [(hincreasing.imp fun hlt => hlt.le).insertionSort_eq] at hmerged
  obtain ⟨hfold, hsame⟩ := foldl_addSignature copy (checkpoint.signatures, false)
  rw [hmerged] at hfold hsame
  obtain ⟨hsorted, hkeys⟩ := hincreasing.foldl_insertUnique (copy.map toSignature)
  rw [map_voterIndex_toSignature] at hkeys
  dsimp only at hfold
  rw [← hfold] at hsorted hkeys
  refine ⟨hsorted, ?_, hkeys, fun hflag => congrArg Prod.fst (hsame hflag)⟩
  intro signature hsignature
  rw [hfold] at hsignature
  rcases SortedVector.mem_of_mem_foldl_insertUnique hsignature with h | h <;> grind

section Branches

variable {stored : Option Checkpoint} {checkpoint : Checkpoint}

theorem checkpointToStore_of_other
    (h : stored.filter (fun checkpoint => checkpoint.blockHash = blockHash) = none) :
    checkpointToStore stored height blockHash copy =
      some { makeEmptyServiceNodeCheckpoint blockHash height with
        signatures := copy.map toSignature } := by
  rw [checkpointToStore, h]

theorem checkpointToStore_of_full
    (h : stored.filter (fun checkpoint => checkpoint.blockHash = blockHash) = some checkpoint)
    (hfull : checkpoint.signatures.length = checkpointQuorumSize) :
    checkpointToStore stored height blockHash copy = none := by
  rw [checkpointToStore, h]
  exact if_pos hfull

theorem checkpointToStore_of_merge
    (h : stored.filter (fun checkpoint => checkpoint.blockHash = blockHash) = some checkpoint)
    (hfull : checkpoint.signatures.length ≠ checkpointQuorumSize)
    (hmerged : copy.foldl addSignature (checkpoint.signatures.insertionSort
      fun a b => a.voterIndex ≤ b.voterIndex, false) = (signatures, changed)) :
    checkpointToStore stored height blockHash copy =
      if changed then some { checkpoint with signatures } else none := by
  rw [checkpointToStore, h]
  simp only [if_neg hfull, hmerged]

end Branches

/-- Enough votes leave a checkpoint with the signatures of the copy and the old ones, be it
the stored one or one to store. -/
theorem checkpointToStore_spec {stored : Option Checkpoint}
    (hstored : ∀ checkpoint ∈ stored, checkpoint.height = height ∧
      (checkpoint.blockHash = blockHash →
        checkpoint.Unsigned ∨ Aggregated votes blockHash checkpoint))
    (hvotes : SortedVector.Increasing index votes)
    (hbound : ∀ entry ∈ votes, entry.index < checkpointQuorumSize)
    (hcopy : SortedVector.Increasing index copy) (hsub : ∀ entry ∈ copy, entry ∈ votes)
    (hmin : checkpointMinVotes ≤ copy.length) :
    ∃ final, Aggregated votes blockHash final ∧ (∀ k ∈ copy.map index, k ∈ final.voters) ∧
      (∀ checkpoint ∈ stored, checkpoint.blockHash = blockHash →
        ∀ k ∈ checkpoint.voters, k ∈ final.voters) ∧
      (checkpointToStore stored height blockHash copy = none ∧ stored = some final ∨
        ∃ checkpoint, checkpointToStore stored height blockHash copy = some checkpoint ∧
          checkpoint.height = height ∧ checkpoint.readBack = final) := by
  have hnonempty : 0 < copy.length := lt_of_lt_of_le (by decide) hmin
  cases hfound : stored.filter fun checkpoint => checkpoint.blockHash = blockHash with
  | none =>
    let made : Checkpoint := { makeEmptyServiceNodeCheckpoint blockHash height with
      signatures := copy.map toSignature }
    have hagg : Aggregated votes blockHash made := aggregated_of_copy hcopy hsub hmin
    refine ⟨made, hagg, fun k hk => ?_, fun checkpoint hmem hhash => ?_,
      Or.inr ⟨made, checkpointToStore_of_other hfound, rfl, ?_⟩⟩
    · rwa [Checkpoint.voters, map_voterIndex_toSignature]
    · exact absurd hhash (by simpa using Option.filter_eq_none_iff.mp hfound checkpoint hmem)
    · exact hagg.readBack_eq rfl
  | some checkpoint =>
    obtain ⟨hmem, hhash⟩ := Option.filter_eq_some_iff.mp hfound
    rw [decide_eq_true_eq] at hhash
    obtain ⟨hheight, hsigned⟩ := hstored checkpoint hmem
    have hunique : ∀ other ∈ stored, other = checkpoint := by
      intro other hother
      exact Option.mem_unique hother hmem
    by_cases hfull : checkpoint.signatures.length = checkpointQuorumSize
    · have hne : checkpoint.signatures ≠ [] := by
        intro hnil
        rw [hnil] at hfull
        cases hfull
      have hagg := (hsigned hhash).resolve_left fun h => hne h.2
      grind [checkpointToStore_of_full, hagg.mem_voters_of_full]
    · obtain ⟨⟨signatures, changed⟩, hmerged⟩ : ∃ merged, copy.foldl addSignature
          (checkpoint.signatures.insertionSort fun a b => a.voterIndex ≤ b.voterIndex, false) =
          merged := ⟨_, rfl⟩
      obtain ⟨hincreasing, hvoted, hkeys, hsame⟩ :=
        mergedSignatures_spec (hsigned hhash) hsub hmerged
      have hlength : copy.length ≤ signatures.length :=
        hcopy.length_le_of_keys_subset hincreasing fun k hk => (hkeys k).mpr (Or.inl hk)
      let final : Checkpoint := { checkpoint with type := .serviceNode, signatures }
      have hagg : Aggregated votes blockHash final :=
        ⟨rfl, hhash, hincreasing, hmin.trans hlength, hvoted⟩
      refine ⟨final, hagg, fun k hk => (hkeys k).mpr (Or.inl hk), fun other hother _ k hk => ?_, ?_⟩
      · rw [hunique other hother] at hk
        exact (hkeys k).mpr (Or.inr hk)
      · rw [checkpointToStore_of_merge hfound hfull hmerged]
        cases changed with
        | true => exact Or.inr ⟨_, rfl, hheight, hagg.readBack_eq rfl⟩
        | false =>
          have hnone : checkpoint.signatures ≠ [] := by
            rw [← hsame rfl]
            exact ne_nil_of_length_pos (hnonempty.trans_le hlength)
          have htype := ((hsigned hhash).resolve_left fun h => hnone h.2).type
          have hfinal : final = checkpoint := by
            simp only [final, hsame rfl, ← htype]
          exact Or.inl ⟨rfl, hfinal ▸ hmem⟩

/-- After a call with enough votes the stored checkpoint has their signatures. -/
theorem handleCheckpointVote_spec (currentVersion : List MainBlock → ℕ) (hpos : height ≠ 0)
    (hstored : ∀ checkpoint ∈ chain.getCheckpoint height, checkpoint.blockHash = blockHash →
      checkpoint.Unsigned ∨ Aggregated votes blockHash checkpoint)
    (hvotes : SortedVector.Increasing index votes)
    (hbound : ∀ entry ∈ votes, entry.index < checkpointQuorumSize)
    (hcopy : SortedVector.Increasing index copy) (hsub : ∀ entry ∈ copy, entry ∈ votes)
    (hmin : checkpointMinVotes ≤ copy.length) :
    (∃ final, (handleCheckpointVote currentVersion chain height blockHash copy).1.getCheckpoint
        height = some final ∧ Aggregated votes blockHash final ∧
      (∀ k ∈ copy.map index, k ∈ final.voters) ∧
      ∀ checkpoint ∈ chain.getCheckpoint height, checkpoint.blockHash = blockHash →
        ∀ k ∈ checkpoint.voters, k ∈ final.voters) ∧
      ∀ detached ∈ (handleCheckpointVote currentVersion chain height blockHash copy).2,
        detached = height := by
  have hfound : ∀ checkpoint ∈ chain.getCheckpoint height, checkpoint.height = height ∧
      (checkpoint.blockHash = blockHash →
        checkpoint.Unsigned ∨ Aggregated votes blockHash checkpoint) :=
    fun checkpoint hmem =>
      ⟨(OrderedTable.find?_eq_some.mp hmem).2, hstored checkpoint hmem⟩
  obtain ⟨final, hagg, hnew, hold, hresult⟩ :=
    checkpointToStore_spec hfound hvotes hbound hcopy hsub hmin
  grind [handleCheckpointVote, Blockchain.updateCheckpoint_spec]

/-- What a call with any copy keeps of the stored checkpoint, and what it adds. -/
theorem handleCheckpointVote_keeps (hpos : height ≠ 0)
    (hstored : ∀ checkpoint ∈ chain.getCheckpoint height, checkpoint.blockHash = blockHash →
      checkpoint.Unsigned ∨ Aggregated votes blockHash checkpoint)
    (hvotes : SortedVector.Increasing index votes)
    (hbound : ∀ entry ∈ votes, entry.index < checkpointQuorumSize)
    (hcopy : SortedVector.Increasing index copy) (hsub : ∀ entry ∈ copy, entry ∈ votes)
    {result : Blockchain × Option ℕ}
    (hresult : handleCheckpointVote currentVersion chain height blockHash copy = result) :
    (∀ detached ∈ result.2, detached = height) ∧
      (∀ checkpoint ∈ result.1.getCheckpoint height, checkpoint.blockHash = blockHash →
        checkpoint.Unsigned ∨ Aggregated votes blockHash checkpoint) ∧
      (Complete votes blockHash (chain.getCheckpoint height) →
        Complete votes blockHash (result.1.getCheckpoint height)) ∧
      (copy = votes → checkpointMinVotes ≤ votes.length →
        Complete votes blockHash (result.1.getCheckpoint height)) := by
  by_cases hmin : copy.length < checkpointMinVotes
  · grind [handleCheckpointVote]
  · obtain ⟨⟨final, hfinal, hagg, hnew, hold⟩, hdetached⟩ := handleCheckpointVote_spec
      currentVersion hpos hstored hvotes hbound hcopy hsub (not_lt.mp hmin)
    grind [Complete, hagg.blockHash]

end Merge

end Arqma.ServiceNodes
