import Arqma.PulseCollector
import Arqma.QuorumCop
import Arqma.ServiceNodeState

/-!
# From votes to checkpoints

Whatever the order in which the votes on a block arrive, and however the calls that handle
them interleave, the stored checkpoint ends with one signature for every voter.
-/
namespace Arqma.ServiceNodes
open Arqma.Cryptonote Arqma.Chain List

variable {crypto : Crypto} {checkpoint : Checkpoint} {chain : Blockchain}

/-- The votes that enter the pool in a run. -/
def delivered (steps : List CopStep) : List QuorumVote :=
  steps.filterMap fun
    | .add vote => some vote
    | .merge _ => none

def voters (votes : List QuorumVote) : Finset ℕ := (votes.map QuorumVote.indexInGroup).toFinset

/-- The signatures stored for a block; another block's are not counted. -/
def storedSignatures (chain : Blockchain) (height : ℕ) (blockHash : Hash) :
    List VoterToSignature :=
  (((chain.getCheckpoint height).filter fun checkpoint =>
    checkpoint.blockHash = blockHash).map Checkpoint.signatures).getD []

def storedVoters (chain : Blockchain) (height : ℕ) (blockHash : Hash) : Finset ℕ :=
  ((storedSignatures chain height blockHash).map VoterToSignature.voterIndex).toFinset

section Runs

variable {currentVersion : List MainBlock → ℕ} {height : ℕ} {blockHash : Hash}
  {cop : QuorumCop} {arrived : List QuorumVote}

def QuorumCop.votes (cop : QuorumCop) (height : ℕ) (blockHash : Hash) : List PoolVoteEntry :=
  votesOn cop.pool
    { blockHeight := height, indexInGroup := 0, signature := 0, subject := .checkpoint blockHash }

/-- What holds between two steps once these votes have arrived. The votes of the pool that
are not stored yet are in the copy of a pending call, all together. -/
structure Collected (height : ℕ) (blockHash : Hash) (arrived : List QuorumVote)
    (cop : QuorumCop) : Prop where
  increasing : SortedVector.Increasing PoolVoteEntry.index (cop.votes height blockHash)
  mem_arrived : ∀ entry ∈ cop.votes height blockHash, entry.vote ∈ arrived
  mem_voters : ∀ k, k ∈ (cop.votes height blockHash).map PoolVoteEntry.index ↔
    k ∈ arrived.map QuorumVote.indexInGroup
  about : ∀ call ∈ cop.pending,
    call.1.blockHeight = height ∧ call.1.subject = .checkpoint blockHash
  copies : ∀ call ∈ cop.pending, SortedVector.Increasing PoolVoteEntry.index call.2 ∧
    ∀ entry ∈ call.2, entry ∈ cop.votes height blockHash
  stored : ∀ checkpoint ∈ cop.chain.getCheckpoint height, checkpoint.blockHash = blockHash →
    checkpoint.Unsigned ∨ Aggregated (cop.votes height blockHash) blockHash checkpoint
  complete : checkpointMinVotes ≤ (cop.votes height blockHash).length →
    Complete (cop.votes height blockHash) blockHash (cop.chain.getCheckpoint height) ∨
    ∃ call ∈ cop.pending, call.2 = cop.votes height blockHash

variable {vote : QuorumVote} {quorum : Quorum}

/-- A vote on the block goes to its place among the others, and a call with a copy of them
stays pending if the voter is new. -/
theorem QuorumCop.add_spec (cop : QuorumCop) (hheight : vote.blockHeight = height)
    (hsubject : vote.subject = .checkpoint blockHash) :
    (cop.add vote).votes height blockHash =
        SortedVector.insertUnique PoolVoteEntry.index ⟨vote, 0⟩ (cop.votes height blockHash) ∧
      (cop.add vote).pending = cop.pending ++
        (if (addVoteToPoolIfUnique (cop.votes height blockHash) vote).2 then
          [(vote, (cop.add vote).votes height blockHash)] else []) := by
  obtain ⟨hresult, hvotes⟩ := addPoolVoteIfUnique_eq cop.pool vote
  have hsame : votesOn cop.pool vote = cop.votes height blockHash :=
    votesOn_congr cop.pool hheight hsubject
  grind [votes, add, addVoteToPoolIfUnique_eq]

theorem Collected.add (h : Collected height blockHash arrived cop)
    (hheight : vote.blockHeight = height) (hsubject : vote.subject = .checkpoint blockHash) :
    Collected height blockHash (arrived ++ [vote]) (cop.add vote) := by
  obtain ⟨hvotes, hpending⟩ := cop.add_spec hheight hsubject
  have hgrown : ∀ entry ∈ cop.votes height blockHash,
      entry ∈ (cop.add vote).votes height blockHash := by
    intro entry hentry
    rw [hvotes]
    exact SortedVector.mem_insertUnique_of_mem _ hentry
  have hincreasing : SortedVector.Increasing PoolVoteEntry.index
      ((cop.add vote).votes height blockHash) := by
    rw [hvotes]
    exact h.increasing.insertUnique _
  have hcall : ∀ call ∈ (cop.add vote).pending, call ∈ cop.pending ∨
      call = (vote, (cop.add vote).votes height blockHash) := by
    intro call hcall
    rw [hpending, mem_append] at hcall
    refine hcall.imp_right fun hcall => ?_
    split_ifs at hcall
    · exact mem_singleton.mp hcall
    · cases hcall
  refine ⟨hincreasing, ?_, ?_, ?_, ?_, ?_, ?_⟩
  · intro entry hentry
    rw [hvotes] at hentry
    rcases SortedVector.mem_of_mem_insertUnique hentry with rfl | hentry <;> grind [h.mem_arrived]
  · grind [PoolVoteEntry.index, h.increasing.mem_keys_insertUnique, h.mem_voters]
  · intro call hmem
    rcases hcall call hmem with hold | rfl
    · exact h.about call hold
    · exact ⟨hheight, hsubject⟩
  · intro call hmem
    grind [h.copies]
  · intro checkpoint hmem hhash
    exact (h.stored checkpoint hmem hhash).imp_right fun hagg => hagg.mono hgrown
  · -- A new voter's call holds all votes; a known voter's vote changes nothing.
    intro hmin
    cases hadded : (addVoteToPoolIfUnique (cop.votes height blockHash) vote).2 with
    | true =>
      simp [hadded, hpending]
    | false =>
      rw [hadded, if_neg Bool.false_ne_true, append_nil] at hpending
      have hsame : (cop.add vote).votes height blockHash = cop.votes height blockHash := by
        grind [PoolVoteEntry.index, addVoteToPoolIfUnique_snd, h.increasing,
          h.increasing.insertUnique_of_mem]
      rw [hsame] at hmin ⊢
      rw [hpending]
      exact h.complete hmin

/-- A pending call on the block is finished. -/
theorem QuorumCop.merge_spec {i : ℕ} {copy : List PoolVoteEntry}
    (hcall : cop.pending[i]? = some (vote, copy)) (hheight : vote.blockHeight = height)
    (hsubject : vote.subject = .checkpoint blockHash) :
    cop.merge currentVersion i =
      { pool := (handleCheckpointVote currentVersion cop.chain height blockHash copy).2.elim
          cop.pool (removeExpiredVotes cop.pool)
        chain := (handleCheckpointVote currentVersion cop.chain height blockHash copy).1
        pending := cop.pending.eraseIdx i } := by
  simp only [QuorumCop.merge, hcall, hsubject, hheight]

theorem QuorumCop.votes_of_detached (cop : QuorumCop) {detached : Option ℕ}
    (h : ∀ d ∈ detached, d = height) (chain : Blockchain)
    (pending : List (QuorumVote × List PoolVoteEntry)) :
    QuorumCop.votes ⟨detached.elim cop.pool (removeExpiredVotes cop.pool), chain, pending⟩
      height blockHash = cop.votes height blockHash := by
  cases detached with
  | none => rfl
  | some d =>
    obtain rfl := h d rfl
    exact votesOn_removeExpiredVotes cop.pool (Nat.sub_le _ _) (le_refl _)

theorem Collected.merge (h : Collected height blockHash arrived cop) (hpos : height ≠ 0)
    (hbound : ∀ vote ∈ arrived, vote.indexInGroup < checkpointQuorumSize) (i : ℕ) :
    Collected height blockHash arrived (cop.merge currentVersion i) := by
  cases hcall : cop.pending[i]? with
  | none =>
    have hsame : cop.merge currentVersion i = cop := by simp only [QuorumCop.merge, hcall]
    rwa [hsame]
  | some call =>
    obtain ⟨vote, copy⟩ := call
    have hmem : (vote, copy) ∈ cop.pending := mem_of_getElem? hcall
    obtain ⟨hheight, hsubject⟩ := h.about _ hmem
    obtain ⟨hcopy, hsub⟩ := h.copies _ hmem
    rw [QuorumCop.merge_spec hcall hheight hsubject]
    have hrest : ∀ call ∈ cop.pending.eraseIdx i, call ∈ cop.pending :=
      fun call hcall => mem_of_mem_eraseIdx hcall
    have hother : ∀ call ∈ cop.pending, call = (vote, copy) ∨ call ∈ cop.pending.eraseIdx i := by
      grind [mem_iff_getElem?.mp, mem_eraseIdx_iff_getElem?.mpr]
    have hvotes : ∀ entry ∈ cop.votes height blockHash, entry.index < checkpointQuorumSize :=
      fun entry hentry => hbound entry.vote (h.mem_arrived entry hentry)
    obtain ⟨⟨chain, detached⟩, hresult⟩ : ∃ result,
      handleCheckpointVote currentVersion cop.chain height blockHash copy = result := ⟨_, rfl⟩
    obtain ⟨hdetached, hstored, hkept, hmerged⟩ :=
      handleCheckpointVote_keeps hpos h.stored h.increasing hvotes hcopy hsub hresult
    have hpool : QuorumCop.votes ⟨detached.elim cop.pool (removeExpiredVotes cop.pool), chain,
        cop.pending.eraseIdx i⟩ height blockHash = cop.votes height blockHash :=
      cop.votes_of_detached hdetached chain _
    rw [hresult]
    refine ⟨?_, ?_, ?_, fun call hcall => h.about call (hrest call hcall), ?_, ?_, ?_⟩ <;>
      rw [hpool]
    · exact h.increasing
    · exact h.mem_arrived
    · exact h.mem_voters
    · exact fun call hcall => h.copies call (hrest call hcall)
    · exact hstored
    · intro hmin
      rcases h.complete hmin with hcomplete | ⟨call, hcall, hall⟩
      · exact Or.inl (hkept hcomplete)
      · rcases hother call hcall with rfl | hcall
        · exact Or.inl (hmerged hall hmin)
        · exact Or.inr ⟨call, hcall, hall⟩

/-- No vote on the block is in the pool or under way, and no signature for it is stored. -/
structure Fresh (height : ℕ) (blockHash : Hash) (cop : QuorumCop) : Prop where
  votes : cop.votes height blockHash = []
  pending : cop.pending = []
  stored : ∀ checkpoint ∈ cop.chain.getCheckpoint height, checkpoint.blockHash = blockHash →
    checkpoint.Unsigned

theorem Fresh.collected (h : Fresh height blockHash cop) : Collected height blockHash [] cop := by
  have hcall : ∀ call, call ∉ cop.pending := by
    rw [h.pending]
    exact fun _ => not_mem_nil
  refine ⟨?_, ?_, ?_, fun call hmem => absurd hmem (hcall call),
    fun call hmem => absurd hmem (hcall call), ?_, ?_⟩
  · rw [h.votes]
    exact List.Pairwise.nil
  · simp [h.votes]
  · simp [h.votes]
  · exact fun checkpoint hmem hhash => Or.inl (h.stored checkpoint hmem hhash)
  · simp [h.votes, checkpointMinVotes]

/-- What the cop has checked of a vote on the block before it enters the pool. -/
structure VerifiedVote (crypto : Crypto) (quorum : Quorum) (height : ℕ) (blockHash : Hash)
    (vote : QuorumVote) : Prop where
  height : vote.blockHeight = height
  subject : vote.subject = .checkpoint blockHash
  verified : verifyVoteSignature crypto vote quorum = .ok ()

theorem VerifiedVote.signedBy
    (h : VerifiedVote crypto quorum height blockHash vote) :
    Chain.SignedBy crypto quorum blockHash ⟨vote.indexInGroup, vote.signature⟩ := by
  have hverified := h.verified
  grind [verifyVoteSignature, Chain.SignedBy, h.subject]

/-- The run lemma: the votes that have arrived are collected after every step. -/
theorem Fresh.collected_after (h : Fresh height blockHash cop) (hpos : height ≠ 0)
    (steps : List CopStep)
    (habout : ∀ vote ∈ delivered steps, vote.blockHeight = height ∧
      vote.subject = .checkpoint blockHash ∧ vote.indexInGroup < checkpointQuorumSize) :
    Collected height blockHash (delivered steps) (cop.after currentVersion steps) := by
  induction steps using List.reverseRecOn with
  | nil => exact h.collected
  | append_singleton steps step ih =>
    have hdelivered : delivered (steps ++ [step]) = delivered steps ++ delivered [step] :=
      filterMap_append
    rw [hdelivered] at habout ⊢
    have hbefore := ih fun vote hvote => habout vote (mem_append_left _ hvote)
    rw [QuorumCop.after, foldl_append]
    cases step with
    | add vote =>
      obtain ⟨hheight, hsubject, -⟩ := habout vote (mem_append_right _ mem_cons_self)
      exact hbefore.add hheight hsubject
    | merge i =>
      rw [show delivered [.merge i] = [] from rfl, append_nil] at habout ⊢
      exact hbefore.merge hpos (fun vote hvote => (habout vote hvote).2.2) i

theorem storedVoters_of_mem
    (hmem : checkpoint ∈ chain.getCheckpoint height) (hhash : checkpoint.blockHash = blockHash) :
    storedVoters chain height blockHash = checkpoint.voters.toFinset := by
  have hget : chain.getCheckpoint height = some checkpoint := hmem
  rw [storedVoters, storedSignatures, hget, Option.filter_some, if_pos (decide_eq_true hhash)]
  rfl

theorem storedVoters_of_other
    (hother : ∀ checkpoint ∈ chain.getCheckpoint height, checkpoint.blockHash ≠ blockHash) :
    storedVoters chain height blockHash = ∅ := by
  have hnone : ((chain.getCheckpoint height).filter fun checkpoint =>
      checkpoint.blockHash = blockHash) = none :=
    Option.filter_eq_none_iff.mpr fun checkpoint hmem => by simpa using hother checkpoint hmem
  rw [storedVoters, storedSignatures, hnone]
  rfl

theorem Collected.voters_eq (h : Collected height blockHash arrived cop) :
    voters arrived = ((cop.votes height blockHash).map PoolVoteEntry.index).toFinset := by
  ext k
  rw [voters, mem_toFinset, mem_toFinset]
  exact (h.mem_voters k).symm

/-- With nothing pending the stored voters are those that have voted, once they are enough. -/
theorem Collected.storedVoters_eq (h : Collected height blockHash arrived cop)
    (hpending : cop.pending = []) :
    storedVoters cop.chain height blockHash =
      if checkpointMinVotes ≤ (voters arrived).card then voters arrived else ∅ := by
  have hcard : (voters arrived).card = (cop.votes height blockHash).length := by
    rw [h.voters_eq, h.increasing.card_keys]
  rw [hcard]
  split_ifs with hmin
  · rcases h.complete hmin with ⟨checkpoint, hmem, hhash, hvoters⟩ | ⟨call, hcall, -⟩
    · rw [storedVoters_of_mem hmem hhash, h.voters_eq]
      ext k
      rw [mem_toFinset, mem_toFinset]
      refine ⟨fun hk => ?_, hvoters k⟩
      rcases h.stored checkpoint hmem hhash with ⟨-, hnil⟩ | hagg
      · rw [Checkpoint.voters, hnil] at hk
        cases hk
      · exact hagg.mem_index hk
    · rw [hpending] at hcall
      cases hcall
  · by_cases hstored : ∃ checkpoint ∈ cop.chain.getCheckpoint height,
        checkpoint.blockHash = blockHash
    · obtain ⟨checkpoint, hmem, hhash⟩ := hstored
      rw [storedVoters_of_mem hmem hhash]
      rcases h.stored checkpoint hmem hhash with ⟨-, hnil⟩ | hagg
      · rw [Checkpoint.voters, hnil]
        rfl
      · have hlength := hagg.increasing.length_le_of_keys_subset h.increasing
          fun k hk => hagg.mem_index hk
        exact absurd (hagg.minVotes.trans hlength) hmin
    · refine storedVoters_of_other fun checkpoint hmem hhash => ?_
      exact hstored ⟨checkpoint, hmem, hhash⟩

theorem checkpointing_eq_some {rng : RandomEngine} {hardForkVersion : ℕ} {s : State}
    (h : (generateQuorums rng hardForkVersion s).checkpointing = some quorum) :
    (s.height + reorgSafetyBufferInBlocks) % checkpointInterval = 0 ∧
      quorum.validators.length ≤ checkpointQuorumSize := by
  grind [generateQuorums, checkpointingQuorum_validators_length]

theorem VerifiedVote.index_lt
    (h : VerifiedVote crypto quorum height blockHash vote)
    (hsize : quorum.validators.length ≤ checkpointQuorumSize) :
    vote.indexInGroup < checkpointQuorumSize :=
  h.signedBy.lt_length.trans_le hsize

theorem Aggregated.verifyCheckpoint_eq_true {votes : List PoolVoteEntry}
    (h : Aggregated votes blockHash checkpoint)
    (hheight : checkpoint.height % checkpointInterval = 0)
    (hmax : checkpoint.signatures.length ≤ checkpointQuorumSize)
    (hverified : ∀ entry ∈ votes, VerifiedVote crypto quorum height blockHash entry.vote)
    (hardForkVersion : ℕ) : verifyCheckpoint crypto hardForkVersion checkpoint quorum = true := by
  refine verifyCheckpoint_of_increasing h.type hheight h.minVotes hmax h.increasing ?_
  intro signature hsignature
  obtain ⟨entry, hentry, rfl⟩ := mem_map.mp (h.voted signature hsignature)
  rw [h.blockHash]
  exact (hverified entry hentry).signedBy

variable (crypto : Crypto) (currentVersion)

/-- The steps of one call: a refused vote makes none, a vote that is in the pool already only the
first. -/
def QuorumCop.callSteps (cop : QuorumCop) (vote : QuorumVote) (found : Option Quorum) :
    List CopStep :=
  match verifyVoteAge vote cop.chain.height, found with
  | .ok _, some quorum =>
    match verifyVoteSignature crypto vote quorum with
    | .ok _ => .add vote ::
        if (addPoolVoteIfUnique cop.pool vote).2.2 then [.merge cop.pending.length] else []
    | .error _ => []
  | _, _ => []

def QuorumCop.callsSteps : QuorumCop → List (QuorumVote × Option Quorum) → List CopStep
  | _, [] => []
  | cop, (vote, found) :: calls =>
    let steps := cop.callSteps crypto vote found
    steps ++ (cop.after currentVersion steps).callsSteps calls

theorem QuorumCop.handleVote_eq (cop : QuorumCop) (vote : QuorumVote) (found : Option Quorum) :
    (cop.handleVote currentVersion crypto found vote).toOption.getD cop =
      cop.after currentVersion (cop.callSteps crypto vote found) := by
  unfold QuorumCop.handleVote QuorumCop.callSteps
  cases verifyVoteAge vote cop.chain.height with
  | error => rfl
  | ok =>
    cases found with
    | none => rfl
    | some quorum =>
      simp only [bind, Except.bind, pure, Except.pure]
      cases verifyVoteSignature crypto vote quorum with
      | error => rfl
      | ok =>
        by_cases hadded : (addPoolVoteIfUnique cop.pool vote).2.2 = true <;>
          simp [hadded, QuorumCop.add, QuorumCop.after, QuorumCop.step, Except.toOption]

/-- A call leaves nothing of itself pending. -/
theorem QuorumCop.pending_callSteps (cop : QuorumCop) (vote : QuorumVote)
    (found : Option Quorum) :
    (cop.after currentVersion (cop.callSteps crypto vote found)).pending = cop.pending := by
  unfold QuorumCop.callSteps
  split
  · split
    · split_ifs with hadded
      · simp only [QuorumCop.after, foldl_cons, foldl_nil, QuorumCop.step]
        grind [QuorumCop.add, QuorumCop.merge, eraseIdx_append_of_length_le]
      · simp [QuorumCop.after, QuorumCop.step, QuorumCop.add, hadded]
    · rfl
  · rfl

theorem QuorumCop.delivered_callSteps {cop : QuorumCop} {vote v : QuorumVote}
    {found : Option Quorum} (hv : v ∈ delivered (cop.callSteps crypto vote found)) :
    v = vote ∧ ∃ quorum, found = some quorum ∧ verifyVoteSignature crypto v quorum = .ok () := by
  unfold QuorumCop.callSteps at hv
  split at hv
  · split at hv
    · next hsigned =>
      obtain rfl : v = vote := by
        split_ifs at hv <;> simpa [delivered] using hv
      exact ⟨rfl, _, rfl, hsigned⟩
    · cases hv
  · cases hv

/-- Calls of `handle_vote` one after the other, each with the quorum found for its vote, are the
run of their steps. It delivers verified votes only and leaves no call pending. -/
theorem handle_vote_calls_run (cop : QuorumCop) (calls : List (QuorumVote × Option Quorum)) :
    let steps := cop.callsSteps currentVersion crypto calls
    calls.foldl (fun cop (vote, found) =>
        (cop.handleVote currentVersion crypto found vote).toOption.getD cop) cop =
        cop.after currentVersion steps ∧
      (cop.after currentVersion steps).pending = cop.pending ∧
      ∀ vote ∈ delivered steps, ∃ quorum, (vote, some quorum) ∈ calls ∧
        verifyVoteSignature crypto vote quorum = .ok () := by
  induction calls generalizing cop with
  | nil => exact ⟨rfl, rfl, by simp [delivered, QuorumCop.callsSteps]⟩
  | cons call calls ih =>
    obtain ⟨vote, found⟩ := call
    intro steps
    have hfirst := cop.handleVote_eq currentVersion crypto vote found
    have hpending := cop.pending_callSteps currentVersion crypto vote found
    obtain ⟨hrest, hkept, hverified⟩ :=
      ih (cop.after currentVersion (cop.callSteps crypto vote found))
    have hafter : cop.after currentVersion steps =
        (cop.after currentVersion (cop.callSteps crypto vote found)).after currentVersion
          ((cop.after currentVersion (cop.callSteps crypto vote found)).callsSteps
            currentVersion crypto calls) := foldl_append
    refine ⟨?_, by rw [hafter, hkept, hpending], fun v hv => ?_⟩
    · rw [hafter, ← hrest, ← hfirst]
      rfl
    · simp only [steps, QuorumCop.callsSteps, delivered, filterMap_append, mem_append] at hv
      rcases hv with hv | hv
      · obtain ⟨rfl, quorum, rfl, hsigned⟩ := QuorumCop.delivered_callSteps crypto hv
        exact ⟨quorum, mem_cons_self, hsigned⟩
      · exact (hverified v hv).imp fun _ h => ⟨mem_cons_of_mem _ h.1, h.2⟩

end Runs

/-- Votes on one block of a checkpoint height, verified against the quorum of that height and
delivered in any order and interleaving. After each step a stored service node checkpoint of
the block is sorted by its voters, not too large, signed by delivered votes only, and it
verifies. Once nothing is pending it has one signature for every voter if they are enough,
and so the order does not matter. -/
theorem checkpoint_votes_order_independent (crypto : Crypto) (rng : RandomEngine)
    (hardForkVersion : ℕ) (s : State) (quorum : Quorum) (height : ℕ) (blockHash : Hash)
    (hquorum : (generateQuorums rng hardForkVersion s).checkpointing = some quorum)
    (hheight : height = s.height + reorgSafetyBufferInBlocks)
    (currentVersion : List MainBlock → ℕ) (cop : QuorumCop) (hfresh : Fresh height blockHash cop)
    (steps : List CopStep)
    (hverified : ∀ vote ∈ delivered steps, VerifiedVote crypto quorum height blockHash vote) :
    (∀ checkpoint, (cop.after currentVersion steps).chain.getCheckpoint height = some checkpoint →
      checkpoint.blockHash = blockHash → checkpoint.type = .serviceNode →
        checkpoint.signatures.Pairwise (fun a b => a.voterIndex < b.voterIndex) ∧
        checkpoint.signatures.length ≤ checkpointQuorumSize ∧
        (∀ signature ∈ checkpoint.signatures, ∃ vote ∈ delivered steps,
          signature = ⟨vote.indexInGroup, vote.signature⟩) ∧
        ∀ version, verifyCheckpoint crypto version checkpoint quorum = true) ∧
      ((cop.after currentVersion steps).pending = [] →
        storedVoters (cop.after currentVersion steps).chain height blockHash =
          if checkpointMinVotes ≤ (voters (delivered steps)).card then voters (delivered steps)
          else ∅) ∧
      ∀ steps', (delivered steps').Perm (delivered steps) →
        (cop.after currentVersion steps).pending = [] →
        (cop.after currentVersion steps').pending = [] →
        storedVoters (cop.after currentVersion steps').chain height blockHash =
          storedVoters (cop.after currentVersion steps).chain height blockHash := by
  obtain ⟨hmultiple, hsize⟩ := checkpointing_eq_some hquorum
  rw [← hheight] at hmultiple
  have hpos : height ≠ 0 := by
    have hbuffer : 0 < reorgSafetyBufferInBlocks := by decide
    omega
  have hcollected : ∀ run : List CopStep,
      (∀ vote ∈ delivered run, VerifiedVote crypto quorum height blockHash vote) →
      Collected height blockHash (delivered run) (cop.after currentVersion run) :=
    fun run hrun => hfresh.collected_after hpos run fun vote hvote =>
      ⟨(hrun vote hvote).height, (hrun vote hvote).subject, (hrun vote hvote).index_lt hsize⟩
  have hrun := hcollected steps hverified
  refine ⟨fun checkpoint hget hhash htype => ?_, hrun.storedVoters_eq, ?_⟩
  · have hagg := (hrun.stored checkpoint hget hhash).resolve_left fun h => by
      cases htype.symm.trans h.1
    have hvotes : ∀ entry ∈ (cop.after currentVersion steps).votes height blockHash,
        VerifiedVote crypto quorum height blockHash entry.vote :=
      fun entry hentry => hverified entry.vote (hrun.mem_arrived entry hentry)
    have hsource : ∀ signature ∈ checkpoint.signatures, ∃ vote ∈ delivered steps,
        signature = ⟨vote.indexInGroup, vote.signature⟩ := by
      intro signature hsignature
      obtain ⟨entry, hentry, rfl⟩ := mem_map.mp (hagg.voted signature hsignature)
      exact ⟨entry.vote, hrun.mem_arrived entry hentry, rfl⟩
    have hmax : checkpoint.signatures.length ≤ checkpointQuorumSize := by
      refine hagg.increasing.length_le fun signature hsignature => ?_
      obtain ⟨vote, hvote, rfl⟩ := hsource signature hsignature
      exact (hverified vote hvote).index_lt hsize
    have hat : checkpoint.height = height := (OrderedTable.find?_eq_some.mp hget).2
    exact ⟨hagg.increasing, hmax, hsource,
      hagg.verifyCheckpoint_eq_true (hat ▸ hmultiple) hmax hvotes⟩
  · intro steps' hperm hpending hpending'
    have hrun' := hcollected steps' fun vote hvote => hverified vote (hperm.mem_iff.mp hvote)
    have hvoters : voters (delivered steps') = voters (delivered steps) :=
      toFinset_eq_of_perm _ _ (hperm.map _)
    rw [hrun'.storedVoters_eq hpending', hrun.storedVoters_eq hpending, hvoters]

/-- Five active nodes at the height whose state gives the quorum of the checkpoint at 12. -/
def votingNodes : State where
  height := 1
  serviceNodesInfos := ((List.range 5).map fun i => ⟨BitVec.ofNat 256 i, {}⟩).toAList

def votingQuorum : Quorum := checkpointingQuorum RandomEngine.zero votingNodes

theorem votingQuorum_length : votingQuorum.validators.length = 5 := by
  have hactive : votingNodes.activeServiceNodesInfos.length = 5 := by
    decide
  rw [votingQuorum, checkpointingQuorum_validators_length, hactive]
  rfl

def lenientVoteCrypto : Crypto := { Pulse.sampleCrypto with checkSignature := fun _ _ _ => true }

def voteFor (i : ℕ) : QuorumVote where
  blockHeight := 12
  indexInGroup := i
  signature := 0
  subject := .checkpoint 7

theorem voteFor_verified {i : ℕ} (hi : i < 5) :
    VerifiedVote lenientVoteCrypto votingQuorum 12 7 (voteFor i) := by
  refine ⟨rfl, rfl, ?_⟩
  have hlt : i < votingQuorum.validators.length := votingQuorum_length ▸ hi
  simp [verifyVoteSignature, voteFor, getElem?_eq_getElem hlt, lenientVoteCrypto]

def idleCop : QuorumCop where
  chain := { main := [{ block := { majorVersion := 17, minerTx := {}, hash := 0 } }] }

theorem idleCop_fresh : Fresh 12 7 idleCop := ⟨rfl, rfl, fun _ h => nomatch h⟩

/-- The last call overtakes the others, and one vote comes twice. -/
def overtakingRun : List CopStep :=
  [.add (voteFor 3), .add (voteFor 1), .add (voteFor 3), .add (voteFor 0), .add (voteFor 4),
    .add (voteFor 2), .merge 4, .merge 0, .merge 0, .merge 0, .merge 0]

theorem overtaking_votes_stored :
    storedVoters (idleCop.after (fun _ => 17) overtakingRun).chain 12 7 = {0, 1, 2, 3, 4} := by
  have hstored := (checkpoint_votes_order_independent lenientVoteCrypto RandomEngine.zero 17
    votingNodes votingQuorum 12 7 rfl rfl (fun _ => 17) idleCop idleCop_fresh overtakingRun
    (by
      intro vote hvote
      have hsmall : ∃ i < 5, vote = voteFor i := by
        simp only [overtakingRun, delivered, filterMap_cons, filterMap_nil,
          mem_cons, not_mem_nil, or_false] at hvote
        grind
      obtain ⟨i, hi, rfl⟩ := hsmall
      exact voteFor_verified hi)).2.1
  rw [hstored (by decide)]
  decide

end Arqma.ServiceNodes
