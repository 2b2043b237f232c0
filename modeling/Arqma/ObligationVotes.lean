import Arqma.MinerTx
import Arqma.QuorumCop
import Arqma.Staking

/-!
# Votes on the state of a service node

Votes of the obligations quorum are verified one by one when they enter the pool. When enough of
them are together, the cop makes a transaction out of the pool's entry. The transaction is verified
again, by the rules for transactions. What was taken into the pool passes there.
-/
namespace Arqma.ServiceNodes
open Arqma.Cryptonote List QuorumVote

variable {vote : QuorumVote} {canTransition : Bool} {latestHeight hfVersion : ℕ}
  {cop cop' : ObligationsCop} {entry : PoolEntry}

section Model

variable (crypto : Crypto) (quorumAt : QuorumType → ℕ → Option Quorum)

def PoolVoteEntry.toStateChangeVote (entry : PoolVoteEntry) : StateChangeVote where
  signature := entry.vote.signature
  validatorIndex := entry.vote.indexInGroup

/-- The transaction that is sent to the own pool, unless votes are missing or the node is gone or
cannot go to the state. -/
def handleObligationsVote (hfVersion : ℕ) (canTransition : Bool) (vote : QuorumVote)
    (votes : List PoolVoteEntry) : Option Transaction :=
  match vote.subject with
  | .checkpoint _ => none
  | .stateChange workerIndex state =>
    if votes.length < stateChangeMinVotesToChangeState then none
    else if !canTransition then none
    else
      let stateChange : ServiceNodeStateChange :=
        { state
          blockHeight := vote.blockHeight
          serviceNodeIndex := workerIndex
          votes := votes.map PoolVoteEntry.toStateChangeVote }
      some
        { version := getMaxVersionForHf hfVersion
          txType := .stateChange
          extra := [.serviceNodeStateChange stateChange] }

/-- The pool and the transactions made so far. -/
structure ObligationsCop where
  pool : VotingPool := []
  submitted : List Transaction := []

/-- The height of the chain, the version and the answer about the node come with a vote. -/
inductive PoolEvent
  | vote (vote : QuorumVote) (latestHeight hfVersion : ℕ) (canTransition : Bool)
  | setRelayed (now : ℕ) (votes : List QuorumVote)
  | removeExpired (height : ℕ)
  | removeUsed (txs : List Transaction)

namespace ObligationsCop

def handleVote (cop : ObligationsCop) (vote : QuorumVote) (latestHeight hfVersion : ℕ)
    (canTransition : Bool) : Except VoteVerificationContext ObligationsCop := do
  verifyVoteAge vote latestHeight
  let some quorum := quorumAt vote.subject.type vote.blockHeight
    | throw { invalidBlockHeight := true }
  verifyVoteSignature crypto vote quorum
  let (pool, votes, added) := addPoolVoteIfUnique cop.pool vote
  let made := if added then handleObligationsVote hfVersion canTransition vote votes else none
  return { pool, submitted := cop.submitted ++ made.toList }

def step (cop : ObligationsCop) : PoolEvent → ObligationsCop
  | .vote vote latestHeight hfVersion canTransition =>
    match cop.handleVote crypto quorumAt vote latestHeight hfVersion canTransition with
    | .ok cop => cop
    | .error _ => cop
  | .setRelayed now votes => { cop with pool := ServiceNodes.setRelayed now cop.pool votes }
  | .removeExpired height => { cop with pool := removeExpiredVotes cop.pool height }
  | .removeUsed txs => { cop with pool := removeUsedVotes cop.pool txs }

def after (cop : ObligationsCop) (events : List PoolEvent) : ObligationsCop :=
  events.foldl (step crypto quorumAt) cop

end ObligationsCop

end Model

section Pool

variable {crypto : Crypto} {quorumAt : QuorumType → ℕ → Option Quorum}

/-- On the votes of an obligations quorum the cop does to the pool what it does with checkpoints
in view. -/
theorem ObligationsCop.handleVote_pool (currentVersion : List Chain.MainBlock → ℕ)
    {both : QuorumCop} {worker : ℕ} {state : NewState} (hpool : both.pool = cop.pool)
    (hsubject : vote.subject = .stateChange worker state) :
    (cop.handleVote crypto quorumAt vote both.chain.height hfVersion canTransition).map pool =
      (both.handleVote currentVersion crypto (quorumAt vote.subject.type vote.blockHeight)
        vote).map QuorumCop.pool := by
  unfold handleVote QuorumCop.handleVote
  cases verifyVoteAge vote both.chain.height with
  | error e => rfl
  | ok =>
    cases quorumAt vote.subject.type vote.blockHeight with
    | none => rfl
    | some quorum =>
      change Except.map _ (verifyVoteSignature crypto vote quorum >>= _) =
        Except.map _ (verifyVoteSignature crypto vote quorum >>= _)
      cases verifyVoteSignature crypto vote quorum with
      | error e => rfl
      | ok =>
        cases hadded : (addPoolVoteIfUnique cop.pool vote).2.2 with
        | false => simp [Except.map, QuorumCop.add, hpool, hadded]
        | true =>
          simp [Except.map, QuorumCop.add, hpool, hadded, QuorumCop.merge, hsubject]

/-- The quorum of its height has signed the vote. -/
def VerifiedAt (crypto : Crypto) (quorumAt : QuorumType → ℕ → Option Quorum) (vote : QuorumVote) :
    Prop :=
  ∃ quorum, quorumAt vote.subject.type vote.blockHeight = some quorum ∧
    verifyVoteSignature crypto vote quorum = .ok ()

/-- Verified votes on one subject, in the order of the voters. -/
structure VotesOk (crypto : Crypto) (quorumAt : QuorumType → ℕ → Option Quorum) (height : ℕ)
    (subject : VoteSubject) (votes : List PoolVoteEntry) : Prop where
  increasing : SortedVector.Increasing PoolVoteEntry.index votes
  about : ∀ entry ∈ votes, entry.vote.blockHeight = height ∧ entry.vote.subject = subject
  verified : ∀ entry ∈ votes, VerifiedAt crypto quorumAt entry.vote

def PoolEntry.key (entry : PoolEntry) : ℕ × VoteSubject := (entry.height, entry.subject)

def QuorumVote.key (vote : QuorumVote) : ℕ × VoteSubject := (vote.blockHeight, vote.subject)

structure PoolOk (crypto : Crypto) (quorumAt : QuorumType → ℕ → Option Quorum)
    (pool : VotingPool) : Prop where
  keys : (pool.map PoolEntry.key).Nodup
  votes : ∀ entry ∈ pool, VotesOk crypto quorumAt entry.height entry.subject entry.votes

theorem QuorumVote.isAbout_iff_key : vote.isAbout entry = true ↔ entry.key = vote.key := by
  rw [isAbout_iff, PoolEntry.key, key, Prod.mk.injEq, eq_comm, @eq_comm _ vote.subject]

variable {height : ℕ} {subject : VoteSubject} {votes : List PoolVoteEntry} {vote : QuorumVote}
  {pool : VotingPool}

theorem VotesOk.nil : VotesOk crypto quorumAt height subject [] :=
  ⟨List.Pairwise.nil, fun _ hentry => absurd hentry not_mem_nil,
    fun _ hentry => absurd hentry not_mem_nil⟩

theorem VotesOk.add (h : VotesOk crypto quorumAt height subject votes)
    (hvote : VerifiedAt crypto quorumAt vote) (hheight : vote.blockHeight = height)
    (hsubject : vote.subject = subject) :
    VotesOk crypto quorumAt height subject (addVoteToPoolIfUnique votes vote).1 := by
  have hmem : ∀ entry ∈ SortedVector.insertUnique PoolVoteEntry.index ⟨vote, 0⟩ votes,
      entry = ⟨vote, 0⟩ ∨ entry ∈ votes := by
    intro entry hentry
    rw [SortedVector.insertUnique] at hentry
    split_ifs at hentry
    · exact Or.inr hentry
    · exact SortedVector.mem_insertSorted.mp hentry
  rw [addVoteToPoolIfUnique_eq]
  refine ⟨h.increasing.insertUnique _, fun entry hentry => ?_,
    fun entry hentry => ?_⟩ <;> grind [h.about, h.verified]

theorem PoolOk.sublist {pool' : VotingPool} (h : PoolOk crypto quorumAt pool)
    (hsub : pool'.Sublist pool) : PoolOk crypto quorumAt pool' :=
  ⟨h.keys.sublist (hsub.map _), fun entry hentry => h.votes entry (hsub.subset hentry)⟩

theorem key_addPoolVoteIfUnique (pool : VotingPool) (vote : QuorumVote) :
    (addPoolVoteIfUnique pool vote).1.map PoolEntry.key =
      if vote.key ∈ pool.map PoolEntry.key then pool.map PoolEntry.key
      else pool.map PoolEntry.key ++ [vote.key] := by
  induction pool with
  | nil => rfl
  | cons entry pool ih =>
    grind [PoolEntry.key, addPoolVoteIfUnique, isAbout_iff_key.mpr, isAbout_iff_key.mp]

/-- The entries of other subjects stay, and the one of the vote holds the vote too. -/
theorem mem_addPoolVoteIfUnique
    (h : entry ∈ (addPoolVoteIfUnique pool vote).1) :
    entry ∈ pool ∨ entry.key = vote.key ∧ ∃ votes,
      entry.votes = (addVoteToPoolIfUnique votes vote).1 ∧
        (votes = [] ∨ ∃ old ∈ pool, old.key = vote.key ∧ old.votes = votes) := by
  induction pool <;> grind [addPoolVoteIfUnique, isAbout, isAbout_iff_key.mp]

theorem PoolOk.add (h : PoolOk crypto quorumAt pool) (hvote : VerifiedAt crypto quorumAt vote) :
    PoolOk crypto quorumAt (addPoolVoteIfUnique pool vote).1 := by
  refine ⟨?_, fun entry hentry => ?_⟩
  · rw [key_addPoolVoteIfUnique]
    split_ifs with hknown
    · exact h.keys
    · exact h.keys.append (nodup_singleton _) (by simpa using hknown)
  · obtain hold | ⟨hkey, votes, hvotes, hfrom⟩ := mem_addPoolVoteIfUnique hentry
    · exact h.votes entry hold
    · grind [PoolEntry.key, key, VotesOk.add, VotesOk.nil, h.votes]

theorem map_modifyFirst {α β : Type*} {p : α → Bool} {f : α → α} {g : α → β}
    (hf : ∀ a, g (f a) = g a) (l : List α) : (modifyFirst p f l).map g = l.map g := by
  induction l with
  | nil => rfl
  | cons a l ih =>
    rw [modifyFirst]
    split_ifs
    · rw [map_cons, map_cons, hf]
    · rw [map_cons, map_cons, ih]

theorem mem_modifyFirst {α : Type*} {p : α → Bool} {f : α → α} {l : List α} {a : α}
    (h : a ∈ modifyFirst p f l) : a ∈ l ∨ ∃ b ∈ l, a = f b := by
  induction l with
  | nil => exact Or.inl h
  | cons b l ih =>
    grind [modifyFirst]

/-- A new time does not change the votes. -/
theorem VotesOk.markRelayed (h : VotesOk crypto quorumAt height subject votes) (now index : ℕ) :
    VotesOk crypto quorumAt height subject
      (modifyFirst (fun other => index = other.index)
        (fun other => { other with timeLastSentP2p := now }) votes) := by
  have hmem : ∀ entry ∈ modifyFirst (fun other : PoolVoteEntry => index = other.index)
      (fun other => { other with timeLastSentP2p := now }) votes,
      ∃ old ∈ votes, entry.vote = old.vote := by
    intro entry hentry
    obtain hold | ⟨old, hold, rfl⟩ := mem_modifyFirst hentry
    · exact ⟨entry, hold, rfl⟩
    · exact ⟨old, hold, rfl⟩
  refine ⟨?_, fun entry hentry => ?_, fun entry hentry => ?_⟩
  · have hindex := h.increasing
    rw [SortedVector.Increasing, ← pairwise_map] at hindex ⊢
    rw [map_modifyFirst]
    · exact hindex
    · exact fun _ => rfl
  · obtain ⟨old, hold, hvote⟩ := hmem entry hentry
    exact hvote ▸ h.about old hold
  · obtain ⟨old, hold, hvote⟩ := hmem entry hentry
    exact hvote ▸ h.verified old hold

theorem PoolOk.markRelayed (h : PoolOk crypto quorumAt pool) (now : ℕ) (vote : QuorumVote) :
    PoolOk crypto quorumAt (ServiceNodes.markRelayed now pool vote) := by
  refine ⟨?_, fun entry hentry => ?_⟩
  · rw [ServiceNodes.markRelayed, map_modifyFirst]
    · exact h.keys
    · exact fun _ => rfl
  · obtain hold | ⟨old, hold, rfl⟩ := mem_modifyFirst hentry
    · exact h.votes entry hold
    · exact (h.votes old hold).markRelayed now vote.indexInGroup

theorem PoolOk.setRelayed (h : PoolOk crypto quorumAt pool) (now : ℕ) (votes : List QuorumVote) :
    PoolOk crypto quorumAt (ServiceNodes.setRelayed now pool votes) := by
  induction votes generalizing pool with
  | nil => exact h
  | cons vote votes ih => exact ih (h.markRelayed now vote)

theorem PoolOk.removeUsedVotes (h : PoolOk crypto quorumAt pool) (txs : List Transaction) :
    PoolOk crypto quorumAt (ServiceNodes.removeUsedVotes pool txs) := by
  induction txs generalizing pool with
  | nil => exact h
  | cons tx txs ih =>
    refine ih ?_
    unfold removeUsedVote
    split_ifs
    · exact h
    · split
      · exact h
      · exact h.sublist eraseP_sublist

theorem PoolOk.votesOn (h : PoolOk crypto quorumAt pool) (vote : QuorumVote) :
    VotesOk crypto quorumAt vote.blockHeight vote.subject (ServiceNodes.votesOn pool vote) := by
  unfold ServiceNodes.votesOn
  cases hfound : pool.find? fun entry => vote.isAbout entry with
  | none => exact VotesOk.nil
  | some entry =>
    grind [isAbout, h.votes]

end Pool

section Verify

variable {crypto : Crypto} {quorumAt : QuorumType → ℕ → Option Quorum} {quorum : Quorum}

/-- Votes in the order of their validators, each with its signature, are accepted. -/
theorem verifyVotes_ok {hash : Hash} (hardForkVersion : ℕ)
    (hsize : quorum.validators.length ≤ stateChangeQuorumSize) {votes : List StateChangeVote}
    (hsorted : votes.Pairwise fun a b => a.validatorIndex < b.validatorIndex)
    (hsigned : ∀ vote ∈ votes, ∃ key, quorum.validators[vote.validatorIndex]? = some key ∧
      crypto.checkSignature hash key vote.signature = true)
    {tracker : ℤ} (htracker : ∀ vote ∈ votes, tracker < vote.validatorIndex) {voters : List ℕ}
    (hvoters : ∀ vote ∈ votes, vote.validatorIndex ∉ voters) :
    verifyVotes crypto quorum hardForkVersion hash votes tracker voters = .ok () := by
  induction votes generalizing tracker voters with
  | nil => rfl
  | cons vote votes ih =>
    obtain ⟨hfirst, hrest⟩ := pairwise_cons.mp hsorted
    obtain ⟨key, hkey, hcheck⟩ := hsigned vote List.mem_cons_self
    have hlt : vote.validatorIndex < quorum.validators.length :=
      (List.getElem?_eq_some_iff.mp hkey).1
    have hnext := htracker vote List.mem_cons_self
    rw [stateChangeQuorumSize] at hsize
    have hsmall : (vote.validatorIndex : ℤ).bmod (2 ^ 32) = vote.validatorIndex :=
      Int.bmod_eq_of_le (by omega) (by omega)
    rw [verifyVotes, if_neg (by rw [hsmall]; omega), if_neg (by omega),
      if_neg (hvoters vote List.mem_cons_self), getD_eq_getElem?_getD, hkey,
      Option.getD_some, hcheck, if_neg (by simp)]
    grind

theorem verifyVoteSignature_stateChange {workerIndex : ℕ} {state : NewState}
    (hsubject : vote.subject = .stateChange workerIndex state)
    (h : verifyVoteSignature crypto vote quorum = .ok ()) :
    workerIndex < quorum.workers.length ∧ ∃ key, quorum.validators[vote.indexInGroup]? = some key ∧
        crypto.checkSignature (makeStateChangeVoteHash crypto vote.blockHeight workerIndex state)
          key vote.signature = true := by
  unfold verifyVoteSignature at h
  grind

/-- The checks before the votes are about numbers only. -/
theorem verifyTxStateChange_ok (hardForkVersion : ℕ) {latestHeight : ℕ}
    (hsize : quorum.validators.length ≤ stateChangeQuorumSize)
    {stateChange : ServiceNodeStateChange}
    (hfew : stateChangeMinVotesToChangeState ≤ stateChange.votes.length)
    (hworker : stateChange.serviceNodeIndex < quorum.workers.length)
    (hsorted : stateChange.votes.Pairwise fun a b => a.validatorIndex < b.validatorIndex)
    (hsigned : ∀ vote ∈ stateChange.votes,
      ∃ key, quorum.validators[vote.validatorIndex]? = some key ∧
        crypto.checkSignature (makeStateChangeVoteHash crypto stateChange.blockHeight
          stateChange.serviceNodeIndex stateChange.state) key vote.signature = true)
    (hold : stateChange.blockHeight < latestHeight)
    (hyoung : latestHeight < stateChange.blockHeight + stateChangeTxLifetimeInBlocks) :
    verifyTxStateChange crypto quorum hardForkVersion stateChange latestHeight = .ok () := by
  have hmany : stateChange.votes.length ≤ quorum.validators.length := by
    refine SortedVector.Increasing.length_le hsorted fun vote hvote => ?_
    grind
  grind [verifyTxStateChange, verifyVotes_ok]

/-- The transaction carries a state change that is verified inside of its lifetime. -/
def AcceptedTx (crypto : Crypto) (quorumAt : QuorumType → ℕ → Option Quorum) (tx : Transaction) :
    Prop :=
  ∃ stateChange quorum, tx.txType = .stateChange ∧
    getServiceNodeStateChangeFromTxExtra tx.extra = some stateChange ∧
    quorumAt .obligations stateChange.blockHeight = some quorum ∧
    ∀ hardForkVersion latestHeight, stateChange.blockHeight < latestHeight →
      latestHeight < stateChange.blockHeight + stateChangeTxLifetimeInBlocks →
      verifyTxStateChange crypto quorum hardForkVersion stateChange latestHeight = .ok ()

theorem VotesOk.accepted {votes : List PoolVoteEntry}
    (h : VotesOk crypto quorumAt vote.blockHeight vote.subject votes)
    (hsize : ∀ height quorum, quorumAt .obligations height = some quorum →
      quorum.validators.length ≤ stateChangeQuorumSize)
    {hfVersion : ℕ} {tx : Transaction}
    (htx : handleObligationsVote hfVersion canTransition vote votes = some tx) :
    AcceptedTx crypto quorumAt tx := by
  unfold handleObligationsVote at htx
  cases hsubject : vote.subject with
  | checkpoint blockHash =>
    rw [hsubject] at htx
    cases htx
  | stateChange workerIndex state =>
    rw [hsubject] at htx h
    dsimp only at htx
    split_ifs at htx with hfew
    obtain rfl := Option.some.inj htx
    rw [not_lt] at hfew
    -- The quorum is the same for all votes of the entry.
    obtain ⟨first, hfirst⟩ : ∃ first, first ∈ votes :=
      exists_mem_of_length_pos (lt_of_lt_of_le (by decide) hfew)
    have hquorum : ∀ entry ∈ votes, ∃ quorum, quorumAt .obligations vote.blockHeight = some quorum ∧
        verifyVoteSignature crypto entry.vote quorum = .ok () := by
      intro entry hentry
      obtain ⟨quorum, hfound, hverified⟩ := h.verified entry hentry
      obtain ⟨hheight, habout⟩ := h.about entry hentry
      rw [hheight, habout] at hfound
      exact ⟨quorum, hfound, hverified⟩
    obtain ⟨quorum, hfound, hverified⟩ := hquorum first hfirst
    have hsigned : ∀ entry ∈ votes, workerIndex < quorum.workers.length ∧
        ∃ key, quorum.validators[entry.vote.indexInGroup]? = some key ∧
          crypto.checkSignature (makeStateChangeVoteHash crypto vote.blockHeight workerIndex state)
            key entry.vote.signature = true := by
      intro entry hentry
      obtain ⟨other, hother, hverified⟩ := hquorum entry hentry
      obtain rfl := Option.some.inj (hfound.symm.trans hother)
      obtain ⟨hheight, habout⟩ := h.about entry hentry
      rw [← hheight]
      exact verifyVoteSignature_stateChange habout hverified
    refine ⟨_, quorum, rfl, rfl, hfound, fun hardForkVersion latestHeight hold hyoung => ?_⟩
    refine verifyTxStateChange_ok hardForkVersion (hsize _ quorum hfound) ?_
      (hsigned first hfirst).1 ?_ ?_ hold hyoung
    · rw [length_map]
      exact hfew
    · exact pairwise_map.mpr h.increasing
    · intro other hother
      obtain ⟨entry, hentry, rfl⟩ := mem_map.mp hother
      exact (hsigned entry hentry).2

end Verify

section Run

variable {crypto : Crypto} {quorumAt : QuorumType → ℕ → Option Quorum}

/-- The pool is in order and what was made of it is accepted. -/
structure CopOk (crypto : Crypto) (quorumAt : QuorumType → ℕ → Option Quorum)
    (cop : ObligationsCop) : Prop where
  pool : PoolOk crypto quorumAt cop.pool
  submitted : ∀ tx ∈ cop.submitted, AcceptedTx crypto quorumAt tx

/-- A vote that is refused changes nothing. -/
theorem handleVote_ok
    (h : cop.handleVote crypto quorumAt vote latestHeight hfVersion canTransition = .ok cop') :
    VerifiedAt crypto quorumAt vote ∧ cop'.pool = (addPoolVoteIfUnique cop.pool vote).1 ∧
      ∀ tx ∈ cop'.submitted, tx ∈ cop.submitted ∨ handleObligationsVote hfVersion canTransition vote
          (addPoolVoteIfUnique cop.pool vote).2.1 = some tx := by
  unfold ObligationsCop.handleVote at h
  cases hage : verifyVoteAge vote latestHeight with
  | error context =>
    rw [hage] at h
    cases h
  | ok =>
    cases hquorum : quorumAt vote.subject.type vote.blockHeight with
    | none =>
      rw [hage, hquorum] at h
      cases h
    | some quorum =>
      cases hsignature : verifyVoteSignature crypto vote quorum with
      | error context =>
        simp only [hage, hquorum, hsignature, bind, Except.bind] at h
        cases h
      | ok =>
        simp only [hage, hquorum, hsignature, bind, Except.bind, pure, Except.pure,
          Except.ok.injEq] at h
        subst h
        refine ⟨⟨quorum, hquorum, hsignature⟩, rfl, fun tx htx => ?_⟩
        grind

theorem CopOk.handleVote (h : CopOk crypto quorumAt cop)
    (hsize : ∀ height quorum, quorumAt .obligations height = some quorum →
      quorum.validators.length ≤ stateChangeQuorumSize)
    (hvote : cop.handleVote crypto quorumAt vote latestHeight hfVersion canTransition = .ok cop') :
    CopOk crypto quorumAt cop' := by
  obtain ⟨hverified, hpool, hsubmitted⟩ := handleVote_ok hvote
  refine ⟨hpool ▸ h.pool.add hverified, fun tx htx => ?_⟩
  obtain hold | hmade := hsubmitted tx htx
  · exact h.submitted tx hold
  · have hvotes := (h.pool.votesOn vote).add hverified rfl rfl
    rw [← congrArg Prod.fst (addPoolVoteIfUnique_eq cop.pool vote).1] at hvotes
    exact hvotes.accepted hsize hmade

theorem CopOk.step {cop : ObligationsCop} (h : CopOk crypto quorumAt cop)
    (hsize : ∀ height quorum, quorumAt .obligations height = some quorum →
      quorum.validators.length ≤ stateChangeQuorumSize) (event : PoolEvent) :
    CopOk crypto quorumAt (cop.step crypto quorumAt event) := by
  cases event with
  | vote vote latestHeight hfVersion canTransition =>
    rw [ObligationsCop.step]
    split
    · rename_i cop' hvote
      exact h.handleVote hsize hvote
    · exact h
  | setRelayed now votes => exact ⟨h.pool.setRelayed now votes, h.submitted⟩
  | removeExpired height => exact ⟨h.pool.sublist filter_sublist, h.submitted⟩
  | removeUsed txs => exact ⟨h.pool.removeUsedVotes txs, h.submitted⟩

theorem CopOk.after {cop : ObligationsCop} (h : CopOk crypto quorumAt cop)
    (hsize : ∀ height quorum, quorumAt .obligations height = some quorum →
      quorum.validators.length ≤ stateChangeQuorumSize) (events : List PoolEvent) :
    CopOk crypto quorumAt (cop.after crypto quorumAt events) := by
  induction events generalizing cop with
  | nil => exact h
  | cons event events ih => exact ih (h.step hsize event)

/-- In every run the pool has one entry for each state change, its votes are in the order of their
voters, and every transaction made of them is accepted as long as it is not too old. -/
theorem obligation_votes_accepted (crypto : Crypto)
    (quorumAt : QuorumType → ℕ → Option Quorum)
    (hquorum : ∀ height quorum, quorumAt .obligations height = some quorum →
      ∃ rng hardForkVersion s, (generateQuorums rng hardForkVersion s).obligations = some quorum)
    (events : List PoolEvent) :
    let cop := ObligationsCop.after crypto quorumAt {} events
    (cop.pool.map PoolEntry.key).Nodup ∧
      (∀ entry ∈ cop.pool, SortedVector.Increasing PoolVoteEntry.index entry.votes) ∧
      ∀ tx ∈ cop.submitted, AcceptedTx crypto quorumAt tx := by
  intro cop
  have hsize : ∀ height quorum, quorumAt .obligations height = some quorum →
      quorum.validators.length ≤ stateChangeQuorumSize := by
    intro height quorum hfound
    obtain ⟨rng, hardForkVersion, s, hmade⟩ := hquorum height quorum hfound
    rw [← Option.some.inj hmade, obligationsQuorum_validators_length]
    exact min_le_right _ _
  have hstart : CopOk crypto quorumAt {} :=
    ⟨⟨nodup_nil, fun _ hentry => absurd hentry not_mem_nil⟩,
      fun _ htx => absurd htx not_mem_nil⟩
  have h := hstart.after hsize events
  exact ⟨h.pool.keys, fun entry hentry => (h.pool.votes entry hentry).increasing, h.submitted⟩

/-- Ten validators and two workers. -/
def testedNodes : State where
  serviceNodesInfos := ((List.range 12).map fun i => ⟨BitVec.ofNat 256 i, {}⟩).toAList

def sampleQuorumAt : QuorumType → ℕ → Option Quorum
  | .obligations, _ => some (obligationsQuorum RandomEngine.zero testedNodes)
  | .checkpointing, _ => none

def deregisterVote (i : ℕ) : QuorumVote where
  blockHeight := 12
  indexInGroup := i
  signature := 0
  subject := .stateChange 1 .deregister

/-- Four votes out of order, one of them twice. -/
def deregisterRun : List PoolEvent :=
  [.vote (deregisterVote 7) 14 17 true, .vote (deregisterVote 2) 14 17 true,
    .setRelayed 99 [deregisterVote 2], .vote (deregisterVote 7) 14 17 true, .removeExpired 15,
    .vote (deregisterVote 9) 15 17 true, .vote (deregisterVote 0) 15 17 true]

theorem deregister_votes_accepted :
    let cop := ObligationsCop.after sampleCrypto sampleQuorumAt {} deregisterRun
    cop.submitted.length = 1 ∧ ∀ tx ∈ cop.submitted, AcceptedTx sampleCrypto sampleQuorumAt tx :=
  ⟨by decide,
    (obligation_votes_accepted sampleCrypto sampleQuorumAt
      (fun _ _ hquorum => ⟨RandomEngine.zero, 17, testedNodes, hquorum⟩) deregisterRun).2.2⟩

end Run

end Arqma.ServiceNodes
