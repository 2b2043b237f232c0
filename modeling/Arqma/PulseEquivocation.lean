import Arqma.PulseCollector

/-!
# One payload per round

A node hands its own votes to the relay hook, and only for the payload its collector
holds. Calls of `participate_round`, received votes and the other collector calls share
the collector; a call of `participate_round` may also be cut where it gives the lock of
the collector away. Votes for one round then carry one payload as long as the collector
never freezes a payload for a round that had one before. Nothing in the collector sees to
that: a rejected vote is enough to make it forget the round.
-/
namespace Arqma.Pulse
open Arqma.Cryptonote RoundCollector

variable {vote : RelayVote} {call : PendingCall} {i : ℕ} {k : ℕ}

/-- What at most one payload is signed for. -/
structure RoundKey where
  height : ℕ
  prevId : Hash
  round : ℕ
deriving DecidableEq

def RoundCollector.key (c : RoundCollector) : RoundKey := ⟨c.extra.height, c.prevId, c.extra.round⟩

def RelayVote.key (vote : RelayVote) : RoundKey := ⟨vote.height, vote.prevId, vote.round⟩

section Node

/-- Where a call of `participate_round` stands: before `add_vote`, before `has_vote`, or
before the payload is compared. -/
inductive Stage
  | entered
  | refused
  | passed
deriving DecidableEq

structure PendingCall where
  vote : RelayVote
  quorumKeys : List PublicKey
  activeSnCount : ℕ
  relay : Bool
  stage : Stage

structure NodeState where
  collector : RoundCollector := {}
  pending : List PendingCall := []
  handed : List RelayVote := []

inductive NodeStep
  /-- A call of the collector; `relayIfNew` is for `add_vote`. -/
  | call (op : CollectorOp) (relayIfNew : Bool)
  /-- A whole call of `participate_round`. -/
  | participate (p : Participation)
  /-- A call of `participate_round` up to `prepare`. -/
  | enter (p : Participation)
  /-- The next collector call of a pending `participate_round`. -/
  | resume (i : ℕ)

def CollectorOp.handed (crypto : Crypto) (c : RoundCollector) : CollectorOp → Option RelayVote
  | .addVote vote quorumKeys activeSnCount =>
    if (c.addVote crypto vote quorumKeys activeSnCount).2 then some vote else none
  | _ => none

/-- The rest of a call that has its vote ready. -/
def pendingCall (crypto : Crypto) (p : Participation) (vote : RelayVote) : PendingCall where
  vote := vote
  quorumKeys := quorumPubkeys crypto p.height p.activePubs p.round
  activeSnCount := p.activePubs.length
  relay := p.relay
  stage := .entered

def NodeState.enter (crypto : Crypto) (s : NodeState) (p : Participation) : NodeState :=
  if p.activePubs = [] then s
  else
    { s with
      collector := s.collector.prepare p.height p.prevId p.round (p.lead crypto)
      pending := s.pending ++ (ownVote crypto p).toList.map (pendingCall crypto p) }

def NodeState.resume (crypto : Crypto) (s : NodeState) (i : ℕ) : NodeState :=
  match s.pending[i]? with
  | none => s
  | some call =>
    match call.stage with
    | .entered =>
      let (voted, added) := s.collector.addVote crypto call.vote call.quorumKeys call.activeSnCount
      { s with
        collector := voted
        pending := s.pending.set i { call with stage := if added then .passed else .refused } }
    | .refused =>
      if s.collector.hasVote call.vote.validatorIndex then
        { s with pending := s.pending.set i { call with stage := .passed } }
      else { s with pending := s.pending.eraseIdx i }
    | .passed =>
      { s with
        pending := s.pending.eraseIdx i
        handed := s.handed ++
          if call.relay && s.collector.payloadHash = call.vote.payloadHash then [call.vote]
          else [] }

def NodeState.step (crypto : Crypto) (s : NodeState) : NodeStep → NodeState
  | .call op relayIfNew =>
    { s with
      collector := op.apply crypto s.collector
      handed := s.handed ++ if relayIfNew then (op.handed crypto s.collector).toList else [] }
  | .participate p =>
    let (c, vote, _) := participateRound crypto s.collector p
    { s with collector := c, handed := s.handed ++ vote.toList }
  | .enter p => s.enter crypto p
  | .resume i => s.resume crypto i

def nodeAfter (crypto : Crypto) (steps : List NodeStep) : NodeState :=
  steps.foldl (NodeState.step crypto) {}

variable {crypto : Crypto} {c : RoundCollector} {s : NodeState}

theorem resume_of_none (h : s.pending[i]? = none) : s.resume crypto i = s := by
  simp [NodeState.resume, h]

theorem resume_entered {voted : RoundCollector} {added : Bool}
    (h : s.pending[i]? = some call) (hstage : call.stage = .entered)
    (hadded : s.collector.addVote crypto call.vote call.quorumKeys call.activeSnCount =
      (voted, added)) :
    s.resume crypto i = { s with
        collector := voted
        pending :=
          s.pending.set i { call with stage := if added then .passed else .refused } } := by
  simp [NodeState.resume, h, hstage, hadded]

theorem resume_refused (h : s.pending[i]? = some call) (hstage : call.stage = .refused) :
    s.resume crypto i = { s with
        pending :=
          if s.collector.hasVote call.vote.validatorIndex then
            s.pending.set i { call with stage := .passed }
          else s.pending.eraseIdx i } := by
  simp only [NodeState.resume, h, hstage]
  split_ifs <;> rfl

theorem resume_passed (h : s.pending[i]? = some call) (hstage : call.stage = .passed) :
    s.resume crypto i = { s with
        pending := s.pending.eraseIdx i
        handed := s.handed ++
          if call.relay && s.collector.payloadHash = call.vote.payloadHash then [call.vote]
          else [] } := by
  simp [NodeState.resume, h, hstage]

def Holds (c : RoundCollector) (vote : RelayVote) : Prop :=
  c.key = vote.key ∧ c.payloadHash = vote.payloadHash

/-- A vote that is not ignored takes the collector to its round and payload. -/
theorem addVote_eq_or_holds (crypto : Crypto) (c : RoundCollector) (vote : RelayVote)
    (quorumKeys : List PublicKey) (activeSnCount : ℕ) :
    c.addVote crypto vote quorumKeys activeSnCount = (c, false) ∨
      Holds (c.addVote crypto vote quorumKeys activeSnCount).1 vote := by
  obtain ⟨hheight, hround, hprev, -, hpayload, -⟩ := openedBy_round c vote quorumKeys.length
  grind [addVote, Holds, RoundCollector.key, RelayVote.key]

theorem prepare_key (c : RoundCollector) (height : ℕ) (prevId : Hash) (round leaderIndex : ℕ) :
    (c.prepare height prevId round leaderIndex).key = ⟨height, prevId, round⟩ := by
  unfold prepare RoundCollector.key
  split_ifs with h
  · rw [h.1, h.2.1, h.2.2.1]
  · rfl

theorem CollectorOp.holds_handed {op : CollectorOp} (h : op.handed crypto c = some vote) :
    Holds (op.apply crypto c) vote := by
  cases op with
  | addVote vote' quorumKeys activeSnCount =>
    rw [CollectorOp.handed, Option.ite_none_right_eq_some, Option.some.injEq] at h
    obtain ⟨hadded, rfl⟩ := h
    rcases addVote_eq_or_holds crypto c vote' quorumKeys activeSnCount with heq | hholds
    · simp [heq] at hadded
    · exact hholds
  | prepare | discardBelow | clear => cases h

/-- A call of `participate_round` hands on a vote only for what the collector holds then. -/
theorem participateRound_holds {p : Participation}
    (h : (participateRound crypto c p).2.1 = some vote) :
    Holds (participateRound crypto c p).1 vote := by
  by_cases hactive : p.activePubs = []
  · simp [participateRound, hactive] at h
  cases hown : ownVote crypto p with
  | none => simp [participateRound_of_none hactive hown] at h
  | some own =>
    cases hadded : (c.prepare p.height p.prevId p.round (p.lead crypto)).addVote crypto own
        (quorumPubkeys crypto p.height p.activePubs p.round) p.activePubs.length with
    | mk voted added =>
      rw [participateRound_of_vote hactive hown hadded] at h ⊢
      simp only [Option.ite_none_right_eq_some, Option.some.injEq] at h
      obtain ⟨⟨-, -, hpayload⟩, rfl⟩ := h
      obtain ⟨hheight, hprev, hround, hsame⟩ := ownVote_eq hown
      refine ⟨?_, hpayload.trans hsame.symm⟩
      -- an ignored vote leaves the collector where it was prepared for the call
      rcases addVote_eq_or_holds crypto (c.prepare p.height p.prevId p.round (p.lead crypto)) own
        (quorumPubkeys crypto p.height p.activePubs p.round) p.activePubs.length with heq | hholds
      · rw [hadded, Prod.mk.injEq] at heq
        rw [heq.1, prepare_key, RelayVote.key, hheight, hprev, hround]
      · rw [hadded] at hholds
        exact hholds.1

end Node

section Runs

variable (crypto : Crypto) (steps : List NodeStep)

/-- The node after the first `k` steps. -/
def nodeAt (k : ℕ) : NodeState := nodeAfter crypto (steps.take k)

/-- No step gives the collector a payload for a round that had one at an earlier time. -/
def NoReturn : Prop :=
  ∀ k < steps.length, (nodeAt crypto steps (k + 1)).collector.payloadHash ≠ 0 →
    ((nodeAt crypto steps k).collector.key = (nodeAt crypto steps (k + 1)).collector.key ∧
      (nodeAt crypto steps k).collector.payloadHash =
        (nodeAt crypto steps (k + 1)).collector.payloadHash) ∨
    ∀ j ≤ k, (nodeAt crypto steps j).collector.key = (nodeAt crypto steps (k + 1)).collector.key →
      (nodeAt crypto steps j).collector.payloadHash = 0

/-- A call of `participate_round` that was cut into parts still finds the collector at its
round when it compares the payload. -/
def Undisturbed : Prop :=
  ∀ k < steps.length, ∀ i, steps[k]? = some (.resume i) →
    ∀ call ∈ (nodeAt crypto steps k).pending[i]?, call.stage = .passed →
      (nodeAt crypto steps k).collector.key = call.vote.key

variable {crypto steps}

theorem nodeAt_succ {step : NodeStep} (hstep : steps[k]? = some step) :
    nodeAt crypto steps (k + 1) = (nodeAt crypto steps k).step crypto step := by
  rw [nodeAt, List.take_add_one, hstep, nodeAfter, List.foldl_append]
  rfl

/-- The collector holds one payload per round over the whole run. -/
theorem NoReturn.payload_eq (h : NoReturn crypto steps) {j k : ℕ} (hjk : j ≤ k)
    (hk : k ≤ steps.length)
    (hkey : (nodeAt crypto steps j).collector.key = (nodeAt crypto steps k).collector.key)
    (hj0 : (nodeAt crypto steps j).collector.payloadHash ≠ 0)
    (hk0 : (nodeAt crypto steps k).collector.payloadHash ≠ 0) :
    (nodeAt crypto steps j).collector.payloadHash =
      (nodeAt crypto steps k).collector.payloadHash := by
  induction k, hjk using Nat.le_induction with
  | base => rfl
  | succ k hjk ih =>
    rcases h k (by omega) hk0 with ⟨hsame, hpayload⟩ | hfresh
    · rw [← hpayload] at hk0 ⊢
      exact ih (by omega) (hkey.trans hsame.symm) hk0
    · exact absurd (hfresh j hjk hkey) hj0

/-- Whatever a step hands on is for what the collector held before or after it. -/
theorem Undisturbed.holds_handed (h : Undisturbed crypto steps) (hk : k < steps.length)
    (hnew : vote ∉ (nodeAt crypto steps k).handed)
    (hvote : vote ∈ (nodeAt crypto steps (k + 1)).handed) :
    Holds (nodeAt crypto steps k).collector vote ∨
      Holds (nodeAt crypto steps (k + 1)).collector vote := by
  have hstep := List.getElem?_eq_getElem hk
  rw [nodeAt_succ hstep] at hvote ⊢
  have hundisturbed := h k hk
  generalize nodeAt crypto steps k = s at *
  generalize steps[k] = step at *
  cases step with
  | call op relayIfNew =>
    grind [NodeState.step, CollectorOp.holds_handed]
  | participate p =>
    simp only [NodeState.step, List.mem_append, hnew, false_or] at hvote
    exact Or.inr (participateRound_holds (Option.mem_toList.mp hvote))
  | enter p =>
    simp only [NodeState.step, NodeState.enter] at hvote
    split_ifs at hvote <;> exact absurd hvote hnew
  | resume i =>
    refine Or.inl ?_
    rw [NodeState.step] at hvote
    cases hcall : s.pending[i]? with
    | none =>
      rw [resume_of_none hcall] at hvote
      exact absurd hvote hnew
    | some call =>
      cases hstage : call.stage with
      | entered =>
        rw [resume_entered hcall hstage rfl] at hvote
        exact absurd hvote hnew
      | refused =>
        rw [resume_refused hcall hstage] at hvote
        exact absurd hvote hnew
      | passed =>
        rw [resume_passed hcall hstage] at hvote
        simp only [List.mem_append, hnew, false_or, Bool.and_eq_true, decide_eq_true_eq] at hvote
        split_ifs at hvote with hrelay
        · rw [List.mem_singleton] at hvote
          subst hvote
          exact ⟨hundisturbed i hstep call hcall hstage, hrelay.2⟩
        · cases hvote

/-- Every vote that was handed on is for something the collector has held. -/
theorem Undisturbed.exists_holds (h : Undisturbed crypto steps) (hk : k ≤ steps.length)
    (hvote : vote ∈ (nodeAt crypto steps k).handed) :
    ∃ j ≤ k, Holds (nodeAt crypto steps j).collector vote := by
  induction k with
  | zero => simp [nodeAt, nodeAfter] at hvote
  | succ k ih =>
    by_cases hold : vote ∈ (nodeAt crypto steps k).handed
    · obtain ⟨j, hj, hholds⟩ := ih (by omega) hold
      exact ⟨j, by omega, hholds⟩
    · rcases h.holds_handed (by omega) hold hvote with hholds | hholds
      · exact ⟨k, by omega, hholds⟩
      · exact ⟨k + 1, le_rfl, hholds⟩

end Runs

/-- While no round gets a payload a second time, all votes that the node hands on for one
round carry one payload. -/
theorem handed_payload_unique (crypto : Crypto) (steps : List NodeStep)
    (hreturn : NoReturn crypto steps) (hundisturbed : Undisturbed crypto steps) :
    ∀ vote ∈ (nodeAfter crypto steps).handed, ∀ vote' ∈ (nodeAfter crypto steps).handed,
      vote.key = vote'.key → vote.payloadHash ≠ 0 → vote'.payloadHash ≠ 0 →
        vote.payloadHash = vote'.payloadHash := by
  intro vote hvote vote' hvote' hkey hne hne'
  have hlast : nodeAfter crypto steps = nodeAt crypto steps steps.length := by
    rw [nodeAt, List.take_length]
  rw [hlast] at hvote hvote'
  obtain ⟨j, hj, hholds, hpayload⟩ := hundisturbed.exists_holds le_rfl hvote
  obtain ⟨k, hk, hholds', hpayload'⟩ := hundisturbed.exists_holds le_rfl hvote'
  grind [hreturn.payload_eq]

section Sample

/-- The call of node 7 among three, at height 10 after block 1. -/
def sampleCall (payloadHash : Hash) : Participation where
  height := 10
  prevId := 1
  round := 0
  pub := 7
  sign := fun hash => (7 : PublicKey) ++ hash
  activePubs := [7, 8, 9]
  relay := true
  payloadHash := payloadHash

/-- Two templates and the vote of another member in one round. -/
def steadyRun : List NodeStep :=
  [.participate (sampleCall 5), .call (.addVote (sampleVote 0 2 5 9) [7, 8, 9] 3) true,
    .participate (sampleCall 6)]

/-- The unsigned vote of another height comes between the templates. -/
def interruptedRun : List NodeStep :=
  [.participate (sampleCall 5), .call (.addVote unsignedVote [7, 8, 9] 3) true,
    .participate (sampleCall 6)]

end Sample

theorem steadyRun_handed :
    (nodeAfter sampleCrypto steadyRun).handed.map RelayVote.payloadHash = [5, 5] ∧
      ∀ vote ∈ (nodeAfter sampleCrypto steadyRun).handed,
        ∀ vote' ∈ (nodeAfter sampleCrypto steadyRun).handed,
          vote.key = vote'.key → vote.payloadHash ≠ 0 → vote'.payloadHash ≠ 0 →
            vote.payloadHash = vote'.payloadHash := by
  refine ⟨by decide +kernel, handed_payload_unique sampleCrypto steadyRun ?_ ?_⟩
  · unfold NoReturn
    decide +kernel
  · intro k hk i hstep
    have hresume : NodeStep.resume i ∈ steadyRun := List.mem_of_getElem? hstep
    simp [steadyRun] at hresume

/-- The node signs two payloads of one round, with a rejected vote in between. -/
theorem interruptedRun_equivocates :
    ((nodeAfter sampleCrypto interruptedRun).handed.map fun vote =>
        (vote.height, vote.prevId, vote.round, vote.validatorIndex, vote.payloadHash)) =
      [(10, 1, 0, 0, 5), (10, 1, 0, 0, 6)] ∧
    ∀ vote ∈ (nodeAfter sampleCrypto interruptedRun).handed,
      sampleCrypto.checkSignature
        (roundHash sampleCrypto vote.height vote.prevId vote.round vote.payloadHash) 7
        vote.signature = true := by
  decide +kernel

end Arqma.Pulse
