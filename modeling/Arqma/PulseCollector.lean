import Arqma.Pulse

/-!
# The collector of Pulse votes

Whatever calls the collector has seen, the votes it holds verify as a round, so the
certificate it hands out is one that every node with the same quorum accepts. The
same does not hold of what a rejected vote leaves behind: a vote that gets past the
first guards opens its own round before its signature is looked at.
-/
namespace Arqma.Pulse
open Arqma.Cryptonote RoundCollector List

section AddVote

variable {crypto : Crypto} {c : RoundCollector} {vote : RelayVote} {quorumKeys : List PublicKey}
  {activeSnCount : ℕ}

/-- The guards that turn a vote away before it touches the collector. -/
def Ignored (c : RoundCollector) (vote : RelayVote) (quorumKeys : List PublicKey) : Prop :=
  quorumKeys = [] ∨ quorumKeys.length ≤ vote.validatorIndex ∨
    c.sameBlock vote = true ∧ vote.round < c.extra.round ∨
    c.sameRound vote = true ∧ c.payloadHash ≠ 0 ∧ vote.payloadHash ≠ c.payloadHash

def withVote (c : RoundCollector) (vote : RelayVote) : RoundCollector :=
  { c with extra := { c.extra with
      votes := insertSortedVote c.extra.votes ⟨vote.signature, vote.validatorIndex⟩ } }

theorem addVote_cases (crypto : Crypto) (c : RoundCollector) (vote : RelayVote)
    (quorumKeys : List PublicKey) (activeSnCount : ℕ) :
    Ignored c vote quorumKeys ∧ c.addVote crypto vote quorumKeys activeSnCount = (c, false) ∨
    ¬ Ignored c vote quorumKeys ∧ c.addVote crypto vote quorumKeys activeSnCount =
        (c.openedBy vote quorumKeys.length, false) ∨
    ¬ Ignored c vote quorumKeys ∧
      verifyRound crypto (withVote (c.openedBy vote quorumKeys.length) vote).extra vote.height
        vote.prevId activeSnCount quorumKeys 0 = true ∧
      c.addVote crypto vote quorumKeys activeSnCount =
        (withVote (c.openedBy vote quorumKeys.length) vote, true) := by
  unfold addVote
  split_ifs with hkeys hold hidle hfrozen
  · exact Or.inl ⟨hkeys.elim Or.inl fun h => Or.inr (Or.inl h), rfl⟩
  · exact Or.inl ⟨Or.inr (Or.inr (Or.inl hold)), rfl⟩
  · exact Or.inl ⟨Or.inr (Or.inr (Or.inr ⟨hidle.1, hidle.2.2, by
      rw [hidle.2.1]
      exact hidle.2.2.symm⟩)), rfl⟩
  · exact Or.inl ⟨Or.inr (Or.inr (Or.inr hfrozen)), rfl⟩
  · have hheard : ¬ Ignored c vote quorumKeys := by
      rintro (h | h | h | h)
      · exact hkeys (Or.inl h)
      · exact hkeys (Or.inr h)
      · exact hold h
      · exact hfrozen h
    simp only
    split_ifs with hleader htaken hverified
    · exact Or.inr (Or.inl ⟨hheard, rfl⟩)
    · exact Or.inr (Or.inl ⟨hheard, rfl⟩)
    · exact Or.inr (Or.inl ⟨hheard, rfl⟩)
    · refine Or.inr (Or.inr ⟨hheard, ?_, rfl⟩)
      rw [Bool.not_eq_true', Bool.not_eq_false, verifyRound_iff] at hverified
      obtain ⟨hheight, hmax, hactive, hlead, hne, -, hvotes⟩ := hverified
      rw [verifyRound_iff]
      exact ⟨hheight, hmax, hactive, hlead, hne, Nat.zero_le _, hvotes⟩

theorem openedBy_round (c : RoundCollector) (vote : RelayVote) (quorumSize : ℕ) :
    (c.openedBy vote quorumSize).extra.height = vote.height ∧
      (c.openedBy vote quorumSize).extra.round = vote.round ∧
      (c.openedBy vote quorumSize).prevId = vote.prevId ∧
      (c.openedBy vote quorumSize).extra.payloadHash = vote.payloadHash ∧
      (c.openedBy vote quorumSize).payloadHash = vote.payloadHash ∧
      (c.openedBy vote quorumSize).quorumSize = quorumSize := by
  unfold openedBy
  grind [sameRound, sameBlock]

theorem openedBy_of_same (hpayload : c.extra.payloadHash = c.payloadHash)
    (hround : c.sameRound vote = true) (hsame : c.payloadHash = vote.payloadHash) (quorumSize : ℕ) :
    c.openedBy vote quorumSize = { c with quorumSize } := by
  have hextra : { c.extra with payloadHash := vote.payloadHash } = c.extra := by
    rw [← hsame, ← hpayload]
  rw [openedBy, if_neg (by simp [hround, hsame]), hextra]

/-- It keeps the votes only if it is the round that is held already. -/
theorem openedBy_votes (hpayload : c.extra.payloadHash = c.payloadHash) (vote : RelayVote)
    (quorumSize : ℕ) :
    (c.openedBy vote quorumSize).extra.votes = [] ∨
      c.openedBy vote quorumSize = { c with quorumSize } := by
  grind [openedBy, openedBy_of_same]

end AddVote

section Runs

/-- The calls that change a collector. -/
inductive CollectorOp
  | prepare (height : ℕ) (prevId : Hash) (round leaderIndex : ℕ)
  | addVote (vote : RelayVote) (quorumKeys : List PublicKey) (activeSnCount : ℕ)
  | discardBelow (height : ℕ)
  | clear

def CollectorOp.apply (crypto : Crypto) (c : RoundCollector) : CollectorOp → RoundCollector
  | .prepare height prevId round leaderIndex => c.prepare height prevId round leaderIndex
  | .addVote vote quorumKeys activeSnCount => (c.addVote crypto vote quorumKeys activeSnCount).1
  | .discardBelow height => c.discardBelow height
  | .clear => c.clear

/-- The collector of a node after some calls. -/
def collectorAfter (crypto : Crypto) (ops : List CollectorOp) : RoundCollector :=
  ops.foldl (CollectorOp.apply crypto) {}

/-- Quorum keys and active count as functions of height and round. -/
structure Quorums where
  keys : ℕ → ℕ → List PublicKey
  activeSnCount : ℕ → ℕ → ℕ

def CollectorOp.Uses (quorums : Quorums) : CollectorOp → Prop
  | .addVote vote quorumKeys activeSnCount =>
    quorumKeys = quorums.keys vote.height vote.round ∧
      activeSnCount = quorums.activeSnCount vote.height vote.round
  | _ => True

structure Sound (crypto : Crypto) (quorums : Quorums) (c : RoundCollector) : Prop where
  verified : c.extra.votes ≠ [] → verifyRound crypto c.extra c.extra.height c.prevId
    (quorums.activeSnCount c.extra.height c.extra.round)
    (quorums.keys c.extra.height c.extra.round) 0 = true
  quorumSize : c.extra.votes ≠ [] →
    c.quorumSize = (quorums.keys c.extra.height c.extra.round).length

variable {crypto : Crypto} {quorums : Quorums} {c : RoundCollector}

/-- The payload is held twice, always the same one. -/
theorem payload_apply (h : c.extra.payloadHash = c.payloadHash) (op : CollectorOp) :
    (op.apply crypto c).extra.payloadHash = (op.apply crypto c).payloadHash := by
  cases op with
  | prepare height prevId round leaderIndex =>
    simp only [CollectorOp.apply, prepare]
    split_ifs
    · exact h
    · rfl
  | addVote vote quorumKeys activeSnCount =>
    obtain ⟨-, -, -, hextra, hpayload, -⟩ := openedBy_round c vote quorumKeys.length
    rcases addVote_cases crypto c vote quorumKeys activeSnCount with
      ⟨-, heq⟩ | ⟨-, heq⟩ | ⟨-, -, heq⟩
    · simpa only [CollectorOp.apply, heq] using h
    · simpa only [CollectorOp.apply, heq] using hextra.trans hpayload.symm
    · simpa only [CollectorOp.apply, heq, withVote] using hextra.trans hpayload.symm
  | discardBelow height =>
    simp only [CollectorOp.apply, discardBelow]
    split_ifs
    · rfl
    · exact h
  | clear => rfl

theorem payload_collectorAfter (crypto : Crypto) (ops : List CollectorOp) :
    (collectorAfter crypto ops).extra.payloadHash = (collectorAfter crypto ops).payloadHash :=
  List.foldlRecOn (motive := fun c : RoundCollector => c.extra.payloadHash = c.payloadHash) _ _
    rfl fun _ hc op _ => payload_apply hc op

theorem Sound.of_votes_nil (hvotes : c.extra.votes = []) : Sound crypto quorums c :=
  ⟨fun h => absurd hvotes h, fun h => absurd hvotes h⟩

theorem Sound.openedBy (h : Sound crypto quorums c) (hpayload : c.extra.payloadHash = c.payloadHash)
    (vote : RelayVote) :
    Sound crypto quorums
      (c.openedBy vote (quorums.keys vote.height vote.round).length) := by
  obtain ⟨hheight, hround, -, -, -, hsize⟩ :=
    openedBy_round c vote (quorums.keys vote.height vote.round).length
  rcases openedBy_votes hpayload vote (quorums.keys vote.height vote.round).length with
    hnil | heq
  · exact Sound.of_votes_nil hnil
  · refine ⟨fun hvotes => ?_, fun _ => ?_⟩
    · rw [heq] at hvotes ⊢
      exact h.verified hvotes
    · rw [hsize, hheight, hround]

theorem Sound.addVote (h : Sound crypto quorums c) (hpayload : c.extra.payloadHash = c.payloadHash)
    (vote : RelayVote) :
    Sound crypto quorums (c.addVote crypto vote (quorums.keys vote.height vote.round)
      (quorums.activeSnCount vote.height vote.round)).1 := by
  obtain ⟨hheight, hround, hprev, -, -, hsize⟩ :=
    openedBy_round c vote (quorums.keys vote.height vote.round).length
  rcases addVote_cases crypto c vote (quorums.keys vote.height vote.round)
    (quorums.activeSnCount vote.height vote.round) with ⟨-, heq⟩ | ⟨-, heq⟩ | ⟨-, hverified, heq⟩
  · rwa [heq]
  · rw [heq]
    exact h.openedBy hpayload vote
  · rw [heq]
    refine ⟨fun _ => ?_, fun _ => ?_⟩ <;> grind [withVote]

theorem Sound.apply (h : Sound crypto quorums c) (hpayload : c.extra.payloadHash = c.payloadHash)
    {op : CollectorOp} (hop : op.Uses quorums) :
    Sound crypto quorums (op.apply crypto c) := by
  cases op with
  | prepare height prevId round leaderIndex =>
    change Sound crypto quorums (c.prepare height prevId round leaderIndex)
    unfold prepare
    split_ifs
    · exact h
    · exact Sound.of_votes_nil rfl
  | addVote vote quorumKeys activeSnCount =>
    obtain ⟨rfl, rfl⟩ := hop
    exact h.addVote hpayload vote
  | discardBelow height =>
    change Sound crypto quorums (c.discardBelow height)
    unfold discardBelow
    split_ifs
    · exact Sound.of_votes_nil rfl
    · exact h
  | clear => exact Sound.of_votes_nil rfl

theorem sound_collectorAfter {ops : List CollectorOp} (hops : ∀ op ∈ ops, op.Uses quorums) :
    Sound crypto quorums (collectorAfter crypto ops) := by
  induction ops using List.reverseRecOn with
  | nil => exact Sound.of_votes_nil rfl
  | append_singleton ops op ih =>
    rw [collectorAfter, foldl_append]
    exact (ih fun o ho => hops o (mem_append_left _ ho)).apply
      (payload_collectorAfter crypto ops) (hops op (by simp))

theorem Sound.snapshot (h : Sound crypto quorums c) {cert : PulseRound}
    (hcert : c.snapshot = some cert) :
    verifyMajorityCertificate crypto cert c.extra.height c.prevId
      (quorums.activeSnCount c.extra.height c.extra.round)
      (quorums.keys c.extra.height c.extra.round) = true := by
  unfold RoundCollector.snapshot at hcert
  simp only at hcert
  split_ifs at hcert with hnone
  simp only [majorityReached, Bool.not_eq_true', decide_eq_false_iff_not, not_or, not_le,
    not_lt] at hnone
  obtain ⟨hpayload, hmajority⟩ := hnone
  have hpositive : 0 < minSignaturesForQuorum c.effectiveQuorumSize := by
    have hne : c.effectiveQuorumSize ≠ 0 := by
      unfold effectiveQuorumSize
      split_ifs with hsize
      · exact hsize
      · decide
    rw [minSignaturesForQuorum_eq hne]
    omega
  have hvotes : c.extra.votes ≠ [] := by
    intro hnil
    rw [hnil, length_nil] at hmajority
    omega
  have hround := h.verified hvotes
  rw [verifyRound_iff] at hround
  obtain ⟨hheight, hmax, hactive, hlead, hkeys, -, hsorted, hvalid⟩ := hround
  have hq : c.effectiveQuorumSize = (quorums.keys c.extra.height c.extra.round).length := by
    rw [effectiveQuorumSize, if_pos, h.quorumSize hvotes]
    rw [h.quorumSize hvotes]
    exact length_eq_zero_iff.not.mpr hkeys
  have hlength : (c.extra.votes.take (minSignaturesForQuorum c.effectiveQuorumSize)).length =
      minSignaturesForQuorum c.effectiveQuorumSize := by
    rw [length_take, Nat.min_eq_left hmajority]
  rw [← Option.some.inj hcert, verifyMajorityCertificate_iff, verifyRound_iff, ← hq]
  exact ⟨hlength, hpayload, hheight, hmax, hactive, hlead, hkeys, hlength.ge,
    hsorted.sublist (take_sublist _ _),
    fun vote hvote => hvalid vote (mem_of_mem_take hvote)⟩

end Runs

/-- Whatever votes arrive, those held are of distinct members of the quorum in the order
of their slots, signed for what is held, and a certificate taken from them verifies. -/
theorem collector_sound (crypto : Crypto) (quorums : Quorums) (ops : List CollectorOp)
    (hops : ∀ op ∈ ops, op.Uses quorums) :
    SortedVector.Increasing RoundVote.validatorIndex (collectorAfter crypto ops).extra.votes ∧
    (∀ vote ∈ (collectorAfter crypto ops).extra.votes,
      vote.validatorIndex < (collectorAfter crypto ops).quorumSize ∧
      ValidVote crypto
        (roundHash crypto (collectorAfter crypto ops).extra.height
          (collectorAfter crypto ops).prevId (collectorAfter crypto ops).extra.round
          (collectorAfter crypto ops).payloadHash)
        (quorums.keys (collectorAfter crypto ops).extra.height
          (collectorAfter crypto ops).extra.round) vote) ∧
    ∀ cert, (collectorAfter crypto ops).snapshot = some cert →
      verifyMajorityCertificate crypto cert (collectorAfter crypto ops).extra.height
        (collectorAfter crypto ops).prevId
        (quorums.activeSnCount (collectorAfter crypto ops).extra.height
          (collectorAfter crypto ops).extra.round)
        (quorums.keys (collectorAfter crypto ops).extra.height
          (collectorAfter crypto ops).extra.round) = true := by
  have hsound := @sound_collectorAfter crypto quorums ops hops
  have hpayload := payload_collectorAfter crypto ops
  generalize collectorAfter crypto ops = c at hsound hpayload
  refine ⟨?_, fun vote hvote => ?_, fun cert hcert => hsound.snapshot hcert⟩
  · by_cases hvotes : c.extra.votes = []
    · rw [hvotes]
      exact List.Pairwise.nil
    · exact (verifyRound_iff.mp (hsound.verified hvotes)).2.2.2.2.2.2.1
  · have hvotes : c.extra.votes ≠ [] := List.ne_nil_of_mem hvote
    have hvalid := (verifyRound_iff.mp (hsound.verified hvotes)).2.2.2.2.2.2.2 vote hvote
    rw [hpayload] at hvalid
    rw [hsound.quorumSize hvotes]
    exact ⟨hvalid.lt, hvalid⟩

section Sample

/-- Hashes are the last 32 bytes of what is hashed, and the signature of a key on a hash
is the two written one after the other. -/
def sampleCrypto : Crypto where
  cnFastHash bytes := BitVec.ofNat 256 (bytes.foldl (fun acc b => acc * 256 + b.toNat) 0)
  checkKey _ := true
  checkSignature hash key signature := signature = key ++ hash
  checkRingSignature _ _ _ _ := true
  generateKeyDerivation _ _ := some 0
  derivationToScalar _ _ := 0
  derivePublicKey _ _ spendKey := some spendKey
  decodeRct _ _ _ := none
  decodeRctSimple _ _ _ := none

/-- A signed vote of the member with key `pub` at a slot, for height 10 after block 1. -/
def sampleVote (round slot : ℕ) (payloadHash : Hash) (pub : PublicKey) : RelayVote where
  height := 10
  round := round
  leaderIndex := round % 3
  validatorIndex := slot
  prevId := 1
  payloadHash := payloadHash
  signature := pub ++ roundHash sampleCrypto 10 1 round payloadHash

/-- Members 2 and 0 of three vote for payload 5; in between a vote for another payload
and one with a wrong signature arrive. -/
def threeVotes : List CollectorOp :=
  [.prepare 10 1 0 0, .addVote (sampleVote 0 2 5 9) [7, 8, 9] 3,
    .addVote (sampleVote 0 1 6 8) [7, 8, 9] 3, .addVote (sampleVote 0 0 5 8) [7, 8, 9] 3,
    .addVote (sampleVote 0 0 5 7) [7, 8, 9] 3]

end Sample

theorem threeVotes_certified :
    ((collectorAfter sampleCrypto threeVotes).snapshot.map fun cert =>
      cert.votes.map RoundVote.validatorIndex) = some [0, 2] ∧
    ∀ cert, (collectorAfter sampleCrypto threeVotes).snapshot = some cert →
      verifyMajorityCertificate sampleCrypto cert
        (collectorAfter sampleCrypto threeVotes).extra.height
        (collectorAfter sampleCrypto threeVotes).prevId 3 [7, 8, 9] = true := by
  refine ⟨by decide +kernel, ?_⟩
  exact (collector_sound sampleCrypto ⟨fun _ _ => [7, 8, 9], fun _ _ => 3⟩ threeVotes
    (by simp [threeVotes, CollectorOp.Uses])).2.2

section Rejected

variable {c : RoundCollector} {vote : RelayVote} {quorumSize : ℕ}

/-- The vote is for what the collector holds already. -/
def Continues (c : RoundCollector) (vote : RelayVote) (quorumSize : ℕ) : Prop :=
  c.sameRound vote = true ∧ c.payloadHash = vote.payloadHash ∧ c.quorumSize = quorumSize

theorem openedBy_eq_self_iff (hpayload : c.extra.payloadHash = c.payloadHash) :
    c.openedBy vote quorumSize = c ↔ Continues c vote quorumSize := by
  constructor
  · grind [openedBy, Continues, sameRound, sameBlock]
  · rintro ⟨hround, hsame, hsize⟩
    rw [openedBy_of_same hpayload hround hsame, ← hsize]

end Rejected

/-- A rejected vote leaves the collector as it was just if one of the first guards stopped
it, or the collector was already collecting for that very round, payload and quorum size. -/
theorem rejected_unchanged_iff (crypto : Crypto) (ops : List CollectorOp) (vote : RelayVote)
    (quorumKeys : List PublicKey) (activeSnCount : ℕ)
    (hrejected : ((collectorAfter crypto ops).addVote crypto vote quorumKeys activeSnCount).2 =
      false) :
    ((collectorAfter crypto ops).addVote crypto vote quorumKeys activeSnCount).1 =
        collectorAfter crypto ops ↔
      Ignored (collectorAfter crypto ops) vote quorumKeys ∨
        Continues (collectorAfter crypto ops) vote quorumKeys.length := by
  have hpayload := payload_collectorAfter crypto ops
  grind [addVote, Ignored, openedBy_eq_self_iff]

theorem repeated_vote_unchanged :
    ((collectorAfter sampleCrypto threeVotes).addVote sampleCrypto (sampleVote 0 2 5 9)
        [7, 8, 9] 3).2 = false ∧
      ((collectorAfter sampleCrypto threeVotes).addVote sampleCrypto (sampleVote 0 2 5 9)
        [7, 8, 9] 3).1 = collectorAfter sampleCrypto threeVotes := by
  have hrejected : ((collectorAfter sampleCrypto threeVotes).addVote sampleCrypto
      (sampleVote 0 2 5 9) [7, 8, 9] 3).2 = false := by
    decide +kernel
  refine ⟨hrejected, (rejected_unchanged_iff sampleCrypto threeVotes _ _ _ hrejected).mpr ?_⟩
  exact Or.inr ⟨by decide +kernel, by decide +kernel, by decide +kernel⟩

/-- The vote that nobody has signed: for the next height, on payload 6. -/
def unsignedVote : RelayVote where
  height := 11
  prevId := 2
  payloadHash := 6

/-- The vote of member 1 for payload 5 at the next height. -/
def nextHeightVote : RelayVote where
  height := 11
  validatorIndex := 1
  prevId := 2
  payloadHash := 5
  signature := (8 : PublicKey) ++ roundHash sampleCrypto 11 2 0 5

/-- An unsigned vote is rejected, yet the votes and the certificate are gone, and the
payload it names keeps out the signed vote that would have been added without it. -/
theorem unsigned_vote_wipes_votes :
    let c := collectorAfter sampleCrypto threeVotes
    let wiped := c.addVote sampleCrypto unsignedVote [7, 8, 9] 3
    wiped.2 = false ∧ c.extra.votes.length = 2 ∧ c.snapshot.isSome ∧
      wiped.1.extra.votes = [] ∧ wiped.1.snapshot = none ∧ wiped.1.payloadHash = 6 ∧
      (c.addVote sampleCrypto nextHeightVote [7, 8, 9] 3).2 = true ∧
      (wiped.1.addVote sampleCrypto nextHeightVote [7, 8, 9] 3).2 = false := by
  decide +kernel

end Arqma.Pulse
