import Arqma.PulseCollector

/-!
# Agreement of Pulse certificates

Two certificates of one round come from the same quorum. They share a slot as soon as
two majorities are more than the quorum, and then members that sign one payload per round
vouch for one payload only. Rounding two thirds down leaves two quorum sizes, 2 and 4,
where half of the members are a majority and two certificates need not meet.
-/
namespace Arqma.Pulse
open Arqma.Cryptonote

section Certificates

variable {crypto : Crypto} {height : ℕ} {prevId : Hash} {round : ℕ} {active : List PublicKey}
  {cert cert' : PulseRound}

/-- A certificate that nodes with this active list accept for the quorum of a round. -/
def Accepted (crypto : Crypto) (active : List PublicKey) (height : ℕ) (prevId : Hash) (round : ℕ)
    (cert : PulseRound) : Prop :=
  verifyMajorityCertificate crypto cert height prevId active.length
    (quorumPubkeys crypto height active round) = true

/-- Whoever the votes are by has signed the payload: nobody else can. -/
def VouchedBy (signed : PublicKey → Hash → Prop) (quorumKeys : List PublicKey)
    (cert : PulseRound) : Prop :=
  ∀ vote ∈ cert.votes, ∀ key ∈ quorumKeys[vote.validatorIndex]?, signed key cert.payloadHash

/-- The quorum sizes of which two majorities always meet. -/
theorem lt_two_mul_minSignatures_iff {quorumSize : ℕ} (h : quorumSize ≤ kQuorumSize) :
    quorumSize < 2 * minSignaturesForQuorum quorumSize ↔
      quorumSize ≠ 0 ∧ quorumSize ≠ 2 ∧ quorumSize ≠ 4 := by
  unfold kQuorumSize at h
  interval_cases quorumSize <;> decide

theorem Accepted.votes (h : Accepted crypto active height prevId round cert) :
    active ≠ [] ∧ cert.votes.length = minSignaturesForQuorum (min active.length kQuorumSize) ∧
      SortedVector.Increasing RoundVote.validatorIndex cert.votes ∧
      ∀ vote ∈ cert.votes, vote.validatorIndex <
        (quorumPubkeys crypto height active round).length := by
  obtain ⟨hlength, -, hround⟩ := verifyMajorityCertificate_iff.mp h
  obtain ⟨-, -, hactive, -, -, -, hsorted, hvalid⟩ := verifyRound_iff.mp hround
  grind [ValidVote, quorumPubkeys_length]

theorem Accepted.exists_common_slot (h : Accepted crypto active height prevId round cert)
    (h' : Accepted crypto active height prevId round cert') (htwo : active.length ≠ 2)
    (hfour : active.length ≠ 4) :
    ∃ vote ∈ cert.votes, ∃ vote' ∈ cert'.votes, vote.validatorIndex = vote'.validatorIndex := by
  obtain ⟨hactive, hlength, hsorted, hlt⟩ := h.votes
  obtain ⟨-, hlength', hsorted', hlt'⟩ := h'.votes
  have hne := List.length_pos_iff.mpr hactive
  have hmeet : min active.length kQuorumSize <
      2 * minSignaturesForQuorum (min active.length kQuorumSize) := by
    rw [lt_two_mul_minSignatures_iff (Nat.min_le_right _ _)]
    unfold kQuorumSize
    omega
  refine hsorted.exists_common hsorted' hlt hlt' ?_
  rw [quorumPubkeys_length, hlength, hlength']
  omega

/-- A member behind both certificates has signed both payloads. -/
theorem VouchedBy.payload_eq {signed : PublicKey → Hash → Prop} {quorumKeys : List PublicKey}
    (honce : ∀ key ∈ quorumKeys, ∀ p q, signed key p → signed key q → p = q)
    (h : VouchedBy signed quorumKeys cert) (h' : VouchedBy signed quorumKeys cert')
    {vote vote' : RoundVote} (hvote : vote ∈ cert.votes) (hvote' : vote' ∈ cert'.votes)
    (hslot : vote.validatorIndex = vote'.validatorIndex)
    (hlt : vote.validatorIndex < quorumKeys.length) : cert.payloadHash = cert'.payloadHash := by
  have hkey : quorumKeys[vote.validatorIndex]? = some quorumKeys[vote.validatorIndex] :=
    List.getElem?_eq_getElem hlt
  exact honce _ (List.getElem_mem hlt) _ _ (h vote hvote _ hkey)
    (h' vote' hvote' _ (hslot ▸ hkey))

end Certificates

section Halves

/-- Everything hashes to zero and every signature is good. -/
def lenientCrypto : Crypto where
  cnFastHash _ := 0
  checkKey _ := true
  checkSignature _ _ _ := true
  checkRingSignature _ _ _ _ := true
  generateKeyDerivation _ _ := some 0
  derivationToScalar _ _ := 0
  derivePublicKey _ _ spendKey := some spendKey
  decodeRct _ _ _ := none
  decodeRctSimple _ _ _ := none

def keysBelow (n : ℕ) : List PublicKey := (List.range n).map (BitVec.ofNat 256)

def certOf (payloadHash : Hash) (slots : List ℕ) : PulseRound where
  payloadHash := payloadHash
  votes := slots.map fun slot => ⟨0, slot⟩

/-- The lower half of the members signs payload 1, the upper half payload 2. -/
def halfSigned (half : ℕ) (key : PublicKey) (payloadHash : Hash) : Prop :=
  payloadHash = if key.toNat < half then 1 else 2

theorem certOf_vouched {n half : ℕ} {payloadHash : Hash} {slots : List ℕ}
    (hslots : ∀ slot ∈ slots, halfSigned half (BitVec.ofNat 256 slot) payloadHash) :
    VouchedBy (halfSigned half) (keysBelow n) (certOf payloadHash slots) := by
  grind [VouchedBy, certOf, keysBelow]

/-- With two or four nodes each half has its own certificate. -/
theorem halves_accepted {n : ℕ} (h : n = 2 ∨ n = 4) :
    Accepted lenientCrypto (keysBelow n) 0 0 0 (certOf 1 (List.range (n / 2))) ∧
      Accepted lenientCrypto (keysBelow n) 0 0 0 (certOf 2 (List.range' (n / 2) (n / 2))) ∧
      quorumPubkeys lenientCrypto 0 (keysBelow n) 0 = keysBelow n := by
  unfold Accepted
  rcases h with rfl | rfl <;> decide

theorem halves_vouched {n : ℕ} (h : n = 2 ∨ n = 4) :
    VouchedBy (halfSigned (n / 2)) (keysBelow n) (certOf 1 (List.range (n / 2))) ∧
      VouchedBy (halfSigned (n / 2)) (keysBelow n)
        (certOf 2 (List.range' (n / 2) (n / 2))) := by
  refine ⟨certOf_vouched fun slot hslot => ?_,
    certOf_vouched fun slot hslot => ?_⟩ <;> grind [halfSigned]

end Halves

/-- Which lengths of the active list make any two certificates of a round meet in a slot,
and carry one payload if every member signs one. -/
theorem certificates_agree_iff (n : ℕ) :
    ((∀ (crypto : Crypto) (active : List PublicKey) (height : ℕ) (prevId : Hash) (round : ℕ)
        (cert cert' : PulseRound), active.length = n →
        Accepted crypto active height prevId round cert →
        Accepted crypto active height prevId round cert' →
        ∃ vote ∈ cert.votes, ∃ vote' ∈ cert'.votes, vote.validatorIndex = vote'.validatorIndex) ↔
      n ≠ 2 ∧ n ≠ 4) ∧
    ((∀ (crypto : Crypto) (active : List PublicKey) (height : ℕ) (prevId : Hash) (round : ℕ)
        (signed : PublicKey → Hash → Prop), active.length = n →
        (∀ key ∈ quorumPubkeys crypto height active round, ∀ p q,
          signed key p → signed key q → p = q) →
        ∀ cert cert' : PulseRound, cert.round = round → cert'.round = round →
        Accepted crypto active height prevId round cert →
        Accepted crypto active height prevId round cert' →
        VouchedBy signed (quorumPubkeys crypto height active round) cert →
        VouchedBy signed (quorumPubkeys crypto height active round) cert' →
        cert.payloadHash = cert'.payloadHash) ↔
      n ≠ 2 ∧ n ≠ 4) := by
  refine ⟨⟨fun hmeet => ?_, ?_⟩, ⟨fun hagree => ?_, ?_⟩⟩
  · by_contra hn
    have hhalf : n = 2 ∨ n = 4 := by omega
    obtain ⟨hlower, hupper, -⟩ := halves_accepted hhalf
    obtain ⟨vote, hvote, vote', hvote', hslot⟩ :=
      hmeet _ _ _ _ _ _ _ (by simp [keysBelow]) hlower hupper
    obtain ⟨i, hi, rfl⟩ := List.mem_map.mp hvote
    obtain ⟨j, hj, rfl⟩ := List.mem_map.mp hvote'
    rw [List.mem_range] at hi
    rw [List.mem_range'_1] at hj
    simp only at hslot
    omega
  · rintro ⟨htwo, hfour⟩ crypto active height prevId round cert cert' rfl hcert hcert'
    exact hcert.exists_common_slot hcert' htwo hfour
  · by_contra hn
    have hhalf : n = 2 ∨ n = 4 := by omega
    obtain ⟨hlower, hupper, hkeys⟩ := halves_accepted hhalf
    obtain ⟨hvouched, hvouched'⟩ := halves_vouched hhalf
    rw [← hkeys] at hvouched hvouched'
    have honce : ∀ key ∈ quorumPubkeys lenientCrypto 0 (keysBelow n) 0, ∀ p q,
        halfSigned (n / 2) key p → halfSigned (n / 2) key q → p = q :=
      fun _ _ _ _ hp hq => hp.trans hq.symm
    have hsame := hagree lenientCrypto _ 0 0 0 _ (by simp [keysBelow]) honce _ _ rfl rfl
      hlower hupper hvouched hvouched'
    have hdiffer : (1 : Hash) ≠ 2 := by decide
    exact hdiffer hsame
  · rintro ⟨htwo, hfour⟩ crypto active height prevId round signed rfl honce cert cert' - - hcert
      hcert' hvouched hvouched'
    grind [hcert.exists_common_slot, hvouched.payload_eq, hcert.votes.2.2.2]

/-- The vote of a lone member of a two-node quorum. -/
def loneVote (slot : ℕ) (payloadHash : Hash) (pub : PublicKey) : PulseRound where
  height := 10
  payloadHash := payloadHash
  votes := [⟨pub ++ roundHash sampleCrypto 10 1 0 payloadHash, slot⟩]

/-- Two nodes, each signing one payload: both certificates are accepted. -/
theorem lone_votes_disagree :
    Accepted sampleCrypto [7, 8] 10 1 0 (loneVote 0 5 7) ∧
      Accepted sampleCrypto [7, 8] 10 1 0 (loneVote 1 6 8) ∧
      quorumPubkeys sampleCrypto 10 [7, 8] 0 = [7, 8] ∧
      (loneVote 0 5 7).payloadHash ≠ (loneVote 1 6 8).payloadHash ∧
      ∀ vote ∈ (loneVote 0 5 7).votes, ∀ vote' ∈ (loneVote 1 6 8).votes,
        vote.validatorIndex ≠ vote'.validatorIndex := by
  unfold Accepted
  decide +kernel

end Arqma.Pulse
