import Arqma.PulseCollector

/-!
# Blink votes

A Blink quorum signs one transaction at one height. The collector keeps the votes for the
height and transaction of the last vote it was given, one per validator index. It checks a
vote against the key the vote itself names, and it starts over before it checks: a majority
in the collector is one of the quorum only as far as every counted vote is by the member at
its index, and a rejected vote for anything else than what is held wipes what is held.
-/
namespace Arqma.Blink
open Arqma.Cryptonote List Option

variable {activePubs : List PublicKey} {key : PublicKey} {height : ℕ}

def kQuorumSize : ℕ := 10

section Quorum

variable (crypto : Crypto)

/-- Two thirds, rounded up. -/
def minSignaturesForQuorum (quorumSize : ℕ) : ℕ :=
  if quorumSize = 0 then 0 else (quorumSize * 2 + 2) / 3

def leaderIndex (height snCount : ℕ) : ℕ :=
  if snCount = 0 then 0
  else (hashSeed (crypto.cnFastHash (leBytes 8 height))).toNat % snCount

def quorumIndices (height snCount quorumSize : ℕ) : List ℕ :=
  if snCount = 0 ∨ quorumSize = 0 then []
  else
    let take := if snCount < quorumSize then snCount else quorumSize
    let lead := leaderIndex crypto height snCount
    (List.range take).map fun i => (lead + i) % snCount

def txRoundHash (height : ℕ) (txid : Hash) : Hash :=
  crypto.cnFastHash (leBytes 8 height ++ keyBytes txid)

def quorumMember (height : ℕ) (activePubs : List PublicKey) (slot : ℕ) : Option PublicKey := do
  let i ← (quorumIndices crypto height activePubs.length kQuorumSize)[slot]?
  activePubs[i]?

variable {crypto}

/-- The quorum is the one of the first Pulse round, but for its size. -/
theorem quorumIndices_eq_pulse (height snCount quorumSize : ℕ) :
    quorumIndices crypto height snCount quorumSize =
      Pulse.quorumIndices crypto height snCount 0 quorumSize := by
  unfold quorumIndices Pulse.quorumIndices
  by_cases hcount : snCount = 0
  · simp [hcount]
  · simp [leaderIndex, Pulse.leaderIndex, hcount]

/-- A node that is active once has one slot. -/
theorem quorumMember_injective
    (hactive : activePubs.Nodup) {slot slot' : ℕ}
    (h : quorumMember crypto height activePubs slot = some key)
    (h' : quorumMember crypto height activePubs slot' = some key) : slot = slot' := by
  simp only [quorumMember, bind_eq_bind, bind_eq_some_iff] at h h'
  obtain ⟨i, hi, hkey⟩ := h
  obtain ⟨j, hj, hkey'⟩ := h'
  have hij : i = j := by
    grind [hactive.getElem_inj_iff.mp]
  subst hij
  have hnodup : (quorumIndices crypto height activePubs.length kQuorumSize).Nodup := by
    rw [quorumIndices_eq_pulse]
    exact Pulse.quorumIndices_nodup _ _ _ _
  grind [hnodup.getElem_inj_iff.mp]

end Quorum

structure Vote where
  validatorIndex : ℕ := 0
  pub : PublicKey := 0
  signature : Signature := 0
deriving DecidableEq, Repr

structure RelayVote where
  height : ℕ := 0
  txid : Hash := 0
  validatorIndex : ℕ := 0
  pub : PublicKey := 0
  signature : Signature := 0
deriving DecidableEq, Repr

def RelayVote.local (vote : RelayVote) : Vote := ⟨vote.validatorIndex, vote.pub, vote.signature⟩

structure Collector where
  height : ℕ := 0
  txid : Hash := 0
  votes : List Vote := []
deriving DecidableEq, Repr

namespace Collector

def reset (_ : Collector) (height : ℕ) (txid : Hash) : Collector := { height, txid }

/-- A vote at a taken index is good if it is the one held. -/
def addVote (crypto : Crypto) (c : Collector) (vote : Vote) (hashed : Hash) : Collector × Bool :=
  if !crypto.checkSignature hashed vote.pub vote.signature then (c, false)
  else
    match c.votes.find? fun existing => existing.validatorIndex = vote.validatorIndex with
    | some existing => (c, existing.signature = vote.signature)
    | none =>
      ({ c with
          votes := (c.votes ++ [vote]).insertionSort fun a b =>
            a.validatorIndex ≤ b.validatorIndex },
        true)

def majorityOk (c : Collector) (quorumSize : ℕ) : Bool :=
  minSignaturesForQuorum quorumSize ≤ c.votes.length

def resetFor (c : Collector) (vote : RelayVote) : Collector :=
  if c.height ≠ vote.height ∨ c.txid ≠ vote.txid then c.reset vote.height vote.txid else c

end Collector

/-- The collector afterwards, whether the vote was taken, and what is handed to the relay
hook. -/
def applyRelayVote (crypto : Crypto) (c : Collector) (vote : RelayVote) (relayIfNew : Bool) :
    Collector × Bool × Option RelayVote :=
  let col := c.resetFor vote
  let before := col.votes.length
  let (added, ok) := col.addVote crypto vote.local (txRoundHash crypto vote.height vote.txid)
  if !ok then (added, false, none)
  else
    let isNew := before < added.votes.length
    (added, true, if isNew && relayIfNew then some vote else none)

/-- The collector after some votes, each with its relay flag. -/
def collectorAfter (crypto : Crypto) (delivered : List (RelayVote × Bool)) : Collector :=
  delivered.foldl (fun c call => (applyRelayVote crypto c call.1 call.2).1) {}

section Apply

variable {crypto : Crypto} {c : Collector} {vote : RelayVote} {relayIfNew : Bool}

theorem resetFor_eq (c : Collector) (vote : RelayVote) :
    (c.resetFor vote).height = vote.height ∧ (c.resetFor vote).txid = vote.txid := by
  unfold Collector.resetFor
  split_ifs with hreset
  · exact ⟨rfl, rfl⟩
  · simpa using hreset

theorem resetFor_eq_self_iff :
    c.resetFor vote = c ↔ c.height = vote.height ∧ c.txid = vote.txid := by
  grind [Collector.resetFor, resetFor_eq]

theorem resetFor_votes (c : Collector) (vote : RelayVote) :
    (c.resetFor vote).votes = [] ∨ c.resetFor vote = c := by
  unfold Collector.resetFor
  split_ifs
  · exact Or.inl rfl
  · exact Or.inr rfl

theorem applyRelayVote_addVote (crypto : Crypto) (c : Collector) (vote : RelayVote)
    (relayIfNew : Bool) :
    ((applyRelayVote crypto c vote relayIfNew).1, (applyRelayVote crypto c vote relayIfNew).2.1) =
      (c.resetFor vote).addVote crypto vote.local (txRoundHash crypto vote.height vote.txid) := by
  grind [applyRelayVote]

/-- The vote is signed by the key it names and its index is free. -/
def New (crypto : Crypto) (c : Collector) (vote : Vote) (hashed : Hash) : Prop :=
  crypto.checkSignature hashed vote.pub vote.signature = true ∧
    ∀ existing ∈ c.votes, existing.validatorIndex ≠ vote.validatorIndex

/-- The vote makes the collector grow. -/
def Counted (crypto : Crypto) (c : Collector) (vote : RelayVote) : Prop :=
  New crypto (c.resetFor vote) vote.local (txRoundHash crypto vote.height vote.txid)

theorem addVote_cases (crypto : Crypto) (c : Collector) (vote : Vote) (hashed : Hash) :
    ¬ New crypto c vote hashed ∧ (c.addVote crypto vote hashed).1 = c ∨
      New crypto c vote hashed ∧ ∃ votes, votes.Perm (vote :: c.votes) ∧
        c.addVote crypto vote hashed = ({ c with votes }, true) := by
  unfold Collector.addVote New
  grind [perm_insertionSort]

/-- A vote is counted, or it changes nothing but what it resets. -/
theorem applyRelayVote_cases (crypto : Crypto) (c : Collector) (vote : RelayVote)
    (relayIfNew : Bool) :
    ¬ Counted crypto c vote ∧ (applyRelayVote crypto c vote relayIfNew).1 = c.resetFor vote ∨
      Counted crypto c vote ∧ (applyRelayVote crypto c vote relayIfNew).2.1 = true ∧
        ∃ votes, votes.Perm (vote.local :: (c.resetFor vote).votes) ∧
          (applyRelayVote crypto c vote relayIfNew).1 = { c.resetFor vote with votes } := by
  have happly := applyRelayVote_addVote crypto c vote relayIfNew
  rcases addVote_cases crypto (c.resetFor vote) vote.local
    (txRoundHash crypto vote.height vote.txid) with ⟨hold, heq⟩ | ⟨hnew, votes, hperm, heq⟩
  · rw [← happly] at heq
    exact Or.inl ⟨hold, heq⟩
  · rw [← happly, Prod.mk.injEq] at heq
    exact Or.inr ⟨hnew, heq.2, votes, hperm, heq.1⟩

end Apply

/-- A rejected vote leaves the collector as it was just if the collector already holds its
height and transaction. -/
theorem rejected_blink_vote_unchanged_iff (crypto : Crypto) (delivered : List (RelayVote × Bool))
    (vote : RelayVote) (relayIfNew : Bool)
    (hrejected : (applyRelayVote crypto (collectorAfter crypto delivered) vote relayIfNew).2.1 =
      false) :
    (applyRelayVote crypto (collectorAfter crypto delivered) vote relayIfNew).1 =
        collectorAfter crypto delivered ↔
      (collectorAfter crypto delivered).height = vote.height ∧
        (collectorAfter crypto delivered).txid = vote.txid := by
  generalize collectorAfter crypto delivered = c at hrejected ⊢
  rcases applyRelayVote_cases crypto c vote relayIfNew with ⟨-, heq⟩ | ⟨-, htaken, -⟩
  · rw [heq, resetFor_eq_self_iff]
  · simp [htaken] at hrejected

section Sample

/-- A signed vote for transaction 5 at height 10. -/
def sampleVote (slot : ℕ) (pub : PublicKey) : RelayVote where
  height := 10
  txid := 5
  validatorIndex := slot
  pub := pub
  signature := pub ++ txRoundHash Pulse.sampleCrypto 10 5

/-- Members 2 and 0 have voted. -/
def twoVotes : List (RelayVote × Bool) := [(sampleVote 2 9, true), (sampleVote 0 7, true)]

end Sample

theorem badly_signed_vote_unchanged :
    (applyRelayVote Pulse.sampleCrypto (collectorAfter Pulse.sampleCrypto twoVotes)
        { sampleVote 1 8 with signature := 0 } true).2.1 = false ∧
      (applyRelayVote Pulse.sampleCrypto (collectorAfter Pulse.sampleCrypto twoVotes)
        { sampleVote 1 8 with signature := 0 } true).1 =
        collectorAfter Pulse.sampleCrypto twoVotes := by
  have hrejected : (applyRelayVote Pulse.sampleCrypto (collectorAfter Pulse.sampleCrypto twoVotes)
      { sampleVote 1 8 with signature := 0 } true).2.1 = false := by
    decide +kernel
  refine ⟨hrejected, (rejected_blink_vote_unchanged_iff _ _ _ _ hrejected).mpr ?_⟩
  exact ⟨by decide, by decide⟩

/-- A vote without a signature for another transaction is rejected, and the two votes held
are gone. -/
theorem unsigned_blink_vote_wipes_votes :
    let c := collectorAfter Pulse.sampleCrypto twoVotes
    let wiped := applyRelayVote Pulse.sampleCrypto c { height := 10, txid := 6 } true
    c.votes.map Vote.validatorIndex = [0, 2] ∧ c.txid = 5 ∧
      wiped.2.1 = false ∧ wiped.1.votes = [] ∧ wiped.1.txid = 6 := by
  decide +kernel

section Majority

variable (crypto : Crypto) (activePubs : List PublicKey) (height : ℕ) (txid : Hash)

/-- The key of a vote is the one of the member at its index. -/
def ByMember (vote : Vote) : Prop :=
  quorumMember crypto height activePubs vote.validatorIndex = some vote.pub

/-- As many distinct members as a majority needs have signed the transaction. -/
def SignedByMajority (delivered : List (RelayVote × Bool)) : Prop :=
  ∃ members : Finset PublicKey,
    minSignaturesForQuorum (quorumIndices crypto height activePubs.length kQuorumSize).length ≤
        members.card ∧
      ∀ key ∈ members, (∃ slot, quorumMember crypto height activePubs slot = some key) ∧
        ∃ call ∈ delivered,
          crypto.checkSignature (txRoundHash crypto height txid) key call.1.signature = true

/-- What is held: one vote per index, each delivered for what the collector holds and signed
by the key it names. -/
structure Held (delivered : List (RelayVote × Bool)) (c : Collector) : Prop where
  nodup : (c.votes.map Vote.validatorIndex).Nodup
  signed : ∀ vote ∈ c.votes,
    (∃ call ∈ delivered, call.1.local = vote) ∧
      crypto.checkSignature (txRoundHash crypto c.height c.txid) vote.pub vote.signature = true

variable {crypto activePubs height txid} {delivered : List (RelayVote × Bool)} {c : Collector}

theorem Held.resetFor (h : Held crypto delivered c) (vote : RelayVote) :
    Held crypto delivered (c.resetFor vote) := by
  rcases resetFor_votes c vote with hnil | heq
  · exact ⟨by simp [hnil], by simp [hnil]⟩
  · rwa [heq]

theorem Held.apply (h : Held crypto delivered c) (call : RelayVote × Bool) :
    Held crypto (delivered ++ [call]) (applyRelayVote crypto c call.1 call.2).1 := by
  obtain ⟨hheight, htxid⟩ := resetFor_eq c call.1
  have hreset := h.resetFor call.1
  have hkept : Held crypto (delivered ++ [call]) (c.resetFor call.1) := by
    refine ⟨hreset.nodup, fun vote hvote => ?_⟩
    obtain ⟨⟨before, hbefore, hlocal⟩, hsignature⟩ := hreset.signed vote hvote
    exact ⟨⟨before, mem_append_left _ hbefore, hlocal⟩, hsignature⟩
  rcases applyRelayVote_cases crypto c call.1 call.2 with
    ⟨-, heq⟩ | ⟨⟨hsignature, hfree⟩, -, votes, hperm, heq⟩
  · rwa [heq]
  · rw [heq]
    refine ⟨?_, fun vote hvote => ?_⟩
    · grind [hreset.nodup]
    · rcases mem_cons.mp (hperm.mem_iff.mp hvote) with rfl | hvote
      · simp only [hheight, htxid]
        exact ⟨⟨call, by simp, rfl⟩, hsignature⟩
      · exact hkept.signed vote hvote

theorem collectorAfter_append (delivered : List (RelayVote × Bool)) (call : RelayVote × Bool) :
    collectorAfter crypto (delivered ++ [call]) =
      (applyRelayVote crypto (collectorAfter crypto delivered) call.1 call.2).1 := by
  simp [collectorAfter]

theorem held_collectorAfter (crypto : Crypto) (delivered : List (RelayVote × Bool)) :
    Held crypto delivered (collectorAfter crypto delivered) := by
  induction delivered using List.reverseRecOn with
  | nil => exact ⟨by simp [collectorAfter], by simp [collectorAfter]⟩
  | append_singleton delivered call ih =>
    rw [collectorAfter_append]
    exact ih.apply call

/-- Distinct indices of members are distinct members. -/
theorem Held.signedByMajority (h : Held crypto delivered c) (hactive : activePubs.Nodup)
    (hmember : ∀ vote ∈ c.votes, ByMember crypto activePubs c.height vote)
    (hmajority : c.majorityOk
      (quorumIndices crypto c.height activePubs.length kQuorumSize).length = true) :
    SignedByMajority crypto activePubs c.height c.txid delivered := by
  have hnodup : (c.votes.map Vote.pub).Nodup := by
    refine List.Nodup.map_on (fun a ha b hb hpub => ?_) (List.Nodup.of_map _ h.nodup)
    have hmember' : quorumMember crypto c.height activePubs b.validatorIndex = some a.pub := by
      rw [hpub]
      exact hmember b hb
    have hslot := quorumMember_injective hactive (hmember a ha) hmember'
    exact inj_on_of_nodup_map h.nodup ha hb hslot
  refine ⟨(c.votes.map Vote.pub).toFinset, ?_, fun key hkey => ?_⟩
  · rw [toFinset_card_of_nodup hnodup, length_map]
    simpa [Collector.majorityOk] using hmajority
  · obtain ⟨vote, hvote, rfl⟩ := mem_map.mp (mem_toFinset.mp hkey)
    obtain ⟨⟨call, hcall, rfl⟩, hsignature⟩ := h.signed vote hvote
    exact ⟨⟨_, hmember _ hvote⟩, call, hcall, hsignature⟩

theorem collectorAfter_take_succ (crypto : Crypto) {k : ℕ} {call : RelayVote × Bool}
    (hcall : delivered[k]? = some call) :
    collectorAfter crypto (delivered.take (k + 1)) =
      (applyRelayVote crypto (collectorAfter crypto (delivered.take k)) call.1 call.2).1 := by
  rw [take_add_one, hcall, toList_some, collectorAfter_append]

/-- A vote with a signature of its own key on what it is about. -/
def ValidlySigned (crypto : Crypto) (vote : RelayVote) : Prop :=
  crypto.checkSignature (txRoundHash crypto vote.height vote.txid) vote.pub vote.signature = true

theorem byMember_collectorAfter
    (hmembers : ∀ call ∈ delivered, call.1.height = height → call.1.txid = txid →
      ValidlySigned crypto call.1 → ByMember crypto activePubs height call.1.local) (k : ℕ)
    (hheight : (collectorAfter crypto (delivered.take k)).height = height)
    (htxid : (collectorAfter crypto (delivered.take k)).txid = txid) :
    ∀ vote ∈ (collectorAfter crypto (delivered.take k)).votes,
      ByMember crypto activePubs height vote := by
  induction k with
  | zero => simp [collectorAfter]
  | succ k ih =>
    cases hcall : delivered[k]? with
    | none =>
      rw [take_add_one, hcall, toList_none, append_nil] at hheight htxid ⊢
      exact ih hheight htxid
    | some call =>
      rw [collectorAfter_take_succ crypto hcall] at hheight htxid ⊢
      have hnew := hmembers call (mem_of_getElem? hcall)
      generalize collectorAfter crypto (delivered.take k) = c at *
      obtain ⟨hcallHeight, hcallTxid⟩ := resetFor_eq c call.1
      have hkept : call.1.height = height → call.1.txid = txid →
          ∀ vote ∈ (c.resetFor call.1).votes, ByMember crypto activePubs height vote := by
        rintro rfl rfl
        rcases resetFor_votes c call.1 with hnil | hsame
        · simp [hnil]
        · rw [hsame] at hcallHeight hcallTxid ⊢
          exact ih hcallHeight hcallTxid
      rcases applyRelayVote_cases crypto c call.1 call.2 with
        ⟨-, heq⟩ | ⟨hcount, -, votes, hperm, heq⟩
      · rw [heq] at hheight htxid ⊢
        exact hkept (hcallHeight.symm.trans hheight) (hcallTxid.symm.trans htxid)
      · rw [heq] at hheight htxid ⊢
        have hheight := hcallHeight.symm.trans hheight
        have htxid := hcallTxid.symm.trans htxid
        intro vote hvote
        rcases mem_cons.mp (hperm.mem_iff.mp hvote) with rfl | hvote
        · exact hnew hheight htxid hcount.1
        · exact hkept hheight htxid vote hvote

end Majority

/-- A majority in the collector is one of the quorum, and only votes of members count, at every
moment of every run on some votes just if each of these votes that is about the transaction and
validly signed is by the member at its index. -/
theorem majority_by_members_iff (crypto : Crypto) (activePubs : List PublicKey)
    (hactive : activePubs.Nodup) (height : ℕ) (txid : Hash) (sent : Set (RelayVote × Bool)) :
    (∀ delivered : List (RelayVote × Bool), (∀ call ∈ delivered, call ∈ sent) →
      (collectorAfter crypto delivered).height = height →
      (collectorAfter crypto delivered).txid = txid →
        (∀ vote ∈ (collectorAfter crypto delivered).votes,
          ByMember crypto activePubs height vote) ∧
        ((collectorAfter crypto delivered).majorityOk
            (quorumIndices crypto height activePubs.length kQuorumSize).length = true →
          SignedByMajority crypto activePubs height txid delivered)) ↔
      ∀ call ∈ sent, call.1.height = height → call.1.txid = txid → ValidlySigned crypto call.1 →
        ByMember crypto activePubs height call.1.local := by
  constructor
  · -- the vote alone makes a run
    rintro hruns call hcall rfl rfl hsigned
    have hone : collectorAfter crypto [call] = (applyRelayVote crypto {} call.1 call.2).1 := rfl
    have hempty : (Collector.resetFor {} call.1).votes = [] :=
      (resetFor_votes {} call.1).elim id fun hsame => by rw [hsame]
    rcases applyRelayVote_cases crypto {} call.1 call.2 with ⟨hnot, -⟩ | ⟨-, -, votes, hperm, heq⟩
    · refine absurd ⟨hsigned, fun existing hexisting => ?_⟩ hnot
      rw [hempty] at hexisting
      cases hexisting
    · obtain ⟨hheight, htxid⟩ := resetFor_eq {} call.1
      rw [heq] at hone
      have hrun := hruns [call] (by simpa using hcall) (by rw [hone, hheight]) (by rw [hone, htxid])
      rw [hone] at hrun
      exact hrun.1 _ (hperm.mem_iff.mpr mem_cons_self)
  · rintro hmembers delivered hsent rfl rfl
    have hmember := byMember_collectorAfter (fun call hcall => hmembers call (hsent call hcall))
      delivered.length (by rw [take_length]) (by rw [take_length])
    rw [take_length] at hmember
    exact ⟨hmember, (held_collectorAfter crypto _).signedByMajority hactive hmember⟩

/-- A quorum of three, all of whom vote. -/
def memberVotes : List (RelayVote × Bool) :=
  [(sampleVote 0 7, true), (sampleVote 2 9, true), (sampleVote 1 8, true)]

theorem memberVotes_majority :
    (collectorAfter Pulse.sampleCrypto memberVotes).majorityOk 3 = true ∧
      SignedByMajority Pulse.sampleCrypto [7, 8, 9] 10 5 memberVotes := by
  have hmembers : ∀ call ∈ memberVotes,
      quorumMember Pulse.sampleCrypto 10 [7, 8, 9] call.1.local.validatorIndex =
        some call.1.local.pub := by
    decide
  have hrun := (majority_by_members_iff Pulse.sampleCrypto [7, 8, 9] (by decide) 10 5
    {call | call ∈ memberVotes}).mpr (fun call hcall _ _ _ => hmembers call hcall) memberVotes
    (fun _ hcall => hcall) (by decide) (by decide)
  exact ⟨by decide, hrun.2 (by decide)⟩

/-- Seven votes of one key that is not active, at seven indices that do not exist. -/
def outsiderVotes : List (RelayVote × Bool) :=
  (List.range 7).map fun i => (sampleVote (100 + i) 99, true)

def tenActive : List PublicKey := [1, 2, 3, 4, 5, 6, 7, 8, 9, 10]

theorem quorumMember_mem {crypto : Crypto} {slot : ℕ}
    (h : quorumMember crypto height activePubs slot = some key) :
    key ∈ activePubs := by
  simp only [quorumMember, bind_eq_bind, bind_eq_some_iff] at h
  obtain ⟨i, -, hkey⟩ := h
  exact mem_of_getElem? hkey

/-- The collector reports a majority of a quorum of ten to which not one member has
contributed. -/
theorem outsider_majority :
    let c := collectorAfter Pulse.sampleCrypto outsiderVotes
    (quorumIndices Pulse.sampleCrypto 10 tenActive.length kQuorumSize).length = 10 ∧
      c.height = 10 ∧ c.txid = 5 ∧ c.majorityOk 10 = true ∧
      ¬ SignedByMajority Pulse.sampleCrypto tenActive 10 5 outsiderVotes := by
  have hsize : (quorumIndices Pulse.sampleCrypto 10 tenActive.length kQuorumSize).length = 10 := by
    decide
  have hforeign : (tenActive.all fun key => outsiderVotes.all fun call =>
      !Pulse.sampleCrypto.checkSignature (txRoundHash Pulse.sampleCrypto 10 5) key
        call.1.signature) = true := by
    decide
  refine ⟨hsize, by decide +kernel, by decide +kernel, by decide +kernel, ?_⟩
  rintro ⟨members, hcard, hsigned⟩
  rw [hsize] at hcard
  have hpos : 0 < members.card := lt_of_lt_of_le (by decide) hcard
  obtain ⟨key, hkey⟩ := Finset.card_pos.mp hpos
  obtain ⟨⟨slot, hslot⟩, call, hcall, hsignature⟩ := hsigned key hkey
  have hkeys := all_eq_true.mp hforeign key (quorumMember_mem hslot)
  have hinvalid := all_eq_true.mp hkeys call hcall
  rw [hsignature] at hinvalid
  cases hinvalid

end Arqma.Blink
