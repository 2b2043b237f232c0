import Arqma.Cryptonote
import Arqma.SortedVector

/-!
# Pulse rounds

A quorum of service nodes signs the payload of a block template round by round. The
votes on one height, previous block and round are gathered in a `RoundCollector`; a
majority of them is a certificate that a miner may put into the block.

Heights, rounds and indices are naturals: they are only compared.
-/
namespace Arqma.Pulse
open Arqma.Cryptonote

variable {quorumKeys : List PublicKey} {p : Participation} {activeSnCount : ℕ} {extra : PulseRound}
  {vote : RelayVote} {hashed : Hash} {prevId : Hash} {height : ℕ}

def kHfHybrid : ℕ := 20
def kQuorumSize : ℕ := 11
def kRoundWindowSeconds : ℕ := 15
def kMaxRound : ℕ := 7

def hybridSnPermitted (hardForkVersion : ℕ) : Bool := kHfHybrid ≤ hardForkVersion

structure RelayVote where
  height : ℕ := 0
  round : ℕ := 0
  leaderIndex : ℕ := 0
  validatorIndex : ℕ := 0
  prevId : Hash := 0
  payloadHash : Hash := 0
  signature : Signature := 0
deriving DecidableEq, Repr

section Rounds

variable (crypto : Crypto)

def leaderIndex (height snCount round : ℕ) : ℕ :=
  if snCount = 0 then 0
  else
    let seed := (hashSeed (crypto.cnFastHash (leBytes 8 height))).toNat
    (seed % snCount + round % snCount) % snCount

/-- The leader and the nodes after it, going round. -/
def quorumIndices (height snCount round quorumSize : ℕ) : List ℕ :=
  if snCount = 0 ∨ quorumSize = 0 then []
  else
    let take := if snCount < quorumSize then snCount else quorumSize
    let lead := leaderIndex crypto height snCount round
    (List.range take).map fun i => (lead + i) % snCount

def roundFromTimestamps (parentTimestamp now : ℕ) : ℕ :=
  if parentTimestamp = 0 ∨ now ≤ parentTimestamp then 0
  else
    let r := (now - parentTimestamp) / kRoundWindowSeconds
    if kMaxRound < r then kMaxRound else r

def extraRoundMatchesTimestamps (parentTimestamp blockTimestamp extraRound : ℕ) : Bool :=
  extraRound = roundFromTimestamps parentTimestamp blockTimestamp

def minSignaturesForQuorum (quorumSize : ℕ) : ℕ :=
  if quorumSize = 0 then 0
  else
    let twoThirds := quorumSize * 2 / 3
    if twoThirds < 1 then 1 else twoThirds

def majorityReached (signatures quorumSize : ℕ) : Bool :=
  minSignaturesForQuorum quorumSize ≤ signatures

/-- The slot of a key in the quorum, none if it is not a member. -/
def validatorSlot (height : ℕ) (activePubs : List PublicKey) (pub : PublicKey) (round : ℕ) :
    Option ℕ :=
  (quorumIndices crypto height activePubs.length round kQuorumSize).findIdx? fun i =>
    activePubs[i]? = some pub

def quorumPubkeys (height : ℕ) (activePubs : List PublicKey) (round : ℕ) : List PublicKey :=
  (quorumIndices crypto height activePubs.length round kQuorumSize).filterMap fun i =>
    activePubs[i]?

def roundHash (height : ℕ) (prevId : Hash) (round : ℕ) (payloadHash : Hash) : Hash :=
  crypto.cnFastHash (leBytes 8 height ++ leBytes 1 round ++ keyBytes prevId ++
    keyBytes payloadHash)

/-- What the certificate of a block commits to. -/
def minerPayloadHash (timestamp : ℕ) (txHashes : List Hash) (minerOutKey : PublicKey) : Hash :=
  crypto.cnFastHash (leBytes 8 timestamp ++ leBytes 8 txHashes.length ++
    txHashes.flatMap keyBytes ++ keyBytes minerOutKey)

/-- The loop over the votes, with the index of the vote before. -/
def verifyVotes (hashed : Hash) (quorumKeys : List PublicKey) :
    Option ℕ → List RoundVote → Bool
  | _, [] => true
  | prevIndex, vote :: votes =>
    match quorumKeys[vote.validatorIndex]? with
    | none => false
    | some key =>
      if (prevIndex.any fun i => vote.validatorIndex ≤ i) then false
      else if !crypto.checkSignature hashed key vote.signature then false
      else verifyVotes hashed quorumKeys (some vote.validatorIndex) votes

def verifyRound (extra : PulseRound) (height : ℕ) (prevId : Hash) (activeSnCount : ℕ)
    (quorumKeys : List PublicKey) (minSignatures : ℕ) : Bool :=
  if extra.height ≠ height then false
  else if kMaxRound < extra.round then false
  else if activeSnCount = 0 then false
  else if extra.leaderIndex ≠ leaderIndex crypto height activeSnCount extra.round then false
  else if quorumKeys = [] then false
  else if extra.votes.length < minSignatures then false
  else
    verifyVotes crypto (roundHash crypto height prevId extra.round extra.payloadHash) quorumKeys
      none extra.votes

def verifyMajorityCertificate (extra : PulseRound) (height : ℕ) (prevId : Hash)
    (activeSnCount : ℕ) (quorumKeys : List PublicKey) : Bool :=
  let minSigs := minSignaturesForQuorum quorumKeys.length
  if minSigs = 0 ∨ extra.votes.length ≠ minSigs then false
  else if extra.payloadHash = 0 then false
  else verifyRound crypto extra height prevId activeSnCount quorumKeys minSigs

variable {crypto}

theorem quorumIndices_lt {height snCount round quorumSize i : ℕ}
    (hi : i ∈ quorumIndices crypto height snCount round quorumSize) : i < snCount := by
  unfold quorumIndices at hi
  split at hi
  · cases hi
  · next hempty =>
    obtain ⟨j, -, rfl⟩ := List.mem_map.mp hi
    exact Nat.mod_lt _ (Nat.pos_of_ne_zero fun h => hempty (Or.inl h))

theorem quorumIndices_length (height snCount round quorumSize : ℕ) :
    (quorumIndices crypto height snCount round quorumSize).length = min snCount quorumSize := by
  unfold quorumIndices
  split_ifs with hempty <;> simp <;> omega

theorem quorumIndices_nodup (height snCount round quorumSize : ℕ) :
    (quorumIndices crypto height snCount round quorumSize).Nodup := by
  unfold quorumIndices
  split
  · exact List.nodup_nil
  · refine List.Nodup.map_on (fun i hi j hj heq => ?_) List.nodup_range
    rw [List.mem_range] at hi hj
    have htake : (if snCount < quorumSize then snCount else quorumSize) ≤ snCount := by
      split_ifs <;> omega
    have hmod : i % snCount = j % snCount := Nat.ModEq.add_left_cancel' _ heq
    rwa [Nat.mod_eq_of_lt (hi.trans_le htake), Nat.mod_eq_of_lt (hj.trans_le htake)] at hmod

/-- Every index of the quorum is of an active node, so none is skipped. -/
theorem quorumPubkeys_length (height : ℕ) (activePubs : List PublicKey) (round : ℕ) :
    (quorumPubkeys crypto height activePubs round).length = min activePubs.length kQuorumSize := by
  grind [quorumIndices_lt, quorumPubkeys, List.length_filterMap_eq_countP,
    List.countP_eq_length.mpr, quorumIndices_length]

/-- A vote of the quorum member at its index. -/
def ValidVote (crypto : Crypto) (hashed : Hash) (quorumKeys : List PublicKey) (vote : RoundVote) :
    Prop :=
  ∃ key, quorumKeys[vote.validatorIndex]? = some key ∧
    crypto.checkSignature hashed key vote.signature = true

theorem ValidVote.lt {vote : RoundVote}
    (h : ValidVote crypto hashed quorumKeys vote) : vote.validatorIndex < quorumKeys.length := by
  obtain ⟨key, hkey, -⟩ := h
  exact (List.getElem?_eq_some_iff.mp hkey).1

theorem verifyVotes_iff {prevIndex : Option ℕ} {votes : List RoundVote} :
    verifyVotes crypto hashed quorumKeys prevIndex votes = true ↔
      (∀ i ∈ prevIndex, ∀ vote ∈ votes, i < vote.validatorIndex) ∧
        SortedVector.Increasing RoundVote.validatorIndex votes ∧
        ∀ vote ∈ votes, ValidVote crypto hashed quorumKeys vote := by
  induction votes generalizing prevIndex with
  | nil => simp [verifyVotes, SortedVector.Increasing]
  | cons vote votes ih =>
    unfold verifyVotes
    cases hkey : quorumKeys[vote.validatorIndex]? with
    | none => simp [ValidVote, hkey]
    | some key =>
      have hvalid : ValidVote crypto hashed quorumKeys vote ↔
          crypto.checkSignature hashed key vote.signature = true := by
        simp [ValidVote, hkey]
      have hprev : (prevIndex.any fun i => vote.validatorIndex ≤ i) = false ↔
          ∀ i ∈ prevIndex, i < vote.validatorIndex := by
        cases prevIndex <;> simp
      grind [SortedVector.Increasing, List.pairwise_cons]

theorem verifyRound_iff {minSignatures : ℕ} :
    verifyRound crypto extra height prevId activeSnCount quorumKeys minSignatures = true ↔
      extra.height = height ∧ extra.round ≤ kMaxRound ∧ activeSnCount ≠ 0 ∧
        extra.leaderIndex = leaderIndex crypto height activeSnCount extra.round ∧
        quorumKeys ≠ [] ∧ minSignatures ≤ extra.votes.length ∧
        SortedVector.Increasing RoundVote.validatorIndex extra.votes ∧
        ∀ vote ∈ extra.votes, ValidVote crypto
          (roundHash crypto height prevId extra.round extra.payloadHash) quorumKeys vote := by
  unfold verifyRound
  split_ifs <;> simp_all [verifyVotes_iff]

theorem minSignaturesForQuorum_eq {quorumSize : ℕ} (h : quorumSize ≠ 0) :
    minSignaturesForQuorum quorumSize = max 1 (quorumSize * 2 / 3) := by
  rw [minSignaturesForQuorum, if_neg h]
  simp only
  split_ifs <;> omega

theorem minSignaturesForQuorum_le (quorumSize : ℕ) :
    minSignaturesForQuorum quorumSize ≤ quorumSize := by
  by_cases h : quorumSize = 0
  · simp [minSignaturesForQuorum, h]
  · rw [minSignaturesForQuorum_eq h]
    omega

/-- What a certificate is: a valid round with just enough votes on a payload. -/
theorem verifyMajorityCertificate_iff :
    verifyMajorityCertificate crypto extra height prevId activeSnCount quorumKeys = true ↔
      extra.votes.length = minSignaturesForQuorum quorumKeys.length ∧ extra.payloadHash ≠ 0 ∧
        verifyRound crypto extra height prevId activeSnCount quorumKeys
          (minSignaturesForQuorum quorumKeys.length) = true := by
  unfold verifyMajorityCertificate
  grind [minSignaturesForQuorum, verifyRound]

end Rounds

/-- The votes on one height, previous block and round. -/
structure RoundCollector where
  extra : PulseRound := {}
  prevId : Hash := 0
  payloadHash : Hash := 0
  quorumSize : ℕ := 0
deriving DecidableEq, Repr

namespace RoundCollector

def prepare (c : RoundCollector) (height : ℕ) (prevId : Hash) (round leaderIndex : ℕ) :
    RoundCollector :=
  if c.extra.height = height ∧ c.extra.round = round ∧ c.prevId = prevId ∧
      c.extra.leaderIndex = leaderIndex then c
  else { extra := { height, round, leaderIndex }, prevId }

def sameBlock (c : RoundCollector) (vote : RelayVote) : Bool :=
  c.extra.height = vote.height ∧ c.prevId = vote.prevId

def sameRound (c : RoundCollector) (vote : RelayVote) : Bool :=
  c.sameBlock vote && c.extra.round = vote.round

/-- What a vote turns the collector to before it is looked at more closely: a vote for
something else starts over. -/
def openedBy (c : RoundCollector) (vote : RelayVote) (quorumSize : ℕ) : RoundCollector :=
  if !c.sameRound vote || c.payloadHash ≠ vote.payloadHash then
    { extra :=
        { height := vote.height
          round := vote.round
          leaderIndex := vote.leaderIndex
          payloadHash := vote.payloadHash }
      prevId := vote.prevId
      payloadHash := vote.payloadHash
      quorumSize }
  else
    { c with
      extra := { c.extra with payloadHash := vote.payloadHash }
      quorumSize }

def insertSortedVote (votes : List RoundVote) (vote : RoundVote) : List RoundVote :=
  SortedVector.insertSorted RoundVote.validatorIndex vote votes

/-- The flag says that the vote is new and valid. -/
def addVote (crypto : Crypto) (c : RoundCollector) (vote : RelayVote)
    (quorumKeys : List PublicKey) (activeSnCount : ℕ) : RoundCollector × Bool :=
  if quorumKeys = [] ∨ quorumKeys.length ≤ vote.validatorIndex then (c, false)
  else if c.sameBlock vote ∧ vote.round < c.extra.round then (c, false)
  -- idle votes do not wipe a payload, and the first payload of a round stays
  else if c.sameRound vote ∧ vote.payloadHash = 0 ∧ c.payloadHash ≠ 0 then (c, false)
  else if c.sameRound vote ∧ c.payloadHash ≠ 0 ∧ vote.payloadHash ≠ c.payloadHash then (c, false)
  else
    let opened := c.openedBy vote quorumKeys.length
    if opened.extra.leaderIndex ≠ vote.leaderIndex then (opened, false)
    else if opened.extra.votes.any fun existing =>
        existing.validatorIndex = vote.validatorIndex then (opened, false)
    else
      let probe := { opened.extra with
        votes := insertSortedVote opened.extra.votes ⟨vote.signature, vote.validatorIndex⟩ }
      if !verifyRound crypto probe vote.height vote.prevId activeSnCount quorumKeys
          probe.votes.length then (opened, false)
      else ({ opened with extra := { opened.extra with votes := probe.votes } }, true)

/-- The quorum size that counts: the full one until a vote has told it. -/
def effectiveQuorumSize (c : RoundCollector) : ℕ :=
  if c.quorumSize ≠ 0 then c.quorumSize else kQuorumSize

/-- The certificate of a majority, with as many votes as it needs. -/
def snapshot (c : RoundCollector) : Option PulseRound :=
  let q := c.effectiveQuorumSize
  if c.extra.payloadHash = 0 ∨ !majorityReached c.extra.votes.length q then none
  else some { c.extra with votes := c.extra.votes.take (minSignaturesForQuorum q) }

def hasVote (c : RoundCollector) (validatorIndex : ℕ) : Bool :=
  c.extra.votes.any fun existing => existing.validatorIndex = validatorIndex

def majorityOk (c : RoundCollector) : Bool :=
  majorityReached c.extra.votes.length c.effectiveQuorumSize

def discardBelow (c : RoundCollector) (height : ℕ) : RoundCollector :=
  if c.extra.height ≠ 0 ∧ c.extra.height < height then {} else c

def clear (_ : RoundCollector) : RoundCollector := {}

end RoundCollector

section Participation

variable (crypto : Crypto)

/-- The arguments of a call of `participate_round`. `sign` stands for the node's secret key and
the randomness of the call. -/
structure Participation where
  height : ℕ
  prevId : Hash
  round : ℕ
  pub : PublicKey
  sign : Hash → Signature
  activePubs : List PublicKey
  relay : Bool
  payloadHash : Hash

def Participation.lead (p : Participation) : ℕ :=
  leaderIndex crypto p.height p.activePubs.length p.round % 2 ^ 32

/-- The round with the node's own vote, if it is in the quorum. -/
def tryLocalRound (p : Participation) : Option PulseRound :=
  (validatorSlot crypto p.height p.activePubs p.pub p.round).map fun slot =>
    { height := p.height
      round := p.round
      leaderIndex := p.lead crypto
      payloadHash := p.payloadHash
      votes := [⟨p.sign (roundHash crypto p.height p.prevId p.round p.payloadHash), slot⟩] }

/-- The node's own vote as it is sent round. -/
def ownVote (p : Participation) : Option RelayVote := do
  let extra ← tryLocalRound crypto p
  let vote ← extra.votes.head?
  return {
    height := extra.height
    round := extra.round
    leaderIndex := extra.leaderIndex
    validatorIndex := vote.validatorIndex
    prevId := p.prevId
    payloadHash := p.payloadHash
    signature := vote.signature }

/-- The collector afterwards, the vote that was handed to the relay hook, and whether the vote
was new. -/
def participateRound (c : RoundCollector) (p : Participation) :
    RoundCollector × Option RelayVote × Bool :=
  if p.activePubs = [] then (c, none, false)
  else
    let prepared := c.prepare p.height p.prevId p.round (p.lead crypto)
    match ownVote crypto p with
    | none => (prepared, none, false)
    | some vote =>
      let (voted, added) := prepared.addVote crypto vote
        (quorumPubkeys crypto p.height p.activePubs p.round) p.activePubs.length
      if !added && !voted.hasVote vote.validatorIndex then (voted, none, false)
      else if p.relay && voted.payloadHash = p.payloadHash then (voted, some vote, added)
      else (voted, none, added)

variable {crypto}

theorem ownVote_eq (h : ownVote crypto p = some vote) :
    vote.height = p.height ∧ vote.prevId = p.prevId ∧ vote.round = p.round ∧
      vote.payloadHash = p.payloadHash := by
  unfold ownVote tryLocalRound at h
  cases hslot : validatorSlot crypto p.height p.activePubs p.pub p.round with
  | none => simp [hslot] at h
  | some slot =>
    grind

theorem participateRound_of_none {c : RoundCollector} (hactive : p.activePubs ≠ [])
    (hvote : ownVote crypto p = none) :
    participateRound crypto c p =
      (c.prepare p.height p.prevId p.round (p.lead crypto), none, false) := by
  simp [participateRound, hactive, hvote]

theorem participateRound_of_vote {c voted : RoundCollector} {added : Bool}
    (hactive : p.activePubs ≠ []) (hvote : ownVote crypto p = some vote)
    (hadded : (c.prepare p.height p.prevId p.round (p.lead crypto)).addVote crypto vote
      (quorumPubkeys crypto p.height p.activePubs p.round) p.activePubs.length = (voted, added)) :
    participateRound crypto c p = (voted,
        if (added = true ∨ voted.hasVote vote.validatorIndex = true) ∧ p.relay = true ∧
          voted.payloadHash = p.payloadHash then some vote else none,
        added) := by
  unfold participateRound
  simp only [hactive, reduceIte, hvote, hadded]
  cases added <;> cases hhas : voted.hasVote vote.validatorIndex <;> simp <;> split_ifs <;> rfl

end Participation

end Arqma.Pulse
