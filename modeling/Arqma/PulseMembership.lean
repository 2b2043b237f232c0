import Arqma.Pulse

/-!
# Members of a round

The quorum of a round is a window on the active nodes that goes round at the end of the
list. Every member finds its own slot in it. The vote a member makes is valid for every
node with the same list, as long as the index of the leader fits into the 32 bits it has
in the round.
-/
namespace Arqma.Pulse
open Arqma.Cryptonote List

section Members

variable {crypto : Crypto} {height round : ℕ} {activePubs : List PublicKey} {pub : PublicKey}

/-- None of the indices is skipped. -/
theorem quorumPubkeys_getElem? (slot : ℕ) : (quorumPubkeys crypto height activePubs round)[slot]? =
      (quorumIndices crypto height activePubs.length round kQuorumSize)[slot]?.bind
        fun i => activePubs[i]? := by
  have hmap : quorumPubkeys crypto height activePubs round =
      (quorumIndices crypto height activePubs.length round kQuorumSize).map fun i =>
        activePubs.getD i 0 := by
    rw [quorumPubkeys, ← filterMap_eq_map]
    refine filterMap_congr fun i hi => ?_
    have hlt := quorumIndices_lt hi
    simp [getD_eq_getElem?_getD, getElem?_eq_getElem hlt]
  rw [hmap, getElem?_map]
  cases hi : (quorumIndices crypto height activePubs.length round kQuorumSize)[slot]? with
  | none => rfl
  | some i =>
    have hlt := quorumIndices_lt (mem_of_getElem? hi)
    simp [getD_eq_getElem?_getD, getElem?_eq_getElem hlt]

/-- A slot is where the quorum has the key. -/
theorem getElem?_validatorSlot {slot : ℕ}
    (h : validatorSlot crypto height activePubs pub round = some slot) :
    (quorumPubkeys crypto height activePubs round)[slot]? = some pub := by
  obtain ⟨hlt, hkey, -⟩ := findIdx?_eq_some_iff_getElem.mp h
  rw [quorumPubkeys_getElem?, getElem?_eq_getElem hlt]
  exact of_decide_eq_true hkey

theorem exists_validatorSlot (h : pub ∈ quorumPubkeys crypto height activePubs round) :
    ∃ slot, validatorSlot crypto height activePubs pub round = some slot := by
  obtain ⟨i, hi, hkey⟩ := mem_filterMap.mp h
  refine Option.isSome_iff_exists.mp ?_
  rw [validatorSlot, findIdx?_isSome, any_eq_true]
  exact ⟨i, hi, decide_eq_true hkey⟩

theorem leaderIndex_lt (hsome : activePubs ≠ []) :
    leaderIndex crypto height activePubs.length round < activePubs.length := by
  have hpos := length_pos_of_ne_nil hsome
  rw [leaderIndex, if_neg hpos.ne']
  exact Nat.mod_lt _ hpos

/-- The own vote passes the checks of a round, but for the width of the leader's index. -/
theorem verifyRound_tryLocalRound {p : Participation} (hround : p.round ≤ kMaxRound)
    (hmember : p.pub ∈ quorumPubkeys crypto p.height p.activePubs p.round)
    (hsign : ∀ hashed, crypto.checkSignature hashed p.pub (p.sign hashed) = true) :
    ∃ extra, tryLocalRound crypto p = some extra ∧
      (verifyRound crypto extra p.height p.prevId p.activePubs.length
          (quorumPubkeys crypto p.height p.activePubs p.round) 1 = true ↔
        leaderIndex crypto p.height p.activePubs.length p.round < 2 ^ 32) := by
  obtain ⟨slot, hslot⟩ := exists_validatorSlot hmember
  have hkey := getElem?_validatorSlot hslot
  have hactive : p.activePubs.length ≠ 0 := by
    intro hnone
    rw [quorumPubkeys, hnone] at hmember
    simp [quorumIndices] at hmember
  refine ⟨_, by rw [tryLocalRound, hslot]; rfl, ?_⟩
  rw [verifyRound_iff, Participation.lead, Nat.mod_eq_iff_lt (by decide)]
  constructor
  · exact fun h => h.2.2.2.1
  · refine fun hlead => ⟨rfl, hround, hactive, hlead, ne_nil_of_mem hmember, le_rfl,
      pairwise_singleton _ _, fun vote hvote => ?_⟩
    rw [mem_singleton.mp hvote]
    exact ⟨p.pub, hkey, hsign _⟩

end Members

/-- The indices of a quorum are different and in range, and it has eleven members if
there are as many nodes. Every member stands at its own slot. Its vote is accepted with
the same list of nodes exactly if the index of the leader has 32 bits, which up to
`2 ^ 32` nodes it always has. -/
theorem pulse_membership (crypto : Crypto) (p : Participation) (hdistinct : p.activePubs.Nodup)
    (hsome : p.activePubs ≠ []) (hround : p.round ≤ kMaxRound) :
    let indices := quorumIndices crypto p.height p.activePubs.length p.round kQuorumSize
    let keys := quorumPubkeys crypto p.height p.activePubs p.round
    indices.Nodup ∧ (∀ i ∈ indices, i < p.activePubs.length) ∧
      keys.length = min p.activePubs.length 11 ∧ keys.Nodup ∧
      (∀ key ∈ keys, ∃ slot, validatorSlot crypto p.height p.activePubs key p.round = some slot ∧
        keys[slot]? = some key) ∧
      (p.pub ∈ keys → (∀ hashed, crypto.checkSignature hashed p.pub (p.sign hashed) = true) →
        ∃ extra, tryLocalRound crypto p = some extra ∧
          (verifyRound crypto extra p.height p.prevId p.activePubs.length keys 1 = true ↔
            leaderIndex crypto p.height p.activePubs.length p.round < 2 ^ 32)) ∧
      (p.activePubs.length ≤ 2 ^ 32 →
        leaderIndex crypto p.height p.activePubs.length p.round < 2 ^ 32) := by
  refine ⟨quorumIndices_nodup _ _ _ _, fun i hi => quorumIndices_lt hi,
    quorumPubkeys_length _ _ _, ?_, fun key hkey => ?_, verifyRound_tryLocalRound hround,
    (leaderIndex_lt hsome).trans_le⟩
  · refine (quorumIndices_nodup _ _ _ _).filterMap fun i j key hi hj => ?_
    have hlt := (List.getElem?_eq_some_iff.mp hi).1
    exact (List.getElem?_inj hlt hdistinct).mp (hi.trans hj.symm)
  · obtain ⟨slot, hslot⟩ := exists_validatorSlot hkey
    exact ⟨slot, hslot, getElem?_validatorSlot hslot⟩

section Sample

/-- Every signature is good, and every hash starts with the given number. -/
def seedCrypto (hash : Hash) : Crypto where
  cnFastHash _ := hash
  checkKey _ := true
  checkSignature _ _ _ := true
  checkRingSignature _ _ _ _ := true
  generateKeyDerivation _ _ := some 0
  derivationToScalar _ _ := 0
  derivePublicKey _ _ spendKey := some spendKey
  decodeRct _ _ _ := none
  decodeRctSimple _ _ _ := none

/-- A node takes part in a round of the first `count` nodes. -/
def participationOf (count : ℕ) (pub : PublicKey) : Participation where
  height := 100
  prevId := 0
  round := 0
  pub
  sign := fun _ => 0
  activePubs := (List.range count).map (BitVec.ofNat 256)
  relay := false
  payloadHash := 1

theorem participationOf_distinct {count : ℕ} (h : count ≤ 2 ^ 256) (pub : PublicKey) :
    (participationOf count pub).activePubs.Nodup := by
  refine List.Nodup.map_on (fun i hi j hj heq => ?_) nodup_range
  grind [BitVec.toNat_ofNat]

end Sample

theorem three_nodes_membership :
    ∃ extra, tryLocalRound (seedCrypto 0) (participationOf 3 2) = some extra ∧
      verifyRound (seedCrypto 0) extra 100 0 3
        (quorumPubkeys (seedCrypto 0) 100 (participationOf 3 2).activePubs 0) 1 = true := by
  obtain ⟨-, -, -, -, -, haccepted, hfits⟩ := pulse_membership (seedCrypto 0)
    (participationOf 3 2) (participationOf_distinct (by decide) 2) (by decide) (by decide)
  obtain ⟨extra, hextra, hiff⟩ := haccepted (by decide) fun _ => rfl
  exact ⟨extra, hextra, hiff.mpr (hfits (by decide))⟩

/-- With one node more than 32 bits can count, the last node leads the round, and its own
vote names node 0 as the leader. -/
theorem leader_beyond_32_bits :
    let p := participationOf (2 ^ 32 + 1) (BitVec.ofNat 256 (2 ^ 32))
    let crypto := seedCrypto (BitVec.ofNat 256 (2 ^ 216))
    p.activePubs.Nodup ∧ p.pub ∈ quorumPubkeys crypto p.height p.activePubs p.round ∧
      ∃ extra, tryLocalRound crypto p = some extra ∧
        verifyRound crypto extra p.height p.prevId p.activePubs.length
          (quorumPubkeys crypto p.height p.activePubs p.round) 1 = false := by
  intro p crypto
  have hlength : p.activePubs.length = 2 ^ 32 + 1 := by
    simp [p, participationOf]
  have hlead : leaderIndex crypto p.height (2 ^ 32 + 1) p.round = 2 ^ 32 := by decide
  have hmember : p.pub ∈ quorumPubkeys crypto p.height p.activePubs p.round := by
    refine mem_filterMap.mpr ⟨2 ^ 32, ?_, ?_⟩
    · rw [hlength, quorumIndices, if_neg (by decide)]
      refine mem_map.mpr ⟨0, by decide, ?_⟩
      rw [hlead, Nat.add_zero, Nat.mod_eq_of_lt (Nat.lt_succ_self _)]
    · have hlast : (List.range (2 ^ 32 + 1))[2 ^ 32]? = some (2 ^ 32) :=
        getElem?_range (Nat.lt_succ_self _)
      simp only [p, participationOf, getElem?_map, hlast, Option.map_some]
  obtain ⟨extra, hextra, hiff⟩ := verifyRound_tryLocalRound (by decide) hmember fun _ => rfl
  refine ⟨participationOf_distinct (by decide) _, hmember, extra, hextra, ?_⟩
  rw [Bool.eq_false_iff, Ne, hiff, hlength, hlead]
  exact lt_irrefl _

end Arqma.Pulse
