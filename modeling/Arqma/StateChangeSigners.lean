import Arqma.Staking
import Arqma.StorageServer

/-!
# The signers of a state change

The check of a state change on its machine types: heights wrap around at 64 bits, and
the voters are counted in an array with one place for each validator of a full quorum.
What it accepts was signed by enough validators, and the bytes they sign determine the
change.
-/
namespace Arqma.ServiceNodes
open Arqma.Cryptonote List Storage

variable {seen seen' : ℤ × List ℕ} {state state' : NewState}

/-- A check that may also fault. -/
abbrev Verification := ExceptT TxVerificationContext Checked

namespace Verification

variable {α β : Type}

/-- The check passes, without a fault, and returns `a`. -/
def Accepts (x : Verification α) (a : α) : Prop := x.run = .ok (.ok a)

theorem accepts_pure {a b : α} : Accepts (pure a) b ↔ a = b :=
  ⟨fun h => Except.ok.inj (Except.ok.inj h), fun h => h ▸ rfl⟩

theorem accepts_unless {p : Prop} [Decidable p] {context : TxVerificationContext}
    {x : Verification α} {a : α} :
    Accepts (if p then throw context else x) a ↔ ¬ p ∧ Accepts x a := by
  split_ifs with hp
  · exact ⟨fun h => (nomatch Except.ok.inj h), fun h => absurd hp h.1⟩
  · exact ⟨fun h => ⟨hp, h⟩, fun h => h.2⟩

theorem accepts_lift {x : Checked α} {a : α} : Accepts (liftM x) a ↔ x = .ok a := by
  cases x with
  | error e => exact ⟨nofun, nofun⟩
  | ok b =>
    exact ⟨fun h => congrArg _ (Except.ok.inj (Except.ok.inj h)), fun h => Except.ok.inj h ▸ rfl⟩

theorem accepts_bind {x : Verification α} {f : α → Verification β} {b : β} :
    Accepts (x >>= f) b ↔ ∃ a, Accepts x a ∧ Accepts (f a) b :=
  Checked.run_bind_eq_ok

end Verification

section Verify

variable (crypto : Crypto) (quorum : Quorum) (hardForkVersion : ℕ)

/-- One round over the votes, with the last index seen and the array of voters. -/
def checkVote (hash : Hash) (seen : ℤ × List ℕ) (vote : StateChangeVote) :
    Verification (ℤ × List ℕ) :=
  let validatorIndex := (vote.validatorIndex : ℤ).bmod (2 ^ 32)
  if 17 ≤ hardForkVersion ∧ validatorIndex ≤ seen.1 then
    throw { votesNotSorted := true }
  else if quorum.validators.length ≤ vote.validatorIndex then
    throw { validatorIndexOutOfBounds := true }
  else do
    let count ← liftM (Checked.entry seen.2 vote.validatorIndex)
    if 1 < count + 1 then throw { duplicateVoters := true }
    else do
      let key ← liftM (Checked.entry quorum.validators vote.validatorIndex)
      if !crypto.checkSignature hash key vote.signature then throw { signatureNotValid := true }
      else
        return (if 17 ≤ hardForkVersion then validatorIndex else seen.1,
          seen.2.set vote.validatorIndex (count + 1))

def checkedVerifyTxStateChange (stateChange : ServiceNodeStateChange) (latestHeight : ℕ) :
    Verification Unit :=
  if stateChange.votes.length < stateChangeMinVotesToChangeState then
    throw { notEnoughVotes := true }
  else if stateChangeQuorumSize < stateChange.votes.length then
    throw {}
  else if quorum.workers.length ≤ stateChange.serviceNodeIndex then
    throw { workerIndexOutOfBounds := true }
  else if latestHeight ≤ stateChange.blockHeight then
    throw {
      invalidBlockHeight := true
      verificationFailed :=
        (latestHeight + voteOrTxVerifyHeightBuffer) % 2 ^ 64 ≤ stateChange.blockHeight }
  else if (stateChange.blockHeight + stateChangeTxLifetimeInBlocks) % 2 ^ 64 ≤ latestHeight then
    throw {
      invalidBlockHeight := true
      verificationFailed := (stateChange.blockHeight +
        (stateChangeTxLifetimeInBlocks + voteOrTxVerifyHeightBuffer)) % 2 ^ 64 ≤ latestHeight }
  else do
    let hash := makeStateChangeVoteHash crypto stateChange.blockHeight
      stateChange.serviceNodeIndex stateChange.state
    let _ ← stateChange.votes.foldlM (checkVote crypto quorum hardForkVersion hash)
      (-1, List.replicate stateChangeQuorumSize 0)

end Verify

section Votes

variable {crypto : Crypto} {quorum : Quorum} {hardForkVersion : ℕ} {hash : Hash}

/-- A vote whose validator signed a hash. -/
def SignedBy (crypto : Crypto) (quorum : Quorum) (hash : Hash) (vote : StateChangeVote) : Prop :=
  ∃ key, quorum.validators[vote.validatorIndex]? = some key ∧
    crypto.checkSignature hash key vote.signature = true

/-- A vote that passes is signed by a validator that had not voted. -/
theorem checkVote_accepts {vote : StateChangeVote}
    (h : (checkVote crypto quorum hardForkVersion hash seen vote).Accepts seen') :
    seen.2[vote.validatorIndex]? = some 0 ∧ seen'.2 = seen.2.set vote.validatorIndex 1 ∧
      SignedBy crypto quorum hash vote := by
  unfold checkVote at h
  obtain ⟨-, h⟩ := Verification.accepts_unless.mp h
  obtain ⟨-, h⟩ := Verification.accepts_unless.mp h
  obtain ⟨count, hcount, h⟩ := Verification.accepts_bind.mp h
  obtain ⟨hvoted, h⟩ := Verification.accepts_unless.mp h
  obtain ⟨key, hkey, h⟩ := Verification.accepts_bind.mp h
  obtain ⟨hsigned, h⟩ := Verification.accepts_unless.mp h
  have hfirst : count = 0 := by omega
  subst hfirst
  rw [← Verification.accepts_pure.mp h]
  refine ⟨Checked.entry_eq_ok_iff.mp (Verification.accepts_lift.mp hcount), rfl, key,
    Checked.entry_eq_ok_iff.mp (Verification.accepts_lift.mp hkey), by simpa using hsigned⟩

/-- Votes that pass are signed by different validators. -/
theorem checkVotes_accepts {votes : List StateChangeVote}
    (h : (votes.foldlM (checkVote crypto quorum hardForkVersion hash) seen).Accepts seen') :
    (votes.map StateChangeVote.validatorIndex).Nodup ∧
      ∀ vote ∈ votes, seen.2[vote.validatorIndex]? = some 0 ∧ SignedBy crypto quorum hash vote := by
  induction votes generalizing seen with
  | nil => exact ⟨nodup_nil, fun _ h => absurd h not_mem_nil⟩
  | cons vote votes ih =>
    rw [foldlM_cons] at h
    obtain ⟨next, hnext, h⟩ := Verification.accepts_bind.mp h
    obtain ⟨hunmarked, hset, hsigned⟩ := checkVote_accepts hnext
    obtain ⟨hnodup, hrest⟩ := ih h
    rw [hset] at hrest
    -- The place of the first vote is marked, so the others have different indices.
    have hother : ∀ other ∈ votes, vote.validatorIndex ≠ other.validatorIndex := by
      intro other hmem heq
      have hzero := (hrest other hmem).1
      rw [← heq, List.getElem?_set_self (List.getElem?_eq_some_iff.mp hunmarked).1] at hzero
      exact absurd (Option.some.inj hzero) (by decide)
    refine ⟨List.nodup_cons.mpr ⟨fun hmem => ?_, hnodup⟩, fun other hmem => ?_⟩
    · obtain ⟨other, hmem, heq⟩ := mem_map.mp hmem
      exact hother other hmem heq.symm
    · rcases mem_cons.mp hmem with rfl | hmem
      · exact ⟨hunmarked, hsigned⟩
      · obtain ⟨hzero, hsigned⟩ := hrest other hmem
        rw [getElem?_set_ne (hother other hmem)] at hzero
        exact ⟨hzero, hsigned⟩

theorem lift_entry {α : Type} {l : List α} {i : ℕ} {a : α} (h : l[i]? = some a) :
    (liftM (Checked.entry l i) : Verification α) = pure a := by
  rw [Checked.entry_eq_ok h]
  rfl

/-- On a quorum for which the array is large enough, the loop does what `verifyVotes`
does with the set of voters. -/
theorem checkVotes_eq (hsize : quorum.validators.length ≤ stateChangeQuorumSize)
    (votes : List StateChangeVote) (tracker : ℤ) {validatorSet voters : List ℕ}
    (hset : ∀ i < stateChangeQuorumSize, validatorSet[i]? = some (if i ∈ voters then 1 else 0)) :
    (votes.foldlM (checkVote crypto quorum hardForkVersion hash) (tracker, validatorSet) >>=
      fun _ => pure () : Verification Unit).run =
      .ok (verifyVotes crypto quorum hardForkVersion hash votes tracker voters) := by
  induction votes generalizing tracker validatorSet voters with
  | nil => rfl
  | cons vote votes ih =>
    rw [foldlM_cons, bind_assoc, checkVote, verifyVotes]
    dsimp only
    by_cases hsorted : 17 ≤ hardForkVersion ∧ (vote.validatorIndex : ℤ).bmod (2 ^ 32) ≤ tracker
    · rw [if_pos hsorted, if_pos hsorted]
      rfl
    rw [if_neg hsorted, if_neg hsorted]
    by_cases hbounds : quorum.validators.length ≤ vote.validatorIndex
    · rw [if_pos hbounds, if_pos hbounds]
      rfl
    rw [if_neg hbounds, if_neg hbounds]
    have hlt := not_le.mp hbounds
    have hsmall : (vote.validatorIndex : ℤ).bmod (2 ^ 32) = vote.validatorIndex := by
      rw [stateChangeQuorumSize] at hsize
      exact Int.bmod_eq_of_le (by omega) (by omega)
    rw [lift_entry (hset _ (hlt.trans_le hsize)), pure_bind]
    by_cases hvoted : vote.validatorIndex ∈ voters
    · rw [if_pos hvoted, if_pos hvoted, if_pos (by decide)]
      rfl
    rw [if_neg hvoted, if_neg hvoted, if_neg (by decide), lift_entry (getElem?_eq_getElem hlt),
      pure_bind, getD_eq_getElem?_getD, getElem?_eq_getElem hlt, Option.getD_some,
      hsmall]
    by_cases hsigned : (!crypto.checkSignature hash quorum.validators[vote.validatorIndex]
        vote.signature) = true
    · rw [if_pos hsigned, if_pos hsigned]
      rfl
    grind

/-- Where no height wraps around and the quorum has at most ten validators, the check
does not fault and is `verifyTxStateChange`. -/
theorem checkedVerifyTxStateChange_eq (hsize : quorum.validators.length ≤ stateChangeQuorumSize)
    {stateChange : ServiceNodeStateChange} {latestHeight : ℕ}
    (hheight : stateChange.blockHeight +
      (stateChangeTxLifetimeInBlocks + voteOrTxVerifyHeightBuffer) < 2 ^ 64)
    (hlatest : latestHeight + voteOrTxVerifyHeightBuffer < 2 ^ 64) :
    (checkedVerifyTxStateChange crypto quorum hardForkVersion stateChange latestHeight).run =
      .ok (verifyTxStateChange crypto quorum hardForkVersion stateChange latestHeight) := by
  have hvotes := @checkVotes_eq crypto quorum hardForkVersion (makeStateChangeVoteHash crypto
    stateChange.blockHeight stateChange.serviceNodeIndex stateChange.state) hsize stateChange.votes
    (-1) (List.replicate stateChangeQuorumSize 0) [] fun i hi => by
      rw [getElem?_replicate_of_lt hi]
      simp
  unfold checkedVerifyTxStateChange verifyTxStateChange
  rw [Nat.mod_eq_of_lt hlatest, Nat.mod_eq_of_lt hheight,
    Nat.mod_eq_of_lt (lt_of_le_of_lt (by omega) hheight)]
  split_ifs
  case neg => exact hvotes
  all_goals rfl

theorem checkedVerifyTxStateChange_accepts {stateChange : ServiceNodeStateChange} {latestHeight : ℕ}
    (h : (checkedVerifyTxStateChange crypto quorum hardForkVersion stateChange
      latestHeight).Accepts ()) :
    stateChangeMinVotesToChangeState ≤ stateChange.votes.length ∧
      stateChange.serviceNodeIndex < quorum.workers.length ∧
      stateChange.blockHeight < latestHeight ∧
      latestHeight < (stateChange.blockHeight + stateChangeTxLifetimeInBlocks) % 2 ^ 64 ∧
      (stateChange.votes.map StateChangeVote.validatorIndex).Nodup ∧
      ∀ vote ∈ stateChange.votes, SignedBy crypto quorum (makeStateChangeVoteHash crypto
        stateChange.blockHeight stateChange.serviceNodeIndex stateChange.state) vote := by
  unfold checkedVerifyTxStateChange at h
  obtain ⟨hfew, h⟩ := Verification.accepts_unless.mp h
  obtain ⟨-, h⟩ := Verification.accepts_unless.mp h
  obtain ⟨hworker, h⟩ := Verification.accepts_unless.mp h
  obtain ⟨hnew, h⟩ := Verification.accepts_unless.mp h
  obtain ⟨hold, h⟩ := Verification.accepts_unless.mp h
  obtain ⟨seen, hvotes, -⟩ := Verification.accepts_bind.mp h
  obtain ⟨hnodup, hsigned⟩ := checkVotes_accepts hvotes
  exact ⟨not_lt.mp hfew, not_le.mp hworker, not_le.mp hnew, not_le.mp hold, hnodup,
    fun vote hvote => (hsigned vote hvote).2⟩

end Votes

section Preimage

/-- The bytes that the voters sign the hash of. -/
def stateChangeVoteBytes (blockHeight serviceNodeIndex : ℕ) (state : NewState) : List UInt8 :=
  leBytes 8 blockHeight ++ leBytes 4 serviceNodeIndex ++
    (if state = .deregister then [] else leBytes 2 state.toUInt16.toNat)

@[simp] theorem length_leBytes (count n : ℕ) : (leBytes count n).length = count := by
  simp [leBytes]

theorem length_stateChangeVoteBytes_le (blockHeight serviceNodeIndex : ℕ) (state : NewState) :
    (stateChangeVoteBytes blockHeight serviceNodeIndex state).length ≤ 14 := by
  unfold stateChangeVoteBytes
  split_ifs <;> simp

theorem leBytes_inj {count n m : ℕ} (hn : n < 256 ^ count) (hm : m < 256 ^ count)
    (h : leBytes count n = leBytes count m) : n = m := by
  have hread := congrArg readLe h
  rwa [readLe_leBytes, readLe_leBytes, Nat.mod_eq_of_lt hn, Nat.mod_eq_of_lt hm] at hread

/-- Only the bytes of a deregistration are without a state, and shorter for it. -/
theorem state_of_bytes
    (h : (if state = .deregister then [] else leBytes 2 state.toUInt16.toNat) =
      if state' = .deregister then [] else leBytes 2 state'.toUInt16.toNat) : state = state' := by
  revert h
  cases state <;> cases state' <;> decide

/-- The signed bytes determine the height, the worker and the state. -/
theorem stateChangeVoteBytes_inj {height height' index index' : ℕ}
    (hheight : height < 2 ^ 64) (hheight' : height' < 2 ^ 64) (hindex : index < 2 ^ 32)
    (hindex' : index' < 2 ^ 32)
    (h : stateChangeVoteBytes height index state = stateChangeVoteBytes height' index' state') :
    height = height' ∧ index = index' ∧ state = state' := by
  obtain ⟨hfront, hstate⟩ := append_inj h (by simp)
  obtain ⟨hheights, hindices⟩ := append_inj hfront (by simp)
  exact ⟨leBytes_inj hheight hheight' hheights, leBytes_inj hindex hindex' hindices,
    state_of_bytes hstate⟩

end Preimage

/-- A state change that is accepted has at least four votes of different validators of the
quorum, each with its validator's signature for this height, worker and state; it is about a
worker, and the block is in its lifetime. Different changes have different signed bytes, so where
the hash does not collide a signature for one is none for the other. -/
theorem accepted_state_change_signed (crypto : Crypto) (quorum : Quorum) (hardForkVersion : ℕ)
    (stateChange : ServiceNodeStateChange) (latestHeight : ℕ)
    (h : (checkedVerifyTxStateChange crypto quorum hardForkVersion stateChange
      latestHeight).Accepts ()) :
    (stateChangeMinVotesToChangeState ≤ stateChange.votes.length ∧
      (stateChange.votes.map StateChangeVote.validatorIndex).Nodup ∧
      ∀ vote ∈ stateChange.votes, ∃ key, quorum.validators[vote.validatorIndex]? = some key ∧
        crypto.checkSignature (makeStateChangeVoteHash crypto stateChange.blockHeight
          stateChange.serviceNodeIndex stateChange.state) key vote.signature = true) ∧
      stateChange.serviceNodeIndex < quorum.workers.length ∧
      stateChange.blockHeight < latestHeight ∧
      latestHeight < stateChange.blockHeight + stateChangeTxLifetimeInBlocks ∧
      ∀ height height' index index' state state', height < 2 ^ 64 → height' < 2 ^ 64 →
        index < 2 ^ 32 → index' < 2 ^ 32 → (height, index, state) ≠ (height', index', state') →
        stateChangeVoteBytes height index state ≠ stateChangeVoteBytes height' index' state' ∧
        (Set.InjOn crypto.cnFastHash {bytes | bytes.length ≤ 14} →
          makeStateChangeVoteHash crypto height index state ≠
            makeStateChangeVoteHash crypto height' index' state') := by
  obtain ⟨hfew, hworker, hnew, hwindow, hnodup, hsigned⟩ := checkedVerifyTxStateChange_accepts h
  refine ⟨⟨hfew, hnodup, hsigned⟩, hworker, hnew, hwindow.trans_le (Nat.mod_le _ _), ?_⟩
  intro height height' index index' state state' hheight hheight' hindex hindex' hne
  have hbytes : stateChangeVoteBytes height index state ≠
      stateChangeVoteBytes height' index' state' := by
    intro heq
    obtain ⟨rfl, rfl, rfl⟩ := stateChangeVoteBytes_inj hheight hheight' hindex hindex' heq
    exact hne rfl
  exact ⟨hbytes, fun hinj heq => hbytes (hinj (length_stateChangeVoteBytes_le _ _ _)
    (length_stateChangeVoteBytes_le _ _ _) heq)⟩

section Sample

theorem readLe_lt (bytes : List UInt8) : readLe bytes < 256 ^ bytes.length := by
  induction bytes with
  | nil => exact Nat.one_pos
  | cons b bytes ih =>
    have hb := b.toNat_lt
    rw [readLe, length_cons, pow_succ]
    omega

theorem readLe_inj {a b : List UInt8} (hlength : a.length = b.length)
    (h : readLe a = readLe b) : a = b := by
  induction a generalizing b with
  | nil => exact (length_eq_zero_iff.mp hlength.symm).symm
  | cons x a ih =>
    cases b with
    | nil => cases hlength
    | cons y b =>
      rw [readLe, readLe] at h
      have hx := x.toNat_lt
      have hy := y.toNat_lt
      have hhead : x = y := UInt8.toNat_inj.mp (by omega)
      rw [hhead, ih (Nat.succ.inj hlength) (by omega)]

/-- `sampleCrypto` with a hash that numbers the short byte strings, and signatures that consist of
the key and the hash. -/
def numberingCrypto : Crypto :=
  { sampleCrypto with
    cnFastHash := fun bytes => BitVec.ofNat 256 (Storage.readLe bytes * 16 + bytes.length)
    checkSignature := fun hash key signature => signature = key ++ hash }

/-- The first four of ten validators vote to deregister the worker. -/
def fourVotes : List StateChangeVote :=
  (List.range 4).map fun i =>
    ⟨BitVec.ofNat 256 (i + 1) ++ makeStateChangeVoteHash numberingCrypto 100 0 .deregister, i⟩

theorem numberingCrypto_injOn :
    Set.InjOn numberingCrypto.cnFastHash {bytes | bytes.length ≤ 14} := by
  have hbound : ∀ bytes : List UInt8, bytes.length ≤ 14 →
      readLe bytes * 16 + bytes.length < 2 ^ 256 := by
    intro bytes hlength
    have hlt := (readLe_lt bytes).trans_le (Nat.pow_le_pow_right (by decide) hlength)
    omega
  intro a ha b hb h
  have hnumbers := congrArg BitVec.toNat h
  rw [numberingCrypto, BitVec.toNat_ofNat, BitVec.toNat_ofNat, Nat.mod_eq_of_lt (hbound a ha),
    Nat.mod_eq_of_lt (hbound b hb)] at hnumbers
  have ha' : a.length ≤ 14 := ha
  have hb' : b.length ≤ 14 := hb
  exact readLe_inj (by omega) (by omega)

end Sample

theorem four_votes_signed :
    (∀ vote ∈ fourVotes, ∃ key,
      ((List.range' 1 10).map (BitVec.ofNat 256))[vote.validatorIndex]? = some key ∧
        vote.signature = key ++ makeStateChangeVoteHash numberingCrypto 100 0 .deregister) ∧
      makeStateChangeVoteHash numberingCrypto 100 0 .deregister ≠
        makeStateChangeVoteHash numberingCrypto 100 0 .decommission := by
  obtain ⟨⟨-, -, hsigned⟩, -, -, -, hother⟩ := accepted_state_change_signed numberingCrypto
    ⟨(List.range' 1 10).map (BitVec.ofNat 256), [11]⟩ 17 ⟨.deregister, 100, 0, fourVotes⟩ 101
    rfl
  refine ⟨fun vote hvote => ?_, ?_⟩
  · obtain ⟨key, hkey, hcheck⟩ := hsigned vote hvote
    exact ⟨key, hkey, of_decide_eq_true hcheck⟩
  · exact (hother 100 100 0 0 .deregister .decommission (by decide) (by decide) (by decide)
      (by decide) (by decide)).2 numberingCrypto_injOn

end Arqma.ServiceNodes
