import Arqma.Checkpoints
import Arqma.UptimeProofs

/-!
# Alternative states

The list keeps a state for every alternative block it has seen. A state change that
the main chain's quorum does not vouch for is tried on the quorums of these states,
and an alternative block with a checkpoint is accepted when a quorum has signed it.
The order of the alternative states stands for the iteration order of the unordered map.
-/
namespace Arqma.ServiceNodes
open Arqma.Cryptonote List

variable {state : State}

section Search

variable {α β : Type}

theorem foldl_last (p : α → Bool) (f : α → Option β) (l : List α) :
    l.foldl (fun acc a => if p a then f a else acc) none = (l.filter p).getLast?.bind f := by
  induction l using List.reverseRecOn with
  | nil => rfl
  | append_singleton l a ih =>
    rw [foldl_append, foldl_cons, foldl_nil, ih, filter_append]
    by_cases hp : p a = true
    · rw [if_pos hp, filter_singleton, hp, cond_true, getLast?_append_of_ne_nil _ (by simp)]
      rfl
    · rw [if_neg hp, filter_singleton, Bool.eq_false_iff.mpr hp, cond_false, append_nil]

end Search

section StateChange

variable (env : Env) (history : StateSet) (altStates : AltStates) (block : Block)
  (stateChange : ServiceNodeStateChange)

/-- The alternative states at the height of a state change. -/
def statesAt : AltStates := altStates.filter fun alt => alt.2.height = stateChange.blockHeight

/-- An alternative state at the height of a state change whose obligations quorum has
signed it. -/
def vouchesFor (alt : Hash × State) : Bool :=
  alt.2.height = stateChange.blockHeight &&
    verifiesStateChange env block stateChange alt.2.quorums

/-- What is done with the quorums that vouch for a state change. -/
def applyVouched (s : State) (quorums : QuorumManager) : Option State := do
  let quorum ← quorums.obligations
  let key ← quorum.workers[stateChange.serviceNodeIndex]?
  let info ← s.serviceNodesInfos.lookup key
  applyStateChange env s block key info stateChange.state

variable {env history altStates block stateChange}

theorem mem_statesAt {alt : Hash × State} : alt ∈ statesAt altStates stateChange ↔
      alt ∈ altStates ∧ alt.2.height = stateChange.blockHeight := by
  simp [statesAt]

/-- Without the quorum of the main chain the last alternative state at the height decides. -/
theorem stateChangeQuorums_eq_last (hstate : history.find? stateChange.blockHeight = some state)
    (hmain : verifiesStateChange env block stateChange state.quorums = false) :
    stateChangeQuorums env history altStates block stateChange =
      (statesAt altStates stateChange).getLast?.bind fun alt =>
        if verifiesStateChange env block stateChange alt.2.quorums then some alt.2.quorums
        else none := by
  rw [stateChangeQuorums, hstate]
  simp only [hmain, Bool.false_eq_true, if_false]
  rw [statesAt, ← foldl_last]
  congr 1
  funext quorums alt
  by_cases hheight : alt.2.height = stateChange.blockHeight
  · simp [hheight]
  · simp [hheight]

/-- The search succeeds exactly when the last alternative state at the height vouches. -/
theorem stateChangeQuorums_isSome (hstate : history.find? stateChange.blockHeight = some state)
    (hmain : verifiesStateChange env block stateChange state.quorums = false) :
    (stateChangeQuorums env history altStates block stateChange).isSome ↔
      ∃ alt, (statesAt altStates stateChange).getLast? = some alt ∧
        vouchesFor env block stateChange alt = true := by
  grind [statesAt, stateChangeQuorums_eq_last, vouchesFor]

theorem exists_of_stateChangeQuorums {quorums : QuorumManager}
    (hstate : history.find? stateChange.blockHeight = some state)
    (hmain : verifiesStateChange env block stateChange state.quorums = false)
    (h : stateChangeQuorums env history altStates block stateChange = some quorums) :
    ∃ alt ∈ altStates, vouchesFor env block stateChange alt = true ∧ alt.2.quorums = quorums := by
  grind [stateChangeQuorums_eq_last, vouchesFor, mem_statesAt.mp]

theorem exists_orders {good : Hash × State}
    (hgood : altStates.filter (vouchesFor env block stateChange) = [good])
    (hmany : (statesAt altStates stateChange).length ≠ 1) :
    ∃ l l', l.Perm altStates ∧ l'.Perm altStates ∧ (statesAt l stateChange).getLast? = some good ∧
      ∃ bad, (statesAt l' stateChange).getLast? = some bad ∧
        vouchesFor env block stateChange bad = false := by
  let others := altStates.filter fun alt => !vouchesFor env block stateChange alt
  have hperm : (good :: others).Perm altStates := by
    have hsplit := filter_append_perm (vouchesFor env block stateChange) altStates
    rwa [hgood] at hsplit
  have hheight : good.2.height = stateChange.blockHeight := by
    have hmem : good ∈ altStates.filter (vouchesFor env block stateChange) := by simp [hgood]
    have hvouches := (mem_filter.mp hmem).2
    simp only [vouchesFor, Bool.and_eq_true, decide_eq_true_eq] at hvouches
    exact hvouches.1
  have hcons : statesAt (good :: others) stateChange = good :: statesAt others stateChange := by
    simp [statesAt, hheight]
  have hothers : statesAt others stateChange ≠ [] := by
    intro hempty
    have hlength : (statesAt (good :: others) stateChange).length =
        (statesAt altStates stateChange).length := (hperm.filter _).length_eq
    rw [hcons, hempty] at hlength
    exact hmany hlength.symm
  have hlast := getLast?_eq_some_getLast hothers
  have hbad := (mem_statesAt.mp (getLast_mem hothers)).1
  refine ⟨others ++ [good], good :: others,
    (perm_append_singleton good others).trans hperm, hperm, ?_,
    (statesAt others stateChange).getLast hothers, ?_, ?_⟩
  · simp [statesAt, filter_append, hheight]
  · rw [hcons, getLast?_cons_of_ne_nil hothers, hlast]
  · simpa using (mem_filter.mp hbad).2

theorem stateChangeQuorums_perm_iff (hstate : history.find? stateChange.blockHeight = some state)
    (hmain : verifiesStateChange env block stateChange state.quorums = false)
    (hone : (altStates.filter (vouchesFor env block stateChange)).length = 1) :
    (∀ l : AltStates, l.Perm altStates → stateChangeQuorums env history l block stateChange =
        stateChangeQuorums env history altStates block stateChange) ↔
      (statesAt altStates stateChange).length = 1 := by
  obtain ⟨good, hgood⟩ := length_eq_one_iff.mp hone
  constructor
  · intro hsame
    by_contra hmany
    obtain ⟨l, l', hl, hl', hlast, bad, hlast', hbad⟩ := exists_orders hgood hmany
    have hmem : good ∈ altStates.filter (vouchesFor env block stateChange) := by simp [hgood]
    have hsome : (stateChangeQuorums env history l block stateChange).isSome :=
      (stateChangeQuorums_isSome hstate hmain).mpr ⟨good, hlast, (mem_filter.mp hmem).2⟩
    rw [hsame l hl, ← hsame l' hl', stateChangeQuorums_isSome hstate hmain] at hsome
    obtain ⟨alt, halt, hvouches⟩ := hsome
    rw [hlast'] at halt
    rw [← Option.some.inj halt, hbad] at hvouches
    cases hvouches
  · intro hsingle l hl
    have hperm : (statesAt l stateChange).Perm (statesAt altStates stateChange) := hl.filter _
    obtain ⟨only, honly⟩ := length_eq_one_iff.mp hsingle
    grind [stateChangeQuorums_eq_last, perm_singleton.mp]

/-- A state change that the quorum of the main chain does not vouch for is applied with
the quorums of an alternative state that vouches for it, if at all. It is applied exactly
when the last alternative state at its height vouches, so that the search is complete
unless that one fails while another one vouches. When one alternative state vouches, the
order of the states does not matter exactly when no other one is at that height. -/
theorem alternative_quorums_searched (env : Env) (history : StateSet) (altStates : AltStates)
    (s : State) (block : Block) (tx : Transaction) (stateChange : ServiceNodeStateChange)
    (state : State) (hextra : getServiceNodeStateChangeFromTxExtra tx.extra = some stateChange)
    (hstate : history.find? stateChange.blockHeight = some state)
    (hmain : verifiesStateChange env block stateChange state.quorums = false) :
    processStateChangeTx env history altStates s block tx =
        (stateChangeQuorums env history altStates block stateChange).bind
          (applyVouched env block stateChange s) ∧
      (∀ quorums, stateChangeQuorums env history altStates block stateChange = some quorums →
        ∃ alt ∈ altStates, vouchesFor env block stateChange alt = true ∧
          alt.2.quorums = quorums) ∧
      (((stateChangeQuorums env history altStates block stateChange).isSome ↔
          ∃ alt ∈ altStates, vouchesFor env block stateChange alt = true) ↔
        ((∃ alt ∈ altStates, vouchesFor env block stateChange alt = true) →
          ∃ alt, (statesAt altStates stateChange).getLast? = some alt ∧
            vouchesFor env block stateChange alt = true)) ∧
      ((altStates.filter (vouchesFor env block stateChange)).length = 1 →
        ((∀ l : AltStates, l.Perm altStates →
          stateChangeQuorums env history l block stateChange =
            stateChangeQuorums env history altStates block stateChange) ↔
          (statesAt altStates stateChange).length = 1)) := by
  refine ⟨?_, fun quorums => exists_of_stateChangeQuorums hstate hmain, ?_,
    stateChangeQuorums_perm_iff hstate hmain⟩
  · simp only [processStateChangeTx, hextra, Option.bind_eq_bind, Option.bind_some]
    rfl
  · grind [stateChangeQuorums_isSome, mem_statesAt.mp]

end StateChange

section Sample

/-- A state at a height with a quorum of ten validators that tests some nodes. -/
def testingState (height : ℕ) (workers : List PublicKey) : State where
  height
  quorums :=
    { obligations := some { validators := (List.range 10).map (BitVec.ofNat 256), workers } }

def tenthNode : State where
  serviceNodesInfos := AList.singleton 10 {}

def quorumlessHistory : StateSet := OrderedTable.empty.insert (testingState 100 [])

/-- One of two alternative states vouches for a deregistration, and the other one does
not. Whether node 10 is removed depends on their order. -/
theorem later_alternative_hides_quorum :
    (processStateChangeTx sampleEnv quorumlessHistory
        [(1, testingState 100 [10]), (2, testingState 100 [])] tenthNode (sampleBlock 17 101)
        (deregistrationTx 100)).isSome = false ∧
      (processStateChangeTx sampleEnv quorumlessHistory
        [(2, testingState 100 []), (1, testingState 100 [10])] tenthNode (sampleBlock 17 101)
        (deregistrationTx 100)).isSome = true := by
  decide

/-- The state that vouches alone decides. -/
theorem single_alternative_searched :
    getServiceNodeStateChangeFromTxExtra (deregistrationTx 100).extra =
        some ⟨.deregister, 100, 0, (List.range 4).map fun i => ⟨0, i⟩⟩ ∧
      (processStateChangeTx sampleEnv quorumlessHistory [(1, testingState 100 [10])] tenthNode
        (sampleBlock 17 101) (deregistrationTx 100)).isSome = true := by
  have hsearched := alternative_quorums_searched sampleEnv quorumlessHistory
    [(1, testingState 100 [10])] tenthNode (sampleBlock 17 101) (deregistrationTx 100)
    ⟨.deregister, 100, 0, (List.range 4).map fun i => ⟨0, i⟩⟩ (testingState 100 []) rfl rfl
    (by decide)
  refine ⟨rfl, ?_⟩
  rw [hsearched.1]
  decide

end Sample

def offsetTestingQuorumHeight (type : QuorumType) (height : ℕ) : ℕ :=
  match type with
  | .obligations => height
  | .checkpointing =>
    if height < reorgSafetyBufferInBlocks then 0 else height - reorgSafetyBufferInBlocks

namespace ServiceNodeList

/-- The quorums of a height: of the current state, the history, the archive or, if asked
for, the old quorums, which are in order of their heights. -/
def quorumsAt (l : ServiceNodeList) (height : ℕ) (includeOld : Bool) : Option QuorumManager :=
  if height = l.state.height then some l.state.quorums
  else
    (((l.stateHistory.find? height).or (l.stateArchive.find? height)).map State.quorums).or
      (if includeOld then
        ((l.oldQuorumStates.find? fun entry => height ≤ entry.height).filter fun entry =>
          entry.height = height).map QuorumsByHeight.quorums
      else none)

/-- `get_quorum`, with the quorums of the alternative states at the same height. -/
def getQuorum (l : ServiceNodeList) (type : QuorumType) (height : ℕ) (includeOld : Bool) :
    Option Quorum × List Quorum :=
  let height := offsetTestingQuorumHeight type height
  match l.quorumsAt height includeOld with
  | none => (none, [])
  | some quorums =>
    (quorums.get type, l.altState.filterMap fun entry =>
      if entry.2.height = height then entry.2.quorums.get type else none)

section AltBlock

variable (env : Env) (l : ServiceNodeList) (b : ChainBlock) (checkpoint : Option Chain.Checkpoint)

/-- A quorum, or one of the alternative ones, has signed the checkpoint. -/
def checkpointVerified (majorVersion : ℕ) (checkpoint : Chain.Checkpoint) : Bool :=
  let found := l.getQuorum .checkpointing checkpoint.height false
  match found.1 with
  | none => false
  | some quorum =>
    Chain.verifyCheckpoint env.crypto majorVersion checkpoint quorum ||
      found.2.any (Chain.verifyCheckpoint env.crypto majorVersion checkpoint)

/-- `alt_block_added`: the state of the block is stored before its checkpoint is looked at. -/
def altBlockAdded : ServiceNodeList × Bool :=
  if b.block.majorVersion < 16 then (l, true)
  else if l.altState.any fun entry => entry.1 = b.block.hash then (l, true)
  else
    match UptimeList.altStartingState l b.block with
    | none => (l, false)
    | some start =>
      let added :=
        { l with
          altState := l.altState ++
            [(b.block.hash, updateFromBlock env l.stateHistory l.altState start b.block b.txs)] }
      match checkpoint with
      | none => (added, true)
      | some checkpoint => (added, added.checkpointVerified env b.block.majorVersion checkpoint)

variable {env l b checkpoint}

/-- The ways in which an alternative block is rejected. -/
theorem altBlockAdded_rejected (h : (l.altBlockAdded env b checkpoint).2 = false) :
    16 ≤ b.block.majorVersion ∧ (∀ entry ∈ l.altState, entry.1 ≠ b.block.hash) ∧
      (UptimeList.altStartingState l b.block = none ∧ (l.altBlockAdded env b checkpoint).1 = l ∨
        ∃ start c, UptimeList.altStartingState l b.block = some start ∧ checkpoint = some c ∧
          (l.altBlockAdded env b checkpoint).1 = { l with
            altState := l.altState ++
              [(b.block.hash, updateFromBlock env l.stateHistory l.altState start b.block
                b.txs)] } ∧
          (l.altBlockAdded env b checkpoint).1.checkpointVerified env b.block.majorVersion c =
            false) := by
  unfold altBlockAdded at h ⊢
  by_cases hold : b.block.majorVersion < 16
  · simp [hold] at h
  · by_cases hknown : (l.altState.any fun entry => entry.1 = b.block.hash) = true
    · simp [hold, hknown] at h
    · rw [if_neg hold, if_neg hknown] at h ⊢
      have hfree : ∀ entry ∈ l.altState, entry.1 ≠ b.block.hash := fun entry hentry hhash =>
        hknown (any_eq_true.mpr ⟨entry, hentry, decide_eq_true hhash⟩)
      refine ⟨not_lt.mp hold, hfree, ?_⟩
      cases hstart : UptimeList.altStartingState l b.block with
      | none => exact Or.inl ⟨rfl, rfl⟩
      | some start =>
        rw [hstart] at h
        cases checkpoint with
        | none => cases h
        | some c => exact Or.inr ⟨start, c, rfl, rfl, rfl, h⟩

/-- A block whose state is stored is accepted without another look. -/
theorem altBlockAdded_known (h : ∃ entry ∈ l.altState, entry.1 = b.block.hash) :
    l.altBlockAdded env b checkpoint = (l, true) := by
  unfold altBlockAdded
  grind

theorem altStartingState_stored {child : Block}
    (hfree : ∀ entry ∈ l.altState, entry.1 ≠ b.block.hash) (hhash : state.blockHash = b.block.hash)
    (hparent : child.prevId = b.block.hash)
    (hhistory : ∀ s ∈ l.stateHistory.rows, s.blockHash ≠ b.block.hash) :
    UptimeList.altStartingState { l with altState := l.altState ++ [(b.block.hash, state)] } child =
      some state := by
  have hnone : ((l.stateHistory.find? ((getBlockHeight child + (2 ^ 64 - 1)) % 2 ^ 64)).filter
      fun s => child.prevId = s.blockHash) = none := by
    refine Option.filter_eq_none_iff.mpr fun s hs => ?_
    have hmem := (OrderedTable.find?_eq_some.mp hs).1
    simpa [hparent, eq_comm] using hhistory s hmem
  have hfind : ((l.altState ++ [(b.block.hash, state)]).find? fun e => e.1 = child.prevId) =
      some (b.block.hash, state) := by
    rw [find?_append, find?_eq_none.mpr fun entry hentry => by
      simpa [hparent] using hfree entry hentry]
    simp [hparent]
  unfold UptimeList.altStartingState
  rw [hnone, hfind, Option.none_or, Option.map_some, Option.filter_some, if_pos]
  simpa [hparent] using hhash

end AltBlock

/-- An alternative block that is rejected stays rejected exactly when no state of its
parent was found. If its checkpoint was the reason, the next call accepts it and changes
nothing, and the state of the rejected block is what its children start from. -/
theorem rejected_alternative_block (env : Env) (l : ServiceNodeList) (b : ChainBlock)
    (checkpoint : Option Chain.Checkpoint)
    (h : (l.altBlockAdded env b checkpoint).2 = false) :
    (((l.altBlockAdded env b checkpoint).1.altBlockAdded env b checkpoint).2 = false ↔
        UptimeList.altStartingState l b.block = none) ∧
      (∀ c, checkpoint = some c → UptimeList.altStartingState l b.block ≠ none →
        (l.altBlockAdded env b checkpoint).1.checkpointVerified env b.block.majorVersion c =
            false ∧
          (l.altBlockAdded env b checkpoint).1.altBlockAdded env b checkpoint =
            ((l.altBlockAdded env b checkpoint).1, true) ∧
          ∃ state, (b.block.hash, state) ∈ (l.altBlockAdded env b checkpoint).1.altState ∧
            ∀ child : Block, child.prevId = b.block.hash →
              (∀ s ∈ l.stateHistory.rows, s.blockHash ≠ b.block.hash) →
              UptimeList.altStartingState (l.altBlockAdded env b checkpoint).1 child =
                some state) := by
  obtain ⟨-, hfree, ⟨hnone, hsame⟩ | ⟨start, c, hstart, rfl, hadded, hverified⟩⟩ :=
    altBlockAdded_rejected h
  · rw [hsame]
    exact ⟨⟨fun _ => hnone, fun _ => h⟩, fun _ _ hsome => absurd hnone hsome⟩
  · have hstored : (b.block.hash, updateFromBlock env l.stateHistory l.altState start b.block
        b.txs) ∈ (l.altBlockAdded env b (some c)).1.altState := by
      rw [hadded]
      exact mem_append_right _ (mem_singleton_self _)
    have hknown : (l.altBlockAdded env b (some c)).1.altBlockAdded env b (some c) =
        ((l.altBlockAdded env b (some c)).1, true) := altBlockAdded_known ⟨_, hstored, rfl⟩
    refine ⟨?_, fun c' hc' _ => ?_⟩
    · rw [hknown, hstart]
      simp
    · obtain rfl := Option.some.inj hc'
      refine ⟨hverified, hknown, _, hstored, fun child hparent hhistory => ?_⟩
      rw [hadded]
      exact altStartingState_stored hfree (updateFromBlock_header env start b.txs).2.1 hparent
        hhistory

end ServiceNodeList

/-- The list changes as it does without the proofs, whatever the checkpoint. -/
theorem UptimeList.altBlockAdded_list {env : UptimeEnv} {b : ChainBlock}
    (l : UptimeList) (checkpoint : Option Chain.Checkpoint) :
    (l.altBlockAdded env b).list = (l.list.altBlockAdded env.toEnv b checkpoint).1 := by
  unfold altBlockAdded ServiceNodeList.altBlockAdded
  by_cases hold : b.block.majorVersion < 16
  · rw [if_pos (.inl hold), if_pos hold]
  · by_cases hknown : (l.list.altState.any fun e => e.1 = b.block.hash) = true
    · rw [if_pos (.inr hknown), if_neg hold, if_pos hknown]
    · rw [if_neg (not_or.mpr ⟨hold, hknown⟩), if_neg hold, if_neg hknown]
      cases altStartingState l.list b.block with
      | none => rfl
      | some start =>
        cases checkpoint with
        | none => rfl
        | some checkpoint => rfl

section Sample

/-- A list whose history has the block before height 101. -/
def parentKnown : ServiceNodeList where
  state := { height := 100, blockHash := 100 }
  stateHistory := OrderedTable.empty.insert { height := 100, blockHash := 100 }

def childBlock : ChainBlock where
  block := { sampleBlock 17 101 with prevId := 100 }
  txs := []

/-- A checkpoint that nobody has signed. -/
def unsignedCheckpoint : Chain.Checkpoint := Chain.makeEmptyServiceNodeCheckpoint 101 101

/-- The block is rejected for its checkpoint and accepted when it comes again. -/
theorem rejected_block_accepted_again :
    (parentKnown.altBlockAdded sampleEnv childBlock (some unsignedCheckpoint)).2 = false ∧
      ((parentKnown.altBlockAdded sampleEnv childBlock
        (some unsignedCheckpoint)).1.altBlockAdded sampleEnv childBlock
          (some unsignedCheckpoint)).2 = true := by
  decide

/-- Without its parent's state it stays rejected. -/
theorem orphan_stays_rejected :
    (ServiceNodeList.altBlockAdded sampleEnv {} childBlock (some unsignedCheckpoint)).2 = false ∧
      ((ServiceNodeList.altBlockAdded sampleEnv {} childBlock
        (some unsignedCheckpoint)).1.altBlockAdded sampleEnv childBlock
          (some unsignedCheckpoint)).2 = false := by
  have hrejected :
      (ServiceNodeList.altBlockAdded sampleEnv {} childBlock (some unsignedCheckpoint)).2 = false :=
    by decide
  exact ⟨hrejected, (ServiceNodeList.rejected_alternative_block sampleEnv {} childBlock
    (some unsignedCheckpoint) hrejected).1.mpr (by decide)⟩

end Sample

end Arqma.ServiceNodes
