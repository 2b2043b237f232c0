import Arqma.AltStore

/-!
# What is left of a rejected block

An alternative block is stored before the last tests, and none of these takes it out again. When a
switch to a branch fails, the old blocks are brought back and the block that failed is forgotten;
the blocks above it stay, since the loop over them names the failed one every time.
-/
namespace Arqma.Chain
open Arqma.Cryptonote Arqma.ServiceNodes List

variable {branch : Branch} {tail : List AltBlock} {front : AltBlock} {s' : ChainState}
  {coins : UInt64} {keep : Bool}

section Tests

variable (env : ChainEnv) (s : ChainState) (b : Block)

/-- Neither the alternative blocks nor the main chain have the parent. -/
def orphaned : Bool := (s.alt.lookup b.prevId).isNone && !s.blockExists b.prevId

/-- The tests on the branch that come before a block is stored. -/
structure Storable (branch : Branch) : Prop where
  header : env.altHeaderOk s.calls b = true
  difficulty : env.nextDifficultyForAlternativeChain s.main branch.blocks (getBlockHeight b) ≠ 0
  fresh : s.alt.lookup b.hash = none
  coins : (baseCoins s (getBlockHeight b) branch).isSome = true

/-- All the tests that come before a block is stored. -/
structure ReachesStore : Prop where
  height : getBlockHeight b ≠ 0
  allowed : (allowAlternative s (getBlockHeight b)).2 = true
  version : env.altVersionOk s.calls b = true
  known : orphaned s b = false
  built : (buildAltChain (allowAlternative s (getBlockHeight b)).1 b.prevId).2 =
    .built (s.branchTo b.prevId)
  storable : Storable env s b (s.branchTo b.prevId)

/-- The tests that come after: a hard-coded checkpoint names another block and none came with this
one, or a hook refuses. -/
def refusedLate (checkpoint : Option Checkpoint) : Bool :=
  (checkpoint.isNone && (s.getCheckpoint (getBlockHeight b)).any fun known =>
    !known.check b.hash && known.type ≠ .serviceNode) ||
    !env.altBlockAddedHooks s.calls b checkpoint

end Tests

section Assess

variable {env : ChainEnv} {s s' : ChainState} {b : Block}

theorem Storable.congr (hsame : SameStore s s') (hcalls : s'.calls = s.calls) :
    Storable env s' b branch ↔ Storable env s b branch := by
  have hcoins : baseCoins s' (getBlockHeight b) branch = baseCoins s (getBlockHeight b) branch := by
    rw [baseCoins, baseCoins, hsame.main]
  constructor
  · intro h
    exact ⟨hcalls ▸ h.header, hsame.main ▸ h.difficulty, hsame.alt ▸ h.fresh, hcoins ▸ h.coins⟩
  · intro h
    exact ⟨hcalls ▸ h.header, hsame.main ▸ h.difficulty, hsame.alt ▸ h.fresh, hcoins ▸ h.coins⟩

theorem refusedLate_congr (env : ChainEnv) (b : Block) (checkpoint : Option Checkpoint)
    (hsame : SameStore s s') (hcalls : s'.calls = s.calls) :
    refusedLate env s' b checkpoint = refusedLate env s b checkpoint := by
  rw [refusedLate, refusedLate, Blockchain.getCheckpoint, Blockchain.getCheckpoint, hsame.db,
    hcalls]

theorem orphaned_congr (hsame : SameStore s s') : orphaned s' b = orphaned s b := by
  rw [orphaned, orphaned, hsame.alt, hsame.blockExists]

theorem refusedLate_iff {checkpoint : Option Checkpoint} : refusedLate env s b checkpoint = true ↔
      (checkpoint = none ∧ (s.getCheckpoint (getBlockHeight b)).any (fun known =>
        !known.check b.hash && known.type ≠ .serviceNode) = true) ∨
        env.altBlockAddedHooks s.calls b checkpoint = false := by
  rw [refusedLate, Bool.or_eq_true, Bool.and_eq_true, Option.isNone_iff_eq_none, Bool.not_eq_true']

/-- How storing ends once the block is stored. -/
def stored (env : ChainEnv) (s : ChainState) (b : Block) (checkpoint : Option Checkpoint)
    (branch : Branch) (coins : UInt64) : ChainState × Assessment :=
  let tip := newAltBlock env s b checkpoint branch coins
  ({ s with alt := s.alt.insert b.hash tip },
    if refusedLate env s b checkpoint then .finished (.returned false)
    else .weighed
      { branch := branch.withTip s.checkpoints.db tip
        greaterPow := s.topCumulativeDifficulty < tip.cumulativeDifficulty })

theorem storeAlternative_of_storable (h : Storable env s b branch)
    (checkpoint : Option Checkpoint) :
    ∃ coins,
      storeAlternative env s b checkpoint branch = stored env s b checkpoint branch coins := by
  obtain ⟨coins, hcoins⟩ := Option.isSome_iff_exists.mp h.coins
  refine ⟨coins, ?_⟩
  grind [h.fresh, storeAlternative, stored, h.header, h.difficulty, refusedLate_iff.mpr,
    refusedLate_iff.mp]

theorem storeAlternative_of_not_storable (h : ¬ Storable env s b branch)
    (checkpoint : Option Checkpoint) :
    ∃ outcome, storeAlternative env s b checkpoint branch = (s, .finished outcome) := by
  unfold storeAlternative
  dsimp only
  cases hcoins : baseCoins s (getBlockHeight b) branch with
  | none =>
    dsimp only
    split_ifs <;> exact ⟨_, rfl⟩
  | some coins =>
    dsimp only
    split_ifs with hheader hdifficulty hfresh
    · exact ⟨_, rfl⟩
    · exact ⟨_, rfl⟩
    · exact ⟨_, rfl⟩
    all_goals
      exact absurd
        ⟨by simpa using hheader, hdifficulty, by simpa using hfresh, by rw [hcoins]; rfl⟩ h

/-- A branch that is built is the stored one, and leaves the main chain at a known block. -/
theorem buildAltChain_built {prevId : Hash} (h : buildAltChain s prevId = (s', .built branch)) :
    branch = s.branchTo prevId ∧ SameStore s s' ∧ s'.calls = s.calls ∧
      ∀ tip : AltBlock, tip.block.prevId = prevId → ∀ front ∈ (branch.blocks ++ [tip]).head?,
        s.blockExists front.block.prevId = true := by
  unfold buildAltChain at h
  rw [← ChainState.branchTo] at h
  dsimp only at h
  split at h
  · grind [SameStore.refl]
  · rename_i front rest hblocks
    split at h
    · cases h
    · split_ifs at h with hconnected
      · exact absurd (congrArg Prod.snd h) (dropBranch_ne_built _ _ branch)
      · simp only [not_or, Bool.not_eq_true', Bool.not_eq_false] at hconnected
        have hsame := sameStore_allowAlternative s front.height
        grind [allowAlternative, dropBranch_ne_built]

theorem assessAlternative_of_reaches (h : ReachesStore env s b) (checkpoint : Option Checkpoint) :
    ∃ s' coins, SameStore s s' ∧ s'.calls = s.calls ∧ assessAlternative env s b checkpoint =
        stored env s' b checkpoint (s.branchTo b.prevId) coins ∧
      ∀ tip : AltBlock, tip.block.prevId = b.prevId →
        ∀ front ∈ ((s.branchTo b.prevId).blocks ++ [tip]).head?,
          s.blockExists front.block.prevId = true := by
  obtain ⟨s₁, hs₁⟩ : ∃ s₁, (allowAlternative s (getBlockHeight b)).1 = s₁ := ⟨_, rfl⟩
  have hallow : allowAlternative s (getBlockHeight b) = (s₁, true) := Prod.ext hs₁ h.allowed
  have hsame₁ : SameStore s s₁ := hs₁ ▸ sameStore_allowAlternative s (getBlockHeight b)
  have hcalls₁ : s₁.calls = s.calls := hs₁ ▸ rfl
  obtain ⟨s₂, hs₂⟩ : ∃ s₂, (buildAltChain s₁ b.prevId).1 = s₂ := ⟨_, rfl⟩
  have hbuild : buildAltChain s₁ b.prevId = (s₂, .built (s.branchTo b.prevId)) :=
    Prod.ext hs₂ (hs₁ ▸ h.built)
  obtain ⟨-, hsame₂, hcalls₂, hroot⟩ := buildAltChain_built hbuild
  have hsame := hsame₁.trans hsame₂
  have hcalls := hcalls₂.trans hcalls₁
  obtain ⟨coins, hstored⟩ := storeAlternative_of_storable
    ((Storable.congr hsame hcalls).mpr h.storable) checkpoint
  grind [ChainState.blockExists, allowAlternative, orphaned, assessAlternative, h.height, h.version,
    h.known]

theorem assessAlternative_of_not_reaches (h : ¬ ReachesStore env s b)
    (checkpoint : Option Checkpoint) :
    Forgets s (assessAlternative env s b checkpoint).1 ∧
      ∃ outcome, (assessAlternative env s b checkpoint).2 = .finished outcome := by
  unfold assessAlternative
  dsimp only
  split_ifs with hzero
  · exact ⟨Forgets.refl s, _, rfl⟩
  · have hsame₁ := sameStore_allowAlternative s (getBlockHeight b)
    have hcalls₁ : (allowAlternative s (getBlockHeight b)).1.calls = s.calls := rfl
    split
    · rename_i s₁ hallow
      rw [hallow] at hsame₁
      exact ⟨hsame₁.forgets, _, rfl⟩
    · rename_i s₁ hallow
      rw [hallow] at hsame₁ hcalls₁
      split_ifs with hversion hparent
      · exact ⟨hsame₁.forgets, _, rfl⟩
      · exact ⟨hsame₁.forgets, _, rfl⟩
      · obtain ⟨s₂, -, hbuilt, -⟩ | ⟨hforgets, hnot⟩ := buildAltChain_cases s₁ b.prevId
        · obtain ⟨-, hsame₂, hcalls₂, -⟩ := buildAltChain_built hbuilt
          rw [hsame₁.branchTo] at hbuilt
          rw [hbuilt]
          have hsame := hsame₁.trans hsame₂
          have hstorable : ¬ Storable env s₂ b (s.branchTo b.prevId) := fun hstorable => h
            { height := hzero
              allowed := by rw [hallow]
              version := by rw [← hcalls₁]; simpa using hversion
              known := (orphaned_congr hsame₁).symm.trans (by simpa [orphaned] using hparent)
              built := by rw [hallow, hbuilt]
              storable := (Storable.congr hsame (hcalls₂.trans hcalls₁)).mp hstorable }
          obtain ⟨outcome, hstore⟩ := storeAlternative_of_not_storable hstorable checkpoint
          dsimp only
          rw [hstore]
          exact ⟨hsame.forgets, outcome, rfl⟩
        · grind [hsame₁.forgets.trans]

end Assess

section Switch

variable {env : ChainEnv} {s : ChainState}

theorem alt_handleBlockToMainChain (env : ChainEnv) (s : ChainState) (b : Block)
    (checkpoint : Option Checkpoint) :
    (handleBlockToMainChain env s b checkpoint).1.alt = s.alt := by
  unfold handleBlockToMainChain
  cases mainOutcome env s b checkpoint <;> rfl

/-- Connecting stops at a block of the branch and stores nothing. -/
theorem connect_suffix (env : ChainEnv) (s : ChainState) (altChain : List AltBlock) :
    (connect env s altChain).2 <:+ altChain ∧ (connect env s altChain).1.alt = s.alt := by
  induction altChain generalizing s <;> grind [connect, alt_handleBlockToMainChain]

theorem alt_restore (env : ChainEnv) (s : ChainState)
    (originalChain : List (Block × Option Checkpoint)) :
    (restore env s originalChain).alt = s.alt := by
  induction originalChain generalizing s with
  | nil => rfl
  | cons entry rest ih =>
    obtain ⟨b, checkpoint⟩ := entry
    have halt := alt_handleBlockToMainChain env s b checkpoint
    unfold restore
    grind

theorem alt_rollback (env : ChainEnv) (s : ChainState)
    (originalChain : List (Block × Option Checkpoint)) (height : ℕ) :
    (rollbackBlockchainSwitching env s originalChain height).alt = s.alt := by
  unfold rollbackBlockchainSwitching
  split_ifs
  · rfl
  · exact alt_restore env (detachTo s height) originalChain

theorem lookup_discardFailed (s : ChainState) (failed : AltBlock) (rest : List AltBlock)
    (id : Hash) :
    (discardFailed s failed rest).1.alt.lookup id =
      if id = failed.block.hash then none else s.alt.lookup id := by
  unfold discardFailed removeAltBlock
  have halt : (s.addBlockAsInvalid failed.block.hash).alt = s.alt := rfl
  rw [halt]
  by_cases hknown : (s.alt.lookup failed.block.hash).isSome = true
  · grind [ChainState.addBlockAsInvalid, AList.lookup_erase, AList.lookup_erase_ne]
  · rw [if_neg hknown]
    have hnone : s.alt.lookup failed.block.hash = none := by simpa using hknown
    split_ifs with hid
    · rw [hid]
      exact hnone
    · rfl

/-- The call returns only if there is nothing above the failed block. -/
theorem discardFailed_outcome (s : ChainState) (failed : AltBlock) (rest : List AltBlock) :
    (discardFailed s failed rest).2 =
      if (s.alt.lookup failed.block.hash).isSome = true ∧ rest = [] then .returned false
      else .threw := by
  unfold discardFailed removeAltBlock
  have halt : (s.addBlockAsInvalid failed.block.hash).alt = s.alt := rfl
  grind

theorem finishSwitch_ne_false
    (handle : ChainState → Block → Option Checkpoint → ChainState × Outcome) (s : ChainState)
    (altChain : List AltBlock) (disconnected : List (Block × Option Checkpoint)) (keep : Bool) :
    (finishSwitch handle s altChain disconnected keep).2 ≠ .returned false := by
  unfold finishSwitch
  split
  · exact nofun
  · split <;> exact nofun

theorem switch_of_failed (handle : ChainState → Block → Option Checkpoint → ChainState × Outcome)
    (hexists : s.blockExists front.block.prevId = true)
    (keep : Bool) {failed : AltBlock} {rest : List AltBlock}
    (hfailed : (connect env (detachTo s (heightAfter s front.block.prevId)) (front :: tail)).2 =
      failed :: rest) :
    switchToAlternativeBlockchain env handle s (front :: tail) keep =
      discardFailed (rollbackBlockchainSwitching env
        (connect env (detachTo s (heightAfter s front.block.prevId)) (front :: tail)).1
        (disconnectedFrom s (heightAfter s front.block.prevId))
        (heightAfter s front.block.prevId)) failed rest := by
  unfold switchToAlternativeBlockchain
  grind

theorem switch_returned_false
    (handle : ChainState → Block → Option Checkpoint → ChainState × Outcome)
    (hexists : s.blockExists front.block.prevId = true)
    (h : (switchToAlternativeBlockchain env handle s (front :: tail) keep).2 = .returned false) :
    ∀ last ∈ (front :: tail).getLast?,
      (switchToAlternativeBlockchain env handle s (front :: tail) keep).1.alt.lookup
        last.block.hash = none := by
  intro last hlast
  cases hfailed :
      (connect env (detachTo s (heightAfter s front.block.prevId)) (front :: tail)).2 with
  | nil =>
    grind [switchToAlternativeBlockchain, finishSwitch_ne_false]
  | cons failed rest =>
    rw [switch_of_failed handle hexists keep hfailed] at h ⊢
    rw [discardFailed_outcome] at h
    split_ifs at h with hreturned
    rw [hreturned.2] at hfailed
    obtain ⟨before, hsuffix⟩ := (connect_suffix env
      (detachTo s (heightAfter s front.block.prevId)) (front :: tail)).1
    grind [lookup_discardFailed]

end Switch

section Rejected

variable (env : ChainEnv) (depth : ℕ) (s : ChainState) (b : Block) (checkpoint : Option Checkpoint)

/-- The state when the tests of a call are made. -/
def counted : ChainState := { s with calls := s.calls + 1 }

theorem lookup_of_switch_false
    (handle : ChainState → Block → Option Checkpoint → ChainState × Outcome)
    (hroot : ∀ tip : AltBlock, tip.block.prevId = b.prevId →
      ∀ front ∈ (branch.blocks ++ [tip]).head?, s'.blockExists front.block.prevId = true)
    (h : (switchToAlternativeBlockchain env handle (stored env s' b checkpoint branch coins).1
      (branch.blocks ++ [newAltBlock env s' b checkpoint branch coins]) keep).2 = .returned false) :
    (switchToAlternativeBlockchain env handle (stored env s' b checkpoint branch coins).1
      (branch.blocks ++ [newAltBlock env s' b checkpoint branch coins]) keep).1.alt.lookup b.hash =
        none := by
  have hfront := hroot (newAltBlock env s' b checkpoint branch coins) rfl
  have hlast : (branch.blocks ++ [newAltBlock env s' b checkpoint branch coins]).getLast? =
      some (newAltBlock env s' b checkpoint branch coins) := by
    rw [getLast?_append, getLast?_singleton, Option.some_or]
  cases hblocks : branch.blocks ++ [newAltBlock env s' b checkpoint branch coins] with
  | nil =>
    rw [hblocks] at hlast
    cases hlast
  | cons front tail =>
    rw [hblocks] at h hlast hfront
    have hexists :
        (stored env s' b checkpoint branch coins).1.blockExists front.block.prevId = true :=
      hfront front rfl
    exact switch_returned_false handle hexists h _ hlast

theorem handleAlternativeBlock_of_stored
    (h : assessAlternative env (counted s) b checkpoint = stored env s' b checkpoint branch coins) :
    handleAlternativeBlock env (depth + 1) s b checkpoint =
      if refusedLate env s' b checkpoint = true then
        ((stored env s' b checkpoint branch coins).1, .returned false)
      else
        let tip := newAltBlock env s' b checkpoint branch coins
        let w : Weighed :=
          { branch := branch.withTip s'.checkpoints.db tip
            greaterPow := s'.topCumulativeDifficulty < tip.cumulativeDifficulty }
        if attemptsSwitch b.majorVersion w then
          switchToAlternativeBlockchain env (handleAlternativeBlock env depth)
            (stored env s' b checkpoint branch coins).1 (branch.blocks ++ [tip])
            (keepsDisconnected b.majorVersion w)
        else ((stored env s' b checkpoint branch coins).1, .returned true) := by
  rw [counted] at h
  rw [handleAlternativeBlock, h, stored]
  split_ifs <;> rfl

/-- A block that is refused stays in the store exactly if it passed all the tests up to there and
failed one of those that follow. Then a child of it is no orphan. -/
theorem rejected_block_kept_iff
    (hrejected : (handleAlternativeBlock env depth s b checkpoint).2 = .returned false)
    (hnew : s.alt.lookup b.hash = none) :
    let after := (handleAlternativeBlock env depth s b checkpoint).1
    let keeps := ReachesStore env (counted s) b ∧ refusedLate env (counted s) b checkpoint = true
    (after.alt.lookup b.hash = none ↔ ¬ keeps) ∧
      ∀ child : Block, child.prevId = b.hash → after.blockExists b.hash = false →
        (orphaned after child = true ↔ ¬ keeps) := by
  intro after keeps
  have hkept : after.alt.lookup b.hash = none ↔ ¬ keeps := by
    cases depth with
    | zero => cases hrejected
    | succ depth =>
      by_cases hreaches : ReachesStore env (counted s) b
      · obtain ⟨s', coins, hsame, hcalls, hassess, hroot⟩ :=
          assessAlternative_of_reaches hreaches checkpoint
        have hlate := refusedLate_congr env b checkpoint hsame hcalls
        have hhandle := handleAlternativeBlock_of_stored env depth s b checkpoint hassess
        by_cases hrefused : refusedLate env s' b checkpoint = true
        · rw [if_pos hrefused] at hhandle
          have hlookup : after.alt.lookup b.hash ≠ none := by
            simp only [after, hhandle, stored, AList.lookup_insert, ne_eq, reduceCtorEq,
              not_false_eq_true]
          exact iff_of_false hlookup (not_not_intro ⟨hreaches, hlate ▸ hrefused⟩)
        · rw [if_neg hrefused] at hhandle
          refine iff_of_true ?_ fun hkeeps => hrefused (hlate.trans hkeeps.2)
          dsimp only at hhandle
          split_ifs at hhandle with hattempt
          · rw [hhandle] at hrejected
            simp only [after, hhandle]
            refine lookup_of_switch_false env b checkpoint _ (fun tip htip front hfront => ?_)
              hrejected
            rw [hsame.blockExists]
            exact hroot tip htip front hfront
          · rw [hhandle] at hrejected
            cases hrejected
      · obtain ⟨hforgets, outcome, hfinished⟩ :=
          assessAlternative_of_not_reaches hreaches checkpoint
        have hafter : after = (assessAlternative env (counted s) b checkpoint).1 := by
          simp only [after, handleAlternativeBlock]
          rw [← counted]
          split
          · rename_i hassess
            rw [hassess]
          · rename_i hassess
            rw [hassess] at hfinished
            cases hfinished
        refine iff_of_true ?_ fun hkeeps => hreaches hkeeps.1
        rw [hafter]
        cases hlookup : (assessAlternative env (counted s) b checkpoint).1.alt.lookup b.hash with
        | none => rfl
        | some entry =>
          have hbefore := hforgets.alt b.hash entry hlookup
          rw [show (counted s).alt = s.alt from rfl, hnew] at hbefore
          cases hbefore
  refine ⟨hkept, fun child hchild hmain => ?_⟩
  rw [← hkept, orphaned, hchild, hmain, Bool.not_false, Bool.and_true, Option.isNone_iff_eq_none]

/-- Everything passes but the hooks for alternative blocks. -/
def unwillingHooks : ChainEnv := { sampleEnv 17 none with altBlockAddedHooks := fun _ _ _ => false }

/-- Everything passes but the header of alternative blocks. -/
def badHeaders : ChainEnv := { sampleEnv 17 none with altHeaderOk := fun _ _ => false }

theorem bad_header_not_kept :
    (handleAlternativeBlock badHeaders 3 (sampleChain 17 6 OrderedTable.empty)
      (childBlock 17 4 3 1004) none).1.alt.lookup 1004 = none :=
  (rejected_block_kept_iff badHeaders 3 (sampleChain 17 6 OrderedTable.empty)
    (childBlock 17 4 3 1004) none (by decide) (by decide)).1.mpr
      fun hkeeps => absurd hkeeps.1.storable.header (by decide)

/-- A block that the hooks refuse is stored, and its child finds its parent. So is one at a height
where a hard-coded checkpoint names another block. -/
theorem refused_block_kept :
    let refused := handleAlternativeBlock unwillingHooks 3 (sampleChain 17 6 OrderedTable.empty)
      (childBlock 17 4 3 1004) none
    let contradicted := handleAlternativeBlock (sampleEnv 17 none) 3
      ((sampleChain 17 6 (hardcodedTable 8)).after (sampleEnv 17 none) 3
        [.deliver (childBlock 17 4 3 1004) none]) (childBlock 17 8 1004 1008) none
    refused.2 = .returned false ∧ (refused.1.alt.lookup 1004).isSome = true ∧
      orphaned refused.1 (childBlock 17 5 1004 1005) = false ∧
      contradicted.2 = .returned false ∧ (contradicted.1.alt.lookup 1008).isSome = true := by
  decide

end Rejected

section FailedSwitch

variable {env : ChainEnv} {s : ChainState} {altChain : List AltBlock} {k : ℕ}

/-- The blocks are accepted one after the other. -/
def readded (env : ChainEnv) (s : ChainState) : List (Block × Option Checkpoint) → Bool
  | [] => true
  | (b, checkpoint) :: rest =>
    match handleBlockToMainChain env s b checkpoint with
    | (s, true) => readded env s rest
    | (_, false) => false

/-- The height at which a branch leaves the main chain. -/
def splitHeight (s : ChainState) (altChain : List AltBlock) : ℕ :=
  match altChain with
  | [] => 0
  | front :: _ => heightAfter s front.block.prevId

/-- The switch comes to connect the branch and stops at its block `k`. -/
structure FailsAt (env : ChainEnv) (s : ChainState) (altChain : List AltBlock) (k : ℕ) : Prop where
  known : (altChain.head?.any fun front => s.blockExists front.block.prevId) = true
  lt : k < altChain.length
  stops : (connect env (detachTo s (splitHeight s altChain)) altChain).2 = altChain.drop k

/-- The old blocks are accepted again when the switch is rolled back. -/
def RollsBack (env : ChainEnv) (s : ChainState) (altChain : List AltBlock) : Prop :=
  let height := splitHeight s altChain
  readded env (detachTo (connect env (detachTo s height) altChain).1 height)
    (disconnectedFrom s height) = true

theorem blocks_restore (originalChain : List (Block × Option Checkpoint))
    (h : readded env s originalChain = true) :
    (restore env s originalChain).blocks = s.blocks ++ originalChain.map Prod.fst := by
  induction originalChain generalizing s with
  | nil => exact (append_nil _).symm
  | cons entry rest ih =>
    obtain ⟨b, checkpoint⟩ := entry
    obtain ⟨hadd, -⟩ := handleBlockToMainChain_spec env s b checkpoint
    grind [readded, restore]

theorem tailId_eq (s : ChainState) : s.tailId = s.blocks.getLast?.map Block.hash := by
  rw [ChainState.tailId, ChainState.blocks, getLast?_map, Option.map_map]
  rfl

theorem blocks_rollback (hback : RollsBack env s altChain)
    (hle : splitHeight s altChain ≤ s.main.length) :
    (rollbackBlockchainSwitching env (connect env (detachTo s (splitHeight s altChain)) altChain).1
      (disconnectedFrom s (splitHeight s altChain)) (splitHeight s altChain)).blocks =
        s.blocks := by
  obtain ⟨height, hheight⟩ : ∃ height, splitHeight s altChain = height := ⟨_, rfl⟩
  rw [RollsBack, hheight] at hback
  rw [hheight] at hle ⊢
  obtain ⟨-, hinitial, -⟩ := connect_spec env (detachTo s height) altChain
  grind [blocks_detachTo, ChainState.blocks, Blockchain.height, rollbackBlockchainSwitching,
    blocks_restore, fst_disconnectedFrom, take_append_drop, prefix_iff_eq_take.mp]

theorem FailsAt.switch_eq (h : FailsAt env s altChain k)
    (handle : ChainState → Block → Option Checkpoint → ChainState × Outcome) (keep : Bool) :
    switchToAlternativeBlockchain env handle s altChain keep =
      discardFailed (rollbackBlockchainSwitching env
        (connect env (detachTo s (splitHeight s altChain)) altChain).1
        (disconnectedFrom s (splitHeight s altChain)) (splitHeight s altChain))
        (altChain.get ⟨k, h.lt⟩) (altChain.drop (k + 1)) := by
  have hstops := h.stops
  rw [drop_eq_getElem_cons h.lt] at hstops
  cases altChain with
  | nil => exact absurd h.lt (Nat.not_lt_zero k)
  | cons front tail => exact switch_of_failed handle h.known keep hstops

theorem splitHeight_le (s : ChainState) (altChain : List AltBlock) :
    splitHeight s altChain ≤ s.main.length := by
  cases altChain with
  | nil => exact Nat.zero_le _
  | cons front tail => exact heightAfter_le s front.block.prevId

theorem FailsAt.blocks_switch (h : FailsAt env s altChain k) (hback : RollsBack env s altChain)
    (handle : ChainState → Block → Option Checkpoint → ChainState × Outcome) (keep : Bool) :
    (switchToAlternativeBlockchain env handle s altChain keep).1.blocks = s.blocks := by
  rw [h.switch_eq, (sameChain_discardFailed _ _ _).blocks]
  exact blocks_rollback hback (splitHeight_le s altChain)

/-- What a failed switch leaves in the store. -/
theorem FailsAt.lookup_switch (h : FailsAt env s altChain k)
    (handle : ChainState → Block → Option Checkpoint → ChainState × Outcome) (keep : Bool)
    (id : Hash) :
    (switchToAlternativeBlockchain env handle s altChain keep).1.alt.lookup id =
      if id = (altChain.get ⟨k, h.lt⟩).block.hash then none else s.alt.lookup id := by
  rw [h.switch_eq, lookup_discardFailed, alt_rollback, (connect_suffix env _ altChain).2]
  rfl

/-- After a switch that fails at block `k` and is rolled back the chain is the one before. The block
and all those above it are gone from the store exactly if the store had none of those above; a
branch that is stored as a whole is therefore cleared exactly if its last block failed. -/
theorem failed_switch_clears_iff (env : ChainEnv)
    (handle : ChainState → Block → Option Checkpoint → ChainState × Outcome) (s : ChainState)
    (altChain : List AltBlock) (keep : Bool) (k : ℕ) (hfails : FailsAt env s altChain k)
    (hback : RollsBack env s altChain) :
    let result := switchToAlternativeBlockchain env handle s altChain keep
    let cleared := ∀ entry ∈ altChain.drop k, result.1.alt.lookup entry.block.hash = none
    (result.1.blocks = s.blocks ∧ result.1.tailId = s.tailId) ∧
      (cleared ↔ ∀ entry ∈ altChain.drop (k + 1), s.alt.lookup entry.block.hash = none ∨
        (altChain[k]?.map fun failed => failed.block.hash) = some entry.block.hash) ∧
      ((∀ entry ∈ altChain, s.alt.lookup entry.block.hash ≠ none) →
        (altChain.map fun entry => entry.block.hash).Nodup →
          (cleared ↔ k + 1 = altChain.length)) := by
  intro result cleared
  have hlookup := fun id => hfails.lookup_switch handle keep id
  have hblocks : result.1.blocks = s.blocks := hfails.blocks_switch hback handle keep
  have hcleared : cleared ↔ ∀ entry ∈ altChain.drop (k + 1), s.alt.lookup entry.block.hash = none ∨
      (altChain[k]?.map fun failed => failed.block.hash) = some entry.block.hash := by
    simp only [cleared, result, drop_eq_getElem_cons hfails.lt, forall_mem_cons, hlookup,
      getElem?_eq_getElem hfails.lt, Option.map_some, Option.some.injEq, get_eq_getElem,
      if_true, true_and]
    refine forall₂_congr fun entry _ => ?_
    split_ifs with hid
    · exact iff_of_true rfl (Or.inr hid.symm)
    · exact (or_iff_left fun h => hid h.symm).symm
  refine ⟨⟨hblocks, by rw [tailId_eq, tailId_eq, hblocks]⟩, hcleared, fun hstored hnodup => ?_⟩
  rw [hcleared]
  constructor
  · -- A block above the failed one would still be stored, and is not the failed one.
    intro hrest
    by_contra hne
    have hlt : k + 1 < altChain.length := by
      have := hfails.lt
      omega
    have hmem : altChain[k + 1] ∈ altChain.drop (k + 1) := by
      rw [drop_eq_getElem_cons hlt]
      exact mem_cons_self
    obtain hnone | hsame := hrest _ hmem
    · exact hstored _ (getElem_mem hlt) hnone
    · rw [getElem?_eq_getElem hfails.lt, Option.map_some, Option.some.injEq] at hsame
      exact pairwise_iff_getElem.mp (pairwise_map.mp hnodup) k (k + 1) hfails.lt hlt
        (Nat.lt_succ_self k) hsame
  · intro hlast entry hentry
    rw [hlast, drop_length] at hentry
    cases hentry

/-- The hooks refuse block 1004, the first of a stored branch of two, or 1005, its last. -/
def refusedBranch (unwanted : Hash) : ChainState :=
  (sampleChain 17 6 OrderedTable.empty).after (sampleEnv 17 (some unwanted)) 3
    [.deliver (childBlock 17 4 3 1004) none, .deliver (childBlock 17 5 1004 1005) none]

theorem last_block_cleared :
    ((refusedBranch 1005).branchTo 1005).blocks.length = 2 ∧
    ∀ entry ∈ ((refusedBranch 1005).branchTo 1005).blocks.drop 1,
      (switchToAlternativeBlockchain (sampleEnv 17 (some 1005))
        (handleAlternativeBlock (sampleEnv 17 (some 1005)) 3) (refusedBranch 1005)
        ((refusedBranch 1005).branchTo 1005).blocks true).1.alt.lookup entry.block.hash = none :=
  ⟨by decide, (failed_switch_clears_iff (sampleEnv 17 (some 1005))
    (handleAlternativeBlock (sampleEnv 17 (some 1005)) 3) (refusedBranch 1005)
    ((refusedBranch 1005).branchTo 1005).blocks true 1
    ⟨by decide, by decide, by decide⟩ (by
      rw [RollsBack]
      decide)).2.1.mpr (by decide)⟩

/-- The first of two blocks fails. The old chain comes back, but the second block is still there and
the call ends with an exception. -/
theorem later_block_stays :
    let s := refusedBranch 1004
    let env := sampleEnv 17 (some 1004)
    let result := switchToAlternativeBlockchain env (handleAlternativeBlock env 3) s
      (s.branchTo 1005).blocks true
    (connect env (detachTo s (splitHeight s (s.branchTo 1005).blocks))
        (s.branchTo 1005).blocks).2 = (s.branchTo 1005).blocks.drop 0 ∧
      result.1.blocks = s.blocks ∧ result.2 = .threw ∧
      (result.1.alt.lookup 1004).isSome = false ∧ (result.1.alt.lookup 1005).isSome = true := by
  decide

end FailedSwitch

end Arqma.Chain
