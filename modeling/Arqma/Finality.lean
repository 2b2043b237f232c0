import Arqma.AltChain
import Arqma.ImmutableCheckpoints
import Arqma.Staking

/-!
# Finality

Blocks up to an immutable checkpoint stay. As long as no alternative block has arrived since,
the table itself keeps the height sealed; the first one makes the node remember it, and from
then on no branch may start at or below it. A single block that claims a wrong height can make
the chain be popped below it, but it is refused there and the old blocks come back.
-/
namespace Arqma.Chain
open Arqma.Cryptonote Arqma.ServiceNodes List

variable {checkpoint : Option Checkpoint} {s s' : ChainState} {b : Block} {altChain : List AltBlock}
  {blockHeight : ℕ}

def ChainState.blocks (s : ChainState) : List Block := s.main.map MainBlock.block

theorem blocks_congr (hmain : s'.main = s.main) : s'.blocks = s.blocks :=
  congrArg (List.map MainBlock.block) hmain

section Later

/-- The flags stay set and the remembered height does not fall. -/
structure Later (s s' : ChainState) : Prop where
  panicked : s.panicked = true → s'.panicked = true
  unguarded : s.unguarded = true → s'.unguarded = true
  immutableHeight : s.checkpoints.immutableHeight ≤ s'.checkpoints.immutableHeight

theorem Later.refl (s : ChainState) : Later s s := ⟨id, id, le_refl _⟩

theorem Later.trans {s s' s'' : ChainState} (h : Later s s') (h' : Later s' s'') : Later s s'' :=
  ⟨h'.panicked ∘ h.panicked, h'.unguarded ∘ h.unguarded, h.immutableHeight.trans h'.immutableHeight⟩

/-- The chain and its checkpoints are the same, and so are the flags. -/
structure SameChain (s s' : ChainState) : Prop where
  chain : s'.toBlockchain = s.toBlockchain
  panicked : s'.panicked = s.panicked
  unguarded : s'.unguarded = s.unguarded

theorem SameChain.refl (s : ChainState) : SameChain s s := ⟨rfl, rfl, rfl⟩

theorem SameChain.trans {s s' s'' : ChainState} (h : SameChain s s') (h' : SameChain s' s'') :
    SameChain s s'' :=
  ⟨h'.chain.trans h.chain, h'.panicked.trans h.panicked, h'.unguarded.trans h.unguarded⟩

theorem SameChain.blocks (h : SameChain s s') : s'.blocks = s.blocks :=
  blocks_congr (congrArg Blockchain.main h.chain)

theorem SameChain.later (h : SameChain s s') : Later s s' :=
  ⟨fun hp => h.panicked.trans hp, fun hu => h.unguarded.trans hu, by rw [h.chain]⟩

theorem sameChain_addBlockAsInvalid (s : ChainState) (id : Hash) :
    SameChain s (s.addBlockAsInvalid id) := ⟨rfl, rfl, rfl⟩

theorem sameChain_removeAltBlock (s : ChainState) (id : Hash) :
    SameChain s (removeAltBlock s id).1 := by
  unfold removeAltBlock
  split_ifs
  · exact ⟨rfl, rfl, rfl⟩
  · exact SameChain.refl s

theorem sameChain_removeAltBlocks (s : ChainState) (ids : List Hash) :
    SameChain s (removeAltBlocks s ids).1 := by
  induction ids generalizing s with
  | nil => exact SameChain.refl s
  | cons id ids ih =>
    have hfirst := sameChain_removeAltBlock s id
    grind [removeAltBlocks, hfirst.trans]

theorem fst_dropBranch (s : ChainState) (branch : Branch) : (dropBranch s branch).1 =
    (removeAltBlocks s (branch.blocks.map fun entry => entry.block.hash)).1 := by
  unfold dropBranch
  generalize removeAltBlocks s _ = result
  obtain ⟨_, _ | _⟩ := result <;> rfl

theorem sameChain_dropBranch (s : ChainState) (branch : Branch) :
    SameChain s (dropBranch s branch).1 := by
  rw [fst_dropBranch]
  exact sameChain_removeAltBlocks s _

theorem sameChain_discardFailed (s : ChainState) (failed : AltBlock) (rest : List AltBlock) :
    SameChain s (discardFailed s failed rest).1 := by
  have hmarked := sameChain_addBlockAsInvalid s failed.block.hash
  have hremoved := hmarked.trans
    (sameChain_removeAltBlock (s.addBlockAsInvalid failed.block.hash) failed.block.hash)
  unfold discardFailed
  grind [hremoved.trans, sameChain_addBlockAsInvalid]

end Later

section MainChain

variable {env : ChainEnv} {s : ChainState} {b : Block} {checkpoint : Option Checkpoint}

theorem mainOutcome_added (h : mainOutcome env s b checkpoint = .added) :
    s.tailId = some b.prevId ∧ getBlockHeight b = s.height := by
  unfold mainOutcome at h
  grind

/-- A block is added with the height it claims, or the chain stays as it is. -/
theorem handleBlockToMainChain_spec (env : ChainEnv) (s : ChainState) (b : Block)
    (checkpoint : Option Checkpoint) :
    let result := handleBlockToMainChain env s b checkpoint
    (result.2 = true ∧ getBlockHeight b = s.height ∧ result.1.blocks = s.blocks ++ [b] ∨
        result.2 = false ∧ result.1.main = s.main) ∧
      result.1.panicked = s.panicked ∧ result.1.unguarded = s.unguarded ∧
      result.1.checkpoints.immutableHeight = s.checkpoints.immutableHeight := by
  unfold handleBlockToMainChain
  cases houtcome : mainOutcome env s b checkpoint with
  | refused => exact ⟨Or.inr ⟨rfl, rfl⟩, rfl, rfl, rfl⟩
  | wrongInputs => exact ⟨Or.inr ⟨rfl, rfl⟩, rfl, rfl, rfl⟩
  | aborted => exact ⟨Or.inr ⟨rfl, rfl⟩, rfl, rfl, rfl⟩
  | added =>
    refine ⟨Or.inl ⟨rfl, (mainOutcome_added houtcome).2, ?_⟩, rfl, rfl,
      immutableHeight_blockAdded s.checkpoints b checkpoint⟩
    simp [ChainState.blocks]

theorem later_handleBlockToMainChain (env : ChainEnv) (s : ChainState) (b : Block)
    (checkpoint : Option Checkpoint) :
    Later s (handleBlockToMainChain env s b checkpoint).1 := by
  obtain ⟨-, hpanicked, hunguarded, himmutable⟩ := handleBlockToMainChain_spec env s b checkpoint
  exact ⟨fun hp => hpanicked.trans hp, fun hu => hunguarded.trans hu, himmutable.ge⟩

/-- Some first part of the branch is added. -/
theorem connect_spec (env : ChainEnv) (s : ChainState) (altChain : List AltBlock) :
    Later s (connect env s altChain).1 ∧ s.blocks <+: (connect env s altChain).1.blocks ∧
      ∀ front ∈ altChain.head?, getBlockHeight front.block ≠ s.height →
        (connect env s altChain).2 = altChain ∧ (connect env s altChain).1.main = s.main := by
  induction altChain generalizing s with
  | nil => exact ⟨Later.refl s, prefix_refl _, fun _ hfront => nomatch hfront⟩
  | cons entry rest ih =>
    have hlater := later_handleBlockToMainChain env s entry.block entry.checkpoint
    obtain ⟨hadd, -⟩ := handleBlockToMainChain_spec env s entry.block entry.checkpoint
    rw [connect]
    generalize handleBlockToMainChain env s entry.block entry.checkpoint = result at hlater hadd ⊢
    obtain ⟨s', _ | _⟩ := result
    · obtain ⟨htrue, -⟩ | ⟨-, hmain⟩ := hadd
      · cases htrue
      · exact ⟨hlater, (blocks_congr hmain).symm ▸ prefix_refl _, fun _ _ _ => ⟨rfl, hmain⟩⟩
    · obtain ⟨-, hheight, hblocks⟩ | ⟨hfalse, -⟩ := hadd
      · obtain ⟨hrest, hinitial, -⟩ := ih s'
        refine ⟨hlater.trans hrest, ?_, fun front hfront hne => ?_⟩
        · exact (hblocks ▸ prefix_append s.blocks [entry.block]).trans hinitial
        · obtain rfl := Option.some.inj hfront
          exact absurd hheight hne
      · cases hfalse

/-- The old blocks are added again, or there was a panic. -/
theorem restore_spec (env : ChainEnv) (s : ChainState)
    (originalChain : List (Block × Option Checkpoint)) :
    Later s (restore env s originalChain) ∧ s.blocks <+: (restore env s originalChain).blocks ∧
      ((restore env s originalChain).panicked = true ∨
        (restore env s originalChain).blocks = s.blocks ++ originalChain.map Prod.fst) := by
  induction originalChain generalizing s with
  | nil => exact ⟨Later.refl s, prefix_refl _, Or.inr (append_nil _).symm⟩
  | cons entry rest ih =>
    obtain ⟨b, checkpoint⟩ := entry
    have hlater := later_handleBlockToMainChain env s b checkpoint
    obtain ⟨hadd, -⟩ := handleBlockToMainChain_spec env s b checkpoint
    rw [restore]
    generalize handleBlockToMainChain env s b checkpoint = result at hlater hadd ⊢
    obtain ⟨s', _ | _⟩ := result
    · obtain ⟨htrue, -⟩ | ⟨-, hmain⟩ := hadd
      · cases htrue
      · exact ⟨⟨fun _ => rfl, hlater.unguarded, hlater.immutableHeight⟩,
          (blocks_congr hmain).symm ▸ prefix_refl _, Or.inl rfl⟩
    · grind [hlater.trans, prefix_append]

end MainChain

section Pinned

/-- Unless a flag is set, the chain begins with these blocks and the height is remembered. -/
def Remembered (pinned : List Block) (sealedHeight : ℕ) (s : ChainState) : Prop :=
  s.panicked = false → s.unguarded = false →
    pinned <+: s.blocks ∧ sealedHeight ≤ s.checkpoints.immutableHeight

/-- Unless a flag is set, the chain begins with these blocks and the height is remembered or
sealed by the table. -/
def Pinned (pinned : List Block) (sealedHeight : ℕ) (s : ChainState) : Prop :=
  s.panicked = false → s.unguarded = false →
    pinned <+: s.blocks ∧ (sealedHeight ≤ s.checkpoints.immutableHeight ∨
      s.checkpoints.db.Sealed s.height sealedHeight)

variable {env : ChainEnv} {pinned : List Block} {sealedHeight : ℕ} {s s' : ChainState}

theorem Remembered.toPinned (h : Remembered pinned sealedHeight s) : Pinned pinned sealedHeight s :=
  fun hpanicked hunguarded => (h hpanicked hunguarded).imp_right Or.inl

theorem Later.not_panicked (h : Later s s') (hpanicked : s'.panicked = false) :
    s.panicked = false := by
  by_contra hp
  rw [h.panicked (by simpa using hp)] at hpanicked
  cases hpanicked

theorem Later.not_unguarded (h : Later s s') (hunguarded : s'.unguarded = false) :
    s.unguarded = false := by
  by_contra hu
  rw [h.unguarded (by simpa using hu)] at hunguarded
  cases hunguarded

/-- A later state that still begins with the blocks. -/
theorem Remembered.later (h : Remembered pinned sealedHeight s) (hlater : Later s s')
    (hinitial : pinned <+: s.blocks → pinned <+: s'.blocks) :
    Remembered pinned sealedHeight s' := by
  grind [Remembered, hlater.not_panicked, hlater.not_unguarded, hlater.immutableHeight]

theorem Remembered.sameChain (h : Remembered pinned sealedHeight s) (hsame : SameChain s s') :
    Remembered pinned sealedHeight s' :=
  h.later hsame.later fun hinitial => hsame.blocks ▸ hinitial

theorem Pinned.sameChain (h : Pinned pinned sealedHeight s) (hsame : SameChain s s') :
    Pinned pinned sealedHeight s' := by
  grind [Pinned, hsame.panicked, hsame.unguarded, hsame.blocks, hsame.chain]

end Pinned

section Allow

variable {env : ChainEnv} {pinned : List Block} {sealedHeight : ℕ} {s : ChainState}

theorem later_allowAlternative (s : ChainState) (blockHeight : ℕ) :
    Later s (allowAlternative s blockHeight).1 := by
  refine ⟨fun hp => hp, fun hu => ?_, immutableHeight_le_allowed s.checkpoints s.height _⟩
  simp [allowAlternative, hu]

/-- What is allowed is above the remembered height, unless that was overlooked. -/
theorem lt_of_allowAlternative (h : (allowAlternative s blockHeight).2 = true)
    (hunguarded : (allowAlternative s blockHeight).1.unguarded = false) :
    (allowAlternative s blockHeight).1.checkpoints.immutableHeight < blockHeight := by
  cases hfirst : s.checkpoints.beforeFirst s.height with
  | false => exact immutableHeight_lt_of_allowed h hfirst
  | true =>
    grind [allowAlternative, Checkpoints.isAlternativeBlockAllowed]

/-- The first alternative block makes the node remember what is sealed. -/
theorem Pinned.allowAlternative (h : Pinned pinned sealedHeight s)
    (hblock : blockHeight ≠ 0) :
    Remembered pinned sealedHeight (Chain.allowAlternative s blockHeight).1 := by
  intro hpanicked hunguarded
  have hlater := later_allowAlternative s blockHeight
  obtain ⟨hblocks, hheight⟩ := h (hlater.not_panicked hpanicked) (hlater.not_unguarded hunguarded)
  refine ⟨hblocks, ?_⟩
  obtain hle | hsealed := hheight
  · exact hle.trans hlater.immutableHeight
  · exact hsealed.le_immutableHeight hblock

end Allow

section Assess

variable {env : ChainEnv} {pinned : List Block} {sealedHeight : ℕ} {s : ChainState}

/-- A branch leaves the chain above the remembered height, or it is a single block that claims
to be there. -/
def Anchored (s : ChainState) (altChain : List AltBlock) : Prop :=
  ∀ front ∈ altChain.head?,
    s.checkpoints.immutableHeight < heightAfter s front.block.prevId ∨
      altChain = [front] ∧ s.checkpoints.immutableHeight < getBlockHeight front.block

/-- The last block with the hash is not before the one that has it. -/
theorem le_heightAfter {id : Hash} {i : ℕ} {parent : MainBlock} (hparent : s.main[i]? = some parent)
    (hid : parent.block.hash = id) :
    i + 1 ≤ heightAfter s id := by
  by_contra hlt
  have hle : (s.main.rdropWhile fun entry => entry.block.hash ≠ id).length ≤ i := by
    rw [heightAfter] at hlt
    omega
  rw [← rdropWhile_append_rtakeWhile (p := fun entry => entry.block.hash ≠ id) (l := s.main),
    getElem?_append_right hle] at hparent
  have hne := mem_rtakeWhile_imp (mem_of_getElem? hparent)
  exact of_decide_eq_true hne hid

theorem main_allowAlternative (s : ChainState) (blockHeight : ℕ) :
    (allowAlternative s blockHeight).1.main = s.main := rfl

theorem dropBranch_ne_built (s : ChainState) (branch branch' : Branch) :
    (dropBranch s branch).2 ≠ .built branch' := by
  unfold dropBranch
  split <;> exact nofun

/-- A branch that could be built leaves the chain above the remembered height. -/
theorem buildAltChain_spec (s : ChainState) (prevId : Hash) :
    Later s (buildAltChain s prevId).1 ∧ (buildAltChain s prevId).1.main = s.main ∧
      ∀ branch, (buildAltChain s prevId).2 = .built branch →
        (buildAltChain s prevId).1.unguarded = false →
        branch.blocks = [] ∧ (buildAltChain s prevId).1 = s ∨
          ∃ front rest, branch.blocks = front :: rest ∧
            (buildAltChain s prevId).1.checkpoints.immutableHeight <
              heightAfter s front.block.prevId := by
  unfold buildAltChain
  dsimp only
  split
  · grind [Later.refl]
  · rename_i front rest hblocks
    split
    · exact ⟨Later.refl s, rfl, nofun⟩
    · rename_i parent hparent
      split_ifs at hparent with hzero
      split_ifs with hconnected
      · have hsame := sameChain_dropBranch s (walkBranch s s.alt.entries.length prevId {})
        exact ⟨hsame.later, by rw [hsame.chain],
          fun branch hbuilt => absurd hbuilt (dropBranch_ne_built _ _ branch)⟩
      · simp only [not_or, Bool.not_eq_true', Bool.not_eq_false, not_not] at hconnected
        have hlater := later_allowAlternative s front.height
        have hmain := main_allowAlternative s front.height
        split
        · rename_i s' hallow
          have hallowed := congrArg Prod.snd hallow
          rw [hallow] at hlater hmain
          refine ⟨hlater, hmain, fun branch hbuilt hunguarded => Or.inr ⟨front, rest, ?_⟩⟩
          cases hbuilt
          refine ⟨hblocks, ?_⟩
          have hlt := lt_of_allowAlternative hallowed (by rw [hallow]; exact hunguarded)
          rw [hallow] at hlt
          have hle := le_heightAfter hparent hconnected.2.2
          dsimp only at hlt ⊢
          omega
        · rename_i s' hallow
          rw [hallow] at hlater hmain
          have hsame := sameChain_dropBranch s' (walkBranch s s.alt.entries.length prevId {})
          grind [hsame.chain, hlater.trans, hsame.later, dropBranch_ne_built]

theorem storeAlternative_spec (env : ChainEnv) (s : ChainState) (b : Block)
    (checkpoint : Option Checkpoint) (branch : Branch) :
    SameChain s (storeAlternative env s b checkpoint branch).1 ∧
      ∀ w, (storeAlternative env s b checkpoint branch).2 = .weighed w →
        ∃ tip : AltBlock, tip.block = b ∧ w.branch.blocks = branch.blocks ++ [tip] := by
  obtain ⟨outcome, hsame⟩ | ⟨coins, -, -, hstored, hweighed⟩ :=
    storeAlternative_cases env s b checkpoint branch
  · rw [hsame]
    exact ⟨SameChain.refl s, nofun⟩
  · rw [hstored]
    exact ⟨⟨rfl, rfl, rfl⟩, fun w hw => ⟨_, rfl, congrArg Branch.blocks (hweighed w hw).1⟩⟩

theorem heightAfter_congr {s' : ChainState} (hmain : s'.main = s.main) (id : Hash) :
    heightAfter s' id = heightAfter s id := by
  rw [heightAfter, heightAfter, hmain]

/-- A block that claims the genesis height changes nothing. Any other one makes the node
remember, and a branch that comes to be compared is anchored. -/
theorem assessAlternative_spec (env : ChainEnv) (h : Pinned pinned sealedHeight s) (b : Block)
    (checkpoint : Option Checkpoint) :
    let result := assessAlternative env s b checkpoint
    (SameChain s result.1 ∧ ∃ outcome, result.2 = .finished outcome) ∨
      Remembered pinned sealedHeight result.1 ∧
        ∀ w, result.2 = .weighed w → result.1.unguarded = false →
          Anchored result.1 w.branch.blocks := by
  unfold assessAlternative
  dsimp only
  split_ifs with hzero
  · exact Or.inl ⟨SameChain.refl s, _, rfl⟩
  · right
    have hremembered := h.allowAlternative hzero
    split
    · rename_i s' hallow
      rw [hallow] at hremembered
      exact ⟨hremembered, nofun⟩
    · rename_i s' hallow
      rw [hallow] at hremembered
      split_ifs
      · exact ⟨hremembered, nofun⟩
      · exact ⟨hremembered, nofun⟩
      · obtain ⟨hlater, hmain, hanchor⟩ := buildAltChain_spec s' b.prevId
        have hbuilt := hremembered.later hlater fun hinitial => blocks_congr hmain ▸ hinitial
        split
        · rename_i s'' hbuild
          rw [hbuild] at hbuilt
          exact ⟨hbuilt, nofun⟩
        · rename_i s'' hbuild
          rw [hbuild] at hbuilt
          exact ⟨hbuilt, nofun⟩
        · rename_i s'' branch hbuild
          rw [hbuild] at hbuilt hmain hanchor
          obtain ⟨hsame, htip⟩ := storeAlternative_spec env s'' b checkpoint branch
          refine ⟨hbuilt.sameChain hsame, fun w hw hunguarded => ?_⟩
          rw [hsame.unguarded] at hunguarded
          obtain ⟨tip, rfl, hblocks⟩ := htip w hw
          rw [hblocks]
          intro front hfront
          obtain ⟨hnil, hstate⟩ | ⟨head, rest, hcons, hlt⟩ := hanchor branch rfl hunguarded
          · rw [hnil, nil_append, head?_cons] at hfront
            obtain rfl := Option.some.inj hfront
            refine Or.inr ⟨by rw [hnil, nil_append], ?_⟩
            have hallowed := lt_of_allowAlternative (congrArg Prod.snd hallow)
              (by rw [hallow]; exact hstate ▸ hunguarded)
            rw [hallow] at hallowed
            rw [hsame.chain, show s'' = s' from hstate]
            exact hallowed
          · rw [hcons, cons_append, head?_cons] at hfront
            obtain rfl := Option.some.inj hfront
            refine Or.inl ?_
            rw [heightAfter_congr ((congrArg Blockchain.main hsame.chain).trans hmain), hsame.chain]
            exact hlt

end Assess

section Switch

variable {env : ChainEnv} {pinned : List Block} {sealedHeight : ℕ} {s : ChainState}

theorem blocks_detachTo (s : ChainState) (height : ℕ) :
    (detachTo s height).blocks = s.blocks.take height := by
  simp [detachTo, ChainState.blocks]

theorem later_detachTo (s : ChainState) (height : ℕ) : Later s (detachTo s height) :=
  ⟨id, id, le_refl _⟩

theorem heightAfter_le (s : ChainState) (id : Hash) : heightAfter s id ≤ s.main.length :=
  ( rdropWhile_prefix _ s.main).length_le

theorem height_detachTo {height : ℕ} (hle : height ≤ s.main.length) :
    (detachTo s height).height = height := by
  simp only [detachTo, Blockchain.height, length_take]
  omega

theorem fst_disconnectedFrom (s : ChainState) (height : ℕ) :
    (disconnectedFrom s height).map Prod.fst = s.blocks.drop height := by
  simp [disconnectedFrom, ChainState.blocks, Function.comp_def]

theorem rollback_spec (env : ChainEnv) (s : ChainState)
    (originalChain : List (Block × Option Checkpoint)) (height : ℕ) :
    let back := rollbackBlockchainSwitching env s originalChain height
    Later s back ∧ s.blocks.take height <+: back.blocks ∧
      (s.height < height ∨ back.panicked = true ∨
        back.blocks = s.blocks.take height ++ originalChain.map Prod.fst) := by
  unfold rollbackBlockchainSwitching
  split_ifs with hlow
  · exact ⟨Later.refl s, take_prefix _ _, Or.inl hlow⟩
  · obtain ⟨hlater, hinitial, hrestored⟩ := restore_spec env (detachTo s height) originalChain
    rw [blocks_detachTo] at hinitial hrestored
    exact ⟨(later_detachTo s height).trans hlater, hinitial, Or.inr hrestored⟩

/-- After the old blocks have been popped the pinned ones are still there, or the branch is a
single block that is refused. -/
theorem detach_spec (env : ChainEnv) {front : AltBlock} {split : ℕ}
    (hblocks : pinned <+: s.blocks) (hle : sealedHeight ≤ s.checkpoints.immutableHeight)
    (hlength : pinned.length ≤ sealedHeight + 1) (hanchor : Anchored s altChain)
    (hfront : altChain.head? = some front) (hheight : heightAfter s front.block.prevId = split) :
    pinned <+: s.blocks.take split ∨ (connect env (detachTo s split) altChain).2 = altChain ∧
        (connect env (detachTo s split) altChain).1.main = (detachTo s split).main := by
  by_cases hsplit : pinned.length ≤ split
  · exact Or.inl (prefix_take_iff.mpr ⟨hblocks, hsplit⟩)
  · right
    obtain hlt | ⟨-, hclaimed⟩ := hanchor front hfront
    · exact absurd (show pinned.length ≤ split by omega) hsplit
    · refine (connect_spec env (detachTo s split) altChain).2.2 front hfront ?_
      rw [height_detachTo (hheight ▸ heightAfter_le s _)]
      omega

theorem fst_finishSwitch (handle : ChainState → Block → Option Checkpoint → ChainState × Outcome)
    (s : ChainState) (altChain : List AltBlock) (disconnected : List (Block × Option Checkpoint))
    (keep : Bool) :
    (finishSwitch handle s altChain disconnected keep).1 =
      match if keep then pushDisconnected handle s disconnected else (s, true) with
      | (s, false) => s
      | (s, true) => (removeAltBlocks s (altChain.map fun entry => entry.block.hash)).1 := by
  grind [finishSwitch]

variable {handle : ChainState → Block → Option Checkpoint → ChainState × Outcome}
  (hhandle : ∀ s b checkpoint, Remembered pinned sealedHeight s →
    Remembered pinned sealedHeight (handle s b checkpoint).1)

include hhandle in
/-- The blocks of the old chain are handled one after the other. -/
theorem Remembered.pushDisconnected (h : Remembered pinned sealedHeight s)
    (disconnected : List (Block × Option Checkpoint)) :
    Remembered pinned sealedHeight (Chain.pushDisconnected handle s disconnected).1 := by
  induction disconnected generalizing s with
  | nil => exact h
  | cons entry rest ih =>
    grind [Chain.pushDisconnected]

include hhandle in
theorem Remembered.finishSwitch (h : Remembered pinned sealedHeight s) (altChain : List AltBlock)
    (disconnected : List (Block × Option Checkpoint)) (keep : Bool) :
    Remembered pinned sealedHeight (Chain.finishSwitch handle s altChain disconnected keep).1 := by
  have hpushed : Remembered pinned sealedHeight
      (if keep then Chain.pushDisconnected handle s disconnected else (s, true)).1 := by
    split_ifs
    · exact h.pushDisconnected hhandle disconnected
    · exact h
  grind [fst_finishSwitch, hpushed.sameChain, sameChain_removeAltBlocks]

include hhandle in
/-- A switch, also one that fails, leaves the pinned blocks. -/
theorem Remembered.switch (hlength : pinned.length ≤ sealedHeight + 1)
    (h : Remembered pinned sealedHeight s) (hanchor : s.unguarded = false → Anchored s altChain)
    (keep : Bool) :
    Remembered pinned sealedHeight
      (switchToAlternativeBlockchain env handle s altChain keep).1 := by
  unfold switchToAlternativeBlockchain
  split
  · exact h
  · rename_i front tail
    split_ifs with hexists
    · exact h
    · dsimp only
      have hle := heightAfter_le s front.block.prevId
      obtain ⟨split, hsplit⟩ : ∃ split, heightAfter s front.block.prevId = split := ⟨_, rfl⟩
      rw [hsplit] at hle ⊢
      have hdetach := fun hpanicked hunguarded => detach_spec env (h hpanicked hunguarded).1
        (h hpanicked hunguarded).2 hlength (hanchor hunguarded) rfl hsplit
      obtain ⟨hconnect, hinitial, -⟩ := connect_spec env (detachTo s split) (front :: tail)
      have hlater := (later_detachTo s split).trans hconnect
      rw [blocks_detachTo] at hinitial
      split
      · rename_i s' failed rest hconnected
        rw [hconnected] at hlater hinitial hdetach
        refine Remembered.sameChain ?_ (sameChain_discardFailed _ failed rest)
        obtain ⟨hback, htake, hrestored⟩ := rollback_spec env s' (disconnectedFrom s split) split
        have hlater' := hlater.trans hback
        intro hpanicked hunguarded
        have hpanicked' := hlater'.not_panicked hpanicked
        have hunguarded' := hlater'.not_unguarded hunguarded
        obtain ⟨hblocks, hheight⟩ := h hpanicked' hunguarded'
        refine ⟨?_, hheight.trans hlater'.immutableHeight⟩
        obtain hkept | ⟨-, hmain⟩ := hdetach hpanicked' hunguarded'
        · have hshort : pinned.length ≤ split := hkept.length_le.trans (length_take_le _ _)
          exact (prefix_take_iff.mpr ⟨hkept.trans hinitial, hshort⟩).trans htake
        · -- The block was refused, and the chain is what it was before the pops.
          grind [detachTo, ChainState.blocks, Blockchain.height, fst_disconnectedFrom,
            take_append_drop]
      · grind [Remembered, Remembered.finishSwitch, hlater.not_panicked, hlater.not_unguarded,
          hlater.immutableHeight]

/-- An alternative block leaves the pinned blocks, and changes nothing or makes the node
remember. The induction is on how deep the switch calls this again. -/
theorem handleAlternativeBlock_spec (hlength : pinned.length ≤ sealedHeight + 1) (depth : ℕ)
    (s : ChainState) (b : Block) (checkpoint : Option Checkpoint)
    (h : Pinned pinned sealedHeight s) :
    SameChain s (handleAlternativeBlock env depth s b checkpoint).1 ∨
      Remembered pinned sealedHeight (handleAlternativeBlock env depth s b checkpoint).1 := by
  induction depth generalizing s b checkpoint with
  | zero => exact Or.inl (SameChain.refl s)
  | succ depth ih =>
    have hcounted : SameChain s { s with calls := s.calls + 1 } := ⟨rfl, rfl, rfl⟩
    have hassess := assessAlternative_spec env (h.sameChain hcounted) b checkpoint
    have hhandle : ∀ s b checkpoint, Remembered pinned sealedHeight s →
        Remembered pinned sealedHeight (handleAlternativeBlock env depth s b checkpoint).1 := by
      intro s b checkpoint hs
      obtain hsame | hremembered := ih s b checkpoint hs.toPinned
      · exact hs.sameChain hsame
      · exact hremembered
    unfold handleAlternativeBlock
    split
    · rename_i s' outcome hresult
      rw [hresult] at hassess
      exact hassess.imp (fun hsame => hcounted.trans hsame.1) And.left
    · rename_i s' w hresult
      rw [hresult] at hassess
      obtain ⟨-, outcome, hfinished⟩ | ⟨hremembered, hanchor⟩ := hassess
      · cases hfinished
      · right
        split_ifs
        · exact hremembered.switch hhandle hlength (hanchor w rfl) _
        · exact hremembered

end Switch

section Run

/-- What the guarantee does not cover. Votes may pop blocks from version 17 on, and those that pop
an immutable one are left out; so is a checkpoint with signatures in the place of a hard-coded one,
and a block that the hooks refuse at the height of a stored checkpoint. -/
def calm (env : ChainEnv) (s : ChainState) : ChainEvent → Bool
  | .vote checkpoint =>
    !s.checkpoints.db.overwrites checkpoint &&
      (!(s.contradicts checkpoint && 17 ≤ env.currentVersion s.main) ||
        (s.checkpoints.immutableHeight < checkpoint.height &&
          (s.checkpoints.db.getImmutableCheckpoint s.height).all fun immutable =>
            s.height < immutable.height || immutable.height < checkpoint.height))
  | .deliver b checkpoint =>
    if s.haveBlock b.hash || s.tailId ≠ some b.prevId then true
    else
      match mainOutcome env s b (usableCheckpoint s b checkpoint) with
      | .added => (usableCheckpoint s b checkpoint).all fun attached =>
          !s.checkpoints.db.overwrites attached
      | .aborted => (s.getCheckpoint s.height).isNone
      | _ => true

def calmRun (env : ChainEnv) (depth : ℕ) : ChainState → List ChainEvent → Bool
  | _, [] => true
  | s, event :: events => calm env s event && calmRun env depth (s.step env depth event) events

variable {env : ChainEnv} {pinned : List Block} {sealedHeight : ℕ} {s : ChainState}

theorem Pinned.added (h : Pinned pinned sealedHeight s)
    (houtcome : mainOutcome env s b checkpoint = .added)
    (hover : ∀ attached ∈ checkpoint, s.checkpoints.db.overwrites attached = false) :
    Pinned pinned sealedHeight (handleBlockToMainChain env s b checkpoint).1 := by
  have hheight := (mainOutcome_added houtcome).2
  unfold handleBlockToMainChain
  simp only [houtcome]
  intro hpanicked hunguarded
  obtain ⟨hblocks, hsealed⟩ := h hpanicked hunguarded
  refine ⟨?_, hsealed.imp (fun hle => ?_) fun hsealed => ?_⟩
  · rw [ChainState.blocks, map_append]
    exact hblocks.trans (prefix_append _ _)
  · rw [immutableHeight_blockAdded]
    exact hle
  · rw [Blockchain.height, length_append]
    exact hsealed.blockAdded hheight hover

/-- A block that was taken back, with no checkpoint at its height. -/
theorem Pinned.aborted (h : Pinned pinned sealedHeight s)
    (houtcome : mainOutcome env s b checkpoint = .aborted)
    (hnone : s.getCheckpoint s.height = none) :
    Pinned pinned sealedHeight (handleBlockToMainChain env s b checkpoint).1 := by
  unfold handleBlockToMainChain
  simp only [houtcome]
  intro hpanicked hunguarded
  grind [Checkpoints.blockchainDetached, Blockchain.height, Blockchain.getCheckpoint, Pinned,
    ChainState.blocks, CheckpointTable.Sealed, OrderedTable.find?_eq_none.mp,
    mem_blockchainDetached_of_lt]

theorem Pinned.handleBlockToMainChain (h : Pinned pinned sealedHeight s)
    (hadded : mainOutcome env s b checkpoint = .added →
      ∀ attached ∈ checkpoint, s.checkpoints.db.overwrites attached = false)
    (haborted : mainOutcome env s b checkpoint = .aborted → s.getCheckpoint s.height = none) :
    Pinned pinned sealedHeight (Chain.handleBlockToMainChain env s b checkpoint).1 := by
  cases houtcome : mainOutcome env s b checkpoint with
  | refused =>
    refine h.sameChain ?_
    simp only [Chain.handleBlockToMainChain, houtcome]
    exact ⟨rfl, rfl, rfl⟩
  | wrongInputs =>
    refine h.sameChain ?_
    simp only [Chain.handleBlockToMainChain, houtcome]
    exact ⟨rfl, rfl, rfl⟩
  | aborted => exact h.aborted houtcome (haborted houtcome)
  | added => exact h.added houtcome (hadded houtcome)

theorem Pinned.deliver (hlength : pinned.length ≤ sealedHeight + 1)
    (h : Pinned pinned sealedHeight s) (depth : ℕ)
    (hcalm : calm env s (.deliver b checkpoint) = true) :
    Pinned pinned sealedHeight (addNewBlock env depth s b checkpoint).1 := by
  unfold addNewBlock
  dsimp only
  by_cases hhave : s.haveBlock b.hash = true
  · rw [if_pos hhave]
    exact h
  · rw [if_neg hhave]
    by_cases htail : s.tailId = some b.prevId
    · rw [if_pos htail]
      simp only [calm, hhave, htail, Bool.false_or, ne_eq, not_true_eq_false, decide_false,
        Bool.false_eq_true, if_false] at hcalm
      refine h.handleBlockToMainChain (fun hadded attached hattached => ?_) fun haborted => ?_
      · rw [hadded, Option.mem_def.mp hattached] at hcalm
        simpa using hcalm
      · rw [haborted] at hcalm
        exact Option.isNone_iff_eq_none.mp hcalm
    · rw [if_neg htail]
      obtain hsame | hremembered := handleAlternativeBlock_spec hlength depth s b
        (usableCheckpoint s b checkpoint) h
      · exact h.sameChain hsame
      · exact hremembered.toPinned

/-- A vote that pops blocks does so above the immutable checkpoint and puts another one on top. -/
theorem Pinned.popped (hlength : pinned.length ≤ sealedHeight + 1)
    (h : Pinned pinned sealedHeight s) {checkpoint : Checkpoint}
    (hcontradicts : s.contradicts checkpoint = true)
    (hremembered : s.checkpoints.immutableHeight < checkpoint.height)
    (himmutable : ∀ immutable ∈ s.checkpoints.db.getImmutableCheckpoint s.height,
      immutable.height ≤ s.height → immutable.height < checkpoint.height) :
    let popped := s.popBlocks (s.height - checkpoint.height)
    Pinned pinned sealedHeight { s with
      main := popped.main
      checkpoints := popped.checkpoints.updateCheckpoint checkpoint } := by
  have hlt := Blockchain.lt_height_of_contradicts hcontradicts
  have hheight : s.height - min (s.height - checkpoint.height) (s.height - 1) =
      checkpoint.height := by omega
  intro popped
  have hmain : popped.main = s.main.take checkpoint.height := by
    simp only [popped, Blockchain.popBlocks, hheight]
  have hlow : popped.main.length = checkpoint.height := by
    rw [hmain, length_take]
    exact min_eq_left hlt.le
  intro hpanicked hunguarded
  obtain ⟨hblocks, hsealed⟩ := h hpanicked hunguarded
  have hbelow : sealedHeight < checkpoint.height := by
    obtain hle | hsealed := hsealed
    · exact hle.trans_lt hremembered
    · obtain ⟨immutable, hsome, hle, hile⟩ := hsealed.exists_immutable
      exact hle.trans_lt (himmutable immutable hsome hile)
  refine ⟨?_, hsealed.imp_right fun hsealed => ?_⟩
  · rw [ChainState.blocks, hmain, map_take]
    exact prefix_take_iff.mpr ⟨hblocks, by omega⟩
  · obtain ⟨immutable, hsome, hle, hile⟩ := hsealed.exists_immutable
    have hilt := himmutable immutable hsome hile
    have hrow : immutable ∈ popped.checkpoints.db.rows := by
      refine mem_blockchainDetached_of_lt (mem_of_getImmutableCheckpoint hsome) ?_
      exact hlow.symm ▸ hilt
    refine ⟨immutable, OrderedTable.mem_put.mpr (Or.inr ⟨hrow, ?_⟩), hle, ?_, Or.inr
      ⟨checkpoint.readBack, OrderedTable.mem_put.mpr (Or.inl rfl), hilt, ?_⟩⟩
    · exact hilt.ne
    · rw [Blockchain.height, hlow]
      exact hilt.le
    · rw [Blockchain.height, hlow, Checkpoint.readBack_height]

theorem Pinned.vote (hlength : pinned.length ≤ sealedHeight + 1) (h : Pinned pinned sealedHeight s)
    {checkpoint : Checkpoint} (hcalm : calm env s (.vote checkpoint) = true) :
    Pinned pinned sealedHeight { s with
      toBlockchain := (s.toBlockchain.updateCheckpoint env.currentVersion checkpoint).1 } := by
  simp only [calm, Bool.and_eq_true, Bool.not_eq_true', Bool.or_eq_true, decide_eq_true_eq]
    at hcalm
  obtain ⟨hover, hpops⟩ := hcalm
  unfold Blockchain.updateCheckpoint
  by_cases hpop : (s.contradicts checkpoint && 17 ≤ env.currentVersion s.main) = true
  · rw [if_pos hpop]
    by_cases hzero : checkpoint.height = 0
    · rw [if_pos hzero]
      exact h
    · rw [if_neg hzero]
      rw [hpop] at hpops
      obtain ⟨hremembered, hall⟩ := hpops.resolve_left (by simp)
      refine h.popped hlength (Bool.and_eq_true_iff.mp hpop).1 hremembered ?_
      intro immutable hsome hle
      rw [Option.mem_def.mp hsome] at hall
      simp only [Option.all_some, Bool.or_eq_true, decide_eq_true_eq] at hall
      omega
  · rw [if_neg hpop]
    intro hpanicked hunguarded
    obtain ⟨hblocks, hsealed⟩ := h hpanicked hunguarded
    exact ⟨hblocks, hsealed.imp_right fun hsealed => hsealed.update hover⟩

theorem Pinned.step (hlength : pinned.length ≤ sealedHeight + 1) (h : Pinned pinned sealedHeight s)
    (depth : ℕ) (event : ChainEvent) (hcalm : calm env s event = true) :
    Pinned pinned sealedHeight (s.step env depth event) := by
  cases event with
  | deliver b checkpoint => exact h.deliver hlength depth hcalm
  | vote checkpoint => exact h.vote hlength hcalm

theorem Pinned.after (hlength : pinned.length ≤ sealedHeight + 1) (h : Pinned pinned sealedHeight s)
    (depth : ℕ) (events : List ChainEvent) (hcalm : calmRun env depth s events = true) :
    Pinned pinned sealedHeight (s.after env depth events) := by
  induction events generalizing s <;> grind [calmRun, ChainState.after, h.step]

/-- The blocks up to an immutable checkpoint stay through every later delivery and vote. -/
theorem immutable_blocks_stay (env : ChainEnv) (depth : ℕ) (s : ChainState)
    (immutable : Checkpoint) (events : List ChainEvent)
    (himmutable : s.checkpoints.db.getImmutableCheckpoint s.height = some immutable)
    (hheight : immutable.height ≤ s.height) (hcalm : calmRun env depth s events = true)
    (hpanicked : (s.after env depth events).panicked = false)
    (hunguarded : (s.after env depth events).unguarded = false) :
    s.blocks.take (immutable.height + 1) <+: (s.after env depth events).blocks := by
  have hpinned : Pinned (s.blocks.take (immutable.height + 1)) immutable.height s :=
    fun _ _ => ⟨ take_prefix _ _,
      Or.inr (sealed_of_getImmutableCheckpoint himmutable hheight)⟩
  have hlength : (s.blocks.take (immutable.height + 1)).length ≤ immutable.height + 1 :=
    length_take_le _ _
  exact (hpinned.after hlength depth events hcalm hpanicked hunguarded).1

end Run

section Sample

def childBlock (majorVersion height : ℕ) (prevId hash : Hash) : Block :=
  { sampleBlock majorVersion height with prevId, hash }

/-- A chain whose blocks have their heights as hashes. -/
def sampleChain (majorVersion height : ℕ) (table : CheckpointTable) : ChainState where
  main := (List.range height).map fun h =>
    { block := childBlock majorVersion h (BitVec.ofNat 256 (h - 1)) (BitVec.ofNat 256 h)
      cumulativeDifficulty := h
      alreadyGeneratedCoins := UInt64.ofNat h }
  checkpoints := { db := table }

/-- Everything passes, but the hooks refuse one block. -/
def sampleEnv (version : ℕ) (unwanted : Option Hash) : ChainEnv where
  currentVersion _ := version
  difficultyForNextBlock _ := 1
  nextDifficultyForAlternativeChain _ _ _ := 1
  headerOk _ _ := true
  body _ _ := .accepted
  baseReward _ _ := 0
  blockAddedHooks _ b _ := some b.hash ≠ unwanted
  altVersionOk _ _ := true
  altHeaderOk _ _ := true
  altBlockAddedHooks _ _ _ := true

/-- The chain with checkpoints of the service nodes at heights 8 and 12. -/
def votedChain (height : ℕ) : ChainState :=
  (sampleChain 17 height OrderedTable.empty).after (sampleEnv 17 none) 3
    [.vote (signedCheckpoint 8 8), .vote (signedCheckpoint 12 12)]

/-- After the events an alternative block with a checkpoint is handled, and a block at or below
the checkpoint that was immutable before them is gone, without a failed rollback. -/
def losesImmutable (env : ChainEnv) (s : ChainState) (events : List ChainEvent) (b : Block) :
    Bool :=
  let s' := (handleAlternativeBlock env 3 (s.after env 3 events) b
    (some (signedCheckpoint (getBlockHeight b) b.hash))).1
  !s'.panicked && (s.checkpoints.db.getImmutableCheckpoint s.height).any fun immutable =>
    !(s.blocks.take (immutable.height + 1)).isPrefixOf s'.blocks

theorem immutable_blocks_stay_sample :
    (votedChain 14).blocks.take 9 <+: ((votedChain 14).after (sampleEnv 17 none) 3
      [.deliver (childBlock 17 10 9 1010) (some (signedCheckpoint 10 1010)),
        .deliver (childBlock 17 11 1010 1011) none, .vote (signedCheckpoint 12 1012)]).blocks :=
  immutable_blocks_stay (sampleEnv 17 none) 3 (votedChain 14) (signedCheckpoint 8 8) _
    (by decide +kernel) (by decide +kernel) (by decide +kernel) (by decide +kernel)
    (by decide)

/-- An immutable checkpoint above the chain; votes for another block; a signed checkpoint in the
place of a hard-coded one; a block refused by a hook at the height of a checkpoint; a block of a
wrong height, whose rollback brings the blocks back but not the checkpoint. -/
theorem immutable_blocks_lost :
    losesImmutable (sampleEnv 17 none) (sampleChain 17 6 (hardcodedTable 100)) []
        (childBlock 17 4 3 1004) = true ∧
      losesImmutable (sampleEnv 17 none) (votedChain 14) [.vote (signedCheckpoint 8 1008)]
        (childBlock 17 4 3 1004) = true ∧
      losesImmutable (sampleEnv 17 none) (sampleChain 17 14 (hardcodedTable 8))
        [.vote (signedCheckpoint 8 8)] (childBlock 17 4 3 1004) = true ∧
      losesImmutable (sampleEnv 17 (some 12)) (votedChain 12)
        [.deliver (childBlock 17 12 11 12) none] (childBlock 17 4 3 1004) = true ∧
      losesImmutable (sampleEnv 17 none) (sampleChain 17 14 (hardcodedTable 8))
        [.deliver (childBlock 17 12 7 1012) (some (signedCheckpoint 12 1012))]
        (childBlock 17 8 7 1008) = true := by
  decide

end Sample

end Arqma.Chain
