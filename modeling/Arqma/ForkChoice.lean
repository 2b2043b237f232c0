import Arqma.AltStore

/-!
# The choice between two chains

From version 16 on checkpoints come before work. The branch should count the blocks that carry a
checkpoint or are named by a stored one, and the main chain the heights above the split whose
checkpoint names its block. The two counters of the source count something else; their difference
is off by an amount that is stated here, and the choice is the right one exactly when that amount
does not turn it.
-/
namespace Arqma.Chain
open Arqma.Cryptonote Arqma.ServiceNodes AltBlock

variable (table : CheckpointTable) {checkpoint : Option Checkpoint} {env : ChainEnv}
  {s : ChainState} {w : Weighed}

section Counts

variable (table : CheckpointTable)

def AltBlock.checkpointed (entry : AltBlock) : Bool := entry.checkpoint.isSome

/-- A stored checkpoint names the block. -/
def AltBlock.named (entry : AltBlock) : Bool :=
  (table.find? entry.height).any fun stored => stored.check entry.block.hash

/-- The stored checkpoint at the height of the block names another one. -/
def AltBlock.contradicted (entry : AltBlock) : Bool :=
  (table.find? entry.height).any fun stored => !stored.check entry.block.hash

/-- Named by a stored checkpoint only. -/
def AltBlock.onlyNamed (entry : AltBlock) : Bool := entry.named table && !entry.checkpointed

def branchCheckpoints (blocks : List AltBlock) : ℕ :=
  blocks.countP fun entry => entry.checkpointed || entry.named table

/-- The heights above the split whose checkpoint names the block of the main chain and none of the
branch. -/
def mainChainCheckpoints (s : ChainState) (blocks : List AltBlock) : ℕ :=
  let split := match blocks.head? with
    | some front => heightAfter s front.block.prevId
    | none => s.height
  (List.range' split (s.height - split)).countP fun height =>
    (s.getCheckpoint height).any fun stored =>
      (s.main[height]?.any fun entry => stored.check entry.block.hash) &&
        blocks.all fun entry => !stored.check entry.block.hash

/-- The choice as it should be. -/
def prefersBranch (s : ChainState) (blocks : List AltBlock) (greaterPow : Bool) : Bool :=
  let alt := branchCheckpoints s.checkpoints.db blocks
  let main := mainChainCheckpoints s blocks
  main < alt || (alt = main && greaterPow)

/-- The stored blocks from a block back to the main chain, as they were stored. -/
def storedBranch (s : ChainState) : ℕ → Hash → List AltBlock
  | 0, _ => []
  | fuel + 1, id =>
    match s.alt.lookup id with
    | none => []
    | some data => storedBranch s fuel data.block.prevId ++ [data]

/-- The branch that a new block ends. -/
def candidate (s : ChainState) (b : Block) (checkpoint : Option Checkpoint) : List AltBlock :=
  storedBranch s s.alt.entries.length b.prevId ++
    [{ block := b, height := getBlockHeight b, cumulativeDifficulty := 0, checkpoint }]

/-- How far the difference of the counters of the source is off. A named block that is not the tip
is missed for the branch and counted for the main chain, a named tip is missed; and for the main
chain every contradicted block is counted instead. -/
def miscount (s : ChainState) (blocks : List AltBlock) : ℤ :=
  mainChainCheckpoints s blocks - blocks.countP (AltBlock.contradicted s.checkpoints.db) -
    2 * blocks.dropLast.countP (AltBlock.onlyNamed s.checkpoints.db) -
    (blocks.getLast?.toList.countP (AltBlock.onlyNamed s.checkpoints.db))

end Counts

section Walk

variable {s : ChainState}

theorem altCheckpoints_extend (branch : Branch) (data : AltBlock) :
    (branch.extend table data).altCheckpoints =
      branch.altCheckpoints + if data.checkpointed then 1 else 0 := by
  unfold Branch.extend checkpointed
  dsimp only
  split
  · rfl
  · split_ifs <;> rfl

theorem mainCheckpoints_extend (branch : Branch) (data : AltBlock) :
    (branch.extend table data).mainCheckpoints = branch.mainCheckpoints +
      if data.contradicted table || data.onlyNamed table then 1 else 0 := by
  unfold Branch.extend contradicted onlyNamed named
    checkpointed
  cases table.find? data.height <;> grind

theorem walkBranch_counts (s : ChainState) (fuel : ℕ) (id : Hash) (branch : Branch) :
    (walkBranch s fuel id branch).altCheckpoints = branch.altCheckpoints +
        (storedBranch s fuel id).countP checkpointed ∧
      (walkBranch s fuel id branch).mainCheckpoints = branch.mainCheckpoints +
        (storedBranch s fuel id).countP fun entry =>
          entry.contradicted s.checkpoints.db || entry.onlyNamed s.checkpoints.db := by
  induction fuel generalizing id branch <;> grind [walkBranch, storedBranch, altCheckpoints_extend,
    mainCheckpoints_extend]

end Walk

section Choice

theorem countP_or_of_disjoint {α : Type*} {p q : α → Bool} (h : ∀ a, p a = true → q a = false)
    (l : List α) : (l.countP fun a => p a || q a) = l.countP p + l.countP q := by
  induction l with
  | nil => rfl
  | cons a l ih =>
    simp only [List.countP_cons, ih]
    cases hp : p a with
    | false =>
      simp only [Bool.false_or, Bool.false_eq_true, if_false]
      omega
    | true =>
      simp only [h a hp, Bool.true_or, Bool.false_eq_true, if_true, if_false]
      omega

theorem branchCheckpoints_eq (blocks : List AltBlock) : branchCheckpoints table blocks =
      blocks.countP checkpointed + blocks.countP (onlyNamed table) := by
  rw [← countP_or_of_disjoint, branchCheckpoints]
  · congr 1
    funext entry
    simp only [onlyNamed]
    cases entry.checkpointed <;> simp
  · intro entry hentry
    simp [onlyNamed, hentry]

theorem contradicted_not_onlyNamed (entry : AltBlock) (h : entry.contradicted table = true) :
    entry.onlyNamed table = false := by
  unfold contradicted at h
  unfold onlyNamed named
  cases hstored : table.find? entry.height <;> grind

/-- What the counters of the source hold when the comparison is made. -/
theorem assessAlternative_counts {b : Block}
    (hweighed : (assessAlternative env s b checkpoint).2 = .weighed w) :
    w.branch.altCheckpoints = (candidate s b checkpoint).countP checkpointed ∧
      w.branch.mainCheckpoints = (candidate s b checkpoint).countP (contradicted s.checkpoints.db) +
          (candidate s b checkpoint).dropLast.countP (onlyNamed s.checkpoints.db) := by
  obtain ⟨s', hsame, hstore, -⟩ | ⟨-, outcome, hfinished⟩ :=
    assessAlternative_cases env s b checkpoint
  · rw [hstore] at hweighed
    obtain ⟨outcome, hfinished⟩ | ⟨coins, -, -, -, hbranch⟩ :=
      storeAlternative_cases env s' b checkpoint (s.branchTo b.prevId)
    · rw [hfinished] at hweighed
      cases hweighed
    · obtain ⟨halt, hmain⟩ := walkBranch_counts s s.alt.entries.length b.prevId {}
      rw [← ChainState.branchTo] at halt hmain
      rw [countP_or_of_disjoint (contradicted_not_onlyNamed s.checkpoints.db)] at hmain
      rw [(hbranch w hweighed).1, hsame.db]
      simp only [Branch.withTip, newAltBlock, candidate, List.dropLast_concat,
        List.countP_append, List.countP_singleton]
      refine ⟨by rw [halt, zero_add]; rfl, ?_⟩
      rw [hmain, zero_add, Nat.add_right_comm]
      rfl
  · rw [hfinished] at hweighed
    cases hweighed

theorem counters_difference {b : Block}
    (hweighed : (assessAlternative env s b checkpoint).2 = .weighed w) :
    (w.branch.altCheckpoints : ℤ) - w.branch.mainCheckpoints =
      branchCheckpoints s.checkpoints.db (candidate s b checkpoint) -
        mainChainCheckpoints s (candidate s b checkpoint) +
        miscount s (candidate s b checkpoint) := by
  obtain ⟨halt, hmain⟩ := assessAlternative_counts hweighed
  grind [branchCheckpoints_eq, miscount, candidate]

/-- Every block of the branch that a stored checkpoint names carries its own, and the blocks that
one contradicts are as many as the checkpoints of the main chain. -/
structure CountedRightly (s : ChainState) (blocks : List AltBlock) : Prop where
  carried : ∀ entry ∈ blocks, entry.onlyNamed s.checkpoints.db = false
  contradicted : blocks.countP (contradicted s.checkpoints.db) = mainChainCheckpoints s blocks

theorem CountedRightly.miscount_eq_zero {blocks : List AltBlock} (h : CountedRightly s blocks) :
    miscount s blocks = 0 := by
  have hnone : ∀ l : List AltBlock, (∀ entry ∈ l, entry ∈ blocks) →
      l.countP (onlyNamed s.checkpoints.db) = 0 := fun l hl =>
    List.countP_eq_zero.mpr fun entry hentry => by simp [h.carried entry (hl entry hentry)]
  have htip : ∀ entry ∈ blocks.getLast?.toList, entry ∈ blocks := fun entry hentry =>
    List.mem_of_getLast? (Option.mem_toList.mp hentry)
  rw [miscount, h.contradicted, hnone _ fun _ => List.mem_of_mem_dropLast, hnone _ htip]
  simp

/-- The source attempts the switch when it should if the checkpoints are counted rightly, and
otherwise exactly if the lead of the branch lies outside the window between zero and the
miscount. -/
theorem fork_choice_agrees_iff (env : ChainEnv) (s : ChainState) (b : Block)
    (checkpoint : Option Checkpoint) (w : Weighed) (hversion : 16 ≤ b.majorVersion)
    (hweighed : (assessAlternative env s b checkpoint).2 = .weighed w) :
    let blocks := candidate s b checkpoint
    let lead : ℤ := branchCheckpoints s.checkpoints.db blocks - mainChainCheckpoints s blocks
    let missed : ℤ := -miscount s blocks
    (CountedRightly s blocks →
      attemptsSwitch b.majorVersion w = prefersBranch s blocks w.greaterPow) ∧
      (attemptsSwitch b.majorVersion w = prefersBranch s blocks w.greaterPow ↔
        if w.greaterPow then lead ∉ Set.Ico 0 missed ∧ lead ∉ Set.Ico missed 0
        else lead ∉ Set.Ioc 0 missed ∧ lead ∉ Set.Ioc missed 0) := by
  intro blocks lead missed
  have hdifference : (w.branch.altCheckpoints : ℤ) - w.branch.mainCheckpoints =
      lead + miscount s blocks := counters_difference hweighed
  have hiff : attemptsSwitch b.majorVersion w = prefersBranch s blocks w.greaterPow ↔
      if w.greaterPow then lead ∉ Set.Ico 0 missed ∧ lead ∉ Set.Ico missed 0
      else lead ∉ Set.Ioc 0 missed ∧ lead ∉ Set.Ioc missed 0 := by
    rw [attemptsSwitch, if_pos hversion, prefersBranch]
    simp only [Weighed.moreCheckpoints, Weighed.equalCheckpoints]
    rw [Bool.eq_iff_iff]
    cases w.greaterPow with
    | false =>
      simp only [Bool.false_and, Bool.and_false, Bool.or_false, decide_eq_true_eq,
        Bool.false_eq_true, if_false, Set.mem_Ioc]
      omega
    | true =>
      simp only [Bool.true_and, Bool.and_true, Bool.or_eq_true, decide_eq_true_eq, if_true,
        Set.mem_Ico]
      omega
  refine ⟨fun hright => hiff.mpr ?_, hiff⟩
  have hzero : missed = 0 := neg_eq_zero.mpr hright.miscount_eq_zero
  rw [hzero]
  split_ifs <;> simp

/-- At version 16 the vote for a block 12 is stored and the main chain is kept. -/
def votedFor (hash : Hash) : ChainState :=
  (sampleChain 16 14 OrderedTable.empty).after (sampleEnv 16 none) 3
    [.vote (signedCheckpoint 12 hash)]

/-- What is weighed when block 12 of the branch arrives at a sample chain. -/
def weighedTip (s : ChainState) (mainCheckpoints : ℕ) : Weighed :=
  ⟨⟨[newAltBlock (sampleEnv 16 none) s (childBlock 16 12 11 1012) none {} 11], 0,
    mainCheckpoints⟩, false⟩

/-- The stored checkpoint names block 12 of the main chain. -/
theorem checkpointed_main_kept :
    (votedFor 12).checkpoints.db.rows.length = 1 ∧
      attemptsSwitch 16 (weighedTip (votedFor 12) 1) =
        prefersBranch (votedFor 12) (candidate (votedFor 12) (childBlock 16 12 11 1012) none)
          false :=
  ⟨by decide, (fork_choice_agrees_iff (sampleEnv 16 none) (votedFor 12)
    (childBlock 16 12 11 1012) none (weighedTip (votedFor 12) 1) (by decide)
    (by decide)).1 ⟨by decide, by decide⟩⟩

/-- The new block is named by the only stored checkpoint, so that the branch has one and the main
chain none, but no switch is attempted. -/
theorem named_tip_ignored :
    (assessAlternative (sampleEnv 16 none) (votedFor 1012) (childBlock 16 12 11 1012) none).2 =
        .weighed (weighedTip (votedFor 1012) 0) ∧
      prefersBranch (votedFor 1012) (candidate (votedFor 1012) (childBlock 16 12 11 1012) none)
        (weighedTip (votedFor 1012) 0).greaterPow = true ∧
      attemptsSwitch 16 (weighedTip (votedFor 1012) 0) = false := by
  decide

end Choice

end Arqma.Chain
