import Arqma.Finality

/-!
# The alternative blocks

What a call does to the store of alternative blocks: it forgets some, or it adds one. The height
of an entry is the one its miner claims, and nothing compares it with the parent. If all miners
claim the heights their blocks have, every entry follows from its parent.
-/
namespace Arqma.Chain
open Arqma.Cryptonote Arqma.ServiceNodes List

variable {id : Hash} {main : List MainBlock} {b : Block}
  {originalChain : List (Block × Option Checkpoint)}
  {disconnected : List (Block × Option Checkpoint)} {altChain : List AltBlock}

section Cases

variable {s s' s'' : ChainState}

/-- The chain is the same, and alternative blocks may have been forgotten. -/
structure Forgets (s s' : ChainState) : Prop where
  main : s'.main = s.main
  alt : ∀ id entry, s'.alt.lookup id = some entry → s.alt.lookup id = some entry

theorem Forgets.refl (s : ChainState) : Forgets s s := ⟨rfl, fun _ _ h => h⟩

theorem Forgets.trans (h : Forgets s s') (h' : Forgets s' s'') : Forgets s s'' :=
  ⟨h'.main.trans h.main, fun id entry hentry => h.alt id entry (h'.alt id entry hentry)⟩

/-- Nothing that a branch is built from has changed. -/
structure SameStore (s s' : ChainState) : Prop where
  main : s'.main = s.main
  alt : s'.alt = s.alt
  db : s'.checkpoints.db = s.checkpoints.db

theorem SameStore.refl (s : ChainState) : SameStore s s := ⟨rfl, rfl, rfl⟩

theorem SameStore.trans (h : SameStore s s') (h' : SameStore s' s'') : SameStore s s'' :=
  ⟨h'.main.trans h.main, h'.alt.trans h.alt, h'.db.trans h.db⟩

theorem SameStore.forgets (h : SameStore s s') : Forgets s s' :=
  ⟨h.main, fun _ _ hentry => h.alt ▸ hentry⟩

theorem forgets_removeAltBlock (s : ChainState) (id : Hash) :
    Forgets s (removeAltBlock s id).1 := by
  unfold removeAltBlock
  split_ifs
  · refine ⟨rfl, fun other entry hentry => ?_⟩
    grind [AList.lookup_erase, AList.lookup_erase_ne]
  · exact Forgets.refl s

theorem forgets_removeAltBlocks (s : ChainState) (ids : List Hash) :
    Forgets s (removeAltBlocks s ids).1 := by
  induction ids generalizing s with
  | nil => exact Forgets.refl s
  | cons id ids ih =>
    have hfirst := forgets_removeAltBlock s id
    grind [removeAltBlocks, hfirst.trans]

theorem forgets_dropBranch (s : ChainState) (branch : Branch) :
    Forgets s (dropBranch s branch).1 := by
  have hremoved := forgets_removeAltBlocks s (branch.blocks.map fun entry => entry.block.hash)
  unfold dropBranch
  split
  · rename_i s' hresult
    rwa [hresult] at hremoved
  · rename_i s' hresult
    rwa [hresult] at hremoved

theorem sameStore_allowAlternative (s : ChainState) (blockHeight : ℕ) :
    SameStore s (allowAlternative s blockHeight).1 := by
  refine ⟨rfl, rfl, ?_⟩
  simp only [allowAlternative, Checkpoints.isAlternativeBlockAllowed]
  split_ifs <;> rfl

/-- The alternative blocks from a block back to the main chain. -/
def ChainState.branchTo (s : ChainState) (id : Hash) : Branch :=
  walkBranch s s.alt.entries.length id {}

theorem walkBranch_congr (h : SameStore s s') (fuel : ℕ) (id : Hash) (branch : Branch) :
    walkBranch s' fuel id branch = walkBranch s fuel id branch := by
  induction fuel generalizing id branch with
  | zero => rfl
  | succ fuel ih =>
    simp only [walkBranch, h.alt, h.db]
    split
    · rfl
    · exact ih _ _

theorem SameStore.branchTo (h : SameStore s s') (id : Hash) : s'.branchTo id = s.branchTo id := by
  rw [ChainState.branchTo, ChainState.branchTo, h.alt, walkBranch_congr h]

theorem SameStore.blockExists (h : SameStore s s') (id : Hash) :
    s'.blockExists id = s.blockExists id := by
  rw [ChainState.blockExists, ChainState.blockExists, h.main]

/-- A stored block joins the branch as it is, but for its checkpoint. -/
theorem Branch.extend_blocks (table : CheckpointTable) (branch : Branch) (data : AltBlock) :
    ∃ checkpoint,
      (branch.extend table data).blocks = { data with checkpoint } :: branch.blocks := by
  unfold Branch.extend
  dsimp only
  split
  · exact ⟨data.checkpoint, rfl⟩
  · split_ifs <;> grind

theorem walkBranch_blocks (s : ChainState) (fuel : ℕ) (id : Hash) (branch : Branch) :
    ∃ walked, (walkBranch s fuel id branch).blocks = walked ++ branch.blocks ∧
      ∀ entry ∈ walked, ∃ id data checkpoint,
        s.alt.lookup id = some data ∧ entry = { data with checkpoint } := by
  induction fuel generalizing id branch with
  | zero => exact ⟨[], rfl, nofun⟩
  | succ fuel ih =>
    rw [walkBranch]
    cases hdata : s.alt.lookup id with
    | none => exact ⟨[], rfl, nofun⟩
    | some data =>
      obtain ⟨walked, hwalked, hstored⟩ :=
        ih data.block.prevId (branch.extend s.checkpoints.db data)
      obtain ⟨checkpoint, hextend⟩ := branch.extend_blocks s.checkpoints.db data
      refine ⟨walked ++ [{ data with checkpoint }], ?_, fun entry hentry => ?_⟩
      · rw [hwalked, hextend, append_assoc, singleton_append]
      · obtain hentry | hentry := mem_append.mp hentry
        · exact hstored entry hentry
        · exact ⟨id, data, checkpoint, hdata, mem_singleton.mp hentry⟩

theorem branchTo_mem {entry : AltBlock} (h : entry ∈ (s.branchTo id).blocks) :
    ∃ id data checkpoint, s.alt.lookup id = some data ∧ entry = { data with checkpoint } := by
  obtain ⟨walked, hwalked, hstored⟩ := walkBranch_blocks s s.alt.entries.length id {}
  rw [ChainState.branchTo, hwalked, append_nil] at h
  exact hstored entry h

/-- The branch to an alternative block ends with it. -/
theorem branchTo_getLast? {data : AltBlock} (h : s.alt.lookup id = some data) :
    ∃ checkpoint, (s.branchTo id).blocks.getLast? = some { data with checkpoint } := by
  have hmem := AList.mem_lookup_iff.mp h
  obtain ⟨fuel, hfuel⟩ : ∃ fuel, s.alt.entries.length = fuel + 1 :=
    Nat.exists_eq_add_of_lt (length_pos_of_mem hmem) |>.imp fun fuel hfuel => by omega
  obtain ⟨checkpoint, hextend⟩ := Branch.extend_blocks s.checkpoints.db {} data
  obtain ⟨walked, hwalked, -⟩ :=
    walkBranch_blocks s fuel data.block.prevId (Branch.extend s.checkpoints.db {} data)
  grind [ChainState.branchTo, walkBranch]

/-- The branch to any other block is empty. -/
theorem branchTo_eq_nil (h : s.alt.lookup id = none) : (s.branchTo id).blocks = [] := by
  rw [ChainState.branchTo]
  cases s.alt.entries.length with
  | zero => rfl
  | succ fuel => rw [walkBranch, h]

/-- A branch is built from what is stored, or blocks of it are forgotten. -/
theorem buildAltChain_cases (s : ChainState) (prevId : Hash) :
    (∃ s', SameStore s s' ∧ buildAltChain s prevId = (s', .built (s.branchTo prevId)) ∧
        ((s.branchTo prevId).blocks = [] → s.blockExists prevId = true)) ∨
      Forgets s (buildAltChain s prevId).1 ∧
        ∀ branch, (buildAltChain s prevId).2 ≠ .built branch := by
  unfold buildAltChain
  rw [← ChainState.branchTo]
  dsimp only
  split
  · rename_i hnil
    by_cases hexists : s.blockExists prevId = true
    · rw [if_pos hexists]
      exact Or.inl ⟨s, SameStore.refl s, rfl, fun _ => hexists⟩
    · rw [if_neg hexists]
      exact Or.inr ⟨Forgets.refl s, nofun⟩
  · rename_i front rest hblocks
    split
    · exact Or.inr ⟨Forgets.refl s, nofun⟩
    · split_ifs
      · exact Or.inr ⟨forgets_dropBranch s _, dropBranch_ne_built s _⟩
      · have hsame := sameStore_allowAlternative s front.height
        grind [hsame.forgets.trans, forgets_dropBranch, dropBranch_ne_built]

/-- A block is stored on top of the branch to its parent, or the call only forgets. -/
theorem assessAlternative_cases (env : ChainEnv) (s : ChainState) (b : Block)
    (checkpoint : Option Checkpoint) :
    (∃ s', SameStore s s' ∧ assessAlternative env s b checkpoint =
          storeAlternative env s' b checkpoint (s.branchTo b.prevId) ∧
        ((s.branchTo b.prevId).blocks = [] → s.blockExists b.prevId = true)) ∨
      Forgets s (assessAlternative env s b checkpoint).1 ∧
        ∃ outcome, (assessAlternative env s b checkpoint).2 = .finished outcome := by
  unfold assessAlternative
  dsimp only
  split_ifs with hzero
  · exact Or.inr ⟨Forgets.refl s, _, rfl⟩
  · have hallowed := sameStore_allowAlternative s (getBlockHeight b)
    split
    · rename_i s' hallow
      rw [hallow] at hallowed
      exact Or.inr ⟨hallowed.forgets, _, rfl⟩
    · rename_i s' hallow
      rw [hallow] at hallowed
      split_ifs
      · exact Or.inr ⟨hallowed.forgets, _, rfl⟩
      · exact Or.inr ⟨hallowed.forgets, _, rfl⟩
      · obtain ⟨s'', hsame, hbuilt, hexists⟩ | ⟨hforgets, hnot⟩ := buildAltChain_cases s' b.prevId
        · grind [hallowed.branchTo, hallowed.blockExists, hallowed.trans]
        · grind [hallowed.forgets.trans]

end Cases

section Heights

variable {env : ChainEnv} {heightOf : Hash → ℕ} {s s' : ChainState}

/-- The block claims the height it has, one above its parent. -/
structure Honest (heightOf : Hash → ℕ) (b : Block) : Prop where
  own : getBlockHeight b = heightOf b.hash
  parent : heightOf b.hash = heightOf b.prevId + 1

/-- Height, work and coins of an entry follow from where its parent stood. The difficulty is the
one asked for right above the parent, which was on the main chain or at the end of a branch. -/
def Derived (env : ChainEnv) (entry : AltBlock) : Prop :=
  ∃ parent, entry.parent = some parent ∧ entry.height = parent.height + 1 ∧
    entry.alreadyGeneratedCoins =
      sumAmounts entry.block.minerTx.vout + parent.alreadyGeneratedCoins ∧
    ∃ (main : List MainBlock) (branch : List AltBlock),
      entry.cumulativeDifficulty = parent.cumulativeDifficulty +
        env.nextDifficultyForAlternativeChain main branch (parent.height + 1) ∧
      match branch.getLast? with
      | some last => last.block.hash = entry.block.prevId ∧ last.height = parent.height
      | none => main[parent.height]?.map (fun entry => entry.block.hash) =
          some entry.block.prevId

/-- Every alternative block is one above its parent, wherever that is now, and was derived from
it. -/
def WellFormed (env : ChainEnv) (s : ChainState) : Prop :=
  ∀ id entry, s.alt.lookup id = some entry →
    (∀ i parent, s.main[i]? = some parent → parent.block.hash = entry.block.prevId →
      entry.height = i + 1) ∧
    (∀ parent, s.alt.lookup entry.block.prevId = some parent →
      entry.height = parent.height + 1) ∧
    Derived env entry

/-- The blocks of the main chain have the heights of their places. -/
def MainOnHeights (heightOf : Hash → ℕ) (main : List MainBlock) : Prop :=
  ∀ i entry, main[i]? = some entry →
    heightOf entry.block.hash = i ∧ (i ≠ 0 → Honest heightOf entry.block)

structure OnHeights (env : ChainEnv) (heightOf : Hash → ℕ) (s : ChainState) : Prop where
  main : MainOnHeights heightOf s.main
  alt : ∀ id entry, s.alt.lookup id = some entry →
    entry.block.hash = id ∧ entry.height = heightOf id ∧ Honest heightOf entry.block ∧
      Derived env entry

theorem OnHeights.wellFormed (h : OnHeights env heightOf s) : WellFormed env s := by
  intro id entry hentry
  obtain ⟨rfl, hheight, hhonest, hderived⟩ := h.alt id entry hentry
  rw [hhonest.parent] at hheight
  refine ⟨fun i parent hparent hhash => ?_, fun parent hparent => ?_, hderived⟩
  · rw [hheight, ← hhash, (h.main i parent hparent).1]
  · rw [hheight, (h.alt _ parent hparent).2.1]

theorem OnHeights.forgets (h : OnHeights env heightOf s) (hforgets : Forgets s s') :
    OnHeights env heightOf s' :=
  ⟨hforgets.main ▸ h.main, fun id entry hentry => h.alt id entry (hforgets.alt id entry hentry)⟩

theorem MainOnHeights.take (h : MainOnHeights heightOf main) (n : ℕ) :
    MainOnHeights heightOf (main.take n) := by
  intro i entry hentry
  rw [getElem?_take] at hentry
  split_ifs at hentry
  exact h i entry hentry

theorem MainOnHeights.append (h : MainOnHeights heightOf main) {entry : MainBlock}
    (hhonest : Honest heightOf entry.block) (hheight : getBlockHeight entry.block = main.length) :
    MainOnHeights heightOf (main ++ [entry]) := by
  intro i found hfound
  rw [getElem?_append] at hfound
  split_ifs at hfound with hi
  · exact h i found hfound
  · grind [hhonest.own]

theorem OnHeights.detachTo (h : OnHeights env heightOf s) (height : ℕ) :
    OnHeights env heightOf (Chain.detachTo s height) :=
  ⟨h.main.take height, h.alt⟩

theorem OnHeights.addBlockAsInvalid (h : OnHeights env heightOf s) (id : Hash) :
    OnHeights env heightOf (s.addBlockAsInvalid id) :=
  ⟨h.main, h.alt⟩

/-- On the main chain the claimed height is checked. -/
theorem OnHeights.handleBlockToMainChain (h : OnHeights env heightOf s)
    (hhonest : Honest heightOf b) (checkpoint : Option Checkpoint) :
    OnHeights env heightOf (Chain.handleBlockToMainChain env s b checkpoint).1 := by
  unfold Chain.handleBlockToMainChain
  dsimp only
  split
  · exact ⟨h.main, h.alt⟩
  · exact ⟨h.main, h.alt⟩
  · exact ⟨h.main, h.alt⟩
  · rename_i hadded
    exact ⟨h.main.append hhonest (mainOutcome_added hadded).2, h.alt⟩

theorem OnHeights.connect (h : OnHeights env heightOf s)
    (hhonest : ∀ entry ∈ altChain, Honest heightOf entry.block) :
    OnHeights env heightOf (Chain.connect env s altChain).1 := by
  induction altChain generalizing s with
  | nil => exact h
  | cons entry rest ih =>
    grind [Chain.connect, h.handleBlockToMainChain]

theorem OnHeights.restore (h : OnHeights env heightOf s)
    (hhonest : ∀ entry ∈ originalChain, Honest heightOf entry.1) :
    OnHeights env heightOf (Chain.restore env s originalChain) := by
  induction originalChain generalizing s with
  | nil => exact h
  | cons entry rest ih =>
    have hadded := h.handleBlockToMainChain (hhonest entry mem_cons_self) entry.2
    rw [Chain.restore]
    split
    · rename_i s' hresult
      rw [hresult] at hadded
      exact ih hadded fun other hother => hhonest other (mem_cons_of_mem entry hother)
    · rename_i s' hresult
      rw [hresult] at hadded
      exact ⟨hadded.main, hadded.alt⟩

theorem OnHeights.rollback (h : OnHeights env heightOf s)
    (hhonest : ∀ entry ∈ originalChain, Honest heightOf entry.1) (rollbackHeight : ℕ) :
    OnHeights env heightOf (rollbackBlockchainSwitching env s originalChain rollbackHeight) := by
  unfold rollbackBlockchainSwitching
  split_ifs
  · exact h
  · exact (h.detachTo rollbackHeight).restore hhonest

theorem OnHeights.discardFailed (h : OnHeights env heightOf s) (failed : AltBlock)
    (rest : List AltBlock) : OnHeights env heightOf (Chain.discardFailed s failed rest).1 := by
  have hremoved := (h.addBlockAsInvalid failed.block.hash).forgets
    (forgets_removeAltBlock _ failed.block.hash)
  grind [Chain.discardFailed, hremoved.addBlockAsInvalid]

/-- What a call for an alternative block must keep. -/
def KeepsHeights (env : ChainEnv) (heightOf : Hash → ℕ)
    (handle : ChainState → Block → Option Checkpoint → ChainState × Outcome) : Prop :=
  ∀ s b checkpoint, OnHeights env heightOf s → Honest heightOf b →
    OnHeights env heightOf (handle s b checkpoint).1

variable {handle : ChainState → Block → Option Checkpoint → ChainState × Outcome}

theorem OnHeights.pushDisconnected (h : OnHeights env heightOf s)
    (hhandle : KeepsHeights env heightOf handle)
    (hhonest : ∀ entry ∈ disconnected, Honest heightOf entry.1) :
    OnHeights env heightOf (Chain.pushDisconnected handle s disconnected).1 := by
  induction disconnected generalizing s <;> grind [KeepsHeights, Chain.pushDisconnected]

theorem OnHeights.finishSwitch (h : OnHeights env heightOf s)
    (hhandle : KeepsHeights env heightOf handle) (altChain : List AltBlock)
    (hhonest : ∀ entry ∈ disconnected, Honest heightOf entry.1) (keep : Bool) :
    OnHeights env heightOf (Chain.finishSwitch handle s altChain disconnected keep).1 := by
  have hpushed : OnHeights env heightOf
      (if keep then Chain.pushDisconnected handle s disconnected else (s, true)).1 := by
    split_ifs
    · exact h.pushDisconnected hhandle hhonest
    · exact h
  grind [Chain.finishSwitch, hpushed.forgets, forgets_removeAltBlocks]

/-- The genesis block is never disconnected. -/
theorem OnHeights.disconnectedFrom (h : OnHeights env heightOf s)
    (hexists : s.blockExists id = true) :
    ∀ entry ∈ Chain.disconnectedFrom s (heightAfter s id), Honest heightOf entry.1 := by
  intro entry hentry
  obtain ⟨found, hfound, rfl⟩ := mem_map.mp hentry
  obtain ⟨i, hi⟩ := mem_iff_getElem?.mp hfound
  rw [getElem?_drop] at hi
  obtain ⟨parent, hparent, hid⟩ := any_eq_true.mp hexists
  obtain ⟨j, hj⟩ := mem_iff_getElem?.mp hparent
  have hpos := le_heightAfter hj (of_decide_eq_true hid)
  exact (h.main _ found hi).2 (by omega)

theorem OnHeights.switch (h : OnHeights env heightOf s)
    (hhandle : KeepsHeights env heightOf handle)
    (hhonest : ∀ entry ∈ altChain, Honest heightOf entry.block)
    (keep : Bool) :
    OnHeights env heightOf (switchToAlternativeBlockchain env handle s altChain keep).1 := by
  unfold switchToAlternativeBlockchain
  dsimp only
  split
  · exact h
  · rename_i front rest
    by_cases hexists : s.blockExists front.block.prevId = true
    · rw [if_neg (by simpa using hexists)]
      have hdisconnected := h.disconnectedFrom hexists
      have hconnected := (h.detachTo (heightAfter s front.block.prevId)).connect hhonest
      split
      · rename_i s' failed rest hresult
        rw [hresult] at hconnected
        exact (hconnected.rollback hdisconnected _).discardFailed failed rest
      · rename_i s' hresult
        rw [hresult] at hconnected
        exact hconnected.finishSwitch hhandle _ hdisconnected keep
    · rw [if_pos (by simpa using hexists)]
      exact h

theorem MainOnHeights.find (h : MainOnHeights heightOf main)
    (hexists : (main.any fun entry => entry.block.hash = id) = true) :
    ∃ found, main[heightOf id]? = some found ∧
      (main.find? fun entry => entry.block.hash = id) = some found ∧
      (main.zipIdx.find? fun (entry, _) => entry.block.hash = id) = some (found, heightOf id) := by
  obtain ⟨found, hmem, hid⟩ := any_eq_true.mp hexists
  have hplace : ∀ i entry, main[i]? = some entry → entry.block.hash = id →
      i = heightOf id ∧ some entry = main[heightOf id]? := by
    intro i entry hentry hentryId
    have hi := (h i entry hentry).1
    rw [hentryId] at hi
    exact ⟨hi.symm, by rw [hi, hentry]⟩
  obtain ⟨i, hi⟩ := mem_iff_getElem?.mp hmem
  obtain ⟨rfl, -⟩ := hplace i found hi (of_decide_eq_true hid)
  refine ⟨found, hi, ?_, ?_⟩
  · cases hfind : main.find? fun entry => entry.block.hash = id <;> grind [mem_iff_getElem?.mp]
  · have hpair := mem_zipIdx_iff_getElem?.mpr (show main[(found, heightOf id).2]? = _ from hi)
    cases hfind : main.zipIdx.find? fun (entry, _) => entry.block.hash = id <;> grind

theorem OnHeights.derived (h : OnHeights env heightOf s) (hhonest : Honest heightOf b)
    (checkpoint : Option Checkpoint) {coins : UInt64}
    (hcoins : baseCoins s (getBlockHeight b) (s.branchTo b.prevId) = some coins)
    (hexists : (s.branchTo b.prevId).blocks = [] → s.blockExists b.prevId = true) :
    Derived env (newAltBlock env s b checkpoint (s.branchTo b.prevId) coins) := by
  have hheight : getBlockHeight b = heightOf b.prevId + 1 := hhonest.own.trans hhonest.parent
  cases hparent : s.alt.lookup b.prevId with
  | some data =>
    obtain ⟨hhash, hdata, -⟩ := h.alt b.prevId data hparent
    obtain ⟨attached, hlast⟩ := branchTo_getLast? hparent
    refine ⟨⟨data.height, data.cumulativeDifficulty, data.alreadyGeneratedCoins⟩, ?_, ?_, ?_,
      s.main, (s.branchTo b.prevId).blocks, ?_, ?_⟩
    · simp only [newAltBlock, standing, hparent]
    · simp only [newAltBlock, hheight, hdata]
    · simp only [baseCoins, hlast, Option.some.injEq] at hcoins
      simp only [newAltBlock, hcoins]
    · simp only [newAltBlock, baseDifficulty, hlast, hheight, hdata]
    · simp only [hlast]
      exact ⟨hhash, trivial⟩
  | none =>
    have hnil := branchTo_eq_nil hparent
    obtain ⟨found, hfound, hfind, hplace⟩ := h.main.find (hexists hnil)
    refine ⟨⟨heightOf b.prevId, found.cumulativeDifficulty, found.alreadyGeneratedCoins⟩, ?_, ?_,
      ?_, s.main, [], ?_, ?_⟩
    · simp only [newAltBlock, standing, hparent, hplace, Option.map_some]
    · exact hheight
    · grind [baseCoins, newAltBlock]
    · simp only [newAltBlock, baseDifficulty, hnil, getLast?_nil, hfind, hheight]
    · grind [newAltBlock]

theorem OnHeights.storeAlternative (h : OnHeights env heightOf s) (hhonest : Honest heightOf b)
    (checkpoint : Option Checkpoint)
    (hexists : (s.branchTo b.prevId).blocks = [] → s.blockExists b.prevId = true) :
    OnHeights env heightOf
      (Chain.storeAlternative env s b checkpoint (s.branchTo b.prevId)).1 := by
  obtain ⟨outcome, hsame⟩ | ⟨coins, hcoins, hnew, hstored, -⟩ :=
    storeAlternative_cases env s b checkpoint (s.branchTo b.prevId)
  · rw [hsame]
    exact h
  · rw [hstored]
    refine ⟨h.main, fun id entry hentry => ?_⟩
    by_cases hid : id = b.hash
    · subst hid
      rw [AList.lookup_insert, Option.some.injEq] at hentry
      subst hentry
      exact ⟨rfl, hhonest.own, hhonest, h.derived hhonest checkpoint hcoins hexists⟩
    · rw [AList.lookup_insert_ne hid] at hentry
      exact h.alt id entry hentry

/-- A branch that comes to be compared consists of honest blocks. -/
theorem OnHeights.assessAlternative (h : OnHeights env heightOf s) (hhonest : Honest heightOf b)
    (checkpoint : Option Checkpoint) :
    OnHeights env heightOf (Chain.assessAlternative env s b checkpoint).1 ∧
      ∀ w, (Chain.assessAlternative env s b checkpoint).2 = .weighed w →
        ∀ entry ∈ w.branch.blocks, Honest heightOf entry.block := by
  obtain ⟨s', hsame, hstore, hexists⟩ | ⟨hforgets, outcome, hfinished⟩ :=
    assessAlternative_cases env s b checkpoint
  · have h' := h.forgets hsame.forgets
    rw [hstore, ← hsame.branchTo]
    rw [← hsame.branchTo, ← hsame.blockExists] at hexists
    refine ⟨h'.storeAlternative hhonest checkpoint hexists, fun w hw entry hentry => ?_⟩
    obtain ⟨outcome, hfinished⟩ | ⟨coins, -, -, -, hweighed⟩ :=
      storeAlternative_cases env s' b checkpoint (s'.branchTo b.prevId)
    · rw [hfinished] at hw
      cases hw
    · rw [(hweighed w hw).1] at hentry
      obtain hentry | hentry := mem_append.mp hentry
      · obtain ⟨id, data, attached, hdata, rfl⟩ := branchTo_mem hentry
        exact (h'.alt id data hdata).2.2.1
      · rw [mem_singleton.mp hentry]
        exact hhonest
  · exact ⟨h.forgets hforgets, fun w hw => by rw [hfinished] at hw; cases hw⟩

theorem keepsHeights_handleAlternativeBlock (env : ChainEnv) (heightOf : Hash → ℕ) (depth : ℕ) :
    KeepsHeights env heightOf (handleAlternativeBlock env depth) := by
  induction depth with
  | zero => exact fun s b checkpoint h _ => h
  | succ depth ih =>
    intro s b checkpoint h hhonest
    have hcounted : OnHeights env heightOf { s with calls := s.calls + 1 } := ⟨h.main, h.alt⟩
    obtain ⟨hassessed, hbranch⟩ := hcounted.assessAlternative hhonest checkpoint
    grind [handleAlternativeBlock, hassessed.switch]

theorem OnHeights.addNewBlock (h : OnHeights env heightOf s) (depth : ℕ)
    (hhonest : Honest heightOf b) (checkpoint : Option Checkpoint) :
    OnHeights env heightOf (Chain.addNewBlock env depth s b checkpoint).1 := by
  unfold Chain.addNewBlock
  dsimp only
  split_ifs
  · exact h
  · exact h.handleBlockToMainChain hhonest _
  · exact keepsHeights_handleAlternativeBlock env heightOf depth s b _ h hhonest

theorem OnHeights.vote (h : OnHeights env heightOf s) (checkpoint : Checkpoint) :
    OnHeights env heightOf { s with
      toBlockchain := (s.toBlockchain.updateCheckpoint env.currentVersion checkpoint).1 } := by
  unfold Blockchain.updateCheckpoint
  split_ifs
  · exact h
  · exact ⟨h.main.take _, h.alt⟩
  · exact ⟨h.main, h.alt⟩

/-- The blocks that arrive claim the heights they have. -/
def honestRun (heightOf : Hash → ℕ) (events : List ChainEvent) : Prop :=
  ∀ b checkpoint, ChainEvent.deliver b checkpoint ∈ events → Honest heightOf b

theorem OnHeights.after (h : OnHeights env heightOf s) (depth : ℕ) (events : List ChainEvent)
    (hhonest : honestRun heightOf events) :
    OnHeights env heightOf (s.after env depth events) := by
  induction events generalizing s with
  | nil => exact h
  | cons event events ih =>
    refine ih ?_ fun b checkpoint hb => hhonest b checkpoint (mem_cons_of_mem event hb)
    cases event <;> grind [honestRun, ChainState.step, h.addNewBlock, h.vote]

/-- As long as all blocks claim their own heights, the store of alternative blocks is well
formed. -/
theorem alt_store_well_formed (env : ChainEnv) (depth : ℕ) (heightOf : Hash → ℕ) (s : ChainState)
    (events : List ChainEvent) (hmain : MainOnHeights heightOf s.main) (halt : s.alt = ∅)
    (hhonest : honestRun heightOf events) : WellFormed env (s.after env depth events) := by
  have hstart : OnHeights env heightOf s := by
    refine ⟨hmain, fun id entry hentry => ?_⟩
    rw [halt, AList.lookup_empty] at hentry
    cases hentry
  exact (hstart.after depth events hhonest).wellFormed

end Heights

section Sample

/-- Hashes and heights of the samples agree in their last three digits. -/
def sampleHeight (id : Hash) : ℕ := id.toNat % 1000

theorem mainOnHeights_sampleChain (majorVersion : ℕ) {height : ℕ} (hheight : height ≤ 1000)
    (table : CheckpointTable) :
    MainOnHeights sampleHeight (sampleChain majorVersion height table).main := by
  intro i entry hentry
  simp only [sampleChain, getElem?_map, Option.map_eq_some_iff] at hentry
  obtain ⟨h, hh, rfl⟩ := hentry
  obtain ⟨hlt, hget⟩ := List.getElem?_eq_some_iff.mp hh
  rw [List.length_range] at hlt
  rw [List.getElem_range] at hget
  subst hget
  have hown : sampleHeight (BitVec.ofNat 256 i) = i := by
    simp only [sampleHeight, BitVec.toNat_ofNat]
    omega
  refine ⟨hown, fun hpos => ⟨hown.symm, ?_⟩⟩
  have hparent : sampleHeight (BitVec.ofNat 256 (i - 1)) = i - 1 := by
    simp only [sampleHeight, BitVec.toNat_ofNat]
    omega
  simp only [childBlock, hown, hparent]
  omega

theorem branch_well_formed :
    WellFormed (sampleEnv 17 none) ((sampleChain 17 6 OrderedTable.empty).after (sampleEnv 17 none)
      3 [.deliver (childBlock 17 4 3 1004) none, .deliver (childBlock 17 5 1004 1005) none]) :=
  alt_store_well_formed (sampleEnv 17 none) 3 sampleHeight (sampleChain 17 6 OrderedTable.empty) _
    (mainOnHeights_sampleChain 17 (by decide) _) rfl
    (by
      intro b checkpoint hb
      simp only [mem_cons, ChainEvent.deliver.injEq, not_mem_nil, or_false] at hb
      obtain ⟨rfl, -⟩ | ⟨rfl, -⟩ := hb
      · exact ⟨by decide, by decide⟩
      · exact ⟨by decide, by decide⟩)

/-- A child of block 5 that claims height 9 is stored there, with the coins of block 8. -/
theorem wrong_height_stored :
    let s := (sampleChain 17 14 OrderedTable.empty).after (sampleEnv 17 none) 3
      [.deliver (childBlock 17 9 5 1009) none]
    (s.alt.lookup 1009).map
        (fun entry => (entry.height, entry.alreadyGeneratedCoins, entry.parent)) =
        some (9, 8, some ⟨5, 5, 5⟩) ∧
      ¬ WellFormed (sampleEnv 17 none) s := by
  intro s
  have hentry : (s.alt.lookup 1009).map
      (fun entry => (entry.height, entry.alreadyGeneratedCoins, entry.parent)) =
      some (9, 8, some ⟨5, 5, 5⟩) := by decide
  refine ⟨hentry, fun hwell => ?_⟩
  obtain ⟨entry, hlookup, hvalues⟩ := Option.map_eq_some_iff.mp hentry
  obtain ⟨-, -, parent, hparent, hheight, -⟩ := hwell 1009 entry hlookup
  simp only [Prod.mk.injEq] at hvalues
  rw [hvalues.2.2, Option.some.injEq] at hparent
  rw [hvalues.1, ← hparent] at hheight
  exact absurd hheight (by decide)

end Sample

end Arqma.Chain
