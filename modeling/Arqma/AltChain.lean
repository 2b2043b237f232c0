import Mathlib.Data.List.DropRight
import Arqma.Blockchain
import Arqma.MinerTx

/-!
# Alternative blocks and the switch to another chain

A block that does not extend the main chain is kept as an alternative block. The branch it ends
is compared with the main chain, by checkpoints and by work, and may replace it. A switch that
fails on the way is rolled back. What the checks of a block say is a parameter that may change
with every use; an exception of the source ends the call where it is thrown.
-/
namespace Arqma.Chain
open Arqma.Cryptonote Arqma.ServiceNodes

/-- Where a block stands, and the work and the coins up to it. -/
structure Standing where
  height : ℕ
  cumulativeDifficulty : ℕ
  alreadyGeneratedCoins : UInt64
deriving DecidableEq

/-- An alternative block with the height its miner claims and the checkpoint that came with it.
`parent` is not in the source: it records where the parent stood when the block was stored. -/
structure AltBlock where
  block : Block
  height : ℕ
  cumulativeDifficulty : ℕ
  alreadyGeneratedCoins : UInt64 := 0
  checkpoint : Option Checkpoint := none
  parent : Option Standing := none
deriving DecidableEq

/-- The transactions and the reward of a block. Wrong inputs make it known as invalid. -/
inductive BodyVerdict
  | accepted
  | refused
  | wrongInputs
deriving DecidableEq

/-- The checks, each with the number of calls made before. -/
structure ChainEnv where
  currentVersion : List MainBlock → ℕ
  difficultyForNextBlock : List MainBlock → ℕ
  nextDifficultyForAlternativeChain : List MainBlock → List AltBlock → ℕ → ℕ
  /-- Version, timestamp and proof of work on the main chain. -/
  headerOk : ℕ → Block → Bool
  body : ℕ → Block → BodyVerdict
  /-- What the miner transaction pays beyond the fees. -/
  baseReward : ℕ → Block → UInt64
  blockAddedHooks : ℕ → Block → Option Checkpoint → Bool
  altVersionOk : ℕ → Block → Bool
  /-- Timestamp, proof of work and form of the miner transaction on a branch. -/
  altHeaderOk : ℕ → Block → Bool
  /-- The transactions are known and the hooks for alternative blocks accept. -/
  altBlockAddedHooks : ℕ → Block → Option Checkpoint → Bool

/-- The chain with the alternative blocks. `calls` counts calls. The two flags record events that
the source logs or overlooks: a rollback that could not restore a block, and an alternative block
that was let in although it is not above the immutable height. -/
structure ChainState extends Blockchain where
  alt : AList (fun _ : Hash => AltBlock) := ∅
  invalidBlocks : List Hash := []
  calls : ℕ := 0
  panicked : Bool := false
  unguarded : Bool := false

namespace ChainState

def tailId (s : ChainState) : Option Hash := s.main.getLast?.map fun entry => entry.block.hash

def blockExists (s : ChainState) (id : Hash) : Bool :=
  s.main.any fun entry => entry.block.hash = id

def haveBlock (s : ChainState) (id : Hash) : Bool :=
  s.blockExists id || (s.alt.lookup id).isSome || s.invalidBlocks.contains id

def addBlockAsInvalid (s : ChainState) (id : Hash) : ChainState :=
  { s with invalidBlocks := if s.invalidBlocks.contains id then s.invalidBlocks
      else id :: s.invalidBlocks }

def topCumulativeDifficulty (s : ChainState) : ℕ :=
  match s.main.getLast? with
  | some entry => entry.cumulativeDifficulty
  | none => 0

def topAlreadyGeneratedCoins (s : ChainState) : UInt64 :=
  match s.main.getLast? with
  | some entry => entry.alreadyGeneratedCoins
  | none => 0

end ChainState

section MainChain

inductive MainOutcome
  | refused
  | wrongInputs
  /-- A hook refused the block after it had been added. -/
  | aborted
  | added
deriving DecidableEq

/-- A checkpoint at the height of the block names another one. One of the service nodes counts
from version 16 on. -/
def checkpointRefuses (s : ChainState) (b : Block) : Bool :=
  s.checkpoints.isInCheckpointZone s.height &&
    (s.getCheckpoint s.height).any fun checkpoint =>
      !checkpoint.check b.hash && (checkpoint.type ≠ .serviceNode || 16 ≤ b.majorVersion)

def mainOutcome (env : ChainEnv) (s : ChainState) (b : Block) (checkpoint : Option Checkpoint) :
    MainOutcome :=
  if s.tailId ≠ some b.prevId then .refused
  else if !env.headerOk s.calls b then .refused
  else if checkpointRefuses s b then .refused
  else if getBlockHeight b ≠ s.height then .refused
  else
    match env.body s.calls b with
    | .refused => .refused
    | .wrongInputs => .wrongInputs
    | .accepted => if env.blockAddedHooks s.calls b checkpoint then .added else .aborted

def moneySupply (version : ℕ) : UInt64 :=
  if version < 16 then 50000000000000000 else 75000000000000000

/-- The coins after a block, which never exceed the supply. -/
def coinsAfter (version : ℕ) (alreadyGeneratedCoins baseReward : UInt64) : UInt64 :=
  if baseReward < moneySupply version - alreadyGeneratedCoins then
    alreadyGeneratedCoins + baseReward
  else moneySupply version

/-- The hook of the checkpoints is the last one, so that it has not run when another refuses. -/
def handleBlockToMainChain (env : ChainEnv) (s : ChainState) (b : Block)
    (checkpoint : Option Checkpoint) : ChainState × Bool :=
  let next := { s with calls := s.calls + 1 }
  match mainOutcome env s b checkpoint with
  | .refused => (next, false)
  | .wrongInputs => (next.addBlockAsInvalid b.hash, false)
  | .aborted => ({ next with checkpoints := s.checkpoints.blockchainDetached s.height }, false)
  | .added =>
    let entry : MainBlock :=
      { block := b
        cumulativeDifficulty := s.topCumulativeDifficulty + env.difficultyForNextBlock s.main
        alreadyGeneratedCoins := coinsAfter (env.currentVersion s.main)
          s.topAlreadyGeneratedCoins (env.baseReward s.calls b) }
    ({ next with
      main := s.main ++ [entry]
      checkpoints := s.checkpoints.blockAdded b checkpoint }, true)

end MainChain

section Branch

/-- A branch from the main chain on, with the numbers of checkpoints for it and against it. -/
structure Branch where
  blocks : List AltBlock := []
  altCheckpoints : ℕ := 0
  mainCheckpoints : ℕ := 0
deriving DecidableEq

/-- One round of the loop of `build_alt_chain`. A block without a checkpoint of its own takes the
stored one that names it, and is counted for the main chain. -/
def Branch.extend (table : CheckpointTable) (branch : Branch) (data : AltBlock) : Branch :=
  let altCheckpoints := branch.altCheckpoints + if data.checkpoint.isSome then 1 else 0
  match table.find? data.height with
  | none => { branch with blocks := data :: branch.blocks, altCheckpoints }
  | some stored =>
    if stored.check data.block.hash then
      if data.checkpoint.isSome then
        { branch with blocks := data :: branch.blocks, altCheckpoints }
      else
        { blocks := { data with checkpoint := some stored } :: branch.blocks
          altCheckpoints
          mainCheckpoints := branch.mainCheckpoints + 1 }
    else
      { blocks := data :: branch.blocks
        altCheckpoints
        mainCheckpoints := branch.mainCheckpoints + 1 }

/-- The alternative blocks from `id` back to the main chain. -/
def walkBranch (s : ChainState) : ℕ → Hash → Branch → Branch
  | 0, _, branch => branch
  | fuel + 1, id, branch =>
    match s.alt.lookup id with
    | none => branch
    | some data =>
      walkBranch s fuel data.block.prevId (branch.extend s.checkpoints.db data)

/-- How a call ends. -/
inductive Outcome
  | returned (result : Bool)
  | threw
deriving DecidableEq

/-- False if the block is not there, which throws. -/
def removeAltBlock (s : ChainState) (id : Hash) : ChainState × Bool :=
  if (s.alt.lookup id).isSome then ({ s with alt := s.alt.erase id }, true) else (s, false)

def removeAltBlocks (s : ChainState) : List Hash → ChainState × Bool
  | [] => (s, true)
  | id :: ids =>
    match removeAltBlock s id with
    | (s, true) => removeAltBlocks s ids
    | (s, false) => (s, false)

def allowAlternative (s : ChainState) (blockHeight : ℕ) : ChainState × Bool :=
  let overlooked := s.checkpoints.beforeFirst s.height &&
    blockHeight ≤ s.checkpoints.immutableHeight
  ({ s with
    checkpoints := (s.checkpoints.isAlternativeBlockAllowed s.height blockHeight).1
    unguarded := s.unguarded || overlooked },
    (s.checkpoints.isAlternativeBlockAllowed s.height blockHeight).2)

inductive Built
  | threw
  | failed
  | built (branch : Branch)

/-- A branch that is not connected or too old is forgotten. -/
def dropBranch (s : ChainState) (branch : Branch) : ChainState × Built :=
  match removeAltBlocks s (branch.blocks.map fun entry => entry.block.hash) with
  | (s, true) => (s, .failed)
  | (s, false) => (s, .threw)

/-- The block before the branch is read before anything is decided, and must be there. -/
def buildAltChain (s : ChainState) (prevId : Hash) : ChainState × Built :=
  let branch := walkBranch s s.alt.entries.length prevId {}
  match branch.blocks with
  | [] => (s, if s.blockExists prevId then .built branch else .failed)
  | front :: _ =>
    match if front.height = 0 then none else s.main[front.height - 1]? with
    | none => (s, .threw)
    | some parent =>
      if s.height < front.height ∨ !s.blockExists front.block.prevId ∨
          parent.block.hash ≠ front.block.prevId then
        dropBranch s branch
      else
        match allowAlternative s front.height with
        | (s, true) => (s, .built branch)
        | (s, false) => dropBranch s branch

/-- What is known when a branch is compared with the main chain. -/
structure Weighed where
  branch : Branch
  greaterPow : Bool
deriving DecidableEq

def Weighed.moreCheckpoints (w : Weighed) : Bool :=
  w.branch.mainCheckpoints < w.branch.altCheckpoints

def Weighed.equalCheckpoints (w : Weighed) : Bool :=
  w.branch.altCheckpoints = w.branch.mainCheckpoints

def attemptsSwitch (majorVersion : ℕ) (w : Weighed) : Bool :=
  if 16 ≤ majorVersion then w.moreCheckpoints || (w.greaterPow && w.equalCheckpoints)
  else w.greaterPow

/-- The blocks of the old chain become alternative blocks, unless checkpoints decided. -/
def keepsDisconnected (majorVersion : ℕ) (w : Weighed) : Bool :=
  if 16 ≤ majorVersion then !w.moreCheckpoints else true

inductive Assessment
  | finished (outcome : Outcome)
  | weighed (w : Weighed)
deriving DecidableEq

variable (env : ChainEnv)

/-- The block on its branch. Only a checkpoint that does not name it is counted here. -/
def Branch.withTip (table : CheckpointTable) (branch : Branch) (tip : AltBlock) : Branch where
  blocks := branch.blocks ++ [tip]
  altCheckpoints := branch.altCheckpoints + if tip.checkpoint.isSome then 1 else 0
  mainCheckpoints := branch.mainCheckpoints +
    if (table.find? tip.height).any fun stored => !stored.check tip.block.hash then 1 else 0

/-- The work up to the parent of the branch's next block. -/
def baseDifficulty (s : ChainState) (prevId : Hash) (branch : Branch) : ℕ :=
  match branch.blocks.getLast?, s.main.find? fun entry => entry.block.hash = prevId with
  | some last, _ => last.cumulativeDifficulty
  | none, some parent => parent.cumulativeDifficulty
  | none, none => 0

/-- The coins so far: those of the branch, or on the main chain those below the claimed height. -/
def baseCoins (s : ChainState) (blockHeight : ℕ) (branch : Branch) : Option UInt64 :=
  match branch.blocks.getLast? with
  | some last => some last.alreadyGeneratedCoins
  | none => s.main[blockHeight - 1]?.map MainBlock.alreadyGeneratedCoins

/-- Where a known block stands: as recorded if it is an alternative block, else by its place on the
main chain. -/
def standing (s : ChainState) (id : Hash) : Option Standing :=
  match s.alt.lookup id with
  | some entry => some ⟨entry.height, entry.cumulativeDifficulty, entry.alreadyGeneratedCoins⟩
  | none =>
    (s.main.zipIdx.find? fun (entry, _) => entry.block.hash = id).map fun (entry, height) =>
      ⟨height, entry.cumulativeDifficulty, entry.alreadyGeneratedCoins⟩

/-- The entry of a block that ends a branch. -/
def newAltBlock (s : ChainState) (b : Block) (checkpoint : Option Checkpoint) (branch : Branch)
    (coins : UInt64) : AltBlock where
  block := b
  height := getBlockHeight b
  cumulativeDifficulty := baseDifficulty s b.prevId branch +
    env.nextDifficultyForAlternativeChain s.main branch.blocks (getBlockHeight b)
  alreadyGeneratedCoins := sumAmounts b.minerTx.vout + coins
  checkpoint
  parent := standing s b.prevId

def storeAlternative (s : ChainState) (b : Block) (checkpoint : Option Checkpoint)
    (branch : Branch) : ChainState × Assessment :=
  let blockHeight := getBlockHeight b
  if !env.altHeaderOk s.calls b then (s, .finished (.returned false))
  else if env.nextDifficultyForAlternativeChain s.main branch.blocks blockHeight = 0 then
    (s, .finished (.returned false))
  else if (s.alt.lookup b.hash).isSome then (s, .finished (.returned false))
  else
    match baseCoins s blockHeight branch with
    | none => (s, .finished .threw)
    | some coins =>
      let tip := newAltBlock env s b checkpoint branch coins
      let stored := { s with alt := s.alt.insert b.hash tip }
      if checkpoint = none ∧ (s.getCheckpoint blockHeight).any fun known =>
          !known.check b.hash && known.type ≠ .serviceNode then
        (stored, .finished (.returned false))
      else if !env.altBlockAddedHooks s.calls b checkpoint then
        (stored, .finished (.returned false))
      else
        (stored, .weighed
          { branch := branch.withTip s.checkpoints.db tip
            greaterPow := s.topCumulativeDifficulty < tip.cumulativeDifficulty })

/-- `handle_alternative_block` up to the comparison. A block without a known parent is an
orphan, which is no error. -/
def assessAlternative (s : ChainState) (b : Block) (checkpoint : Option Checkpoint) :
    ChainState × Assessment :=
  let blockHeight := getBlockHeight b
  if blockHeight = 0 then (s, .finished (.returned false))
  else
    match allowAlternative s blockHeight with
    | (s, false) => (s, .finished (.returned false))
    | (s, true) =>
      if !env.altVersionOk s.calls b then (s, .finished (.returned false))
      else if (s.alt.lookup b.prevId).isNone ∧ s.blockExists b.prevId = false then
        (s, .finished (.returned true))
      else
        match buildAltChain s b.prevId with
        | (s, .threw) => (s, .finished .threw)
        | (s, .failed) => (s, .finished (.returned false))
        | (s, .built branch) => storeAlternative env s b checkpoint branch

/-- A block is stored with the entry that ends its branch, or nothing changes. -/
theorem storeAlternative_cases (s : ChainState) (b : Block) (checkpoint : Option Checkpoint)
    (branch : Branch) :
    (∃ outcome, storeAlternative env s b checkpoint branch = (s, .finished outcome)) ∨
      ∃ coins, baseCoins s (getBlockHeight b) branch = some coins ∧ s.alt.lookup b.hash = none ∧
        (storeAlternative env s b checkpoint branch).1 =
          { s with alt := s.alt.insert b.hash (newAltBlock env s b checkpoint branch coins) } ∧
        ∀ w, (storeAlternative env s b checkpoint branch).2 = .weighed w →
          w.branch = branch.withTip s.checkpoints.db
            (newAltBlock env s b checkpoint branch coins) ∧
          w.greaterPow = decide (s.topCumulativeDifficulty <
            (newAltBlock env s b checkpoint branch coins).cumulativeDifficulty) := by
  unfold storeAlternative
  dsimp only
  cases hcoins : baseCoins s (getBlockHeight b) branch with
  | none =>
    dsimp only
    left
    split_ifs <;> exact ⟨_, rfl⟩
  | some coins =>
    dsimp only
    split_ifs with hheader hdifficulty hknown
    · exact Or.inl ⟨_, rfl⟩
    · exact Or.inl ⟨_, rfl⟩
    · exact Or.inl ⟨_, rfl⟩
    all_goals refine Or.inr ⟨coins, rfl, by simpa using hknown, rfl, ?_⟩
    · exact nofun
    · exact nofun
    · intro w hw
      cases hw
      exact ⟨rfl, rfl⟩

end Branch

section Switch

variable (env : ChainEnv)

/-- Blocks of a branch are added until one is refused; what is left is returned. -/
def connect (s : ChainState) : List AltBlock → ChainState × List AltBlock
  | [] => (s, [])
  | entry :: rest =>
    match handleBlockToMainChain env s entry.block entry.checkpoint with
    | (s, true) => connect s rest
    | (s, false) => (s, entry :: rest)

/-- The old blocks are added again. The first failure is logged as a panic and ends it. -/
def restore (s : ChainState) : List (Block × Option Checkpoint) → ChainState
  | [] => s
  | (b, checkpoint) :: rest =>
    match handleBlockToMainChain env s b checkpoint with
    | (s, true) => restore s rest
    | (s, false) => { s with panicked := true }

/-- Pop down to a height and tell the checkpoints. -/
def detachTo (s : ChainState) (height : ℕ) : ChainState :=
  { s with
    main := s.main.take height
    checkpoints := s.checkpoints.blockchainDetached height }

def rollbackBlockchainSwitching (s : ChainState) (originalChain : List (Block × Option Checkpoint))
    (rollbackHeight : ℕ) : ChainState :=
  if s.height < rollbackHeight then s
  else restore env (detachTo s rollbackHeight) originalChain

/-- The loop after a failed switch removes the failed block again instead of the next one, and
that throws. -/
def discardFailed (s : ChainState) (failed : AltBlock) (rest : List AltBlock) :
    ChainState × Outcome :=
  match removeAltBlock (s.addBlockAsInvalid failed.block.hash) failed.block.hash with
  | (s, false) => (s, .threw)
  | (s, true) =>
    match rest with
    | [] => (s, .returned false)
    | next :: _ => (s.addBlockAsInvalid next.block.hash, .threw)

/-- The old blocks are handled as alternative blocks, until one throws. -/
def pushDisconnected (handle : ChainState → Block → Option Checkpoint → ChainState × Outcome)
    (s : ChainState) : List (Block × Option Checkpoint) → ChainState × Bool
  | [] => (s, true)
  | (b, checkpoint) :: rest =>
    match handle s b checkpoint with
    | (s, .returned _) => pushDisconnected handle s rest
    | (s, .threw) => (s, false)

/-- The number of blocks up to the last one with this hash. -/
def heightAfter (s : ChainState) (id : Hash) : ℕ :=
  (s.main.rdropWhile fun entry => entry.block.hash ≠ id).length

def disconnectedFrom (s : ChainState) (height : ℕ) : List (Block × Option Checkpoint) :=
  (s.main.drop height).map fun entry =>
    (entry.block, s.getCheckpoint (getBlockHeight entry.block))

/-- After the branch has been connected its blocks are no alternative blocks any more. -/
def finishSwitch (handle : ChainState → Block → Option Checkpoint → ChainState × Outcome)
    (s : ChainState) (altChain : List AltBlock) (disconnected : List (Block × Option Checkpoint))
    (keepDisconnectedChain : Bool) : ChainState × Outcome :=
  match if keepDisconnectedChain then pushDisconnected handle s disconnected else (s, true) with
  | (s, false) => (s, .threw)
  | (s, true) =>
    match removeAltBlocks s (altChain.map fun entry => entry.block.hash) with
    | (s, true) => (s, .returned true)
    | (s, false) => (s, .threw)

def switchToAlternativeBlockchain
    (handle : ChainState → Block → Option Checkpoint → ChainState × Outcome) (s : ChainState)
    (altChain : List AltBlock) (keepDisconnectedChain : Bool) : ChainState × Outcome :=
  match altChain with
  | [] => (s, .returned false)
  | front :: _ =>
    if !s.blockExists front.block.prevId then (s, .returned false)
    else
      let splitHeight := heightAfter s front.block.prevId
      let disconnected := disconnectedFrom s splitHeight
      match connect env (detachTo s splitHeight) altChain with
      | (s, failed :: rest) =>
        discardFailed (rollbackBlockchainSwitching env s disconnected splitHeight) failed rest
      | (s, []) => finishSwitch handle s altChain disconnected keepDisconnectedChain

/-- The switch may call this again for the blocks of the old chain; `depth` bounds how deep. -/
def handleAlternativeBlock : ℕ → ChainState → Block → Option Checkpoint → ChainState × Outcome
  | 0, s, _, _ => (s, .threw)
  | depth + 1, s, b, checkpoint =>
    match assessAlternative env { s with calls := s.calls + 1 } b checkpoint with
    | (s, .finished outcome) => (s, outcome)
    | (s, .weighed w) =>
      if attemptsSwitch b.majorVersion w then
        switchToAlternativeBlockchain env (handleAlternativeBlock depth) s w.branch.blocks
          (keepsDisconnected b.majorVersion w)
      else (s, .returned true)

end Switch

section Deliver

variable (env : ChainEnv) (depth : ℕ)

/-- A checkpoint with fewer signatures than the stored one is dropped. -/
def usableCheckpoint (s : ChainState) (b : Block) (checkpoint : Option Checkpoint) :
    Option Checkpoint :=
  checkpoint.filter fun attached =>
    (s.getCheckpoint (getBlockHeight b)).all fun existing =>
      existing.signatures.length ≤ attached.signatures.length

def addNewBlock (s : ChainState) (b : Block) (checkpoint : Option Checkpoint) :
    ChainState × Outcome :=
  if s.haveBlock b.hash then (s, .returned false)
  else
    let checkpoint := usableCheckpoint s b checkpoint
    if s.tailId = some b.prevId then
      let (s, result) := handleBlockToMainChain env s b checkpoint
      (s, .returned result)
    else handleAlternativeBlock env depth s b checkpoint

/-- A block arrives, with a checkpoint or without, or the votes on a checkpoint are stored. -/
inductive ChainEvent
  | deliver (b : Block) (checkpoint : Option Checkpoint)
  | vote (checkpoint : Checkpoint)

def ChainState.step (s : ChainState) : ChainEvent → ChainState
  | .deliver b checkpoint => (addNewBlock env depth s b checkpoint).1
  | .vote checkpoint =>
    { s with toBlockchain := (s.toBlockchain.updateCheckpoint env.currentVersion checkpoint).1 }

def ChainState.after (s : ChainState) (events : List ChainEvent) : ChainState :=
  events.foldl (ChainState.step env depth) s

end Deliver

end Arqma.Chain
