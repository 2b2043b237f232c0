import Arqma.Checkpoints

/-!
# The main chain and its checkpoints

The blocks of the main chain, genesis first, and the checkpoints kept along with them. The
version of the hard fork at the end of a chain is a parameter.
-/
namespace Arqma.Chain
open Arqma.Cryptonote Arqma.ServiceNodes

structure MainBlock where
  block : Block
  cumulativeDifficulty : ℕ := 0
  alreadyGeneratedCoins : UInt64 := 0
deriving DecidableEq

structure Blockchain where
  main : List MainBlock
  checkpoints : Checkpoints := {}
deriving DecidableEq

namespace Blockchain

/-- The number of blocks, genesis included. -/
def height (chain : Blockchain) : ℕ := chain.main.length

def getCheckpoint (chain : Blockchain) (height : ℕ) : Option Checkpoint :=
  chain.checkpoints.db.find? height

/-- Remove blocks from the end, never the genesis block, and tell the checkpoints. -/
def popBlocks (chain : Blockchain) (nblocks : ℕ) : Blockchain :=
  let main := chain.main.take (chain.height - min nblocks (chain.height - 1))
  { chain with main, checkpoints := chain.checkpoints.blockchainDetached main.length }

/-- The main chain has another block at the height of the checkpoint. -/
def contradicts (chain : Blockchain) (checkpoint : Checkpoint) : Bool :=
  chain.main[checkpoint.height]?.any fun entry => !checkpoint.check entry.block.hash

/-- Store a checkpoint. From version 17 on a block that it contradicts is popped first, with
all above it; the height the chain was detached to is returned for the other hooks. -/
def updateCheckpoint (currentVersion : List MainBlock → ℕ) (chain : Blockchain)
    (checkpoint : Checkpoint) : Blockchain × Option ℕ :=
  if chain.contradicts checkpoint && 17 ≤ currentVersion chain.main then
    -- The parent's hash is read for a log line, and that throws below the genesis block.
    if checkpoint.height = 0 then (chain, none)
    else
      let popped := chain.popBlocks (chain.height - checkpoint.height)
      ({ popped with checkpoints := popped.checkpoints.updateCheckpoint checkpoint },
        some popped.height)
  else ({ chain with checkpoints := chain.checkpoints.updateCheckpoint checkpoint }, none)

variable {chain : Blockchain} {checkpoint : Checkpoint}

theorem lt_height_of_contradicts (h : chain.contradicts checkpoint = true) :
    checkpoint.height < chain.height := by
  unfold contradicts at h
  cases hblock : chain.main[checkpoint.height]? with
  | none => simp [hblock] at h
  | some entry => exact (List.getElem?_eq_some_iff.mp hblock).1

theorem height_popBlocks (nblocks : ℕ) :
    (chain.popBlocks nblocks).height = chain.height - min nblocks (chain.height - 1) := by
  simp only [popBlocks, height, List.length_take]
  omega

/-- The checkpoint is stored, and a chain that had to be popped ends just below it. -/
theorem updateCheckpoint_spec (currentVersion : List MainBlock → ℕ) (chain : Blockchain)
    (hheight : checkpoint.height ≠ 0) :
    (chain.updateCheckpoint currentVersion checkpoint).1.getCheckpoint checkpoint.height =
        some checkpoint.readBack ∧
      ∀ detached ∈ (chain.updateCheckpoint currentVersion checkpoint).2,
        detached = checkpoint.height := by
  unfold updateCheckpoint
  split <;> grind [getCheckpoint, contradicts, height, Checkpoints.updateCheckpoint,
    height_popBlocks, find?_updateBlockCheckpoint]

end Blockchain

end Arqma.Chain
