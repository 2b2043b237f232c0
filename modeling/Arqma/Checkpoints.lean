import Arqma.OrderedTable
import Arqma.ServiceNodeVoting
import Arqma.SortedVector

/-!
# Checkpoints

A checkpoint names the block at a height, either hard coded or with the signatures of a
checkpointing quorum. The table of them is ordered by height. The second service node
checkpoint below the top of the chain, or a hard-coded one above it, is immutable: blocks
up to it may not be replaced.
-/
namespace Arqma.Chain
open Arqma.Cryptonote Arqma.ServiceNodes

inductive CheckpointType
  | hardcoded
  | serviceNode
deriving DecidableEq, Repr

structure VoterToSignature where
  voterIndex : ℕ
  signature : Signature
deriving DecidableEq, Repr

structure Checkpoint where
  type : CheckpointType
  height : ℕ
  blockHash : Hash
  signatures : List VoterToSignature := []
deriving DecidableEq, Repr

def Checkpoint.check (checkpoint : Checkpoint) (blockHash : Hash) : Bool :=
  checkpoint.blockHash = blockHash

def Checkpoint.voters (checkpoint : Checkpoint) : List ℕ :=
  checkpoint.signatures.map VoterToSignature.voterIndex

/-- No service node has signed it. -/
def Checkpoint.Unsigned (checkpoint : Checkpoint) : Prop :=
  checkpoint.type = .hardcoded ∧ checkpoint.signatures = []

def makeEmptyServiceNodeCheckpoint (blockHash : Hash) (height : ℕ) : Checkpoint where
  type := .serviceNode
  height := height
  blockHash := blockHash

section Verify

variable (crypto : Crypto) (hardForkVersion : ℕ) (checkpoint : Checkpoint) (quorum : Quorum)

/-- The loop over the signatures, with the voters seen. -/
def verifySignatures : List ℕ → List VoterToSignature → Bool
  | _, [] => true
  | seen, signature :: rest =>
    if 17 ≤ hardForkVersion && rest.head?.any fun next =>
        next.voterIndex ≤ signature.voterIndex then false
    else
      match quorum.validators[signature.voterIndex]? with
      | none => false
      | some key =>
        if signature.voterIndex ∈ seen then false
        else if !crypto.checkSignature checkpoint.blockHash key signature.signature then false
        else verifySignatures (signature.voterIndex :: seen) rest

def verifyCheckpoint : Bool :=
  match checkpoint.type with
  | .serviceNode =>
    if checkpoint.height % checkpointInterval ≠ 0 then false
    else if checkpoint.signatures.length < checkpointMinVotes then false
    else if checkpointQuorumSize < checkpoint.signatures.length then false
    else verifySignatures crypto hardForkVersion checkpoint quorum [] checkpoint.signatures
  | .hardcoded => checkpoint.signatures.length = 0

end Verify

abbrev CheckpointTable := OrderedTable Checkpoint.height

/-- The type is not written: it is read off the signatures. -/
def Checkpoint.readBack (checkpoint : Checkpoint) : Checkpoint :=
  { checkpoint with
    type := if 0 < checkpoint.signatures.length then .serviceNode else .hardcoded }

namespace CheckpointTable

def updateBlockCheckpoint (table : CheckpointTable) (checkpoint : Checkpoint) : CheckpointTable :=
  table.put checkpoint.readBack

def getTopCheckpoint (table : CheckpointTable) : Option Checkpoint := table.rows.getLast?

/-- The heights from `start` to `stop`, both included, upwards or downwards. -/
def heightsBetween (start stop : ℕ) : List ℕ :=
  if start ≤ stop then List.range' start (stop + 1 - start)
  else (List.range' stop (start + 1 - stop)).reverse

/-- At most `count` checkpoints from `start` on towards `stop`; zero stands for all. The
bounds are first moved into the range of the table. -/
def getCheckpointsRange (table : CheckpointTable) (start stop count : ℕ) : List Checkpoint :=
  match table.rows.head?, table.getTopCheckpoint with
  | some bottom, some top =>
    let start := max bottom.height (min start top.height)
    let stop := max bottom.height (min stop top.height)
    match (heightsBetween start stop).findSome? fun height => table.find? height with
    | none => []
    | some first =>
      let inside := table.rows.filter fun c =>
        min start stop ≤ c.height ∧ c.height ≤ max start stop
      let rest :=
        if start ≤ stop then inside.filter fun c => first.height < c.height
        else (inside.filter fun c => c.height < first.height).reverse
      if count = 0 then first :: rest else (first :: rest).take count
  | _, _ => []

/-- The checkpoint that a chain of this height must not be replaced below. -/
def getImmutableCheckpoint (table : CheckpointTable) (blockHeight : ℕ) : Option Checkpoint :=
  match table.getCheckpointsRange blockHeight 0 checkpointNumCheckpointsForChainFinality with
  | [] => none
  | first :: rest =>
    if first.type ≠ .serviceNode then some first else rest.head?

end CheckpointTable

/-- The class `checkpoints`: the table and the heights it keeps in memory. -/
structure Checkpoints where
  db : CheckpointTable := OrderedTable.empty
  lastCullHeight : ℕ := 0
  immutableHeight : ℕ := 0
deriving DecidableEq

namespace Checkpoints

def updateCheckpoint (c : Checkpoints) (checkpoint : Checkpoint) : Checkpoints :=
  { c with db := c.db.updateBlockCheckpoint checkpoint }

/-- The loop of `blockchain_detached`: from the top checkpoint down in steps of the interval. -/
def removeDownTo (height : ℕ) : ℕ → ℕ → CheckpointTable → CheckpointTable
  | 0, _, table => table
  | fuel + 1, deleteHeight, table =>
    if height ≤ deleteHeight ∧ checkpointInterval ≤ deleteHeight then
      removeDownTo height fuel (deleteHeight - checkpointInterval) (table.remove deleteHeight)
    else table

def blockchainDetached (c : Checkpoints) (height : ℕ) : Checkpoints :=
  { c with
    lastCullHeight := min c.lastCullHeight height
    db := match c.db.getTopCheckpoint with
      | none => c.db
      | some top => removeDownTo height (top.height + 1) top.height c.db }

/-- The loop of `block_added`: forget the checkpoints below `stop`, but keep one in fifteen.
Returns where it ended. -/
def cullUpTo (stop : ℕ) : ℕ → ℕ → CheckpointTable → ℕ × CheckpointTable
  | 0, last, table => (last, table)
  | fuel + 1, last, table =>
    if last < stop then
      cullUpTo stop fuel (last + checkpointInterval)
        (if last % checkpointStorePersistentlyInterval = 0 then table else table.remove last)
    else (last, table)

/-- The first height to be culled, a multiple of the interval. -/
def startCullHeight (endCullHeight : ℕ) : ℕ :=
  let start := endCullHeight - checkpointStorePersistentlyInterval
  if 0 < start % checkpointInterval then start + (checkpointInterval - start % checkpointInterval)
  else start

/-- The height is the one the miner transaction claims. -/
def blockAdded (c : Checkpoints) (b : Block) (checkpoint : Option Checkpoint) : Checkpoints :=
  let height := getBlockHeight b
  if height < checkpointStorePersistentlyInterval ∨ b.majorVersion < 16 then c
  else
    let endCullHeight := match c.db.getImmutableCheckpoint (height + 1) with
      | some immutable => immutable.height
      | none => 0
    let (lastCullHeight, db) := cullUpTo endCullHeight endCullHeight
      (max c.lastCullHeight (startCullHeight endCullHeight)) c.db
    let culled := { c with lastCullHeight, db }
    match checkpoint with
    | some checkpoint => culled.updateCheckpoint checkpoint
    | none => culled

def isInCheckpointZone (c : Checkpoints) (height : ℕ) : Bool :=
  height ≤ match c.db.getTopCheckpoint with
    | some top => top.height
    | none => 0

/-- No stored checkpoint at the height names another block. -/
def checkBlock (c : Checkpoints) (height : ℕ) (blockHash : Hash) : Bool :=
  (c.db.find? height).all fun checkpoint => checkpoint.check blockHash

/-- No checkpoint is stored at or below the height of the chain. Then every alternative block
is allowed, and the immutable height of before is not looked at. -/
def beforeFirst (c : Checkpoints) (blockchainHeight : ℕ) : Bool :=
  match c.db.getCheckpointsRange 0 blockchainHeight 1 with
  | [] => true
  | first :: _ => blockchainHeight < first.height

/-- The immutable height only grows. -/
def isAlternativeBlockAllowed (c : Checkpoints) (blockchainHeight blockHeight : ℕ) :
    Checkpoints × Bool :=
  if blockHeight = 0 then (c, false)
  else if c.beforeFirst blockchainHeight then (c, true)
  else
    let immutableHeight := match c.db.getImmutableCheckpoint blockchainHeight with
      | some immutable => immutable.height
      | none => 0
    let remembered := { c with immutableHeight := max immutableHeight c.immutableHeight }
    (remembered, remembered.immutableHeight < blockHeight)

end Checkpoints

section Lemmas

variable {table : CheckpointTable} {checkpoint : Checkpoint}

@[simp] theorem Checkpoint.readBack_height (checkpoint : Checkpoint) :
    checkpoint.readBack.height = checkpoint.height := rfl

theorem find?_updateBlockCheckpoint :
    (table.updateBlockCheckpoint checkpoint).find? checkpoint.height = some checkpoint.readBack :=
  OrderedTable.find?_eq_some.mpr ⟨OrderedTable.mem_put.mpr (Or.inl rfl), rfl⟩

end Lemmas

section Verification

variable {crypto : Crypto} {hardForkVersion : ℕ} {checkpoint : Checkpoint} {quorum : Quorum}

/-- The signature is of the checkpoint's block by the validator at the voter's index. -/
def SignedBy (crypto : Crypto) (quorum : Quorum) (blockHash : Hash)
    (signature : VoterToSignature) : Prop :=
  ∃ key, quorum.validators[signature.voterIndex]? = some key ∧
    crypto.checkSignature blockHash key signature.signature = true

theorem SignedBy.lt_length {blockHash : Hash} {signature : VoterToSignature}
    (h : SignedBy crypto quorum blockHash signature) :
    signature.voterIndex < quorum.validators.length := by
  obtain ⟨key, hkey, -⟩ := h
  exact (List.getElem?_eq_some_iff.mp hkey).1

/-- Valid signatures in increasing order of their voters pass the loop at every version. -/
theorem verifySignatures_of_increasing {signatures : List VoterToSignature}
    (hincreasing : SortedVector.Increasing VoterToSignature.voterIndex signatures)
    (hsigned : ∀ signature ∈ signatures, SignedBy crypto quorum checkpoint.blockHash signature)
    {seen : List ℕ} (hseen : ∀ signature ∈ signatures, signature.voterIndex ∉ seen) :
    verifySignatures crypto hardForkVersion checkpoint quorum seen signatures = true := by
  induction signatures generalizing seen with
  | nil => rfl
  | cons signature rest ih =>
    rw [SortedVector.Increasing, List.pairwise_cons] at hincreasing
    obtain ⟨key, hkey, hcheck⟩ := hsigned signature List.mem_cons_self
    have hascending : (17 ≤ hardForkVersion && rest.head?.any fun next =>
        next.voterIndex ≤ signature.voterIndex) = false := by
      cases rest with
      | nil => simp
      | cons next rest => simp [hincreasing.1 next List.mem_cons_self]
    grind [SortedVector.Increasing, verifySignatures]

/-- What a stored service node checkpoint needs in order to verify. -/
theorem verifyCheckpoint_of_increasing (htype : checkpoint.type = .serviceNode)
    (hheight : checkpoint.height % checkpointInterval = 0)
    (hmin : checkpointMinVotes ≤ checkpoint.signatures.length)
    (hmax : checkpoint.signatures.length ≤ checkpointQuorumSize)
    (hincreasing : SortedVector.Increasing VoterToSignature.voterIndex checkpoint.signatures)
    (hsigned : ∀ signature ∈ checkpoint.signatures,
      SignedBy crypto quorum checkpoint.blockHash signature) :
    verifyCheckpoint crypto hardForkVersion checkpoint quorum = true := by
  grind [verifyCheckpoint, verifySignatures_of_increasing]

end Verification

end Arqma.Chain
