import Mathlib.Data.Nat.Pairing
import Arqma.Cryptonote
import Arqma.OrderedTable

/-!
# The tables of the block database

`add_block` writes the transactions of a block and then the block itself, each into several
tables, and `pop_block` takes the top block away in the opposite order. A function returns
nothing where the source throws, and the write transaction is then given up. The blobs are kept
as what they parse to.
-/
namespace Arqma.BlockchainDb
open Arqma.Cryptonote List OrderedTable

variable {b : NewBlock} {blacklisted : List ℕ} {indices : List ℕ} {txs : List (Hash × StoredTx)}
  {t t' : OutputTables} {txHash : Hash}

/-- A coinbase transaction has one generating input; transfers and staking contributions have
only inputs that spend outputs. -/
def WellKinded (tx : Transaction) : Prop :=
  (∃ height, tx.vin = [.gen height]) ∨
    ∀ input ∈ tx.vin, ∃ amount offsets image, input = .toKey amount offsets image

/-- The part of a transaction that is never pruned. -/
structure PrunedTx where
  tx : Transaction
  unlockTime : UInt64 := 0
  outputUnlockTimes : List UInt64 := []
  wellKinded : WellKinded tx
deriving DecidableEq

structure StoredTx extends PrunedTx where
  prunable : List UInt8 := []
  prunableHash : Hash := 0
deriving DecidableEq

/-- A block with its miner transaction as it is stored, whose hash the source computes. -/
structure StoredBlock where
  block : Block
  miner : StoredTx
  minerHash : Hash
  miner_tx : miner.tx = block.minerTx
deriving DecidableEq

structure BlockInfo where
  height : ℕ
  timestamp : UInt64
  coins : UInt64
  weight : ℕ
  diff : ℕ
  hash : Hash
  cumRct : ℕ
  longTermBlockWeight : ℕ
deriving DecidableEq

structure BlkHeight where
  hash : Hash
  height : ℕ
deriving DecidableEq

structure TxIndex where
  key : Hash
  txId : ℕ
  unlockTime : UInt64
  blockId : ℕ
deriving DecidableEq

structure OutTx where
  outputId : ℕ
  txHash : Hash
  localIndex : ℕ
deriving DecidableEq

/-- The commitment is written for the amount zero only. -/
structure OutKey where
  amount : UInt64
  amountIndex : ℕ
  outputId : ℕ
  pubkey : PublicKey
  unlockTime : UInt64
  height : ℕ
  commitment : Option (BitVec 256)
deriving DecidableEq

/-- The amount first, then the index. The order of different amounts plays no part. -/
def OutKey.key (row : OutKey) : ℕ := Nat.pair row.amount.toNat row.amountIndex

abbrev ById (α : Type) := OrderedTable (Prod.fst : ℕ × α → ℕ)

section Outputs

structure OutputTables where
  outputTxs : OrderedTable OutTx.outputId := OrderedTable.empty
  outputAmounts : OrderedTable OutKey.key := OrderedTable.empty
deriving DecidableEq

namespace OutputTables

def numOutputs (t : OutputTables) : ℕ :=
  match t.outputTxs.rows.getLast? with
  | none => 0
  | some last => 1 + last.outputId

/-- How many outputs of the amount there are. -/
def countOf (t : OutputTables) (amount : UInt64) : ℕ :=
  (t.outputAmounts.rows.filter fun row => row.amount = amount).length

def appendAmount (t : OrderedTable OutKey.key) (row : OutKey) : Option (OrderedTable OutKey.key) :=
  if ∀ other ∈ t.rows, other.amount = row.amount → other.amountIndex < row.amountIndex then
    some (t.put row)
  else none

/-- The index among the outputs of the amount is returned. -/
def addOutput (t : OutputTables) (height : ℕ) (txHash : Hash) (output : TxOut) (localIndex : ℕ)
    (unlockTime : UInt64) (commitment : Option (BitVec 256)) : Option (OutputTables × ℕ) :=
  match output.target with
  | .toKey pubkey =>
    if output.amount = 0 ∧ commitment = none then none
    else do
      let outputTxs ← t.outputTxs.append ⟨t.numOutputs, txHash, localIndex⟩
      let amountIndex := t.countOf output.amount
      let outputAmounts ← appendAmount t.outputAmounts
        { amount := output.amount, amountIndex, outputId := t.numOutputs, pubkey, unlockTime, height
          commitment := if output.amount = 0 then commitment else none }
      some (⟨outputTxs, outputAmounts⟩, amountIndex)
  | _ => none

def removeOutput (t : OutputTables) (amount : UInt64) (outIndex : ℕ) : Option OutputTables := do
  let row ← t.outputAmounts.find? (Nat.pair amount.toNat outIndex)
  let outputTxs ← t.outputTxs.delete row.outputId
  let outputAmounts ← t.outputAmounts.delete (Nat.pair amount.toNat outIndex)
  some ⟨outputTxs, outputAmounts⟩

end OutputTables

def isGen : TxIn → Bool
  | .gen _ => true
  | _ => false

/-- As `add_transaction` decides it: some input generates coins. -/
def addsAsRct (tx : Transaction) : Bool := tx.vin.any isGen && 2 ≤ tx.version

/-- As `remove_tx_outputs` decides it: the only input generates coins. -/
def isPseudoRct (tx : Transaction) : Bool :=
  2 ≤ tx.version && match tx.vin with
    | [.gen _] => true
    | _ => false

section AddOutputs

variable (zeroCommit : UInt64 → BitVec 256) (height : ℕ) (txHash : Hash) (entry : PrunedTx)

def unlockTimeOf (index : ℕ) : UInt64 :=
  if 3 ≤ entry.tx.version then entry.outputUnlockTimes.getD index 0 else entry.unlockTime

/-- An output of a miner transaction is stored with the amount zero. -/
def addOutputAt (t : OutputTables) (i : ℕ) (output : TxOut) : Option (OutputTables × ℕ) :=
  if addsAsRct entry.tx then
    t.addOutput height txHash { output with amount := 0 } i (unlockTimeOf entry i)
      (some (zeroCommit output.amount))
  else
    t.addOutput height txHash output i (unlockTimeOf entry i)
      (if 2 ≤ entry.tx.version then entry.tx.rctSignatures.outPk[i]? else none)

/-- The loop over the outputs. -/
def addOutputs : OutputTables → ℕ → List TxOut → Option (OutputTables × List ℕ)
  | t, _, [] => some (t, [])
  | t, i, output :: rest => do
    let (t, index) ← addOutputAt zeroCommit height txHash entry t i output
    let (t, indices) ← addOutputs t (i + 1) rest
    some (t, index :: indices)

end AddOutputs

/-- From the last output to the first. -/
def removeOutputs (t : OutputTables) : List (UInt64 × ℕ) → Option OutputTables
  | [] => some t
  | (amount, index) :: rest => do
    let t ← removeOutputs t rest
    t.removeOutput amount index

end Outputs

structure Tables where
  blocks : ById StoredBlock := OrderedTable.empty
  blockInfo : OrderedTable BlockInfo.height := OrderedTable.empty
  blockHeights : OrderedTable (fun row : BlkHeight => row.hash.toNat) := OrderedTable.empty
  txIndices : OrderedTable (fun row : TxIndex => row.key.toNat) := OrderedTable.empty
  txsPruned : ById PrunedTx := OrderedTable.empty
  txsPrunable : ById (List UInt8) := OrderedTable.empty
  txsPrunableHash : ById Hash := OrderedTable.empty
  txsPrunableTip : ById ℕ := OrderedTable.empty
  txOutputs : ById (List ℕ) := OrderedTable.empty
  outputs : OutputTables := {}
  spentKeys : OrderedTable (BitVec.toNat : KeyImage → ℕ) := OrderedTable.empty
deriving DecidableEq

/-- What does not change while the database is open. -/
structure DbEnv where
  zeroCommit : UInt64 → BitVec 256
  pruningSeed : ℕ

/-- The arguments of `add_block`. -/
structure NewBlock where
  stored : StoredBlock
  weight : ℕ := 0
  longTermWeight : ℕ := 0
  cumulativeDifficulty : ℕ := 0
  coinsGenerated : UInt64 := 0
  txs : List StoredTx := []

def addSpentKeys : OrderedTable (BitVec.toNat : KeyImage → ℕ) → List TxIn →
    Option (OrderedTable (BitVec.toNat : KeyImage → ℕ))
  | keys, [] => some keys
  | keys, .toKey _ _ image :: rest => do
    let keys ← keys.addNew image
    addSpentKeys keys rest
  | keys, .gen _ :: rest => addSpentKeys keys rest
  | _, _ => none

/-- A key image that is not there is passed over. -/
def removeSpentKeys (keys : OrderedTable (BitVec.toNat : KeyImage → ℕ)) : List TxIn →
    OrderedTable (BitVec.toNat : KeyImage → ℕ)
  | [] => keys
  | .toKey _ _ image :: rest => removeSpentKeys (keys.remove image.toNat) rest
  | _ :: rest => removeSpentKeys keys rest

/-- A staking contribution, whose outputs nobody can spend for a while. -/
def hasBlacklistedOutputs (tx : Transaction) : Bool :=
  2 ≤ tx.version && (getTxSecretKeyFromTxExtra tx.extra).isSome &&
    (getServiceNodeContributorFromTxExtra tx.extra).isSome

namespace Tables

def height (t : Tables) : ℕ := t.blocks.rows.length

def getTxCount (t : Tables) : ℕ := t.txsPruned.rows.length

section Add

variable (env : DbEnv)

/-- From version 2 on the hash of the prunable part is kept. -/
def addPrunableHash (t : Tables) (txId : ℕ) (entry : StoredTx) : Option (ById Hash) :=
  if 2 ≤ entry.tx.version then t.txsPrunableHash.append (txId, entry.prunableHash)
  else some t.txsPrunableHash

/-- The id of the transaction is returned. -/
def addTransactionData (t : Tables) (txHash : Hash) (entry : StoredTx) : Option (Tables × ℕ) := do
  let txId := t.getTxCount
  let txIndices ← t.txIndices.addNew ⟨txHash, txId, entry.unlockTime, t.height⟩
  let txsPruned ← t.txsPruned.append (txId, entry.toPrunedTx)
  let txsPrunable ← t.txsPrunable.append (txId, entry.prunable)
  let txsPrunableTip :=
    if env.pruningSeed ≠ 0 then t.txsPrunableTip.put (txId, t.height) else t.txsPrunableTip
  let txsPrunableHash ← t.addPrunableHash txId entry
  some ({ t with txIndices, txsPruned, txsPrunable, txsPrunableTip, txsPrunableHash }, txId)

/-- Returns the indices that go on the blacklist. -/
def addTransaction (t : Tables) (txHash : Hash) (entry : StoredTx) : Option (Tables × List ℕ) := do
  let spentKeys ← addSpentKeys t.spentKeys entry.tx.vin
  let (t, txId) ← addTransactionData env { t with spentKeys } txHash entry
  let (outputs, indices) ← addOutputs env.zeroCommit t.height txHash entry.toPrunedTx t.outputs 0
    entry.tx.vout
  let txOutputs ← t.txOutputs.append (txId, indices)
  some ({ t with outputs, txOutputs }, if hasBlacklistedOutputs entry.tx then indices else [])

def addTransactions : Tables → List (Hash × StoredTx) → Option (Tables × List ℕ)
  | t, [] => some (t, [])
  | t, (txHash, entry) :: rest => do
    let (t, indices) ← addTransaction env t txHash entry
    let (t, more) ← addTransactions t rest
    some (t, indices ++ more)

/-- The parent of a block that is not the first is the top block. -/
def parentOk (t : Tables) (prevId : Hash) : Bool :=
  t.height = 0 || (t.blockHeights.find? prevId.toNat).any fun row => row.height = t.height - 1

/-- The outputs that count so far at the end of the chain; from version 7 on it is an error if
there is no block before. -/
def previousRct (t : Tables) (majorVersion : ℕ) : Option ℕ :=
  if 7 ≤ majorVersion then
    if t.height = 0 then none else (t.blockInfo.find? (t.height - 1)).map BlockInfo.cumRct
  else some 0

/-- `BlockchainLMDB::add_block`. -/
def putBlock (t : Tables) (b : NewBlock) (numRctOuts : ℕ) : Option Tables :=
  let block := b.stored.block
  if t.parentOk block.prevId then do
    let blockHeights ← t.blockHeights.addNew ⟨block.hash, t.height⟩
    let blocks ← t.blocks.append (t.height, b.stored)
    let previous ← t.previousRct block.majorVersion
    let blockInfo ← t.blockInfo.append
      { height := t.height, timestamp := block.timestamp, coins := b.coinsGenerated
        weight := b.weight, diff := b.cumulativeDifficulty, hash := block.hash
        cumRct := numRctOuts + previous, longTermBlockWeight := b.longTermWeight }
    some { t with blocks, blockInfo, blockHeights }
  else none

def numRctOuts (b : NewBlock) : ℕ :=
  (if 2 ≤ b.stored.miner.tx.version then b.stored.miner.tx.vout.length else 0) +
    (b.txs.map fun entry => (entry.tx.vout.filter fun output => output.amount = 0).length).sum

/-- `BlockchainDB::add_block`, with the indices that go on the blacklist. -/
def addBlock (t : Tables) (b : NewBlock) : Option (Tables × List ℕ) :=
  if b.stored.block.txHashes.length ≠ b.txs.length then none
  else do
    let (t, indices) ← addTransaction env t b.stored.minerHash b.stored.miner
    let (t, more) ← addTransactions env t (b.stored.block.txHashes.zip b.txs)
    let t ← t.putBlock b (numRctOuts b)
    some (t, indices ++ more)

end Add

section Remove

/-- The transaction without its prunable part. -/
def getPrunedTx (t : Tables) (txHash : Hash) : Option (TxIndex × PrunedTx) := do
  let index ← t.txIndices.find? txHash.toNat
  let row ← t.txsPruned.find? index.txId
  some (index, row.2)

def removeTxOutputs (t : Tables) (txId : ℕ) (tx : Transaction) : Option OutputTables :=
  let indices := match t.txOutputs.find? txId with
    | some row => row.2
    | none => []
  if indices = [] ∧ tx.vout ≠ [] then none
  else
    removeOutputs t.outputs ((tx.vout.map fun output =>
      if isPseudoRct tx then 0 else output.amount).zip indices)

def removePrunableHash (t : Tables) (txId : ℕ) (tx : Transaction) : Option (ById Hash) :=
  if 2 ≤ tx.version then t.txsPrunableHash.delete txId else some t.txsPrunableHash

def removeTransactionData (t : Tables) (txHash : Hash) (tx : Transaction) : Option Tables := do
  let index ← t.txIndices.find? txHash.toNat
  let txsPruned ← t.txsPruned.delete index.txId
  let txsPrunable := t.txsPrunable.remove index.txId
  let txsPrunableTip := t.txsPrunableTip.remove index.txId
  let txsPrunableHash ← t.removePrunableHash index.txId tx
  let outputs ← t.removeTxOutputs index.txId tx
  let txOutputs := t.txOutputs.remove index.txId
  let txIndices ← t.txIndices.delete txHash.toNat
  some { t with
    txsPruned, txsPrunable, txsPrunableTip, txsPrunableHash, outputs, txOutputs, txIndices }

def removeTransaction (t : Tables) (txHash : Hash) : Option Tables := do
  let (_, entry) ← t.getPrunedTx txHash
  removeTransactionData { t with spentKeys := removeSpentKeys t.spentKeys entry.tx.vin } txHash
    entry.tx

/-- From the last transaction to the first. -/
def removeTransactions (t : Tables) : List Hash → Option Tables
  | [] => some t
  | txHash :: rest => do
    let t ← removeTransactions t rest
    t.removeTransaction txHash

/-- The cursor of the blocks is still on the top block. -/
def removeBlock (t : Tables) : Option Tables :=
  if t.height = 0 then none
  else do
    let info ← t.blockInfo.find? (t.height - 1)
    let blockHeights ← t.blockHeights.delete info.hash.toNat
    let blocks ← t.blocks.delete (t.height - 1)
    let blockInfo ← t.blockInfo.delete (t.height - 1)
    some { t with blocks, blockInfo, blockHeights }

def popBlock (t : Tables) : Option Tables := do
  let (_, top) ← t.blocks.find? (t.height - 1)
  let t ← t.removeBlock
  let t ← t.removeTransactions top.block.txHashes
  t.removeTransaction top.minerHash

end Remove

end Tables

/-- The tables with the output blacklist, which nothing is ever removed from. -/
structure Db extends Tables where
  outputBlacklist : OrderedTable (id : ℕ → ℕ) := OrderedTable.empty
deriving DecidableEq

namespace Db

def addOutputBlacklist (blacklist : OrderedTable (id : ℕ → ℕ)) (indices : List ℕ) :
    OrderedTable (id : ℕ → ℕ) :=
  indices.foldl (fun table index => table.put index) blacklist

def addBlock (env : DbEnv) (db : Db) (b : NewBlock) : Option Db := do
  let (tables, indices) ← db.toTables.addBlock env b
  some ⟨tables, addOutputBlacklist db.outputBlacklist indices⟩

def popBlock (db : Db) : Option Db := do
  let tables ← db.toTables.popBlock
  some { db with toTables := tables }

end Db

section UndoOutputs

theorem addsAsRct_eq {tx : Transaction} (h : WellKinded tx) : addsAsRct tx = isPseudoRct tx := by
  obtain ⟨height, hgen⟩ | hspends := h
  · simp [addsAsRct, isPseudoRct, hgen, isGen]
  · have hnone : tx.vin.any isGen = false := by
      rw [any_eq_false]
      intro input hinput
      obtain ⟨amount, offsets, image, rfl⟩ := hspends input hinput
      exact Bool.false_ne_true
    grind [addsAsRct, isPseudoRct]

theorem OutputTables.appendAmount_eq_some {t t' : OrderedTable OutKey.key} {row : OutKey}
    (h : appendAmount t row = some t') : t.Free row.key ∧ t' = t.put row := by
  grind [OutKey.key, appendAmount, OrderedTable.Free, Nat.pair_eq_pair.mp, UInt64.toNat_inj.mp]

theorem OutputTables.removeOutput_addOutput {height : ℕ}
    {output : TxOut} {localIndex index : ℕ} {unlockTime : UInt64} {commitment : Option (BitVec 256)}
    (h : t.addOutput height txHash output localIndex unlockTime commitment = some (t', index)) :
    t'.removeOutput output.amount index = some t := by
  unfold addOutput at h
  split at h
  next pubkey htarget =>
    by_cases hcommit : output.amount = 0 ∧ commitment = none
    · rw [if_pos hcommit] at h
      cases h
    rw [if_neg hcommit] at h
    simp only [Option.bind_eq_bind, Option.bind_eq_some_iff, Option.some.injEq, Prod.mk.injEq] at h
    obtain ⟨outputTxs, htxs, outputAmounts, hamounts, rfl, rfl⟩ := h
    obtain ⟨hfresh, rfl⟩ := append_eq_some.mp htxs
    obtain ⟨hfree, rfl⟩ := appendAmount_eq_some hamounts
    have hfind := find?_put t.outputAmounts
      (OutKey.mk output.amount (t.countOf output.amount) t.numOutputs pubkey unlockTime height
        (if output.amount = 0 then commitment else none))
    have hdelete := delete_put hfree
    have hdeleteTx := delete_put (free_of_lt hfresh)
    rw [OutKey.key] at hfind hdelete
    simp only [removeOutput, Option.bind_eq_bind, hfind, Option.bind_some, hdeleteTx, hdelete]
  next => cases h

variable {zeroCommit : UInt64 → BitVec 256} {height : ℕ} {txHash : Hash} {entry : PrunedTx}

/-- The last output added is the first one removed. -/
theorem removeOutputs_addOutputs {i : ℕ} {outs : List TxOut}
    (h : addOutputs zeroCommit height txHash entry t i outs = some (t', indices)) :
    indices.length = outs.length ∧
      removeOutputs t' ((outs.map fun output =>
        if isPseudoRct entry.tx then 0 else output.amount).zip indices) = some t := by
  induction outs generalizing t i indices with
  | nil =>
    simp only [addOutputs, Option.some.injEq, Prod.mk.injEq] at h
    obtain ⟨rfl, rfl⟩ := h
    exact ⟨rfl, rfl⟩
  | cons output rest ih =>
    simp only [addOutputs, Option.bind_eq_bind, Option.bind_eq_some_iff, Prod.exists,
      Option.some.injEq, Prod.mk.injEq] at h
    obtain ⟨t₁, index, hadd, t₂, more, hrest, rfl, rfl⟩ := h
    obtain ⟨hlength, hremove⟩ := ih hrest
    refine ⟨by rw [length_cons, length_cons, hlength], ?_⟩
    rw [map_cons, zip_cons_cons, removeOutputs, hremove, Option.bind_eq_bind,
      Option.bind_some, ← addsAsRct_eq entry.wellKinded]
    unfold addOutputAt at hadd
    by_cases hrct : addsAsRct entry.tx = true
    · rw [if_pos hrct] at hadd ⊢
      exact OutputTables.removeOutput_addOutput hadd
    · rw [if_neg hrct] at hadd ⊢
      exact OutputTables.removeOutput_addOutput hadd

end UndoOutputs

section UndoSpentKeys

variable {keys keys' : OrderedTable (BitVec.toNat : KeyImage → ℕ)} {vin : List TxIn}
  {image : KeyImage}

theorem mem_removeSpentKeys :
    image ∈ (removeSpentKeys keys vin).rows ↔ image ∈ keys.rows ∧ image ∉ spentImages vin := by
  induction vin generalizing keys with
  | nil => simp [removeSpentKeys, spentImages]
  | cons input rest ih =>
    cases input with
    | toKey amount offsets spent =>
      rw [removeSpentKeys, ih, mem_remove, spentImages, mem_cons, not_or,
        and_assoc, BitVec.toNat_ne_iff_ne]
    | gen height => exact ih
    | toScript prev prevout => exact ih
    | toScriptHash prev prevout => exact ih

theorem addSpentKeys_spec (h : addSpentKeys keys vin = some keys') (image : KeyImage) :
    (image ∈ keys'.rows ↔ image ∈ keys.rows ∨ image ∈ spentImages vin) ∧
      (image ∈ spentImages vin → image ∉ keys.rows) := by
  induction vin generalizing keys with
  | nil =>
    obtain rfl := Option.some.inj h
    simp [spentImages]
  | cons input rest ih =>
    cases input with
    | toKey amount offsets spent =>
      simp only [addSpentKeys, Option.bind_eq_bind, Option.bind_eq_some_iff] at h
      obtain ⟨keys₁, hadd, hrest⟩ := h
      obtain ⟨hfree, rfl⟩ := addNew_eq_some.mp hadd
      grind [OrderedTable.Free, mem_put, spentImages]
    | gen height => exact ih h
    | toScript prev prevout => cases h
    | toScriptHash prev prevout => cases h

theorem removeSpentKeys_addSpentKeys (h : addSpentKeys keys vin = some keys') :
    removeSpentKeys keys' vin = keys := by
  refine ext_mem fun image => ?_
  obtain ⟨hmem, hnew⟩ := addSpentKeys_spec h image
  grind [mem_removeSpentKeys]

end UndoSpentKeys

section UndoTransactions

variable {env : DbEnv} {t t' : Tables} {txHash : Hash} {entry : StoredTx}

/-- Every id in the table of the tips is that of a transaction. -/
def TipsKnown (t : Tables) : Prop :=
  ∀ tip ∈ t.txsPrunableTip.rows, ∃ row ∈ t.txsPruned.rows, row.1 = tip.1

/-- What a transaction adds, table by table. -/
structure Added (env : DbEnv) (t : Tables) (txHash : Hash) (entry : StoredTx) (indices : List ℕ)
    (t' : Tables) : Prop where
  indicesFree : t.txIndices.Free txHash.toNat
  prunedLast : ∀ row ∈ t.txsPruned.rows, row.1 < t.getTxCount
  prunableLast : ∀ row ∈ t.txsPrunable.rows, row.1 < t.getTxCount
  outputsLast : ∀ row ∈ t.txOutputs.rows, row.1 < t.getTxCount
  blocks : t'.blocks = t.blocks
  blockInfo : t'.blockInfo = t.blockInfo
  blockHeights : t'.blockHeights = t.blockHeights
  txIndices : t'.txIndices =
    t.txIndices.put ⟨txHash, t.getTxCount, entry.unlockTime, t.height⟩
  txsPruned : t'.txsPruned = t.txsPruned.put (t.getTxCount, entry.toPrunedTx)
  txsPrunable : t'.txsPrunable = t.txsPrunable.put (t.getTxCount, entry.prunable)
  txsPrunableTip : t'.txsPrunableTip =
    if env.pruningSeed ≠ 0 then t.txsPrunableTip.put (t.getTxCount, t.height)
    else t.txsPrunableTip
  txsPrunableHash : t.addPrunableHash t.getTxCount entry = some t'.txsPrunableHash
  txOutputs : t'.txOutputs = t.txOutputs.put (t.getTxCount, indices)
  outputs : addOutputs env.zeroCommit t.height txHash entry.toPrunedTx t.outputs 0 entry.tx.vout =
    some (t'.outputs, indices)
  spentKeys : addSpentKeys t.spentKeys entry.tx.vin = some t'.spentKeys

theorem Tables.addTransaction_spec
    (h : t.addTransaction env txHash entry = some (t', blacklisted)) :
    ∃ indices, Added env t txHash entry indices t' ∧
      blacklisted = if hasBlacklistedOutputs entry.tx then indices else [] := by
  simp only [addTransaction, addTransactionData, Option.bind_eq_bind, Option.bind_eq_some_iff,
    Prod.exists, Option.some.injEq, Prod.mk.injEq] at h
  obtain ⟨spentKeys, hspent, t₁, txId, ⟨txIndices, hindices, txsPruned, hpruned, txsPrunable,
    hprunable, txsPrunableHash, hhash, rfl, rfl⟩, outputs, indices, houtputs, txOutputs,
    htxOutputs, rfl, rfl⟩ := h
  obtain ⟨hfree, rfl⟩ := addNew_eq_some.mp hindices
  obtain ⟨hlast, rfl⟩ := append_eq_some.mp hpruned
  obtain ⟨hlast', rfl⟩ := append_eq_some.mp hprunable
  obtain ⟨hlast'', rfl⟩ := append_eq_some.mp htxOutputs
  refine ⟨indices, ?_, rfl⟩
  exact
    { indicesFree := hfree
      prunedLast := hlast
      prunableLast := hlast'
      outputsLast := hlast''
      blocks := rfl
      blockInfo := rfl
      blockHeights := rfl
      txIndices := rfl
      txsPruned := rfl
      txsPrunable := rfl
      txsPrunableTip := rfl
      txsPrunableHash := hhash
      txOutputs := rfl
      outputs := houtputs
      spentKeys := hspent }

variable {indices : List ℕ}

theorem Added.tipsKnown (h : Added env t txHash entry indices t') (htips : TipsKnown t) :
    TipsKnown t' := by
  have hold : ∀ tip ∈ t.txsPrunableTip.rows, ∃ row ∈ t'.txsPruned.rows, row.1 = tip.1 := by
    intro tip htip
    obtain ⟨row, hrow, hid⟩ := htips tip htip
    rw [h.txsPruned]
    exact ⟨row, mem_put.mpr (Or.inr ⟨hrow, (h.prunedLast row hrow).ne⟩), hid⟩
  intro tip htip
  rw [h.txsPrunableTip] at htip
  split_ifs at htip with hseed
  · rcases mem_put.mp htip with rfl | ⟨htip, -⟩
    · rw [h.txsPruned]
      exact ⟨_, mem_put.mpr (Or.inl rfl), rfl⟩
    · exact hold tip htip
  · exact hold tip htip

/-- The new id has no tip yet. -/
theorem Added.tip_free (h : Added env t txHash entry indices t') (htips : TipsKnown t) :
    t.txsPrunableTip.Free t.getTxCount := by
  intro tip htip hid
  obtain ⟨row, hrow, hrowId⟩ := htips tip htip
  have hlt := h.prunedLast row hrow
  omega

theorem Added.removePrunableHash (h : Added env t txHash entry indices t') :
    t'.removePrunableHash t.getTxCount entry.tx = some t.txsPrunableHash := by
  have hadd := h.txsPrunableHash
  unfold Tables.addPrunableHash at hadd
  grind [OrderedTable.append, Tables.removePrunableHash, delete_put,
    free_of_lt]

theorem Added.removeTxOutputs (h : Added env t txHash entry indices t') :
    t'.removeTxOutputs t.getTxCount entry.tx = some t.outputs := by
  obtain ⟨hlength, hremove⟩ := removeOutputs_addOutputs h.outputs
  grind [h.txOutputs, Tables.removeTxOutputs, find?_put]

/-- Removing the transaction that has just been added leads back to the tables of before. -/
theorem Added.removeTransaction (h : Added env t txHash entry indices t') (htips : TipsKnown t) :
    t'.removeTransaction txHash = some t := by
  have hindex : t'.txIndices.find? txHash.toNat =
      some ⟨txHash, t.getTxCount, entry.unlockTime, t.height⟩ := by
    rw [h.txIndices]
    exact find?_put t.txIndices ⟨txHash, t.getTxCount, entry.unlockTime, t.height⟩
  have hrow : t'.txsPruned.find? t.getTxCount = some (t.getTxCount, entry.toPrunedTx) := by
    rw [h.txsPruned]
    exact find?_put t.txsPruned (t.getTxCount, entry.toPrunedTx)
  have hpruned : t'.txsPruned.delete t.getTxCount = some t.txsPruned := by
    rw [h.txsPruned]
    exact delete_put (free_of_lt h.prunedLast)
  have hprunable : t'.txsPrunable.remove t.getTxCount = t.txsPrunable := by
    rw [h.txsPrunable]
    exact remove_put (free_of_lt h.prunableLast)
  have htip : t'.txsPrunableTip.remove t.getTxCount = t.txsPrunableTip := by
    rw [h.txsPrunableTip]
    split_ifs
    · exact remove_put (h.tip_free htips)
    · exact remove_of_free (h.tip_free htips)
  have htxOutputs : t'.txOutputs.remove t.getTxCount = t.txOutputs := by
    rw [h.txOutputs]
    exact remove_put (free_of_lt h.outputsLast)
  have hdelete : t'.txIndices.delete txHash.toNat = some t.txIndices := by
    rw [h.txIndices]
    exact delete_put h.indicesFree
  have hspent := removeSpentKeys_addSpentKeys h.spentKeys
  have hhash := h.removePrunableHash
  have houtputs := h.removeTxOutputs
  simp only [Tables.removePrunableHash, Tables.removeTxOutputs] at hhash houtputs
  simp only [Tables.removeTransaction, Tables.getPrunedTx, Tables.removeTransactionData,
    Tables.removePrunableHash, Tables.removeTxOutputs, Option.bind_eq_bind, hindex,
    Option.bind_some, hrow, hspent, hpruned, hprunable, htip, hhash, houtputs, htxOutputs, hdelete,
    h.blocks, h.blockInfo, h.blockHeights]

end UndoTransactions

section UndoBlocks

variable {env : DbEnv} {t t' : Tables}

theorem Tables.removeTransactions_addTransactions
    (h : t.addTransactions env txs = some (t', blacklisted))
    (htips : TipsKnown t) :
    t'.removeTransactions (txs.map Prod.fst) = some t ∧ TipsKnown t' := by
  induction txs generalizing t blacklisted with
  | nil =>
    simp only [addTransactions, Option.some.injEq, Prod.mk.injEq] at h
    obtain ⟨rfl, -⟩ := h
    exact ⟨rfl, htips⟩
  | cons tx rest ih =>
    obtain ⟨txHash, entry⟩ := tx
    simp only [addTransactions, Option.bind_eq_bind, Option.bind_eq_some_iff, Prod.exists,
      Option.some.injEq, Prod.mk.injEq] at h
    obtain ⟨t₁, indices, hadd, t₂, more, hrest, rfl, -⟩ := h
    obtain ⟨_, hadded, -⟩ := addTransaction_spec hadd
    grind [removeTransactions, hadded.tipsKnown, hadded.removeTransaction]

theorem Tables.removeBlock_putBlock {numRctOuts : ℕ} (h : t.putBlock b numRctOuts = some t') :
    t'.blocks.find? (t'.height - 1) = some (t.height, b.stored) ∧ t'.removeBlock = some t ∧
      (TipsKnown t → TipsKnown t') := by
  unfold putBlock at h
  dsimp only at h
  split_ifs at h with hparent
  simp only [Option.bind_eq_bind, Option.bind_eq_some_iff, Option.some.injEq] at h
  obtain ⟨blockHeights, hheights, blocks, hblocks, previous, -, blockInfo, hinfo, ht'⟩ := h
  obtain ⟨hfree, rfl⟩ := addNew_eq_some.mp hheights
  obtain ⟨hlast, rfl⟩ := append_eq_some.mp hblocks
  obtain ⟨hlast', rfl⟩ := append_eq_some.mp hinfo
  have hheight : t'.height = t.height + 1 := by
    rw [← ht']
    exact length_put hlast
  have hfind : t'.blocks.find? t.height = some (t.height, b.stored) := by
    rw [← ht']
    exact find?_put t.blocks (t.height, b.stored)
  have hfindInfo : ∃ info, t'.blockInfo.find? t.height = some info ∧
      info.hash = b.stored.block.hash := by
    rw [← ht']
    exact ⟨_, find?_put t.blockInfo _, rfl⟩
  have hdelete : t'.blocks.delete t.height = some t.blocks := by
    rw [← ht']
    exact delete_put (free_of_lt hlast)
  have hdeleteInfo : t'.blockInfo.delete t.height = some t.blockInfo := by
    rw [← ht']
    exact delete_put (free_of_lt hlast')
  have hdeleteHeight : t'.blockHeights.delete b.stored.block.hash.toNat = some t.blockHeights := by
    rw [← ht']
    exact delete_put hfree
  refine ⟨by rw [hheight, Nat.add_sub_cancel, hfind], ?_, fun htips => ht' ▸ htips⟩
  obtain ⟨info, hinfo, hhash⟩ := hfindInfo
  rw [removeBlock, hheight, if_neg (Nat.succ_ne_zero _), Nat.add_sub_cancel, hinfo]
  simp only [Option.bind_eq_bind, Option.bind_some, hhash, hdeleteHeight, hdelete, hdeleteInfo]
  rw [← ht']

/-- Popping a block that has just been added leads back to the tables of before. -/
theorem Tables.popBlock_addBlock (h : t.addBlock env b = some (t', blacklisted))
    (htips : TipsKnown t) :
    t'.popBlock = some t ∧ TipsKnown t' := by
  unfold addBlock at h
  by_cases hlength : b.stored.block.txHashes.length = b.txs.length
  · rw [if_neg (not_not_intro hlength)] at h
    simp only [Option.bind_eq_bind, Option.bind_eq_some_iff, Prod.exists, Option.some.injEq,
      Prod.mk.injEq] at h
    obtain ⟨t₁, indices, hminer, t₂, more, htxs, t₃, hput, rfl, -⟩ := h
    obtain ⟨_, hadded, -⟩ := addTransaction_spec hminer
    obtain ⟨hremove, htips'⟩ := removeTransactions_addTransactions htxs (hadded.tipsKnown htips)
    obtain ⟨htop, hblock, hkeep⟩ := removeBlock_putBlock hput
    grind [map_fst_zip, popBlock, hadded.removeTransaction]
  · rw [if_pos hlength] at h
    cases h

end UndoBlocks

section Blacklist

variable {env : DbEnv} {t t' : Tables}

/-- Some transaction of the block is a staking contribution with outputs. -/
def NewBlock.contributes (b : NewBlock) : Bool :=
  (b.stored.miner :: b.txs).any fun entry =>
    hasBlacklistedOutputs entry.tx && !entry.tx.vout.isEmpty

theorem mem_addOutputBlacklist {blacklist : OrderedTable (id : ℕ → ℕ)} {index : ℕ} :
    index ∈ (Db.addOutputBlacklist blacklist indices).rows ↔
      index ∈ blacklist.rows ∨ index ∈ indices := by
  induction indices generalizing blacklist with
  | nil => simp [Db.addOutputBlacklist]
  | cons first rest ih =>
    have hstep : Db.addOutputBlacklist blacklist (first :: rest) =
        Db.addOutputBlacklist (blacklist.put first) rest := rfl
    rw [hstep, ih, mem_put, mem_cons]
    simp only [id_eq]
    tauto

theorem addOutputBlacklist_eq_iff {blacklist : OrderedTable (id : ℕ → ℕ)} :
    Db.addOutputBlacklist blacklist indices = blacklist ↔
      ∀ index ∈ indices, index ∈ blacklist.rows := by
  constructor
  · intro h index hindex
    rw [← h]
    exact mem_addOutputBlacklist.mpr (Or.inr hindex)
  · intro h
    refine ext_mem fun index => ?_
    rw [mem_addOutputBlacklist]
    exact or_iff_left_of_imp (h index)

variable {blacklisted : List ℕ}

theorem Tables.blacklisted_eq_nil {entry : StoredTx}
    (h : t.addTransaction env txHash entry = some (t', blacklisted))
    (hnone : (hasBlacklistedOutputs entry.tx && !entry.tx.vout.isEmpty) = false) :
    blacklisted = [] := by
  obtain ⟨indices, hadded, rfl⟩ := addTransaction_spec h
  split_ifs with hstake
  · have hvout : entry.tx.vout = [] := by simpa [hstake] using hnone
    have hlength := (removeOutputs_addOutputs hadded.outputs).1
    rw [hvout] at hlength
    exact length_eq_zero_iff.mp hlength
  · rfl

theorem Tables.blacklisted_eq_nil_of_forall
    (h : t.addTransactions env txs = some (t', blacklisted))
    (hnone : ∀ tx ∈ txs,
      (hasBlacklistedOutputs tx.2.tx && !tx.2.tx.vout.isEmpty) = false) : blacklisted = [] := by
  induction txs generalizing t blacklisted with
  | nil =>
    simp only [addTransactions, Option.some.injEq, Prod.mk.injEq] at h
    exact h.2.symm
  | cons tx rest ih =>
    obtain ⟨txHash, entry⟩ := tx
    simp only [addTransactions, Option.bind_eq_bind, Option.bind_eq_some_iff, Prod.exists,
      Option.some.injEq, Prod.mk.injEq] at h
    grind [blacklisted_eq_nil, mem_cons_self]

theorem Tables.blacklisted_of_not_contributes (h : t.addBlock env b = some (t', blacklisted))
    (hnone : b.contributes = false) :
    blacklisted = [] := by
  rw [NewBlock.contributes, any_eq_false] at hnone
  have hall : ∀ entry ∈ b.stored.miner :: b.txs,
      (hasBlacklistedOutputs entry.tx && !entry.tx.vout.isEmpty) = false :=
    fun entry hentry => Bool.eq_false_iff.mpr (hnone entry hentry)
  unfold addBlock at h
  split_ifs at h with hlength
  simp only [Option.bind_eq_bind, Option.bind_eq_some_iff, Prod.exists, Option.some.injEq,
    Prod.mk.injEq] at h
  obtain ⟨t₁, indices, hminer, t₂, more, htxs, t₃, -, -, rfl⟩ := h
  rw [blacklisted_eq_nil hminer (hall _ mem_cons_self), blacklisted_eq_nil_of_forall htxs,
    nil_append]
  exact fun tx htx => hall _ (mem_cons_of_mem _ (of_mem_zip htx).2)

end Blacklist

section Runs

/-- A run of the database with what it was given: the blocks of the chain, the newest first, and
the blocks popped. A call that throws leaves the database as it was. -/
structure DbRun where
  db : Db := {}
  chain : List NewBlock := []
  popped : List NewBlock := []

inductive DbEvent
  | addBlock (b : NewBlock)
  | popBlock

variable (env : DbEnv)

def DbRun.step (s : DbRun) : DbEvent → DbRun
  | .addBlock b =>
    match s.db.addBlock env b with
    | none => s
    | some db => { s with db, chain := b :: s.chain }
  | .popBlock =>
    match s.db.popBlock with
    | none => s
    | some db => { db, chain := s.chain.tail, popped := s.chain.head?.toList ++ s.popped }

def DbRun.after (s : DbRun) (events : List DbEvent) : DbRun :=
  events.foldl (fun s event => s.step env event) s

/-- The database that gets the blocks of a chain and nothing else. -/
def replay : List NewBlock → Option Db
  | [] => some {}
  | b :: rest => do
    let db ← replay rest
    db.addBlock env b

variable {env} {s : DbRun} {d : Db}

theorem Db.addBlock_eq_some {db db' : Db} (h : db.addBlock env b = some db') :
    ∃ indices, db.toTables.addBlock env b = some (db'.toTables, indices) ∧
      db'.outputBlacklist = Db.addOutputBlacklist db.outputBlacklist indices := by
  grind [Db.addBlock, Option.bind_eq_some_iff]

theorem tipsKnown_replay {chain : List NewBlock} (h : replay env chain = some d) :
    TipsKnown d.toTables := by
  induction chain generalizing d with
  | nil =>
    obtain rfl := Option.some.inj h
    exact fun tip htip => absurd htip not_mem_nil
  | cons b rest ih =>
    simp only [replay, Option.bind_eq_bind, Option.bind_eq_some_iff] at h
    obtain ⟨before, hbefore, hadd⟩ := h
    obtain ⟨indices, htables, -⟩ := Db.addBlock_eq_some hadd
    exact (Tables.popBlock_addBlock htables (ih hbefore)).2

/-- The database of the run against the one that only ever got its chain. -/
structure Replayed (env : DbEnv) (s : DbRun) (d : Db) : Prop where
  replay : replay env s.chain = some d
  tables : d.toTables = s.db.toTables
  blacklist : ∀ index ∈ d.outputBlacklist.rows, index ∈ s.db.outputBlacklist.rows
  clean : (∀ b ∈ s.popped, b.contributes = false) → d = s.db

theorem Replayed.addBlock (h : Replayed env s d) {db : Db} (hadd : s.db.addBlock env b = some db) :
    ∃ d', Replayed env { s with db, chain := b :: s.chain } d' := by
  obtain ⟨indices, htables, hblacklist⟩ := Db.addBlock_eq_some hadd
  have hadd' : d.addBlock env b =
      some ⟨db.toTables, Db.addOutputBlacklist d.outputBlacklist indices⟩ := by
    simp only [Db.addBlock, h.tables, htables, Option.bind_eq_bind, Option.bind_some]
  refine ⟨⟨db.toTables, Db.addOutputBlacklist d.outputBlacklist indices⟩, ?_, rfl, ?_,
    ?_⟩ <;> grind [BlockchainDb.replay, h.replay, h.clean, mem_addOutputBlacklist.mpr,
    mem_addOutputBlacklist.mp, h.blacklist]

theorem Replayed.popBlock (h : Replayed env s d) {db : Db} (hpop : s.db.popBlock = some db) :
    ∃ d', Replayed env
      { db, chain := s.chain.tail, popped := s.chain.head?.toList ++ s.popped } d' := by
  simp only [Db.popBlock, Option.bind_eq_bind, Option.bind_eq_some_iff, Option.some.injEq] at hpop
  obtain ⟨tables, htables, rfl⟩ := hpop
  have hreplay := h.replay
  cases hchain : s.chain with
  | nil =>
    rw [hchain] at hreplay
    obtain rfl := Option.some.inj hreplay
    rw [← h.tables] at htables
    cases htables
  | cons b rest =>
    rw [hchain] at hreplay
    simp only [BlockchainDb.replay, Option.bind_eq_bind, Option.bind_eq_some_iff] at hreplay
    obtain ⟨before, hbefore, hadd⟩ := hreplay
    obtain ⟨indices, hadded, hblacklist⟩ := Db.addBlock_eq_some hadd
    have hback := (Tables.popBlock_addBlock hadded (tipsKnown_replay hbefore)).1
    rw [h.tables, htables] at hback
    obtain rfl := Option.some.inj hback
    refine ⟨before, hbefore, rfl, fun index hindex => h.blacklist index ?_, fun hclean => ?_⟩
    · rw [hblacklist]
      exact mem_addOutputBlacklist.mpr (Or.inl hindex)
    · have hnone := Tables.blacklisted_of_not_contributes hadded (hclean b mem_cons_self)
      have hsame := h.clean fun b' hb' => hclean b' (mem_cons_of_mem _ hb')
      rw [hnone] at hblacklist
      rw [← hsame, hblacklist]
      rfl

theorem Replayed.after (h : Replayed env s d) (events : List DbEvent) :
    ∃ d', Replayed env (s.after env events) d' := by
  induction events generalizing s d with
  | nil => exact ⟨d, h⟩
  | cons event rest ih =>
    obtain ⟨d', h'⟩ : ∃ d', Replayed env (s.step env event) d' := by
      cases event with
      | addBlock b =>
        cases hadd : s.db.addBlock env b with
        | none => exact ⟨d, by simpa only [DbRun.step, hadd] using h⟩
        | some db => simpa only [DbRun.step, hadd] using h.addBlock hadd
      | popBlock =>
        cases hpop : s.db.popBlock with
        | none => exact ⟨d, by simpa only [DbRun.step, hpop] using h⟩
        | some db => simpa only [DbRun.step, hpop] using h.popBlock hpop
    exact ih h'

/-- In every state of a run, popping a block right after it was added restores all tables but the
blacklist, and that too just if the block put nothing new on it. The tables are those of the
chain alone; the blacklist is, just if nothing else is on it, and surely if no popped block had a
staking contribution. -/
theorem pop_undoes_add_iff (env : DbEnv) (events : List DbEvent) :
    let s := ({} : DbRun).after env events
    (∀ b tables indices, s.db.toTables.addBlock env b = some (tables, indices) →
      ∃ db, s.db.addBlock env b = some db ∧
        db.popBlock = some { s.db with outputBlacklist := db.outputBlacklist } ∧
        (db.popBlock = some s.db ↔ ∀ index ∈ indices, index ∈ s.db.outputBlacklist.rows)) ∧
      ∃ d, replay env s.chain = some d ∧ d.toTables = s.db.toTables ∧
        (d = s.db ↔
          ∀ index ∈ s.db.outputBlacklist.rows, index ∈ d.outputBlacklist.rows) ∧
        ((∀ b ∈ s.popped, b.contributes = false) → d = s.db) := by
  intro s
  have hstart : Replayed env {} {} := ⟨rfl, rfl, fun _ hindex => hindex, fun _ => rfl⟩
  obtain ⟨d, h⟩ := hstart.after events
  constructor
  · intro b tables indices hadd
    have htips : TipsKnown s.db.toTables := h.tables ▸ tipsKnown_replay h.replay
    have hback := (Tables.popBlock_addBlock hadd htips).1
    refine ⟨⟨tables, Db.addOutputBlacklist s.db.outputBlacklist indices⟩, ?_, ?_, ?_⟩
    · simp only [Db.addBlock, hadd, Option.bind_eq_bind, Option.bind_some]
    · simp only [Db.popBlock, hback, Option.bind_eq_bind, Option.bind_some]
    · rw [← addOutputBlacklist_eq_iff]
      simp only [Db.popBlock, hback, Option.bind_eq_bind, Option.bind_some, Option.some.injEq]
      exact ⟨fun heq => congrArg Db.outputBlacklist heq, fun heq => by rw [heq]⟩
  · refine ⟨d, h.replay, h.tables, ⟨fun heq => by rw [heq]; exact fun _ hindex => hindex, ?_⟩,
      h.clean⟩
    intro hall
    have hblacklist : d.outputBlacklist = s.db.outputBlacklist :=
      ext_mem fun index => ⟨h.blacklist index, hall index⟩
    calc d = ⟨d.toTables, d.outputBlacklist⟩ := rfl
      _ = s.db := by rw [h.tables, hblacklist]

section Sample

def sampleDbEnv : DbEnv where
  zeroCommit amount := BitVec.ofNat 256 amount.toNat
  pruningSeed := 0

def coinbase (height : ℕ) : Transaction where
  version := 2
  vin := [.gen height]
  vout := [⟨50, .toKey 1⟩]

/-- A staking contribution with one output. -/
def contribution : StoredTx where
  tx :=
    { version := 2
      vin := [.toKey 0 [0] 77]
      vout := [⟨0, .toKey 2⟩]
      extra := [.txSecretKey 5, .serviceNodeContributor ⟨1, 1⟩]
      rctSignatures := { outPk := [9] } }
  wellKinded := Or.inr (by simp)

def sampleNewBlock (height : ℕ) (txs : List StoredTx) (txHashes : List Hash) : NewBlock where
  stored :=
    { block :=
        { majorVersion := 1, prevId := BitVec.ofNat 256 (height - 1), minerTx := coinbase height
          hash := BitVec.ofNat 256 height, txHashes }
      miner := { tx := coinbase height, wellKinded := Or.inl ⟨height, rfl⟩ }
      minerHash := BitVec.ofNat 256 (100 + height)
      miner_tx := rfl }
  txs := txs

/-- After the contribution and its block have been popped, its output is still blacklisted. -/
theorem popped_output_blacklisted :
    let first := DbEvent.addBlock (sampleNewBlock 0 [] [])
    let before := ({} : DbRun).after sampleDbEnv [first]
    let after := ({} : DbRun).after sampleDbEnv
      [first, .addBlock (sampleNewBlock 1 [contribution] [201]), .popBlock]
    before.chain.length = 1 ∧ after.chain.length = 1 ∧ after.popped.length = 1 ∧
      after.db.toTables = before.db.toTables ∧ before.db.outputBlacklist.rows = [] ∧
      after.db.outputBlacklist.rows = [2] := by
  decide

end Sample

end Runs

end Arqma.BlockchainDb
