import Mathlib.Data.Finset.Card
import Mathlib.Data.List.AList
import Arqma.Cryptonote
import Arqma.OrderedTable

/-!
# The transaction pool

The pool keeps its transactions in the database and books on them in memory: their total weight,
a container sorted by fee, and for each key image the transactions that spend it. Every call
updates the database and the books one after the other. A transaction is known by its hash; what
the hash stands for is a function of the environment.
-/
namespace Arqma.TxPool
open Arqma.Cryptonote List AList

variable {vin : List TxIn} {sorted : List SortedEntry}

structure PoolTx where
  tx : Transaction
  blobSize : ℕ
  weight : ℕ

/-- The transactions behind the hashes, and the quotient of fee and weight, of which only the
order counts. -/
structure PoolEnv where
  txOf : Hash → PoolTx
  feePerByte : UInt64 → ℕ → ℕ

/-- The fields of `txpool_tx_meta_t` that the pool's books depend on. -/
structure TxMeta where
  weight : ℕ
  fee : UInt64
  receiveTime : ℕ
  keptByBlock : Bool
  doubleSpendSeen : Bool := false
deriving DecidableEq

structure PoolRow where
  id : Hash
  info : TxMeta
deriving DecidableEq

abbrev PoolTable := OrderedTable (fun row : PoolRow => row.id.toNat)

abbrev KeyImages := AList (fun _ : KeyImage => Finset Hash)

structure SortedEntry where
  nonStandard : Bool
  rate : ℕ
  receiveTime : ℕ
  id : Hash
deriving DecidableEq

/-- `txCompare`: other transactions before transfers, then the higher fee, the earlier arrival and
the hash. -/
def SortedEntry.before (a b : SortedEntry) : Bool :=
  if a.nonStandard ≠ b.nonStandard then a.nonStandard
  else if a.rate ≠ b.rate then b.rate < a.rate
  else if a.receiveTime ≠ b.receiveTime then a.receiveTime < b.receiveTime
  else a.id.toNat < b.id.toNat

/-- An entry that is neither before nor after another one is not added. -/
def emplace (entry : SortedEntry) : List SortedEntry → List SortedEntry
  | [] => [entry]
  | first :: rest =>
    if entry.before first then entry :: first :: rest
    else if first.before entry then first :: emplace entry rest
    else first :: rest

section KeyImages

/-- The transactions that are noted for a key image. -/
def holders (images : KeyImages) (image : KeyImage) : Finset Hash := (images.lookup image).getD ∅

/-- A failure leaves what has been inserted so far. -/
def insertKeyImages (id : Hash) (keptByBlock : Bool) : KeyImages → List TxIn → KeyImages × Bool
  | images, [] => (images, true)
  | images, .toKey _ _ image :: rest =>
    let ids := holders images image
    if !keptByBlock ∧ ids ≠ ∅ then (images, false)
    else if id ∈ ids then (images, false)
    else insertKeyImages id keptByBlock (images.insert image (insert id ids)) rest
  | images, _ => (images, false)

/-- Stops at the first key image for which the transaction is not noted. -/
def removeTransactionKeyimages (id : Hash) : KeyImages → List TxIn → KeyImages
  | images, [] => images
  | images, .toKey _ _ image :: rest =>
    let ids := holders images image
    if id ∉ ids then images
    else if ids.erase id = ∅ then removeTransactionKeyimages id (images.erase image) rest
    else removeTransactionKeyimages id (images.insert image (ids.erase id)) rest
  | images, _ => images

end KeyImages

/-- What is kept in memory about the transactions in the database. -/
structure Books where
  txpoolWeight : ℕ := 0
  sorted : List SortedEntry := []
  spentKeyImages : KeyImages := ∅

structure TxMemoryPool extends Books where
  db : PoolTable := OrderedTable.empty
  txpoolMaxWeight : ℕ := 78643200
  timedOut : Finset Hash := ∅

/-- Whether a batch was open already, so that the pool's own transaction cannot be given up, and
the time. -/
structure CallContext where
  batchActive : Bool := false
  now : ℕ := 0

section Remove

variable (env : PoolEnv)

def decreaseTxpoolWeight (total weight : ℕ) : ℕ := if total < weight then 0 else total - weight

/-- The database first, then the weight and the key images. -/
def TxMemoryPool.drop (s : TxMemoryPool) (id : Hash) (weight : ℕ) : TxMemoryPool :=
  { s with
    db := s.db.remove id.toNat
    txpoolWeight := decreaseTxpoolWeight s.txpoolWeight weight
    spentKeyImages := removeTransactionKeyimages id s.spentKeyImages (env.txOf id).tx.vin }

/-- The first entry of a transaction is erased. -/
def eraseSorted (sorted : List SortedEntry) (id : Hash) : List SortedEntry :=
  sorted.eraseP fun entry => entry.id = id

def takeTx (s : TxMemoryPool) (id : Hash) : TxMemoryPool × Bool :=
  match s.db.find? id.toNat with
  | none => (s, false)
  | some row =>
    ({ s.drop env id row.info.weight with sorted := eraseSorted s.sorted id }, true)

/-- The age is an unsigned difference. -/
def isStuck (now : ℕ) (row : PoolRow) : Bool :=
  let age := (now + 2 ^ 64 - row.info.receiveTime) % 2 ^ 64
  86400 * 3 < age && !row.info.keptByBlock || 604800 < age && row.info.keptByBlock

def removeStuckTransactions (ctx : CallContext) (s : TxMemoryPool) : TxMemoryPool :=
  let stuck := s.db.rows.filter (isStuck ctx.now)
  stuck.foldl (fun s row => s.drop env row.id row.info.weight)
    { s with
      sorted := stuck.foldl (fun sorted row => eraseSorted sorted row.id) s.sorted
      timedOut := stuck.foldl (fun ids row => insert row.id ids) s.timedOut }

def validateRow (s : TxMemoryPool) (row : PoolRow) : TxMemoryPool :=
  { s.drop env row.id (env.txOf row.id).weight with sorted := eraseSorted s.sorted row.id }

/-- The weight is set to zero at the start, and only lowered after that. -/
def validate (inChain : Hash → Bool) (s : TxMemoryPool) : TxMemoryPool :=
  (s.db.rows.filter fun row => inChain row.id).foldl (validateRow env) { s with txpoolWeight := 0 }

/-- False if the transaction is not in the database. -/
def tryPruning (s : TxMemoryPool) (entry : SortedEntry) : TxMemoryPool × Bool :=
  match s.db.find? entry.id.toNat with
  | none => (s, false)
  | some row =>
    if row.info.keptByBlock then (s, true)
    else ({ s.drop env entry.id row.info.weight with sorted := s.sorted.erase entry }, true)

/-- The loop from the front, over expired transactions that are not transfers. -/
def pruneExpired (now : ℕ) : TxMemoryPool → List SortedEntry → TxMemoryPool × Bool
  | s, [] => (s, true)
  | s, entry :: rest =>
    if !entry.nonStandard || now ≤ entry.receiveTime + 7200 then (s, true)
    else
      match tryPruning env s entry with
      | (s, false) => (s, false)
      | (s, true) => pruneExpired now s rest

/-- The loop from the back, while the pool is too heavy. -/
def pruneHeavy : TxMemoryPool → List SortedEntry → TxMemoryPool × Bool
  | s, [] => (s, true)
  | s, entry :: rest =>
    if s.txpoolWeight ≤ s.txpoolMaxWeight then (s, true)
    else
      match tryPruning env s entry with
      | (s, false) => (s, false)
      | (s, true) => pruneHeavy s rest

/-- A call that gives up leaves its changes in the books. -/
def giveUp (ctx : CallContext) (db : PoolTable) (s : TxMemoryPool) : TxMemoryPool :=
  { s with db := if ctx.batchActive then s.db else db }

/-- The first entry of the container is never pruned from the back. -/
def prune (ctx : CallContext) (s : TxMemoryPool) : TxMemoryPool :=
  match pruneExpired env ctx.now s s.sorted with
  | (expired, false) => giveUp ctx s.db expired
  | (expired, true) =>
    match pruneHeavy env expired expired.sorted.tail.reverse with
    | (pruned, false) => giveUp ctx s.db pruned
    | (pruned, true) => pruned

end Remove

section Add

variable (env : PoolEnv)

/-- The options of a call of `add_tx` and what the chain says about the transaction. -/
structure AddCall extends CallContext where
  keptByBlock : Bool := false
  hardForkVersion : ℕ := 17
  fee : UInt64 := 0
  feeOk : Bool := true
  duplicatedNonStandard : Bool := false
  outputsOk : Bool := true
  inputsOk : Bool := true

def checkInputsTypesSupported (tx : Transaction) : Bool :=
  tx.vin.all fun
    | .toKey _ _ _ => true
    | _ => false

def haveTxKeyimgesAsSpent (images : KeyImages) (tx : Transaction) : Bool :=
  tx.vin.any fun
    | .toKey _ _ image => (images.lookup image).isSome
    | _ => true

/-- The transactions that share a key image with a refused one are marked. -/
def markDoubleSpend (s : TxMemoryPool) (tx : Transaction) : TxMemoryPool :=
  { s with
    db := s.db.map
      (fun row =>
        if tx.vin.any fun
          | .toKey _ _ image => row.id ∈ holders s.spentKeyImages image
          | _ => false
        then { row with info := { row.info with doubleSpendSeen := true } }
        else row)
      (fun row => by split_ifs <;> rfl) }

inductive Admission
  | refused
  | doubleSpend
  | admitted
deriving DecidableEq

/-- The checks before the transaction is stored, in their order. -/
def admission (s : TxMemoryPool) (id : Hash) (call : AddCall) : Admission :=
  let entry := env.txOf id
  if entry.blobSize = 0 then .refused
  else if entry.tx.version = 0 then .refused
  else if !call.keptByBlock && id ∈ s.timedOut then .refused
  else if !checkInputsTypesSupported entry.tx then .refused
  else if 16 ≤ call.hardForkVersion ∧ entry.tx.version < 3 then .refused
  else if !call.keptByBlock && entry.tx.isTransfer && !call.feeOk then .refused
  else if !call.keptByBlock && haveTxKeyimgesAsSpent s.spentKeyImages entry.tx then .doubleSpend
  else if !call.keptByBlock && call.duplicatedNonStandard then .doubleSpend
  else if !call.outputsOk then .refused
  else if !call.inputsOk && !call.keptByBlock then .refused
  else .admitted

def sortedEntry (id : Hash) (info : TxMeta) : SortedEntry where
  nonStandard := !(env.txOf id).tx.isTransfer
  rate := env.feePerByte info.fee info.weight
  receiveTime := info.receiveTime
  id := id

/-- The metadata that is stored. A transaction from a block whose inputs fail may become valid
again; it is marked as a double spend if it is one. -/
def newMeta (s : TxMemoryPool) (id : Hash) (call : AddCall) : TxMeta where
  weight := (env.txOf id).weight
  fee := call.fee
  receiveTime := call.now
  keptByBlock := call.keptByBlock
  doubleSpendSeen := !call.inputsOk &&
    (haveTxKeyimgesAsSpent s.spentKeyImages (env.txOf id).tx || call.duplicatedNonStandard)

/-- Writing into the database replaces a row. -/
def storeTx (s : TxMemoryPool) (id : Hash) (call : AddCall) : TxMemoryPool × Bool :=
  let info := newMeta env s id call
  let stored := { s with db := s.db.put ⟨id, info⟩ }
  match insertKeyImages id call.keptByBlock s.spentKeyImages (env.txOf id).tx.vin with
  | (spentKeyImages, false) =>
    (giveUp call.toCallContext s.db { stored with spentKeyImages }, false)
  | (spentKeyImages, true) =>
    ({ stored with
        spentKeyImages
        sorted := emplace (sortedEntry env id info) s.sorted
        txpoolWeight := s.txpoolWeight + (env.txOf id).weight }, true)

def addTx (s : TxMemoryPool) (id : Hash) (call : AddCall) : TxMemoryPool × Bool :=
  match admission env s id call with
  | .refused => (s, false)
  | .doubleSpend => (markDoubleSpend s (env.txOf id).tx, false)
  | .admitted =>
    match storeTx env s id call with
    | (s, false) => (s, false)
    | (s, true) => (prune env call.toCallContext s, true)

/-- A pass of `init` over the rows of one kind. -/
def enterRows (books : Books) : List PoolRow → Books × Bool
  | [] => (books, true)
  | row :: rest =>
    match insertKeyImages row.id row.info.keptByBlock books.spentKeyImages
        (env.txOf row.id).tx.vin with
    | (spentKeyImages, false) => ({ books with spentKeyImages }, false)
    | (spentKeyImages, true) =>
      enterRows
        { spentKeyImages
          sorted := emplace (sortedEntry env row.id row.info) books.sorted
          txpoolWeight := books.txpoolWeight + row.info.weight } rest

/-- First the transactions that are not kept by a block, to avoid collisions. -/
def init (s : TxMemoryPool) (maxTxpoolWeight : ℕ) : TxMemoryPool × Bool :=
  let s := { s with
    txpoolMaxWeight := if maxTxpoolWeight = 0 then 78643200 else maxTxpoolWeight }
  match enterRows env {} (s.db.rows.filter fun row => !row.info.keptByBlock) with
  | (books, false) => ({ s with toBooks := books }, false)
  | (books, true) =>
    let (books, result) := enterRows env books (s.db.rows.filter fun row => row.info.keptByBlock)
    ({ s with toBooks := books }, result)

end Add

section Run

variable (env : PoolEnv)

inductive PoolEvent
  | addTx (id : Hash) (call : AddCall)
  | takeTx (id : Hash)
  | removeStuckTransactions (ctx : CallContext)
  | prune (ctx : CallContext)
  | validate (inChain : Hash → Bool)
  | init (maxTxpoolWeight : ℕ)

def TxMemoryPool.step (s : TxMemoryPool) : PoolEvent → TxMemoryPool
  | .addTx id call => (addTx env s id call).1
  | .takeTx id => (takeTx env s id).1
  | .removeStuckTransactions ctx => removeStuckTransactions env ctx s
  | .prune ctx => TxPool.prune env ctx s
  | .validate inChain => TxPool.validate env inChain s
  | .init maxTxpoolWeight => (TxPool.init env s maxTxpoolWeight).1

def TxMemoryPool.after (s : TxMemoryPool) (events : List PoolEvent) : TxMemoryPool :=
  events.foldl (fun s event => s.step env event) s

end Run

section KeyImageBooks

variable {images : KeyImages} {id : Hash}

theorem holders_insert (image : KeyImage) (ids : Finset Hash) (image' : KeyImage) :
    holders (images.insert image ids) image' = if image' = image then ids
      else holders images image' := by
  unfold holders
  split_ifs with h
  · rw [h, lookup_insert, Option.getD_some]
  · rw [lookup_insert_ne h]

theorem holders_erase (image image' : KeyImage) :
    holders (images.erase image) image' = if image' = image then ∅ else holders images image' := by
  unfold holders
  split_ifs with h
  · rw [h, lookup_erase, Option.getD_none]
  · rw [lookup_erase_ne h]

/-- No key image has an empty set. -/
def NoEmpty (images : KeyImages) : Prop := ∀ image, images.lookup image ≠ some ∅

theorem NoEmpty.insert (h : NoEmpty images) {ids : Finset Hash} (hids : ids ≠ ∅)
    (image : KeyImage) : NoEmpty (images.insert image ids) := by
  grind [NoEmpty, lookup_insert, lookup_insert_ne]

theorem NoEmpty.erase (h : NoEmpty images) (image : KeyImage) : NoEmpty (images.erase image) := by
  grind [NoEmpty, lookup_erase, lookup_erase_ne]

/-- Inputs that spend distinct key images. -/
def KeysOk (vin : List TxIn) : Prop :=
  (∀ input ∈ vin, ∃ amount offsets image, input = .toKey amount offsets image) ∧
    (spentImages vin).Nodup

theorem keysOk_cons {input : TxIn} (h : KeysOk (input :: vin)) :
    ∃ amount offsets image, input = .toKey amount offsets image ∧ image ∉ spentImages vin ∧
      KeysOk vin := by
  grind [KeysOk, spentImages, mem_cons_self]

theorem insertKeyImages_spec {keptByBlock : Bool} (hkeys : KeysOk vin)
    (hnew : ∀ image ∈ spentImages vin, id ∉ holders images image)
    (hfree : keptByBlock = true ∨ ∀ image ∈ spentImages vin, holders images image = ∅)
    (hnonempty : NoEmpty images) :
    ∃ images', insertKeyImages id keptByBlock images vin = (images', true) ∧ NoEmpty images' ∧
      ∀ image, holders images' image =
        if image ∈ spentImages vin then insert id (holders images image)
        else holders images image := by
  induction vin generalizing images with
  | nil => exact ⟨images, rfl, hnonempty, fun image => (if_neg not_mem_nil).symm⟩
  | cons input rest ih =>
    obtain ⟨amount, offsets, image, rfl, hother, hrest⟩ := keysOk_cons hkeys
    have hid : id ∉ holders images image := hnew image mem_cons_self
    have hpass : ¬((!keptByBlock) = true ∧ holders images image ≠ ∅) := by
      rintro ⟨hkept, hne⟩
      rcases hfree with hfree | hfree
      · rw [hfree] at hkept
        cases hkept
      · exact hne (hfree image mem_cons_self)
    have hlater : ∀ image' ∈ spentImages rest,
        holders (images.insert image (insert id (holders images image))) image' =
          holders images image' := by
      intro image' himage'
      have hne : image' ≠ image := by
        rintro rfl
        exact hother himage'
      rw [holders_insert, if_neg hne]
    obtain ⟨images', hinsert, hnonempty', hholders⟩ := ih hrest
      (fun image' himage' => by
        rw [hlater image' himage']
        exact hnew image' (mem_cons_of_mem _ himage'))
      (hfree.imp_right fun h image' himage' => by
        rw [hlater image' himage']
        exact h image' (mem_cons_of_mem _ himage'))
      (hnonempty.insert (Finset.insert_ne_empty _ _) image)
    refine ⟨images', ?_, hnonempty', fun image' => ?_⟩
    · rw [insertKeyImages, if_neg hpass, if_neg hid, hinsert]
    · rw [hholders, holders_insert]
      by_cases heq : image' = image
      · subst heq
        simp [spentImages, hother]
      · simp [spentImages, heq]

/-- A transaction that is noted for its first key image is not noted again. -/
theorem insertKeyImages_of_mem (keptByBlock : Bool) (hkeys : KeysOk vin)
    (hne : vin ≠ []) (hold : ∀ image ∈ spentImages vin, id ∈ holders images image) :
    insertKeyImages id keptByBlock images vin = (images, false) := by
  cases vin <;> grind [spentImages, KeysOk, insertKeyImages, mem_cons_self]

theorem removeTransactionKeyimages_spec (hkeys : KeysOk vin)
    (hold : ∀ image ∈ spentImages vin, id ∈ holders images image) (hnonempty : NoEmpty images) :
    NoEmpty (removeTransactionKeyimages id images vin) ∧
      ∀ image, holders (removeTransactionKeyimages id images vin) image =
        if image ∈ spentImages vin then (holders images image).erase id
        else holders images image := by
  induction vin generalizing images with
  | nil => exact ⟨hnonempty, fun image => (if_neg not_mem_nil).symm⟩
  | cons input rest ih =>
    obtain ⟨amount, offsets, image, rfl, hother, hrest⟩ := keysOk_cons hkeys
    have hid : id ∈ holders images image := hold image mem_cons_self
    -- Both branches leave the set without the transaction, the one by dropping it.
    obtain ⟨images', hstep, hnonempty', hholders⟩ : ∃ images',
        removeTransactionKeyimages id images (.toKey amount offsets image :: rest) =
          removeTransactionKeyimages id images' rest ∧ NoEmpty images' ∧
        ∀ image', holders images' image' =
          if image' = image then (holders images image).erase id else holders images image' := by
      rw [removeTransactionKeyimages, if_neg (not_not_intro hid)]
      by_cases hlast : (holders images image).erase id = ∅
      · rw [if_pos hlast, hlast]
        exact ⟨_, rfl, hnonempty.erase image, holders_erase image⟩
      · rw [if_neg hlast]
        exact ⟨_, rfl, hnonempty.insert hlast image, holders_insert image _⟩
    have hlater : ∀ image' ∈ spentImages rest, holders images' image' = holders images image' := by
      intro image' himage'
      have hne : image' ≠ image := by
        rintro rfl
        exact hother himage'
      rw [hholders, if_neg hne]
    obtain ⟨hnonempty'', hremove⟩ := ih hrest
      (fun image' himage' => by
        rw [hlater image' himage']
        exact hold image' (mem_cons_of_mem _ himage')) hnonempty'
    rw [hstep]
    refine ⟨hnonempty'', fun image' => ?_⟩
    rw [hremove, hholders]
    by_cases heq : image' = image
    · subst heq
      simp [spentImages, hother]
    · simp [spentImages, heq]

end KeyImageBooks

section Bookkeeping

variable {env : PoolEnv} {rows rest : List PoolRow} {row : PoolRow} {books : Books}

/-- The books are those of the given transactions: the weight is the sum of their weights, each
has one entry in the sorted container, and a key image has the set of those that spend it, or no
set at all. -/
structure Booked (env : PoolEnv) (rows : List PoolRow) (books : Books) : Prop where
  weight : books.txpoolWeight = (rows.map fun row => row.info.weight).sum
  sorted : (books.sorted.map SortedEntry.id).Perm (rows.map PoolRow.id)
  nonempty : NoEmpty books.spentKeyImages
  spenders : ∀ image id, id ∈ holders books.spentKeyImages image ↔
    id ∈ rows.map PoolRow.id ∧ image ∈ spentImages (env.txOf id).tx.vin

theorem Booked.perm (h : Booked env rows books) (hperm : rows.Perm rest) :
    Booked env rest books where
  weight := h.weight.trans (hperm.map _).sum_eq
  sorted := h.sorted.trans (hperm.map _)
  nonempty := h.nonempty
  spenders image id := by rw [h.spenders, (hperm.map PoolRow.id).mem_iff]

theorem booked_empty (env : PoolEnv) : Booked env [] {} where
  weight := rfl
  sorted := List.Perm.refl _
  nonempty image := by
    rw [lookup_empty]
    exact nofun
  spenders image id := by simp [holders]

/-- Entries that do not differ have the same hash. -/
theorem SortedEntry.before_or_before {a b : SortedEntry} (h : a.id ≠ b.id) :
    a.before b = true ∨ b.before a = true := by
  unfold before
  by_cases hkind : a.nonStandard = b.nonStandard
  · grind [BitVec.toNat_inj.mp]
  · grind

theorem map_id_emplace {entry : SortedEntry}
    (hnew : entry.id ∉ sorted.map SortedEntry.id) :
    ((emplace entry sorted).map SortedEntry.id).Perm (entry.id :: sorted.map SortedEntry.id) := by
  induction sorted with
  | nil => exact List.Perm.refl _
  | cons first rest ih =>
    rw [map_cons, mem_cons, not_or] at hnew
    unfold emplace
    split_ifs with hbefore hafter
    · exact List.Perm.refl _
    · rw [map_cons, map_cons]
      exact ((ih hnew.2).cons first.id).trans (List.Perm.swap _ _ _)
    · rcases SortedEntry.before_or_before hnew.1 with h | h
      · exact absurd h hbefore
      · exact absurd h hafter

/-- A transaction that is new to the books is entered. -/
theorem Booked.enter (h : Booked env rows books) (row : PoolRow)
    (hnew : row.id ∉ rows.map PoolRow.id) (hkeys : KeysOk (env.txOf row.id).tx.vin)
    (hfree : row.info.keptByBlock = true ∨
      ∀ image ∈ spentImages (env.txOf row.id).tx.vin, holders books.spentKeyImages image = ∅) :
    ∃ images, insertKeyImages row.id row.info.keptByBlock books.spentKeyImages
        (env.txOf row.id).tx.vin = (images, true) ∧
      Booked env (row :: rows)
        { txpoolWeight := books.txpoolWeight + row.info.weight
          sorted := emplace (sortedEntry env row.id row.info) books.sorted
          spentKeyImages := images } := by
  have hnone : ∀ image, row.id ∉ holders books.spentKeyImages image :=
    fun image hmem => hnew ((h.spenders image row.id).mp hmem).1
  obtain ⟨images, hinsert, hnonempty, hholders⟩ :=
    insertKeyImages_spec hkeys (fun image _ => hnone image) hfree h.nonempty
  refine ⟨images, hinsert, ?_⟩
  exact
    { weight := by rw [map_cons, sum_cons, h.weight, Nat.add_comm]
      sorted := by
        have hentry : (sortedEntry env row.id row.info).id ∉ books.sorted.map SortedEntry.id :=
          fun hmem => hnew (h.sorted.mem_iff.mp hmem)
        exact (map_id_emplace hentry).trans (h.sorted.cons row.id)
      nonempty := hnonempty
      spenders := by
        intro image id
        rw [hholders, map_cons, mem_cons]
        by_cases hid : id = row.id
        · subst hid
          by_cases himage : image ∈ spentImages (env.txOf row.id).tx.vin
          · simp [himage]
          · simp [himage, hnone image]
        · split_ifs with himage
          · rw [Finset.mem_insert, h.spenders]
            simp [hid]
          · rw [h.spenders]
            simp [hid] }

/-- A transaction is struck off the books. -/
theorem Booked.strike (h : Booked env (row :: rest) books) (hgone : row.id ∉ rest.map PoolRow.id)
    (hkeys : KeysOk (env.txOf row.id).tx.vin)
    (hsorted : (books.sorted.map SortedEntry.id).Perm (row.id :: sorted.map SortedEntry.id)) :
    Booked env rest
      { txpoolWeight := decreaseTxpoolWeight books.txpoolWeight row.info.weight
        sorted
        spentKeyImages :=
          removeTransactionKeyimages row.id books.spentKeyImages (env.txOf row.id).tx.vin } := by
  have hold : ∀ image ∈ spentImages (env.txOf row.id).tx.vin,
      row.id ∈ holders books.spentKeyImages image :=
    fun image himage => (h.spenders image row.id).mpr ⟨mem_cons_self, himage⟩
  obtain ⟨hnonempty, hholders⟩ := removeTransactionKeyimages_spec hkeys hold h.nonempty
  exact
    { weight := by
        have hweight := h.weight
        rw [map_cons, sum_cons] at hweight
        rw [decreaseTxpoolWeight, hweight, if_neg (by omega), Nat.add_sub_cancel_left]
      sorted := List.Perm.cons_inv (hsorted.symm.trans h.sorted)
      nonempty := hnonempty
      spenders := by
        intro image id
        have hspenders := h.spenders image id
        rw [map_cons, mem_cons] at hspenders
        rw [hholders]
        by_cases hid : id = row.id
        · subst hid
          split_ifs with himage
          · simp [hgone]
          · rw [hspenders]
            simp [himage]
        · split_ifs with himage
          · rw [Finset.mem_erase, hspenders]
            simp [hid]
          · rw [hspenders]
            simp [hid] }

end Bookkeeping

end Arqma.TxPool
