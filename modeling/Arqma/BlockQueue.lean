import Arqma.OrderedTable
import Arqma.ServiceNodeRules

/-!
# The queue of blocks to download

A span is a run of blocks that one peer has been asked for, and that it may have sent. Beside the
spans, which are ordered by their first height, the queue keeps two sets: the hashes that are
requested and those whose blocks have come. Removing a span takes its hashes out of both sets, also
those that another span lists.
-/
namespace Arqma.Protocol
open Arqma.Cryptonote List Finset

variable {hashes : List Hash} {connectionId : Uuid} {start : UInt64}

abbrev Uuid := BitVec 128

section Pruning

def pruningTipBlocks : UInt64 := 5500

def pruningStripeSize : UInt64 := 2048

def pruningLogStripes : UInt64 := 1

def maxBlockNumber : UInt64 := 500000000

def getPruningLogStripes (pruningSeed : UInt32) : UInt32 := (pruningSeed >>> 7) &&& 7

/-- The stripe of a peer; zero stands for none. -/
def getSeedStripe (pruningSeed : UInt32) : UInt32 :=
  if pruningSeed = 0 then 0 else 1 + (pruningSeed &&& 127)

/-- The stripe of a block; zero stands for all. -/
def getPruningStripe (blockHeight blockchainHeight : UInt64) (logStripes : UInt32) : UInt32 :=
  if blockchainHeight ≤ blockHeight + pruningTipBlocks then 0
  else ((blockHeight / pruningStripeSize &&& (1 <<< logStripes.toUInt64) - 1) + 1).toUInt32

def hasUnprunedBlock (blockHeight blockchainHeight : UInt64) (pruningSeed : UInt32) : Bool :=
  let stripe := getSeedStripe pruningSeed
  if stripe = 0 then true
  else
    let blockStripe :=
      getPruningStripe blockHeight blockchainHeight (getPruningLogStripes pruningSeed)
    blockStripe = 0 || blockStripe = stripe

def getNextUnprunedBlockHeight (blockHeight blockchainHeight : UInt64) (pruningSeed : UInt32) :
    UInt64 :=
  let stripe := getSeedStripe pruningSeed
  if maxBlockNumber + 1 < blockHeight ∨ maxBlockNumber + 1 < blockchainHeight then blockHeight
  else if stripe = 0 then blockHeight
  else if blockchainHeight ≤ blockHeight + pruningTipBlocks then blockHeight
  else
    let seedLogStripes := (getPruningLogStripes pruningSeed).toUInt64
    let logStripes := if seedLogStripes = 0 then pruningLogStripes else seedLogStripes
    let mask := (1 <<< logStripes) - 1
    let blockStripe := ((blockHeight / pruningStripeSize &&& mask) + 1).toUInt32
    if blockStripe = stripe then blockHeight
    else
      let cycles := (blockHeight / pruningStripeSize) >>> logStripes
      let cycleStart := cycles + if blockStripe < stripe then 0 else 1
      let h := cycleStart * (pruningStripeSize <<< logStripes) +
        (stripe - 1).toUInt64 * pruningStripeSize
      if blockchainHeight < h + pruningTipBlocks then
        if blockchainHeight < pruningTipBlocks then 0 else blockchainHeight - pruningTipBlocks
      else if h < blockHeight then blockHeight
      else h

end Pruning

section Queue

variable {Entry : Type}

/-- The blocks are empty until they have come. -/
structure Span (Entry : Type) where
  startBlockHeight : UInt64
  hashes : List Hash := []
  blocks : List Entry := []
  connectionId : Uuid
  nblocks : ℕ

/-- A span whose blocks have come. -/
def Span.ofBlocks (height : UInt64) (bcel : List Entry) (connectionId : Uuid) : Span Entry where
  startBlockHeight := height
  blocks := bcel
  connectionId
  nblocks := bcel.length

def Span.key (span : Span Entry) : ℕ := span.startBlockHeight.toNat

def Span.filled (span : Span Entry) : Prop := span.blocks ≠ []

structure BlockQueue (Entry : Type) where
  blocks : OrderedTable (@Span.key Entry) := OrderedTable.empty
  requestedHashes : Finset Hash := ∅
  haveBlocks : Finset Hash := ∅

namespace BlockQueue

variable (q : BlockQueue Entry)

def requested (hash : Hash) : Bool := hash ∈ q.requestedHashes

def haveBlock (hash : Hash) : Bool := hash ∈ q.haveBlocks

def eraseBlock (span : Span Entry) : BlockQueue Entry where
  blocks := q.blocks.remove span.key
  requestedHashes := q.requestedHashes \ span.hashes.toFinset
  haveBlocks := q.haveBlocks \ span.hashes.toFinset

/-- A loop that erases some of the spans. -/
def eraseWhere (p : Span Entry → Bool) : BlockQueue Entry :=
  (q.blocks.rows.filter p).foldl eraseBlock q

def flushSpans (connectionId : Uuid) (all : Bool) : BlockQueue Entry :=
  q.eraseWhere fun span => span.connectionId = connectionId && (all || span.blocks.isEmpty)

def flushStaleSpans (liveConnections : List Uuid) : BlockQueue Entry :=
  q.eraseWhere fun span => span.blocks.isEmpty && !liveConnections.contains span.connectionId

def removeSpan (startBlockHeight : UInt64) : BlockQueue Entry × Option (List Hash) :=
  match q.blocks.find? startBlockHeight.toNat with
  | none => (q, none)
  | some span => (q.eraseBlock span, some span.hashes)

def removeSpans (connectionId : Uuid) (startBlockHeight : UInt64) : BlockQueue Entry :=
  q.eraseWhere fun span =>
    span.connectionId = connectionId && span.startBlockHeight ≤ startBlockHeight

def setSpanHashes (startHeight : UInt64) (connectionId : Uuid) (hashes : List Hash) :
    BlockQueue Entry :=
  match q.blocks.find? startHeight.toNat with
  | none => q
  | some span =>
    if span.connectionId = connectionId then
      let erased := q.eraseBlock span
      { erased with
        blocks := erased.blocks.insert { span with hashes }
        requestedHashes := erased.requestedHashes ∪ hashes.toFinset }
    else q

/-- `add_blocks` for blocks that have come. They take over the hashes of the span. -/
def addBlocks (height : UInt64) (bcel : List Entry) (connectionId : Uuid) : BlockQueue Entry :=
  let span := Span.ofBlocks height bcel connectionId
  match q.removeSpan height with
  | (q, none) => { q with blocks := q.blocks.insert span }
  | (q, some hashes) =>
    let q : BlockQueue Entry :=
      { blocks := q.blocks.insert span
        requestedHashes := q.requestedHashes ∪ hashes.toFinset
        haveBlocks := q.haveBlocks ∪ hashes.toFinset }
    q.setSpanHashes height connectionId hashes

/-- `add_blocks` for blocks that are asked for. An empty span throws. -/
def addEmptySpan (height : UInt64) (nblocks : ℕ) (connectionId : Uuid) : BlockQueue Entry :=
  if nblocks = 0 then q
  else { q with
    blocks := q.blocks.insert { startBlockHeight := height, connectionId, nblocks } }

end BlockQueue

/-- What `reserve_span` is called with. -/
structure Reservation where
  firstBlockHeight : UInt64
  lastBlockHeight : UInt64
  maxBlocks : UInt64
  connectionId : Uuid
  pruningSeed : UInt32 := 0
  blockchainHeight : UInt64
  blockHashes : List Hash

/-- As many hashes as are wanted, up to the first block that the peer has pruned. -/
def takeUnpruned (blockchainHeight : UInt64) (pruningSeed : UInt32) :
    UInt64 → ℕ → List Hash → List Hash
  | height, count + 1, hash :: rest =>
    if hasUnprunedBlock height blockchainHeight pruningSeed then
      hash :: takeUnpruned blockchainHeight pruningSeed (height + 1) count rest
    else []
  | _, _, _ => []

namespace BlockQueue

variable (q : BlockQueue Entry)

/-- Where `reserve_span` starts, with the hashes from there on. What is requested is skipped up to
the first hash that is not, before and after the start is moved to the peer's next stripe. -/
def spanStart (r : Reservation) : Option (UInt64 × List Hash) :=
  let size := UInt64.ofNat r.blockHashes.length
  if r.lastBlockHeight < r.firstBlockHeight ∨ r.maxBlocks = 0 then none
  else if r.lastBlockHeight < size then none
  else
    let hashesStart := r.lastBlockHeight - size + 1
    let idealStart := hashesStart + UInt64.ofNat (r.blockHashes.takeWhile q.requested).length
    let nextUnpruned :=
      (getNextUnprunedBlockHeight idealStart r.blockchainHeight r.pruningSeed).toUInt32.toUInt64
    let start :=
      if idealStart < nextUnpruned ∧ nextUnpruned < idealStart + pruningStripeSize then nextUnpruned
      else idealStart
    if size + hashesStart ≤ start then none
    else
      let rest := r.blockHashes.drop (start - hashesStart).toNat
      some (start + UInt64.ofNat (rest.takeWhile q.requested).length, rest.dropWhile q.requested)

/-- The start and the hashes of the span that `reserve_span` decides on. -/
def chooseSpan (r : Reservation) : Option (UInt64 × List Hash) :=
  (q.spanStart r).bind fun (start, rest) =>
    let hashes :=
      takeUnpruned r.blockchainHeight r.pruningSeed start r.maxBlocks.toNat rest
    if hashes = [] then none else some (start, hashes)

def reserveSpan (r : Reservation) : BlockQueue Entry :=
  match q.chooseSpan r with
  | none => q
  | some (start, hashes) =>
    (q.addEmptySpan start hashes.length r.connectionId).setSpanHashes start r.connectionId hashes

end BlockQueue

inductive QueueCall (Entry : Type)
  | addBlocks (height : UInt64) (bcel : List Entry) (connectionId : Uuid)
  | addEmptySpan (height : UInt64) (nblocks : ℕ) (connectionId : Uuid)
  | reserveSpan (r : Reservation)
  | setSpanHashes (startHeight : UInt64) (connectionId : Uuid) (hashes : List Hash)
  | removeSpan (startBlockHeight : UInt64)
  | removeSpans (connectionId : Uuid) (startBlockHeight : UInt64)
  | flushSpans (connectionId : Uuid) (all : Bool)
  | flushStaleSpans (liveConnections : List Uuid)

def BlockQueue.step (q : BlockQueue Entry) : QueueCall Entry → BlockQueue Entry
  | .addBlocks height bcel connectionId => q.addBlocks height bcel connectionId
  | .addEmptySpan height nblocks connectionId => q.addEmptySpan height nblocks connectionId
  | .reserveSpan r => q.reserveSpan r
  | .setSpanHashes startHeight connectionId hashes =>
    q.setSpanHashes startHeight connectionId hashes
  | .removeSpan startBlockHeight => (q.removeSpan startBlockHeight).1
  | .removeSpans connectionId startBlockHeight => q.removeSpans connectionId startBlockHeight
  | .flushSpans connectionId all => q.flushSpans connectionId all
  | .flushStaleSpans liveConnections => q.flushStaleSpans liveConnections

/-- The hashes that a call has a peer asked for. -/
def BlockQueue.schedules (q : BlockQueue Entry) : QueueCall Entry → List Hash
  | .reserveSpan r => ((q.chooseSpan r).map Prod.snd).getD []
  | _ => []

end Queue

section Tidy

variable {Entry : Type}

abbrev SpanTable (Entry : Type) := OrderedTable (@Span.key Entry)

/-- The set has just the hashes that some span of the kind lists. -/
def Tracks (p : Span Entry → Prop) (set : Finset Hash) (table : SpanTable Entry) : Prop :=
  ∀ hash, hash ∈ set ↔ ∃ span ∈ table.rows, p span ∧ hash ∈ span.hashes

/-- No hash is listed by two spans. -/
def Apart (table : SpanTable Entry) : Prop :=
  ∀ span ∈ table.rows, ∀ other ∈ table.rows, span.key ≠ other.key →
    List.Disjoint span.hashes other.hashes

structure Tidy (q : BlockQueue Entry) : Prop where
  requested : Tracks (fun _ => True) q.requestedHashes q.blocks
  arrived : Tracks Span.filled q.haveBlocks q.blocks
  apart : Apart q.blocks

variable {p : Span Entry → Prop} {set : Finset Hash} {table : SpanTable Entry} {span : Span Entry}

theorem Tracks.erase (h : Tracks p set table) (hapart : Apart table) (hspan : span ∈ table.rows) :
    Tracks p (set \ span.hashes.toFinset) (table.remove span.key) := by
  intro hash
  rw [mem_sdiff, mem_toFinset, h hash]
  constructor
  · grind [OrderedTable.eq_of_key_eq, OrderedTable.mem_remove.mpr]
  · rintro ⟨other, hother, hp, hlists⟩
    obtain ⟨hold, hkey⟩ := OrderedTable.mem_remove.mp hother
    exact ⟨⟨other, hold, hp, hlists⟩, fun hmem => hapart other hold span hspan hkey hlists hmem⟩

theorem Tracks.put (h : Tracks p set table) (hfree : table.Free span.key) (hp : p span) :
    Tracks p (set ∪ span.hashes.toFinset) (table.put span) := by
  intro hash
  grind [OrderedTable.Free, mem_toFinset, h hash, OrderedTable.mem_put]

theorem Tracks.put_other (h : Tracks p set table) (hfree : table.Free span.key)
    (hp : p span → span.hashes = []) : Tracks p set (table.put span) := by
  grind [OrderedTable.Free, Tracks, OrderedTable.mem_put]

theorem Apart.remove (h : Apart table) (k : ℕ) : Apart (table.remove k) :=
  fun span hspan other hother => h span (OrderedTable.mem_remove.mp hspan).1 other
    (OrderedTable.mem_remove.mp hother).1

/-- A span may be added if it lists no hash of another one. -/
theorem Apart.put (h : Apart table) (hfree : table.Free span.key)
    (hdisjoint : ∀ other ∈ table.rows, List.Disjoint span.hashes other.hashes) :
    Apart (table.put span) := by
  intro first hfirst second hsecond hkey
  obtain rfl | ⟨hold, -⟩ := OrderedTable.mem_put.mp hfirst
  · obtain rfl | ⟨hold', -⟩ := OrderedTable.mem_put.mp hsecond
    · exact absurd rfl hkey
    · exact hdisjoint second hold'
  · obtain rfl | ⟨hold', -⟩ := OrderedTable.mem_put.mp hsecond
    · exact (hdisjoint first hold).symm
    · exact h first hold second hold' hkey

theorem free_remove (table : SpanTable Entry) (k : ℕ) : (table.remove k).Free k :=
  fun _ hmem => (OrderedTable.mem_remove.mp hmem).2

theorem insert_of_free (h : table.Free span.key) : table.insert span = table.put span := by
  have hnone : table.find? span.key = none := OrderedTable.find?_eq_none.mpr h
  rw [OrderedTable.insert, hnone]
  rfl

end Tidy

section Calls

variable {Entry : Type} {q : BlockQueue Entry} {span : Span Entry}

theorem Tidy.eraseBlock (h : Tidy q) (hspan : span ∈ q.blocks.rows) : Tidy (q.eraseBlock span) :=
  ⟨h.requested.erase h.apart hspan, h.arrived.erase h.apart hspan, h.apart.remove span.key⟩

/-- Erasing spans of the queue one after the other. The induction is on those left to erase. -/
theorem Tidy.foldl_eraseBlock (h : Tidy q) {spans : List (Span Entry)}
    (hsorted : spans.Pairwise fun a b => a.key < b.key) (hmem : ∀ a ∈ spans, a ∈ q.blocks.rows) :
    Tidy (spans.foldl BlockQueue.eraseBlock q) := by
  induction spans generalizing q with
  | nil => exact h
  | cons first rest ih =>
    grind [BlockQueue.eraseBlock, pairwise_cons.mp, h.eraseBlock, OrderedTable.mem_remove.mpr]

theorem Tidy.eraseWhere (h : Tidy q) (p : Span Entry → Bool) : Tidy (q.eraseWhere p) :=
  h.foldl_eraseBlock (q.blocks.sorted.filter p) fun _ ha => (mem_filter.mp ha).1

theorem Tidy.removeSpan (h : Tidy q) (startBlockHeight : UInt64) :
    Tidy (q.removeSpan startBlockHeight).1 := by
  unfold BlockQueue.removeSpan
  split
  · exact h
  · rename_i span hfind
    exact h.eraseBlock (OrderedTable.find?_eq_some.mp hfind).1

/-- A span without hashes changes nothing that is tracked. -/
theorem Tidy.insert (h : Tidy q) (hhashes : span.hashes = []) :
    Tidy { q with blocks := q.blocks.insert span } := by
  by_cases hfind : (q.blocks.find? span.key).isSome = true
  · rw [OrderedTable.insert, if_pos hfind]
    exact h
  · have hfree : q.blocks.Free span.key := fun other hother hkey =>
      hfind (OrderedTable.isSome_find?.mpr ⟨other, hother, hkey⟩)
    rw [insert_of_free hfree]
    refine ⟨h.requested.put_other hfree fun _ => hhashes,
      h.arrived.put_other hfree fun _ => hhashes, h.apart.put hfree fun other _ => ?_⟩
    rw [hhashes]
    exact disjoint_nil_left _

theorem Tidy.addEmptySpan (h : Tidy q) (height : UInt64) (nblocks : ℕ) (connectionId : Uuid) :
    Tidy (q.addEmptySpan height nblocks connectionId) := by
  unfold BlockQueue.addEmptySpan
  split_ifs
  · exact h
  · exact h.insert rfl

/-- A span is replaced by one at the same height, whose hashes may count as arrived. -/
def BlockQueue.replace (q : BlockQueue Entry) (span new : Span Entry) (arrived : Bool) :
    BlockQueue Entry where
  blocks := (q.blocks.remove span.key).put new
  requestedHashes := q.requestedHashes \ span.hashes.toFinset ∪ new.hashes.toFinset
  haveBlocks := q.haveBlocks \ span.hashes.toFinset ∪
    if arrived then new.hashes.toFinset else ∅

/-- The queue stays tidy if no other span lists the new hashes, and they count as arrived just if
the blocks are there. -/
theorem Tidy.replace (h : Tidy q) (hspan : span ∈ q.blocks.rows) (new : Span Entry)
    (hkey : new.key = span.key) {arrived : Bool}
    (hdisjoint : ∀ other ∈ q.blocks.rows, other.key ≠ span.key →
      List.Disjoint new.hashes other.hashes)
    (hcounted : new.hashes = [] ∨ (arrived = true ↔ new.filled)) :
    Tidy (q.replace span new arrived) := by
  have hfree : (q.blocks.remove span.key).Free new.key := hkey ▸ free_remove q.blocks span.key
  have harrived := h.arrived.erase h.apart hspan
  refine ⟨(h.requested.erase h.apart hspan).put hfree trivial, ?_, ?_⟩
  · grind [toFinset_nil, union_empty, BlockQueue.replace, harrived.put_other, harrived.put]
  · refine (h.apart.remove span.key).put hfree fun other hother => ?_
    obtain ⟨hold, hne⟩ := OrderedTable.mem_remove.mp hother
    exact hdisjoint other hold hne

theorem setSpanHashes_eq {startHeight : UInt64} (hashes : List Hash)
    (hfind : q.blocks.find? startHeight.toNat = some span)
    (hconnection : span.connectionId = connectionId) :
    q.setSpanHashes startHeight connectionId hashes =
      q.replace span { span with hashes } false := by
  have hfree : (q.blocks.remove span.key).Free ({ span with hashes } : Span Entry).key :=
    free_remove q.blocks span.key
  simp only [BlockQueue.setSpanHashes, hfind, if_pos hconnection, BlockQueue.eraseBlock,
    BlockQueue.replace, insert_of_free hfree, Bool.false_eq_true, if_false, union_empty]

/-- The span at a height gets hashes that no other one lists, and has no blocks yet. -/
def CarefulHashes (q : BlockQueue Entry) (startHeight : UInt64) (connectionId : Uuid)
    (hashes : List Hash) : Prop :=
  ∀ span, q.blocks.find? startHeight.toNat = some span → span.connectionId = connectionId →
    (∀ other ∈ q.blocks.rows, other.key ≠ span.key → List.Disjoint hashes other.hashes) ∧
      (hashes = [] ∨ span.blocks = [])

theorem Tidy.setSpanHashes (h : Tidy q) {startHeight : UInt64} {connectionId : Uuid}
    {hashes : List Hash} (hcareful : CarefulHashes q startHeight connectionId hashes) :
    Tidy (q.setSpanHashes startHeight connectionId hashes) := by
  cases hfind : q.blocks.find? startHeight.toNat with
  | none =>
    rw [BlockQueue.setSpanHashes, hfind]
    exact h
  | some span =>
    by_cases hconnection : span.connectionId = connectionId
    · obtain ⟨hdisjoint, hempty⟩ := hcareful span hfind hconnection
      rw [setSpanHashes_eq hashes hfind hconnection]
      refine h.replace (OrderedTable.find?_eq_some.mp hfind).1 { span with hashes } rfl hdisjoint
        (hempty.imp_right ?_)
      simp [Span.filled]
    · simpa only [BlockQueue.setSpanHashes, hfind, if_neg hconnection] using h

theorem addBlocks_eq {height : UInt64} (bcel : List Entry) (connectionId : Uuid)
    (hfind : q.blocks.find? height.toNat = some span) :
    q.addBlocks height bcel connectionId =
      q.replace span { Span.ofBlocks height bcel connectionId with hashes := span.hashes }
        true := by
  have hkey : span.key = height.toNat := (OrderedTable.find?_eq_some.mp hfind).2
  have hfree : (q.blocks.remove span.key).Free (Span.ofBlocks height bcel connectionId).key :=
    hkey ▸ free_remove q.blocks span.key
  grind [Span.key, BlockQueue.addBlocks, BlockQueue.removeSpan, BlockQueue.eraseBlock,
    insert_of_free, setSpanHashes_eq, Span.ofBlocks, BlockQueue.replace, OrderedTable.remove_put,
    toFinset_nil, sdiff_empty, union_empty, OrderedTable.find?_put]

theorem Tidy.addBlocks (h : Tidy q) {height : UInt64} {bcel : List Entry} (connectionId : Uuid)
    (hcareful : bcel ≠ [] ∨ ∀ span, q.blocks.find? height.toNat = some span → span.hashes = []) :
    Tidy (q.addBlocks height bcel connectionId) := by
  cases hfind : q.blocks.find? height.toNat with
  | none =>
    simp only [BlockQueue.addBlocks, BlockQueue.removeSpan, hfind]
    exact h.insert rfl
  | some span =>
    obtain ⟨hspan, hkey⟩ := OrderedTable.find?_eq_some.mp hfind
    rw [addBlocks_eq bcel connectionId hfind]
    refine h.replace hspan { Span.ofBlocks height bcel connectionId with hashes := span.hashes }
      hkey.symm (fun other hother hne => h.apart span hspan other hother hne.symm) ?_
    rcases hcareful with hblocks | hnone
    · exact Or.inr (iff_of_true rfl hblocks)
    · exact Or.inl (hnone span hfind)

/-- In the list of hashes no requested one comes after one that is not, and the spans of the peer
that have blocks lie below the heights of the list. -/
structure CarefulReservation (q : BlockQueue Entry) (r : Reservation) : Prop where
  requestedFirst : r.blockHashes.Pairwise fun a b => q.requested a = false → q.requested b = false
  below : ∀ span ∈ q.blocks.rows, span.connectionId = r.connectionId → span.blocks ≠ [] →
    span.startBlockHeight.toNat + r.blockHashes.length ≤ r.lastBlockHeight.toNat

theorem takeUnpruned_prefix (blockchainHeight : UInt64) (pruningSeed : UInt32) (height : UInt64)
    (count : ℕ) (l : List Hash) :
    takeUnpruned blockchainHeight pruningSeed height count l <+: l := by
  fun_induction takeUnpruned blockchainHeight pruningSeed height count l with
  | case1 height count hash rest _ ih => exact (prefix_cons_inj hash).mpr ih
  | case2 => exact nil_prefix
  | case3 => exact nil_prefix

/-- The heights of a list of hashes do not wrap around where a span is chosen, and the start is
only moved upwards from the first of them. -/
theorem last_lt_start {last ideal start : UInt64} {length skipped more : ℕ}
    (hlength : length < 2 ^ 64) (hskipped : skipped ≤ length)
    (hideal : ideal = last - UInt64.ofNat length + 1 + UInt64.ofNat skipped) (hle : ideal ≤ start)
    (hsize : ¬last < UInt64.ofNat length)
    (hout : ¬UInt64.ofNat length + (last - UInt64.ofNat length + 1) ≤ start)
    (hmore : more < length - (start - (last - UInt64.ofNat length + 1)).toNat) :
    last.toNat < (start + UInt64.ofNat more).toNat + length := by
  have hofNat : ∀ n ≤ length, (UInt64.ofNat n).toNat = n := fun n hn =>
    UInt64.toNat_ofNat_of_lt' (lt_of_le_of_lt hn hlength)
  have hlast := last.toNat_lt
  have hsize := UInt64.not_lt.mp hsize
  have hbelow : (last - UInt64.ofNat length).toNat = last.toNat - length := by
    rw [UInt64.toNat_sub_of_le _ _ hsize, hofNat length le_rfl]
  rw [UInt64.le_iff_toNat_le, hofNat length le_rfl] at hsize
  have hfirst : (last - UInt64.ofNat length + 1).toNat = last.toNat - length + 1 := by
    rw [ServiceNodes.toNat_add_of_lt (by rw [hbelow, UInt64.toNat_one]; omega), hbelow,
      UInt64.toNat_one]
  rw [UInt64.le_iff_toNat_le, UInt64.toNat_add, hfirst, hofNat length le_rfl] at hout
  have hend : last.toNat + 1 < 2 ^ 64 := by
    by_contra hwrap
    rw [show length + (last.toNat - length + 1) = 2 ^ 64 by omega, Nat.mod_self] at hout
    exact hout (Nat.zero_le _)
  rw [Nat.mod_eq_of_lt (by omega)] at hout
  have hmoved : last.toNat - length + 1 + skipped ≤ start.toNat := by
    rw [hideal, UInt64.le_iff_toNat_le,
      ServiceNodes.toNat_add_of_lt (by rw [hfirst, hofNat _ hskipped]; omega), hfirst,
      hofNat _ hskipped] at hle
    exact hle
  rw [UInt64.toNat_sub_of_le _ _ (UInt64.le_iff_toNat_le.mpr (by omega)), hfirst] at hmore
  rw [ServiceNodes.toNat_add_of_lt (by rw [hofNat more (by omega)]; omega), hofNat more (by omega)]
  omega

/-- The chosen hashes are a part of the list that begins with one that is not requested, and the
span does not start below the heights of the list. -/
theorem chooseSpan_eq_some {r : Reservation} (h : q.chooseSpan r = some (start, hashes)) :
    hashes ≠ [] ∧ (∃ rest, rest <:+ r.blockHashes ∧ hashes <+: rest.dropWhile q.requested) ∧
      r.lastBlockHeight.toNat < start.toNat + r.blockHashes.length := by
  obtain ⟨⟨first, rest⟩, hstart, hchosen⟩ := Option.bind_eq_some_iff.mp h
  dsimp only at hchosen
  split_ifs at hchosen with hnil
  cases hchosen
  refine ⟨hnil, ?_⟩
  unfold BlockQueue.spanStart at hstart
  dsimp only at hstart
  generalize (getNextUnprunedBlockHeight _ _ _).toUInt32.toUInt64 = next at hstart
  generalize hideal : r.lastBlockHeight - UInt64.ofNat r.blockHashes.length + 1 +
    UInt64.ofNat (r.blockHashes.takeWhile q.requested).length = ideal at hstart
  generalize hbegin : (if ideal < next ∧ next < ideal + pruningStripeSize then next else ideal) =
    begin at hstart
  split_ifs at hstart with _ hsize hout
  have hle : ideal ≤ begin := by
    rw [← hbegin]
    split_ifs with hnext
    · exact UInt64.le_of_lt hnext.1
    · exact UInt64.le_refl _
  obtain ⟨rfl, rfl⟩ := Prod.mk.inj (Option.some.inj hstart)
  refine ⟨⟨_, drop_suffix _ _, takeUnpruned_prefix _ _ _ _ _⟩, ?_⟩
  by_cases hlength : r.blockHashes.length < 2 ^ 64
  · refine last_lt_start hlength (takeWhile_sublist _).length_le hideal.symm hle hsize hout ?_
    rw [← length_drop]
    refine lt_of_le_of_ne (takeWhile_sublist _).length_le fun hall => hnil ?_
    have hsplit := congrArg length (takeWhile_append_dropWhile (p := q.requested)
      (l := r.blockHashes.drop
        (begin - (r.lastBlockHeight - UInt64.ofNat r.blockHashes.length + 1)).toNat))
    rw [length_append, hall, Nat.add_eq_left, length_eq_zero_iff] at hsplit
    exact prefix_nil.mp (hsplit ▸ takeUnpruned_prefix _ _ _ _ _)
  · have := r.lastBlockHeight.toNat_lt
    omega

theorem Tidy.disjoint_of_fresh (h : Tidy q)
    (hfresh : ∀ hash ∈ hashes, q.requested hash = false) (hspan : span ∈ q.blocks.rows) :
    List.Disjoint hashes span.hashes := by
  intro hash hhash hlists
  have hrequested : hash ∈ q.requestedHashes :=
    (h.requested hash).mpr ⟨span, hspan, trivial, hlists⟩
  exact of_decide_eq_false (hfresh hash hhash) hrequested

/-- The span is new, unless there is one without blocks at the height. -/
theorem carefulHashes_addEmptySpan (h : Tidy q) (hne : hashes ≠ [])
    (hfresh : ∀ hash ∈ hashes, q.requested hash = false)
    (hempty : ∀ span, q.blocks.find? start.toNat = some span → span.connectionId = connectionId →
      span.blocks = []) :
    CarefulHashes (q.addEmptySpan start hashes.length connectionId) start connectionId hashes := by
  have hlength : hashes.length ≠ 0 := fun hnil => hne (length_eq_zero_iff.mp hnil)
  grind [Span.key, BlockQueue.addEmptySpan, OrderedTable.insert, CarefulHashes, h.disjoint_of_fresh,
    OrderedTable.find?_put, OrderedTable.mem_put.mp]

theorem CarefulReservation.fresh {r : Reservation} (h : CarefulReservation q r)
    (hchosen : q.chooseSpan r = some (start, hashes)) :
    ∀ hash ∈ hashes, q.requested hash = false := by
  obtain ⟨-, ⟨rest, hsuffix, hprefix⟩, -⟩ := chooseSpan_eq_some hchosen
  have hpair := h.requestedFirst.sublist ((dropWhile_sublist q.requested).trans hsuffix.sublist)
  intro hash hhash
  replace hhash := hprefix.subset hhash
  cases hdrop : rest.dropWhile q.requested with
  | nil => simp [hdrop] at hhash
  | cons first later =>
    have hfirst : q.requested first = false := by
      simpa [hdrop] using head_dropWhile_not q.requested (l := rest) (by simp [hdrop])
    rw [hdrop] at hhash hpair
    rcases mem_cons.mp hhash with rfl | hlater
    · exact hfirst
    · exact (pairwise_cons.mp hpair).1 hash hlater hfirst

theorem CarefulReservation.tidy {r : Reservation} (hcareful : CarefulReservation q r) (h : Tidy q) :
    Tidy (q.reserveSpan r) := by
  unfold BlockQueue.reserveSpan
  cases hchosen : q.chooseSpan r with
  | none => exact h
  | some chosen =>
    obtain ⟨start, hashes⟩ := chosen
    obtain ⟨hne, -, hstart⟩ := chooseSpan_eq_some hchosen
    refine (h.addEmptySpan _ _ _).setSpanHashes (carefulHashes_addEmptySpan h hne
      (hcareful.fresh hchosen) fun span hfind hconnection => ?_)
    by_contra hblocks
    obtain ⟨hspan, hkey⟩ := OrderedTable.find?_eq_some.mp hfind
    have hbelow := hcareful.below span hspan hconnection hblocks
    have hkey : span.startBlockHeight.toNat = start.toNat := hkey
    omega

end Calls

section Run

variable {Entry : Type}

/-- What a call has to keep to. Nothing is asked of those that only erase spans or add one without
hashes. -/
def Careful (q : BlockQueue Entry) : QueueCall Entry → Prop
  | .addBlocks height bcel _ =>
    bcel ≠ [] ∨ ∀ span, q.blocks.find? height.toNat = some span → span.hashes = []
  | .reserveSpan r => CarefulReservation q r
  | .setSpanHashes startHeight connectionId hashes =>
    CarefulHashes q startHeight connectionId hashes
  | _ => True

/-- The call leaves both sets exact and has no peer asked for a hash that is requested. -/
structure Sound (q : BlockQueue Entry) (call : QueueCall Entry) : Prop where
  requested : ∀ hash, (q.step call).requested hash = true ↔
    ∃ span ∈ (q.step call).blocks.rows, hash ∈ span.hashes
  arrived : ∀ hash, (q.step call).haveBlock hash = true ↔
    ∃ span ∈ (q.step call).blocks.rows, span.blocks ≠ [] ∧ hash ∈ span.hashes
  fresh : ∀ hash ∈ q.schedules call, q.requested hash = false

/-- The calls all satisfy a condition, each on the queue it finds. -/
def Along (condition : BlockQueue Entry → QueueCall Entry → Prop) :
    BlockQueue Entry → List (QueueCall Entry) → Prop
  | _, [] => True
  | q, call :: rest => condition q call ∧ Along condition (q.step call) rest

theorem Tidy.step {q : BlockQueue Entry} (h : Tidy q) {call : QueueCall Entry}
    (hcareful : Careful q call) : Tidy (q.step call) := by
  cases call with
  | addBlocks height bcel connectionId => exact h.addBlocks connectionId hcareful
  | addEmptySpan height nblocks connectionId => exact h.addEmptySpan height nblocks connectionId
  | reserveSpan r => exact hcareful.tidy h
  | setSpanHashes startHeight connectionId hashes => exact h.setSpanHashes hcareful
  | removeSpan startBlockHeight => exact h.removeSpan startBlockHeight
  | removeSpans connectionId startBlockHeight => exact h.eraseWhere _
  | flushSpans connectionId all => exact h.eraseWhere _
  | flushStaleSpans liveConnections => exact h.eraseWhere _

theorem Careful.fresh {q : BlockQueue Entry} {call : QueueCall Entry} (h : Careful q call) :
    ∀ hash ∈ q.schedules call, q.requested hash = false := by
  cases call with
  | reserveSpan r =>
    intro hash hhash
    rw [BlockQueue.schedules] at hhash
    cases hchosen : q.chooseSpan r with
    | none => simp [hchosen] at hhash
    | some chosen => exact CarefulReservation.fresh h hchosen hash (by simpa [hchosen] using hhash)
  | _ => exact fun hash hhash => absurd hhash not_mem_nil

theorem Tidy.along {q : BlockQueue Entry} (h : Tidy q) {calls : List (QueueCall Entry)}
    (hcareful : Along Careful q calls) : Along Sound q calls := by
  induction calls generalizing q with
  | nil => trivial
  | cons call rest ih =>
    have hnext := h.step hcareful.1
    refine ⟨⟨fun hash => ?_, fun hash => ?_, hcareful.1.fresh⟩, ih hnext hcareful.2⟩
    · simpa [BlockQueue.requested] using hnext.requested hash
    · simpa [BlockQueue.haveBlock, Span.filled] using hnext.arrived hash

theorem tidy_empty : Tidy ({} : BlockQueue Entry) where
  requested _ := iff_of_false (notMem_empty _) fun ⟨_, hmem, _⟩ => not_mem_nil hmem
  arrived _ := iff_of_false (notMem_empty _) fun ⟨_, hmem, _⟩ => not_mem_nil hmem
  apart _ hmem := absurd hmem not_mem_nil

/-- In every run of careful calls from the empty queue all calls are sound. -/
theorem queue_sound (calls : List (QueueCall Entry))
    (h : Along Careful ({} : BlockQueue Entry) calls) :
    Along Sound ({} : BlockQueue Entry) calls :=
  tidy_empty.along h

/-- A peer may be asked for some of four blocks. -/
def reserveSome (connectionId : Uuid) (maxBlocks : UInt64) : QueueCall Unit :=
  .reserveSpan
    { firstBlockHeight := 10
      lastBlockHeight := 13
      maxBlocks
      connectionId
      blockchainHeight := 20
      blockHashes := [10, 11, 12, 13] }

/-- Two peers are asked for two blocks each, the first one sends them and the second one leaves. -/
theorem two_peers_sound :
    Along Sound ({} : BlockQueue Unit)
      [reserveSome 1 2, reserveSome 2 2, .addBlocks 10 [(), ()] 1, .flushSpans 2 true] :=
  queue_sound _ ⟨⟨by decide, by decide⟩, ⟨by decide, by decide⟩,
    Or.inl (cons_ne_nil _ _), trivial, trivial⟩

/-- Two peers are asked for two blocks each and the first one leaves. The next one is asked for all
four, and when it leaves too the blocks of the second one do not count as requested. -/
theorem requested_hash_scheduled :
    let calls := [reserveSome 1 2, reserveSome 2 2, .flushSpans 1 true]
    let q := calls.foldl BlockQueue.step ({} : BlockQueue Unit)
    let after := (q.step (reserveSome 3 4)).step (.flushSpans 3 true)
    q.requested 12 = true ∧ q.schedules (reserveSome 3 4) = [10, 11, 12, 13] ∧
      after.blocks.rows.map (fun span => (span.connectionId, span.hashes)) = [(2, [12, 13])] ∧
      after.requested 12 = false := by
  decide

end Run

end Arqma.Protocol
