import Arqma.TxPool

/-!
# Runs of the transaction pool

Each call keeps the books right as long as no admitted transaction spends a key image twice, none
without inputs is added while it is in the pool, and a validation leaves an empty pool: the last
because a validation sets the weight to zero and never adds up what stays.
-/
namespace Arqma.TxPool
open Arqma.Cryptonote List OrderedTable

variable {s : TxMemoryPool} {entries : List SortedEntry} {sorted : List SortedEntry}
  {entry : SortedEntry} {tx : Transaction} {db : PoolTable} {books : Books}

section Soundness

variable {env : PoolEnv} {s : TxMemoryPool}

/-- The books are right, and the stored transactions are such that they can be kept so: each spends
distinct key images, and two of them that no block keeps spend no key image in common. -/
structure Sound (env : PoolEnv) (s : TxMemoryPool) : Prop where
  booked : Booked env s.db.rows s.toBooks
  weights : ∀ row ∈ s.db.rows, row.info.weight = (env.txOf row.id).weight
  keys : ∀ row ∈ s.db.rows, KeysOk (env.txOf row.id).tx.vin
  apart : ∀ a ∈ s.db.rows, ∀ b ∈ s.db.rows, a.info.keptByBlock = false →
    b.info.keptByBlock = false → ∀ image ∈ spentImages (env.txOf a.id).tx.vin,
      image ∈ spentImages (env.txOf b.id).tx.vin → a.id = b.id

/-- The hashes of the stored transactions are distinct. -/
theorem nodup_ids (db : PoolTable) : (db.rows.map PoolRow.id).Nodup :=
  List.Nodup.of_map BitVec.toNat (by simpa [Function.comp_def] using db.nodup_keys)

variable {id : Hash} {row : PoolRow} {call : AddCall}

theorem mem_of_find? (h : db.find? id.toNat = some row) : row ∈ db.rows ∧ row.id = id := by
  obtain ⟨hmem, hkey⟩ := find?_eq_some.mp h
  exact ⟨hmem, BitVec.toNat_inj.mp hkey⟩

theorem map_id_eraseSorted (h : id ∈ sorted.map SortedEntry.id) :
    (sorted.map SortedEntry.id).Perm (id :: (eraseSorted sorted id).map SortedEntry.id) := by
  obtain ⟨entry, hentry, hid⟩ := mem_map.mp h
  obtain ⟨found, before, after, -, hfound, hsorted, herased⟩ :=
    exists_of_eraseP (p := fun entry : SortedEntry => entry.id = id) hentry
      (by simpa using hid)
  grind [eraseSorted]

theorem Sound.remove (h : Sound env s) (hrow : row ∈ s.db.rows)
    (hsorted : (s.sorted.map SortedEntry.id).Perm (row.id :: sorted.map SortedEntry.id)) :
    Sound env { s.drop env row.id row.info.weight with sorted } := by
  have hperm : s.db.rows.Perm (row :: (s.db.remove row.id.toNat).rows) := perm_remove hrow
  have hgone : row.id ∉ (s.db.remove row.id.toNat).rows.map PoolRow.id := by
    have hnodup := (hperm.map PoolRow.id).nodup_iff.mp (nodup_ids s.db)
    exact (nodup_cons.mp hnodup).1
  have hold : ∀ other ∈ (s.db.remove row.id.toNat).rows, other ∈ s.db.rows :=
    fun other hother => (mem_remove.mp hother).1
  exact
    { booked := (h.booked.perm hperm).strike hgone (h.keys row hrow) hsorted
      weights := fun other hother => h.weights other (hold other hother)
      keys := fun other hother => h.keys other (hold other hother)
      apart := fun a ha b hb => h.apart a (hold a ha) b (hold b hb) }

theorem Sound.mem_sorted (h : Sound env s) (hrow : row ∈ s.db.rows) :
    row.id ∈ s.sorted.map SortedEntry.id :=
  h.booked.sorted.mem_iff.mpr (mem_map_of_mem hrow)

/-- A stored transaction is removed together with its entry in the container. -/
def removeRow (env : PoolEnv) (s : TxMemoryPool) (row : PoolRow) : TxMemoryPool :=
  { s.drop env row.id row.info.weight with sorted := eraseSorted s.sorted row.id }

theorem Sound.removeRow (h : Sound env s) (hrow : row ∈ s.db.rows) :
    Sound env (removeRow env s row) :=
  h.remove hrow (map_id_eraseSorted (h.mem_sorted hrow))

theorem Sound.removeRows (h : Sound env s) {rows : List PoolRow}
    (hrows : ∀ row ∈ rows, row ∈ s.db.rows) (hnodup : (rows.map PoolRow.id).Nodup) :
    Sound env (rows.foldl (TxPool.removeRow env) s) := by
  induction rows generalizing s with
  | nil => exact h
  | cons row rest ih =>
    rw [map_cons, nodup_cons] at hnodup
    refine ih (h.removeRow (hrows row mem_cons_self)) (fun other hother => ?_) hnodup.2
    refine mem_remove.mpr ⟨hrows other (mem_cons_of_mem _ hother), fun hkey => ?_⟩
    exact hnodup.1 (BitVec.toNat_inj.mp hkey ▸ mem_map_of_mem hother)

theorem Sound.takeTx (h : Sound env s) (id : Hash) : Sound env (takeTx env s id).1 := by
  unfold TxPool.takeTx
  split
  next => exact h
  next row hfind =>
    obtain ⟨hrow, rfl⟩ := mem_of_find? hfind
    exact h.removeRow hrow

/-- Erasing all entries first comes to the same. -/
theorem foldl_drop_eq (env : PoolEnv) (rows : List PoolRow) (s : TxMemoryPool) :
    rows.foldl (fun s row => s.drop env row.id row.info.weight)
      { s with sorted := rows.foldl (fun sorted row => eraseSorted sorted row.id) s.sorted } =
      rows.foldl (removeRow env) s := by
  induction rows generalizing s with
  | nil => rfl
  | cons row rest ih => exact ih (removeRow env s row)

theorem sublist_filter_ids (p : PoolRow → Bool) (db : PoolTable) :
    ((db.rows.filter p).map PoolRow.id).Nodup :=
  (nodup_ids db).sublist (filter_sublist.map PoolRow.id)

theorem Sound.removeStuckTransactions (h : Sound env s) (ctx : CallContext) :
    Sound env (removeStuckTransactions env ctx s) := by
  unfold TxPool.removeStuckTransactions
  have htimed : Sound env { s with
      timedOut := (s.db.rows.filter (isStuck ctx.now)).foldl
        (fun ids row => insert row.id ids) s.timedOut } :=
    ⟨h.booked, h.weights, h.keys, h.apart⟩
  have hremoved := htimed.removeRows (fun row hrow => mem_of_mem_filter hrow)
    (sublist_filter_ids (isStuck ctx.now) s.db)
  rw [← foldl_drop_eq] at hremoved
  exact hremoved

/-- The weight stays zero once it has been set to zero. -/
theorem foldl_validateRow (env : PoolEnv) (rows : List PoolRow) (s : TxMemoryPool) :
    rows.foldl (validateRow env) { s with txpoolWeight := 0 } =
      { rows.foldl (removeRow env) s with txpoolWeight := 0 } := by
  induction rows generalizing s with
  | nil => rfl
  | cons row rest ih =>
    have hzero : decreaseTxpoolWeight 0 (env.txOf row.id).weight = 0 := by
      unfold decreaseTxpoolWeight
      split_ifs
      · rfl
      · exact Nat.zero_sub _
    have hstep : validateRow env { s with txpoolWeight := 0 } row =
        { removeRow env s row with txpoolWeight := 0 } := by
      simp only [validateRow, TxMemoryPool.drop, removeRow, hzero]
    rw [foldl_cons, foldl_cons, hstep, ih]

theorem mem_removeRows {rows : List PoolRow}
    (h : row ∈ (rows.foldl (removeRow env) s).db.rows) :
    row ∈ s.db.rows ∧ ∀ gone ∈ rows, gone.id ≠ row.id := by
  induction rows generalizing s with
  | nil => exact ⟨h, fun _ hgone => absurd hgone not_mem_nil⟩
  | cons first rest ih =>
    obtain ⟨hmem, hrest⟩ := ih h
    obtain ⟨hold, hkey⟩ := mem_remove.mp hmem
    refine ⟨hold, forall_mem_cons.mpr ⟨fun hid => hkey ?_, hrest⟩⟩
    rw [hid]

/-- Every stored transaction that is not in the chain weighs nothing. -/
def LightOutsideChain (inChain : Hash → Bool) (s : TxMemoryPool) : Prop :=
  ∀ row ∈ s.db.rows, inChain row.id = false → row.info.weight = 0

theorem Sound.validate (h : Sound env s) {inChain : Hash → Bool}
    (hlight : LightOutsideChain inChain s) : Sound env (validate env inChain s) := by
  have hremoved := h.removeRows (fun row hrow => mem_of_mem_filter hrow)
    (sublist_filter_ids (fun row => inChain row.id) s.db)
  have hzero : (((s.db.rows.filter fun row => inChain row.id).foldl
      (TxPool.removeRow env) s).db.rows.map fun row => row.info.weight).sum = 0 := by
    refine sum_eq_zero fun weight hweight => ?_
    obtain ⟨row, hrow, rfl⟩ := mem_map.mp hweight
    obtain ⟨hold, hgone⟩ := mem_removeRows hrow
    refine hlight row hold (Bool.eq_false_of_not_eq_true fun hin => ?_)
    exact hgone row (List.mem_filter.mpr ⟨hold, hin⟩) rfl
  unfold TxPool.validate
  rw [foldl_validateRow]
  exact
    { booked :=
        { weight := hzero.symm
          sorted := hremoved.booked.sorted
          nonempty := hremoved.booked.nonempty
          spenders := hremoved.booked.spenders }
      weights := hremoved.weights
      keys := hremoved.keys
      apart := hremoved.apart }

/-- An entry of the container is pruned, or it is kept by a block and stays. -/
theorem Sound.tryPruning (h : Sound env s) (hentry : entry ∈ s.sorted) :
    ∃ s', tryPruning env s entry = (s', true) ∧ Sound env s' ∧
      ∀ other ∈ s.sorted, other ≠ entry → other ∈ s'.sorted := by
  have hid : entry.id ∈ s.db.rows.map PoolRow.id :=
    h.booked.sorted.mem_iff.mp (mem_map_of_mem hentry)
  obtain ⟨row, hrow, hrowId⟩ := mem_map.mp hid
  have hfind : s.db.find? entry.id.toNat = some row := find?_eq_some.mpr ⟨hrow, by rw [hrowId]⟩
  grind [TxPool.tryPruning, h.remove, perm_cons_erase]

/-- After the first of several entries the others are still there. -/
theorem Sound.tryPruning_cons (h : Sound env s) {rest : List SortedEntry}
    (hentries : ∀ other ∈ entry :: rest, other ∈ s.sorted) (hnodup : (entry :: rest).Nodup) :
    ∃ s', TxPool.tryPruning env s entry = (s', true) ∧ Sound env s' ∧
      (∀ other ∈ rest, other ∈ s'.sorted) ∧ rest.Nodup := by
  grind [h.tryPruning, mem_cons_self]

theorem Sound.pruneExpired (h : Sound env s) (now : ℕ)
    (hentries : ∀ entry ∈ entries, entry ∈ s.sorted) (hnodup : entries.Nodup) :
    ∃ s', pruneExpired env now s entries = (s', true) ∧ Sound env s' := by
  induction entries generalizing s with
  | nil => exact ⟨s, rfl, h⟩
  | cons entry rest ih =>
    grind [TxPool.pruneExpired, h.tryPruning_cons]

theorem Sound.pruneHeavy (h : Sound env s)
    (hentries : ∀ entry ∈ entries, entry ∈ s.sorted) (hnodup : entries.Nodup) :
    ∃ s', pruneHeavy env s entries = (s', true) ∧ Sound env s' := by
  induction entries generalizing s with
  | nil => exact ⟨s, rfl, h⟩
  | cons entry rest ih =>
    grind [TxPool.pruneHeavy, h.tryPruning_cons]

theorem Sound.nodup_sorted (h : Sound env s) : s.sorted.Nodup :=
  List.Nodup.of_map SortedEntry.id (h.booked.sorted.nodup_iff.mpr (nodup_ids s.db))

theorem Sound.prune (h : Sound env s) (ctx : CallContext) : Sound env (prune env ctx s) := by
  obtain ⟨expired, hexpired, hsound⟩ :=
    h.pruneExpired ctx.now (fun entry hentry => hentry) h.nodup_sorted
  have hback : ∀ entry ∈ expired.sorted.tail.reverse, entry ∈ expired.sorted :=
    fun entry hentry => mem_of_mem_tail (mem_reverse.mp hentry)
  obtain ⟨pruned, hpruned, hsound'⟩ := hsound.pruneHeavy hback
    (nodup_reverse.mpr (hsound.nodup_sorted.sublist (tail_sublist _)))
  unfold TxPool.prune
  rw [hexpired]
  dsimp only
  rw [hpruned]
  exact hsound'

/-- The transaction is new to the pool or has inputs, and these spend distinct key images. -/
def AddsCleanly (env : PoolEnv) (s : TxMemoryPool) (id : Hash) : Prop :=
  (spentImages (env.txOf id).tx.vin).Nodup ∧
    ((env.txOf id).tx.vin = [] → id ∉ s.db.rows.map PoolRow.id)

theorem keysOk_of_supported (hsupported : checkInputsTypesSupported tx = true)
    (hnodup : (spentImages tx.vin).Nodup) : KeysOk tx.vin := by
  refine ⟨fun input hinput => ?_, hnodup⟩
  have hkind := all_eq_true.mp hsupported input hinput
  grind

theorem admission_admitted (h : admission env s id call = .admitted) :
    checkInputsTypesSupported (env.txOf id).tx = true ∧ (call.keptByBlock = true ∨
        haveTxKeyimgesAsSpent s.spentKeyImages (env.txOf id).tx = false) := by
  unfold admission at h
  grind

theorem holders_eq_empty {images : KeyImages}
    (h : haveTxKeyimgesAsSpent images tx = false) {image : KeyImage}
    (himage : image ∈ spentImages tx.vin) : holders images image = ∅ := by
  unfold haveTxKeyimgesAsSpent at h
  generalize tx.vin = vin at h himage
  induction vin with
  | nil => exact absurd himage not_mem_nil
  | cons input rest ih =>
    rw [any_cons, Bool.or_eq_false_iff] at h
    cases input with
    | toKey amount offsets spent =>
      rcases mem_cons.mp himage with rfl | himage
      · have hnone := Option.not_isSome_iff_eq_none.mp (Bool.eq_false_iff.mp h.1)
        rw [holders, hnone, Option.getD_none]
      · exact ih h.2 himage
    | gen height => cases h.1
    | toScript prev prevout => cases h.1
    | toScriptHash prev prevout => cases h.1

/-- The books depend on the hashes and the weights of the rows only. -/
theorem Booked.congr {rows rows' : List PoolRow} (h : Booked env rows books)
    (hids : rows'.map PoolRow.id = rows.map PoolRow.id)
    (hweights : rows'.map (fun row => row.info.weight) = rows.map fun row => row.info.weight) :
    Booked env rows' books where
  weight := by rw [hweights, h.weight]
  sorted := by
    rw [hids]
    exact h.sorted
  nonempty := h.nonempty
  spenders image id := by rw [hids, h.spenders]

theorem Sound.markDoubleSpend (h : Sound env s) (tx : Transaction) :
    Sound env (markDoubleSpend s tx) := by
  have hmark : ∀ row' ∈ (TxPool.markDoubleSpend s tx).db.rows, ∃ row ∈ s.db.rows, row'.id = row.id ∧
      row'.info.weight = row.info.weight ∧ row'.info.keptByBlock = row.info.keptByBlock := by
    intro row' hrow'
    obtain ⟨row, hrow, rfl⟩ := mem_map.mp hrow'
    refine ⟨row, hrow, ?_⟩
    split_ifs
    · exact ⟨rfl, rfl, rfl⟩
    · exact ⟨rfl, rfl, rfl⟩
  constructor
  · refine h.booked.congr ?_ ?_
    · refine map_map.trans (map_congr_left fun row _ => ?_)
      dsimp only [Function.comp_apply]
      split_ifs <;> rfl
    · refine map_map.trans (map_congr_left fun row _ => ?_)
      dsimp only [Function.comp_apply]
      split_ifs <;> rfl
  · intro row' hrow'
    obtain ⟨row, hrow, hid, hweight, -⟩ := hmark row' hrow'
    rw [hid, hweight, h.weights row hrow]
  · intro row' hrow'
    obtain ⟨row, hrow, hid, -, -⟩ := hmark row' hrow'
    rw [hid]
    exact h.keys row hrow
  · grind [h.apart]

theorem free_of_not_mem (h : id ∉ db.rows.map PoolRow.id) : db.Free id.toNat :=
  fun _ hrow hkey => h (BitVec.toNat_inj.mp hkey ▸ mem_map_of_mem hrow)

/-- A transaction that the pool does not have yet is stored and entered in the books. -/
theorem Sound.storeTx_new (h : Sound env s) (hadmitted : admission env s id call = .admitted)
    (hkeys : KeysOk (env.txOf id).tx.vin) (hnew : id ∉ s.db.rows.map PoolRow.id) :
    Sound env (storeTx env s id call).1 := by
  obtain ⟨-, hfree⟩ := admission_admitted hadmitted
  have hunspent : call.keptByBlock = true ∨ ∀ image ∈ spentImages (env.txOf id).tx.vin,
      holders s.spentKeyImages image = ∅ :=
    hfree.imp_right fun hspent image himage => holders_eq_empty hspent himage
  obtain ⟨images, hinsert, hbooked⟩ :=
    h.booked.enter ⟨id, newMeta env s id call⟩ hnew hkeys hunspent
  have hrows : (s.db.put ⟨id, newMeta env s id call⟩).rows.Perm
      (⟨id, newMeta env s id call⟩ :: s.db.rows) := by
    have hput := perm_put s.db ⟨id, newMeta env s id call⟩
    rwa [remove_of_free (free_of_not_mem hnew)] at hput
  have hmem : ∀ row ∈ (s.db.put ⟨id, newMeta env s id call⟩).rows,
      row = ⟨id, newMeta env s id call⟩ ∨ row ∈ s.db.rows :=
    fun row hrow => mem_cons.mp (hrows.mem_iff.mp hrow)
  -- An old transaction that no block keeps shares no key image with a new one of that kind.
  have hclash : ∀ old ∈ s.db.rows, call.keptByBlock = false →
      ∀ image ∈ spentImages (env.txOf id).tx.vin, image ∉ spentImages (env.txOf old.id).tx.vin := by
    intro old hold hkept image himage himage'
    have hholder := (h.booked.spenders image old.id).mpr ⟨mem_map_of_mem hold, himage'⟩
    rcases hunspent with hkept' | hnone
    · exact absurd (hkept.symm.trans hkept') Bool.false_ne_true
    · rw [hnone image himage] at hholder
      exact absurd hholder (Finset.notMem_empty _)
  unfold storeTx
  dsimp only
  rw [show insertKeyImages id call.keptByBlock s.spentKeyImages (env.txOf id).tx.vin =
    (images, true) from hinsert]
  constructor <;> grind [newMeta, hbooked.perm, h.weights, h.keys, h.apart]

theorem Sound.storeTx_again (h : Sound env s) (hadmitted : admission env s id call = .admitted)
    (hkeys : KeysOk (env.txOf id).tx.vin) (hne : (env.txOf id).tx.vin ≠ [])
    (hold : id ∈ s.db.rows.map PoolRow.id) : Sound env (storeTx env s id call).1 := by
  have hholders : ∀ image ∈ spentImages (env.txOf id).tx.vin, id ∈ holders s.spentKeyImages image :=
    fun image himage => (h.booked.spenders image id).mpr ⟨hold, himage⟩
  have hkept : call.keptByBlock = true := by
    refine (admission_admitted hadmitted).2.resolve_right fun hspent => ?_
    obtain ⟨input, rest, hvin⟩ := exists_cons_of_ne_nil hne
    grind [spentImages, KeysOk, holders_eq_empty, mem_cons_self]
  have hinsert := insertKeyImages_of_mem call.keptByBlock hkeys hne hholders
  obtain ⟨old, holdRow, rfl⟩ := mem_map.mp hold
  unfold storeTx
  dsimp only
  rw [hinsert]
  dsimp only [giveUp]
  by_cases hbatch : call.batchActive = true
  · rw [if_pos hbatch]
    have hput := perm_put s.db ⟨old.id, newMeta env s old.id call⟩
    have hrows : s.db.rows.Perm (old :: (s.db.remove old.id.toNat).rows) := perm_remove holdRow
    have hmem : ∀ row ∈ (s.db.put ⟨old.id, newMeta env s old.id call⟩).rows,
        row = ⟨old.id, newMeta env s old.id call⟩ ∨ row ∈ s.db.rows :=
      fun row hrow => (mem_put.mp hrow).imp_right And.left
    constructor
    · refine ((h.booked.perm hrows).congr ?_ ?_).perm hput.symm
      · rfl
      · rw [map_cons, map_cons, h.weights old holdRow]
        rfl
    · intro row hrow
      rcases hmem row hrow with rfl | hrow
      · rfl
      · exact h.weights row hrow
    · intro row hrow
      rcases hmem row hrow with rfl | hrow
      · exact hkeys
      · exact h.keys row hrow
    · intro a ha b hb hkepta hkeptb
      rcases hmem a ha with rfl | ha
      · exact absurd (hkept.symm.trans hkepta) (Ne.symm Bool.false_ne_true)
      · rcases hmem b hb with rfl | hb
        · exact absurd (hkept.symm.trans hkeptb) (Ne.symm Bool.false_ne_true)
        · exact h.apart a ha b hb hkepta hkeptb
  · rw [if_neg hbatch]
    exact ⟨h.booked, h.weights, h.keys, h.apart⟩

theorem Sound.addTx (h : Sound env s)
    (hclean : admission env s id call = .admitted → AddsCleanly env s id) :
    Sound env (addTx env s id call).1 := by
  unfold TxPool.addTx
  cases hadmission : admission env s id call with
  | refused => exact h
  | doubleSpend => exact h.markDoubleSpend _
  | admitted =>
    obtain ⟨hnodup, hempty⟩ := hclean hadmission
    have hkeys := keysOk_of_supported (admission_admitted hadmission).1 hnodup
    have hstored : Sound env (storeTx env s id call).1 := by
      grind [h.storeTx_again, h.storeTx_new]
    grind [hstored.prune]

/-- Rows that are new to the books are entered one after the other. -/
theorem Booked.enterRows {done : List PoolRow} (h : Booked env done books)
    (rows : List PoolRow) (hnodup : ((rows ++ done).map PoolRow.id).Nodup)
    (hkeys : ∀ row ∈ rows, KeysOk (env.txOf row.id).tx.vin)
    (hapart : ∀ row ∈ rows, row.info.keptByBlock = true ∨ ∀ other ∈ rows ++ done,
      ∀ image ∈ spentImages (env.txOf row.id).tx.vin,
        image ∈ spentImages (env.txOf other.id).tx.vin → other.id = row.id) :
    ∃ books', enterRows env books rows = (books', true) ∧ Booked env (rows ++ done) books' := by
  induction rows generalizing done books with
  | nil => exact ⟨books, rfl, h⟩
  | cons row rest ih =>
    have hmiddle : (rest ++ row :: done).Perm (row :: rest ++ done) := perm_middle
    have hnew : row.id ∉ done.map PoolRow.id := by
      rw [cons_append, map_cons, nodup_cons, map_append] at hnodup
      exact fun hmem => hnodup.1 (mem_append_right _ hmem)
    have hfree : row.info.keptByBlock = true ∨ ∀ image ∈ spentImages (env.txOf row.id).tx.vin,
          holders books.spentKeyImages image = ∅ := by
      refine (hapart row mem_cons_self).imp_right fun hothers image himage => ?_
      refine Finset.eq_empty_of_forall_notMem fun id hid => ?_
      obtain ⟨hmem, hspends⟩ := (h.spenders image id).mp hid
      obtain ⟨other, hother, rfl⟩ := mem_map.mp hmem
      have heq := hothers other (mem_append_right _ hother) image himage hspends
      exact hnew (heq ▸ hmem)
    obtain ⟨images, hinsert, hbooked⟩ := h.enter row hnew (hkeys row mem_cons_self) hfree
    obtain ⟨books', hrest, hbooked'⟩ := ih hbooked
      ((hmiddle.map PoolRow.id).nodup_iff.mpr hnodup)
      (fun other hother => hkeys other (mem_cons_of_mem _ hother))
      (fun other hother => (hapart other (mem_cons_of_mem _ hother)).imp_right
        fun hothers third hthird => hothers third (hmiddle.mem_iff.mp hthird))
    refine ⟨books', ?_, hbooked'.perm hmiddle⟩
    rw [TxPool.enterRows, hinsert]
    exact hrest

theorem Sound.init (h : Sound env s) (maxTxpoolWeight : ℕ) :
    Sound env (init env s maxTxpoolWeight).1 := by
  let kept := s.db.rows.filter fun row => row.info.keptByBlock
  let others := s.db.rows.filter fun row => !row.info.keptByBlock
  have hsplit : (kept ++ others).Perm s.db.rows := filter_append_perm _ s.db.rows
  have hnodup : ((kept ++ others).map PoolRow.id).Nodup :=
    (hsplit.map PoolRow.id).nodup_iff.mpr (nodup_ids s.db)
  obtain ⟨books, hfirst, hbooked⟩ := (booked_empty env).enterRows others
    (by
      rw [append_nil]
      exact sublist_filter_ids _ s.db)
    (fun row hrow => h.keys row (mem_of_mem_filter hrow))
    (fun row hrow => Or.inr fun other hother image himage himage' => by
      rw [append_nil] at hother
      exact h.apart other (mem_of_mem_filter hother) row (mem_of_mem_filter hrow)
        (by simpa using of_mem_filter hother) (by simpa using of_mem_filter hrow)
        image himage' himage)
  rw [append_nil] at hbooked
  obtain ⟨books', hsecond, hbooked'⟩ := hbooked.enterRows kept hnodup
    (fun row hrow => h.keys row (mem_of_mem_filter hrow))
    (fun row hrow => Or.inl (by simpa using of_mem_filter hrow))
  unfold TxPool.init
  dsimp only
  rw [hfirst]
  dsimp only
  rw [hsecond]
  exact ⟨hbooked'.perm hsplit, h.weights, h.keys, h.apart⟩

end Soundness

section PoolRuns

variable (env : PoolEnv)

/-- No admitted transaction spends a key image twice, and none without inputs is added while it is
in the pool; at a validation what is not in the chain weighs nothing. -/
def PoolEvent.Clean (s : TxMemoryPool) : PoolEvent → Prop
  | .addTx id call => admission env s id call = .admitted → AddsCleanly env s id
  | .validate inChain => LightOutsideChain inChain s
  | _ => True

def CleanRun : TxMemoryPool → List PoolEvent → Prop
  | _, [] => True
  | s, event :: rest => event.Clean env s ∧ CleanRun (s.step env event) rest

variable {env}

theorem Sound.step (h : Sound env s) {event : PoolEvent}
    (hclean : event.Clean env s) : Sound env (s.step env event) := by
  cases event with
  | addTx id call => exact h.addTx hclean
  | takeTx id => exact h.takeTx id
  | removeStuckTransactions ctx => exact h.removeStuckTransactions ctx
  | prune ctx => exact h.prune ctx
  | validate inChain => exact h.validate hclean
  | init maxTxpoolWeight => exact h.init maxTxpoolWeight

theorem Sound.after (h : Sound env s) {events : List PoolEvent}
    (hclean : CleanRun env s events) : Sound env (s.after env events) := by
  induction events generalizing s with
  | nil => exact h
  | cons event rest ih => exact ih (h.step hclean.1) hclean.2

theorem CleanRun.of_append {first rest : List PoolEvent}
    (h : CleanRun env s (first ++ rest)) : CleanRun env s first := by
  induction first generalizing s with
  | nil => exact trivial
  | cons event first ih => exact ⟨h.1, ih h.2⟩

/-- After every call of a clean run the books are those of the transactions in the database. -/
theorem pool_booked (env : PoolEnv) (events : List PoolEvent) (hclean : CleanRun env {} events) :
    ∀ first, first <+: events →
      let s := ({} : TxMemoryPool).after env first
      Booked env s.db.rows s.toBooks := by
  rintro first ⟨rest, rfl⟩
  have hstart : Sound env {} :=
    ⟨booked_empty env, fun _ hrow => absurd hrow not_mem_nil,
      fun _ hrow => absurd hrow not_mem_nil, fun _ hrow => absurd hrow not_mem_nil⟩
  exact (hstart.after hclean.of_append).booked

section Sample

/-- Transactions of weight ten: two inputs under the hash 1, the same key image twice under 2, no
inputs otherwise. -/
def samplePoolEnv : PoolEnv where
  txOf id :=
    { tx :=
        { txType := if id = 1 ∨ id = 2 then .standard else .stateChange
          vin := if id = 1 then [.toKey 0 [] 11, .toKey 0 [] 12]
            else if id = 2 then [.toKey 0 [] 13, .toKey 0 [] 13] else [] }
      blobSize := 1
      weight := 10 }
  feePerByte fee weight := fee.toNat / weight

def sampleCalls : List PoolEvent :=
  [.addTx 1 {}, .addTx 3 { now := 5 }, .addTx 1 { keptByBlock := true, batchActive := true },
    .takeTx 3, .init 0, .prune {}, .removeStuckTransactions { now := 900000 },
    .validate fun _ => true]

theorem sampleCalls_booked :
    let s := ({} : TxMemoryPool).after samplePoolEnv (sampleCalls.take 6)
    s.db.rows.map PoolRow.id = [1] ∧ Booked samplePoolEnv s.db.rows s.toBooks :=
  ⟨by decide, pool_booked samplePoolEnv sampleCalls
    ⟨fun _ => ⟨by decide, by decide⟩, fun _ => ⟨by decide, by decide⟩,
      fun _ => ⟨by decide, by decide⟩, trivial, trivial, trivial, trivial,
      ⟨fun _ _ hout => (nomatch hout), trivial⟩⟩ _ ( take_prefix 6 sampleCalls)⟩

/-- A validation forgets the weight of what stays; a transaction without inputs from a block is
counted twice; a key image spent twice leaves a transaction on the books that is not stored. -/
theorem pool_books_wrong :
    let validated := ({} : TxMemoryPool).after samplePoolEnv [.addTx 1 {}, .validate fun _ => false]
    let twice := ({} : TxMemoryPool).after samplePoolEnv
      [.addTx 3 {}, .addTx 3 { keptByBlock := true, now := 1 }]
    let failed := ({} : TxMemoryPool).after samplePoolEnv [.addTx 2 {}]
    (validated.db.rows.map (fun row => row.info.weight) = [10] ∧ validated.txpoolWeight = 0) ∧
      (twice.db.rows.map PoolRow.id = [3] ∧ twice.txpoolWeight = 20 ∧
        twice.sorted.map SortedEntry.id = [3, 3]) ∧
      failed.db.rows = [] ∧ holders failed.spentKeyImages 13 = {2} := by
  decide

end Sample

end PoolRuns

end Arqma.TxPool
