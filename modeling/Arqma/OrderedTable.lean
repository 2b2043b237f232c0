import Mathlib.Data.List.Sort
import Mathlib.Tactic

/-!
# Tables ordered by a numeric key

A table is a list of rows in strictly increasing order of their key, so that a
key has at most one row and equal contents mean equal tables. `insert` keeps a
row that is already there, as an ordered set does; `put` replaces it, as a
key-value store does. Every operation is characterised by the rows it leaves.
-/
namespace Arqma
open List

structure OrderedTable {α : Type*} (key : α → ℕ) where
  rows : List α
  sorted : rows.Pairwise (fun a b => key a < key b)

namespace OrderedTable

variable {α : Type*} {key : α → ℕ}

instance [DecidableEq α] : DecidableEq (OrderedTable key) := fun s t =>
  decidable_of_iff (s.rows = t.rows) (by cases s; cases t; simp)

def empty : OrderedTable key := ⟨[], List.Pairwise.nil⟩

def find? (t : OrderedTable key) (k : ℕ) : Option α := t.rows.find? (fun a => key a = k)

def filter (t : OrderedTable key) (p : α → Bool) : OrderedTable key :=
  ⟨t.rows.filter p, t.sorted.filter p⟩

/-- Change rows without changing their keys. -/
def map (t : OrderedTable key) (f : α → α) (hf : ∀ a, key (f a) = key a) : OrderedTable key where
  rows := t.rows.map f
  sorted := pairwise_map.mpr (t.sorted.imp fun h => by rwa [hf, hf])

def remove (t : OrderedTable key) (k : ℕ) : OrderedTable key := t.filter (fun a => key a ≠ k)

/-- Write a row, replacing the one of the same key. -/
def put (t : OrderedTable key) (x : α) : OrderedTable key where
  rows := t.rows.filter (fun a => key a < key x) ++ x :: t.rows.filter (fun a => key x < key a)
  sorted := by
    rw [pairwise_append, pairwise_cons]
    refine ⟨t.sorted.filter _, ⟨?_, t.sorted.filter _⟩, ?_⟩
    · intro a ha
      simpa using (List.mem_filter.mp ha).2
    · intro a ha b hb
      have hax : key a < key x := by simpa using (List.mem_filter.mp ha).2
      rcases mem_cons.mp hb with rfl | hb
      · exact hax
      · exact hax.trans (by simpa using (List.mem_filter.mp hb).2)

/-- Add a row unless its key is taken. -/
def insert (t : OrderedTable key) (x : α) : OrderedTable key :=
  if (t.find? (key x)).isSome then t else t.put x

/-- Write a row above all others; refused if it would not be. -/
def append (t : OrderedTable key) (x : α) : Option (OrderedTable key) :=
  if ∀ a ∈ t.rows, key a < key x then some (t.put x) else none

/-- Write a row unless its key is taken, which is an error. -/
def addNew (t : OrderedTable key) (x : α) : Option (OrderedTable key) :=
  if (t.find? (key x)).isSome then none else some (t.put x)

/-- Remove the row of a key; an error if there is none. -/
def delete (t : OrderedTable key) (k : ℕ) : Option (OrderedTable key) :=
  if (t.find? k).isSome then some (t.remove k) else none

/-- No row has the key. -/
def Free (t : OrderedTable key) (k : ℕ) : Prop := ∀ a ∈ t.rows, key a ≠ k

@[simp] theorem rows_empty : (empty : OrderedTable key).rows = [] := rfl

@[simp] theorem rows_filter (t : OrderedTable key) (p : α → Bool) :
    (t.filter p).rows = t.rows.filter p := rfl

variable {t : OrderedTable key} {a : α} {k : ℕ} {x : α}

theorem mem_filter {p : α → Bool} :
    a ∈ (t.filter p).rows ↔ a ∈ t.rows ∧ p a = true := List.mem_filter

theorem mem_remove : a ∈ (t.remove k).rows ↔ a ∈ t.rows ∧ key a ≠ k := by
  simp [remove]

theorem eq_of_key_eq {b : α} (ha : a ∈ t.rows) (hb : b ∈ t.rows) (h : key a = key b) : a = b := by
  by_contra hne
  have hd : t.rows.Pairwise (fun x y => key x ≠ key y) := t.sorted.imp (fun h => Nat.ne_of_lt h)
  have : Std.Symm (fun x y : α => key x ≠ key y) := ⟨fun _ _ h => h.symm⟩
  exact hd.forall ha hb hne h

theorem mem_put : a ∈ (t.put x).rows ↔ a = x ∨ a ∈ t.rows ∧ key a ≠ key x := by
  simp only [put, mem_append, mem_cons, List.mem_filter, decide_eq_true_eq]
  grind

theorem find?_eq_some : t.find? k = some a ↔ a ∈ t.rows ∧ key a = k := by
  constructor
  · intro h
    exact ⟨mem_of_find?_eq_some h, by simpa using find?_some h⟩
  · rintro ⟨ha, hk⟩
    cases hf : t.find? k <;> grind [find?, eq_of_key_eq]

theorem find?_eq_none : t.find? k = none ↔ ∀ a ∈ t.rows, key a ≠ k := by
  simp [find?]

theorem find?_remove_of_ne {k' : ℕ} (h : k' ≠ k) : (t.remove k).find? k' = t.find? k' := by
  ext a
  grind [find?_eq_some, mem_remove]

theorem isSome_find? : (t.find? k).isSome ↔ ∃ a ∈ t.rows, key a = k := by
  simp [find?, find?_isSome]

/-- Two tables with the same rows are the same table. -/
theorem ext_mem {s : OrderedTable key} (h : ∀ a, a ∈ s.rows ↔ a ∈ t.rows) : s = t := by
  have hs : s.rows.Nodup := s.sorted.imp (fun h => by rintro rfl; exact absurd h (lt_irrefl _))
  have ht : t.rows.Nodup := t.sorted.imp (fun h => by rintro rfl; exact absurd h (lt_irrefl _))
  have hp : s.rows.Perm t.rows := (perm_ext_iff_of_nodup hs ht).mpr h
  have heq : s.rows = t.rows :=
    hp.eq_of_pairwise (fun a b _ _ hab hba => absurd (hab.trans hba) (lt_irrefl _))
      s.sorted t.sorted
  cases s; cases t; simpa using heq

theorem append_eq_some {t' : OrderedTable key} :
    t.append x = some t' ↔ (∀ a ∈ t.rows, key a < key x) ∧ t' = t.put x := by
  grind [append]

theorem addNew_eq_some {t' : OrderedTable key} :
    t.addNew x = some t' ↔ t.Free (key x) ∧ t' = t.put x := by
  grind [addNew, Free, isSome_find?.mp, isSome_find?.mpr]

theorem free_of_lt (h : ∀ a ∈ t.rows, key a < k) : t.Free k := fun a ha => (h a ha).ne

@[simp] theorem find?_put (t : OrderedTable key) (x : α) : (t.put x).find? (key x) = some x :=
  find?_eq_some.mpr ⟨mem_put.mpr (Or.inl rfl), rfl⟩

/-- Removing a row that has just been added gives the table of before. -/
theorem remove_put (h : t.Free (key x)) : (t.put x).remove (key x) = t := by
  refine ext_mem fun a => ?_
  grind [Free, mem_remove, mem_put]

theorem remove_of_free (h : t.Free k) : t.remove k = t := by
  refine ext_mem fun a => ?_
  rw [mem_remove]
  exact and_iff_left_of_imp (h a)

theorem delete_put (h : t.Free (key x)) : (t.put x).delete (key x) = some t := by
  rw [delete, find?_put, Option.isSome_some, if_pos rfl, remove_put h]

theorem nodup_keys (t : OrderedTable key) : (t.rows.map key).Nodup :=
  pairwise_map.mpr (t.sorted.imp fun h => h.ne)

theorem nodup_rows (t : OrderedTable key) : t.rows.Nodup := t.nodup_keys.of_map key

theorem perm_put (t : OrderedTable key) (x : α) :
    (t.put x).rows.Perm (x :: (t.remove (key x)).rows) := by
  simp [perm_ext_iff_of_nodup, nodup_rows, mem_put, mem_remove]

theorem perm_remove (hx : x ∈ t.rows) : t.rows.Perm (x :: (t.remove (key x)).rows) := by
  have hgone : x ∉ (t.remove (key x)).rows := fun hmem => (mem_remove.mp hmem).2 rfl
  rw [perm_ext_iff_of_nodup t.nodup_rows ((t.remove (key x)).nodup_rows.cons hgone)]
  grind [mem_remove, eq_of_key_eq]

theorem length_put (h : ∀ a ∈ t.rows, key a < key x) :
    (t.put x).rows.length = t.rows.length + 1 := by
  have hbelow : t.rows.filter (fun a => key a < key x) = t.rows :=
    filter_eq_self.mpr fun a ha => by simpa using h a ha
  have habove : t.rows.filter (fun a => key x < key a) = [] :=
    filter_eq_nil_iff.mpr fun a ha => by simpa using (h a ha).le
  simp [put, hbelow, habove]

theorem mem_insert_of_free (hx : ∀ b ∈ t.rows, key b ≠ key x) :
    a ∈ (t.insert x).rows ↔ a = x ∨ a ∈ t.rows := by
  have hn : t.find? (key x) = none := find?_eq_none.mpr hx
  grind [insert, mem_put]

theorem mem_of_mem_insert (h : a ∈ (t.insert x).rows) : a = x ∨ a ∈ t.rows := by
  unfold insert at h
  split_ifs at h
  · exact Or.inr h
  · exact (mem_put.mp h).imp_right And.left

theorem isSome_find?_insert_self (t : OrderedTable key) (x : α) :
    ((t.insert x).find? (key x)).isSome := by
  unfold insert
  split_ifs with h
  · exact h
  · exact isSome_find?.mpr ⟨x, mem_put.mpr (Or.inl rfl), rfl⟩

theorem isSome_find?_insert (h : (t.find? k).isSome) (x : α) : ((t.insert x).find? k).isSome := by
  unfold insert
  grind [isSome_find?.mp, isSome_find?.mpr, mem_put.mpr]

theorem isSome_find?_foldl_insert {β : Type*} {f : β → α} {xs : List β}
    (h : (t.find? k).isSome ∨ ∃ x ∈ xs, key (f x) = k) :
    ((xs.foldl (fun t x => t.insert (f x)) t).find? k).isSome := by
  induction xs generalizing t with
  | nil => simpa using h
  | cons y ys ih =>
    grind [isSome_find?_insert, isSome_find?_insert_self]

theorem mem_of_mem_foldl_insert {β : Type*} {f : β → α} {xs : List β}
    (h : a ∈ (xs.foldl (fun t x => t.insert (f x)) t).rows) : (∃ x ∈ xs, a = f x) ∨ a ∈ t.rows := by
  induction xs generalizing t with
  | nil => exact Or.inr h
  | cons x xs ih =>
    grind [mem_of_mem_insert]

theorem getLast?_eq_some : t.rows.getLast? = some a ↔ a ∈ t.rows ∧ ∀ b ∈ t.rows, key b ≤ key a := by
  obtain ⟨rows, sorted⟩ := t
  constructor
  · intro h
    obtain ⟨init, rfl⟩ := getLast?_eq_some_iff.mp h
    grind
  · rintro ⟨ha, hmax⟩
    cases hl : rows.getLast? with
    | none => simp [getLast?_eq_none_iff.mp hl] at ha
    | some b =>
      obtain ⟨init, rfl⟩ := getLast?_eq_some_iff.mp hl
      rcases mem_append.mp ha with hi | hi
      · have h1 := (pairwise_append.mp sorted).2.2 a hi b (by simp)
        have h2 := hmax b (by simp)
        omega
      · simp only [mem_singleton] at hi; rw [hi]

/-- The first row has the least key. -/
theorem head?_eq_some : t.rows.head? = some a ↔ a ∈ t.rows ∧ ∀ b ∈ t.rows, key a ≤ key b := by
  constructor
  · intro h
    obtain ⟨rest, hrows⟩ := head?_eq_some_iff.mp h
    grind [pairwise_cons, t.sorted]
  · rintro ⟨ha, hmin⟩
    obtain ⟨b, rest, hrows⟩ := exists_cons_of_ne_nil (ne_nil_of_mem ha)
    grind [pairwise_cons, t.sorted]

/-- Trying the keys from `low` upwards finds the first row with such a key. -/
theorem findSome?_range' (t : OrderedTable key) (low count : ℕ) :
    (List.range' low count).findSome? t.find? =
      (t.filter fun a => low ≤ key a ∧ key a < low + count).rows.head? := by
  induction count generalizing low <;> grind [rows_filter, range'_succ, find?_eq_some.mp,
    head?_eq_some.mpr, filter_congr, find?_eq_none.mp]

/-- Trying the keys downwards to `low` finds the last row with such a key. -/
theorem findSome?_reverse_range' (t : OrderedTable key) (low count : ℕ) :
    (List.range' low count).reverse.findSome? t.find? =
      (t.filter fun a => low ≤ key a ∧ key a < low + count).rows.getLast? := by
  induction count with
  | zero =>
    simp [filter_eq_nil_iff.mpr]
  | succ count ih =>
    rw [range'_1_concat, reverse_append, reverse_singleton, singleton_append, findSome?_cons]
    cases hfind : t.find? (low + count) with
    | some a =>
      grind [find?_eq_some.mp, getLast?_eq_some.mpr, mem_filter.mpr, mem_filter.mp]
    | none =>
      simp only [ih, rows_filter]
      congr 1
      refine filter_congr fun a ha => ?_
      have hne := find?_eq_none.mp hfind a ha
      rw [decide_eq_decide]
      omega

theorem cons_filter_above {first : α} (h : t.rows.head? = some first) :
    first :: t.rows.filter (fun a => key first < key a) = t.rows := by
  obtain ⟨rest, hrows⟩ := head?_eq_some_iff.mp h
  have hsorted := t.sorted
  grind [pairwise_cons, filter_eq_self.mpr]

theorem cons_filter_below {last : α} (h : t.rows.getLast? = some last) :
    last :: (t.rows.filter fun a => key a < key last).reverse = t.rows.reverse := by
  obtain ⟨init, hrows⟩ := getLast?_eq_some_iff.mp h
  have hsorted := t.sorted
  rw [hrows, pairwise_append] at hsorted
  have hinit : init.filter (fun a => key a < key last) = init :=
    filter_eq_self.mpr fun a ha => by simpa using hsorted.2.2 a ha last mem_cons_self
  simp [hrows, hinit]

theorem reverse_rows_of_key_eq (h : ∀ a ∈ t.rows, key a = k) : t.rows.reverse = t.rows := by
  have hsorted := t.sorted
  match hrows : t.rows with
  | [] => rfl
  | [a] => rfl
  | a :: b :: rest =>
    grind

/-- Two rows with consecutive keys, the second of them the greatest, stand at the end. -/
theorem exists_append_pair {p q : α} (hp : p ∈ t.rows) (hq : q ∈ t.rows) (hnext : key q = key p + 1)
    (htop : ∀ a ∈ t.rows, key a ≤ key q) : ∃ init, t.rows = init ++ [p, q] := by
  have hsorted := t.sorted
  rcases eq_nil_or_concat' t.rows with hnil | ⟨rest, a, hrows⟩
  · rw [hnil] at hp
    cases hp
  rw [hrows, pairwise_append] at hsorted
  have hlast : ∀ b ∈ rest, key b < key a := fun b hb => hsorted.2.2 b hb a (by simp)
  have ha : a ∈ t.rows := by simp [hrows]
  obtain rfl : a = q := by
    grind
  have hprest : p ∈ rest := by
    rw [hrows] at hp
    rcases mem_append.mp hp with hp | hp
    · exact hp
    · rw [mem_singleton.mp hp] at hnext
      omega
  rcases eq_nil_or_concat' rest with rfl | ⟨init, c, rfl⟩
  · cases hprest
  obtain rfl : c = p := by
    refine eq_of_key_eq (t := t) (by simp [hrows]) hp ?_
    grind
  exact ⟨init, by simpa using hrows⟩

end OrderedTable
end Arqma
