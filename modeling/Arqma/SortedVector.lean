import Mathlib.Data.List.Sort
import Mathlib.Data.List.TakeWhile
import Mathlib.Tactic

/-!
# Vectors in the order of a key

A vector of rows with strictly increasing keys that is only ever extended at the
position `lower_bound` finds: before the first row whose key is not smaller.
-/
namespace Arqma.SortedVector
open List

variable {α : Type*} (key : α → ℕ) {bound : ℕ} {k : ℕ}

def Increasing (l : List α) : Prop := l.Pairwise fun a b => key a < key b

/-- Insert a row before the first one whose key is not smaller. -/
def insertSorted (x : α) (l : List α) : List α :=
  l.takeWhile (fun a => key a < key x) ++ x :: l.dropWhile fun a => key a < key x

/-- Whether the row at the position of a key has that key. -/
def occupied (k : ℕ) (l : List α) : Bool :=
  (l.dropWhile fun a => key a < k).head?.any fun a => key a = k

/-- Insert a row unless the one at its position has the same key. -/
def insertUnique (x : α) (l : List α) : List α :=
  if occupied key (key x) l then l else insertSorted key x l

variable {key}

theorem insertSorted_perm (x : α) (l : List α) : (insertSorted key x l).Perm (x :: l) := by
  refine perm_middle.trans (List.Perm.cons x ?_)
  rw [takeWhile_append_dropWhile]

variable {x a : α} {l : List α}

theorem mem_insertSorted : a ∈ insertSorted key x l ↔ a = x ∨ a ∈ l :=
  (insertSorted_perm x l).mem_iff.trans mem_cons

theorem Increasing.dropWhile_le (h : Increasing key l)
    (ha : a ∈ l.dropWhile fun b => key b < k) : k ≤ key a := by
  induction l with
  | nil => cases ha
  | cons b l ih =>
    grind [Increasing, pairwise_cons, dropWhile_cons]

/-- A new key keeps the order. -/
theorem Increasing.insertSorted (h : Increasing key l) (hfree : ∀ a ∈ l, key a ≠ key x) :
    Increasing key (insertSorted key x l) := by
  have hlow : ∀ a ∈ l.takeWhile (fun a => key a < key x), key a < key x := by
    intro a ha
    have hlt := mem_takeWhile_imp ha
    simpa using hlt
  have hhigh : ∀ a ∈ l.dropWhile (fun a => key a < key x), key x < key a := by
    intro a ha
    have hmem : a ∈ l := (dropWhile_sublist _).subset ha
    exact lt_of_le_of_ne (h.dropWhile_le ha) (hfree a hmem).symm
  rw [Increasing, SortedVector.insertSorted, pairwise_append, pairwise_cons]
  refine ⟨h.sublist (takeWhile_sublist _), ⟨hhigh, h.sublist (dropWhile_sublist _)⟩, ?_⟩
  grind

/-- In an increasing vector the position of a key that is there is the row with it. -/
theorem Increasing.occupied_iff (h : Increasing key l) :
    occupied key k l = true ↔ ∃ a ∈ l, key a = k := by
  constructor
  · intro hoccupied
    unfold occupied at hoccupied
    cases hhead : (l.dropWhile fun a => key a < k).head? with
    | none => simp [hhead] at hoccupied
    | some a =>
      rw [hhead] at hoccupied
      have hmem : a ∈ l := (dropWhile_sublist _).subset (mem_of_mem_head? hhead)
      exact ⟨a, hmem, by simpa using hoccupied⟩
  · rintro ⟨a, ha, hkey⟩
    unfold occupied
    induction l with
    | nil => cases ha
    | cons b l ih =>
      grind [Increasing, pairwise_cons, dropWhile_cons]

theorem Increasing.insertUnique_of_free (h : Increasing key l) (hfree : ∀ a ∈ l, key a ≠ key x) :
    insertUnique key x l = SortedVector.insertSorted key x l := by
  rw [insertUnique, if_neg]
  rw [h.occupied_iff]
  rintro ⟨a, ha, hkey⟩
  exact hfree a ha hkey

theorem Increasing.insertUnique_of_mem (h : Increasing key l) (ha : a ∈ l) (hkey : key a = key x) :
    insertUnique key x l = l := by
  rw [insertUnique, if_pos (h.occupied_iff.mpr ⟨a, ha, hkey⟩)]

theorem Increasing.insertUnique (h : Increasing key l) (x : α) :
    Increasing key (insertUnique key x l) := by
  grind [h.insertUnique_of_mem, h.insertUnique_of_free, h.insertSorted]

theorem mem_of_mem_insertUnique (ha : a ∈ SortedVector.insertUnique key x l) : a = x ∨ a ∈ l := by
  unfold SortedVector.insertUnique at ha
  split_ifs at ha
  · exact Or.inr ha
  · exact mem_insertSorted.mp ha

theorem mem_insertUnique_of_mem (x : α) (ha : a ∈ l) : a ∈ SortedVector.insertUnique key x l := by
  unfold SortedVector.insertUnique
  split_ifs
  · exact ha
  · exact mem_insertSorted.mpr (Or.inr ha)

theorem Increasing.mem_keys_insertUnique (h : Increasing key l) :
    k ∈ (SortedVector.insertUnique key x l).map key ↔ k = key x ∨ k ∈ l.map key := by
  grind [h.insertUnique_of_mem, h.insertUnique_of_free, insertSorted_perm]

theorem mem_of_mem_foldl_insertUnique {xs : List α}
    (ha : a ∈ xs.foldl (fun l x => SortedVector.insertUnique key x l) l) : a ∈ xs ∨ a ∈ l := by
  induction xs generalizing l with
  | nil => exact Or.inr ha
  | cons x xs ih =>
    rcases ih ha with ha | ha
    · exact Or.inl (mem_cons_of_mem x ha)
    · rcases mem_of_mem_insertUnique ha with rfl | ha
      · exact Or.inl mem_cons_self
      · exact Or.inr ha

/-- Insertions one after the other keep the order and add their keys. -/
theorem Increasing.foldl_insertUnique (h : Increasing key l) (xs : List α) :
    Increasing key (xs.foldl (fun l x => SortedVector.insertUnique key x l) l) ∧
      ∀ k, k ∈ (xs.foldl (fun l x => SortedVector.insertUnique key x l) l).map key ↔
        k ∈ xs.map key ∨ k ∈ l.map key := by
  induction xs generalizing l with
  | nil => exact ⟨h, fun k => by simp⟩
  | cons x xs ih =>
    grind [h.mem_keys_insertUnique, h.insertUnique]

theorem Increasing.nodup_keys (h : Increasing key l) : (l.map key).Nodup :=
  pairwise_map.mpr (h.imp fun hab => hab.ne)

theorem Increasing.card_keys (h : Increasing key l) : (l.map key).toFinset.card = l.length := by
  rw [toFinset_card_of_nodup h.nodup_keys, length_map]

theorem keys_subset_range (hbound : ∀ a ∈ l, key a < bound) :
    (l.map key).toFinset ⊆ Finset.range bound := by
  intro k hk
  obtain ⟨a, ha, rfl⟩ := mem_map.mp (mem_toFinset.mp hk)
  exact Finset.mem_range.mpr (hbound a ha)

theorem Increasing.length_le_of_keys_subset {β : Type*} {key' : β → ℕ} {l' : List β}
    (h : Increasing key l) (h' : Increasing key' l') (hsub : ∀ k ∈ l.map key, k ∈ l'.map key') :
    l.length ≤ l'.length := by
  rw [← h.card_keys, ← h'.card_keys]
  refine Finset.card_le_card fun k hk => ?_
  exact mem_toFinset.mpr (hsub k (mem_toFinset.mp hk))

/-- Increasing keys below a bound are at most as many. -/
theorem Increasing.length_le (h : Increasing key l) (hbound : ∀ a ∈ l, key a < bound) :
    l.length ≤ bound := by
  have hcard := Finset.card_le_card (keys_subset_range hbound)
  rwa [h.card_keys, Finset.card_range] at hcard

/-- Two vectors that together are longer than the bound on their keys share a key. -/
theorem Increasing.exists_common {l' : List α} (h : Increasing key l) (h' : Increasing key l')
    (hbound : ∀ a ∈ l, key a < bound) (hbound' : ∀ a ∈ l', key a < bound)
    (hlength : bound < l.length + l'.length) : ∃ a ∈ l, ∃ b ∈ l', key a = key b := by
  have hcard : (Finset.range bound).card <
      (l.map key).toFinset.card + (l'.map key).toFinset.card := by
    rwa [h.card_keys, h'.card_keys, Finset.card_range]
  obtain ⟨k, hk⟩ := Finset.inter_nonempty_of_card_lt_card_add_card (keys_subset_range hbound)
    (keys_subset_range hbound') hcard
  grind [mem_toFinset]

end Arqma.SortedVector
