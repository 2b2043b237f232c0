import Mathlib.Data.List.AList
import Mathlib.Data.List.Sort
import Mathlib.Tactic

/-!
# Maps and the order of their entries

Finite maps are association lists without repeated keys. A map that the program walks through
in the order of its keys is walked through by sorting the pairs.
-/
namespace Arqma
open List AList

variable {α β : Type*}

/-- The entries that satisfy a condition. -/
def keepEntries (p : α → β → Bool) (m : AList (fun _ : α => β)) : AList (fun _ : α => β) where
  entries := m.entries.filter fun e => p e.1 e.2
  nodupKeys := m.nodupKeys.sublist List.filter_sublist

theorem lookup_keepEntries [DecidableEq α] {p : α → β → Bool} {m : AList (fun _ : α => β)} {a : α}
    {b : β} :
    (keepEntries p m).lookup a = some b ↔ m.lookup a = some b ∧ p a b = true := by
  change b ∈ (keepEntries p m).lookup a ↔ b ∈ m.lookup a ∧ p a b = true
  rw [mem_lookup_iff, mem_lookup_iff]
  exact mem_filter

/-- `map.emplace(key, value)`: an entry that is there stays. -/
def emplaceEntry [DecidableEq α] (m : AList (fun _ : α => β)) (a : α) (b : β) :
    AList (fun _ : α => β) :=
  if a ∈ m then m else m.insert a b

section Emplace

variable [DecidableEq α]

/-- Of several pairs with one key the first one counts. -/
def emplaceAll (pairs : List (α × β)) : AList (fun _ : α => β) :=
  pairs.foldl (fun m p => emplaceEntry m p.1 p.2) ∅

end Emplace

/-! ## In the order of the keys -/

def inKeyOrder [LE α] [DecidableLE α] (pairs : List (α × β)) : List (α × β) :=
  pairs.insertionSort fun p q => p.1 ≤ q.1

section KeyOrder

variable [LE α] [DecidableLE α]

theorem inKeyOrder_perm (pairs : List (α × β)) : (inKeyOrder pairs).Perm pairs :=
  perm_insertionSort _ pairs

@[simp] theorem mem_inKeyOrder {pairs : List (α × β)} {p : α × β} :
    p ∈ inKeyOrder pairs ↔ p ∈ pairs :=
  (inKeyOrder_perm pairs).mem_iff

theorem nodup_inKeyOrder {pairs : List (α × β)} (h : (pairs.map Prod.fst).Nodup) :
    ((inKeyOrder pairs).map Prod.fst).Nodup :=
  ((inKeyOrder_perm pairs).map Prod.fst).nodup_iff.mpr h

theorem inKeyOrder_map {γ : Type*} (f : α × β → γ) (pairs : List (α × β)) :
    inKeyOrder (pairs.map fun p => (p.1, f p)) = (inKeyOrder pairs).map fun p => (p.1, f p) :=
  (map_insertionSort (fun p q : α × β => p.1 ≤ q.1) (fun p q : α × γ => p.1 ≤ q.1)
    (fun p => (p.1, f p)) pairs fun _ _ _ _ => Iff.rfl).symm

theorem pairwise_inKeyOrder [Std.IsLinearOrder α] (pairs : List (α × β)) :
    (inKeyOrder pairs).Pairwise fun p q => p.1 ≤ q.1 := by
  have : Std.Total fun p q : α × β => p.1 ≤ q.1 := ⟨fun p q => Std.le_total⟩
  have : IsTrans (α × β) fun p q => p.1 ≤ q.1 := ⟨fun p q r => Std.le_trans⟩
  exact pairwise_insertionSort _ pairs

/-- With distinct keys the order does not depend on how the pairs came. -/
theorem inKeyOrder_eq_of_perm [Std.IsLinearOrder α] {pairs pairs' : List (α × β)}
    (hnodup : (pairs.map Prod.fst).Nodup) (h : pairs.Perm pairs') :
    inKeyOrder pairs = inKeyOrder pairs' := by
  refine List.Perm.eq_of_pairwise (fun p q hp hq hle hge => ?_) (pairwise_inKeyOrder pairs)
    (pairwise_inKeyOrder pairs') (((inKeyOrder_perm pairs).trans h).trans
      (inKeyOrder_perm pairs').symm)
  rw [mem_inKeyOrder] at hp hq
  exact inj_on_of_nodup_map hnodup hp (h.mem_iff.mpr hq) (Std.le_antisymm hle hge)

end KeyOrder

/-- The pairs of a map in the order of its keys. -/
def orderedPairs [LE α] [DecidableLE α] (m : AList (fun _ : α => β)) : List (α × β) :=
  inKeyOrder (m.entries.map fun e => (e.1, e.2))

section OrderedPairs

variable [LE α] [DecidableLE α]

end OrderedPairs

end Arqma
