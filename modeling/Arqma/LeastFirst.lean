import Mathlib.Data.List.Sort
import Mathlib.Tactic

/-!
# Queues served least first

The values waiting in a list, in any order, are a queue in which the least one is
served next. Serving it and letting it wait again with a value above all others
moves it from the head of the queue to the end.
-/
namespace Arqma.LeastFirst
open List

variable {α : Type*} [LinearOrder α]

/-- The waiting values in the order of service. -/
def queue (waiting : List α) : List α := waiting.insertionSort (· ≤ ·)

theorem queue_perm (waiting : List α) : (queue waiting).Perm waiting := perm_insertionSort _ waiting

theorem queue_sorted (waiting : List α) : (queue waiting).Pairwise (· ≤ ·) :=
  pairwise_insertionSort _ waiting

/-- A sorted arrangement of the waiting values is the queue. -/
theorem queue_eq {waiting arranged : List α} (hsorted : arranged.Pairwise (· ≤ ·))
    (hperm : arranged.Perm waiting) : queue waiting = arranged :=
  ((queue_perm waiting).trans hperm.symm).eq_of_pairwise' (queue_sorted waiting) hsorted

theorem foldl_min_of_le {l : List α} {a : α} (h : ∀ b ∈ l, a ≤ b) : l.foldl min a = a := by
  induction l with
  | nil => rfl
  | cons b l ih =>
    rw [foldl_cons, min_eq_left (h b mem_cons_self)]
    exact ih fun c hc => h c (mem_cons_of_mem _ hc)

/-- A scan for the least value finds the head of the queue. -/
theorem foldl_min_eq_head {waiting rest : List α} {first top : α}
    (hqueue : queue waiting = first :: rest) (htop : first ≤ top) :
    waiting.foldl min top = first := by
  have hperm : waiting.Perm (first :: rest) := hqueue ▸ (queue_perm waiting).symm
  have hsorted := queue_sorted waiting
  rw [hqueue] at hsorted
  rw [hperm.foldl_eq top, foldl_cons, min_eq_right htop]
  exact foldl_min_of_le fun b hb => rel_of_pairwise_cons hsorted hb

/-- Serving the head and letting it wait again behind everyone rotates the queue. -/
theorem queue_rotate {waiting others rest : List α} {first again : α}
    (hqueue : queue waiting = first :: rest) (hwaiting : waiting.Perm (first :: others))
    (hbehind : ∀ b ∈ others, b ≤ again) : queue (again :: others) = rest ++ [again] := by
  have hperm : rest.Perm others := by
    refine List.Perm.cons_inv (a := first) ?_
    rw [← hqueue]
    exact (queue_perm waiting).trans hwaiting
  have hsorted := queue_sorted waiting
  rw [hqueue] at hsorted
  refine queue_eq (pairwise_append.mpr ⟨hsorted.of_cons, by simp, ?_⟩) ?_ <;> grind

end Arqma.LeastFirst
