import Mathlib.Order.Filter.AtTopBot.Basic
import Mathlib.Tactic

/-!
# Computations that can fault

A checked computation stops at an access out of range, which covers an exception
of `at` and the undefined behaviour of an unchecked index, at a division by zero or
a read of an uninitialised variable, and when the fuel of one of its loops runs out.
`Sound` is partial correctness without any fault of the first kinds. A computation
`Settles` on an outcome when it has this outcome for every large fuel, and it `Ends`
when it settles on something other than missing fuel.
-/
namespace Arqma
open List

inductive Fault
  | outOfRange
  | divisionByZero
  | uninitialised
  | outOfFuel
deriving DecidableEq, Repr

abbrev Checked (α : Type) := Except Fault α

namespace Checked

open Filter

variable {α β σ : Type}

/-- Entry `i` of a list. -/
def entry (l : List α) (i : ℕ) : Checked α :=
  match l[i]? with
  | some a => .ok a
  | none => .error .outOfRange

/-- The value of a variable that need not have been set. -/
def initialised (x : Option α) : Checked α :=
  match x with
  | some a => .ok a
  | none => .error .uninitialised

theorem entry_eq_ok_iff {l : List α} {i : ℕ} {a : α} : entry l i = .ok a ↔ l[i]? = some a := by
  grind [entry]

theorem entry_eq_ok {l : List α} {i : ℕ} {a : α} (h : l[i]? = some a) : entry l i = .ok a :=
  entry_eq_ok_iff.mpr h

theorem ok_bind (a : α) (f : α → Checked β) : ((.ok a : Checked α) >>= f) = f a := rfl

theorem bind_eq_ok {x : Checked α} {f : α → Checked β} {b : β} :
    x >>= f = .ok b ↔ ∃ a, x = .ok a ∧ f a = .ok b := by
  cases x with
  | error e => exact ⟨nofun, nofun⟩
  | ok a => exact ⟨fun h => ⟨a, rfl, h⟩, fun ⟨_, ha, h⟩ => Except.ok.inj ha ▸ h⟩

/-- A check that may also fault passes if each of its parts does. -/
theorem run_bind_eq_ok {ε : Type} {x : ExceptT ε Checked α} {f : α → ExceptT ε Checked β} {b : β} :
    (x >>= f).run = .ok (.ok b) ↔ ∃ a, x.run = .ok (.ok a) ∧ (f a).run = .ok (.ok b) := by
  have hrun : (x >>= f).run = x.run >>= ExceptT.bindCont f := rfl
  rw [hrun, bind_eq_ok]
  constructor
  · rintro ⟨r, hr, hb⟩
    cases r with
    | error e => cases Except.ok.inj hb
    | ok a => exact ⟨a, hr, hb⟩
  · rintro ⟨a, ha, hb⟩
    exact ⟨.ok a, ha, hb⟩

/-- The only fault is missing fuel, and a result satisfies `P`. -/
structure Sound (x : Checked α) (P : α → Prop) : Prop where
  fault : ∀ e, x = .error e → e = .outOfFuel
  result : ∀ a, x = .ok a → P a

namespace Sound

theorem ok {P : α → Prop} {a : α} (h : P a) : Sound (.ok a) P := ⟨by simp, by rintro _ ⟨⟩; exact h⟩

theorem of_eq {x : Checked α} {a : α} (h : x = .ok a) : Sound x (a = ·) := h ▸ ok rfl

theorem outOfFuel {P : α → Prop} : Sound (.error .outOfFuel) P := ⟨by simp [eq_comm], by simp⟩

theorem mono {x : Checked α} {P Q : α → Prop} (hx : Sound x P) (h : ∀ a, P a → Q a) : Sound x Q :=
  ⟨hx.fault, fun a ha => h a (hx.result a ha)⟩

theorem entry {l : List α} {i : ℕ} (h : i < l.length) : Sound (Checked.entry l i) (· ∈ l) := by
  rw [entry_eq_ok (getElem?_eq_getElem h)]
  exact ok (getElem_mem h)

theorem bind {x : Checked α} {f : α → Checked β} {P : α → Prop} {Q : β → Prop} (hx : Sound x P)
    (hf : ∀ a, P a → Sound (f a) Q) : Sound (x >>= f) Q := by
  cases x with
  | error e =>
    rw [hx.fault e rfl]
    exact outOfFuel
  | ok a => exact hf a (hx.result a rfl)

/-- The rule for a loop over a list: an invariant that every round keeps. -/
theorem foldlM {f : σ → α → Checked σ} {P : σ → Prop} {l : List α}
    (hstep : ∀ a ∈ l, ∀ s, P s → Sound (f s a) P) {s : σ} (hs : P s) :
    Sound (l.foldlM f s) P := by
  induction l generalizing s with
  | nil => exact ok hs
  | cons a l ih =>
    rw [foldlM_cons]
    exact (hstep a mem_cons_self s hs).bind fun s' hs' =>
      ih (fun b hb => hstep b (mem_cons_of_mem a hb)) hs'

/-- The rule for a loop whose invariant speaks of the entries still to come. -/
theorem foldlM_rest {f : σ → α → Checked σ} {P : List α → σ → Prop}
    (hstep : ∀ a l s, P (a :: l) s → Sound (f s a) (P l)) {l : List α} {s : σ} (hs : P l s) :
    Sound (l.foldlM f s) (P []) := by
  induction l generalizing s with
  | nil => exact ok hs
  | cons a l ih =>
    rw [foldlM_cons]
    exact (hstep a l s hs).bind fun s' hs' => ih hs'

end Sound

/-- A loop that collects one result for every entry, none of which faults. -/
theorem mapM_eq_ok {f : α → Checked β} {g : α → β} {l : List α} (h : ∀ a ∈ l, f a = .ok (g a)) :
    l.mapM f = .ok (l.map g) := by
  induction l with
  | nil => rfl
  | cons a l ih =>
    rw [mapM_cons, h a mem_cons_self, ih fun b hb => h b (mem_cons_of_mem a hb)]
    rfl

/-- With enough fuel the outcome is `r`. -/
def Settles (x : ℕ → Checked α) (r : Checked α) : Prop := ∀ᶠ fuel in atTop, x fuel = r

namespace Settles

theorem const (r : Checked α) : Settles (fun _ => r) r := Eventually.of_forall fun _ => rfl

theorem bind {x : ℕ → Checked α} {f : ℕ → α → Checked β} {a : α} {r : Checked β}
    (hx : Settles x (.ok a)) (hf : Settles (fun fuel => f fuel a) r) :
    Settles (fun fuel => x fuel >>= f fuel) r := by
  filter_upwards [hx, hf] with fuel hok hr
  rw [hok, ← hr]
  rfl

/-- The rule for a loop over a list whose rounds settle on `g`. -/
theorem foldlM {f : ℕ → σ → α → Checked σ} {g : σ → α → σ} {P : σ → Prop} {l : List α}
    (hstep : ∀ a ∈ l, ∀ s, P s → P (g s a) ∧ Settles (fun fuel => f fuel s a) (.ok (g s a))) {s : σ}
    (hs : P s) : Settles (fun fuel => l.foldlM (f fuel) s) (.ok (l.foldl g s)) := by
  induction l generalizing s with
  | nil => exact const _
  | cons a l ih =>
    simp only [foldlM_cons, foldl_cons]
    obtain ⟨hkept, hround⟩ := hstep a mem_cons_self s hs
    exact hround.bind (ih (fun b hb => hstep b (mem_cons_of_mem a hb)) hkept)

end Settles

/-- With enough fuel there is an outcome, and it is not missing fuel. -/
def Ends (x : ℕ → Checked α) : Prop := ∃ r, Settles x r ∧ r ≠ .error .outOfFuel

namespace Ends

theorem const {r : Checked α} (h : r ≠ .error .outOfFuel) : Ends fun _ => r :=
  ⟨r, Settles.const r, h⟩

theorem ok (a : α) : Ends fun _ => (.ok a : Checked α) := const nofun

theorem of_eq {x : Checked α} {a : α} (h : x = .ok a) : Ends fun _ => x := const (h ▸ nofun)

theorem entry {l : List α} {i : ℕ} (h : i < l.length) : Ends fun _ => Checked.entry l i :=
  of_eq (entry_eq_ok (getElem?_eq_getElem h))

theorem of_settles_ok {x : ℕ → Checked α} {a : α} (h : Settles x (.ok a)) : Ends x :=
  ⟨.ok a, h, nofun⟩

theorem bind {x : ℕ → Checked α} {f : ℕ → α → Checked β} {P : α → Prop} (hx : Ends x)
    (hP : ∀ fuel a, x fuel = .ok a → P a) (hf : ∀ a, P a → Ends fun fuel => f fuel a) :
    Ends fun fuel => x fuel >>= f fuel := by
  obtain ⟨r, hr, hne⟩ := hx
  cases r with
  | error e =>
    refine ⟨.error e, ?_, fun heq => hne (by rw [Except.error.inj heq])⟩
    filter_upwards [hr] with fuel hfuel
    rw [hfuel]
    rfl
  | ok a =>
    obtain ⟨fuel, hfuel⟩ := hr.exists
    obtain ⟨r, hsettles, hne⟩ := hf a (hP fuel a hfuel)
    exact ⟨r, hr.bind hsettles, hne⟩

theorem foldlM_rest {f : ℕ → σ → α → Checked σ} {P : List α → σ → Prop}
    (hkeeps : ∀ a l s, P (a :: l) s → ∀ fuel s', f fuel s a = .ok s' → P l s')
    (hends : ∀ a l s, P (a :: l) s → Ends fun fuel => f fuel s a) {l : List α} {s : σ}
    (hs : P l s) : Ends fun fuel => l.foldlM (f fuel) s := by
  induction l generalizing s with
  | nil => exact ok s
  | cons a l ih =>
    simp only [foldlM_cons]
    exact (hends a l s hs).bind (hkeeps a l s hs) fun s' hs' => ih hs'

end Ends

/-- The same for a loop with a bound on its rounds beside the fuel of its body. -/
def EndsBy (x : ℕ → ℕ → Checked α) : Prop :=
  ∃ r, r ≠ .error .outOfFuel ∧
    ∃ enough, ∀ᶠ fuel in atTop, ∀ rounds, enough ≤ rounds → x fuel rounds = r

namespace EndsBy

theorem diag {x : ℕ → ℕ → Checked α} (h : EndsBy x) : Ends fun fuel => x fuel fuel := by
  obtain ⟨r, hne, enough, hall⟩ := h
  refine ⟨r, ?_, hne⟩
  filter_upwards [hall, eventually_ge_atTop enough] with fuel hrounds henough
  exact hrounds fuel henough

theorem of_ends {y : ℕ → Checked α} (hy : Ends y) : EndsBy fun fuel _ => y fuel := by
  obtain ⟨r, hr, hne⟩ := hy
  exact ⟨r, hne, 0, hr.mono fun _ hfuel _ _ => hfuel⟩

theorem bind {y : ℕ → Checked α} {z : α → ℕ → ℕ → Checked β} {P : α → Prop} (hy : Ends y)
    (hP : ∀ fuel a, y fuel = .ok a → P a) (hz : ∀ a, P a → EndsBy (z a)) :
    EndsBy fun fuel rounds => y fuel >>= fun a => z a fuel rounds := by
  obtain ⟨r, hr, hne⟩ := hy
  cases r with
  | error e =>
    refine ⟨.error e, fun heq => hne (by rw [Except.error.inj heq]), 0, ?_⟩
    filter_upwards [hr] with fuel hfuel rounds _
    rw [hfuel]
    rfl
  | ok a =>
    obtain ⟨fuel, hfuel⟩ := hr.exists
    obtain ⟨r, hne, enough, hall⟩ := hz a (hP fuel a hfuel)
    refine ⟨r, hne, enough, ?_⟩
    filter_upwards [hr, hall] with fuel hfuel hrest rounds hrounds
    rw [hfuel]
    exact hrest rounds hrounds

/-- A loop ends when it does so after its first round. -/
theorem of_round {x y : ℕ → ℕ → Checked α}
    (hround : ∀ fuel rounds, x fuel (rounds + 1) = y fuel rounds) (hy : EndsBy y) :
    EndsBy x := by
  obtain ⟨r, hne, enough, hall⟩ := hy
  refine ⟨r, hne, enough + 1, ?_⟩
  filter_upwards [hall] with fuel hfuel rounds hrounds
  obtain ⟨n, rfl⟩ : ∃ n, rounds = n + 1 := ⟨rounds - 1, by omega⟩
  rw [hround]
  exact hfuel n (by omega)

end EndsBy

end Checked
end Arqma
