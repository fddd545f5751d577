import Mathlib.Data.Fin.Tuple.Basic
import Mathlib.Data.Fintype.Card
import Mathlib.Logic.Function.Basic

/-!
The descriptor table of a process: what is open under each of finitely many
numbers. The lowest free number is handed out.
-/

namespace Muduo.Lib

variable {n : ℕ} {β : Type*}

/-- What is open under each descriptor. -/
abbrev Descriptors (n : ℕ) (β : Type*) := Fin n → Option β

namespace Descriptors

def lowest (t : Descriptors n β) : Option (Fin n) := Fin.find? fun fd => (t fd).isNone

def Full (t : Descriptors n β) : Prop := t.lowest = none

instance (t : Descriptors n β) : Decidable t.Full := inferInstanceAs (Decidable (t.lowest = none))

theorem free_of_lowest {t : Descriptors n β} {fd : Fin n} (h : t.lowest = some fd) :
    t fd = none := by
  simpa using Fin.eq_true_of_find?_eq_some h

theorem full_iff {t : Descriptors n β} : t.Full ↔ ∀ fd, t fd ≠ none := by
  simp only [Full, lowest, Fin.find?_eq_none_iff, Option.isNone_eq_false_iff, ne_eq,
    Option.isSome_iff_ne_none]

theorem not_full {t : Descriptors n β} {fd : Fin n} (h : t fd = none) : ¬ t.Full :=
  fun hfull => full_iff.mp hfull fd h

theorem exists_lowest {t : Descriptors n β} (h : ¬ t.Full) : ∃ fd, t.lowest = some fd :=
  Option.ne_none_iff_exists'.mp h

/-- Behind a close there is room. -/
theorem not_full_close (t : Descriptors n β) (fd : Fin n) :
    ¬ Full (Function.update t fd none : Descriptors n β) :=
  not_full (Function.update_self fd none t)

/-- How many descriptors are open. -/
def count (t : Descriptors n β) : ℕ := (Finset.univ.filter fun fd => (t fd).isSome).card

theorem count_le (t : Descriptors n β) : t.count ≤ n :=
  (Finset.card_le_univ _).trans_eq (Fintype.card_fin n)

theorem full_iff_count {t : Descriptors n β} : t.Full ↔ t.count = n := by
  have huniv : t.count = n ↔ (Finset.univ.filter fun fd => (t fd).isSome) = Finset.univ := by
    rw [← Finset.card_eq_iff_eq_univ, Fintype.card_fin, count]
  rw [huniv, full_iff, Finset.filter_eq_self]
  simp [Option.isSome_iff_ne_none]

theorem count_open {t : Descriptors n β} {fd : Fin n} (h : t fd = none) (x : β) :
    count (Function.update t fd (some x) : Descriptors n β) = t.count + 1 := by
  have hinsert : (Finset.univ.filter fun fd' => (Function.update t fd (some x) fd').isSome) =
      insert fd (Finset.univ.filter fun fd' => (t fd').isSome) := by
    ext fd'
    by_cases hfd : fd' = fd
    · simp [hfd]
    · simp [hfd]
  rw [count, hinsert, Finset.card_insert_of_notMem (by simp [h]), count]

theorem count_close {t : Descriptors n β} {fd : Fin n} {x : β} (h : t fd = some x) :
    count (Function.update t fd none : Descriptors n β) + 1 = t.count := by
  have hopen := count_open (t := Function.update t fd none) (Function.update_self fd none t) x
  rw [Function.update_idem, ← h, Function.update_eq_self] at hopen
  exact hopen.symm

end Descriptors

end Muduo.Lib
