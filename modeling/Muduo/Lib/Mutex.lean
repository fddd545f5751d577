import Mathlib.Data.Finset.Card
import Mathlib.Logic.Function.Basic

/-!
Threads around one mutex. Each thread is at some place of its code; the places
inside the critical sections belong to the holder.

* `Exclusive`: exactly the holder is inside;
* `Members`: the finite set of the threads at the places of a kind, of which one
  comes or goes at a time.
-/

namespace Muduo.Lib

open Function

variable {ι β : Type*} {inside kind : β → Prop}

/-- The holder of the mutex, and no other, is at a place inside. -/
def Exclusive (inside : β → Prop) (holder : Option ι) (place : ι → β) : Prop :=
  ∀ i, inside (place i) ↔ holder = some i

/-- The threads in `P` are those at a place of this kind. -/
def Members (kind : β → Prop) (P : Finset ι) (place : ι → β) : Prop :=
  ∀ i, i ∈ P ↔ kind (place i)

theorem Exclusive.eq {holder : Option ι} {place : ι → β} (h : Exclusive inside holder place)
    {i j : ι} (hi : inside (place i)) (hj : inside (place j)) : i = j :=
  Option.some.inj (((h i).mp hi).symm.trans ((h j).mp hj))

theorem Exclusive.free {place : ι → β} (h : Exclusive inside none place) (i : ι) :
    ¬ inside (place i) := by
  intro hi
  cases (h i).mp hi

/-- All move at once, as they are woken. -/
theorem Exclusive.map {holder : Option ι} {place : ι → β} (h : Exclusive inside holder place)
    {g : β → β} (hg : ∀ b, inside (g b) ↔ inside b) :
    Exclusive inside holder (fun i => g (place i)) :=
  fun i => (hg _).trans (h i)

theorem Members.map {P : Finset ι} {place : ι → β} (h : Members kind P place) {g : β → β}
    (hg : ∀ b, kind (g b) ↔ kind b) : Members kind P (fun i => g (place i)) :=
  fun i => (h i).trans (hg _).symm

variable [DecidableEq ι]

/-- What is said of all places still is, if it is of the new one. -/
theorem forall_update {p : ι → β → Prop} {place : ι → β} {i : ι} {b : β} (hb : p i b)
    (h : ∀ j, j ≠ i → p j (place j)) (j : ι) : p j (update place i b j) := by
  by_cases hj : j = i
  · rw [hj, update_self]
    exact hb
  · rw [update_of_ne hj]
    exact h j hj

/-- A thread stays on its side. -/
theorem Exclusive.stay {holder : Option ι} {place : ι → β} (h : Exclusive inside holder place)
    {i : ι} {b c : β} (hi : place i = c) (hb : inside b ↔ inside c) :
    Exclusive inside holder (update place i b) := by
  refine forall_update (p := fun j b => inside b ↔ holder = some j) ?_ fun j _ => h j
  rw [hb, ← hi]
  exact h i

theorem Exclusive.lock {place : ι → β} (h : Exclusive inside none place) {i : ι} {b : β}
    (hb : inside b) : Exclusive inside (some i) (update place i b) := by
  refine forall_update (p := fun j b => inside b ↔ some i = some j) (iff_of_true hb rfl) ?_
  intro j hj
  exact iff_of_false (h.free j) fun heq => hj (Option.some.inj heq).symm

theorem Exclusive.unlock {holder : Option ι} {place : ι → β} (h : Exclusive inside holder place)
    {i : ι} {b c : β} (hi : place i = c) (hc : inside c) (hb : ¬ inside b) :
    Exclusive inside none (update place i b) := by
  have hin : inside (place i) := hi ▸ hc
  refine forall_update (p := fun j b => inside b ↔ none = some j) (iff_of_false hb nofun) ?_
  intro j hj
  exact iff_of_false (fun hj' => hj (h.eq hj' hin)) nofun

theorem Members.stay {P : Finset ι} {place : ι → β} (h : Members kind P place) {i : ι} {b c : β}
    (hi : place i = c) (hb : kind b ↔ kind c) : Members kind P (update place i b) := by
  refine forall_update (p := fun j b => j ∈ P ↔ kind b) ?_ fun j _ => h j
  rw [hb, ← hi]
  exact h i

theorem Members.insert {P : Finset ι} {place : ι → β} (h : Members kind P place) {i : ι}
    {b c : β} (hi : place i = c) (hc : ¬ kind c) (hb : kind b) :
    Members kind (insert i P) (update place i b) ∧ (insert i P).card = P.card + 1 := by
  have hout : i ∉ P := fun hmem => hc (hi ▸ (h i).mp hmem)
  constructor
  · refine forall_update (p := fun j b => j ∈ Insert.insert i P ↔ kind b)
      (iff_of_true (Finset.mem_insert_self i P) hb) ?_
    intro j hj
    rw [Finset.mem_insert, or_iff_right hj]
    exact h j
  · exact Finset.card_insert_of_notMem hout

theorem Members.erase {P : Finset ι} {place : ι → β} (h : Members kind P place) {i : ι}
    {b c : β} (hi : place i = c) (hc : kind c) (hb : ¬ kind b) :
    Members kind (P.erase i) (update place i b) ∧ (P.erase i).card + 1 = P.card := by
  have hmem : i ∈ P := (h i).mpr (hi ▸ hc)
  constructor
  · refine forall_update (p := fun j b => j ∈ P.erase i ↔ kind b)
      (iff_of_false (Finset.notMem_erase i P) hb) ?_
    intro j hj
    rw [Finset.mem_erase, and_iff_right hj]
    exact h j
  · exact Finset.card_erase_add_one hmem

end Muduo.Lib
