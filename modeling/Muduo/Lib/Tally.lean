import Mathlib.Algebra.BigOperators.Group.Finset.Basic
import Mathlib.Data.Fintype.BigOperators

/-!
Weights of finitely many values, as those of the threads of a system, of which
one changes at a time.

* `weigh w f`: the sum of the weights of the values of `f`;
* `weigh_update`: one value changes;
* `weigh_eq_zero`: no value has a weight.
-/

namespace Muduo.Lib

variable {ι β : Type*} [Fintype ι]

def weigh (w : β → ℕ) (f : ι → β) : ℕ := ∑ i, w (f i)

theorem weigh_eq_zero {w : β → ℕ} {f : ι → β} : weigh w f = 0 ↔ ∀ i, w (f i) = 0 := by
  simp [weigh]

theorem weigh_congr {γ : Type*} {w : β → ℕ} {v : γ → ℕ} {f : ι → β} {g : ι → γ}
    (h : ∀ i, w (f i) = v (g i)) : weigh w f = weigh v g :=
  Finset.sum_congr rfl fun i _ => h i

variable [DecidableEq ι]

/-- The others keep their weights. -/
theorem weigh_update (w : β → ℕ) (f : ι → β) (i : ι) (b : β) :
    weigh w (Function.update f i b) + w (f i) = weigh w f + w b := by
  have hrest : ∑ j ∈ Finset.univ.erase i, w (Function.update f i b j) =
      ∑ j ∈ Finset.univ.erase i, w (f j) := by
    apply Finset.sum_congr rfl
    intro j hj
    rw [Function.update_of_ne (Finset.ne_of_mem_erase hj)]
  have hnew := Finset.add_sum_erase Finset.univ (fun j => w (Function.update f i b j))
    (Finset.mem_univ i)
  have hold := Finset.add_sum_erase Finset.univ (fun j => w (f j)) (Finset.mem_univ i)
  rw [Function.update_self, hrest] at hnew
  unfold weigh
  omega

end Muduo.Lib
