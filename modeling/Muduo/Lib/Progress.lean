import Mathlib.Order.WellFounded
import Muduo.Lib.Run

/-!
Progress of infinite executions. An execution is a sequence of states; some of
its steps, the moves, bring a measure down, and the others do not raise it.

* `measure_le`: the measure of a later state is not greater;
* `eventually_of_fair`: if moves keep coming until the goal is reached, it is
  reached;
* `Run.of_execution`, `Steps.of_execution`: its first steps are a run;
* `Run.execution`: a run that can rest at its end is the beginning of one.
-/

namespace Muduo.Lib

variable {σ β : Type*} [Preorder β] {s : ℕ → σ}

theorem measure_le {μ : σ → β} (h : ∀ n, μ (s (n + 1)) ≤ μ (s n)) {n m : ℕ} (hnm : n ≤ m) :
    μ (s m) ≤ μ (s n) := by
  induction hnm with
  | refl => exact le_refl _
  | step _ ih => exact (h _).trans ih

/-- **Fair progress.** A well-founded measure that every move lowers and no step
raises leads to the goal, if there is always another move to come before it. -/
theorem eventually_of_fair [WellFoundedLT β] (μ : σ → β) (goal : σ → Prop) (moves : ℕ → Prop)
    (hfair : ∀ n, ¬ goal (s n) → ∃ m, n ≤ m ∧ moves m)
    (hmove : ∀ n, ¬ goal (s n) → moves n → μ (s (n + 1)) < μ (s n))
    (hstay : ∀ n, ¬ goal (s n) → ¬ moves n → μ (s (n + 1)) ≤ μ (s n)) : ∃ n, goal (s n) := by
  by_contra hnever
  have hno : ∀ n, ¬ goal (s n) := not_exists.mp hnever
  have hle : ∀ n, μ (s (n + 1)) ≤ μ (s n) := by
    intro n
    by_cases hm : moves n
    · exact (hmove n (hno n) hm).le
    · exact hstay n (hno n) hm
  -- no value of the measure occurs
  have hvalue : ∀ b n, μ (s n) ≠ b := by
    intro b
    induction b using WellFoundedLT.induction with
    | ind b ih =>
      rintro n rfl
      obtain ⟨m, hnm, hm⟩ := hfair n (hno n)
      exact ih _ ((hmove m (hno m) hm).trans_le (measure_le hle hnm)) (m + 1) rfl
  exact hvalue _ 0 rfl

section Execution

variable {α ε : Type*} {step : σ → α → Except ε σ} {s : ℕ → σ} {a : ℕ → α}

theorem Run.of_execution (h : ∀ n, step (s n) (a n) = .ok (s (n + 1))) (n : ℕ) :
    Run step (s 0) ((List.range n).map a) (s n) := by
  induction n with
  | zero => exact .nil _
  | succ n ih =>
    rw [List.range_succ, List.map_append]
    exact ih.append (.cons (h n) (.nil _))

theorem Steps.of_execution {E : σ → α → Prop} (h : ∀ n, step (s n) (a n) = .ok (s (n + 1)))
    (hE : ∀ n, E (s n) (a n)) (n : ℕ) : Along step E (s 0) ((List.range n).map a) := by
  induction n with
  | zero => trivial
  | succ n ih =>
    rw [List.range_succ, List.map_append]
    exact ih.append (Run.of_execution h n) ((steps_cons_ok (h n)).mpr ⟨hE n, trivial⟩)

/-- The sequence `x` behind one more state. -/
def behind (b : σ) (x : ℕ → σ) : ℕ → σ
  | 0 => b
  | n + 1 => x n

theorem Run.execution {E : σ → α → Prop} {s t : σ} {as : List α} {b : α} (h : Run step s as t)
    (hE : Along step E s as) (hb : E t b) (hrest : step t b = .ok t) :
    ∃ x : ℕ → σ, x 0 = s ∧ (∀ n, E (x n) (as.getD n b)) ∧
      (∀ n, step (x n) (as.getD n b) = .ok (x (n + 1))) ∧ ∀ n, as.length ≤ n → x n = t := by
  induction h with
  | nil s => exact ⟨fun _ => s, rfl, fun _ => hb, fun _ => hrest, fun _ _ => rfl⟩
  | @cons s s' t a as ha _ ih =>
    obtain ⟨x, hx, henabled, hnext, hend⟩ := ih (hE.2 s' ha) hb hrest
    refine ⟨behind s x, rfl, fun n => ?_, fun n => ?_, fun n hn => ?_⟩
    · cases n with
      | zero => exact hE.1
      | succ n => exact henabled n
    · cases n with
      | zero => exact ha.trans (congrArg Except.ok hx.symm)
      | succ n => exact hnext n
    · cases n with
      | zero => simp at hn
      | succ n => exact hend n (Nat.le_of_succ_le_succ hn)

end Execution

end Muduo.Lib
