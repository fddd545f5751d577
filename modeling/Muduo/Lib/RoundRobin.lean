import Mathlib.Algebra.Order.Group.Nat
import Mathlib.Data.List.Range

/-!
Turns that go round: the item `m` goes to the place `m % n` of `n` places. A
cursor that counts up and starts again is at the place of the next item, and of
any two places one has at most one item more than the other.
-/

namespace Muduo.Lib

/-- The cursor behind one more item. -/
theorem cursor_succ {n m : ℕ} (hn : 0 < n) :
    (if n ≤ m % n + 1 then 0 else m % n + 1) = (m + 1) % n := by
  have hlt : m % n < n := Nat.mod_lt m hn
  by_cases h : n ≤ m % n + 1
  · have hlast : m % n + 1 = n := by omega
    rw [if_pos h, ← Nat.mod_add_mod, hlast, Nat.mod_self]
  · have hless : m % n + 1 < n := by omega
    rw [if_neg h, ← Nat.mod_add_mod, Nat.mod_eq_of_lt hless]

/-- How many of the first `m` items go to the place `i`. -/
theorem count_turns {n i : ℕ} (hi : i < n) (m : ℕ) :
    ((List.range m).map (· % n)).count i = m / n + if i < m % n then 1 else 0 := by
  have hn : 0 < n := Nat.zero_lt_of_lt hi
  induction m with
  | zero => simp
  | succ m ih =>
    have hlt : m % n < n := Nat.mod_lt m hn
    rw [List.range_succ, List.map_append, List.count_append, ih, List.map_singleton,
      List.count_singleton, Nat.succ_div, ← cursor_succ hn]
    by_cases hlast : n ≤ m % n + 1
    · -- the round is complete
      have hdvd : n ∣ m + 1 := by
        refine Nat.dvd_of_mod_eq_zero ?_
        rw [← cursor_succ hn, if_pos hlast]
      rw [if_pos hlast, if_pos hdvd]
      by_cases hmi : m % n = i
      · simp [hmi]
      · have hless : i < m % n := by omega
        simp [hmi, hless]
    · have hdvd : ¬ n ∣ m + 1 := by
        intro h
        have hzero := Nat.mod_eq_zero_of_dvd h
        rw [← cursor_succ hn, if_neg hlast] at hzero
        omega
      rw [if_neg hlast, if_neg hdvd]
      by_cases hmi : m % n = i
      · simp [hmi]
      · have hiff : i < m % n + 1 ↔ i < m % n := by omega
        simp [hmi, hiff]

end Muduo.Lib
