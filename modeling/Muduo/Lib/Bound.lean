import Mathlib.Tactic.TypeStar

/-!
Queues whose entries are bound to objects: what is queued for one object.

* `boundTo q k`: the entries of the queue `q` for `k`, in order;
* `boundTo_append`, `boundTo_cons`: queueing and taking an entry;
* `mem_boundTo`: an entry of the one is an entry of the other.
-/

namespace Muduo.Lib

variable {κ τ : Type*} [DecidableEq κ]

def boundTo (q : List (κ × τ)) (k : κ) : List τ :=
  q.filterMap fun t => if t.1 = k then some t.2 else none

@[simp] theorem boundTo_nil (k : κ) : boundTo ([] : List (κ × τ)) k = [] := rfl

@[simp] theorem boundTo_append (q q' : List (κ × τ)) (k : κ) :
    boundTo (q ++ q') k = boundTo q k ++ boundTo q' k :=
  List.filterMap_append

theorem boundTo_cons (j : κ) (t : τ) (q : List (κ × τ)) (k : κ) :
    boundTo ((j, t) :: q) k = (if j = k then [t] else []) ++ boundTo q k := by
  by_cases hj : j = k <;> simp [boundTo, hj]

@[simp] theorem mem_boundTo {q : List (κ × τ)} {k : κ} {t : τ} :
    t ∈ boundTo q k ↔ (k, t) ∈ q := by
  simp [boundTo, List.mem_filterMap]

theorem boundTo_eq_nil {q : List (κ × τ)} {k : κ} (h : ∀ t ∈ q, t.1 ≠ k) : boundTo q k = [] :=
  List.filterMap_eq_nil_iff.mpr fun t ht => if_neg (h t ht)

end Muduo.Lib
