import Mathlib.Data.List.Nodup

/-!
Things that are born and die, each at most once. `born` and `died` are the
records so far, and alive is what was born and has not died.
-/

namespace Muduo.Lib

variable {α : Type*} {alive alive' : α → Prop} {born died : List α} {x : α}

structure Ledger (alive : α → Prop) (born died : List α) : Prop where
  alive_iff : ∀ x, alive x ↔ x ∈ born ∧ x ∉ died
  born_nodup : born.Nodup
  died_nodup : died.Nodup
  died_subset : died ⊆ born

theorem Ledger.empty (h : ∀ x, ¬ alive x) : Ledger alive [] [] :=
  ⟨by simpa using h, List.nodup_nil, List.nodup_nil, List.Subset.refl _⟩

theorem Ledger.congr (h : Ledger alive born died) (hiff : ∀ x, alive' x ↔ alive x) :
    Ledger alive' born died :=
  ⟨fun x => (hiff x).trans (h.alive_iff x), h.born_nodup, h.died_nodup, h.died_subset⟩

theorem Ledger.birth (h : Ledger alive born died) (hx : x ∉ born)
    (hiff : ∀ y, alive' y ↔ y = x ∨ alive y) : Ledger alive' (born ++ [x]) died := by
  have hdied : x ∉ died := fun hd => hx (h.died_subset hd)
  refine ⟨fun y => ?_, h.born_nodup.append (List.nodup_singleton x) (by simpa using hx),
    h.died_nodup, fun y hy => List.mem_append_left _ (h.died_subset hy)⟩
  rw [hiff, h.alive_iff, List.mem_append, List.mem_singleton]
  constructor
  · rintro (rfl | ⟨hb, hd⟩)
    · exact ⟨.inr rfl, hdied⟩
    · exact ⟨.inl hb, hd⟩
  · rintro ⟨hb | rfl, hd⟩
    · exact .inr ⟨hb, hd⟩
    · exact .inl rfl

theorem Ledger.death (h : Ledger alive born died) (hx : alive x)
    (hiff : ∀ y, alive' y ↔ y ≠ x ∧ alive y) : Ledger alive' born (died ++ [x]) := by
  obtain ⟨hborn, hdied⟩ := (h.alive_iff x).mp hx
  refine ⟨fun y => ?_, h.born_nodup,
    h.died_nodup.append (List.nodup_singleton x) (by simpa using hdied), ?_⟩
  · rw [hiff, h.alive_iff, List.mem_append, List.mem_singleton, not_or]
    tauto
  · intro y hy
    rcases List.mem_append.mp hy with hy | hy
    · exact h.died_subset hy
    · rw [List.mem_singleton.mp hy]
      exact hborn

end Muduo.Lib
