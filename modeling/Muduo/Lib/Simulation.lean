import Muduo.Lib.Fifo

/-!
A system seen through `view` as another one. Each of its steps is a run of the
other one, of no step where nothing is to be seen.

* `map_of_bind`, `foldlM_map`: a function that commutes with `view`;
* `Run.simulates`: whole runs.
-/

namespace Muduo.Lib

section Checked

universe u v

variable {ε : Type v} {α β γ : Type u}

theorem map_of_bind (x : Except ε α) (f : α → Except ε β) (g : β → γ) :
    (x >>= f).map g = x >>= fun a => (f a).map g := by
  cases x <;> rfl

theorem foldlM_singleton {δ : Type*} (step : α → δ → Except ε α) (s : α) (d : δ) :
    [d].foldlM step s = step s d := by
  rw [List.foldlM_cons]
  cases step s d <;> rfl

/-- Functions that commute with `view`, one behind the other. -/
theorem foldlM_map {δ : Type*} {step : α → δ → Except ε α} {view : α → α}
    (h : ∀ s d, step (view s) d = (step s d).map view) (s : α) (ds : List δ) :
    ds.foldlM step (view s) = (ds.foldlM step s).map view := by
  induction ds generalizing s with
  | nil => rfl
  | cons d ds ih =>
    rw [List.foldlM_cons, List.foldlM_cons, h, map_of_bind]
    cases step s d with
    | error e => rfl
    | ok s' => exact ih s'

end Checked

variable {σ σ' α β ε ε' : Type*} {step : σ → α → Except ε σ} {step' : σ' → β → Except ε' σ'}

/-- **Simulation rule.** When each allowed step is, through `view`, an allowed run
of the other system, so is each run of allowed steps. -/
theorem Run.simulates {I : σ → Prop} {E : σ → α → Prop} {E' : σ' → β → Prop} {s t : σ}
    {as : List α} (h : Run step s as t) (view : σ → σ') (labels : σ → α → List β)
    (hE : Along step E s as) (hs : I s)
    (hI : ∀ s a s', I s → E s a → step s a = .ok s' → I s')
    (hrun : ∀ s a s', I s → E s a → step s a = .ok s' →
      Run step' (view s) (labels s a) (view s'))
    (halong : ∀ s a, I s → E s a → Along step' E' (view s) (labels s a)) :
    Run step' (view s) (yields step labels s as) (view t) ∧
      Along step' E' (view s) (yields step labels s as) := by
  induction h with
  | nil => exact ⟨.nil _, trivial⟩
  | @cons s s' t a as ha _ ih =>
    obtain ⟨hrest, hrest'⟩ := ih (hE.2 s' ha) (hI s a s' hs hE.1 ha)
    have hfirst := hrun s a s' hs hE.1 ha
    rw [yields_cons ha]
    exact ⟨hfirst.append hrest, (halong s a hs hE.1).append hfirst hrest'⟩

end Muduo.Lib
