import Mathlib.Logic.Basic
import Mathlib.Tactic.TypeStar

/-!
Runs of a partial step function. A step maps a state and a label to the next
state or to the failure that ends the run; a label carries every choice of the
environment, so a run is a list of labels.

* `Run step s as t`: the labels `as` lead from `s` to `t` without a failure;
* `Steps step R s as`: every transition of that run, a failing last one
  included, is in `R`;
* `Run.invariant`, `Steps.of_invariant`, `steps_iff`: what one step preserves,
  or does exactly under a condition, holds along whole runs.
-/

namespace Muduo.Lib

/-! ## Checked computations -/

section Checked

universe u v

variable {ε : Type v} {α β : Type u}

/-- `assert(p)`: carry on when `p` holds, stop with `e` when it does not. -/
def check (p : Prop) [Decidable p] (e : ε) : Except ε Unit :=
  if p then .ok () else .error e

theorem check_pos {p : Prop} [Decidable p] (h : p) (e : ε) : check p e = .ok () := if_pos h

theorem check_neg {p : Prop} [Decidable p] (h : ¬ p) (e : ε) : check p e = .error e := if_neg h

@[simp] theorem check_eq_ok {p : Prop} [Decidable p] (e : ε) (u : Unit) :
    check p e = .ok u ↔ p := by
  unfold check
  split <;> simp [*]

@[simp] theorem ok_bind (a : α) (f : α → Except ε β) : (Except.ok a >>= f) = f a := rfl

@[simp] theorem error_bind (e : ε) (f : α → Except ε β) :
    ((Except.error e : Except ε α) >>= f) = .error e := rfl

@[simp] theorem pure_eq_ok (a : α) : (pure a : Except ε α) = .ok a := rfl

theorem bind_eq_ok {x : Except ε α} {f : α → Except ε β} {b : β} :
    (x >>= f) = .ok b ↔ ∃ a, x = .ok a ∧ f a = .ok b := by
  cases x with
  | error e => simp
  | ok a => simp

theorem bind_eq_error {x : Except ε α} {f : α → Except ε β} {e : ε} :
    (x >>= f) = .error e ↔ x = .error e ∨ ∃ a, x = .ok a ∧ f a = .error e := by
  cases x with
  | error e' => simp
  | ok a => simp

theorem ok_of_mapError {δ : Type v} {x : Except ε α} {f : ε → δ} {a : α}
    (h : x.mapError f = .ok a) : x = .ok a := by
  cases x with
  | error e => cases h
  | ok b =>
    cases h
    rfl

theorem eq_of_check_eq_error {p : Prop} [Decidable p] {e e' : ε}
    (h : check p e = .error e') : e' = e := by
  unfold check at h
  split at h
  · cases h
  · exact (Except.error.inj h).symm

end Checked

/-! ## Runs -/

variable {σ α ε : Type*} {step : σ → α → Except ε σ}

/-- The labels `as` lead from `s` to `t`. -/
inductive Run (step : σ → α → Except ε σ) : σ → List α → σ → Prop
  | nil (s : σ) : Run step s [] s
  | cons {s s' t : σ} {a : α} {as : List α} :
      step s a = .ok s' → Run step s' as t → Run step s (a :: as) t

/-- Every transition of the run of `as` from `s` is in `R`, which sees the
state before it, its label and its outcome. A failing transition is the last. -/
def Steps (step : σ → α → Except ε σ) (R : σ → α → Except ε σ → Prop) : σ → List α → Prop
  | _, [] => True
  | s, a :: as => R s a (step s a) ∧ ∀ s', step s a = .ok s' → Steps step R s' as

/-- Every step of the run is taken in a state where `P` allows its label. -/
abbrev Along (step : σ → α → Except ε σ) (P : σ → α → Prop) : σ → List α → Prop :=
  Steps step (fun s a _ => P s a)

theorem steps_cons_ok {R : σ → α → Except ε σ → Prop} {s s' : σ} {a : α} {as : List α}
    (h : step s a = .ok s') :
    Steps step R s (a :: as) ↔ R s a (.ok s') ∧ Steps step R s' as := by
  simp only [Steps, h, Except.ok.injEq, forall_eq']

theorem steps_cons_error {R : σ → α → Except ε σ → Prop} {s : σ} {a : α} {as : List α} {e : ε}
    (h : step s a = .error e) : Steps step R s (a :: as) ↔ R s a (.error e) := by
  simp [Steps, h]

/-- A concrete run can be checked by evaluation. -/
instance Steps.decidable {R : σ → α → Except ε σ → Prop} [∀ s a o, Decidable (R s a o)] :
    ∀ (s : σ) (as : List α), Decidable (Steps step R s as)
  | _, [] => isTrue trivial
  | s, a :: as =>
    match h : step s a with
    | .error e => decidable_of_iff (R s a (.error e)) (steps_cons_error h).symm
    | .ok s' =>
      have : Decidable (Steps step R s' as) := Steps.decidable s' as
      decidable_of_iff (R s a (.ok s') ∧ Steps step R s' as) (steps_cons_ok h).symm

theorem Run.append {s t u : σ} {as bs : List α} (h : Run step s as t) (h' : Run step t bs u) :
    Run step s (as ++ bs) u := by
  induction h with
  | nil => exact h'
  | cons ha _ ih => exact .cons ha (ih h')

theorem Run.split {s u : σ} {as bs : List α} (h : Run step s (as ++ bs) u) :
    ∃ t, Run step s as t ∧ Run step t bs u := by
  induction as generalizing s with
  | nil => exact ⟨s, .nil s, h⟩
  | cons a as ih =>
    cases h with
    | cons ha h =>
      obtain ⟨t, hrun, hrest⟩ := ih h
      exact ⟨t, .cons ha hrun, hrest⟩

/-- Running the labels one after the other. -/
theorem run_iff_foldlM {s t : σ} {as : List α} : Run step s as t ↔ as.foldlM step s = .ok t := by
  constructor
  · intro h
    induction h with
    | nil => rfl
    | cons hs _ ih => rw [List.foldlM_cons, hs, ok_bind, ih]
  · intro h
    induction as generalizing s with
    | nil =>
      cases h
      exact .nil _
    | cons a as ih =>
      rw [List.foldlM_cons] at h
      obtain ⟨s', hs, h⟩ := bind_eq_ok.mp h
      exact .cons hs (ih h)

/-- **Invariant rule.** What every allowed step preserves holds at the end of
every run of allowed steps. -/
theorem Run.invariant {I : σ → Prop} {E : σ → α → Prop} {s t : σ} {as : List α}
    (h : Run step s as t) (hE : Along step E s as) (hs : I s)
    (hstep : ∀ s a s', I s → E s a → step s a = .ok s' → I s') : I t := by
  induction h with
  | nil => exact hs
  | cons ha _ ih => exact ih (hE.2 _ ha) (hstep _ _ _ hs hE.1 ha)

/-- When each allowed step makes `J` true exactly if it was and `P` allows the
step, `J` holds at the end of a run exactly if it did at the start and `P`
allows every step. -/
theorem Run.holds_iff {I J : σ → Prop} {E P : σ → α → Prop} {s t : σ} {as : List α}
    (h : Run step s as t) (hE : Along step E s as) (hs : I s)
    (hI : ∀ s a s', I s → E s a → step s a = .ok s' → I s')
    (hJ : ∀ s a s', I s → E s a → step s a = .ok s' → (J s' ↔ J s ∧ P s a)) :
    J t ↔ J s ∧ Along step P s as := by
  induction h with
  | nil => exact (and_iff_left trivial).symm
  | cons ha _ ih =>
    rw [ih (hE.2 _ ha) (hI _ _ _ hs hE.1 ha), hJ _ _ _ hs hE.1 ha, and_assoc]
    exact and_congr_right fun _ => (steps_cons_ok (R := fun s a _ => P s a) ha).symm

/-- **Progress rule.** When allowed steps do not fail and preserve `I`, a run of
allowed steps reaches its end, in a state of `I`. -/
theorem Run.progress {I : σ → Prop} {E : σ → α → Prop}
    (hstep : ∀ s a, I s → E s a → ∃ s', step s a = .ok s' ∧ I s') :
    ∀ {s : σ} {as : List α}, I s → Along step E s as → ∃ t, Run step s as t ∧ I t
  | s, [], hs, _ => ⟨s, .nil s, hs⟩
  | s, a :: _, hs, hE => by
    obtain ⟨s', ha, hs'⟩ := hstep s a hs hE.1
    obtain ⟨t, hrun, ht⟩ := Run.progress hstep hs' (hE.2 s' ha)
    exact ⟨t, .cons ha hrun, ht⟩

theorem Steps.mono {R R' : σ → α → Except ε σ → Prop} (h : ∀ s a o, R s a o → R' s a o) :
    ∀ {s : σ} {as : List α}, Steps step R s as → Steps step R' s as
  | _, [], _ => trivial
  | _, _ :: _, hs => ⟨h _ _ _ hs.1, fun s' ha => (hs.2 s' ha).mono h⟩

theorem Steps.and {R R' : σ → α → Except ε σ → Prop} :
    ∀ {s : σ} {as : List α}, Steps step R s as → Steps step R' s as →
      Steps step (fun s a o => R s a o ∧ R' s a o) s as
  | _, [], _, _ => trivial
  | _, _ :: _, h, h' => ⟨⟨h.1, h'.1⟩, fun s' ha => (h.2 s' ha).and (h'.2 s' ha)⟩

theorem Steps.left {R : σ → α → Except ε σ → Prop} :
    ∀ {s : σ} {as bs : List α}, Steps step R s (as ++ bs) → Steps step R s as
  | _, [], _, _ => trivial
  | _, _ :: _, _, h => ⟨h.1, fun s' ha => (h.2 s' ha).left⟩

/-- Behind the run of `as`, the rest starts from its end. -/
theorem Steps.right {R : σ → α → Except ε σ → Prop} {s t : σ} {as bs : List α}
    (h : Steps step R s (as ++ bs)) (hrun : Run step s as t) : Steps step R t bs := by
  induction hrun with
  | nil => exact h
  | cons ha _ ih => exact ih (h.2 _ ha)

theorem Steps.append {R : σ → α → Except ε σ → Prop} {s t : σ} {as bs : List α}
    (h : Steps step R s as) (hrun : Run step s as t) (h' : Steps step R t bs) :
    Steps step R s (as ++ bs) := by
  induction hrun with
  | nil => exact h'
  | cons ha _ ih =>
    obtain ⟨hfirst, hrest⟩ := (steps_cons_ok ha).mp h
    exact (steps_cons_ok ha).mpr ⟨hfirst, ih hrest h'⟩

theorem Steps.of_forall {P : α → Prop} {s : σ} {as : List α} (h : ∀ a ∈ as, P a) :
    Along step (fun _ a => P a) s as := by
  induction as generalizing s with
  | nil => trivial
  | cons a as ih =>
    exact ⟨h a (List.mem_cons_self ..), fun _ _ => ih fun b hb => h b (List.mem_cons_of_mem a hb)⟩

/-- A condition on the labels alone, along a run that does not fail. -/
theorem Run.along_iff {P : α → Prop} {s t : σ} {as : List α} (h : Run step s as t) :
    Along step (fun _ a => P a) s as ↔ ∀ a ∈ as, P a := by
  constructor
  · intro hP
    induction h with
    | nil => simp
    | cons ha _ ih => simpa using ⟨hP.1, ih (hP.2 _ ha)⟩
  · exact Steps.of_forall

/-- **Step rule.** From an invariant that allowed steps preserve, each allowed
transition being in `R`, every run of allowed steps stays in `R`. -/
theorem Steps.of_invariant {I : σ → Prop} {E : σ → α → Prop} {R : σ → α → Except ε σ → Prop}
    (hR : ∀ s a, I s → E s a → R s a (step s a))
    (hI : ∀ s a s', I s → E s a → step s a = .ok s' → I s') :
    ∀ {s : σ} {as : List α}, I s → Along step E s as → Steps step R s as
  | _, [], _, _ => trivial
  | s, a :: _, hs, hE =>
    ⟨hR s a hs hE.1, fun s' ha => Steps.of_invariant hR hI (hI s a s' hs hE.1 ha) (hE.2 s' ha)⟩

/-- **Exactness rule.** When an allowed transition from `I` is in `R` exactly
under the condition `P`, and keeps `I` under it, a run of allowed steps stays
in `R` exactly when `P` holds at each of its steps. -/
theorem steps_iff {I : σ → Prop} {E P : σ → α → Prop} {R : σ → α → Except ε σ → Prop}
    (hR : ∀ s a, I s → E s a → (R s a (step s a) ↔ P s a))
    (hI : ∀ s a s', I s → E s a → P s a → step s a = .ok s' → I s') :
    ∀ {s : σ} {as : List α}, I s → Along step E s as → (Steps step R s as ↔ Along step P s as)
  | _, [], _, _ => Iff.rfl
  | s, a :: as, hs, hE => by
    constructor
    · intro h
      have hp : P s a := (hR s a hs hE.1).mp h.1
      exact ⟨hp, fun s' ha =>
        (steps_iff hR hI (hI s a s' hs hE.1 hp ha) (hE.2 s' ha)).mp (h.2 s' ha)⟩
    · intro h
      exact ⟨(hR s a hs hE.1).mpr h.1, fun s' ha =>
        (steps_iff hR hI (hI s a s' hs hE.1 h.1 ha) (hE.2 s' ha)).mpr (h.2 s' ha)⟩

end Muduo.Lib
