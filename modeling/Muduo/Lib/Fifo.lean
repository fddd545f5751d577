import Muduo.Lib.Run

/-!
First in, first out along runs. Each step takes some items in and gives some
items out; when what is inside is what came in and has not come out, in order,
behind every step, it is so behind every run; an item that is among the first
ones has come out when as many have; and no more come out than are inside or
still to come.
-/

namespace Muduo.Lib

variable {σ α ε β : Type*} {step : σ → α → Except ε σ}

/-- What the steps of a run yield, one behind the other. -/
def yields (step : σ → α → Except ε σ) (f : σ → α → List β) : σ → List α → List β
  | _, [] => []
  | s, a :: as =>
    f s a ++ match step s a with
      | .ok s' => yields step f s' as
      | .error _ => []

@[simp] theorem yields_nil (f : σ → α → List β) (s : σ) : yields step f s [] = [] := rfl

theorem yields_cons {f : σ → α → List β} {s s' : σ} {a : α} {as : List α}
    (h : step s a = .ok s') : yields step f s (a :: as) = f s a ++ yields step f s' as := by
  simp only [yields, h]

/-- When a step yields what its label says, so does a run. -/
theorem Run.yields_eq {f : σ → α → List β} {g : α → List β} {s t : σ} {as : List α}
    (h : Run step s as t) (hf : ∀ s a, f s a = g a) : yields step f s as = as.flatMap g := by
  induction h with
  | nil => rfl
  | cons ha _ ih => rw [yields_cons ha, ih, hf, List.flatMap_cons]

theorem Run.yields_append {f : σ → α → List β} {s t : σ} {as bs : List α} (h : Run step s as t) :
    yields step f s (as ++ bs) = yields step f s as ++ yields step f t bs := by
  induction h with
  | nil => rfl
  | cons ha _ ih => rw [List.cons_append, yields_cons ha, yields_cons ha, ih, List.append_assoc]

/-- **History rule.** What every step preserves of its state and of all that has
been yielded before it. -/
theorem Run.history {J : σ → List β → Prop} {E : σ → α → Prop} {f : σ → α → List β} {s t : σ}
    {as : List α} {before : List β} (h : Run step s as t) (hE : Along step E s as)
    (hs : J s before)
    (hstep : ∀ s a s' before, J s before → E s a → step s a = .ok s' → J s' (before ++ f s a)) :
    J t (before ++ yields step f s as) := by
  induction h generalizing before with
  | nil => simpa using hs
  | cons ha _ ih =>
    rw [yields_cons ha, ← List.append_assoc]
    exact ih (hE.2 _ ha) (hstep _ _ _ _ hs hE.1 ha)

/-- **Conservation rule.** When each allowed step gives out the front of what is
inside and takes in at its back, a run of allowed steps gives out, in order,
what was inside and what it took in, up to what is inside at its end. -/
theorem Run.conserved {I : σ → Prop} {E : σ → α → Prop} {inside : σ → List β}
    {inn out : σ → α → List β} {s t : σ} {as : List α} (h : Run step s as t)
    (hE : Along step E s as) (hs : I s)
    (hI : ∀ s a s', I s → E s a → step s a = .ok s' → I s')
    (hstep : ∀ s a s', I s → E s a → step s a = .ok s' →
      out s a ++ inside s' = inside s ++ inn s a) :
    yields step out s as ++ inside t = inside s ++ yields step inn s as := by
  induction h with
  | nil => simp
  | @cons s s' t a as ha _ ih =>
    have hone := hstep s a s' hs hE.1 ha
    have hrest := ih (hE.2 s' ha) (hI s a s' hs hE.1 ha)
    calc
      _ = out s a ++ (yields step out s' as ++ inside t) := by
        rw [yields_cons ha, List.append_assoc]
      _ = (out s a ++ inside s') ++ yields step inn s' as := by rw [hrest, List.append_assoc]
      _ = _ := by rw [hone, yields_cons ha, List.append_assoc]

/-- The rule for steps that give nothing out. -/
theorem Run.accumulated {I : σ → Prop} {E : σ → α → Prop} {inside : σ → List β} {g : α → List β}
    {s t : σ} {as : List α} (h : Run step s as t) (hE : Along step E s as) (hs : I s)
    (hI : ∀ s a s', I s → E s a → step s a = .ok s' → I s')
    (hstep : ∀ s a s', I s → E s a → step s a = .ok s' → inside s' = inside s ++ g a) :
    inside t = inside s ++ as.flatMap g := by
  have hout : yields step (fun _ _ => ([] : List β)) s as = [] := by
    rw [h.yields_eq (g := fun _ => []) fun _ _ => rfl]
    exact List.flatMap_eq_nil_iff.mpr fun _ _ => rfl
  have hinn : yields step (fun _ a => g a) s as = as.flatMap g := h.yields_eq fun _ _ => rfl
  have hall : yields step (fun _ _ => []) s as ++ inside t =
      inside s ++ yields step (fun _ a => g a) s as := h.conserved hE hs hI hstep
  rwa [hout, hinn, List.nil_append] at hall

/-- The rule for steps that add to what is inside what their state and label say. -/
theorem Run.gathered {I : σ → Prop} {E : σ → α → Prop} {inside : σ → List β}
    {inn : σ → α → List β} {s t : σ} {as : List α} (h : Run step s as t) (hE : Along step E s as)
    (hs : I s) (hI : ∀ s a s', I s → E s a → step s a = .ok s' → I s')
    (hstep : ∀ s a s', I s → E s a → step s a = .ok s' → inside s' = inside s ++ inn s a) :
    inside t = inside s ++ yields step inn s as := by
  induction h with
  | nil => simp
  | @cons s s' t a as ha _ ih =>
    rw [ih (hE.2 s' ha) (hI s a s' hs hE.1 ha), hstep s a s' hs hE.1 ha, yields_cons ha,
      List.append_assoc]

/-- **Budget rule.** No step raises `μ`, and steps with `pops` lower it. -/
theorem Run.spends {I : σ → Prop} {E : σ → α → Prop} {μ : σ → Nat} {pops : α → Bool} {s t : σ}
    {as : List α} (h : Run step s as t) (hE : Along step E s as) (hs : I s)
    (hI : ∀ s a s', I s → E s a → step s a = .ok s' → I s')
    (hstep : ∀ s a s', I s → E s a → step s a = .ok s' →
      (if pops a then 1 else 0) + μ s' ≤ μ s) : as.countP pops + μ t ≤ μ s := by
  induction h with
  | nil => simp
  | @cons s s' t a as ha _ ih =>
    have hrest := ih (hE.2 s' ha) (hI s a s' hs hE.1 ha)
    have hfirst := hstep s a s' hs hE.1 ha
    rw [List.countP_cons]
    omega

/-- What was inside and is no longer has come out. -/
theorem prefix_of_gone {out inside before inn : List β} (h : out ++ inside = before ++ inn)
    (hgone : ∀ b ∈ before, b ∉ inside) : before <+: out := by
  rcases List.append_eq_append_iff.mp h with ⟨rest, hbefore, hinside⟩ | ⟨rest, hout, -⟩
  · cases rest with
    | nil => exact ⟨[], by rw [hbefore, List.append_nil, List.append_nil]⟩
    | cons b rest =>
      have hb : b ∉ inside := hgone b (by simp [hbefore])
      simp [hinside] at hb
  · exact ⟨rest, hout.symm⟩

theorem mem_take_mono {l l' : List β} (h : l <+: l') {b : β} {k : Nat} (hb : b ∈ l.take k) :
    b ∈ l'.take k := by
  obtain ⟨r, rfl⟩ := h
  rw [List.take_append]
  exact List.mem_append_left _ hb

/-- **Service rule.** Steps with `pops` take the front off a queue, the others
leave the queue in front of what they add, and when `b` is taken off, `P` holds
from then on. If `b` is among the first `k` then behind `k` pops `P` holds. -/
theorem Run.served {I P : σ → Prop} {E : σ → α → Prop} {queue : σ → List β} {pops : α → Bool}
    {b : β} {s t : σ} {as : List α} (h : Run step s as t) (hE : Along step E s as) (hs : I s)
    (hI : ∀ s a s', I s → E s a → step s a = .ok s' → I s')
    (hP : ∀ s a s', I s → E s a → step s a = .ok s' → P s → P s')
    (hpush : ∀ s a s', I s → E s a → step s a = .ok s' → pops a = false →
      P s' ∨ queue s <+: queue s')
    (hpop : ∀ s a s', I s → E s a → step s a = .ok s' → pops a = true →
      ∀ x q, queue s = x :: q → P s' ∨ x ≠ b ∧ q <+: queue s')
    {k : Nat} (hk : k ≤ as.countP pops) (hb : P s ∨ b ∈ (queue s).take k) : P t := by
  induction h generalizing k with
  | nil =>
    obtain rfl : k = 0 := Nat.le_zero.mp hk
    simpa using hb
  | @cons s s' t a as ha _ ih =>
    have hnext : ∀ k, k ≤ as.countP pops → P s' ∨ b ∈ (queue s').take k → P t :=
      fun k hk => ih (hE.2 s' ha) (hI s a s' hs hE.1 ha) hk
    rcases hb with hb | hb
    · exact hnext 0 (Nat.zero_le _) (.inl (hP s a s' hs hE.1 ha hb))
    cases hpops : pops a with
    | false =>
      rw [List.countP_cons_of_neg (by simp [hpops])] at hk
      rcases hpush s a s' hs hE.1 ha hpops with hp | hq
      · exact hnext k hk (.inl hp)
      · exact hnext k hk (.inr (mem_take_mono hq hb))
    | true =>
      rw [List.countP_cons_of_pos (by simp [hpops])] at hk
      cases k with
      | zero => simp at hb
      | succ k =>
        cases hq : queue s with
        | nil => simp [hq] at hb
        | cons x q =>
          rw [hq, List.take_succ_cons, List.mem_cons] at hb
          rcases hpop s a s' hs hE.1 ha hpops x q hq with hp | ⟨hne, hprefix⟩
          · exact hnext k (Nat.le_of_succ_le_succ hk) (.inl hp)
          · have hmem : b ∈ q.take k := hb.resolve_left hne.symm
            exact hnext k (Nat.le_of_succ_le_succ hk) (.inr (mem_take_mono hprefix hmem))

end Muduo.Lib
