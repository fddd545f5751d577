import Mathlib.Data.Prod.Lex
import Muduo.EventLoop
import Muduo.Lib.Progress

/-!
What becomes of a call of `quit`. `loop()` writes `quit_ = false` when it is
entered, so a request made before is forgotten; one made later is not, and the
loop thread comes to the end of `loop()` whatever the other threads do.
-/

namespace Muduo

open Lib

/-- How far the phase is from the end, and how much is left to do in it. -/
def LoopPhase.distance {φ : Type} : LoopPhase φ → ℕ × ℕ
  | .returned => (0, 0)
  | .condition => (1, 0)
  | .callingFunctors functors => (2, functors.length)
  | .swapping => (3, 0)
  | .handlingEvents channels => (4, channels.length)
  | .polling => (5, 0)
  | .beforePoll => (6, 0)
  | .notStarted => (7, 0)

namespace EventLoop

variable {ι φ : Type}

/-- The step writes `quit_ = true`. -/
def IsQuit (s : EventLoop ι φ) : Label ι φ → Prop
  | .early .quit | .quit _ => True
  | .call => s.calls.head? = some .quit
  | _ => False

/-- The steps of the loop thread. -/
def Label.OfLoop : Label ι φ → Prop
  | .queneInLoop .. | .quit _ | .wakeupFrom _ => False
  | _ => True

/-- The step does not begin an iteration. -/
def NoFurtherIteration (s : EventLoop ι φ) (a : Label ι φ) (_ : Checked (EventLoop ι φ)) : Prop :=
  match a with
  | .test => s.quit = true
  | _ => True

/-- `loop()` has been entered, and `quit_` set since. -/
structure Quitting (s : EventLoop ι φ) : Prop where
  started : s.phase ≠ .notStarted
  quit : s.quit = true

/-- What is left to do until `loop()` returns. -/
def measure (s : EventLoop ι φ) : ℕ ×ₗ ℕ ×ₗ ℕ :=
  toLex (s.phase.distance.1, toLex (s.phase.distance.2, 2 * s.calls.length + s.waking.toNat))

theorem measure_lt_of_phase {s s' : EventLoop ι φ}
    (h : s'.phase.distance.1 < s.phase.distance.1) : s'.measure < s.measure :=
  Prod.Lex.toLex_lt_toLex.mpr (.inl h)

theorem measure_lt_of_length {s s' : EventLoop ι φ}
    (h : s'.phase.distance.1 = s.phase.distance.1)
    (hlen : s'.phase.distance.2 < s.phase.distance.2) : s'.measure < s.measure :=
  Prod.Lex.toLex_lt_toLex.mpr (.inr ⟨h, Prod.Lex.toLex_lt_toLex.mpr (.inl hlen)⟩)

theorem measure_lt_of_calls {s s' : EventLoop ι φ} (h : s'.phase = s.phase)
    (hlt : 2 * s'.calls.length + s'.waking.toNat < 2 * s.calls.length + s.waking.toNat) :
    s'.measure < s.measure := by
  unfold measure
  rw [h]
  exact Prod.Lex.toLex_lt_toLex.mpr (.inr ⟨rfl, Prod.Lex.toLex_lt_toLex.mpr (.inr ⟨rfl, hlt⟩)⟩)

theorem leads_of_lt {s s' : EventLoop ι φ} {a : Label ι φ} (ha : a.OfLoop)
    (h : s'.measure < s.measure) :
    (a.OfLoop → s'.measure < s.measure) ∧ (¬ a.OfLoop → s'.measure = s.measure) :=
  ⟨fun _ => h, fun hn => absurd ha hn⟩

variable [DecidableEq ι]

/-- An infinite interleaving in which the loop thread, until it has returned
from `loop()`, takes step after step. -/
structure FairExecution (s : ℕ → EventLoop ι φ) (a : ℕ → Label ι φ) : Prop where
  enabled : ∀ n, (s n).Enabled (a n)
  next : ∀ n, (s n).step (a n) = .ok (s (n + 1))
  fair : ∀ n, (s n).phase ≠ .returned → ∃ m, n ≤ m ∧ (a m).OfLoop

/-- No further iteration begins, and `loop()` returns. -/
structure Heeded (s : EventLoop ι φ) : Prop where
  safe : ∀ steps, Along step Enabled s steps → Steps step NoFurtherIteration s steps
  returns : ∀ t a, FairExecution t a → t 0 = s → ∃ n, (t n).phase = .returned

/-! ## The way out of the loop -/

/-- Once the loop is to quit, every step keeps it so. Those of the loop thread
lead towards the end, and those of the other threads do not lead away. -/
theorem Quitting.step {s s' : EventLoop ι φ} (h : s.Quitting) {a : Label ι φ} (ha : s.Enabled a)
    (hs : s.step a = .ok s') :
    s'.Quitting ∧ (a.OfLoop → s'.measure < s.measure) ∧ (¬ a.OfLoop → s'.measure = s.measure) := by
  cases a with
  | early c => exact absurd ha h.started
  | enter => exact absurd ha h.started
  | test =>
    have hcond : s.phase = .condition := ha
    simp only [EventLoop.step, h.quit, if_pos, pure_eq_ok, Except.ok.injEq] at hs
    subst hs
    refine ⟨⟨by simp, rfl⟩, leads_of_lt trivial (measure_lt_of_phase ?_)⟩
    simp [hcond, LoopPhase.distance]
  | poll =>
    have hbefore : s.phase = .beforePoll := ha
    cases hs
    refine ⟨⟨by simp, h.quit⟩, leads_of_lt trivial (measure_lt_of_phase ?_)⟩
    simp [hbefore, LoopPhase.distance]
  | pollReturn activeChannels =>
    cases hs
    refine ⟨⟨by simp, h.quit⟩, leads_of_lt trivial (measure_lt_of_phase ?_)⟩
    simp [ha.1, LoopPhase.distance]
  | handleEvent calls =>
    obtain ⟨-, channel, channels, hp⟩ := ha
    cases channel with
    | wakeup =>
      simp only [EventLoop.step, hp, pure_eq_ok, Except.ok.injEq] at hs
      subst hs
      refine ⟨⟨by simp, h.quit⟩, leads_of_lt trivial (measure_lt_of_length ?_ ?_)⟩
      · simp [hp, LoopPhase.distance]
      · simp [hp, LoopPhase.distance]
    | other =>
      simp only [EventLoop.step, hp, pure_eq_ok, Except.ok.injEq] at hs
      subst hs
      refine ⟨⟨by simp, h.quit⟩, leads_of_lt trivial (measure_lt_of_length ?_ ?_)⟩
      · simp [hp, LoopPhase.distance]
      · simp [hp, LoopPhase.distance]
  | endEvents =>
    cases hs
    refine ⟨⟨by simp, h.quit⟩, leads_of_lt trivial (measure_lt_of_phase ?_)⟩
    simp [ha.2, LoopPhase.distance]
  | swap =>
    have hp : s.phase = .swapping := ha
    cases hs
    refine ⟨⟨by simp, h.quit⟩, leads_of_lt trivial (measure_lt_of_phase ?_)⟩
    simp [hp, LoopPhase.distance]
  | callFunctor calls =>
    obtain ⟨-, functor, functors, hp⟩ := ha
    simp only [EventLoop.step, hp, pure_eq_ok, Except.ok.injEq] at hs
    subst hs
    refine ⟨⟨by simp, h.quit⟩, leads_of_lt trivial (measure_lt_of_length ?_ ?_)⟩
    · simp [hp, LoopPhase.distance]
    · simp [hp, LoopPhase.distance]
  | endFunctors =>
    cases hs
    refine ⟨⟨by simp, h.quit⟩, leads_of_lt trivial (measure_lt_of_phase ?_)⟩
    simp [ha.2, LoopPhase.distance]
  | call =>
    obtain ⟨hne, hwaking⟩ := ha
    cases hcalls : s.calls with
    | nil => exact absurd hcalls hne
    | cons c calls =>
      simp only [EventLoop.step, hcalls, pure_eq_ok, Except.ok.injEq] at hs
      subst hs
      cases c with
      | quit =>
        refine ⟨⟨h.started, rfl⟩, leads_of_lt trivial (measure_lt_of_calls rfl ?_)⟩
        simp [callInLoop, hcalls, hwaking]
      | queneInLoop cb =>
        -- the write to the eventfd is still to come, but the call is made
        refine ⟨⟨h.started, h.quit⟩, leads_of_lt trivial (measure_lt_of_calls rfl ?_)⟩
        have hle := Bool.toNat_le s.callingPendingFunctors
        simp only [callInLoop, hcalls, hwaking, List.length_cons, Bool.toNat_false]
        omega
  | wakeup =>
    have hwaking : s.waking = true := ha
    cases hs
    refine ⟨⟨h.started, h.quit⟩, leads_of_lt trivial (measure_lt_of_calls rfl ?_)⟩
    simp [EventLoop.wakeup, hwaking]
  | queneInLoop i cb =>
    cases hs
    exact ⟨⟨h.started, h.quit⟩, fun hn => absurd hn id, fun _ => rfl⟩
  | quit i =>
    cases hs
    exact ⟨⟨h.started, rfl⟩, fun hn => absurd hn id, fun _ => rfl⟩
  | wakeupFrom i =>
    cases hs
    exact ⟨⟨h.started, h.quit⟩, fun hn => absurd hn id, fun _ => rfl⟩

theorem Quitting.heeded {s : EventLoop ι φ} (h : s.Quitting) : s.Heeded where
  safe steps hsteps := by
    refine Steps.of_invariant (I := Quitting) (fun s a hq ha => ?_)
      (fun s a s' hq ha hs => (hq.step ha hs).1) h hsteps
    cases a with
    | test => exact hq.quit
    | _ => trivial
  returns t a hfair h0 := by
    have hq : ∀ n, (t n).Quitting := by
      intro n
      induction n with
      | zero => exact h0 ▸ h
      | succ n ih => exact (ih.step (hfair.enabled n) (hfair.next n)).1
    refine eventually_of_fair measure (fun s => s.phase = .returned)
      (fun n => (a n).OfLoop) hfair.fair (fun n _ hm => ?_) (fun n _ hm => ?_)
    · exact ((hq n).step (hfair.enabled n) (hfair.next n)).2.1 hm
    · exact (((hq n).step (hfair.enabled n) (hfair.next n)).2.2 hm).le

/-! ## The step that sets `quit_` -/

/-- The loop is not looping before `loop()`. -/
def Fresh (s : EventLoop ι φ) : Prop := s.phase = .notStarted → s.looping = false

/-- Calls of other threads and of callbacks leave the loop thread where it is. -/
theorem IsQuit.phase_eq {s s' : EventLoop ι φ} {a : Label ι φ} (hq : s.IsQuit a)
    (hs : s.step a = .ok s') : s'.phase = s.phase ∧ s'.quit = true := by
  cases a with
  | early c =>
    cases c with
    | quit =>
      cases hs
      exact ⟨rfl, rfl⟩
    | queneInLoop cb => exact absurd hq id
  | quit i =>
    cases hs
    exact ⟨rfl, rfl⟩
  | call =>
    cases hcalls : s.calls with
    | nil => simp [IsQuit, hcalls] at hq
    | cons c calls =>
      obtain rfl : c = .quit := by simpa [IsQuit, hcalls] using hq
      simp only [step, hcalls, pure_eq_ok, Except.ok.injEq] at hs
      subst hs
      exact ⟨rfl, rfl⟩
  | _ => exact absurd hq id

/-- The assertion of `loop()` holds. -/
theorem step_ok {s : EventLoop ι φ} (h : s.Fresh) {a : Label ι φ} (ha : s.Enabled a) :
    ∃ s', s.step a = .ok s' := by
  cases a with
  | enter => simp [step, check_pos (h ha)]
  | handleEvent calls =>
    obtain ⟨-, channel, channels, hp⟩ := ha
    cases channel <;> simp [step, hp]
  | callFunctor calls =>
    obtain ⟨-, functor, functors, hp⟩ := ha
    simp [step, hp]
  | call => cases hcalls : s.calls <;> simp [step, hcalls]
  | _ => exact ⟨_, rfl⟩

theorem Fresh.step {s s' : EventLoop ι φ} (h : s.Fresh) {a : Label ι φ} (ha : s.Enabled a)
    (hs : s.step a = .ok s') : s'.Fresh := by
  intro hp
  cases a with
  | early c =>
    cases c <;> cases hs <;> exact h hp
  | enter =>
    have hcheck := h ha
    simp [EventLoop.step, check_pos hcheck] at hs
    subst hs
    cases hp
  | test =>
    simp only [EventLoop.step, pure_eq_ok, Except.ok.injEq] at hs
    subst hs
    split at hp <;> cases hp
  | handleEvent calls =>
    obtain ⟨-, channel, channels, hphase⟩ := ha
    cases channel <;>
    · simp only [EventLoop.step, hphase, pure_eq_ok, Except.ok.injEq] at hs
      subst hs
      cases hp
  | callFunctor calls =>
    obtain ⟨-, functor, functors, hphase⟩ := ha
    simp only [EventLoop.step, hphase, pure_eq_ok, Except.ok.injEq] at hs
    subst hs
    cases hp
  | call =>
    cases hcalls : s.calls with
    | nil => exact absurd hcalls ha.1
    | cons c calls =>
      simp only [EventLoop.step, hcalls, pure_eq_ok, Except.ok.injEq] at hs
      subst hs
      cases c <;> exact h hp
  | wakeup | queneInLoop | quit | wakeupFrom =>
    cases hs
    exact h hp
  | _ =>
    cases hs
    cases hp

/-- The loop has not been asked to quit since it was entered. -/
structure Unasked (s : EventLoop ι φ) : Prop where
  running : s.phase ≠ .returned
  quit : s.phase = .notStarted ∨ s.quit = false

/-- Only a request behind the entry of `loop()` ends the loop. -/
theorem Unasked.step {s s' : EventLoop ι φ} (h : s.Unasked) {a : Label ι φ} (ha : s.Enabled a)
    (hq : ¬ (s.IsQuit a ∧ s.phase ≠ .notStarted)) (hs : s.step a = .ok s') : s'.Unasked := by
  by_cases hreq : s.IsQuit a
  · have hp : s'.phase = .notStarted := by
      rw [(hreq.phase_eq hs).1]
      by_contra hn
      exact hq ⟨hreq, hn⟩
    exact ⟨by simp [hp], .inl hp⟩
  · -- in the loop `quit_` is false, and the step does not set it
    have hrun : s.phase ≠ .notStarted → s.quit = false := h.quit.resolve_left
    cases a with
    | early c =>
      cases c with
      | quit => exact absurd trivial hreq
      | queneInLoop cb =>
        cases hs
        exact ⟨h.running, h.quit⟩
    | enter =>
      obtain ⟨_, -, hs⟩ := bind_eq_ok.mp hs
      cases hs
      exact ⟨by simp, .inr rfl⟩
    | test =>
      have hcond : s.phase = .condition := ha
      have hquit : s.quit = false := hrun (by simp [hcond])
      simp [EventLoop.step, hquit] at hs
      subst hs
      exact ⟨by simp, .inr rfl⟩
    | poll | swap =>
      have hquit : s.quit = false := hrun (by rw [ha]; simp)
      cases hs
      exact ⟨by simp, .inr hquit⟩
    | pollReturn activeChannels =>
      have hquit : s.quit = false := hrun (by rw [ha.1]; simp)
      cases hs
      exact ⟨by simp, .inr hquit⟩
    | endEvents | endFunctors =>
      have hquit : s.quit = false := hrun (by rw [ha.2]; simp)
      cases hs
      exact ⟨by simp, .inr hquit⟩
    | handleEvent calls =>
      obtain ⟨-, channel, channels, hp⟩ := ha
      have hquit : s.quit = false := hrun (by rw [hp]; simp)
      cases channel <;>
      · simp only [EventLoop.step, hp, pure_eq_ok, Except.ok.injEq] at hs
        subst hs
        exact ⟨by simp, .inr hquit⟩
    | callFunctor calls =>
      obtain ⟨-, functor, functors, hp⟩ := ha
      have hquit : s.quit = false := hrun (by rw [hp]; simp)
      simp only [EventLoop.step, hp, pure_eq_ok, Except.ok.injEq] at hs
      subst hs
      exact ⟨by simp, .inr hquit⟩
    | call =>
      cases hcalls : s.calls with
      | nil => exact absurd hcalls ha.1
      | cons c calls =>
        cases c with
        | quit => exact absurd (by simp [IsQuit, hcalls]) hreq
        | queneInLoop cb =>
          simp only [EventLoop.step, hcalls, pure_eq_ok, Except.ok.injEq] at hs
          subst hs
          exact ⟨h.running, h.quit⟩
    | quit i => exact absurd trivial hreq
    | wakeup | queneInLoop | wakeupFrom =>
      cases hs
      exact ⟨h.running, h.quit⟩

/-- The entry of `loop()` forgets a request that came before it, and the loop
begins its first iteration. -/
theorem not_heeded_of_notStarted {s : EventLoop ι φ} (hp : s.phase = .notStarted)
    (hl : s.looping = false) : ¬ s.Heeded := by
  intro h
  have henter : s.step .enter = .ok { s with looping := true, quit := false, phase := .condition } := by
    simp [EventLoop.step, check_pos hl]
  have hsteps := h.safe [.enter, .test] ((steps_cons_ok henter).mpr ⟨hp, rfl, fun _ _ => trivial⟩)
  exact absurd ((steps_cons_ok henter).mp hsteps).2.1 (by simp [NoFurtherIteration])

/-- A step that sets `quit_` is heeded. -/
def QuitHeeded (s : EventLoop ι φ) (a : Label ι φ) (o : Checked (EventLoop ι φ)) : Prop :=
  s.IsQuit a → ∀ s', o = .ok s' → s'.Heeded

/-- The step does not set `quit_` before `loop()` has been entered. -/
def QuitInTime (s : EventLoop ι φ) (a : Label ι φ) : Prop :=
  s.IsQuit a → s.phase ≠ .notStarted

theorem quitHeeded_iff {s : EventLoop ι φ} (h : s.Fresh) {a : Label ι φ} (ha : s.Enabled a) :
    QuitHeeded s a (s.step a) ↔ QuitInTime s a := by
  apply forall_congr'
  intro hq
  obtain ⟨s', hs⟩ := step_ok h ha
  obtain ⟨hphase, hquit⟩ := hq.phase_eq hs
  simp only [hs, Except.ok.injEq, forall_eq']
  constructor
  · intro hheeded hp
    rw [← hphase] at hp
    exact not_heeded_of_notStarted hp (h.step ha hs hp) hheeded
  · intro hp
    exact Quitting.heeded ⟨hphase ▸ hp, hquit⟩

/-- **Quitting.** In every interleaving from the constructor on, each request to
quit ends the loop exactly if it finds `loop()` entered. -/
theorem quits_heeded_iff (steps : List (Label ι φ)) (hsteps : Along step Enabled new steps) :
    Steps step QuitHeeded new steps ↔ Along step QuitInTime new steps := by
  refine steps_iff (I := Fresh) (fun s a h ha => quitHeeded_iff h ha)
    (fun s a s' h ha _ hs => h.step ha hs) (fun _ => rfl) hsteps

/-- Another thread asks a loop inside `poll` to quit. -/
theorem quits_heeded_iff_sample :
    Steps step QuitHeeded (new : EventLoop Unit Nat) [.enter, .test, .poll, .quit ()] := by
  refine (quits_heeded_iff _ ?_).mpr ?_
  · refine (steps_cons_ok rfl).mpr ⟨rfl, ?_⟩
    refine (steps_cons_ok rfl).mpr ⟨rfl, ?_⟩
    refine (steps_cons_ok rfl).mpr ⟨rfl, ?_⟩
    exact ⟨rfl, fun _ _ => trivial⟩
  · refine (steps_cons_ok rfl).mpr ⟨fun hq => absurd hq id, ?_⟩
    refine (steps_cons_ok rfl).mpr ⟨fun hq => absurd hq id, ?_⟩
    refine (steps_cons_ok rfl).mpr ⟨fun hq => absurd hq id, ?_⟩
    exact ⟨fun _ => by simp, fun _ _ => trivial⟩

end EventLoop

end Muduo
