import Muduo.EventLoop

/-!
No functor waits through a blocking `poll`. From the swap of
`doPendingFunctors` on, until the eventfd is read in a later iteration, every
pending functor has a write to the eventfd behind it or ahead of it. Only what
the loop thread queues before `loop()` has none, and may wait through the first
`poll`.
-/

namespace Muduo

open Lib

namespace LoopPhase

variable {φ : Type}

/-- The phases in which `callingPendingFunctors_` is set. -/
def inFunctors : LoopPhase φ → Bool
  | .swapping | .callingFunctors _ => true
  | _ => false

/-- The phases in which callbacks or functors make calls. -/
def runsCalls : LoopPhase φ → Bool
  | .handlingEvents _ | .callingFunctors _ => true
  | _ => false

/-- The phases from which the loop thread comes to `poll` before it reads the
eventfd. -/
def pollAhead : LoopPhase φ → Bool
  | .notStarted | .callingFunctors _ | .condition | .beforePoll => true
  | _ => false

end LoopPhase

namespace EventLoop

variable {ι φ : Type}

/-- The eventfd is readable, or another thread is about to make it so. -/
def WillWake (s : EventLoop ι φ) : Prop := 0 < s.wakeupFd ∨ ∃ i, s.threads i = .queued

/-- Pending functors wake the loop, at the latest by a write that the loop
thread itself is about to make. -/
def Covered (s : EventLoop ι φ) : Prop :=
  s.pendingFunctors ≠ [] → s.waking = true ∨ s.WillWake

/-- The loop thread queues nothing before `loop()`. -/
def QuietStart (steps : List (Label ι φ)) : Prop := ∀ cb, .early (.queneInLoop cb) ∉ steps

/-- What holds between all steps; the first `poll` counts if `quiet` holds. -/
structure Inv (quiet : Prop) (s : EventLoop ι φ) : Prop where
  fresh : s.phase = .notStarted → s.iteration = 0
  calling : s.callingPendingFunctors = s.phase.inFunctors
  ready : s.phase.runsCalls = false → s.Ready
  covered : quiet ∨ 0 < s.iteration → s.phase.pollAhead = true → s.Covered

theorem new_inv (quiet : Prop) : (new : EventLoop ι φ).Inv quiet :=
  ⟨fun _ => rfl, rfl, fun _ => ⟨rfl, rfl⟩, fun _ _ hne => absurd rfl hne⟩

/-! ## Steps -/

theorem wakeup_pos (s : EventLoop ι φ) : 0 < s.wakeup.wakeupFd := by
  have hmax : 0 < wakeupFdMax := by decide
  simp only [wakeup]
  split <;> omega

variable {quiet : Prop}

/-- A step that leaves the loop thread where it is. -/
theorem Inv.stay {s s' : EventLoop ι φ} (h : s.Inv quiet) (hp : s'.phase = s.phase)
    (hi : s'.iteration = s.iteration) (hc : s'.callingPendingFunctors = s.callingPendingFunctors)
    (hr : s.phase.runsCalls = false → s.Ready → s'.Ready) (hcov : s.Covered → s'.Covered) :
    s'.Inv quiet :=
  ⟨fun hn => hi.trans (h.fresh (hp ▸ hn)), by rw [hc, hp, h.calling],
    fun hn => hr (hp ▸ hn) (h.ready (hp ▸ hn)), fun hq hb => hcov (h.covered (hi ▸ hq) (hp ▸ hb))⟩

/-- A call of the running callback or functor. -/
theorem Inv.callInLoop {s : EventLoop ι φ} (h : s.Inv quiet) (hrun : s.phase.runsCalls = true)
    (c : LoopCall φ) : (s.callInLoop c).Inv quiet := by
  cases c with
  | quit => exact h.stay rfl rfl rfl (fun _ hr => hr) id
  | queneInLoop cb =>
    refine ⟨h.fresh, h.calling, fun hn => ?_, fun _ hb _ => .inl ?_⟩
    · simp [EventLoop.callInLoop, hrun] at hn
    · -- behind the swap only functors make calls, and they wake the loop
      have hcalling := h.calling
      change s.callingPendingFunctors = true
      cases hp : s.phase <;>
        simp_all [EventLoop.callInLoop, LoopPhase.runsCalls, LoopPhase.pollAhead, LoopPhase.inFunctors]

variable [DecidableEq ι]

theorem WillWake.setThread {s : EventLoop ι φ} (h : s.WillWake) {i : ι} {p : ThreadPhase}
    (hi : s.threads i = .outside) : (s.setThread i p).WillWake := by
  refine h.imp_right fun ⟨j, hj⟩ => ⟨j, ?_⟩
  have hne : j ≠ i := by
    rintro rfl
    simp [hi] at hj
  simpa [EventLoop.setThread, hne] using hj

/-- Every step of the loop and of the other threads keeps the invariant. -/
theorem step_inv {s s' : EventLoop ι φ} (h : s.Inv quiet) {a : Label ι φ} (ha : s.Enabled a)
    (hq : quiet → ∀ cb, a ≠ .early (.queneInLoop cb)) (hs : s.step a = .ok s') : s'.Inv quiet := by
  cases a with
  | early c =>
    have hp : s.phase = .notStarted := ha
    cases hs
    cases c with
    | quit => exact h.stay rfl rfl rfl (fun _ hr => hr) id
    | queneInLoop cb =>
      have hzero : s.iteration = 0 := h.fresh hp
      have hready : s.Ready := h.ready (by rw [hp]; rfl)
      refine ⟨h.fresh, h.calling, fun _ => ⟨hready.1, ?_⟩, ?_⟩
      · exact h.calling.trans (by rw [hp]; rfl)
      · intro hpoll
        rcases hpoll with hquiet | hpos
        · exact absurd rfl (hq hquiet cb)
        · exact absurd hpos (by simp [callInLoop, hzero])
  | enter =>
    have hp : s.phase = .notStarted := ha
    obtain ⟨_, -, hs⟩ := bind_eq_ok.mp hs
    cases hs
    exact ⟨by simp, by rw [h.calling, hp]; rfl, fun _ => h.ready (by rw [hp]; rfl),
      fun hpoll _ => h.covered hpoll (by rw [hp]; rfl)⟩
  | test =>
    have hcond : s.phase = .condition := ha
    have hready : s.Ready := h.ready (by rw [hcond]; rfl)
    have hcalling : s.callingPendingFunctors = false := by rw [h.calling, hcond]; rfl
    simp only [step, pure_eq_ok, Except.ok.injEq] at hs
    subst hs
    split
    · exact ⟨by simp, hcalling, fun _ => hready, by simp [LoopPhase.pollAhead]⟩
    · exact ⟨by simp, hcalling, fun _ => hready, fun hpoll _ => h.covered hpoll (by rw [hcond]; rfl)⟩
  | poll =>
    have hbefore : s.phase = .beforePoll := ha
    cases hs
    exact ⟨by simp, by rw [h.calling, hbefore]; rfl, fun _ => h.ready (by rw [hbefore]; rfl),
      by simp [LoopPhase.pollAhead]⟩
  | pollReturn activeChannels =>
    cases hs
    exact ⟨by simp, by rw [h.calling, ha.1]; rfl, by simp [LoopPhase.runsCalls],
      by simp [LoopPhase.pollAhead]⟩
  | handleEvent calls =>
    obtain ⟨hready, channel, channels, hp⟩ := ha
    have hcalling : s.callingPendingFunctors = false := by rw [h.calling, hp]; rfl
    cases channel with
    | wakeup =>
      simp only [step, hp, pure_eq_ok, Except.ok.injEq] at hs
      subst hs
      exact ⟨by simp, hcalling, by simp [LoopPhase.runsCalls], by simp [LoopPhase.pollAhead]⟩
    | other =>
      simp only [step, hp, pure_eq_ok, Except.ok.injEq] at hs
      subst hs
      exact ⟨by simp, hcalling, by simp [LoopPhase.runsCalls], by simp [LoopPhase.pollAhead]⟩
  | endEvents =>
    cases hs
    exact ⟨by simp, rfl, fun _ => ha.1, by simp [LoopPhase.pollAhead]⟩
  | swap =>
    have hp : s.phase = .swapping := ha
    cases hs
    exact ⟨by simp, by rw [h.calling, hp]; rfl, by simp [LoopPhase.runsCalls],
      fun _ _ hne => absurd rfl hne⟩
  | callFunctor calls =>
    obtain ⟨hready, functor, functors, hp⟩ := ha
    simp only [step, hp, pure_eq_ok, Except.ok.injEq] at hs
    subst hs
    exact ⟨by simp, by rw [h.calling, hp]; rfl, by simp [LoopPhase.runsCalls],
      fun hpoll _ => h.covered hpoll (by rw [hp]; rfl)⟩
  | endFunctors =>
    cases hs
    exact ⟨by simp, rfl, fun _ => ha.1, fun hpoll _ => h.covered hpoll (by rw [ha.2]; rfl)⟩
  | call =>
    obtain ⟨hne, hwaking⟩ := ha
    have hrun : s.phase.runsCalls = true := by
      by_contra hn
      exact hne (h.ready (by simpa using hn)).1
    cases hcalls : s.calls with
    | nil => exact absurd hcalls hne
    | cons c calls =>
      simp only [step, hcalls, pure_eq_ok, Except.ok.injEq] at hs
      subst hs
      have hinv : Inv quiet { s with calls } :=
        h.stay rfl rfl rfl (fun hn => by simp [hrun] at hn) id
      exact hinv.callInLoop hrun c
  | wakeup =>
    cases hs
    refine h.stay rfl rfl rfl ?_ fun _ _ => .inr (.inl s.wakeup_pos)
    intro hn hr
    simp [Enabled, hr.2] at ha
  | queneInLoop i cb =>
    cases hs
    exact h.stay rfl rfl rfl (fun _ hr => hr)
      fun _ _ => .inr (.inr ⟨i, Function.update_self _ _ _⟩)
  | quit i =>
    cases hs
    refine h.stay rfl rfl rfl (fun _ hr => hr) fun hcov hne => (hcov hne).imp_right fun hw => ?_
    exact WillWake.setThread (s := { s with quit := true }) hw ha
  | wakeupFrom i =>
    cases hs
    exact h.stay rfl rfl rfl (fun _ hr => hr) fun _ _ => .inr (.inl s.wakeup_pos)

/-! ## Runs -/

/-- When the loop thread enters `poll` with functors pending, the eventfd is
readable or another thread is between its push and its write. For the first
`poll` this is asked only if `quiet` holds. -/
def WakesPoll (quiet : Prop) (s : EventLoop ι φ) (a : Label ι φ) (_ : Checked (EventLoop ι φ)) :
    Prop :=
  match a with
  | .poll => quiet ∨ 0 < s.iteration → s.pendingFunctors ≠ [] → s.WillWake
  | _ => True

/-- **No lost wakeup.** In every interleaving from the constructor on, the loop
thread enters `poll` with pending functors only if it will be woken. This
includes the first time, unless it has queued one itself before `loop()`. -/
theorem no_lost_wakeup (steps : List (Label ι φ)) (hsteps : Along step Enabled new steps) :
    Steps step (WakesPoll (QuietStart steps)) new steps := by
  have hquiet : Along step (fun (_ : EventLoop ι φ) a => QuietStart steps →
      ∀ cb, a ≠ .early (.queneInLoop cb)) new steps :=
    Steps.of_forall fun a ha hq cb heq => hq cb (heq ▸ ha)
  refine Steps.of_invariant (I := Inv (QuietStart steps))
    (E := fun s a => s.Enabled a ∧ (QuietStart steps → ∀ cb, a ≠ .early (.queneInLoop cb)))
    (fun s a h ha => ?_) (fun s a s' h ha hs => step_inv h ha.1 ha.2 hs) (new_inv _)
    (hsteps.and hquiet)
  cases a with
  | poll =>
    have hp : s.phase = .beforePoll := ha.1
    intro hpoll hne
    have hready : s.Ready := h.ready (by rw [hp]; rfl)
    exact (h.covered hpoll (by rw [hp]; rfl) hne).resolve_left (by simp [hready.2])
  | _ => trivial

/-- Another thread queues a functor, which queues another one; the loop thread
comes to its second `poll` with that one pending. -/
def requeue : List (Label Unit Nat) :=
  [.enter, .test, .poll, .queneInLoop () 1, .wakeupFrom (), .pollReturn [.wakeup],
   .handleEvent [], .endEvents, .swap, .callFunctor [.queneInLoop 2], .call, .wakeup,
   .endFunctors, .test, .poll]

theorem requeue_enabled : Along step Enabled new requeue := by
  refine (steps_cons_ok rfl).mpr ⟨rfl, ?_⟩
  refine (steps_cons_ok rfl).mpr ⟨rfl, ?_⟩
  refine (steps_cons_ok rfl).mpr ⟨rfl, ?_⟩
  refine (steps_cons_ok rfl).mpr ⟨rfl, ?_⟩
  refine (steps_cons_ok rfl).mpr ⟨by simp [Enabled, setThread], ?_⟩
  refine (steps_cons_ok rfl).mpr ⟨⟨rfl, fun _ => by decide⟩, ?_⟩
  refine (steps_cons_ok rfl).mpr ⟨⟨⟨rfl, rfl⟩, _, _, rfl⟩, ?_⟩
  refine (steps_cons_ok rfl).mpr ⟨⟨⟨rfl, rfl⟩, rfl⟩, ?_⟩
  refine (steps_cons_ok rfl).mpr ⟨rfl, ?_⟩
  refine (steps_cons_ok rfl).mpr ⟨⟨⟨rfl, rfl⟩, _, _, rfl⟩, ?_⟩
  refine (steps_cons_ok rfl).mpr ⟨⟨by simp, rfl⟩, ?_⟩
  refine (steps_cons_ok rfl).mpr ⟨rfl, ?_⟩
  refine (steps_cons_ok rfl).mpr ⟨⟨⟨rfl, rfl⟩, rfl⟩, ?_⟩
  refine (steps_cons_ok rfl).mpr ⟨rfl, ?_⟩
  exact ⟨rfl, fun _ _ => trivial⟩

theorem no_lost_wakeup_sample :
    let steps : List (Label Unit Nat) :=
      [.enter, .test, .poll, .queneInLoop () 1, .wakeupFrom (), .pollReturn [.wakeup],
       .handleEvent [], .endEvents, .swap, .callFunctor [.queneInLoop 2], .call, .wakeup,
       .endFunctors, .test, .poll]
    Steps step (WakesPoll (QuietStart steps)) new steps :=
  no_lost_wakeup _ requeue_enabled

end EventLoop

end Muduo
