import Muduo.EventLoopFunctors

/-!
The rounds of the loop. While the loop thread takes step after step, it comes to
`poll` again and again until `loop()` returns, and `doPendingFunctors` runs once
a round. So what is in the queue does not stay there: it is executed in the
batches that are the next ones now.

* `roundsLeft`: what is to be done until so many rounds have begun;
* `pending_functors_run`: every functor in the queue is executed, or `loop()`
  returns.
-/

namespace Muduo

open Lib

/-- How far the phase is from the return of `poll`, and how much is left to do
in it. -/
def LoopPhase.untilPoll {φ : Type} : LoopPhase φ → ℕ × ℕ
  | .returned | .polling => (0, 0)
  | .beforePoll => (1, 0)
  | .condition => (2, 0)
  | .callingFunctors functors => (3, functors.length)
  | .swapping => (4, 0)
  | .handlingEvents channels => (5, channels.length)
  | .notStarted => (6, 0)

namespace EventLoop

variable {ι φ : Type}

/-- What is to be done until `iteration_` is `k`. -/
def roundsLeft (k : ℕ) (s : EventLoop ι φ) : ℕ ×ₗ ℕ ×ₗ ℕ ×ₗ ℕ :=
  toLex (k - s.iteration, toLex (s.phase.untilPoll.1,
    toLex (s.phase.untilPoll.2, 2 * s.calls.length + s.waking.toNat)))

theorem roundsLeft_lt_of_iteration {s s' : EventLoop ι φ} {k : ℕ} (hk : s.iteration < k)
    (h : s'.iteration = s.iteration + 1) : s'.roundsLeft k < s.roundsLeft k := by
  apply Prod.Lex.toLex_lt_toLex.mpr
  left
  show k - s'.iteration < k - s.iteration
  omega

/-- Within a round. -/
theorem roundsLeft_lt {s s' : EventLoop ι φ} {k : ℕ} (hi : s'.iteration = s.iteration)
    (h : s'.phase.untilPoll.1 < s.phase.untilPoll.1 ∨
      s'.phase.untilPoll.1 = s.phase.untilPoll.1 ∧ s'.phase.untilPoll.2 < s.phase.untilPoll.2 ∨
      s'.phase = s.phase ∧
        2 * s'.calls.length + s'.waking.toNat < 2 * s.calls.length + s.waking.toNat) :
    s'.roundsLeft k < s.roundsLeft k := by
  unfold roundsLeft
  rw [hi]
  rcases h with hphase | ⟨hphase, hlen⟩ | ⟨hphase, hcalls⟩
  · exact Prod.Lex.toLex_lt_toLex.mpr (.inr ⟨rfl, Prod.Lex.toLex_lt_toLex.mpr (.inl hphase)⟩)
  · exact Prod.Lex.toLex_lt_toLex.mpr (.inr ⟨rfl, Prod.Lex.toLex_lt_toLex.mpr
      (.inr ⟨hphase, Prod.Lex.toLex_lt_toLex.mpr (.inl hlen)⟩)⟩)
  · rw [hphase]
    exact Prod.Lex.toLex_lt_toLex.mpr (.inr ⟨rfl, Prod.Lex.toLex_lt_toLex.mpr
      (.inr ⟨rfl, Prod.Lex.toLex_lt_toLex.mpr (.inr ⟨rfl, hcalls⟩)⟩)⟩)

/-- What waits is for the batch that runs or the next one. -/
theorem mem_waiting_snd {s : EventLoop ι φ} {p : φ × ℕ} (hp : p ∈ s.waiting) :
    s.iteration ≤ p.2 ∧ p.2 ≤ s.iteration + 1 := by
  rcases List.mem_append.mp hp with hbatch | hpending
  · obtain ⟨cb, -, rfl⟩ := List.mem_map.mp hbatch
    exact ⟨Nat.le_refl _, Nat.le_succ _⟩
  · obtain ⟨cb, -, rfl⟩ := List.mem_map.mp hpending
    unfold nextBatch
    split <;> omega

variable [DecidableEq ι]

/-- In the loop, the loop thread comes closer to the round `k`, and no other
thread leads it away. -/
theorem step_roundsLeft {s s' : EventLoop ι φ} (k : ℕ) (h : s.phase ≠ .notStarted)
    {a : Label ι φ} (ha : s.Enabled a) (hs : s.step a = .ok s') :
    s'.phase ≠ .notStarted ∧
      (a.OfLoop → s.iteration < k → s'.roundsLeft k < s.roundsLeft k) ∧
      (¬ a.OfLoop → s'.roundsLeft k = s.roundsLeft k) := by
  have hloop : a.OfLoop → s'.phase ≠ .notStarted → s'.roundsLeft k < s.roundsLeft k →
      s'.phase ≠ .notStarted ∧
        (a.OfLoop → s.iteration < k → s'.roundsLeft k < s.roundsLeft k) ∧
        (¬ a.OfLoop → s'.roundsLeft k = s.roundsLeft k) :=
    fun hof hphase hlt => ⟨hphase, fun _ _ => hlt, fun hn => absurd hof hn⟩
  cases a with
  | early c => exact absurd ha h
  | enter => exact absurd ha h
  | test =>
    have hp : s.phase = .condition := ha
    simp only [step, pure_eq_ok, Except.ok.injEq] at hs
    subst hs
    split
    · exact ⟨by simp, fun _ _ => roundsLeft_lt rfl (.inl (by simp [hp, LoopPhase.untilPoll])),
        fun hn => absurd trivial hn⟩
    · exact ⟨by simp, fun _ _ => roundsLeft_lt rfl (.inl (by simp [hp, LoopPhase.untilPoll])),
        fun hn => absurd trivial hn⟩
  | poll =>
    have hp : s.phase = .beforePoll := ha
    cases hs
    exact hloop trivial (by simp) (roundsLeft_lt rfl (.inl (by simp [hp, LoopPhase.untilPoll])))
  | pollReturn activeChannels =>
    -- the next round begins
    cases hs
    exact ⟨by simp, fun _ hk => roundsLeft_lt_of_iteration hk rfl, fun hn => absurd trivial hn⟩
  | handleEvent calls =>
    obtain ⟨-, channel, channels, hp⟩ := ha
    cases channel <;>
    · simp only [step, hp, pure_eq_ok, Except.ok.injEq] at hs
      subst hs
      exact hloop trivial (by simp)
        (roundsLeft_lt rfl (.inr (.inl (by simp [hp, LoopPhase.untilPoll]))))
  | endEvents =>
    cases hs
    exact hloop trivial (by simp) (roundsLeft_lt rfl (.inl (by simp [ha.2, LoopPhase.untilPoll])))
  | swap =>
    have hp : s.phase = .swapping := ha
    cases hs
    exact hloop trivial (by simp) (roundsLeft_lt rfl (.inl (by simp [hp, LoopPhase.untilPoll])))
  | callFunctor calls =>
    obtain ⟨-, functor, functors, hp⟩ := ha
    simp only [step, hp, pure_eq_ok, Except.ok.injEq] at hs
    subst hs
    exact hloop trivial (by simp)
      (roundsLeft_lt rfl (.inr (.inl (by simp [hp, LoopPhase.untilPoll]))))
  | endFunctors =>
    cases hs
    exact hloop trivial (by simp) (roundsLeft_lt rfl (.inl (by simp [ha.2, LoopPhase.untilPoll])))
  | call =>
    obtain ⟨hne, hwaking⟩ := ha
    cases hcalls : s.calls with
    | nil => exact absurd hcalls hne
    | cons c calls =>
      simp only [step, hcalls, pure_eq_ok, Except.ok.injEq] at hs
      subst hs
      cases c with
      | queneInLoop cb =>
        -- a write to the eventfd may still come, but it counts less than a call
        have hle := Bool.toNat_le s.callingPendingFunctors
        have hless : 2 * calls.length + s.callingPendingFunctors.toNat <
            2 * s.calls.length + s.waking.toNat := by
          simp only [hcalls, hwaking, List.length_cons, Bool.toNat_false]
          omega
        exact hloop trivial h (roundsLeft_lt rfl (.inr (.inr ⟨rfl, hless⟩)))
      | quit =>
        have hless : 2 * calls.length + s.waking.toNat < 2 * s.calls.length + s.waking.toNat := by
          simp [hcalls]
        exact hloop trivial h (roundsLeft_lt rfl (.inr (.inr ⟨rfl, hless⟩)))
  | wakeup =>
    have hwaking : s.waking = true := ha
    cases hs
    refine hloop trivial h (roundsLeft_lt rfl (.inr (.inr ⟨rfl, ?_⟩)))
    simp [EventLoop.wakeup, hwaking]
  | queneInLoop | quit | wakeupFrom =>
    cases hs
    exact ⟨h, fun hof => absurd hof id, fun _ => rfl⟩

/-- **Rounds.** The loop comes to every round, or it returns. -/
theorem FairExecution.rounds {s : ℕ → EventLoop ι φ} {a : ℕ → Label ι φ} (h : FairExecution s a)
    (hstarted : (s 0).phase ≠ .notStarted) (k : ℕ) :
    ∃ n, (s n).phase = .returned ∨ k ≤ (s n).iteration := by
  have hall : ∀ n, (s n).phase ≠ .notStarted := by
    intro n
    induction n with
    | zero => exact hstarted
    | succ n ih => exact (step_roundsLeft k ih (h.enabled n) (h.next n)).1
  apply eventually_of_fair (roundsLeft k) (fun s => s.phase = .returned ∨ k ≤ s.iteration)
    (fun n => (a n).OfLoop)
  · intro n hgoal
    exact h.fair n fun hret => hgoal (.inl hret)
  · intro n hgoal hof
    have hk : (s n).iteration < k := Nat.lt_of_not_le fun hk => hgoal (.inr hk)
    exact (step_roundsLeft k (hall n) (h.enabled n) (h.next n)).2.1 hof hk
  · intro n _ hof
    exact ((step_roundsLeft k (hall n) (h.enabled n) (h.next n)).2.2 hof).le

/-- What follows in a fair execution is fair. -/
theorem FairExecution.drop {s : ℕ → EventLoop ι φ} {a : ℕ → Label ι φ} (h : FairExecution s a)
    (n : ℕ) : FairExecution (fun k => s (n + k)) (fun k => a (n + k)) where
  enabled k := h.enabled (n + k)
  next k := h.next (n + k)
  fair k hk := by
    obtain ⟨m, hm, hof⟩ := h.fair (n + k) hk
    refine ⟨m - n, by omega, ?_⟩
    rwa [Nat.add_sub_cancel' (by omega)]

/-- **Every functor runs.** At any moment of a fair execution, once `loop()` has
been entered: all that is in the queue will be executed, in this order, the rest
of the running batch in it and `pendingFunctors_` in the next one; or `loop()`
returns. -/
theorem pending_functors_run {s : ℕ → EventLoop ι φ} {a : ℕ → Label ι φ}
    (h : FairExecution s a) (n : ℕ) (hstarted : (s n).phase ≠ .notStarted) :
    ∃ k, (s (n + k)).phase = .returned ∨
      (s n).waiting <+: yields step executed (s n) ((List.range k).map fun j => a (n + j)) := by
  have hdrop := h.drop n
  obtain ⟨k, hk⟩ := hdrop.rounds hstarted ((s n).iteration + 2)
  refine ⟨k, hk.imp_right fun hrounds => ?_⟩
  have hrun : Run step (s n) ((List.range k).map fun j => a (n + j)) (s (n + k)) :=
    Run.of_execution hdrop.next k
  have henabled : Along step Enabled (s n) ((List.range k).map fun j => a (n + j)) :=
    Steps.of_execution hdrop.next hdrop.enabled k
  have hall := hrun.conserved (I := fun _ => True) henabled trivial
    (fun _ _ _ _ _ _ => trivial) fun u b u' _ hb hu => step_waiting hb hu
  apply prefix_of_gone hall
  -- two rounds later only later batches wait
  intro p hbefore hafter
  have hle := (mem_waiting_snd hbefore).2
  have hge := (mem_waiting_snd hafter).1
  omega

/-! ## The loop thread alone -/

/-- The next step of a loop without events, whose functors make no calls. -/
def quietStep (s : EventLoop Unit ℕ) : Label Unit ℕ :=
  match s.phase with
  | .notStarted | .returned => .enter
  | .condition => .test
  | .beforePoll => .poll
  | .polling => .pollReturn []
  | .handlingEvents _ => .endEvents
  | .swapping => .swap
  | .callingFunctors [] => .endFunctors
  | .callingFunctors (_ :: _) => .callFunctor []

structure Quiet (s : EventLoop Unit ℕ) : Prop where
  ready : s.Ready
  quit : s.quit = false
  started : s.phase ≠ .notStarted
  running : s.phase ≠ .returned
  events : ∀ channels, s.phase = .handlingEvents channels → channels = []

theorem Quiet.step {s : EventLoop Unit ℕ} (h : s.Quiet) :
    s.Enabled s.quietStep ∧ (s.quietStep).OfLoop ∧
      ∃ s', s.step s.quietStep = .ok s' ∧ s'.Quiet := by
  have hkeep : ∀ {t : EventLoop Unit ℕ}, t.Ready → t.quit = false →
      (t.phase ≠ .notStarted ∧ t.phase ≠ .returned ∧
        ∀ channels, t.phase = .handlingEvents channels → channels = []) → t.Quiet :=
    fun hready hquit hphase => ⟨hready, hquit, hphase.1, hphase.2.1, hphase.2.2⟩
  unfold quietStep
  cases hp : s.phase with
  | notStarted => exact absurd hp h.started
  | returned => exact absurd hp h.running
  | condition =>
    refine ⟨hp, trivial, { s with phase := .beforePoll }, ?_, hkeep h.ready h.quit (by simp)⟩
    simp [EventLoop.step, h.quit]
  | beforePoll => exact ⟨hp, trivial, _, rfl, hkeep h.ready h.quit (by simp)⟩
  | polling => exact ⟨⟨hp, by simp⟩, trivial, _, rfl, hkeep h.ready h.quit (by simp)⟩
  | handlingEvents channels =>
    obtain rfl := h.events channels hp
    exact ⟨⟨h.ready, hp⟩, trivial, _, rfl, hkeep h.ready h.quit (by simp)⟩
  | swapping => exact ⟨hp, trivial, _, rfl, hkeep h.ready h.quit (by simp)⟩
  | callingFunctors functors =>
    cases functors with
    | nil => exact ⟨⟨h.ready, hp⟩, trivial, _, rfl, hkeep h.ready h.quit (by simp)⟩
    | cons cb functors =>
      refine ⟨⟨h.ready, cb, functors, hp⟩, trivial,
        { s with phase := .callingFunctors functors, calls := [] }, ?_,
        hkeep ⟨rfl, h.ready.2⟩ h.quit (by simp)⟩
      simp [EventLoop.step, hp]

/-- In `poll`, a functor has been queued by another thread, which has also
written to the eventfd. From there on nothing more comes. -/
def alone : ℕ → EventLoop Unit ℕ
  | 0 => { (new : EventLoop Unit ℕ) with
      looping := true, phase := .polling, pendingFunctors := [7], wakeupFd := 1 }
  | n + 1 =>
    match (alone n).step (alone n).quietStep with
    | .ok s => s
    | .error _ => alone n

theorem alone_quiet (n : ℕ) : (alone n).Quiet := by
  induction n with
  | zero => exact ⟨⟨rfl, rfl⟩, rfl, by simp [alone], by simp [alone], by simp [alone]⟩
  | succ n ih =>
    obtain ⟨-, -, s', hs, hquiet⟩ := ih.step
    simpa [alone, hs] using hquiet

theorem alone_fair : FairExecution alone fun n => (alone n).quietStep where
  enabled n := (alone_quiet n).step.1
  next n := by
    obtain ⟨-, -, s', hs, -⟩ := (alone_quiet n).step
    simp [alone, hs]
  fair n _ := ⟨n, Nat.le_refl n, (alone_quiet n).step.2.1⟩

theorem pending_functors_run_alone :
    ∃ k, (alone (0 + k)).phase = .returned ∨
      [(7, 1)] <+: yields step executed (alone 0)
        ((List.range k).map fun j => (alone (0 + j)).quietStep) :=
  pending_functors_run alone_fair 0 (by simp [alone])

end EventLoop

end Muduo
