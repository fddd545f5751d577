import Muduo.Channel
import Muduo.EventLoop
import Muduo.PendingTimers

/-!
An `EventLoop` with what it owns: the channel of its eventfd, its `TimerQueue`
with the channel of the timerfd, and the poller. The loop and the threads take
the steps of `EventLoop`, the loop thread those of `TimerLoop` between them, and
the destructors run when `loop()` has returned.

* `dtorBody_spec`: the body of `~EventLoop` sees to the eventfd;
* `never_released`: the rest is left to `~TimerQueue`, which does nothing.
-/

namespace Muduo

open Lib

/-- The descriptors that an `EventLoop` opens. -/
inductive LoopFd where
  | epollfd
  | timerfd
  | wakeupFd
  deriving DecidableEq, Repr

structure LoopObject (ι φ : Type) where
  loop : EventLoop ι φ
  timers : TimerLoop
  timerfdChannel : Channel
  wakeupChannel : Channel
  /-- one entry a `close(2)` -/
  closed : List LoopFd

/-- `handleRead` of the `TimerQueue` is not running. -/
def PassPhase.isIdle : PassPhase → Bool
  | .idle => true
  | _ => false

namespace LoopObject

open TimerLoop (halfSecond)

variable {ι φ : Type}

/-- The constructor. -/
def new : Checked (LoopObject ι φ) := do
  -- `TimerQueue::TimerQueue`
  let timerfdChannel ← Channel.new.enableReading
  let wakeupChannel ← Channel.new.enableReading
  return ⟨.new, .new, timerfdChannel, wakeupChannel, []⟩

inductive Label (ι φ : Type) where
  | loop (a : EventLoop.Label ι φ)
  | timers (m : TimerMove)

/-- A pass is one callback of an active channel; timers are added and cancelled
by whatever runs in the loop thread, before, in and behind `loop()`. -/
def Enabled (s : LoopObject ι φ) : Label ι φ → Prop
  | .loop a => s.loop.Enabled a ∧ match a with
    | .handleEvent _ | .endEvents => s.timers.phase.isIdle = true
    | _ => True
  | .timers m => s.timers.Enabled m ∧ match m with
    | .beginPass _ => ∃ channels, s.loop.phase = .handlingEvents channels
    | _ => True

def step [DecidableEq ι] (s : LoopObject ι φ) : Label ι φ → Checked (LoopObject ι φ)
  | .loop a => do
    let loop ← s.loop.step a
    return { s with loop }
  | .timers m => do
    let timers ← s.timers.step m
    -- `handleEventWithGuard` of the channel is around the pass
    let timerfdChannel := { s.timerfdChannel with eventHandling := !timers.phase.isIdle }
    return { s with timers, timerfdChannel }

/-! ## The destructors -/

/-- `~EventLoop`. -/
def dtorBody (s : LoopObject ι φ) : Checked (LoopObject ι φ) := do
  let wakeupChannel ← s.wakeupChannel.disableAll
  let wakeupChannel ← wakeupChannel.remove
  return { s with wakeupChannel, closed := s.closed ++ [.wakeupFd] }

/-- `~TimerQueue`, whose body is empty, with its sets, which hold plain
pointers. -/
def timerQueueDtor (s : LoopObject ι φ) : LoopObject ι φ :=
  let queue := { s.timers.queue with cancelingTimers := ∅, activeTimers := ∅, timers := ∅ }
  { s with timers := { s.timers with queue } }

/-- The destructor with the members, which go in the reverse of their order. -/
def dtor (s : LoopObject ι φ) : Checked (LoopObject ι φ) := do
  let s ← s.dtorBody
  s.wakeupChannel.dtor
  let s := s.timerQueueDtor
  s.timerfdChannel.dtor
  -- `~Epoller`
  return { s with closed := s.closed ++ [.epollfd] }

/-- The destructor runs to its end; the channels are not in the poller, every
timer has been deleted once, and both descriptors have been closed once. -/
def Released (s : LoopObject ι φ) : Prop :=
  ∃ s', s.dtor = .ok s' ∧ s'.wakeupChannel.mapped = false ∧ s'.timerfdChannel.mapped = false ∧
    (∀ x ∈ s.timers.added, s'.timers.deleted.count x = 1) ∧
    s'.closed.count .wakeupFd = 1 ∧ s'.closed.count .timerfd = 1

/-- What the run of a loop leaves alone. -/
structure Inv (s : LoopObject ι φ) : Prop where
  wakeup : s.wakeupChannel.Coherent
  wakeupKnown : s.wakeupChannel.index ≠ .kNew
  wakeupHandling : s.wakeupChannel.eventHandling = false
  timerfd : s.timerfdChannel.addedToLoop = true
  closed : s.closed = []

/-- Both channels behind `enableReading`. -/
def listening : Channel := ⟨Events.kReadEvent, .kAdded, false, true, true, some Events.kReadEvent⟩

theorem new_ok : (new : Checked (LoopObject ι φ)) = .ok ⟨.new, .new, listening, listening, []⟩ := rfl

theorem new_inv {s : LoopObject ι φ} (h : new = .ok s) : s.Inv := by
  cases h.symm.trans new_ok
  have hcoherent : listening.Coherent := ⟨by decide, by decide⟩
  have hknown : listening.index ≠ .kNew := by decide
  exact ⟨hcoherent, hknown, rfl, rfl, rfl⟩

/-- The body removes the channel of the eventfd and closes the eventfd. -/
theorem dtorBody_spec {s : LoopObject ι φ} (h : s.Inv) :
    ∃ s', s.dtorBody = .ok s' ∧ s'.wakeupChannel.mapped = false ∧ s'.wakeupChannel.dtor = .ok () ∧
      s'.closed = [.wakeupFd] ∧ s'.timers = s.timers ∧ s'.timerfdChannel = s.timerfdChannel := by
  obtain ⟨ch, hch, hup⟩ := Channel.update_spec h.wakeup Events.kNoneEvent
  obtain ⟨ch', hch', hcoh, -, hidx, hhand⟩ := Channel.remove_spec hup.coherent hup.events hup.known
  have hmapped : ch'.mapped = false := by
    by_contra hm
    exact hcoh.mapped_iff.mp (by simpa using hm) hidx
  have hadded : ch'.addedToLoop = false := by
    by_contra hm
    exact hcoh.added_iff.mp (by simpa using hm) hidx
  have hhandling : ch'.eventHandling = false := by
    rw [hhand, hup.eventHandling, h.wakeupHandling]
  refine ⟨{ s with wakeupChannel := ch', closed := s.closed ++ [.wakeupFd] }, ?_, hmapped, ?_, ?_,
    rfl, rfl⟩
  · simp only [dtorBody, Channel.disableAll, hch, hch', ok_bind, pure_eq_ok]
  · simp [Channel.dtor, hhandling, hadded, check_pos]
  · simp [h.closed]

/-- The channel of the timerfd is in the poller to the end. -/
theorem dtor_fails {s : LoopObject ι φ} (h : s.Inv) : s.dtor = .error .channelDtor := by
  obtain ⟨s', hs', -, hdtor, -, -, htimerfd⟩ := dtorBody_spec h
  have hfails : s'.timerQueueDtor.timerfdChannel.dtor = .error .channelDtor := by
    rw [timerQueueDtor, htimerfd, Channel.dtor]
    by_cases hhandling : s.timerfdChannel.eventHandling = false
    · rw [check_pos hhandling, ok_bind, check_neg (by simp [h.timerfd])]
    · rw [check_neg hhandling, error_bind]
  simp only [dtor, hs', hdtor, hfails, ok_bind, error_bind]

/-! ## Histories -/

/-- A pass is over before the loop goes on. -/
structure Timed (s : LoopObject ι φ) : Prop where
  timers : s.timers.Inv
  pass : s.timers.phase.isIdle = true ∨ ∃ channels, s.loop.phase = .handlingEvents channels

theorem new_timed {s : LoopObject ι φ} (h : new = .ok s) : s.Timed := by
  obtain ⟨timerfdChannel, -, h⟩ := bind_eq_ok.mp h
  obtain ⟨wakeupChannel, -, h⟩ := bind_eq_ok.mp h
  cases h
  exact ⟨TimerLoop.new_inv, .inl rfl⟩

variable [DecidableEq ι]

theorem Inv.step {s s' : LoopObject ι φ} (h : s.Inv) {a : Label ι φ} (hs : s.step a = .ok s') :
    s'.Inv := by
  cases a with
  | loop a =>
    obtain ⟨loop, -, hs⟩ := bind_eq_ok.mp hs
    cases hs
    exact ⟨h.wakeup, h.wakeupKnown, h.wakeupHandling, h.timerfd, h.closed⟩
  | timers m =>
    obtain ⟨timers, -, hs⟩ := bind_eq_ok.mp hs
    cases hs
    exact ⟨h.wakeup, h.wakeupKnown, h.wakeupHandling, h.timerfd, h.closed⟩

theorem reachable_inv {s₀ s : LoopObject ι φ} (hnew : new = .ok s₀) {steps : List (Label ι φ)}
    (hrun : Run step s₀ steps s) : s.Inv :=
  hrun.invariant (E := fun _ _ => True) (Steps.of_forall fun _ _ => trivial) (new_inv hnew)
    fun _ _ _ h _ hs => h.step hs

/-- From `handlingEvents` the loop goes on by `endEvents` only. -/
theorem handlingEvents_step {s s' : EventLoop ι φ} {a : EventLoop.Label ι φ} (ha : s.Enabled a)
    (hs : s.step a = .ok s') {channels : List ActiveChannel}
    (hp : s.phase = .handlingEvents channels) :
    a = .endEvents ∨ ∃ channels', s'.phase = .handlingEvents channels' := by
  cases a with
  | endEvents => exact .inl rfl
  | early | enter | test | poll | pollReturn | swap | callFunctor | endFunctors =>
    simp [EventLoop.Enabled, hp] at ha
  | handleEvent calls =>
    right
    obtain ⟨-, channel, rest, hp'⟩ := ha
    cases channel with
    | wakeup =>
      simp only [EventLoop.step, hp', pure_eq_ok, Except.ok.injEq] at hs
      exact ⟨rest, by rw [← hs]⟩
    | other =>
      simp only [EventLoop.step, hp', pure_eq_ok, Except.ok.injEq] at hs
      exact ⟨rest, by rw [← hs]⟩
  | call =>
    right
    simp only [EventLoop.step] at hs
    split at hs
    · cases hs
      exact ⟨channels, hp⟩
    · rename_i c calls _
      cases hs
      cases c <;> exact ⟨channels, hp⟩
  | wakeup | queneInLoop | quit | wakeupFrom =>
    cases hs
    exact .inr ⟨channels, hp⟩

theorem Timed.step {s s' : LoopObject ι φ} (h : s.Timed) {a : Label ι φ} (ha : s.Enabled a)
    (hs : s.step a = .ok s') : s'.Timed := by
  cases a with
  | loop a =>
    obtain ⟨loop, hloop, hs⟩ := bind_eq_ok.mp hs
    cases hs
    refine ⟨h.timers, ?_⟩
    rcases h.pass with hidle | ⟨channels, hp⟩
    · exact .inl hidle
    · rcases handlingEvents_step ha.1 hloop hp with rfl | hp'
      · exact .inl ha.2
      · exact .inr hp'
  | timers m =>
    obtain ⟨timers, htimers, hs⟩ := bind_eq_ok.mp hs
    cases hs
    have hm := TimerLoop.moves_of_step h.timers ha.1 htimers
    refine ⟨TimerLoop.step_inv h.timers hm, ?_⟩
    rcases h.pass with hidle | hp
    swap
    · exact .inr hp
    cases hm with
    | added | canceled | remembered | ignored => exact .inl hidle
    | begun => exact .inr ha.2
    | endedPass => exact .inl rfl
    | ran hp | endedCalls hp | restarted _ hp | deleted _ hp => simp [PassPhase.isIdle, hp] at hidle

/-- A timer that is still there when the loop is destroyed is not deleted: this
goes for every timer that waits, and for no other. -/
theorem pending_not_deleted {s₀ s : LoopObject ι φ} (hnew : new = .ok s₀)
    {steps : List (Label ι φ)} (hrun : Run step s₀ steps s) (hsteps : Along step Enabled s₀ steps)
    (hreturned : s.loop.phase = .returned) {x : ActiveTimer} :
    x ∈ s.timers.added ∧ x ∉ s.timerQueueDtor.timers.deleted ↔ x ∈ s.timers.queue.activeTimers := by
  have ht : s.Timed :=
    hrun.invariant hsteps (new_timed hnew) fun _ _ _ h ha hs => h.step ha hs
  have hidle : s.timers.phase = .idle := by
    rcases ht.pass with hidle | ⟨channels, hp⟩
    · cases hp : s.timers.phase <;> first | rfl | simp [PassPhase.isIdle, hp] at hidle
    · cases hreturned.symm.trans hp
  have halive : s.timers.queue.Alive x ↔ x ∈ s.timers.added ∧ x ∉ s.timers.deleted :=
    ht.timers.ledger.alive_iff x
  calc
    _ ↔ s.timers.queue.Alive x := halive.symm
    _ ↔ x ∈ s.timers.queue.activeTimers := by
      rw [ht.timers.coherent.mem_active]
      refine exists_congr fun t => ⟨fun hx => ⟨hx, ?_⟩, fun hx => hx.1⟩
      have hhome := ht.timers.home x.timer t (TimerQueue.lookup_eq_some.mp hx).1
      simpa [TimerLoop.batch, hidle] using hhome

/-- **Teardown.** Whatever the history of a loop, its destruction does not
release everything. -/
theorem never_released {s₀ s : LoopObject ι φ} (hnew : new = .ok s₀) {steps : List (Label ι φ)}
    (hrun : Run step s₀ steps s) : ¬ s.Released := by
  rintro ⟨s', hs', -⟩
  rw [dtor_fails (reachable_inv hnew hrun)] at hs'
  cases hs'

theorem never_released_sample :
    ∃ s : LoopObject Unit Nat,
      Run step ⟨.new, .new, listening, listening, []⟩ [.loop .enter, .loop (.quit ()), .loop .test] s ∧
      s.loop.phase = .returned ∧ ¬ s.Released := by
  have hrun := run_iff_foldlM.mpr (rfl : List.foldlM step
    (⟨.new, .new, listening, listening, []⟩ : LoopObject Unit Nat)
    [.loop .enter, .loop (.quit ()), .loop .test] = .ok _)
  exact ⟨_, hrun, rfl, never_released new_ok hrun⟩

/-- A timer is added, and the loop is told to quit before its first iteration. -/
def quitsEarly : List (Label Unit Nat) :=
  [.timers (.act (.add 1 halfSecond 1000000)), .loop .enter, .loop (.quit ()), .loop .test]

/-- The loop goes with a pending timer. -/
theorem channel_left_in_poller :
    ∃ s₀ s : LoopObject Unit Nat, new = .ok s₀ ∧ Run step s₀ quitsEarly s ∧
      Along step Enabled s₀ quitsEarly ∧ s.loop.phase = .returned ∧
      ⟨1, 1⟩ ∈ s.timers.queue.activeTimers ∧ s.timerQueueDtor.timers.deleted = [] ∧
      s.dtor = .error .channelDtor ∧ ¬ s.Released := by
  have hact : TimerQueue.ActAllowed .new (.add 1 halfSecond 1000000) := ⟨rfl, by decide⟩
  have hq := (TimerQueue.act_add TimerQueue.new_coherent hact).1
  have hstep : step (⟨.new, .new, listening, listening, []⟩ : LoopObject Unit Nat)
      (.timers (.act (.add 1 halfSecond 1000000))) = .ok ⟨.new,
        ⟨TimerQueue.new.added 1 halfSecond 1000000, .idle, [⟨1, 1⟩], []⟩, listening, listening,
        []⟩ := by
    simp only [step, TimerLoop.step, TimerLoop.new, hq, ok_bind, pure_eq_ok]
    rfl
  have hrun := Run.cons hstep (run_iff_foldlM.mpr (rfl : List.foldlM step _
    [.loop .enter, .loop (.quit ()), .loop .test] = .ok _))
  have hfails := dtor_fails (reachable_inv new_ok hrun)
  refine ⟨_, _, new_ok, hrun, ?_, rfl, ?_, rfl, hfails, ?_⟩
  · refine (steps_cons_ok hstep).mpr ⟨⟨⟨?_, hact, ?_⟩, trivial⟩, ?_⟩
    · intro now nextExpire todo hp
      cases hp
    · intro x _ y hy
      exact absurd hy List.not_mem_nil
    refine (steps_cons_ok rfl).mpr ⟨⟨rfl, trivial⟩, ?_⟩
    refine (steps_cons_ok rfl).mpr ⟨⟨rfl, trivial⟩, ?_⟩
    exact ⟨⟨rfl, trivial⟩, fun _ _ => trivial⟩
  · have hactive : ⟨1, 1⟩ ∈ (TimerQueue.new.added 1 halfSecond 1000000).activeTimers := by decide
    exact hactive
  · rintro ⟨s', hs', -⟩
    cases hfails.symm.trans hs'

end LoopObject

end Muduo
