import Muduo.EventLoopFunctors
import Muduo.PendingTimers
import Muduo.TimerArming

/-!
`EventLoop::cancel`, from any thread. It hands `TimerQueue::cancel` the address
of its own parameter. In the loop thread `cancelInLoop` reads the parameter at
once; from another thread the address is pushed with the functor, and read when
the caller has returned and its stack is in use again.

* `cancel_overwritten`: two calls from one stack depth, which both cancel the
  second timer;
* `cancel_reads_passed`: as long as no queued parameter is overwritten, every
  `cancelInLoop` gets the id that was passed.
-/

namespace Muduo

open Lib

/-- An address on the stack of some thread. -/
abbrev StackAddr := Nat

/-- What is in `pendingFunctors_`: a bound `cancelInLoop`, with the pointer it
holds and, for the record, the id that was passed; or any other functor. -/
inductive LoopFunctor where
  | cancelInLoop (timerId : StackAddr) (passed : ActiveTimer)
  | other
  deriving DecidableEq, Repr

structure TimedLoop (ι : Type) where
  loop : EventLoop ι LoopFunctor
  /-- the `TimerId`s on the stacks -/
  stack : StackAddr → ActiveTimer
  timerQueue : TimerQueue

namespace TimedLoop

variable {ι : Type}

inductive Label (ι : Type) where
  /-- a step of the loop or of the threads; no functor it queues is a
  `cancelInLoop` -/
  | loop (a : EventLoop.Label ι LoopFunctor)
  /-- `cancel` in another thread, up to the push -/
  | cancel (i : ι) (timerId : StackAddr) (x : ActiveTimer)
  /-- `cancel` in the loop thread -/
  | cancelHere (timerId : StackAddr) (x : ActiveTimer)
  /-- a thread uses its stack for something else -/
  | store (timerId : StackAddr) (x : ActiveTimer)
  /-- another operation of the queue, in the loop thread -/
  | timers (a : QueueStep)

/-- The requests that have not run. -/
def requests (s : TimedLoop ι) : List LoopFunctor := s.loop.batch ++ s.loop.pendingFunctors

/-- The parameter `timerId` gets its value. -/
def setStack (s : TimedLoop ι) (timerId : StackAddr) (x : ActiveTimer) : TimedLoop ι :=
  { s with stack := Function.update s.stack timerId x }

/-- `TimerQueue::cancelInLoop`, which reads the id behind its pointer. -/
def cancelInLoop (s : TimedLoop ι) (timerId : StackAddr) : Checked (TimedLoop ι) := do
  let timerQueue ← s.timerQueue.cancelInLoop (s.stack timerId)
  return { s with timerQueue }

/-- The body of the functor that a step of the loop starts. -/
def runFunctor (s : TimedLoop ι) : EventLoop.Label ι LoopFunctor → Checked (TimedLoop ι)
  | .callFunctor _ =>
    match s.loop.batch with
    | .cancelInLoop timerId _ :: _ => s.cancelInLoop timerId
    | _ => return s
  | _ => return s

def step [DecidableEq ι] (s : TimedLoop ι) : Label ι → Checked (TimedLoop ι)
  | .loop a => do
    let s ← s.runFunctor a
    let loop ← s.loop.step a
    return { s with loop }
  | .cancel i timerId x => do
    let s := s.setStack timerId x
    let loop ← s.loop.step (.queneInLoop i (.cancelInLoop timerId x))
    return { s with loop }
  | .cancelHere timerId x => (s.setStack timerId x).cancelInLoop timerId
  | .store timerId x => return s.setStack timerId x
  | .timers a => do
    let timerQueue ← s.timerQueue.queueStep a
    return { s with timerQueue }

/-- A call that does not queue a `cancelInLoop`. -/
def Plain (c : LoopCall LoopFunctor) : Prop := ∀ timerId x, c ≠ .queneInLoop (.cancelInLoop timerId x)

def PlainLabel : EventLoop.Label ι LoopFunctor → Prop
  | .early c => Plain c
  | .handleEvent calls | .callFunctor calls => ∀ c ∈ calls, Plain c
  | .queneInLoop _ cb => cb = .other
  | _ => True

/-- New timers get free addresses. -/
def QueueAllowed (q : TimerQueue) : QueueStep → Prop
  | .act a => q.ActAllowed a
  | .handleRead pass => TimerQueue.DuringCalls TimerQueue.CallAllowed q pass

def Enabled (s : TimedLoop ι) : Label ι → Prop
  | .loop a => s.loop.Enabled a ∧ PlainLabel a
  | .cancel i _ _ => s.loop.threads i = .outside
  | .cancelHere _ _ => True
  | .store _ _ => True
  | .timers a => QueueAllowed s.timerQueue a

/-! ## The invariant -/

/-- What a step stores on a stack. -/
def Label.stores : Label ι → Option (StackAddr × ActiveTimer)
  | .cancel _ timerId x | .cancelHere timerId x | .store timerId x => some (timerId, x)
  | _ => none

/-- The step stores nothing else where a request points to. -/
def Spares (s : TimedLoop ι) (a : Label ι) : Prop :=
  ∀ timerId x, a.stores = some (timerId, x) → ∀ y, .cancelInLoop timerId y ∈ s.requests → y = x

structure Inv (s : TimedLoop ι) : Prop where
  coherent : s.timerQueue.Coherent []
  fresh : s.loop.Fresh
  plain : ∀ c ∈ s.loop.calls, Plain c
  held : ∀ timerId x, .cancelInLoop timerId x ∈ s.requests → s.stack timerId = x

def start (stack : StackAddr → ActiveTimer) : TimedLoop ι := ⟨.new, stack, .new⟩

theorem start_inv (stack : StackAddr → ActiveTimer) : (start stack : TimedLoop ι).Inv :=
  ⟨TimerQueue.new_coherent, fun _ => rfl, by simp [start, EventLoop.new],
    by simp [start, requests, EventLoop.batch, EventLoop.new]⟩

/-- A plain step pushes no request. -/
theorem plain_pushed {s : EventLoop ι LoopFunctor} (h : ∀ c ∈ s.calls, Plain c)
    {a : EventLoop.Label ι LoopFunctor} (hp : PlainLabel a) (timerId : StackAddr) (x : ActiveTimer) :
    .cancelInLoop timerId x ∉ (s.pushed a).map Prod.fst := by
  intro hmem
  unfold EventLoop.pushed at hmem
  split at hmem
  · simp only [List.map_cons, List.map_nil, List.mem_singleton] at hmem
    exact hp timerId x (by rw [hmem])
  · simp only [List.map_cons, List.map_nil, List.mem_singleton] at hmem
    subst hmem
    cases hp
  · split at hmem
    · rename_i hcalls
      simp only [List.map_cons, List.map_nil, List.mem_singleton] at hmem
      exact h _ (hcalls ▸ List.mem_cons_self ..) timerId x (by rw [hmem])
    · cases hmem
  · cases hmem

theorem queueStep_coherent {q : TimerQueue} (h : q.Coherent []) {a : QueueStep}
    (ha : QueueAllowed q a) : ∃ q', q.queueStep a = .ok q' ∧ q'.Coherent [] := by
  cases a with
  | act a =>
    obtain ⟨q', hq, hcoh, -⟩ := TimerQueue.act_spec h ha
    exact ⟨q', hq, hcoh⟩
  | handleRead pass =>
    by_cases hnone : q.expiredEntries pass.now = []
    · obtain ⟨q', hq, hcoh, -⟩ := TimerQueue.handleRead_none h hnone
      exact ⟨q', hq, hcoh⟩
    · obtain ⟨_, _, q', -, -, -, -, hq, hby, -⟩ := TimerQueue.handleRead_spec h hnone ha
      exact ⟨q', hq, hby.coherent⟩

/-! ## Steps -/

/-- The step cancels `x`: it does what `cancelInLoop` does for this id, and
takes it and no other out of the pending timers. -/
def Cancels (s : TimedLoop ι) (x : ActiveTimer) (o : Checked (TimedLoop ι)) : Prop :=
  ∃ s', o = .ok s' ∧ s.timerQueue.cancelInLoop x = .ok s'.timerQueue ∧
    s'.timerQueue.pending = s.timerQueue.pending.act (.cancel x)

/-- A `cancelInLoop`, at once or from the queue, cancels what was passed. -/
def ReadsPassed (s : TimedLoop ι) (a : Label ι) (o : Checked (TimedLoop ι)) : Prop :=
  match a with
  | .loop (.callFunctor _) => ∀ timerId x functors,
      s.loop.batch = .cancelInLoop timerId x :: functors → s.stack timerId = x ∧ Cancels s x o
  | .cancelHere _ x => Cancels s x o
  | _ => True

theorem cancelInLoop_cancels {s : TimedLoop ι} (h : s.timerQueue.Coherent []) {timerId : StackAddr}
    {x : ActiveTimer} (hx : s.stack timerId = x) :
    ∃ q, s.cancelInLoop timerId = .ok { s with timerQueue := q } ∧ q.Coherent [] ∧
      s.timerQueue.cancelInLoop x = .ok q ∧ q.pending = s.timerQueue.pending.act (.cancel x) := by
  obtain ⟨q, hq, hcoh, hpending⟩ := TimerQueue.cancelInLoop_refines h x
  exact ⟨q, by simp only [cancelInLoop, hx, hq, ok_bind, pure_eq_ok], hcoh, hq, hpending⟩

theorem runFunctor_spec {s : TimedLoop ι} (h : s.Inv) (a : EventLoop.Label ι LoopFunctor) :
    ∃ q, s.runFunctor a = .ok { s with timerQueue := q } ∧ q.Coherent [] ∧
      ∀ calls timerId x functors, a = .callFunctor calls →
        s.loop.batch = .cancelInLoop timerId x :: functors → s.stack timerId = x ∧
          s.timerQueue.cancelInLoop x = .ok q ∧
          q.pending = s.timerQueue.pending.act (.cancel x) := by
  unfold runFunctor
  split
  · split
    · rename_i timerId x functors hb
      have hx : s.stack timerId = x := h.held timerId x (by simp [requests, hb])
      obtain ⟨q, hq, hcoh, hcancel, hpending⟩ := cancelInLoop_cancels h.coherent hx
      refine ⟨q, hq, hcoh, ?_⟩
      intro _ timerId' x' functors' _ hb'
      cases hb.symm.trans hb'
      exact ⟨hx, hcancel, hpending⟩
    · rename_i hno
      exact ⟨s.timerQueue, rfl, h.coherent, fun _ timerId x functors _ hb => (hno _ _ _ hb).elim⟩
  · rename_i hno
    exact ⟨s.timerQueue, rfl, h.coherent, fun calls _ _ _ ha _ => (hno calls ha).elim⟩

/-- A store that spares the requests. -/
theorem Inv.setStack {s : TimedLoop ι} (h : s.Inv) {timerId : StackAddr} {x : ActiveTimer}
    (hk : ∀ y, .cancelInLoop timerId y ∈ s.requests → y = x) : (s.setStack timerId x).Inv := by
  refine ⟨h.coherent, h.fresh, h.plain, ?_⟩
  intro timerId' y hy
  by_cases heq : timerId' = timerId
  · subst heq
    rw [hk y hy]
    exact Function.update_self ..
  · exact (Function.update_of_ne heq _ _).trans (h.held timerId' y hy)

variable [DecidableEq ι]

/-- What is left to call is plain. -/
theorem plain_step {s s' : EventLoop ι LoopFunctor} (h : ∀ c ∈ s.calls, Plain c)
    {a : EventLoop.Label ι LoopFunctor} (ha : s.Enabled a) (hp : PlainLabel a)
    (hs : s.step a = .ok s') : ∀ c ∈ s'.calls, Plain c := by
  cases a with
  | enter =>
    obtain ⟨_, -, hs⟩ := bind_eq_ok.mp hs
    cases hs
    exact h
  | handleEvent calls =>
    obtain ⟨-, channel, channels, hph⟩ := ha
    cases channel <;> simp only [EventLoop.step, hph, pure_eq_ok, Except.ok.injEq] at hs <;> subst hs
    · exact h
    · exact hp
  | callFunctor calls =>
    obtain ⟨-, functor, functors, hph⟩ := ha
    simp only [EventLoop.step, hph, pure_eq_ok, Except.ok.injEq] at hs
    subst hs
    exact hp
  | call =>
    cases hcalls : s.calls with
    | nil => exact absurd hcalls ha.1
    | cons c calls =>
      simp only [EventLoop.step, hcalls, pure_eq_ok, Except.ok.injEq] at hs
      subst hs
      rw [hcalls] at h
      cases c <;> exact fun d hd => h d (List.mem_cons_of_mem _ hd)
  | early c =>
    cases hs
    cases c <;> exact h
  | test =>
    simp only [EventLoop.step, pure_eq_ok, Except.ok.injEq] at hs
    subst hs
    split <;> exact h
  | _ =>
    cases hs
    exact h

/-- Every step that spares the queued requests cancels what was passed. -/
theorem step_spec {s : TimedLoop ι} (h : s.Inv) {a : Label ι} (ha : s.Enabled a)
    (hk : s.Spares a) : ∃ s', s.step a = .ok s' ∧ s'.Inv ∧ s.ReadsPassed a (.ok s') := by
  cases a with
  | loop a =>
    obtain ⟨hen, hplain⟩ := ha
    obtain ⟨q, hq, hcoh, hcancel⟩ := runFunctor_spec h a
    obtain ⟨loop, hloop⟩ := EventLoop.step_ok h.fresh hen
    have hfresh := h.fresh.step hen hloop
    refine ⟨{ s with loop, timerQueue := q }, ?_, ⟨hcoh, hfresh, ?_, ?_⟩, ?_⟩
    · simp only [step, hq, hloop, ok_bind, pure_eq_ok]
    · exact plain_step h.plain hen hplain hloop
    · intro timerId x hx
      refine h.held timerId x ((EventLoop.mem_of_step hen hloop hx).resolve_right ?_)
      exact plain_pushed h.plain hplain timerId x
    · cases a with
      | callFunctor calls =>
        intro timerId x functors hb
        obtain ⟨hx, hdone, hpending⟩ := hcancel calls timerId x functors rfl hb
        exact ⟨hx, _, rfl, hdone, hpending⟩
      | _ => trivial
  | cancel i timerId x =>
    have hset := h.setStack fun y hy => hk timerId x rfl y hy
    have hen : s.loop.Enabled (.queneInLoop i (.cancelInLoop timerId x)) := ha
    obtain ⟨loop, hloop⟩ := EventLoop.step_ok h.fresh hen
    have hfresh := h.fresh.step hen hloop
    refine ⟨{ s.setStack timerId x with loop }, ?_, ⟨h.coherent, hfresh, ?_, ?_⟩, trivial⟩
    · change (s.loop.step (.queneInLoop i (.cancelInLoop timerId x)) >>= _) = _
      rw [hloop]
      rfl
    · cases hloop
      exact h.plain
    · intro timerId' y hy
      rcases EventLoop.mem_of_step hen hloop hy with hy | hy
      · exact hset.held timerId' y hy
      · obtain ⟨rfl, rfl⟩ : timerId' = timerId ∧ y = x := by simpa [EventLoop.pushed] using hy
        exact Function.update_self ..
  | cancelHere timerId x =>
    have hset := h.setStack fun y hy => hk timerId x rfl y hy
    obtain ⟨q, hq, hcoh, hdone, hpending⟩ :=
      cancelInLoop_cancels hset.coherent (show (s.setStack timerId x).stack timerId = x from
        Function.update_self ..)
    exact ⟨_, hq, ⟨hcoh, hset.fresh, hset.plain, hset.held⟩, _, rfl, hdone, hpending⟩
  | store timerId x =>
    exact ⟨_, rfl, h.setStack fun y hy => hk timerId x rfl y hy, trivial⟩
  | timers a =>
    obtain ⟨q, hq, hcoh⟩ := queueStep_coherent h.coherent ha
    exact ⟨{ s with timerQueue := q }, by simp only [step, hq, ok_bind, pure_eq_ok],
      ⟨hcoh, h.fresh, h.plain, h.held⟩, trivial⟩

/-- **Cancellation from any thread.** In every run in which no queued parameter
is overwritten before its functor has run, each `cancelInLoop` gets the id that
was passed to `cancel`, and takes it and no other timer out. -/
theorem cancel_reads_passed (stack : StackAddr → ActiveTimer) (steps : List (Label ι))
    (hsteps : Along step Enabled (start stack) steps)
    (hspares : Along step Spares (start stack) steps) :
    Steps step ReadsPassed (start stack) steps := by
  refine Steps.of_invariant (I := Inv) (E := fun s a => s.Enabled a ∧ s.Spares a)
    (fun s a h ha => ?_) (fun s a s' h ha hs => ?_) (start_inv stack) (hsteps.and hspares)
  · obtain ⟨s', hs, -, hread⟩ := step_spec h ha.1 ha.2
    rw [hs]
    exact hread
  · obtain ⟨s₁, hs₁, hinv, -⟩ := step_spec h ha.1 ha.2
    cases hs₁.symm.trans hs
    exact hinv

/-- Two timers are pending, and the loop is in `poll`. -/
def polling : List (Label Unit) :=
  [.timers (.act (.add 1 ⟨2000000, 0, false, 1⟩ 1000000)),
   .timers (.act (.add 2 ⟨3000000, 0, false, 2⟩ 1000000)),
   .loop .enter, .loop .test, .loop .poll]

def polled : TimedLoop Unit where
  loop := { EventLoop.new with looping := true, phase := .polling }
  stack := fun _ => ⟨0, 0⟩
  timerQueue := TimerQueue.twoTimers

theorem polling_run : Run step (start fun _ => ⟨0, 0⟩) polling polled ∧
    Along step Enabled (start fun _ => ⟨0, 0⟩) polling ∧
    Along step Spares (start fun _ => ⟨0, 0⟩) polling := by
  have h₁ : step (start fun _ => ⟨0, 0⟩ : TimedLoop Unit)
      (.timers (.act (.add 1 ⟨2000000, 0, false, 1⟩ 1000000))) =
      .ok ⟨.new, fun _ => ⟨0, 0⟩, TimerQueue.oneTimer⟩ := by
    simp only [step, start, TimerQueue.oneTimer_eq, ok_bind, pure_eq_ok]
  have h₂ : step (⟨.new, fun _ => ⟨0, 0⟩, TimerQueue.oneTimer⟩ : TimedLoop Unit)
      (.timers (.act (.add 2 ⟨3000000, 0, false, 2⟩ 1000000))) =
      .ok ⟨.new, fun _ => ⟨0, 0⟩, TimerQueue.twoTimers⟩ := by
    simp only [step, TimerQueue.twoTimers_eq.1, ok_bind, pure_eq_ok]
  refine ⟨.cons h₁ (.cons h₂ (.cons rfl (.cons rfl (.cons rfl (.nil _))))), ?_, ?_⟩
  · refine (steps_cons_ok h₁).mpr ⟨⟨rfl, by decide⟩, (steps_cons_ok h₂).mpr ⟨⟨rfl, by decide⟩, ?_⟩⟩
    refine (steps_cons_ok rfl).mpr ⟨⟨rfl, trivial⟩, ?_⟩
    refine (steps_cons_ok rfl).mpr ⟨⟨rfl, trivial⟩, ?_⟩
    exact (steps_cons_ok rfl).mpr ⟨⟨rfl, trivial⟩, trivial⟩
  · refine Steps.of_forall (P := fun a => a.stores = none) (by decide) |>.mono ?_
    intro s a _ ha timerId x hx
    simp [ha] at hx

/-- Another thread cancels the first timer. -/
theorem cancel_reads_passed_sample :
    Steps step ReadsPassed (start fun _ => ⟨0, 0⟩) (polling ++
      [.cancel () 5 ⟨1, 1⟩, .loop (.wakeupFrom ()), .loop (.pollReturn [.wakeup]),
       .loop (.handleEvent []), .loop .endEvents, .loop .swap, .loop (.callFunctor [])]) := by
  obtain ⟨hrun, hen, hspares⟩ := polling_run
  refine cancel_reads_passed _ _ (hen.append hrun ?_) (hspares.append hrun ?_)
  · refine (steps_cons_ok rfl).mpr ⟨rfl, ?_⟩
    refine (steps_cons_ok rfl).mpr ⟨⟨by simp [EventLoop.Enabled, EventLoop.setThread], trivial⟩, ?_⟩
    refine (steps_cons_ok rfl).mpr ⟨⟨⟨rfl, fun _ => by decide⟩, trivial⟩, ?_⟩
    refine (steps_cons_ok rfl).mpr ⟨⟨⟨⟨rfl, rfl⟩, _, _, rfl⟩, by simp [PlainLabel]⟩, ?_⟩
    refine (steps_cons_ok rfl).mpr ⟨⟨⟨⟨rfl, rfl⟩, rfl⟩, trivial⟩, ?_⟩
    refine (steps_cons_ok rfl).mpr ⟨⟨rfl, trivial⟩, ?_⟩
    exact ⟨⟨⟨⟨rfl, rfl⟩, _, _, rfl⟩, by simp [PlainLabel]⟩, fun _ _ => trivial⟩
  · refine (steps_cons_ok rfl).mpr ⟨by simp [Spares, requests, EventLoop.batch, polled, EventLoop.new], ?_⟩
    refine (Steps.of_forall (P := fun a => a.stores = none) (by decide)).mono ?_
    intro s a _ ha timerId x hx
    simp [ha] at hx

/-- Another thread cancels two timers one behind the other, from one stack
depth. -/
def twoCancels : List (Label Unit) :=
  [.cancel () 5 ⟨1, 1⟩, .loop (.wakeupFrom ()), .cancel () 5 ⟨2, 2⟩, .loop (.wakeupFrom ()),
   .loop (.pollReturn [.wakeup]), .loop (.handleEvent []), .loop .endEvents, .loop .swap]

def overwritten (functors : List LoopFunctor) (timerQueue : TimerQueue) : TimedLoop Unit where
  loop := { (EventLoop.new : EventLoop Unit LoopFunctor) with
    looping := true
    callingPendingFunctors := true
    iteration := 1
    phase := .callingFunctors functors
    threads := Function.update (Function.update (Function.update (Function.update
      (fun _ => .outside) () .queued) () .outside) () .queued) () .outside }
  stack := Function.update (Function.update (fun _ => ⟨0, 0⟩) 5 ⟨1, 1⟩) 5 ⟨2, 2⟩
  timerQueue

theorem twoCancels_run :
    Run step polled twoCancels (overwritten
      [.cancelInLoop 5 ⟨1, 1⟩, .cancelInLoop 5 ⟨2, 2⟩] TimerQueue.twoTimers) ∧
    Along step Enabled polled twoCancels := by
  constructor
  · exact .cons rfl (.cons rfl (.cons rfl (.cons rfl (.cons rfl (.cons rfl (.cons rfl (.cons rfl
      (.nil _))))))))
  · refine (steps_cons_ok rfl).mpr ⟨rfl, ?_⟩
    refine (steps_cons_ok rfl).mpr ⟨⟨by simp [EventLoop.Enabled, EventLoop.setThread], trivial⟩, ?_⟩
    refine (steps_cons_ok rfl).mpr ⟨by simp [Enabled, EventLoop.setThread], ?_⟩
    refine (steps_cons_ok rfl).mpr ⟨⟨by simp [EventLoop.Enabled, EventLoop.setThread], trivial⟩, ?_⟩
    refine (steps_cons_ok rfl).mpr ⟨⟨⟨rfl, fun _ => by decide⟩, trivial⟩, ?_⟩
    refine (steps_cons_ok rfl).mpr ⟨⟨⟨⟨rfl, rfl⟩, _, _, rfl⟩, by simp [PlainLabel]⟩, ?_⟩
    refine (steps_cons_ok rfl).mpr ⟨⟨⟨⟨rfl, rfl⟩, rfl⟩, trivial⟩, ?_⟩
    exact (steps_cons_ok rfl).mpr ⟨⟨rfl, trivial⟩, trivial⟩

/-- The second of two timers is cancelled, and then cancelled again. -/
theorem second_cancelled : ∃ q, TimerQueue.twoTimers.cancelInLoop ⟨2, 2⟩ = .ok q ∧
    q.cancelInLoop ⟨2, 2⟩ = .ok q ∧ q.activeTimers = {⟨1, 1⟩} := by
  have hcoh := TimerQueue.twoTimers_eq.2
  let q := TimerQueue.twoTimers.erased ⟨2, 2⟩ ⟨3000000, 0, false, 2⟩
  have hq : q.Coherent [] := hcoh.erased (t := ⟨3000000, 0, false, 2⟩) rfl rfl
  have hactive : q.activeTimers = {⟨1, 1⟩} := by decide
  refine ⟨q, ?_, ?_, hactive⟩
  · rcases TimerQueue.cancelInLoop_spec hcoh ⟨2, 2⟩ with ⟨t, ht, -, -, heq⟩ | ⟨hnot, -⟩
    · obtain rfl : (⟨3000000, 0, false, 2⟩ : Timer) = t := Option.some.inj ht
      exact heq
    · exact absurd (by decide) hnot
  · rcases TimerQueue.cancelInLoop_spec hq ⟨2, 2⟩ with ⟨t, ht, -, -, -⟩ | ⟨-, heq⟩
    · cases ht
    · exact heq

/-- Both functors read the second id, and the first timer stays. -/
theorem cancel_overwritten :
    let steps : List (Label Unit) := polling ++
      (twoCancels ++ [.loop (.callFunctor []), .loop (.callFunctor [])])
    (Along step Enabled (start fun _ => ⟨0, 0⟩) steps) ∧
      (¬ Steps step ReadsPassed (start fun _ => ⟨0, 0⟩) steps) ∧
      ∃ t, Run step (start fun _ => ⟨0, 0⟩) steps t ∧ t.timerQueue.activeTimers = {⟨1, 1⟩} := by
  obtain ⟨hrun, hen, -⟩ := polling_run
  obtain ⟨hrun', hen'⟩ := twoCancels_run
  obtain ⟨q, hq, hagain, hactive⟩ := second_cancelled
  have hfirst : step (overwritten [.cancelInLoop 5 ⟨1, 1⟩, .cancelInLoop 5 ⟨2, 2⟩]
      TimerQueue.twoTimers) (.loop (.callFunctor [])) =
      .ok (overwritten [.cancelInLoop 5 ⟨2, 2⟩] q) := by
    change (TimerQueue.twoTimers.cancelInLoop ⟨2, 2⟩ >>= _) >>= _ = _
    rw [hq]
    rfl
  have hsecond : step (overwritten [.cancelInLoop 5 ⟨2, 2⟩] q) (.loop (.callFunctor [])) =
      .ok (overwritten [] q) := by
    change (q.cancelInLoop ⟨2, 2⟩ >>= _) >>= _ = _
    rw [hagain]
    rfl
  refine ⟨hen.append hrun (hen'.append hrun' ?_), fun hsteps => ?_, _,
    hrun.append (hrun'.append (.cons hfirst (.cons hsecond (.nil _)))), hactive⟩
  · exact (steps_cons_ok hfirst).mpr ⟨⟨⟨⟨rfl, rfl⟩, _, _, rfl⟩, by simp [PlainLabel]⟩,
      (steps_cons_ok hsecond).mpr ⟨⟨⟨⟨rfl, rfl⟩, _, _, rfl⟩, by simp [PlainLabel]⟩, trivial⟩⟩
  · -- the first functor reads what the second call stored
    have hread := ((hsteps.right hrun).right hrun').1
    exact absurd (hread 5 ⟨1, 1⟩ _ rfl).1 (by decide)

end TimedLoop

end Muduo
