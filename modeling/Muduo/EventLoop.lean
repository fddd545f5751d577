import Mathlib.Algebra.Group.Nat.Defs
import Mathlib.Logic.Function.Basic
import Muduo.Assertion

/-!
`net/EventLoop.cpp`: one loop thread and any number of other threads, whose
steps interleave. Taking the mutex to push or to swap is one step; a push and
the write to the eventfd behind it are two, as are the two halves of `quit`.
Functors are of any type. What a callback or a functor does to its own loop is
a finite list of calls, fixed when it starts and run one call at a time. The
functors that have run are destroyed at the end of `doPendingFunctors`, behind
`callingPendingFunctors_ = false`; their destruction is assumed to make no calls
on the loop.
-/

namespace Muduo

open Lib

/-- An active channel: the one of the eventfd, or another. -/
inductive ActiveChannel where
  | wakeup
  | other
  deriving DecidableEq, Repr

/-- A call that the loop thread makes on its own loop. -/
inductive LoopCall (φ : Type) where
  | queneInLoop (cb : φ)
  | quit

/-- Where the loop thread is. -/
inductive LoopPhase (φ : Type) where
  /-- before `loop()` -/
  | notStarted
  /-- before the condition of `while (!quit_)` -/
  | condition
  /-- behind the condition, before `poll` -/
  | beforePoll
  | polling
  | handlingEvents (activeChannels : List ActiveChannel)
  /-- `callingPendingFunctors_` is set, the functors are not swapped yet -/
  | swapping
  | callingFunctors (functors : List φ)
  | returned

/-- Where another thread is: outside, or between a push or the write of `quit_`
and its write to the eventfd. -/
inductive ThreadPhase where
  | outside
  | queued
  | quitting
  deriving DecidableEq, Repr

structure EventLoop (ι φ : Type) where
  looping : Bool
  quit : Bool
  callingPendingFunctors : Bool
  iteration : Nat
  pendingFunctors : List φ
  /-- the counter of the eventfd -/
  wakeupFd : Nat
  phase : LoopPhase φ
  /-- the calls that the running callback or functor has still to make -/
  calls : List (LoopCall φ)
  /-- the loop thread is behind a push, before its write to the eventfd -/
  waking : Bool
  threads : ι → ThreadPhase

namespace EventLoop

variable {ι φ : Type}

/-- The constructor. -/
def new : EventLoop ι φ where
  looping := false
  quit := false
  callingPendingFunctors := false
  iteration := 0
  pendingFunctors := []
  wakeupFd := 0
  phase := .notStarted
  calls := []
  waking := false
  threads := fun _ => .outside

/-- The largest value of an eventfd counter. -/
def wakeupFdMax : Nat := 2 ^ 64 - 2

/-- A write that would go beyond the maximum fails, which is only logged. -/
def wakeup (s : EventLoop ι φ) : EventLoop ι φ :=
  { s with wakeupFd := if s.wakeupFd < wakeupFdMax then s.wakeupFd + 1 else s.wakeupFd }

/-- Reading the eventfd empties it. -/
def handleRead (s : EventLoop ι φ) : EventLoop ι φ := { s with wakeupFd := 0 }

/-- `queneInLoop` up to the write to the eventfd, and `quit`, by the loop
thread. -/
def callInLoop (s : EventLoop ι φ) : LoopCall φ → EventLoop ι φ
  | .queneInLoop cb =>
    { s with pendingFunctors := s.pendingFunctors ++ [cb], waking := s.callingPendingFunctors }
  | .quit => { s with quit := true }

/-! ## Steps -/

inductive Label (ι φ : Type) where
  /-- the loop thread calls its loop before `loop()` -/
  | early (c : LoopCall φ)
  /-- `loop()` up to its `while` -/
  | enter
  /-- the condition of the `while` -/
  | test
  | poll
  | pollReturn (activeChannels : List ActiveChannel)
  /-- the callback of the next active channel starts -/
  | handleEvent (calls : List (LoopCall φ))
  | endEvents
  | swap
  /-- the next functor starts -/
  | callFunctor (calls : List (LoopCall φ))
  | endFunctors
  /-- the running callback or functor makes its next call -/
  | call
  /-- the loop thread writes to the eventfd -/
  | wakeup
  /-- another thread pushes a functor -/
  | queneInLoop (i : ι) (cb : φ)
  /-- another thread writes `quit_` -/
  | quit (i : ι)
  /-- another thread writes to the eventfd -/
  | wakeupFrom (i : ι)

/-- Nothing is running in the loop thread. -/
def Ready (s : EventLoop ι φ) : Prop := s.calls = [] ∧ s.waking = false

def Enabled (s : EventLoop ι φ) : Label ι φ → Prop
  | .early _ | .enter => s.phase = .notStarted
  | .test => s.phase = .condition
  | .poll => s.phase = .beforePoll
  | .pollReturn activeChannels =>
    s.phase = .polling ∧ (.wakeup ∈ activeChannels → 0 < s.wakeupFd)
  | .handleEvent _ =>
    s.Ready ∧ ∃ channel channels, s.phase = .handlingEvents (channel :: channels)
  | .endEvents => s.Ready ∧ s.phase = .handlingEvents []
  | .swap => s.phase = .swapping
  | .callFunctor _ => s.Ready ∧ ∃ functor functors, s.phase = .callingFunctors (functor :: functors)
  | .endFunctors => s.Ready ∧ s.phase = .callingFunctors []
  | .call => s.calls ≠ [] ∧ s.waking = false
  | .wakeup => s.waking = true
  | .queneInLoop i _ | .quit i => s.threads i = .outside
  | .wakeupFrom i => s.threads i ≠ .outside

variable [DecidableEq ι]

def setThread (s : EventLoop ι φ) (i : ι) (p : ThreadPhase) : EventLoop ι φ :=
  { s with threads := Function.update s.threads i p }

def step (s : EventLoop ι φ) : Label ι φ → Checked (EventLoop ι φ)
  | .early c => return s.callInLoop c
  | .enter => do
    check (s.looping = false) .loop
    return { s with looping := true, quit := false, phase := .condition }
  | .test =>
    return if s.quit then { s with looping := false, phase := .returned }
      else { s with phase := .beforePoll }
  | .poll => return { s with phase := .polling }
  | .pollReturn activeChannels =>
    return { s with iteration := s.iteration + 1, phase := .handlingEvents activeChannels }
  | .handleEvent calls =>
    match s.phase with
    | .handlingEvents (.wakeup :: channels) =>
      return { s.handleRead with phase := .handlingEvents channels }
    | .handlingEvents (.other :: channels) =>
      return { s with phase := .handlingEvents channels, calls }
    | _ => return s
  | .endEvents => return { s with callingPendingFunctors := true, phase := .swapping }
  | .swap => return { s with phase := .callingFunctors s.pendingFunctors, pendingFunctors := [] }
  | .callFunctor calls =>
    match s.phase with
    | .callingFunctors (_ :: functors) => return { s with phase := .callingFunctors functors, calls }
    | _ => return s
  | .endFunctors => return { s with callingPendingFunctors := false, phase := .condition }
  | .call =>
    match s.calls with
    | [] => return s
    | c :: calls => return { s with calls }.callInLoop c
  | .wakeup => return { s.wakeup with waking := false }
  | .queneInLoop i cb =>
    return { s with pendingFunctors := s.pendingFunctors ++ [cb] }.setThread i .queued
  | .quit i => return { s with quit := true }.setThread i .quitting
  | .wakeupFrom i => return s.wakeup.setThread i .outside

end EventLoop

end Muduo
