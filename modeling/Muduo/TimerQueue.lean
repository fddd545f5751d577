import Mathlib.Data.Finset.Sort
import Mathlib.Data.Int.Order.Basic
import Mathlib.Data.Prod.Lex
import Muduo.Assertion

/-!
`net/Timer.cpp` and `net/TimerQueue.cpp`. The two `std::set`s are finite sets
of a linear order; the timers live in a heap, and using one that was deleted
ends the run like a failed assertion. Readings of the clock, addresses of new
timers and the work of the callbacks are choices of the environment.
-/

namespace Muduo

open Lib

/-! ## Time -/

/-- `microSecondSinceEpoch_`. -/
abbrev TimeStamp := Int

namespace TimeStamp

def KMicronSecondsPerSecond : Int := 1000 * 1000

def valid (t : TimeStamp) : Bool := 0 < t

end TimeStamp

/-- `tv_sec` and `tv_nsec`. -/
structure Timespec where
  sec : Int
  nsec : Int

/-- `now` is the clock read by the call. -/
def howMuchTimeFromNow (now when_ : TimeStamp) : Timespec :=
  let microseconds : Int := when_ - now
  let microseconds : Int := if microseconds < 100 then 100 else microseconds
  ⟨microseconds / TimeStamp.KMicronSecondsPerSecond,
    microseconds % TimeStamp.KMicronSecondsPerSecond * 1000⟩

/-! ## Timers and the queue -/

/-- The value of a `Timer*`. -/
abbrev Ptr := Nat

def UINTPTR_MAX : Ptr := 2 ^ 64 - 1

structure Timer where
  expiration : TimeStamp
  /-- `interval_` in whole microseconds, as `addTime` takes it -/
  interval : Nat
  repeat_ : Bool
  sequence : Nat
  deriving DecidableEq, Repr

/-- `addTime(now, interval_)`, for a timer that repeats. -/
def Timer.restart (timer : Timer) (now : TimeStamp) : Timer :=
  { timer with expiration := if timer.repeat_ then now + timer.interval else 0 }

/-- `std::pair<TimeStamp, Timer*>`. -/
structure Entry where
  first : TimeStamp
  second : Ptr
  deriving DecidableEq, Repr

instance : LinearOrder Entry :=
  LinearOrder.lift' (fun e => toLex (e.first, e.second)) fun e f h => by
    cases e
    cases f
    simpa using h

theorem Entry.lt_iff {e f : Entry} :
    e < f ↔ e.first < f.first ∨ e.first = f.first ∧ e.second < f.second :=
  Prod.Lex.toLex_lt_toLex

theorem Entry.first_le {e f : Entry} (h : e ≤ f) : e.first ≤ f.first :=
  Prod.Lex.monotone_fst _ _ h

/-- `std::pair<Timer*, int64_t>`, and what a `TimerId` holds. -/
structure ActiveTimer where
  timer : Ptr
  sequence : Nat
  deriving DecidableEq, Repr

/-- A `timerfd` that is set and has not been read since it expired. -/
structure Armed where
  deadline : TimeStamp
  armedAt : TimeStamp
  deriving DecidableEq, Repr

structure TimerQueue where
  heap : Ptr → Option Timer
  timers : Finset Entry
  activeTimers : Finset ActiveTimer
  callingExpiredTimers : Bool
  cancelingTimers : Finset ActiveTimer
  timerfd : Option Armed
  /-- the callbacks started so far -/
  ran : List ActiveTimer

namespace TimerQueue

/-- The constructor. -/
def new : TimerQueue where
  heap := fun _ => none
  timers := ∅
  activeTimers := ∅
  callingExpiredTimers := false
  cancelingTimers := ∅
  timerfd := none
  ran := []

/-- `*timer` -/
def deref (q : TimerQueue) (timer : Ptr) : Checked Timer :=
  match q.heap timer with
  | some t => .ok t
  | none => .error .deletedTimer

def store (q : TimerQueue) (timer : Ptr) (t : Option Timer) : TimerQueue :=
  { q with heap := Function.update q.heap timer t }

/-- `timers_.begin()` -/
def begin? (q : TimerQueue) : Option Entry :=
  if h : q.timers.Nonempty then some (q.timers.min' h) else none

/-- The timer expires once, the given time after the clock reading `now`. -/
def resetTimerfd (q : TimerQueue) (now expiration : TimeStamp) : TimerQueue :=
  let newValue := howMuchTimeFromNow now expiration
  let delay := newValue.sec * TimeStamp.KMicronSecondsPerSecond + newValue.nsec / 1000
  { q with timerfd := some ⟨now + delay, now⟩ }

/-- Reading the descriptor before its deadline fails, which is only logged. -/
def readTimerfd (q : TimerQueue) (now : TimeStamp) : TimerQueue :=
  match q.timerfd with
  | some a => if a.deadline ≤ now then { q with timerfd := none } else q
  | none => q

/-- `assert(timers_.size() == activeTimers_.size())` -/
def checkSizes (q : TimerQueue) (a : Assertion) : Checked Unit :=
  check (q.timers.card = q.activeTimers.card) a

/-- The second component is `earliestChanged`. -/
def insert (q : TimerQueue) (timer : Ptr) : Checked (TimerQueue × Bool) := do
  q.checkSizes .timerInsert
  let t ← q.deref timer
  let earliestChanged := decide (q.begin? = none)
  check (⟨t.expiration, timer⟩ ∉ q.timers) .timerInsert
  check (⟨timer, t.sequence⟩ ∉ q.activeTimers) .timerInsert
  let q := { q with
    timers := Insert.insert ⟨t.expiration, timer⟩ q.timers
    activeTimers := Insert.insert ⟨timer, t.sequence⟩ q.activeTimers }
  q.checkSizes .timerInsert
  return (q, earliestChanged)

/-- `now` is the clock read by `resetTimerfd`. -/
def addTimerInLoop (q : TimerQueue) (timer : Ptr) (now : TimeStamp) : Checked TimerQueue := do
  let (q, earliestChanged) ← q.insert timer
  let t ← q.deref timer
  return if earliestChanged then q.resetTimerfd now t.expiration else q

def cancelInLoop (q : TimerQueue) (timer : ActiveTimer) : Checked TimerQueue := do
  q.checkSizes .cancelInLoop
  if timer ∈ q.activeTimers then
    let t ← q.deref timer.timer
    check (⟨t.expiration, timer.timer⟩ ∈ q.timers) .cancelInLoop
    let q := { q.store timer.timer none with
      timers := q.timers.erase ⟨t.expiration, timer.timer⟩
      activeTimers := q.activeTimers.erase timer }
    q.checkSizes .cancelInLoop
    return q
  else
    let q := if q.callingExpiredTimers then
        { q with cancelingTimers := Insert.insert timer q.cancelingTimers }
      else q
    q.checkSizes .cancelInLoop
    return q

/-! ## An expiry pass -/

/-- The loop of `getExpired` over the expired entries. -/
def eraseActive (q : TimerQueue) (e : Entry) : Checked TimerQueue := do
  let t ← q.deref e.second
  check (⟨e.second, t.sequence⟩ ∈ q.activeTimers) .getExpired
  return { q with activeTimers := q.activeTimers.erase ⟨e.second, t.sequence⟩ }

/-- Every entry before `sentry` has expired. -/
def sentry (now : TimeStamp) : Entry := ⟨now, UINTPTR_MAX⟩

def expiredEntries (q : TimerQueue) (now : TimeStamp) : List Entry :=
  (q.timers.filter (· < sentry now)).sort (· ≤ ·)

def getExpired (q : TimerQueue) (now : TimeStamp) : Checked (List Entry × TimerQueue) := do
  q.checkSizes .getExpired
  let expired := q.expiredEntries now
  let q := { q with timers := q.timers.filter (sentry now ≤ ·) }
  check (∀ e ∈ q.begin?, now < e.first) .getExpired
  let q ← expired.foldlM eraseActive q
  q.checkSizes .getExpired
  return (expired, q)

/-- What a callback does to its queue. -/
inductive Action where
  /-- `new Timer` at an address, and `addTimerInLoop` with a clock reading -/
  | add (timer : Ptr) (t : Timer) (now : TimeStamp)
  | cancel (timer : ActiveTimer)

def act (q : TimerQueue) : Action → Checked TimerQueue
  | .add timer t now => (q.store timer (some t)).addTimerInLoop timer now
  | .cancel timer => q.cancelInLoop timer

inductive CallStep where
  /-- the callback of an expired timer starts -/
  | run (timer : Ptr)
  | act (a : Action)

def callStep (q : TimerQueue) : CallStep → Checked TimerQueue
  | .run timer => do
    let t ← q.deref timer
    return { q with ran := q.ran ++ [⟨timer, t.sequence⟩] }
  | .act a => q.act a

/-- The choices of the environment in one pass: the clock it starts with, what
the callback of each expired entry does, and the clock read by `resetTimerfd`
in the iteration of `reset` for that entry. -/
structure Pass where
  now : TimeStamp
  callback : Entry → List Action
  clock : Entry → TimeStamp

/-- The callbacks of the expired timers, one behind the other. -/
def Pass.calls (pass : Pass) (expired : List Entry) : List CallStep :=
  expired.flatMap fun e => .run e.second :: (pass.callback e).map .act

/-- `restart` and `insert`, or `delete`. -/
def resetTimer (q : TimerQueue) (now : TimeStamp) (timer : Ptr) : Checked TimerQueue := do
  let t ← q.deref timer
  if t.repeat_ && decide (⟨timer, t.sequence⟩ ∉ q.cancelingTimers) then
    let (q, _) ← (q.store timer (some (t.restart now))).insert timer
    return q
  else
    return q.store timer none

/-- `nextExpire`, which keeps its value while `timers_` is empty. -/
def nextExpire (q : TimerQueue) (old : TimeStamp) : Checked TimeStamp :=
  match q.begin? with
  | some e => do
    let t ← q.deref e.second
    return t.expiration
  | none => return old

/-- `if (nextExpire.valid()) resetTimerfd(timerfd_, nextExpire);` -/
def rearm (q : TimerQueue) (now nextExpire : TimeStamp) : TimerQueue :=
  if TimeStamp.valid nextExpire then q.resetTimerfd now nextExpire else q

/-- One iteration of `reset`, with `nextExpire` carried along. -/
def resetStep (pass : Pass) (s : TimerQueue × TimeStamp) (e : Entry) :
    Checked (TimerQueue × TimeStamp) := do
  let q ← s.1.resetTimer pass.now e.second
  let next ← q.nextExpire s.2
  return (q.rearm (pass.clock e) next, next)

def reset (q : TimerQueue) (pass : Pass) (expired : List Entry) : Checked TimerQueue := do
  let (q, _) ← expired.foldlM (resetStep pass) (q, 0)
  return q

/-- `handleRead` up to the first callback. -/
def beginPass (q : TimerQueue) (now : TimeStamp) : Checked (List Entry × TimerQueue) := do
  let (expired, q) ← (q.readTimerfd now).getExpired now
  return (expired, { q with callingExpiredTimers := true, cancelingTimers := ∅ })

def handleRead (q : TimerQueue) (pass : Pass) : Checked TimerQueue := do
  let (expired, q) ← q.beginPass pass.now
  let q ← (pass.calls expired).foldlM callStep q
  { q with callingExpiredTimers := false }.reset pass expired

end TimerQueue

end Muduo
