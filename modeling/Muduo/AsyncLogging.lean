import Mathlib.Algebra.Group.Nat.Defs
import Muduo.Assertion
import Muduo.FixedBuffer

/-!
`src/AsyncLogging.cpp`. Any number of threads call `append`, each call under
the mutex; the backend thread runs `threadFunc`, which swaps the full buffers
out under the mutex and writes them without it. A label is one such step, so
that a run is any interleaving of them.

A `unique_ptr` is an `Option`: `std::move` leaves `none` behind, and to use a
null one is a failure.
-/

namespace Muduo

open Lib

/-- `BufferPtr`. -/
abbrev BufferPtr := Option (FixedBuffer KLargeBuffer)

/-- Where `threadFunc` stands. -/
inductive BackendPhase where
  /-- before `start` -/
  | notStarted
  /-- the thread runs, and has not tested `running_` -/
  | started
  /-- at `while (running_)` -/
  | condition
  /-- before the lock is taken -/
  | beforeLock
  /-- in `waitForSeconds`, with the mutex released -/
  | waiting
  /-- the lock is released, and the number of buffers not tested -/
  | swapped
  /-- `next` is the position of the iterator in `bufferToWrite` -/
  | writing (next : Nat)
  | finished
  deriving DecidableEq, Repr

structure AsyncLogging where
  running : Bool
  currentBuffer : BufferPtr
  nextBuffer : BufferPtr
  buffers : List BufferPtr
  /-- the locals of `threadFunc` -/
  newBuffer1 : BufferPtr
  newBuffer2 : BufferPtr
  bufferToWrite : List BufferPtr
  phase : BackendPhase
  /-- the bytes given to `output.append` -/
  output : List UInt8

namespace AsyncLogging

def new : AsyncLogging where
  running := false
  currentBuffer := some .new
  nextBuffer := some .new
  buffers := []
  newBuffer1 := none
  newBuffer2 := none
  bufferToWrite := []
  phase := .notStarted
  output := []

/-- `*p` -/
def deref (p : BufferPtr) : Checked (FixedBuffer KLargeBuffer) :=
  match p with
  | some b => return b
  | none => .error .nullBuffer

/-- `static_cast<int>(len)` -/
def toInt (len : Nat) : Int := (len : Int).bmod (2 ^ 32)

/-- The functor of `append`, between lock and unlock. To notify the backend
changes nothing but when it wakes up. -/
def append (s : AsyncLogging) (logline : List UInt8) : Checked AsyncLogging := do
  let current ← deref s.currentBuffer
  if toInt logline.length < current.avail then
    return { s with currentBuffer := some (current.append logline) }
  else
    let buffers := s.buffers ++ [s.currentBuffer]
    let current ← deref (if s.nextBuffer.isSome then s.nextBuffer else some .new)
    return { s with buffers, nextBuffer := none, currentBuffer := some (current.append logline) }

/-! ## `threadFunc` -/

/-- `p && p->length() == 0` -/
def isEmptyBuffer (p : BufferPtr) : Bool := p.any fun b => b.length == 0

def enter (s : AsyncLogging) : Checked AsyncLogging := do
  check (s.running = true) .threadFunc
  return { s with newBuffer1 := some .new, newBuffer2 := some .new, phase := .condition }

def test (s : AsyncLogging) : Checked AsyncLogging := do
  if s.running then
    check (isEmptyBuffer s.newBuffer1 = true) .threadFunc
    check (isEmptyBuffer s.newBuffer2 = true) .threadFunc
    check (s.bufferToWrite = []) .threadFunc
    return { s with phase := .beforeLock }
  else
    return { s with phase := .finished }

/-- The rest of the critical section, behind the wait. -/
def swapBuffers (s : AsyncLogging) : AsyncLogging :=
  let buffers := s.buffers ++ [s.currentBuffer]
  let s := { s with
    currentBuffer := s.newBuffer1
    newBuffer1 := none
    bufferToWrite := buffers
    buffers := s.bufferToWrite
    phase := .swapped }
  if s.nextBuffer.isNone then { s with nextBuffer := s.newBuffer2, newBuffer2 := none } else s

def lock (s : AsyncLogging) : AsyncLogging :=
  if s.buffers.isEmpty then { s with phase := .waiting } else s.swapBuffers

/-- The twenty bytes from the ten of `"drop log!"` on. -/
def dropNotice (behind : Nat → UInt8) : List UInt8 :=
  [100, 114, 111, 112, 32, 108, 111, 103, 33, 0] ++ (List.range 10).map behind

/-- More than 25 buffers are dropped, up to two. -/
def dropBacklog (s : AsyncLogging) (behind : Nat → UInt8) : Checked AsyncLogging := do
  check (s.bufferToWrite ≠ []) .threadFunc
  if 25 < s.bufferToWrite.length then
    return { s with
      output := s.output ++ dropNotice behind
      bufferToWrite := s.bufferToWrite.take 2
      phase := .writing 0 }
  else
    return { s with phase := .writing 0 }

/-- One round of the `for` loop. -/
def write (s : AsyncLogging) (next : Nat) : Checked AsyncLogging := do
  let buffer ← deref (s.bufferToWrite[next]?.join)
  return { s with output := s.output ++ buffer.content, phase := .writing (next + 1) }

/-- `if (p == NULL) { p = std::move(v.back()); p->reset(); v.pop_back(); }` -/
def takeBack (p : BufferPtr) (v : List BufferPtr) : Checked (BufferPtr × List BufferPtr) := do
  if p.isNone then
    let b ← deref v.getLast?.join
    return (some b.reset, v.dropLast)
  else
    return (p, v)

/-- Behind the loop: two buffers are kept, and `output` is flushed. -/
def recycle (s : AsyncLogging) : Checked AsyncLogging := do
  let bufferToWrite := s.bufferToWrite.take 2
  let (newBuffer1, bufferToWrite) ← takeBack s.newBuffer1 bufferToWrite
  let (newBuffer2, _) ← takeBack s.newBuffer2 bufferToWrite
  return { s with newBuffer1, newBuffer2, bufferToWrite := [], phase := .condition }

/-! ## The steps -/

inductive Label where
  | append (logline : List UInt8)
  | start
  | stop
  | enter
  | test
  | lock
  /-- the wait ends, notified or not -/
  | wake
  | dropBacklog (behind : Nat → UInt8)
  | write
  | recycle

def step (s : AsyncLogging) : Label → Checked AsyncLogging
  | .append logline => s.append logline
  | .start => return { s with running := true, phase := .started }
  | .stop => return { s with running := false }
  | .enter => s.enter
  | .test => s.test
  | .lock => return s.lock
  | .wake => return s.swapBuffers
  | .dropBacklog behind => s.dropBacklog behind
  | .write =>
    match s.phase with
    | .writing next => s.write next
    | _ => return s
  | .recycle => s.recycle

/-- A line is shorter than a buffer, and `threadFunc` runs in its order. -/
def Enabled (s : AsyncLogging) : Label → Prop
  | .append logline => logline.length < KLargeBuffer
  | .start => s.phase = .notStarted
  | .stop => True
  | .enter => s.phase = .started
  | .test => s.phase = .condition
  | .lock => s.phase = .beforeLock
  | .wake => s.phase = .waiting
  | .dropBacklog _ => s.phase = .swapped
  | .write => ∃ next < s.bufferToWrite.length, s.phase = .writing next
  | .recycle => s.phase = .writing s.bufferToWrite.length

/-- No swap has found more than 25 buffers. -/
def Bounded (s : AsyncLogging) : Label → Prop
  | .dropBacklog _ => s.bufferToWrite.length ≤ 25
  | _ => True

instance (s : AsyncLogging) (a : Label) : Decidable (s.Enabled a) := by
  cases a <;> unfold Enabled <;> infer_instance

instance (s : AsyncLogging) (a : Label) : Decidable (s.Bounded a) := by
  cases a <;> unfold Bounded <;> infer_instance

end AsyncLogging

end Muduo
