import Muduo.Assertion

/-!
`src/LogFile.cpp` over `src/FileUtil.cpp`. Every write succeeds, and what stdio
leaves open, how many bytes remain in the stream's buffer behind an `fwrite`, is
an argument, as the readings of the clock are.

The name of a log file is the second in which it was opened, between two parts
that do not change; `AppendFile` keeps that second.
-/

namespace Muduo

/-- `time_t`. -/
abbrev Time := Int

structure AppendFile where
  /-- the time in the name of the file -/
  opened : Time
  /-- what has reached the file -/
  contents : List UInt8
  /-- what is in the buffer of `fp_` -/
  buffer : List UInt8
  writtenBytes : Nat
  deriving DecidableEq, Repr

namespace AppendFile

/-- `sizeof(buffer_)` -/
def bufferSize : Nat := 60 * 1024

/-- The constructor: a file that did not exist is opened. -/
def new (opened : Time) : AppendFile := ⟨opened, [], [], 0⟩

/-- `fwrite_unlocked`, behind which the last `left` bytes remain in the buffer. -/
def write (f : AppendFile) (msg : List UInt8) (left : Nat) : AppendFile :=
  let all := f.buffer ++ msg
  { f with
    contents := f.contents ++ all.take (all.length - left)
    buffer := all.drop (all.length - left) }

/-- `write` returns `len`, so that `remain` is 0 and the loop is not entered. -/
def append (f : AppendFile) (msg : List UInt8) (left : Nat) : AppendFile :=
  { f.write msg left with writtenBytes := f.writtenBytes + msg.length }

def flush (f : AppendFile) : AppendFile :=
  { f with contents := f.contents ++ f.buffer, buffer := [] }

/-- stdio: bytes remain in the buffer until it is full, and it is never more
than full. -/
def Buffers (f : AppendFile) (msg : List UInt8) (left : Nat) : Prop :=
  if f.buffer.length + msg.length < bufferSize then left = f.buffer.length + msg.length
  else left ≤ bufferSize

instance (f : AppendFile) (msg : List UInt8) (left : Nat) : Decidable (f.Buffers msg left) := by
  unfold Buffers
  infer_instance

end AppendFile

structure LogFile where
  flushInterval : Int
  rollSize : Int
  checkEveryN : Int
  lastRoll : Time
  lastFlush : Time
  startTime : Time
  count : Int
  file : Option AppendFile
  /-- the files opened before this one, by the time in their name and with what
  has reached them -/
  replaced : List (Time × List UInt8)
  deriving DecidableEq, Repr

namespace LogFile

/-- The day of `now`. -/
def period (now : Time) : Time := now.tdiv (60 * 60 * 24) * (60 * 60 * 24)

/-- `static_cast<size_t>(rollSize_)` -/
def rollBytes (l : LogFile) : Nat := (BitVec.ofInt 64 l.rollSize).toNat

/-- `rollFile` at the time `now`. `file_.reset` deletes an `AppendFile`, which
has no destructor: its stream is neither flushed nor closed. -/
def rollFile (l : LogFile) (now : Time) : LogFile × Bool :=
  if l.lastRoll < now then
    ({ l with
      lastRoll := now
      lastFlush := now
      startTime := period now
      file := some (.new now)
      replaced := l.replaced ++ l.file.toList.map fun f => (f.opened, f.contents) }, true)
  else (l, false)

/-- The constructor, which rolls at the time `now`. -/
def new (rollSize flushInterval checkEveryN : Int) (now : Time) : LogFile :=
  (rollFile ⟨flushInterval, rollSize, checkEveryN, 0, 0, 0, 0, none, []⟩ now).1

/-- `*file_` -/
def deref (l : LogFile) : Checked AppendFile :=
  match l.file with
  | some f => return f
  | none => .error .nullFile

/-- `append_unlocked`. The clock is read once for the check, and once more when
the file is rolled. -/
def append (l : LogFile) (logline : List UInt8) (left : Nat) (now rollNow : Time) :
    Checked LogFile := do
  let f ← l.deref
  let f := f.append logline left
  let l := { l with file := some f }
  if l.rollBytes < f.writtenBytes then
    return (l.rollFile rollNow).1
  else
    let l := { l with count := l.count + 1 }
    if l.checkEveryN ≤ l.count then
      let l := { l with count := 0 }
      if period now ≠ l.startTime then
        return (l.rollFile rollNow).1
      else if l.flushInterval < now - l.lastFlush then
        return { l with lastFlush := now, file := some f.flush }
      else
        return l
    else
      return l

def flush (l : LogFile) : Checked LogFile := do
  let f ← l.deref
  return { l with file := some f.flush }

/-- The contents of the files opened, in the order of opening. -/
def contents (l : LogFile) : List UInt8 :=
  l.replaced.flatMap Prod.snd ++ l.file.elim [] AppendFile.contents

end LogFile

end Muduo
