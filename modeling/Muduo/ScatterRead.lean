import Muduo.Buffer

/-!
`Buffer::readFd` of `net/Buffer.cpp` with the `iovec`s that it gives to `readv`
and the `extrabuf` on its stack. `readv` goes on to the second `iovec` when the
first is full.

* `readFd_buffer`: the buffer is the one of `Buffer.readFd`, where the bytes
  that do not fit are a list of their own;
* `readFd_appends`: what a call appends and returns.
-/

namespace Muduo

open Lib

namespace ScatterRead

/-- What an `iovec` can point into. -/
inductive Block where
  | buffer
  | extrabuf
  deriving DecidableEq, Repr

/-- `struct iovec`, with `iov_base` as an offset in a block. -/
structure Iovec where
  block : Block
  iovBase : Nat
  iovLen : Nat
  deriving DecidableEq, Repr

structure Memory where
  buffer : List UInt8
  extrabuf : List UInt8
  deriving DecidableEq, Repr

def Memory.store (m : Memory) (v : Iovec) (bytes : List UInt8) : Memory :=
  match v.block with
  | .buffer => { m with buffer := blit m.buffer v.iovBase bytes }
  | .extrabuf => { m with extrabuf := blit m.extrabuf v.iovBase bytes }

/-- `readv` with the bytes that it receives. -/
def readv : List Iovec → Memory → List UInt8 → Memory
  | [], m, _ => m
  | v :: vec, m, bytes => readv vec (m.store v (bytes.take v.iovLen)) (bytes.drop v.iovLen)

def totalSize : List Iovec → Nat
  | [] => 0
  | v :: vec => v.iovLen + totalSize vec

/-- `char extrabuf[65536]`, with whatever is on the stack. -/
structure Extrabuf where
  bytes : List UInt8
  size : bytes.length = Buffer.extrabufSize

/-- The first `iovcnt` elements of `vec`. -/
def vec (b : Buffer) : List Iovec :=
  let writable := b.writableBytes
  let iovcnt := if writable < Buffer.extrabufSize then 2 else 1
  [⟨.buffer, b.writerIndex, writable⟩, ⟨.extrabuf, 0, Buffer.extrabufSize⟩].take iovcnt

/-- `n` is not larger than what is offered. -/
def Fits (b : Buffer) : ReadResult → Prop
  | .received bytes => bytes.length ≤ totalSize (vec b)
  | .failed _ => True

/-- What a call of `readFd` returns and leaves behind. -/
structure Outcome where
  n : Int
  buffer : Buffer
  savedErrno : Option Errno
  deriving DecidableEq, Repr

def readFd (b : Buffer) (extrabuf : Extrabuf) (savedErrno : Option Errno) :
    ReadResult → Checked Outcome
  | .failed errno => return ⟨-1, b, some errno⟩
  | .received bytes => do
    let writable := b.writableBytes
    let m := readv (vec b) ⟨b.buffer, extrabuf.bytes⟩ bytes
    let n := bytes.length
    let b := { b with buffer := m.buffer }
    if n ≤ writable then
      return ⟨n, { b with writerIndex := b.writerIndex + n }, savedErrno⟩
    else
      let b ← { b with writerIndex := b.buffer.length }.append
        (fun i => m.extrabuf.getD i 0) (n - writable)
      return ⟨n, b, savedErrno⟩

/-! ## What is offered -/

theorem vec_two {b : Buffer} (h : b.writableBytes < Buffer.extrabufSize) :
    vec b = [⟨.buffer, b.writerIndex, b.writableBytes⟩, ⟨.extrabuf, 0, Buffer.extrabufSize⟩] := by
  simp [vec, h]

theorem vec_one {b : Buffer} (h : ¬ b.writableBytes < Buffer.extrabufSize) :
    vec b = [⟨.buffer, b.writerIndex, b.writableBytes⟩] := by
  simp [vec, h]

theorem totalSize_vec (b : Buffer) : totalSize (vec b) = b.offered := by
  unfold Buffer.offered
  split
  · simp [vec_two ‹_›, totalSize]
  · simp [vec_one ‹_›, totalSize]

/-- Bytes that do not fit come only while `extrabuf` is offered, which holds
them. -/
theorem spill_le {b : Buffer} {n : Nat} (hfits : n ≤ totalSize (vec b))
    (hspill : b.writableBytes < n) :
    b.writableBytes < Buffer.extrabufSize ∧ n - b.writableBytes ≤ Buffer.extrabufSize := by
  rw [totalSize_vec, Buffer.offered] at hfits
  split at hfits
  · exact ⟨‹_›, by omega⟩
  · omega

/-! ## Where `readv` puts the bytes -/

theorem readv_buffer (b : Buffer) (extrabuf bytes : List UInt8) :
    (readv (vec b) ⟨b.buffer, extrabuf⟩ bytes).buffer =
      (b.fill (bytes.take b.writableBytes)).buffer := by
  by_cases h : b.writableBytes < Buffer.extrabufSize
  · rw [vec_two h]
    rfl
  · rw [vec_one h]
    rfl

theorem readv_extrabuf {b : Buffer} (h : b.writableBytes < Buffer.extrabufSize)
    (extrabuf bytes : List UInt8) :
    (readv (vec b) ⟨b.buffer, extrabuf⟩ bytes).extrabuf =
      blit extrabuf 0 ((bytes.drop b.writableBytes).take Buffer.extrabufSize) := by
  rw [vec_two h]
  rfl

/-- The bytes at the start of a block, after they have been stored there. -/
theorem bytesAt_blit {l bs : List UInt8} (h : bs.length ≤ l.length) :
    bytesAt (fun i => (blit l 0 bs).getD i 0) bs.length = bs := by
  apply List.ext_getElem?
  intro i
  have hread := getElem?_blit l 0 bs i (by omega)
  by_cases hi : i < bs.length
  · simp [bytesAt, hread, hi]
  · simp [bytesAt, hi]

/-- What spills is in `extrabuf`, from its start on. -/
theorem bytesAt_extrabuf {b : Buffer} {bytes : List UInt8} (extrabuf : Extrabuf)
    (hfits : bytes.length ≤ totalSize (vec b)) (hspill : b.writableBytes < bytes.length) :
    bytesAt (fun i => (readv (vec b) ⟨b.buffer, extrabuf.bytes⟩ bytes).extrabuf.getD i 0)
      (bytes.length - b.writableBytes) = bytes.drop b.writableBytes := by
  obtain ⟨hwritable, hle⟩ := spill_le hfits hspill
  have hlen : (bytes.drop b.writableBytes).length ≤ Buffer.extrabufSize := by
    rw [List.length_drop]
    exact hle
  rw [readv_extrabuf hwritable, List.take_of_length_le hlen, ← List.length_drop]
  exact bytesAt_blit (extrabuf.size ▸ hlen)

/-! ## The call -/

theorem readFd_buffer {b : Buffer} (extrabuf : Extrabuf) (savedErrno : Option Errno)
    {bytes : List UInt8} (hfits : bytes.length ≤ totalSize (vec b)) :
    readFd b extrabuf savedErrno (.received bytes) =
      (b.readFd (.received bytes)).map fun b' => ⟨bytes.length, b', savedErrno⟩ := by
  simp only [readFd, Buffer.readFd, readv_buffer]
  by_cases hfit : bytes.length ≤ b.writableBytes
  · rw [if_pos hfit, if_pos hfit]
    rfl
  · have hspill : b.writableBytes < bytes.length := Nat.lt_of_not_le hfit
    have hread : bytesAt (fun i => (bytes.drop b.writableBytes).getD i 0)
        (bytes.length - b.writableBytes) = bytes.drop b.writableBytes := by
      rw [← List.length_drop]
      exact Buffer.bytesAt_getD _
    rw [if_neg hfit, if_neg hfit,
      Buffer.append_congr _ ((bytesAt_extrabuf extrabuf hfits hspill).trans hread.symm)]
    rfl

/-- **Reading.** Whatever `readv` receives within what it is offered is appended
to the content, in order, and counted; an error goes to `*savedErrno`, and the
buffer stays as it is. -/
theorem readFd_appends {b : Buffer} (h : b.WF) (extrabuf : Extrabuf)
    (savedErrno : Option Errno) {r : ReadResult} (hfits : Fits b r) :
    ∃ o, readFd b extrabuf savedErrno r = .ok o ∧
      match r with
      | .received bytes => o.n = bytes.length ∧ o.buffer.WF ∧
          o.buffer.content = b.content ++ bytes ∧ o.savedErrno = savedErrno
      | .failed errno => o.n = -1 ∧ o.buffer = b ∧ o.savedErrno = some errno := by
  cases r with
  | received bytes =>
    obtain ⟨b', hb', hbec⟩ := Buffer.readFd_spec h bytes
    refine ⟨⟨bytes.length, b', savedErrno⟩, ?_, rfl, hbec.wf, hbec.content, rfl⟩
    rw [readFd_buffer extrabuf savedErrno hfits, hb']
    rfl
  | failed errno => exact ⟨⟨-1, b, some errno⟩, rfl, rfl, rfl, rfl⟩

/-- Three bytes of which two fit behind the one that is there. -/
theorem readFd_appends_spill :
    ∃ o, readFd ⟨List.replicate 11 0, 8, 9⟩ ⟨List.replicate 65536 0, List.length_replicate⟩ none
        (.received [1, 2, 3]) = .ok o ∧
      o.n = 3 ∧ o.buffer.content = [0, 1, 2, 3] := by
  obtain ⟨o, ho, hn, -, hcontent, -⟩ := readFd_appends
    (b := ⟨List.replicate 11 0, 8, 9⟩) ⟨by decide, by decide, by decide⟩
    ⟨List.replicate 65536 0, List.length_replicate⟩ none (r := .received [1, 2, 3])
    (by simp only [Fits]; decide)
  exact ⟨o, ho, hn, hcontent⟩

end ScatterRead

end Muduo
