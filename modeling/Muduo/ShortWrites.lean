import Muduo.Buffer
import Muduo.LogFile

/-!
`AppendFile::append` of `src/FileUtil.cpp` with writes that take a part of what
they are offered. `remain` is `n - len` where `len - n` bytes are left, and the
pointer stays at the start of the message.

* `retry_calls`: what the loop asks for first;
* `append_exact_iff`: the message is written as it should be exactly if the
  first write takes all of it;
* `append_logFile`: then this is the `append` of `LogFile`.
-/

namespace Muduo

open Lib

/-- `const char* msg, size_t len`, with the memory from `msg` on. No object has
`2 ^ 63` bytes. -/
structure Source where
  memory : Nat → UInt8
  len : Nat
  object : len < 2 ^ 63

def Source.bytes (s : Source) : List UInt8 := bytesAt s.memory s.len

/-- A call of `fwrite_unlocked`: where it reads, counted from `msg` on, how many
bytes it is asked for, and how many it takes. -/
structure Fwrite where
  offset : Nat
  requested : Nat
  taken : Nat
  deriving DecidableEq, Repr

namespace FileUtil

structure AppendFile where
  /-- the bytes that `fp_` has taken -/
  stream : List UInt8
  writtenBytes : Nat
  /-- the calls of `fwrite_unlocked` so far -/
  calls : List Fwrite

namespace AppendFile

variable (counts : Nat → Nat)

/-- `counts` is what `fwrite_unlocked` would take, call after call; it takes no
more than it is asked for. -/
def write (f : AppendFile) (s : Source) (offset len : Nat) : AppendFile × Nat :=
  let taken := min (counts f.calls.length) len
  ({ f with
    stream := f.stream ++ bytesAt (fun i => s.memory (offset + i)) taken
    calls := f.calls ++ [⟨offset, len, taken⟩] }, taken)

theorem write_le (f : AppendFile) (s : Source) (offset len : Nat) :
    (f.write counts s offset len).2 ≤ len :=
  Nat.min_le_right ..

theorem sub_lt {remain : BitVec 64} {x : Nat} (hx : x ≠ 0) (hle : x ≤ remain.toNat) :
    (remain - BitVec.ofNat 64 x).toNat < remain.toNat := by
  have hremain := remain.isLt
  rw [BitVec.toNat_sub, BitVec.toNat_ofNat]
  omega

/-- `while (remain > 0)`. -/
def retry (f : AppendFile) (s : Source) (remain : BitVec 64) : AppendFile :=
  if remain = 0 then f
  else
    let fx := f.write counts s 0 remain.toNat
    if fx.2 = 0 then fx.1 else retry fx.1 s (remain - BitVec.ofNat 64 fx.2)
  termination_by remain.toNat
  decreasing_by exact sub_lt ‹_› (write_le ..)

def append (f : AppendFile) (s : Source) : AppendFile :=
  let fn := f.write counts s 0 s.len
  let remain : BitVec 64 := BitVec.ofNat 64 fn.2 - BitVec.ofNat 64 s.len
  let f := retry counts fn.1 s remain
  { f with writtenBytes := f.writtenBytes + s.len }

/-- From `f` to `f'` the message has been written: all writes read inside it,
and it has gone into the stream, or the part of it before the write that took
nothing. -/
structure Written (s : Source) (f f' : AppendFile) : Prop where
  inside : ∀ w ∈ f'.calls.drop f.calls.length, w.offset + w.requested ≤ s.len
  exact : f'.stream = f.stream ++ s.bytes ∨
    ∃ k, f'.stream = f.stream ++ s.bytes.take k ∧ ∃ w, f'.calls.getLast? = some w ∧ w.taken = 0

variable {counts}

theorem retry_zero (f : AppendFile) (s : Source) : retry counts f s 0 = f := by
  rw [retry, if_pos rfl]

theorem write_calls (f : AppendFile) (s : Source) (offset len : Nat) :
    (f.write counts s offset len).1.calls =
      f.calls ++ [⟨offset, len, (f.write counts s offset len).2⟩] := rfl

/-- The calls made before are not forgotten. -/
theorem retry_prefix (f : AppendFile) (s : Source) (remain : BitVec 64) :
    f.calls <+: (retry counts f s remain).calls := by
  fun_induction retry counts f s remain with
  | case1 f => exact List.prefix_rfl
  | case2 f remain _ fx _ =>
    rw [write_calls]
    exact List.prefix_append ..
  | case3 f remain _ fx _ ih =>
    refine List.IsPrefix.trans ?_ ih
    rw [write_calls]
    exact List.prefix_append ..

/-- The loop first asks for all that remains, from the start of the message. -/
theorem retry_calls (f : AppendFile) (s : Source) {remain : BitVec 64} (h : remain ≠ 0) :
    ∃ taken, f.calls ++ [⟨0, remain.toNat, taken⟩] <+: (retry counts f s remain).calls := by
  refine ⟨(f.write counts s 0 remain.toNat).2, ?_⟩
  rw [← write_calls, retry, if_neg h]
  dsimp only
  split
  · exact List.prefix_rfl
  · exact retry_prefix ..

/-- What is left when `n` of `len` bytes have been taken is a large number. -/
theorem remain_large {n len : Nat} (hn : n < len) (hlen : len < 2 ^ 63) :
    len < (BitVec.ofNat 64 n - BitVec.ofNat 64 len).toNat := by
  rw [BitVec.toNat_sub, BitVec.toNat_ofNat, BitVec.toNat_ofNat]
  omega

/-- The first write takes everything, and the loop is not entered. -/
theorem append_full {f : AppendFile} {s : Source} (h : s.len ≤ counts f.calls.length) :
    append counts f s =
      ⟨f.stream ++ s.bytes, f.writtenBytes + s.len, f.calls ++ [⟨0, s.len, s.len⟩]⟩ := by
  have htaken : (f.write counts s 0 s.len).2 = s.len := Nat.min_eq_right h
  have hwrite : (f.write counts s 0 s.len).1 =
      ⟨f.stream ++ s.bytes, f.writtenBytes, f.calls ++ [⟨0, s.len, s.len⟩]⟩ := by
    simp [write, Source.bytes, Nat.min_eq_right h]
  simp only [append, htaken, BitVec.sub_self]
  rw [show (0#64 : BitVec 64) = 0 from rfl, retry_zero, hwrite]

/-- The first write leaves a rest, and the loop asks for more than the message. -/
theorem append_short {f : AppendFile} {s : Source} (h : counts f.calls.length < s.len) :
    ∃ w ∈ (append counts f s).calls.drop f.calls.length, s.len < w.offset + w.requested := by
  have htaken : (f.write counts s 0 s.len).2 = counts f.calls.length :=
    Nat.min_eq_left (Nat.le_of_lt h)
  obtain ⟨remain, hremain⟩ : ∃ remain : BitVec 64,
      remain = BitVec.ofNat 64 (counts f.calls.length) - BitVec.ofNat 64 s.len := ⟨_, rfl⟩
  have hlarge : s.len < remain.toNat := hremain ▸ remain_large h s.object
  have hne : remain ≠ 0 := by
    rintro rfl
    exact absurd hlarge (Nat.not_lt_zero _)
  obtain ⟨taken, rest, hrest⟩ := retry_calls (f.write counts s 0 s.len).1 s hne
  have hcalls : (append counts f s).calls.drop f.calls.length =
      [⟨0, s.len, counts f.calls.length⟩, ⟨0, remain.toNat, taken⟩] ++ rest := by
    simp only [append, htaken]
    rw [← hremain, ← hrest, write_calls, htaken, List.append_assoc, List.append_assoc,
      List.drop_left]
    rfl
  refine ⟨⟨0, remain.toNat, taken⟩, ?_, by simpa using hlarge⟩
  rw [hcalls]
  simp

/-- **Short writes.** The message is written as it should be exactly if the
first write takes all of it. -/
theorem append_exact_iff (counts : Nat → Nat) (f : AppendFile) (s : Source) :
    Written s f (append counts f s) ↔ s.len ≤ counts f.calls.length := by
  constructor
  · intro h
    by_contra hshort
    obtain ⟨w, hw, hlarge⟩ := append_short (Nat.lt_of_not_le hshort)
    exact absurd (h.inside w hw) (Nat.not_le_of_lt hlarge)
  · intro hfull
    rw [append_full hfull]
    refine ⟨?_, .inl rfl⟩
    intro w hw
    rw [List.drop_left, List.mem_singleton] at hw
    rw [hw]
    exact Nat.le_of_eq (Nat.zero_add _)

/-- Where it does, the file is that of `LogFile` behind its `append`. -/
theorem append_logFile {counts : Nat → Nat} {f : AppendFile} {s : Source}
    (hfull : s.len ≤ counts f.calls.length) {g : Muduo.AppendFile}
    (hstream : g.contents ++ g.buffer = f.stream) (hbytes : g.writtenBytes = f.writtenBytes)
    (left : Nat) :
    (g.append s.bytes left).contents ++ (g.append s.bytes left).buffer =
        (append counts f s).stream ∧
      (g.append s.bytes left).writtenBytes = (append counts f s).writtenBytes := by
  rw [append_full hfull, ← hstream, ← hbytes]
  constructor
  · simp only [Muduo.AppendFile.append, Muduo.AppendFile.write]
    rw [List.append_assoc, List.take_append_drop, List.append_assoc]
  · simp [Muduo.AppendFile.append, Source.bytes]

/-- A message of three bytes of which the first write takes one. The loop asks
for `2 ^ 64 - 2` bytes from the start of the message on, of which five are
taken: the first byte again, and two that are not of the message. -/
theorem short_write_overreads :
    ∃ (counts : Nat → Nat) (s : Source), counts 0 = 1 ∧ s.bytes = [1, 2, 3] ∧
      (append counts ⟨[], 0, []⟩ s).calls =
        [⟨0, 3, 1⟩, ⟨0, 2 ^ 64 - 2, 5⟩, ⟨0, 2 ^ 64 - 7, 0⟩] ∧
      (append counts ⟨[], 0, []⟩ s).stream = [1, 1, 2, 3, 4, 5] ∧
      ¬ Written s ⟨[], 0, []⟩ (append counts ⟨[], 0, []⟩ s) := by
  let counts (i : Nat) : Nat := if i = 0 then 1 else if i = 1 then 5 else 0
  let s : Source := ⟨fun i => UInt8.ofNat (i + 1), 3, by decide⟩
  refine ⟨counts, s, rfl, by decide, ?_, ?_, ?_⟩
  · simp [append, write, retry, counts, s]
  · simp [append, write, retry, counts, s, bytesAt]
    decide
  · intro h
    have hshort : counts (AppendFile.mk [] 0 []).calls.length < s.len := by decide
    obtain ⟨w, hw, hlarge⟩ := append_short hshort
    exact absurd (h.inside w hw) (Nat.not_le_of_lt hlarge)

end AppendFile

end FileUtil

end Muduo
