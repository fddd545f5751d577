import Muduo.Buffer
import Muduo.Endian

/-!
The integers of `net/Buffer.h`: `appendIntN`, `peekIntN`, `readIntN`,
`retrieveIntN` and `prependIntN` for four widths. The conversion and the bytes
in memory depend on the byte order of the host, the result does not:
`appendInt_spec` adds the bytes of the two's complement, `readInt_spec` takes
them off again, and `appendAll_spec` and `readAll_spec` say the same about
lists of integers of any types.
-/

namespace Muduo

open Lib

namespace Buffer

/-! ## Words -/

/-- A pointer to a word in the memory of the host. -/
def addressOf (o : ByteOrder) {n : Nat} (x : BitVec (8 * n)) : Nat → UInt8 :=
  fun i => (o.store x).getD i 0

/-- `append(&be, sizeof be)`. -/
def appendWord (o : ByteOrder) (b : Buffer) (n : Nat) (be : BitVec (8 * n)) : Checked Buffer :=
  b.append (addressOf o be) n

/-- `prepend(&be, sizeof be)`. -/
def prependWord (o : ByteOrder) (b : Buffer) (n : Nat) (be : BitVec (8 * n)) : Checked Buffer :=
  b.prepend (addressOf o be) n

/-- The assertion of `peekIntN` and `memcpy(&be, peek(), sizeof be)`. -/
def peekWord (o : ByteOrder) (b : Buffer) (n : Nat) : Checked (BitVec (8 * n)) := do
  check (n ≤ b.readableBytes) .peekInt
  return o.load n (bytesAt b.peek n)

/-! ## The functions of the class -/

section Integers

variable (o : ByteOrder) (b : Buffer)

def retrieveInt64 : Checked Buffer := b.retrieve 8
def retrieveInt32 : Checked Buffer := b.retrieve 4
def retrieveInt16 : Checked Buffer := b.retrieve 2
def retrieveInt8 : Checked Buffer := b.retrieve 1

def appendInt64 (x : BitVec 64) : Checked Buffer :=
  let be64 := hostToNetwork64 o x
  b.appendWord o 8 be64

def appendInt32 (x : BitVec 32) : Checked Buffer :=
  let be32 := hostToNetwork32 o x
  b.appendWord o 4 be32

def appendInt16 (x : BitVec 16) : Checked Buffer :=
  let be16 := hostToNetwork16 o x
  b.appendWord o 2 be16

def appendInt8 (x : BitVec 8) : Checked Buffer := b.appendWord o 1 x

def peekInt64 : Checked (BitVec 64) := do
  let be64 ← b.peekWord o 8
  return networkToHost64 o be64

def peekInt32 : Checked (BitVec 32) := do
  let be32 ← b.peekWord o 4
  return networkToHost32 o be32

def peekInt16 : Checked (BitVec 16) := do
  let be16 ← b.peekWord o 2
  return networkToHost16 o be16

def peekInt8 : Checked (BitVec 8) := b.peekWord o 1

def readInt64 : Checked (BitVec 64 × Buffer) := do
  let result ← b.peekInt64 o
  let b ← b.retrieveInt64
  return (result, b)

def readInt32 : Checked (BitVec 32 × Buffer) := do
  let result ← b.peekInt32 o
  let b ← b.retrieveInt32
  return (result, b)

def readInt16 : Checked (BitVec 16 × Buffer) := do
  let result ← b.peekInt16 o
  let b ← b.retrieveInt16
  return (result, b)

def readInt8 : Checked (BitVec 8 × Buffer) := do
  let result ← b.peekInt8 o
  let b ← b.retrieveInt8
  return (result, b)

def prependInt64 (x : BitVec 64) : Checked Buffer :=
  let be64 := hostToNetwork64 o x
  b.prependWord o 8 be64

def prependInt32 (x : BitVec 32) : Checked Buffer :=
  let be32 := hostToNetwork32 o x
  b.prependWord o 4 be32

def prependInt16 (x : BitVec 16) : Checked Buffer :=
  let be16 := hostToNetwork16 o x
  b.prependWord o 2 be16

def prependInt8 (x : BitVec 8) : Checked Buffer := b.prependWord o 1 x

end Integers

end Buffer

/-! ## Integers of any type -/

inductive IntType where
  | int8
  | int16
  | int32
  | int64
  deriving DecidableEq, Repr

/-- `sizeof`. -/
def IntType.size : IntType → Nat
  | int8 => 1
  | int16 => 2
  | int32 => 4
  | int64 => 8

abbrev IntType.Value (t : IntType) : Type := BitVec (8 * t.size)

structure TypedInt where
  type : IntType
  value : type.Value
  deriving DecidableEq, Repr

/-- The network representation: big-endian two's complement. -/
def TypedInt.bytes (x : TypedInt) : List UInt8 := twosComplement x.type.size x.value.toInt

namespace Buffer

section Typed

variable (o : ByteOrder) (b : Buffer)

def appendInt : TypedInt → Checked Buffer
  | ⟨.int8, x⟩ => b.appendInt8 o x
  | ⟨.int16, x⟩ => b.appendInt16 o x
  | ⟨.int32, x⟩ => b.appendInt32 o x
  | ⟨.int64, x⟩ => b.appendInt64 o x

def prependInt : TypedInt → Checked Buffer
  | ⟨.int8, x⟩ => b.prependInt8 o x
  | ⟨.int16, x⟩ => b.prependInt16 o x
  | ⟨.int32, x⟩ => b.prependInt32 o x
  | ⟨.int64, x⟩ => b.prependInt64 o x

def peekInt : (t : IntType) → Checked t.Value
  | .int8 => b.peekInt8 o
  | .int16 => b.peekInt16 o
  | .int32 => b.peekInt32 o
  | .int64 => b.peekInt64 o

def readInt : (t : IntType) → Checked (t.Value × Buffer)
  | .int8 => b.readInt8 o
  | .int16 => b.readInt16 o
  | .int32 => b.readInt32 o
  | .int64 => b.readInt64 o

end Typed

/-- Append one integer after the other. -/
def appendAll (o : ByteOrder) (b : Buffer) : List TypedInt → Checked Buffer
  | [] => return b
  | x :: xs => do
    let b ← b.appendInt o x
    b.appendAll o xs

/-- Read integers of the given types. -/
def readAll (o : ByteOrder) (b : Buffer) : List IntType → Checked (List TypedInt × Buffer)
  | [] => return ([], b)
  | t :: ts => do
    let (x, b) ← b.readInt o t
    let (xs, b) ← b.readAll o ts
    return (⟨t, x⟩ :: xs, b)

/-! ## All widths at once -/

variable {o : ByteOrder} {b : Buffer}

theorem appendInt_eq (x : TypedInt) :
    b.appendInt o x = b.appendWord o x.type.size (o.toBig x.value) := by
  obtain ⟨t, x⟩ := x
  cases t with
  | int8 => exact congrArg (b.appendWord o 1) (o.toBig_byte x).symm
  | _ => rfl

theorem prependInt_eq (x : TypedInt) :
    b.prependInt o x = b.prependWord o x.type.size (o.toBig x.value) := by
  obtain ⟨t, x⟩ := x
  cases t with
  | int8 => exact congrArg (b.prependWord o 1) (o.toBig_byte x).symm
  | _ => rfl

theorem peekInt_eq (t : IntType) :
    b.peekInt o t = (b.peekWord o t.size).map o.fromBig := by
  cases t with
  | int8 =>
    have hid : (o.fromBig : BitVec (8 * 1) → BitVec (8 * 1)) = id := funext o.fromBig_byte
    change b.peekWord o 1 = (b.peekWord o 1).map o.fromBig
    rw [hid, Except.map_id, id]
  | _ => rfl

theorem readInt_eq (t : IntType) :
    b.readInt o t = do
      let x ← b.peekInt o t
      let b ← b.retrieve t.size
      return (x, b) := by
  cases t <;> rfl

theorem bytesAt_addressOf {n : Nat} (x : BitVec (8 * n)) :
    bytesAt (addressOf o (o.toBig x)) n = twosComplement n x.toInt := by
  have hstore : bytesAt (addressOf o (o.toBig x)) n = o.store (o.toBig x) := by
    have h := bytesAt_getD (o.store (o.toBig x))
    rwa [ByteOrder.length_store] at h
  rw [hstore, ByteOrder.store_toBig, twosComplement_toInt]

@[simp] theorem length_bytes (x : TypedInt) : x.bytes.length = x.type.size := by
  rw [TypedInt.bytes, twosComplement_toInt, length_bigEndian]

/-! ## One integer -/

theorem appendInt_spec (h : b.WF) (x : TypedInt) :
    ∃ b', b.appendInt o x = .ok b' ∧ Becomes b b' (b.content ++ x.bytes) := by
  obtain ⟨b', hb', hbec⟩ := append_spec h (addressOf o (o.toBig x.value)) x.type.size
  rw [bytesAt_addressOf] at hbec
  exact ⟨b', by rw [appendInt_eq, appendWord, hb'], hbec⟩

theorem prependInt_spec (h : b.WF) (x : TypedInt) (hroom : x.type.size ≤ b.prependableBytes) :
    ∃ b', b.prependInt o x = .ok b' ∧ b'.WF ∧ b'.content = x.bytes ++ b.content := by
  obtain ⟨b', hb', hwf, hc⟩ := prepend_spec h (addressOf o (o.toBig x.value)) hroom
  rw [bytesAt_addressOf] at hc
  exact ⟨b', by rw [prependInt_eq, prependWord, hb'], hwf, hc⟩

theorem size_le_readable (h : b.WF) {x : TypedInt} {rest : List UInt8}
    (hc : b.content = x.bytes ++ rest) : x.type.size ≤ b.readableBytes := by
  rw [← length_content h, hc, List.length_append, length_bytes]
  omega

/-- The value is read off the first bytes, whatever follows them. -/
theorem peekInt_spec (h : b.WF) {x : TypedInt} {rest : List UInt8}
    (hc : b.content = x.bytes ++ rest) : b.peekInt o x.type = .ok x.value := by
  have hlen := size_le_readable h hc
  have hbytes : bytesAt b.peek x.type.size = bigEndian x.type.size x.value.toNat := by
    rw [bytesAt_peek h hlen, hc, List.take_left' (length_bytes x), TypedInt.bytes,
      twosComplement_toInt]
  have hvalue : o.fromBig (o.load x.type.size (bytesAt b.peek x.type.size)) = x.value := by
    rw [ByteOrder.fromBig_load o (length_bytesAt _ _), hbytes, wordBE_bigEndian]
  rw [peekInt_eq, peekWord, check_pos hlen, ok_bind, pure_eq_ok]
  exact congrArg Except.ok hvalue

theorem readInt_spec (h : b.WF) {x : TypedInt} {rest : List UInt8}
    (hc : b.content = x.bytes ++ rest) :
    ∃ b', b.readInt o x.type = .ok (x.value, b') ∧ Becomes b b' rest := by
  obtain ⟨b', hb', hbec⟩ := retrieve_spec h (size_le_readable h hc)
  rw [hc, List.drop_left' (length_bytes x)] at hbec
  exact ⟨b', by rw [readInt_eq, peekInt_spec h hc, hb']; rfl, hbec⟩

/-- `peekIntN` fails when `readIntN` does, by the same assertion. -/
theorem peekInt_eq_readInt (h : b.WF) (t : IntType) :
    b.peekInt o t = (b.readInt o t).map Prod.fst := by
  by_cases hlen : t.size ≤ b.readableBytes
  · obtain ⟨b', hb', _⟩ := retrieve_spec h hlen
    rw [readInt_eq, hb']
    cases b.peekInt o t <;> rfl
  · have hpeek : b.peekInt o t = .error .peekInt := by
      rw [peekInt_eq, peekWord, check, if_neg hlen]
      rfl
    rw [readInt_eq, hpeek]
    rfl

/-! ## Lists of integers -/

theorem appendAll_spec (h : b.WF) (xs : List TypedInt) :
    ∃ b', b.appendAll o xs = .ok b' ∧ Becomes b b' (b.content ++ xs.flatMap TypedInt.bytes) := by
  induction xs generalizing b with
  | nil => exact ⟨b, rfl, h, by simp, id⟩
  | cons x xs ih =>
    obtain ⟨b₁, h₁, hbec₁⟩ := appendInt_spec (o := o) h x
    obtain ⟨b₂, h₂, hbec₂⟩ := ih hbec₁.wf
    rw [hbec₁.content, List.append_assoc, ← List.flatMap_cons] at hbec₂
    exact ⟨b₂, by rw [appendAll, h₁, ok_bind, h₂], hbec₁.trans hbec₂⟩

theorem readAll_spec (h : b.WF) {xs : List TypedInt} {rest : List UInt8}
    (hc : b.content = xs.flatMap TypedInt.bytes ++ rest) :
    ∃ b', b.readAll o (xs.map TypedInt.type) = .ok (xs, b') ∧ Becomes b b' rest := by
  induction xs generalizing b with
  | nil => exact ⟨b, rfl, h, hc, id⟩
  | cons x xs ih =>
    rw [List.flatMap_cons, List.append_assoc] at hc
    obtain ⟨b₁, h₁, hbec₁⟩ := readInt_spec (o := o) h hc
    obtain ⟨b₂, h₂, hbec₂⟩ := ih hbec₁.wf hbec₁.content
    refine ⟨b₂, ?_, hbec₁.trans hbec₂⟩
    simp only [List.map_cons, readAll, h₁, ok_bind, h₂, pure_eq_ok]

/-- What was appended is read back once the bytes before it are retrieved. -/
theorem readAll_appendAll (h : b.WF) (xs : List TypedInt) :
    ∃ b₁ b₂ b₃, b.appendAll o xs = .ok b₁ ∧ b₁.retrieve b.readableBytes = .ok b₂ ∧
      b₂.readAll o (xs.map TypedInt.type) = .ok (xs, b₃) ∧ b₃.readableBytes = 0 := by
  obtain ⟨b₁, h₁, hbec₁⟩ := appendAll_spec (o := o) h xs
  have hlen : b.readableBytes ≤ b₁.readableBytes := by
    rw [← length_content h, ← length_content hbec₁.wf, hbec₁.content, List.length_append]
    omega
  obtain ⟨b₂, h₂, hbec₂⟩ := retrieve_spec hbec₁.wf hlen
  rw [hbec₁.content, List.drop_left' (length_content h),
    ← List.append_nil (xs.flatMap TypedInt.bytes)] at hbec₂
  obtain ⟨b₃, h₃, hbec₃⟩ := readAll_spec (o := o) hbec₂.wf hbec₂.content
  exact ⟨b₁, b₂, b₃, h₁, h₂, h₃, (content_eq_nil hbec₃.wf).mp hbec₃.content⟩

theorem readInt_prependInt (h : b.WF) (x : TypedInt) (hroom : x.type.size ≤ b.prependableBytes) :
    ∃ b₁ b₂, b.prependInt o x = .ok b₁ ∧ b₁.readInt o x.type = .ok (x.value, b₂) ∧
      b₂.content = b.content := by
  obtain ⟨b₁, h₁, hwf, hc⟩ := prependInt_spec (o := o) h x hroom
  obtain ⟨b₂, h₂, hbec⟩ := readInt_spec (o := o) hwf hc
  exact ⟨b₁, b₂, h₁, h₂, hbec.content⟩

/-- **Integers round-trip through a `Buffer`**, on a host of either byte order:
in lists of any types, one at a time at the end, by peeking, and through a
prepend. -/
theorem integers_round_trip (o : ByteOrder) {b : Buffer} (h : b.WF) :
    (∀ xs : List TypedInt, ∃ b₁ b₂ b₃, b.appendAll o xs = .ok b₁ ∧
      b₁.retrieve b.readableBytes = .ok b₂ ∧
      b₂.readAll o (xs.map TypedInt.type) = .ok (xs, b₃) ∧ b₃.readableBytes = 0) ∧
    (∀ x : TypedInt, ∃ b', b.appendInt o x = .ok b' ∧ b'.WF ∧
      b'.content = b.content ++ twosComplement x.type.size x.value.toInt) ∧
    (∀ t : IntType, b.peekInt o t = (b.readInt o t).map Prod.fst) ∧
    (∀ x : TypedInt, x.type.size ≤ b.prependableBytes →
      ∃ b₁ b₂, b.prependInt o x = .ok b₁ ∧ b₁.readInt o x.type = .ok (x.value, b₂) ∧
        b₂.content = b.content) := by
  refine ⟨readAll_appendAll h, ?_, peekInt_eq_readInt h, readInt_prependInt h⟩
  intro x
  obtain ⟨b', hb', hbec⟩ := appendInt_spec (o := o) h x
  exact ⟨b', hb', hbec.wf, hbec.content⟩

/-- Negative values in a buffer that compacts, and a prepend that fills it. -/
theorem integers_round_trip_sample :
    ∃ b₁ b₂ b₃ b₄ : Buffer,
      appendAll .little ⟨List.replicate 20 0, 15, 16⟩ [⟨.int16, -2⟩, ⟨.int64, -3⟩, ⟨.int8, 4⟩] = .ok b₁ ∧
      b₁.retrieve 1 = .ok b₂ ∧
      b₂.readAll .little [.int16, .int64, .int8] =
        .ok ([⟨.int16, -2⟩, ⟨.int64, -3⟩, ⟨.int8, 4⟩], b₃) ∧
      prependInt .big ⟨List.replicate 20 0, 15, 16⟩ ⟨.int64, -5⟩ = .ok b₄ := by
  have hwf : WF ⟨List.replicate 20 0, 15, 16⟩ := ⟨by decide, by decide, by decide⟩
  obtain ⟨hall, _⟩ := integers_round_trip .little hwf
  obtain ⟨_, _, _, hprepend⟩ := integers_round_trip .big hwf
  obtain ⟨b₁, b₂, b₃, h₁, h₂, h₃, _⟩ := hall [⟨.int16, -2⟩, ⟨.int64, -3⟩, ⟨.int8, 4⟩]
  obtain ⟨b₄, _, h₄, _⟩ := hprepend ⟨.int64, -5⟩ (by decide)
  exact ⟨b₁, b₂, b₃, b₄, h₁, h₂, h₃, h₄⟩

end Buffer

end Muduo
