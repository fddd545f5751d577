import Mathlib.Algebra.Group.Nat.Defs
import Muduo.SocketOps
import Muduo.Lib.Slice

/-!
`net/Buffer.h`: a byte queue in one vector, with two indices into it. Pointers
into the vector are offsets from `begin()`; a pointer argument is the function
that gives the byte at each offset from it, so that reading behind the end of
the caller's data is reading its neighbours in memory.

Sizes are natural numbers. `sums_below_size_t` gives the bound under which the
sums of the source do not wrap around.
-/

namespace Muduo

open Lib

/-- The `len` bytes from a pointer on. -/
def bytesAt (data : Nat → UInt8) (len : Nat) : List UInt8 := (List.range len).map data

@[simp] theorem length_bytesAt (data : Nat → UInt8) (len : Nat) :
    (bytesAt data len).length = len := by simp [bytesAt]

structure Buffer where
  buffer : List UInt8
  readerIndex : Nat
  writerIndex : Nat
  deriving DecidableEq, Repr

namespace Buffer

def kCheapPrepend : Nat := 8
def kInitialSize : Nat := 1024

def readableBytes (b : Buffer) : Nat := b.writerIndex - b.readerIndex
def writableBytes (b : Buffer) : Nat := b.buffer.length - b.writerIndex
def prependableBytes (b : Buffer) : Nat := b.readerIndex

/-- What `Buffer(initialSize)` initialises. -/
def fresh (initialSize : Nat) : Buffer :=
  ⟨List.replicate (kCheapPrepend + initialSize) 0, kCheapPrepend, kCheapPrepend⟩

def new (initialSize : Nat) : Checked Buffer := do
  let b := fresh initialSize
  check (b.readableBytes = 0) .bufferCtor
  check (b.writableBytes = initialSize) .bufferCtor
  check (b.prependableBytes = kCheapPrepend) .bufferCtor
  return b

def swap (b rhs : Buffer) : Buffer × Buffer :=
  (⟨rhs.buffer, rhs.readerIndex, rhs.writerIndex⟩, ⟨b.buffer, b.readerIndex, b.writerIndex⟩)

def peek (b : Buffer) : Nat → UInt8 := fun i => b.buffer.getD (b.readerIndex + i) 0

def retrieveAll (b : Buffer) : Buffer :=
  { b with readerIndex := kCheapPrepend, writerIndex := kCheapPrepend }

def retrieve (b : Buffer) (len : Nat) : Checked Buffer := do
  check (len ≤ b.readableBytes) .retrieve
  if len < b.readableBytes then
    return { b with readerIndex := b.readerIndex + len }
  else
    return b.retrieveAll

/-- `stop` is the offset of the argument `end`. -/
def retrieveUntil (b : Buffer) (stop : Nat) : Checked Buffer := do
  check (b.readerIndex ≤ stop) .retrieveUntil
  check (stop ≤ b.writerIndex) .retrieveUntil
  b.retrieve (stop - b.readerIndex)

def retrieveAsString (b : Buffer) (len : Nat) : Checked (List UInt8 × Buffer) := do
  check (len ≤ b.readableBytes) .retrieveAsString
  let result := bytesAt b.peek len
  let b ← b.retrieve len
  return (result, b)

def retrieveAllAsString (b : Buffer) : Checked (List UInt8 × Buffer) :=
  b.retrieveAsString b.readableBytes

def makeSpace (b : Buffer) (len : Nat) : Checked Buffer := do
  if b.writableBytes + b.prependableBytes < len + kCheapPrepend then
    return { b with buffer := resize b.buffer (b.writerIndex + len) }
  else
    check (kCheapPrepend < b.readerIndex) .makeSpace
    let readable := b.readableBytes
    let b : Buffer :=
      { buffer := slide b.buffer b.readerIndex kCheapPrepend readable
        readerIndex := kCheapPrepend
        writerIndex := kCheapPrepend + readable }
    check (readable = b.readableBytes) .makeSpace
    return b

def ensureWritableBytes (b : Buffer) (len : Nat) : Checked Buffer := do
  let b ← if b.writableBytes < len then b.makeSpace len else pure b
  check (len ≤ b.writableBytes) .ensureWritableBytes
  return b

def hasWritten (b : Buffer) (len : Nat) : Checked Buffer := do
  check (len ≤ b.writableBytes) .hasWritten
  return { b with writerIndex := b.writerIndex + len }

def unwrite (b : Buffer) (len : Nat) : Checked Buffer := do
  check (len ≤ b.readableBytes) .unwrite
  return { b with writerIndex := b.writerIndex - len }

/-- Store bytes at `beginWrite()`, as a caller does before `hasWritten`. -/
def fill (b : Buffer) (bs : List UInt8) : Buffer :=
  { b with buffer := blit b.buffer b.writerIndex bs }

def append (b : Buffer) (data : Nat → UInt8) (len : Nat) : Checked Buffer := do
  let b ← b.ensureWritableBytes len
  (b.fill (bytesAt data len)).hasWritten len

def prepend (b : Buffer) (data : Nat → UInt8) (len : Nat) : Checked Buffer := do
  check (len ≤ b.prependableBytes) .prepend
  let readerIndex := b.readerIndex - len
  return { b with buffer := blit b.buffer readerIndex (bytesAt data len), readerIndex }

/-- `sizeof extrabuf` in `readFd`. -/
def extrabufSize : Nat := 65536

/-- The total size of the buffers `readFd` offers to `readv`. -/
def offered (b : Buffer) : Nat :=
  if b.writableBytes < extrabufSize then b.writableBytes + extrabufSize else b.writableBytes

/-- `readv` fills the writable space first, and `extrabuf` with what is left. -/
def readFd (b : Buffer) : ReadResult → Checked Buffer
  | .failed _ => return b
  | .received bytes => do
    let writable := b.writableBytes
    let b := b.fill (bytes.take writable)
    if bytes.length ≤ writable then
      return { b with writerIndex := b.writerIndex + bytes.length }
    else
      let extrabuf := bytes.drop writable
      { b with writerIndex := b.buffer.length }.append (fun i => extrabuf.getD i 0)
        (bytes.length - writable)

/-! ## The invariant and the content -/

/-- `0 <= readerIndex <= writerIndex <= size`, as drawn above the class, and
the vector is never shorter than the area `retrieveAll` returns to. -/
structure WF (b : Buffer) : Prop where
  reader_le : b.readerIndex ≤ b.writerIndex
  writer_le : b.writerIndex ≤ b.buffer.length
  cheap_le : kCheapPrepend ≤ b.buffer.length

/-- The readable bytes. -/
def content (b : Buffer) : List UInt8 := slice b.buffer b.readerIndex b.writerIndex

theorem length_content {b : Buffer} (h : b.WF) : b.content.length = b.readableBytes :=
  length_slice _ h.writer_le

theorem content_eq_nil {b : Buffer} (h : b.WF) : b.content = [] ↔ b.readableBytes = 0 := by
  rw [← length_content h, List.length_eq_zero_iff]

theorem bytesAt_peek {b : Buffer} (h : b.WF) {len : Nat} (hlen : len ≤ b.readableBytes) :
    bytesAt b.peek len = b.content.take len := by
  have hw := h.writer_le
  unfold readableBytes at hlen
  apply List.ext_getElem?
  intro i
  simp only [bytesAt, List.getElem?_map, List.getElem?_take, content, getElem?_slice]
  by_cases hi : i < len
  · have hb : b.readerIndex + i < b.buffer.length := by omega
    simp [hi, hb, peek, show b.readerIndex + i < b.writerIndex by omega]
  · simp [hi]

/-- The sums `writableBytes() + prependableBytes()`, `len + kCheapPrepend` and
`writerIndex_ + len` fit a `size_t` while the sizes add up to less than 2^63. -/
theorem sums_below_size_t {b : Buffer} (h : b.WF) {len : Nat}
    (hsize : b.buffer.length + len < 2 ^ 63) :
    b.writableBytes + b.prependableBytes < 2 ^ 64 ∧ len + kCheapPrepend < 2 ^ 64 ∧
      b.writerIndex + len < 2 ^ 64 := by
  obtain ⟨hr, hw, _⟩ := h
  unfold writableBytes prependableBytes kCheapPrepend
  omega

/-! ## What each operation does -/

/-- `b'` is a good successor of `b` with the readable bytes `c`: the cheap
prepend area, if it was free, still is. -/
structure Becomes (b b' : Buffer) (c : List UInt8) : Prop where
  wf : b'.WF
  content : b'.content = c
  cheap : kCheapPrepend ≤ b.prependableBytes → kCheapPrepend ≤ b'.prependableBytes

theorem Becomes.trans {b b' b'' : Buffer} {c c' : List UInt8} (h : Becomes b b' c)
    (h' : Becomes b' b'' c') : Becomes b b'' c' :=
  ⟨h'.wf, h'.content, fun hc => h'.cheap (h.cheap hc)⟩

theorem new_eq (n : Nat) : new n = .ok (fresh n) := by
  simp [new, fresh, check, readableBytes, writableBytes, prependableBytes]

theorem fresh_WF (n : Nat) : (fresh n).WF := ⟨Nat.le_refl _, by simp [fresh], by simp [fresh]⟩

theorem fresh_content (n : Nat) : (fresh n).content = [] := slice_self _ _

theorem retrieveAll_becomes {b : Buffer} (h : b.WF) : Becomes b b.retrieveAll [] :=
  ⟨⟨Nat.le_refl _, h.cheap_le, h.cheap_le⟩, slice_self _ _, fun _ => Nat.le_refl _⟩

theorem retrieve_readable {b : Buffer} : b.retrieve b.readableBytes = .ok b.retrieveAll := by
  simp [retrieve, check]

theorem retrieve_spec {b : Buffer} (h : b.WF) {len : Nat} (hlen : len ≤ b.readableBytes) :
    ∃ b', b.retrieve len = .ok b' ∧ Becomes b b' (b.content.drop len) := by
  obtain hlt | rfl := Nat.lt_or_eq_of_le hlen
  · refine ⟨{ b with readerIndex := b.readerIndex + len }, ?_, ⟨?_, ?_, ?_⟩, ?_, ?_⟩
    · simp [retrieve, check_pos hlen, hlt]
    · unfold readableBytes at hlen; have := h.reader_le; simp only; omega
    · exact h.writer_le
    · exact h.cheap_le
    · exact slice_drop _ _ _ _
    · intro hc; exact Nat.le_trans hc (Nat.le_add_right _ _)
  · have hnil : b.content.drop b.readableBytes = [] :=
      List.drop_eq_nil_of_le (Nat.le_of_eq (length_content h))
    exact ⟨_, retrieve_readable, hnil ▸ retrieveAll_becomes h⟩

theorem retrieveUntil_spec {b : Buffer} (h : b.WF) {len : Nat} (hlen : len ≤ b.readableBytes) :
    b.retrieveUntil (b.readerIndex + len) = b.retrieve len := by
  have hr := h.reader_le
  unfold readableBytes at hlen
  unfold retrieveUntil
  rw [check_pos (by omega), check_pos (by omega), ok_bind, ok_bind, Nat.add_sub_cancel_left]

theorem retrieveAsString_spec {b : Buffer} (h : b.WF) {len : Nat} (hlen : len ≤ b.readableBytes) :
    ∃ b', b.retrieveAsString len = .ok (b.content.take len, b') ∧ b.retrieve len = .ok b' := by
  obtain ⟨b', hb', _⟩ := retrieve_spec h hlen
  exact ⟨b', by simp [retrieveAsString, check_pos hlen, hb', bytesAt_peek h hlen], hb'⟩

/-- Both branches of `makeSpace` keep the readable bytes and make room. In the
compacting branch the room comes from in front, so the reader stands behind the
cheap prepend area and the assertion holds. -/
theorem makeSpace_spec {b : Buffer} (h : b.WF) {len : Nat} (hlen : b.writableBytes < len) :
    ∃ b', b.makeSpace len = .ok b' ∧ Becomes b b' b.content ∧ len ≤ b'.writableBytes := by
  obtain ⟨hr, hw, hc⟩ := h
  unfold writableBytes at hlen
  by_cases hgrow : b.writableBytes + b.prependableBytes < len + kCheapPrepend
  · refine ⟨{ b with buffer := resize b.buffer (b.writerIndex + len) }, ?_, ⟨⟨hr, ?_, ?_⟩, ?_, id⟩, ?_⟩
    · simp [makeSpace, hgrow]
    · simp
    · simp only [length_resize]; omega
    · exact slice_resize _ hw (Nat.le_add_right _ _)
    · simp [writableBytes]
  · have hfront : kCheapPrepend < b.readerIndex := by
      unfold writableBytes prependableBytes at hgrow; omega
    refine ⟨⟨slide b.buffer b.readerIndex kCheapPrepend b.readableBytes, kCheapPrepend,
      kCheapPrepend + b.readableBytes⟩, ?_, ⟨⟨?_, ?_, ?_⟩, ?_, fun _ => Nat.le_refl _⟩, ?_⟩
    · simp [makeSpace, hgrow, check, hfront, readableBytes]
    · exact Nat.le_add_right _ _
    · simp only [length_slide]; unfold readableBytes; omega
    · simpa using hc
    · have he : b.readerIndex + b.readableBytes = b.writerIndex := by unfold readableBytes; omega
      calc
        _ = slice b.buffer b.readerIndex (b.readerIndex + b.readableBytes) :=
          slice_slide _ (Nat.le_of_lt hfront) (by rw [he]; exact hw)
        _ = b.content := by rw [he]; rfl
    · unfold writableBytes prependableBytes at hgrow
      unfold writableBytes readableBytes
      simp only [length_slide]
      omega

theorem ensureWritableBytes_spec {b : Buffer} (h : b.WF) (len : Nat) :
    ∃ b', b.ensureWritableBytes len = .ok b' ∧ Becomes b b' b.content ∧ len ≤ b'.writableBytes := by
  by_cases hlen : b.writableBytes < len
  · obtain ⟨b', hb', hbec, hroom⟩ := makeSpace_spec h hlen
    exact ⟨b', by simp [ensureWritableBytes, hlen, hb', check_pos hroom], hbec, hroom⟩
  · have hroom : len ≤ b.writableBytes := Nat.le_of_not_lt hlen
    exact ⟨b, by simp [ensureWritableBytes, hlen, check_pos hroom], ⟨h, rfl, id⟩, hroom⟩

theorem hasWritten_spec {b : Buffer} (h : b.WF) (bs : List UInt8)
    (hlen : bs.length ≤ b.writableBytes) :
    ∃ b', (b.fill bs).hasWritten bs.length = .ok b' ∧ Becomes b b' (b.content ++ bs) := by
  obtain ⟨hr, hw, hc⟩ := h
  have hfill : bs.length ≤ (b.fill bs).writableBytes := by simpa [fill, writableBytes] using hlen
  unfold writableBytes at hlen
  refine ⟨{ b.fill bs with writerIndex := b.writerIndex + bs.length }, ?_, ⟨?_, ?_, ?_⟩, ?_, id⟩
  · rw [hasWritten, check_pos hfill]; rfl
  · exact Nat.le_trans hr (Nat.le_add_right _ _)
  · simp only [fill, length_blit]; omega
  · simpa [fill] using hc
  · exact slice_blit_end _ _ hr (by omega)

theorem append_spec {b : Buffer} (h : b.WF) (data : Nat → UInt8) (len : Nat) :
    ∃ b', b.append data len = .ok b' ∧ Becomes b b' (b.content ++ bytesAt data len) := by
  obtain ⟨b₁, h₁, hbec₁, hroom⟩ := ensureWritableBytes_spec h len
  obtain ⟨b₂, h₂, hbec₂⟩ := hasWritten_spec hbec₁.wf (bytesAt data len) (by simpa using hroom)
  rw [length_bytesAt] at h₂
  rw [hbec₁.content] at hbec₂
  exact ⟨b₂, by simp [append, h₁, h₂], hbec₁.trans hbec₂⟩

/-- `append` looks at the bytes it is given and at no others. -/
theorem append_congr (b : Buffer) {data data' : Nat → UInt8} {len : Nat}
    (h : bytesAt data len = bytesAt data' len) : b.append data len = b.append data' len := by
  unfold append
  rw [h]

theorem bytesAt_getD (bs : List UInt8) : bytesAt (fun i => bs.getD i 0) bs.length = bs := by
  apply List.ext_getElem?
  intro i
  by_cases hi : i < bs.length
  · simp [bytesAt, hi]
  · simp [bytesAt, hi]

/-- Whatever arrives is appended, whether or not it spills into `extrabuf`. -/
theorem readFd_spec {b : Buffer} (h : b.WF) (bytes : List UInt8) :
    ∃ b', b.readFd (.received bytes) = .ok b' ∧ Becomes b b' (b.content ++ bytes) := by
  by_cases hfit : bytes.length ≤ b.writableBytes
  · obtain ⟨b', hb', hbec⟩ := hasWritten_spec h bytes hfit
    have hfill : bytes.length ≤ (b.fill bytes).writableBytes := by
      simpa [fill, writableBytes] using hfit
    refine ⟨b', ?_, hbec⟩
    rw [hasWritten, check_pos hfill] at hb'
    simpa [readFd, hfit, List.take_of_length_le hfit] using hb'
  · have hlen : (bytes.take b.writableBytes).length = b.writableBytes := by simp; omega
    obtain ⟨b₁, h₁, hbec₁⟩ := hasWritten_spec h (bytes.take b.writableBytes) (Nat.le_of_eq hlen)
    have hfull : b₁ = { b.fill (bytes.take b.writableBytes) with writerIndex := b.buffer.length } := by
      have hfill : (bytes.take b.writableBytes).length ≤
          (b.fill (bytes.take b.writableBytes)).writableBytes := by
        rw [hlen]; simp [fill, writableBytes]
      have hw := h.writer_le
      have he : b.writerIndex + b.writableBytes = b.buffer.length := by
        unfold writableBytes; omega
      rw [hasWritten, check_pos hfill, hlen] at h₁
      simp only [ok_bind, pure_eq_ok, Except.ok.injEq] at h₁
      rw [← h₁, ← he]
      rfl
    obtain ⟨b₂, h₂, hbec₂⟩ := append_spec hbec₁.wf
      (fun i => (bytes.drop b.writableBytes).getD i 0) (bytes.length - b.writableBytes)
    refine ⟨b₂, ?_, ?_⟩
    · rw [hfull] at h₂
      simpa [readFd, hfit, fill] using h₂
    · have hspill : bytesAt (fun i => (bytes.drop b.writableBytes).getD i 0)
          (bytes.length - b.writableBytes) = bytes.drop b.writableBytes := by
        rw [← List.length_drop]; exact bytesAt_getD _
      rw [hbec₁.content, hspill, List.append_assoc, List.take_append_drop] at hbec₂
      exact hbec₁.trans hbec₂

theorem unwrite_spec {b : Buffer} (h : b.WF) {len : Nat} (hlen : len ≤ b.readableBytes) :
    ∃ b', b.unwrite len = .ok b' ∧ Becomes b b' (b.content.take (b.content.length - len)) := by
  have hl := length_content h
  obtain ⟨hr, hw, hc⟩ := h
  refine ⟨{ b with writerIndex := b.writerIndex - len }, by simp [unwrite, check_pos hlen],
    ⟨?_, ?_, hc⟩, ?_, id⟩
  · unfold readableBytes at hlen; simp only; omega
  · simp only; omega
  · rw [hl]
    unfold readableBytes at hlen ⊢
    have he : b.writerIndex - len = b.readerIndex + (b.writerIndex - b.readerIndex - len) := by omega
    simp only [content, he]
    exact slice_take _ (by omega)

theorem prepend_spec {b : Buffer} (h : b.WF) (data : Nat → UInt8) {len : Nat}
    (hlen : len ≤ b.prependableBytes) :
    ∃ b', b.prepend data len = .ok b' ∧ b'.WF ∧ b'.content = bytesAt data len ++ b.content := by
  obtain ⟨hr, hw, hc⟩ := h
  have he : b.readerIndex - len + len = b.readerIndex := Nat.sub_add_cancel hlen
  refine ⟨⟨blit b.buffer (b.readerIndex - len) (bytesAt data len), b.readerIndex - len,
    b.writerIndex⟩, by rw [prepend, check_pos hlen]; rfl, ⟨?_, ?_, ?_⟩, ?_⟩
  · simp only; omega
  · simpa using hw
  · simpa using hc
  · have hs := slice_blit_start b.buffer (k := b.readerIndex - len) (bytesAt data len)
      (j := b.writerIndex) (by simp only [length_bytesAt]; omega) hw
    rwa [length_bytesAt, he] at hs

end Buffer

end Muduo
