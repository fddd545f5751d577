import Mathlib.Logic.Function.Basic
import Muduo.Buffer

/-!
`Buffer` refines a byte deque. Any number of buffers run side by side, each
with its own initial size, and any two of them can be swapped; beside each
buffer runs the deque it stands for.

`apply_spec` is one operation, `step_refines` one step of the whole family and
`buffers_refine_deques` every run.
-/

namespace Muduo

open Lib

/-! ## Operations -/

inductive BufferOp where
  | append (data : Nat → UInt8) (len : Nat)
  | prepend (data : Nat → UInt8) (len : Nat)
  | retrieve (len : Nat)
  | retrieveAsString (len : Nat)
  /-- with `end = peek() + len` -/
  | retrieveUntil (len : Nat)
  | retrieveAll
  | ensureWritableBytes (len : Nat)
  /-- `hasWritten` after storing `bs` at `beginWrite()` -/
  | hasWritten (bs : List UInt8)
  | unwrite (len : Nat)

def Buffer.apply (b : Buffer) : BufferOp → Checked Buffer
  | .append data len => b.append data len
  | .prepend data len => b.prepend data len
  | .retrieve len => b.retrieve len
  | .retrieveAsString len => do
    let (_, b) ← b.retrieveAsString len
    return b
  | .retrieveUntil len => b.retrieveUntil (b.readerIndex + len)
  | .retrieveAll => return b.retrieveAll
  | .ensureWritableBytes len => b.ensureWritableBytes len
  | .hasWritten bs => (b.fill bs).hasWritten bs.length
  | .unwrite len => b.unwrite len

/-- What the caller of an operation has to guarantee. -/
def Buffer.Allowed (b : Buffer) : BufferOp → Prop
  | .append _ _ | .retrieveAll | .ensureWritableBytes _ => True
  | .prepend _ len => len ≤ b.prependableBytes
  | .retrieve len | .retrieveAsString len | .retrieveUntil len | .unwrite len =>
    len ≤ b.readableBytes
  | .hasWritten bs => bs.length ≤ b.writableBytes

instance (b : Buffer) (o : BufferOp) : Decidable (b.Allowed o) := by
  cases o <;> unfold Buffer.Allowed <;> infer_instance

/-! ## The deque -/

/-- A byte deque. `prepended` records a prepend since the deque was last
emptied, which is when a `Buffer` goes back to its first positions. -/
structure Deque where
  bytes : List UInt8
  prepended : Bool

namespace Deque

def empty : Deque := ⟨[], false⟩

def pushBack (d : Deque) (bs : List UInt8) : Deque := { d with bytes := d.bytes ++ bs }

def pushFront (d : Deque) (bs : List UInt8) : Deque := ⟨bs ++ d.bytes, true⟩

def popFront (d : Deque) (n : Nat) : Deque :=
  if n < d.bytes.length then { d with bytes := d.bytes.drop n } else empty

def popBack (d : Deque) (n : Nat) : Deque :=
  { d with bytes := d.bytes.take (d.bytes.length - n) }

def apply (d : Deque) : BufferOp → Deque
  | .append data len => d.pushBack (bytesAt data len)
  | .prepend data len => d.pushFront (bytesAt data len)
  | .retrieve len | .retrieveAsString len | .retrieveUntil len => d.popFront len
  | .retrieveAll => empty
  | .ensureWritableBytes _ => d
  | .hasWritten bs => d.pushBack bs
  | .unwrite len => d.popBack len

end Deque

/-! ## One operation -/

/-- A buffer beside the deque it stands for. -/
structure Tracked where
  buf : Buffer
  deque : Deque

structure Tracked.Refines (t : Tracked) : Prop where
  wf : t.buf.WF
  content : t.buf.content = t.deque.bytes
  cheap : t.deque.prepended = false → Buffer.kCheapPrepend ≤ t.buf.prependableBytes

def Tracked.fresh (initialSize : Nat) : Tracked := ⟨Buffer.fresh initialSize, Deque.empty⟩

theorem fresh_refines (initialSize : Nat) : (Tracked.fresh initialSize).Refines :=
  ⟨Buffer.fresh_WF _, Buffer.fresh_content _, fun _ => Nat.le_refl _⟩

/-- An operation that keeps the flag of the deque. -/
theorem Tracked.Refines.becomes {t : Tracked} (h : t.Refines) {b' : Buffer} {c : List UInt8}
    (hb : t.buf.Becomes b' c) : (⟨b', { t.deque with bytes := c }⟩ : Tracked).Refines :=
  ⟨hb.wf, hb.content, fun hp => hb.cheap (h.cheap hp)⟩

theorem retrieve_refines {t : Tracked} (h : t.Refines) {len : Nat}
    (hlen : len ≤ t.buf.readableBytes) :
    ∃ b', t.buf.retrieve len = .ok b' ∧ (⟨b', t.deque.popFront len⟩ : Tracked).Refines := by
  have hl : t.deque.bytes.length = t.buf.readableBytes := by
    rw [← h.content]; exact Buffer.length_content h.wf
  obtain hlt | rfl := Nat.lt_or_eq_of_le hlen
  · obtain ⟨b', hb', hbec⟩ := Buffer.retrieve_spec h.wf hlen
    rw [h.content] at hbec
    exact ⟨b', hb', by simpa [Deque.popFront, hl, hlt] using h.becomes hbec⟩
  · -- the last byte leaves: the indices go back to the front, and the flag with them
    have hall := Buffer.retrieveAll_becomes h.wf
    refine ⟨_, Buffer.retrieve_readable, ?_⟩
    rw [show t.deque.popFront t.buf.readableBytes = Deque.empty by simp [Deque.popFront, hl]]
    exact ⟨hall.wf, hall.content, fun _ => Nat.le_refl _⟩

theorem apply_spec {t : Tracked} (h : t.Refines) {o : BufferOp} (ho : t.buf.Allowed o) :
    ∃ b', t.buf.apply o = .ok b' ∧ (⟨b', t.deque.apply o⟩ : Tracked).Refines := by
  cases o with
  | append data len =>
    obtain ⟨b', hb', hbec⟩ := Buffer.append_spec h.wf data len
    rw [h.content] at hbec
    exact ⟨b', hb', h.becomes hbec⟩
  | prepend data len =>
    obtain ⟨b', hb', hwf, hc⟩ := Buffer.prepend_spec h.wf data ho
    rw [h.content] at hc
    exact ⟨b', hb', hwf, hc, fun hp => by simp [Deque.apply, Deque.pushFront] at hp⟩
  | retrieve len => exact retrieve_refines h ho
  | retrieveAsString len =>
    obtain ⟨b', hs, hb'⟩ := Buffer.retrieveAsString_spec h.wf ho
    obtain ⟨b₁, h₁, href⟩ := retrieve_refines h ho
    obtain rfl : b' = b₁ := by rw [hb'] at h₁; simpa using h₁
    exact ⟨b', by simp [Buffer.apply, hs], href⟩
  | retrieveUntil len =>
    obtain ⟨b', hb', href⟩ := retrieve_refines h ho
    exact ⟨b', by rw [Buffer.apply, Buffer.retrieveUntil_spec h.wf ho, hb'], href⟩
  | retrieveAll =>
    have hall := Buffer.retrieveAll_becomes h.wf
    exact ⟨_, rfl, hall.wf, hall.content, fun _ => Nat.le_refl _⟩
  | ensureWritableBytes len =>
    obtain ⟨b', hb', hbec, _⟩ := Buffer.ensureWritableBytes_spec h.wf len
    rw [h.content] at hbec
    exact ⟨b', hb', h.becomes hbec⟩
  | hasWritten bs =>
    obtain ⟨b', hb', hbec⟩ := Buffer.hasWritten_spec h.wf bs ho
    rw [h.content] at hbec
    exact ⟨b', hb', h.becomes hbec⟩
  | unwrite len =>
    obtain ⟨b', hb', hbec⟩ := Buffer.unwrite_spec h.wf ho
    rw [h.content] at hbec
    exact ⟨b', hb', h.becomes hbec⟩

/-! ## Runs of a family of buffers -/

inductive FamilyOp (ι : Type) where
  | op (i : ι) (o : BufferOp)
  | swap (i j : ι)

section Family

variable {ι : Type} [DecidableEq ι]

def familyStep (s : ι → Tracked) : FamilyOp ι → Checked (ι → Tracked)
  | .op i o => do
    let b ← (s i).buf.apply o
    return Function.update s i ⟨b, (s i).deque.apply o⟩
  | .swap i j =>
    let (a, b) := (s i).buf.swap (s j).buf
    return Function.update (Function.update s i ⟨a, (s j).deque⟩) j ⟨b, (s i).deque⟩

def FamilyAllowed (s : ι → Tracked) : FamilyOp ι → Prop
  | .op i o => (s i).buf.Allowed o
  | .swap _ _ => True

instance (s : ι → Tracked) (a : FamilyOp ι) : Decidable (FamilyAllowed s a) := by
  cases a <;> unfold FamilyAllowed <;> infer_instance

/-- No assertion fails, every buffer stands for its deque afterwards, and a
string that was retrieved is the front of the deque it was taken from. -/
def FamilyRefines (s : ι → Tracked) (a : FamilyOp ι) (o : Checked (ι → Tracked)) : Prop :=
  (∃ s', o = .ok s' ∧ ∀ i, (s' i).Refines) ∧
    match a with
    | .op i (.retrieveAsString len) =>
      ∃ b', (s i).buf.retrieveAsString len = .ok ((s i).deque.bytes.take len, b')
    | _ => True

theorem update_refines {s : ι → Tracked} (h : ∀ i, (s i).Refines) {i : ι} {t : Tracked}
    (ht : t.Refines) (j : ι) : (Function.update s i t j).Refines := by
  by_cases hj : j = i
  · subst hj; simpa using ht
  · simpa [hj] using h j

theorem step_refines {s : ι → Tracked} (h : ∀ i, (s i).Refines) {a : FamilyOp ι}
    (ha : FamilyAllowed s a) : FamilyRefines s a (familyStep s a) := by
  cases a with
  | op i o =>
    obtain ⟨b', hb', href⟩ := apply_spec (h i) ha
    refine ⟨⟨Function.update s i ⟨b', (s i).deque.apply o⟩, ?_, update_refines h href⟩, ?_⟩
    · rw [familyStep, hb']; rfl
    · cases o with
      | retrieveAsString len =>
        obtain ⟨b₁, h₁, _⟩ := Buffer.retrieveAsString_spec (h i).wf ha
        exact ⟨b₁, by rw [← (h i).content]; exact h₁⟩
      | _ => trivial
  | swap i j =>
    refine ⟨⟨_, rfl, update_refines (update_refines h ?_) ?_⟩, trivial⟩
    · exact h j
    · exact h i

/-- **A `Buffer` is a byte deque.** From freshly constructed buffers of any
initial sizes, through any allowed operations and swaps, no assertion fails and
every buffer keeps its index order, its readable bytes are those of its deque
and its cheap prepend area is free unless a prepend has used it. -/
theorem buffers_refine_deques (initialSize : ι → Nat) (ops : List (FamilyOp ι))
    (hops : Along familyStep FamilyAllowed (fun i => Tracked.fresh (initialSize i)) ops) :
    Steps familyStep FamilyRefines (fun i => Tracked.fresh (initialSize i)) ops := by
  refine Steps.of_invariant (I := fun s => ∀ i, (s i).Refines) ?_ ?_
    (fun i => fresh_refines (initialSize i)) hops
  · intro s a h ha
    exact step_refines h ha
  · intro s a s' h ha hs
    obtain ⟨⟨s₁, h₁, href⟩, _⟩ := step_refines h ha
    rw [hs] at h₁
    cases h₁
    exact href

end Family

/-- A prepend into the cheap area, a compaction and a swap. -/
theorem buffers_refine_deques_sample :
    Steps familyStep FamilyRefines (fun i : Bool => Tracked.fresh (cond i 4 0))
      [.op true (.append (fun i => i.toUInt8) 4), .op true (.retrieve 3),
       .op true (.append (fun i => i.toUInt8) 3), .op true (.prepend (fun _ => 7) 2),
       .swap true false, .op false (.retrieveAsString 2), .op false .retrieveAll] := by
  exact buffers_refine_deques (fun i : Bool => cond i 4 0) _ (by decide)

end Muduo
