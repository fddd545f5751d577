import Mathlib.Data.List.Infix
import Muduo.OutputStream

/-!
What the application is told about the bytes that a connection has accepted and
not yet written. Such a byte is in the output buffer, or it is lost: `sendInLoop`
drops a message that finds output pending. Behind the accepted bytes, the buffer
holds as many more as a direct write took.

* `complete_exact_iff`: when `writeCompleteCallback_` is queued as it should be;
* `highWaterMark_exact_iff`: when `highWaterMarkCallback_` is.
-/

namespace Muduo

open Lib

/-! ## What is queued -/

/-- `writeCompleteCallback_`, queued. -/
def Effect.isWriteComplete : Effect → Bool
  | .quene .writeCompleteCallback => true
  | _ => false

/-- The argument of a queued `highWaterMarkCallback_`. -/
def Effect.highWaterMark? : Effect → Option Nat
  | .quene (.highWaterMarkCallback size) => some size
  | _ => none

namespace TcpConnection

/-- How often `writeCompleteCallback_` was queued. -/
def completions (c : TcpConnection) : Nat := c.effects.countP Effect.isWriteComplete

/-- The arguments with which `highWaterMarkCallback_` was queued. -/
def marks (c : TcpConnection) : List Nat := c.effects.filterMap Effect.highWaterMark?

/-- From `c` to `c'` the write-complete callback was queued `completed` times
and the high-water-mark callback with the arguments `marked`. -/
structure Queues (c c' : TcpConnection) (completed : Nat) (marked : List Nat) : Prop where
  streaming : c'.Streaming
  writeCompleteCallback : c'.writeCompleteCallback = c.writeCompleteCallback
  highWaterMarkCallback : c'.highWaterMarkCallback = c.highWaterMarkCallback
  highWaterMark : c'.highWaterMark = c.highWaterMark
  completions : c'.completions = c.completions + completed
  marks : c'.marks = c.marks ++ marked

theorem Queues.refl {c : TcpConnection} (h : c.Streaming) : Queues c c 0 [] :=
  ⟨h, rfl, rfl, rfl, rfl, (List.append_nil _).symm⟩

/-- The effects decide, and the buffer and the channel have no part in them. -/
theorem Queues.of_effects {c c' : TcpConnection} {es : List Effect} {completed : Nat}
    {marked : List Nat} (h : c'.Streaming) (heffects : c'.effects = c.effects ++ es)
    (hsame : c'.writeCompleteCallback = c.writeCompleteCallback ∧
      c'.highWaterMarkCallback = c.highWaterMarkCallback ∧ c'.highWaterMark = c.highWaterMark)
    (hcompleted : es.countP Effect.isWriteComplete = completed)
    (hmarked : es.filterMap Effect.highWaterMark? = marked) : Queues c c' completed marked := by
  refine ⟨h, hsame.1, hsame.2.1, hsame.2.2, ?_, ?_⟩
  · rw [TcpConnection.completions, heffects, List.countP_append, hcompleted]
    rfl
  · rw [TcpConnection.marks, heffects, List.filterMap_append, hmarked]
    rfl

theorem countP_completeEffects (c : TcpConnection) :
    c.completeEffects.countP Effect.isWriteComplete = if c.writeCompleteCallback then 1 else 0 := by
  unfold completeEffects
  split <;> rfl

theorem filterMap_completeEffects (c : TcpConnection) :
    c.completeEffects.filterMap Effect.highWaterMark? = [] := by
  unfold completeEffects
  split <;> rfl

theorem countP_markEffects (c : TcpConnection) (remaining : Nat) :
    (c.markEffects remaining).countP Effect.isWriteComplete = 0 := by
  unfold markEffects
  split <;> rfl

theorem filterMap_markEffects (c : TcpConnection) (remaining : Nat) :
    (c.markEffects remaining).filterMap Effect.highWaterMark? =
      if c.highWaterMark ≤ remaining ∧ 0 < c.highWaterMark ∧ c.highWaterMarkCallback = true then
        [remaining]
      else [] := by
  unfold markEffects
  split <;> rfl

/-! ## The functions -/

/-- An idle connection writes, and buffers `len` bytes from there on. -/
theorem sendInLoop_idle {c : TcpConnection} (h : c.Streaming) (hidle : c.Idle) (m : Message)
    {r : WriteResult} (hr : faultError r = false) :
    ∃ c', c.sendInLoop m r = .ok c' ∧
      Queues c c' ((c.idleEffects m r).countP Effect.isWriteComplete)
        ((c.idleEffects m r).filterMap Effect.highWaterMark?) ∧
      c'.outputBuffer.content = bytesAt (fun i => m.data (r.taken + i)) m.len := by
  obtain ⟨b, ch, hc', hwf, hcoh, hcontent⟩ :=
    sendInLoop_idle_eq h.connected h.wf h.coherent hidle m hr
  exact ⟨_, hc', .of_effects ⟨h.state, hwf, hcoh⟩ rfl ⟨rfl, rfl, rfl⟩ rfl rfl, hcontent⟩

/-- The callback is queued when the buffer has become empty. -/
theorem written_queues {c : TcpConnection} (h : c.Streaming) {n : Nat}
    (hn : n ≤ c.outputBuffer.readableBytes) :
    ∃ c', c.written n = .ok c' ∧
      Queues c c' (if n = c.outputBuffer.readableBytes ∧ c.writeCompleteCallback = true then 1 else 0)
        [] ∧
      c'.outputBuffer.content = c.outputBuffer.content.drop n := by
  obtain ⟨b, ch, hc', hwf, hcoh, hcontent⟩ := written_eq h hn
  refine ⟨_, hc', .of_effects ⟨h.state, hwf, hcoh⟩ rfl ⟨rfl, rfl, rfl⟩ ?_ ?_, hcontent⟩
  · by_cases hdone : n = c.outputBuffer.readableBytes
    · simp [hdone, countP_completeEffects]
    · simp [hdone]
  · by_cases hdone : n = c.outputBuffer.readableBytes
    · simp [hdone, filterMap_completeEffects]
    · simp [hdone]

end TcpConnection

/-! ## Runs -/

/-- A connection with the accepted bytes that it still has to write: those in
the output buffer, and those of messages that never got there. -/
structure PendingState where
  conn : TcpConnection
  owed : List UInt8
  dropped : List UInt8

namespace PendingState

/-- A connection that owes what it holds. -/
def start (c : TcpConnection) : PendingState := ⟨c, c.outputBuffer.content, []⟩

/-- The number of accepted but not yet written bytes. -/
def pending (s : PendingState) : Nat := s.owed.length + s.dropped.length

def step (s : PendingState) : StreamStep → Checked PendingState
  | .send m r => do
    let conn ← s.conn.sendInLoop m r
    if s.conn.Idle then return { s with conn, owed := s.owed ++ m.bytes.drop r.taken }
    else return { s with conn, dropped := s.dropped ++ m.bytes }
  | .handleWrite r => do
    let conn ← s.conn.handleWrite r
    return { s with conn, owed := if s.conn.channel.isWriting then s.owed.drop r.taken else s.owed }

/-- What `write(2)` may answer, without a fault error. -/
def Allowed (s : PendingState) : StreamStep → Prop
  | .send m r => TcpConnection.faultError r = false ∧ r.Fits m.len
  | .handleWrite r => r.Fits s.conn.outputBuffer.readableBytes

instance (s : PendingState) : (a : StreamStep) → Decidable (Allowed s a)
  | .send _ _ => inferInstanceAs (Decidable (_ ∧ _))
  | .handleWrite r => inferInstanceAs (Decidable (r.Fits _))

/-- The accepted bytes in the buffer are in front. -/
structure Accounted (s : PendingState) : Prop where
  streaming : s.conn.Streaming
  owed : s.owed <+: s.conn.outputBuffer.content

theorem Accounted.owed_le {s : PendingState} (h : s.Accounted) :
    s.owed.length ≤ s.conn.outputBuffer.readableBytes := by
  rw [← Buffer.length_content h.streaming.wf]
  exact h.owed.length_le

theorem Accounted.owed_idle {s : PendingState} (h : s.Accounted) (hidle : s.conn.Idle) :
    s.owed = [] := by
  have hle := h.owed_le
  rw [hidle.2] at hle
  exact List.length_eq_zero_iff.mp (Nat.le_zero.mp hle)

theorem start_accounted {c : TcpConnection} (h : c.Streaming) : (start c).Accounted :=
  ⟨h, List.prefix_rfl⟩

theorem step_busy {s : PendingState} (hbusy : ¬ s.conn.Idle) (m : Message) (r : WriteResult) :
    step s (.send m r) = .ok { s with dropped := s.dropped ++ m.bytes } := by
  simp [step, TcpConnection.sendInLoop_busy hbusy, hbusy]

theorem step_idle {s : PendingState} (h : s.Accounted) (hidle : s.conn.Idle) {m : Message}
    {r : WriteResult} (hr : TcpConnection.faultError r = false) (hfits : r.Fits m.len) :
    ∃ s', step s (.send m r) = .ok s' ∧ s'.Accounted ∧
      s.conn.Queues s'.conn ((s.conn.idleEffects m r).countP Effect.isWriteComplete)
        ((s.conn.idleEffects m r).filterMap Effect.highWaterMark?) ∧
      s'.conn.outputBuffer.readableBytes = m.len ∧ s'.owed.length = m.len - r.taken ∧
      s'.dropped = s.dropped := by
  obtain ⟨c, hc, hq, hcontent⟩ := TcpConnection.sendInLoop_idle h.streaming hidle m hr
  have howed := h.owed_idle hidle
  have hle := WriteResult.taken_le hfits
  refine ⟨⟨c, m.bytes.drop r.taken, s.dropped⟩, by simp [step, hc, hidle, howed],
    ⟨hq.streaming, ?_⟩, hq, ?_, ?_, rfl⟩
  · -- the rest of the message comes before what lies behind it
    refine ⟨bytesAt (fun i => m.data (m.len + i)) r.taken, ?_⟩
    rw [hcontent]
    apply List.ext_getElem?
    intro i
    simp only [Message.bytes, bytesAt, List.getElem?_append, List.getElem?_drop,
      List.getElem?_map, List.length_drop, List.length_map, List.length_range]
    grind
  · rw [← Buffer.length_content hq.streaming.wf, hcontent, length_bytesAt]
  · rw [List.length_drop, Message.bytes, length_bytesAt]

/-- The connection writes now, and empties its buffer. -/
def Drains (s : PendingState) (r : WriteResult) : Prop :=
  s.conn.channel.isWriting = true ∧ 0 < r.taken ∧ r.taken = s.conn.outputBuffer.readableBytes

instance (s : PendingState) (r : WriteResult) : Decidable (Drains s r) :=
  inferInstanceAs (Decidable (_ ∧ _))

theorem step_write {s : PendingState} (h : s.Accounted) {r : WriteResult}
    (hfits : r.Fits s.conn.outputBuffer.readableBytes) :
    ∃ s', step s (.handleWrite r) = .ok s' ∧ s'.Accounted ∧
      s.conn.Queues s'.conn (if Drains s r ∧ s.conn.writeCompleteCallback = true then 1 else 0) [] ∧
      (s'.conn.Idle → s.conn.Idle ∨ Drains s r) ∧
      s'.conn.outputBuffer.readableBytes = s.conn.outputBuffer.readableBytes -
        (if s.conn.channel.isWriting then r.taken else 0) ∧
      s'.owed.length = s.owed.length - (if s.conn.channel.isWriting then r.taken else 0) ∧
      s'.dropped = s.dropped := by
  unfold Drains
  by_cases hw : s.conn.channel.isWriting = true
  · by_cases hpos : 0 < r.taken
    · have hle := WriteResult.taken_le hfits
      obtain ⟨c, hc, hq, hcontent⟩ := TcpConnection.written_queues h.streaming hle
      have hleft : c.outputBuffer.readableBytes = s.conn.outputBuffer.readableBytes - r.taken := by
        rw [← Buffer.length_content hq.streaming.wf, hcontent, List.length_drop,
          Buffer.length_content h.streaming.wf]
      refine ⟨⟨c, s.owed.drop r.taken, s.dropped⟩, ?_, ⟨hq.streaming, ?_⟩, ?_, ?_, ?_, ?_, rfl⟩
      · simp [step, TcpConnection.handleWrite, hw, hpos, hc]
      · rw [hcontent]
        exact h.owed.drop r.taken
      · simpa [hw, hpos] using hq
      · rintro ⟨-, hempty⟩
        have hnone : s.conn.outputBuffer.readableBytes - r.taken = 0 := hleft.symm.trans hempty
        exact .inr ⟨hw, hpos, by omega⟩
      · simpa [hw] using hleft
      · simp [hw]
    · have hzero : r.taken = 0 := Nat.eq_zero_of_not_pos hpos
      have hst : s.conn.state ≠ .kDisconnecting := by simp [h.streaming.state]
      refine ⟨s, ?_, h, ?_, .inl, ?_, ?_, rfl⟩
      · simp [step, TcpConnection.handleWrite, hw, hzero, hst]
      · simpa [hpos] using TcpConnection.Queues.refl h.streaming
      · simp [hzero]
      · simp [hzero]
  · refine ⟨s, ?_, h, ?_, .inl, ?_, ?_, rfl⟩
    · simp [step, TcpConnection.handleWrite, hw]
    · simpa [hw] using TcpConnection.Queues.refl h.streaming
    · simp [hw]
    · simp [hw]

/-! ## Write complete -/

/-- The bytes that a step accepts. -/
def accepts : StreamStep → Nat
  | .send m _ => m.len
  | .handleWrite _ => 0

/-- `writeCompleteCallback_` is queued once if the step writes the last of the
pending bytes, and else not. -/
def CompletesExactly (s : PendingState) (a : StreamStep) (o : Checked PendingState) : Prop :=
  ∃ s', o = .ok s' ∧ s'.conn.completions =
    s.conn.completions + if 0 < s.pending + accepts a ∧ s'.pending = 0 then 1 else 0

/-- A direct write fails or takes a part of the message, neither nothing nor
all of it. While no message has been dropped, a write event leaves some of the
bytes owed in the buffer, or empties it; afterwards it does not empty it. -/
def Announced (s : PendingState) : StreamStep → Prop
  | .send m r => s.conn.Idle → r ≠ .written 0 ∧ r.taken < m.len
  | .handleWrite r => s.conn.channel.isWriting = true → 0 < r.taken →
      (s.dropped = [] → r.taken < s.owed.length ∨ r.taken = s.conn.outputBuffer.readableBytes) ∧
      (s.dropped ≠ [] → r.taken < s.conn.outputBuffer.readableBytes)

instance (s : PendingState) : (a : StreamStep) → Decidable (Announced s a)
  | .send _ _ => inferInstanceAs (Decidable (_ → _ ∧ _))
  | .handleWrite _ => inferInstanceAs (Decidable (_ → _ → (_ → _) ∧ (_ → _)))

/-- Sends are not empty. -/
def NonEmpty : StreamStep → Prop
  | .send m _ => 0 < m.len
  | .handleWrite _ => True

instance : (a : StreamStep) → Decidable (NonEmpty a)
  | .send _ _ => inferInstanceAs (Decidable (_ < _))
  | .handleWrite _ => inferInstanceAs (Decidable True)

/-- What holds between steps that are announced. -/
structure Completing (s : PendingState) : Prop where
  accounted : s.Accounted
  callback : s.conn.writeCompleteCallback = true
  idle : s.conn.Idle → s.dropped = []
  owes : s.dropped = [] → s.owed = [] → s.conn.outputBuffer.readableBytes = 0

theorem countP_idleEffects {c : TcpConnection} (h : c.writeCompleteCallback = true) (m : Message)
    (r : WriteResult) :
    (c.idleEffects m r).countP Effect.isWriteComplete = if r = .written 0 then 1 else 0 := by
  rw [TcpConnection.idleEffects, List.countP_append, TcpConnection.countP_markEffects]
  split
  · rw [TcpConnection.countP_completeEffects, if_pos h]
  · rfl

theorem send_completes_iff {s : PendingState} (h : s.Completing) {m : Message} {r : WriteResult}
    (ha : Allowed s (.send m r)) (hlen : 0 < m.len) :
    CompletesExactly s (.send m r) (step s (.send m r)) ↔ Announced s (.send m r) := by
  have hbytes : m.bytes.length = m.len := length_bytesAt ..
  by_cases hidle : s.conn.Idle
  · obtain ⟨s', hs', -, hq, -, howed, hdropped⟩ := step_idle h.accounted hidle ha.1 ha.2
    have hpending : s'.pending = m.len - r.taken := by
      rw [pending, howed, hdropped, h.idle hidle]
      rfl
    have hzero : r = .written 0 → r.taken = 0 := by
      rintro rfl
      rfl
    simp only [CompletesExactly, hs', Except.ok.injEq, exists_eq_left', hq.completions,
      countP_idleEffects h.callback, accepts, Announced, hidle, hpending, Nat.add_left_cancel_iff]
    by_cases hr : r = .written 0
    · simp [hr, WriteResult.taken]
      omega
    · simp [hr]
      omega
  · -- the message is dropped, and is owed from now on
    simp only [CompletesExactly, step_busy hidle, Except.ok.injEq, exists_eq_left',
      pending, List.length_append, hbytes, Announced, hidle]
    simp
    omega

theorem write_completes_iff {s : PendingState} (h : s.Completing) {r : WriteResult}
    (ha : Allowed s (.handleWrite r)) :
    CompletesExactly s (.handleWrite r) (step s (.handleWrite r)) ↔ Announced s (.handleWrite r) := by
  obtain ⟨s', hs', -, hq, -, -, howed, hdropped⟩ := step_write h.accounted ha
  have hle : r.taken ≤ s.conn.outputBuffer.readableBytes := WriteResult.taken_le ha
  have hfront := h.accounted.owed_le
  have howes := h.owes
  simp only [CompletesExactly, hs', Except.ok.injEq, exists_eq_left', hq.completions, accepts,
    pending, howed, hdropped, h.callback, Announced, Drains, Nat.add_left_cancel_iff, and_true,
    Nat.add_zero]
  by_cases hw : s.conn.channel.isWriting = true
  · by_cases hpos : 0 < r.taken
    · simp only [hw, hpos, true_and, if_true, forall_const, ← List.length_eq_zero_iff, ne_eq]
      rw [← List.length_eq_zero_iff, ← List.length_eq_zero_iff] at howes
      grind
    · simp only [hw, hpos, false_and, and_false, if_false, if_true, false_imp_iff, implies_true,
        iff_true]
      grind
  · simp only [hw]
    grind

theorem step_completing {s s' : PendingState} (h : s.Completing) {a : StreamStep}
    (ha : Allowed s a) (hlen : NonEmpty a) (hannounced : Announced s a)
    (hs : step s a = .ok s') : s'.Completing := by
  cases a with
  | send m r =>
    have hpos : 0 < m.len := hlen
    by_cases hidle : s.conn.Idle
    · obtain ⟨s₁, hs₁, hacc, hq, hfull, howed, -⟩ := step_idle h.accounted hidle ha.1 ha.2
      cases hs₁.symm.trans hs
      refine ⟨hacc, hq.writeCompleteCallback.trans h.callback, ?_, ?_⟩
      · rintro ⟨-, hempty⟩
        omega
      · intro _ hnone
        have hpart := (hannounced hidle).2
        rw [hnone, List.length_nil] at howed
        omega
    · cases (step_busy hidle m r).symm.trans hs
      refine ⟨⟨h.accounted.streaming, h.accounted.owed⟩, h.callback, fun hi => absurd hi hidle, ?_⟩
      intro hnone
      have hbytes : m.bytes.length = m.len := length_bytesAt ..
      rw [(List.append_eq_nil_iff.mp hnone).2, List.length_nil] at hbytes
      omega
  | handleWrite r =>
    obtain ⟨s₁, hs₁, hacc, hq, hdrains, hleft, howed, hdropped⟩ := step_write h.accounted ha
    cases hs₁.symm.trans hs
    refine ⟨hacc, hq.writeCompleteCallback.trans h.callback, ?_, ?_⟩
    · intro hi
      rw [hdropped]
      rcases hdrains hi with hidle | ⟨hw, hpos, hall⟩
      · exact h.idle hidle
      · by_contra hsome
        exact absurd hall (Nat.ne_of_lt ((hannounced hw hpos).2 hsome))
    · intro hnone hpaid
      rw [hdropped] at hnone
      rw [hpaid, List.length_nil] at howed
      by_cases hw : s.conn.channel.isWriting = true
      · by_cases hpos : 0 < r.taken
        · have hpart := (hannounced hw hpos).1 hnone
          rw [if_pos hw] at howed hleft
          omega
        · rw [if_pos hw] at howed hleft
          have howes := h.owes hnone (List.length_eq_zero_iff.mp (by omega))
          omega
      · rw [if_neg hw] at howed hleft
        have howes := h.owes hnone (List.length_eq_zero_iff.mp howed.symm)
        omega

theorem start_completing {c : TcpConnection} (hc : c.Streaming)
    (hcallback : c.writeCompleteCallback = true) : (start c).Completing :=
  ⟨start_accounted hc, hcallback, fun _ => rfl, fun _ => (Buffer.content_eq_nil hc.wf).mp⟩

/-- **Write complete.** In a run of sends and write events on a connected
connection, the callback is queued as it should be at every step exactly if
every step is announced. -/
theorem complete_exact_iff {c : TcpConnection} (hc : c.Streaming)
    (hcallback : c.writeCompleteCallback = true) (steps : List StreamStep)
    (hsteps : Along step (fun s a => Allowed s a ∧ NonEmpty a) (start c) steps) :
    Steps step CompletesExactly (start c) steps ↔ Along step Announced (start c) steps := by
  refine steps_iff (I := Completing) ?_ ?_ (start_completing hc hcallback) hsteps
  · intro s a h ha
    cases a with
    | send m r => exact send_completes_iff h ha.1 ha.2
    | handleWrite r => exact write_completes_iff h ha.1
  · intro s a s' h ha hannounced hs
    exact step_completing h ha.1 ha.2 hannounced hs

/-- A connection with a small buffer and a small mark. -/
def small : TcpConnection :=
  { TcpConnection.established true with
    outputBuffer := Buffer.fresh 4, highWaterMark := 4, highWaterMarkCallback := true }

theorem small_streaming : small.Streaming :=
  ⟨rfl, Buffer.fresh_WF 4, (TcpConnection.established_streaming true).coherent⟩

/-- Three bytes for a socket that is full, then written in two parts. -/
theorem complete_exact_twoWrites :
    Steps step CompletesExactly (start small)
      [.send (.ofBytes [1, 2, 3]) (.failed .EWOULDBLOCK), .handleWrite (.written 2),
       .handleWrite (.written 1)] :=
  (complete_exact_iff small_streaming rfl _ (by decide)).mpr (by decide)

/-- The direct write takes the whole message, and nothing is queued. -/
theorem direct_write_not_announced :
    small.Streaming ∧ small.writeCompleteCallback = true ∧
    Along step (fun s a => Allowed s a ∧ NonEmpty a) (start small)
      [.send (.ofBytes [1, 2, 3]) (.written 3)] ∧
    ¬ Steps step CompletesExactly (start small) [.send (.ofBytes [1, 2, 3]) (.written 3)] := by
  have hcompleting : (start small).Completing := start_completing small_streaming rfl
  have ha : Allowed (start small) (.send (.ofBytes [1, 2, 3]) (.written 3)) := by decide
  refine ⟨small_streaming, rfl, ⟨⟨ha, by decide⟩, fun _ _ => trivial⟩, ?_⟩
  intro h
  have hannounced := (send_completes_iff hcompleting ha (by decide)).mp h.1
  revert hannounced
  decide

/-! ## High-water mark -/

/-- `highWaterMarkCallback_` is queued with the new number of pending bytes if
the step takes it from below the mark to the mark or over it, and else not. -/
def MarksExactly (s : PendingState) (_ : StreamStep) (o : Checked PendingState) : Prop :=
  ∃ s', o = .ok s' ∧ s'.conn.marks = s.conn.marks ++
    if s.pending < s.conn.highWaterMark ∧ s.conn.highWaterMark ≤ s'.pending then [s'.pending] else []

/-- When a message of at least the mark finds the connection idle, as many bytes
have been dropped before as are written directly, for example none. Any other
send does not bring the pending bytes to the mark. -/
def Marked (s : PendingState) : StreamStep → Prop
  | .send m r =>
    (s.conn.Idle ∧ s.conn.highWaterMark ≤ m.len →
      s.pending = r.taken ∧ s.pending < s.conn.highWaterMark) ∧
    (¬ (s.conn.Idle ∧ s.conn.highWaterMark ≤ m.len) →
      s.conn.highWaterMark ≤ s.pending ∨
        s.pending + (if s.conn.Idle then m.len - r.taken else m.len) < s.conn.highWaterMark)
  | .handleWrite _ => True

instance (s : PendingState) : (a : StreamStep) → Decidable (Marked s a)
  | .send _ _ => inferInstanceAs (Decidable ((_ → _) ∧ (_ → _)))
  | .handleWrite _ => inferInstanceAs (Decidable True)

structure Marking (s : PendingState) : Prop where
  accounted : s.Accounted
  positive : 0 < s.conn.highWaterMark
  callback : s.conn.highWaterMarkCallback = true

theorem filterMap_idleEffects {c : TcpConnection} (h : c.highWaterMarkCallback = true)
    (hpos : 0 < c.highWaterMark) (m : Message) (r : WriteResult) :
    (c.idleEffects m r).filterMap Effect.highWaterMark? =
      if c.highWaterMark ≤ m.len then [m.len] else [] := by
  rw [TcpConnection.idleEffects, List.filterMap_append, TcpConnection.filterMap_markEffects]
  simp only [h, hpos, and_true]
  split
  · rw [TcpConnection.filterMap_completeEffects, List.nil_append]
  · rfl

theorem send_marks_iff {s : PendingState} (h : s.Marking) {m : Message} {r : WriteResult}
    (ha : Allowed s (.send m r)) :
    MarksExactly s (.send m r) (step s (.send m r)) ↔ Marked s (.send m r) := by
  have hbytes : m.bytes.length = m.len := length_bytesAt ..
  have hle := WriteResult.taken_le ha.2
  by_cases hidle : s.conn.Idle
  · obtain ⟨s', hs', -, hq, -, howed, hdropped⟩ := step_idle h.accounted hidle ha.1 ha.2
    have hpending : s'.pending = s.pending + (m.len - r.taken) := by
      simp only [pending, howed, hdropped, h.accounted.owed_idle hidle, List.length_nil]
      omega
    simp only [MarksExactly, hs', Except.ok.injEq, exists_eq_left', hq.marks,
      filterMap_idleEffects h.callback h.positive, hpending, Marked, hidle, true_and, if_true,
      List.append_cancel_left_eq]
    grind
  · simp only [MarksExactly, step_busy hidle, Except.ok.injEq, exists_eq_left',
      Marked, hidle, false_and, if_false, List.self_eq_append_right, pending, List.length_append, hbytes]
    grind

theorem write_marks {s : PendingState} (h : s.Marking) {r : WriteResult}
    (ha : Allowed s (.handleWrite r)) :
    MarksExactly s (.handleWrite r) (step s (.handleWrite r)) := by
  obtain ⟨s', hs', -, hq, -, -, howed, hdropped⟩ := step_write h.accounted ha
  refine ⟨s', hs', ?_⟩
  rw [hq.marks, if_neg]
  simp only [pending, howed, hdropped]
  omega

theorem step_marking {s s' : PendingState} (h : s.Marking) {a : StreamStep} (ha : Allowed s a)
    (hs : step s a = .ok s') : s'.Marking := by
  -- the mark and the callback stay as they are
  have of_queues {completed : Nat} {marked : List Nat} (hacc : s'.Accounted)
      (hq : s.conn.Queues s'.conn completed marked) : s'.Marking :=
    ⟨hacc, hq.highWaterMark ▸ h.positive, hq.highWaterMarkCallback.trans h.callback⟩
  cases a with
  | send m r =>
    by_cases hidle : s.conn.Idle
    · obtain ⟨s₁, hs₁, hacc, hq, -⟩ := step_idle h.accounted hidle ha.1 ha.2
      cases hs₁.symm.trans hs
      exact of_queues hacc hq
    · cases (step_busy hidle m r).symm.trans hs
      exact ⟨⟨h.accounted.streaming, h.accounted.owed⟩, h.positive, h.callback⟩
  | handleWrite r =>
    obtain ⟨s₁, hs₁, hacc, hq, -⟩ := step_write h.accounted ha
    cases hs₁.symm.trans hs
    exact of_queues hacc hq

theorem steps_marks_iff {s : PendingState} (h : s.Marking) {steps : List StreamStep}
    (hsteps : Along step Allowed s steps) :
    Steps step MarksExactly s steps ↔ Along step Marked s steps := by
  refine steps_iff (I := Marking) ?_ ?_ h hsteps
  · intro s a h ha
    cases a with
    | send m r => exact send_marks_iff h ha
    | handleWrite r => exact iff_of_true (write_marks h ha) trivial
  · intro s a s' h ha _ hs
    exact step_marking h ha hs

/-- **High-water mark.** In a run of sends and write events on a connected
connection with a positive mark, the callback is queued as it should be at
every step exactly if every send is marked. -/
theorem highWaterMark_exact_iff {c : TcpConnection} (hc : c.Streaming)
    (hpos : 0 < c.highWaterMark) (hcallback : c.highWaterMarkCallback = true)
    (steps : List StreamStep) (hsteps : Along step Allowed (start c) steps) :
    Steps step MarksExactly (start c) steps ↔ Along step Marked (start c) steps :=
  steps_marks_iff ⟨start_accounted hc, hpos, hcallback⟩ hsteps

/-- Five bytes for a socket that is full, with a mark of four, then written. -/
theorem highWaterMark_exact_fullSocket :
    Steps step MarksExactly (start small)
      [.send (.ofBytes [1, 2, 3, 4, 5]) (.failed .EWOULDBLOCK), .handleWrite (.written 2),
       .handleWrite (.written 3)] :=
  (highWaterMark_exact_iff small_streaming (by decide) rfl _ (by decide)).mpr (by decide)

/-- Two messages of two bytes for a socket that is full, with a mark of four.
The second is dropped, and nothing is queued. -/
theorem second_send_not_marked :
    small.Streaming ∧ 0 < small.highWaterMark ∧ small.highWaterMarkCallback = true ∧
    Along step Allowed (start small)
      [.send (.ofBytes [1, 2]) (.failed .EWOULDBLOCK),
       .send (.ofBytes [3, 4]) (.failed .EWOULDBLOCK)] ∧
    ¬ Steps step MarksExactly (start small)
      [.send (.ofBytes [1, 2]) (.failed .EWOULDBLOCK),
       .send (.ofBytes [3, 4]) (.failed .EWOULDBLOCK)] := by
  have hmarking : (start small).Marking :=
    ⟨start_accounted small_streaming, by decide, rfl⟩
  have hsteps : Along step Allowed (start small)
      [.send (.ofBytes [1, 2]) (.failed .EWOULDBLOCK),
       .send (.ofBytes [3, 4]) (.failed .EWOULDBLOCK)] := by decide
  refine ⟨small_streaming, by decide, rfl, hsteps, ?_⟩
  intro h
  have hmarked := (steps_marks_iff hmarking hsteps).mp h
  revert hmarked
  decide

end PendingState

end Muduo
