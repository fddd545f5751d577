import Muduo.TcpConnection

/-!
The byte stream a connection hands to the kernel. `sendInLoop` and
`handleWrite` run in any order on a connected connection, each with any result
of `sockets::write`; the stream is intact while the bytes in the kernel and the
readable bytes of `outputBuffer_` are the messages sent so far.

`sendInLoop` never subtracts `nwrote` from `remaining`, and does nothing at all
for a connection that has output pending. `stream_intact_iff` says which sends
survive this: empty ones, and those that find the connection idle and of which
the kernel takes nothing.
-/

namespace Muduo

open Lib

namespace TcpConnection

/-! ## What the functions write -/

/-- What the stream needs from the rest of the connection. -/
structure Streaming (c : TcpConnection) : Prop where
  state : c.state = .kConnected
  wf : c.outputBuffer.WF
  coherent : c.channel.Coherent

theorem Streaming.connected {c : TcpConnection} (h : c.Streaming) : c.state ≠ .kDisconnected := by
  simp [h.state]

/-- The bytes in the kernel and behind them the ones still to be written. -/
def stream (c : TcpConnection) : List UInt8 := c.wire ++ c.outputBuffer.content

/-- What `queneWriteComplete` emits. -/
def completeEffects (c : TcpConnection) : List Effect :=
  if c.writeCompleteCallback then [.quene .writeCompleteCallback] else []

/-- What `sendInLoop` emits about the mark, having found the buffer empty. -/
def markEffects (c : TcpConnection) (remaining : Nat) : List Effect :=
  if c.highWaterMark ≤ remaining ∧ 0 < c.highWaterMark ∧ c.highWaterMarkCallback = true then
    [.quene (.highWaterMarkCallback remaining)]
  else []

/-- What `sendInLoop` emits on an idle connection. -/
def idleEffects (c : TcpConnection) (m : Message) (r : WriteResult) : List Effect :=
  (if r = .written 0 then c.completeEffects else []) ++ c.markEffects m.len

/-- All that `sendRemaining` changes: `len` bytes from `message + nwrote` on go
to the buffer, the last `nwrote` of them from behind the message. -/
theorem sendRemaining_eq {c : TcpConnection} (hwf : c.outputBuffer.WF) (hcoh : c.channel.Coherent)
    (m : Message) (nwrote : Nat) :
    ∃ b ch, c.sendRemaining m nwrote =
        .ok { c.queneHighWaterMark m.len with outputBuffer := b, channel := ch } ∧
      b.WF ∧ ch.Coherent ∧
      b.content = c.outputBuffer.content ++ bytesAt (fun i => m.data (nwrote + i)) m.len := by
  obtain ⟨b, hb, hbec⟩ := Buffer.append_spec hwf (fun i => m.data (nwrote + i)) m.len
  by_cases hw : c.channel.isWriting = true
  · refine ⟨b, c.channel, ?_, hbec.wf, hcoh, hbec.content⟩
    simp [sendRemaining, queneHighWaterMark, startWriting, hb, hw, emits]
  · obtain ⟨ch, hch, hup⟩ := Channel.update_spec hcoh (c.channel.events ||| Events.kWriteEvent)
    refine ⟨b, ch, ?_, hbec.wf, hup.coherent, hbec.content⟩
    simp [sendRemaining, queneHighWaterMark, startWriting, Channel.enableWriting, hb, hw, hch]

/-- Nothing is being written and nothing is waiting. -/
def Idle (c : TcpConnection) : Prop :=
  c.channel.isWriting = false ∧ c.outputBuffer.readableBytes = 0

instance (c : TcpConnection) : Decidable c.Idle := inferInstanceAs (Decidable (_ ∧ _))

/-- With output pending the message is dropped. -/
theorem sendInLoop_busy {c : TcpConnection} (h : ¬ c.Idle) (m : Message) (r : WriteResult) :
    c.sendInLoop m r = .ok c := by
  unfold sendInLoop
  split
  · rfl
  · rw [if_neg (by simpa [Idle] using h), pure_eq_ok]

/-- What `sendInLoop` adds to the stream: nothing unless the connection is
idle, else what the kernel takes, and `len` bytes from there on. -/
def added (c : TcpConnection) (m : Message) (r : WriteResult) : List UInt8 :=
  if m.len ≠ 0 ∧ c.Idle then
    m.bytes.take r.taken ++ bytesAt (fun i => m.data (r.taken + i)) m.len
  else []

/-- An idle connection writes, and buffers `len` bytes from there on. -/
theorem sendInLoop_idle_eq {c : TcpConnection} (hstate : c.state ≠ .kDisconnected)
    (hwf : c.outputBuffer.WF) (hcoh : c.channel.Coherent) (hidle : c.Idle) (m : Message)
    {r : WriteResult} (hr : faultError r = false) :
    ∃ b ch, c.sendInLoop m r = .ok { (c.transmit (m.bytes.take r.taken)).emits (c.idleEffects m r) with
        outputBuffer := b, channel := ch } ∧
      b.WF ∧ ch.Coherent ∧ b.content = bytesAt (fun i => m.data (r.taken + i)) m.len := by
  have hnil : c.outputBuffer.content = [] := (Buffer.content_eq_nil hwf).mpr hidle.2
  -- the direct write, whether or not it queues the write-complete callback
  let c₁ := (c.transmit (m.bytes.take r.taken)).emits (if r = .written 0 then c.completeEffects else [])
  have hdirect : (if r = .written 0 then (c.transmit (m.bytes.take r.taken)).queneWriteComplete
      else c.transmit (m.bytes.take r.taken)) = c₁ := by
    by_cases hzero : r = .written 0
    · simp [c₁, hzero, queneWriteComplete, completeEffects, transmit]
    · simp [c₁, hzero, emits, transmit]
  by_cases hlen : m.len = 0
  · have hmark : c.markEffects m.len = [] := by
      unfold markEffects
      rw [if_neg (by omega)]
    have hsend : c.sendInLoop m r = .ok c₁ := by
      rw [← hdirect]
      simp [sendInLoop, hstate, hidle.1, hidle.2, hlen]
    refine ⟨c.outputBuffer, c.channel, ?_, hwf, hcoh, by rw [hnil, hlen]; rfl⟩
    rw [idleEffects, hmark, List.append_nil, hsend]
    rfl
  · obtain ⟨b, ch, hrem, hwf', hcoh', hcontent⟩ := sendRemaining_eq (c := c₁) hwf hcoh m r.taken
    have hsend : c.sendInLoop m r = c₁.sendRemaining m r.taken := by
      rw [← hdirect]
      simp [sendInLoop, hstate, hidle.1, hidle.2, hlen, hr]
    refine ⟨b, ch, ?_, hwf', hcoh', ?_⟩
    · rw [hsend, hrem, queneHighWaterMark]
      simp only [hidle.2, Nat.zero_add, emits, transmit, c₁, idleEffects, markEffects,
        List.append_assoc]
    · rw [hcontent]
      exact congrArg (· ++ _) hnil

theorem sendInLoop_spec {c : TcpConnection} (h : c.Streaming) (m : Message) {r : WriteResult}
    (hr : faultError r = false) :
    ∃ c', c.sendInLoop m r = .ok c' ∧ c'.Streaming ∧ c'.stream = c.stream ++ c.added m r := by
  by_cases hidle : c.Idle
  · have hnil : c.outputBuffer.content = [] := (Buffer.content_eq_nil h.wf).mpr hidle.2
    obtain ⟨b, ch, hc', hwf, hcoh, hcontent⟩ :=
      sendInLoop_idle_eq h.connected h.wf h.coherent hidle m hr
    refine ⟨_, hc', ⟨h.state, hwf, hcoh⟩, ?_⟩
    have hadded : c.added m r =
        m.bytes.take r.taken ++ bytesAt (fun i => m.data (r.taken + i)) m.len := by
      by_cases hlen : m.len = 0
      · simp [added, hlen, Message.bytes, bytesAt]
      · rw [added, if_pos ⟨hlen, hidle⟩]
    simp [stream, hadded, hcontent, hnil]
  · exact ⟨c, sendInLoop_busy hidle m r, h, by simp [added, hidle]⟩

/-- The send adds the message itself exactly when the message is empty, or the
connection idle and nothing of the message is written directly. -/
theorem added_eq_iff (c : TcpConnection) (m : Message) {r : WriteResult} (hr : r.Fits m.len) :
    c.added m r = m.bytes ↔ m.len = 0 ∨ c.Idle ∧ r.taken = 0 := by
  have hle := WriteResult.taken_le hr
  have hlen : m.bytes.length = m.len := by simp [Message.bytes]
  unfold added
  split
  · rename_i h
    constructor
    · intro he
      -- the bytes in the kernel are counted twice
      have := congrArg List.length he
      simp only [List.length_append, List.length_take, length_bytesAt, hlen] at this
      exact Or.inr ⟨h.2, by omega⟩
    · rintro (h0 | ⟨_, h0⟩)
      · exact absurd h0 h.1
      · simp [h0, Message.bytes]
  · rename_i h
    constructor
    · intro he
      have := congrArg List.length he
      exact Or.inl (by simpa [hlen] using this.symm)
    · rintro (h0 | ⟨hidle, _⟩)
      · simp [Message.bytes, bytesAt, h0]
      · have h0 : m.len = 0 := by
          by_contra hne
          exact h ⟨hne, hidle⟩
        simp [Message.bytes, bytesAt, h0]

/-- All that `written` changes. -/
theorem written_eq {c : TcpConnection} (h : c.Streaming) {n : Nat}
    (hn : n ≤ c.outputBuffer.readableBytes) :
    ∃ b ch, c.written n = .ok { (c.transmit (c.outputBuffer.content.take n)).emits
        (if n = c.outputBuffer.readableBytes then c.completeEffects else []) with
        outputBuffer := b, channel := ch } ∧
      b.WF ∧ ch.Coherent ∧ b.content = c.outputBuffer.content.drop n := by
  obtain ⟨b, hb, hbec⟩ := Buffer.retrieve_spec h.wf hn
  have hst : c.state ≠ .kDisconnecting := by simp [h.state]
  have hbytes : (bytesAt c.outputBuffer.peek c.outputBuffer.readableBytes).take n =
      c.outputBuffer.content.take n := by
    rw [Buffer.bytesAt_peek h.wf (Nat.le_refl _), List.take_take, Nat.min_eq_left hn]
  have hleft : b.readableBytes = c.outputBuffer.readableBytes - n := by
    rw [← Buffer.length_content hbec.wf, hbec.content, List.length_drop, Buffer.length_content h.wf]
  by_cases hdone : n = c.outputBuffer.readableBytes
  · have hempty : b.readableBytes = 0 := by omega
    obtain ⟨ch, hch, hup⟩ := Channel.update_spec h.coherent
      (c.channel.events &&& ~~~Events.kWriteEvent)
    refine ⟨b, ch, ?_, hbec.wf, hup.coherent, hbec.content⟩
    rw [if_pos hdone]
    simp [written, hbytes, hb, hempty, Channel.disableWriting, hch, queneWriteComplete, hst,
      completeEffects, emits, transmit]
  · have hrest : b.readableBytes ≠ 0 := by omega
    refine ⟨b, c.channel, ?_, hbec.wf, h.coherent, hbec.content⟩
    rw [if_neg hdone]
    simp [written, hbytes, hb, hrest, emits, transmit]

theorem written_spec {c : TcpConnection} (h : c.Streaming) {n : Nat}
    (hn : n ≤ c.outputBuffer.readableBytes) :
    ∃ c', c.written n = .ok c' ∧ c'.Streaming ∧ c'.stream = c.stream := by
  obtain ⟨b, ch, hc', hwf, hcoh, hcontent⟩ := written_eq h hn
  refine ⟨_, hc', ⟨h.state, hwf, hcoh⟩, ?_⟩
  simp only [stream, emits, transmit, hcontent]
  rw [List.append_assoc, List.take_append_drop]

/-- `handleWrite` only moves bytes from the buffer to the kernel. -/
theorem handleWrite_spec {c : TcpConnection} (h : c.Streaming) {r : WriteResult}
    (hr : r.Fits c.outputBuffer.readableBytes) :
    ∃ c', c.handleWrite r = .ok c' ∧ c'.Streaming ∧ c'.stream = c.stream := by
  unfold handleWrite
  split
  · split
    · exact written_spec h (WriteResult.taken_le hr)
    · exact ⟨c, by simp [h.state], h, rfl⟩
  · exact ⟨c, rfl, h, rfl⟩

theorem established_streaming (w : Bool) : (established w).Streaming :=
  ⟨rfl, Buffer.fresh_WF _, established_coherent w⟩

end TcpConnection

/-! ## Runs -/

inductive StreamStep where
  | send (m : Message) (r : WriteResult)
  | handleWrite (r : WriteResult)

/-- A connection and the messages sent so far, one behind the other. -/
structure StreamState where
  conn : TcpConnection
  sent : List UInt8

/-- A connection with whatever it has written and still holds so far. -/
def StreamState.start (c : TcpConnection) : StreamState := ⟨c, c.stream⟩

def streamStep (s : StreamState) : StreamStep → Checked StreamState
  | .send m r => do
    let conn ← s.conn.sendInLoop m r
    return ⟨conn, s.sent ++ m.bytes⟩
  | .handleWrite r => do
    let conn ← s.conn.handleWrite r
    return { s with conn }

/-- What `write(2)` may answer: no more bytes than it was offered, and as the
only error `EWOULDBLOCK`. -/
def StreamAllowed (s : StreamState) : StreamStep → Prop
  | .send m r => r.Healthy ∧ r.Fits m.len
  | .handleWrite r => r.Healthy ∧ r.Fits s.conn.outputBuffer.readableBytes

/-- No assertion fails, and no byte is lost, duplicated, reordered or taken
from outside a message. -/
def Intact (_ : StreamState) (_ : StreamStep) (o : Checked StreamState) : Prop :=
  ∃ s', o = .ok s' ∧ s'.conn.stream = s'.sent

/-- The sends that leave the stream intact: an empty message, or an idle
connection and a write that takes nothing. -/
def Harmless (s : StreamState) : StreamStep → Prop
  | .send m r => m.len = 0 ∨ s.conn.Idle ∧ r.taken = 0
  | .handleWrite _ => True

instance (s : StreamState) (a : StreamStep) : Decidable (StreamAllowed s a) := by
  cases a <;> unfold StreamAllowed <;> infer_instance

instance (s : StreamState) (a : StreamStep) : Decidable (Harmless s a) := by
  cases a <;> unfold Harmless <;> infer_instance

/-- What one step does to the stream. -/
theorem streamStep_spec {s : StreamState} (h : s.conn.Streaming) {a : StreamStep}
    (ha : StreamAllowed s a) :
    ∃ s', streamStep s a = .ok s' ∧ s'.conn.Streaming ∧
      match a with
      | .send m r => s'.conn.stream = s.conn.stream ++ s.conn.added m r ∧
          s'.sent = s.sent ++ m.bytes
      | .handleWrite _ => s'.conn.stream = s.conn.stream ∧ s'.sent = s.sent := by
  cases a with
  | send m r =>
    have hr : TcpConnection.faultError r = false := by
      cases r with
      | written n => rfl
      | failed e => obtain rfl : e = .EWOULDBLOCK := ha.1; rfl
    obtain ⟨c', hc', hst, hs⟩ := TcpConnection.sendInLoop_spec h m hr
    exact ⟨⟨c', s.sent ++ m.bytes⟩, by simp [streamStep, hc'], hst, hs, rfl⟩
  | handleWrite r =>
    obtain ⟨c', hc', hst, hs⟩ := TcpConnection.handleWrite_spec h ha.2
    exact ⟨⟨c', s.sent⟩, by simp [streamStep, hc'], hst, hs, rfl⟩

theorem step_intact_iff {s : StreamState} (h : s.conn.Streaming) (hi : s.conn.stream = s.sent)
    {a : StreamStep} (ha : StreamAllowed s a) : Intact s a (streamStep s a) ↔ Harmless s a := by
  obtain ⟨s', hs', _, hspec⟩ := streamStep_spec h ha
  simp only [Intact, hs', Except.ok.injEq, exists_eq_left']
  cases a with
  | send m r =>
    rw [hspec.1, hspec.2, hi, List.append_right_inj]
    exact TcpConnection.added_eq_iff s.conn m ha.2
  | handleWrite r => simp [hspec.1, hspec.2, hi, Harmless]

/-- **The output stream.** A run of sends and write events on a connected
connection keeps the stream intact in every state it reaches exactly when each
of its sends is harmless. -/
theorem stream_intact_iff {c : TcpConnection} (hc : c.Streaming) (steps : List StreamStep)
    (hsteps : Along streamStep StreamAllowed (.start c) steps) :
    Steps streamStep Intact (.start c) steps ↔ Along streamStep Harmless (.start c) steps := by
  refine steps_iff (I := fun s => s.conn.Streaming ∧ s.conn.stream = s.sent) ?_ ?_ ⟨hc, rfl⟩ hsteps
  · intro s a ⟨hst, hi⟩ ha
    exact step_intact_iff hst hi ha
  · intro s a s' ⟨hst, hi⟩ ha hp hs
    obtain ⟨s₁, h₁, hi₁⟩ := (step_intact_iff hst hi ha).mpr hp
    obtain ⟨s₂, h₂, hst₂, _⟩ := streamStep_spec hst ha
    rw [hs] at h₁ h₂
    cases h₁
    cases h₂
    exact ⟨hst₂, hi₁⟩

/-- Three bytes for a socket that is full, then written in two parts, from an
output buffer of four bytes. -/
theorem stream_intact_iff_sample :
    Steps streamStep Intact
      (.start { TcpConnection.established true with outputBuffer := Buffer.fresh 4 })
      [.send (.ofBytes [1, 2, 3]) (.failed .EWOULDBLOCK), .handleWrite (.written 2),
       .handleWrite (.written 1)] := by
  have hst : ({ TcpConnection.established true with
      outputBuffer := Buffer.fresh 4 } : TcpConnection).Streaming :=
    ⟨rfl, Buffer.fresh_WF 4, (TcpConnection.established_streaming true).coherent⟩
  exact (stream_intact_iff hst _ (by decide)).mpr (by decide)

/-- The kernel takes two bytes of three; the source then buffers three bytes
from the third one on, two of them from behind the message. -/
theorem partial_write_corrupts_stream :
    (TcpConnection.established true).Streaming ∧
    Along streamStep StreamAllowed (.start (.established true))
      [.send (.ofBytes [1, 2, 3]) (.written 2)] ∧
    ¬ Steps streamStep Intact (.start (.established true))
      [.send (.ofBytes [1, 2, 3]) (.written 2)] := by
  have hst := TcpConnection.established_streaming true
  have ha : StreamAllowed (.start (.established true)) (.send (.ofBytes [1, 2, 3]) (.written 2)) := by
    decide
  refine ⟨hst, ⟨ha, fun _ _ => trivial⟩, ?_⟩
  intro h
  have hharm := (step_intact_iff hst rfl ha).mp h.1
  revert hharm
  decide

end Muduo
