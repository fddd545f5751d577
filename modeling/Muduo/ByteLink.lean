import Muduo.InputStream
import Muduo.OutputStream

/-!
Two connections and the network between them. One end sends, through
`sendInLoop` and `handleWrite`; the other end reads in any of its dispatches,
runs functors, is called, and gives its user what it asks for. The network keeps
what the sender's kernel has taken until the receiver reads it, and gives any
part from the front.

* `LinkInv.step`: where each byte is, behind every step;
* `end_to_end`: what the receiving user gets is a prefix of what was sent.
-/

namespace Muduo

open Lib

structure ByteLink where
  sender : StreamState
  network : List UInt8
  receiver : TcpConnection
  /-- what the receiving user has taken -/
  delivered : List UInt8

namespace ByteLink

/-- Nothing has been sent. -/
def start (sender receiver : TcpConnection) : ByteLink where
  sender := .start sender
  network := []
  receiver := receiver
  delivered := []

inductive Label where
  | send (a : StreamStep)
  | receive (a : InputStep)

def Enabled (s : ByteLink) : Label → Prop
  | .send a => StreamAllowed s.sender a
  | .receive a => InputAllowed s.receiver a ∧ a.received <+: s.network

instance (s : ByteLink) (a : Label) : Decidable (s.Enabled a) := by
  cases a <;> unfold Enabled <;> infer_instance

/-- The network takes what the kernel of the sender has taken. -/
def step (s : ByteLink) : Label → Checked ByteLink
  | .send a => do
    let sender ← streamStep s.sender a
    return { s with
      sender := sender
      network := s.network ++ sender.conn.wire.drop s.sender.conn.wire.length }
  | .receive a => do
    let receiver ← inputStep s.receiver a
    return { s with
      network := s.network.drop a.received.length
      receiver := receiver
      delivered := s.delivered ++ taken s.receiver a }

/-- A send that keeps the stream intact; the receiver does what it likes. -/
def Harmless (s : ByteLink) : Label → Prop
  | .send a => Muduo.Harmless s.sender a
  | .receive _ => True

instance (s : ByteLink) (a : Label) : Decidable (s.Harmless a) := by
  cases a <;> unfold Harmless <;> infer_instance

end ByteLink

/-! ## The kernel only takes more -/

theorem handleWrite_wire {c c' : TcpConnection} (h : c.Streaming) {r : WriteResult}
    (hr : r.Fits c.outputBuffer.readableBytes) (hs : c.handleWrite r = .ok c') :
    c.wire <+: c'.wire := by
  unfold TcpConnection.handleWrite at hs
  split at hs
  · split at hs
    · obtain ⟨b, ch, hc', -⟩ := TcpConnection.written_eq h (WriteResult.taken_le hr)
      cases hs.symm.trans hc'
      exact List.prefix_append ..
    · cases hs
      simp [h.state]
  · cases hs
    exact List.prefix_rfl

theorem streamStep_wire {s s' : StreamState} (h : s.conn.Streaming) {a : StreamStep}
    (ha : StreamAllowed s a) (hs : streamStep s a = .ok s') : s.conn.wire <+: s'.conn.wire := by
  cases a with
  | send m r =>
    obtain ⟨c', hc', hs⟩ := bind_eq_ok.mp hs
    cases hs
    by_cases hidle : s.conn.Idle
    · have hr : TcpConnection.faultError r = false := by
        cases r with
        | written n => rfl
        | failed e =>
          obtain rfl : e = .EWOULDBLOCK := ha.1
          rfl
      obtain ⟨b, ch, heq, -⟩ :=
        TcpConnection.sendInLoop_idle_eq h.connected h.wf h.coherent hidle m hr
      cases hc'.symm.trans heq
      exact List.prefix_append ..
    · rw [TcpConnection.sendInLoop_busy hidle] at hc'
      cases hc'
      exact List.prefix_rfl
  | handleWrite r =>
    obtain ⟨c', hc', hs⟩ := bind_eq_ok.mp hs
    cases hs
    exact handleWrite_wire h ha.2 hc'

namespace ByteLink

/-! ## Where each byte is -/

structure LinkInv (s : ByteLink) : Prop where
  streaming : s.sender.conn.Streaming
  input : s.receiver.inputBuffer.WF
  wire : s.delivered ++ s.receiver.inputBuffer.content ++ s.network = s.sender.conn.wire

theorem LinkInv.step {s s' : ByteLink} (h : s.LinkInv) {a : Label} (ha : s.Enabled a)
    (hs : s.step a = .ok s') : s'.LinkInv := by
  cases a with
  | send a =>
    obtain ⟨t, ht, hs⟩ := bind_eq_ok.mp hs
    cases hs
    obtain ⟨t', ht', hst, -⟩ := streamStep_spec h.streaming ha
    obtain rfl : t = t' := Except.ok.inj (ht.symm.trans ht')
    obtain ⟨more, hmore⟩ := streamStep_wire h.streaming ha ht
    refine ⟨hst, h.input, ?_⟩
    rw [← hmore, List.drop_left, ← List.append_assoc, h.wire]
  | receive a =>
    obtain ⟨c, hc, hs⟩ := bind_eq_ok.mp hs
    cases hs
    obtain ⟨hwf, htaken⟩ := inputStep_spec h.input ha.1 hc
    obtain ⟨rest, hrest⟩ := ha.2
    refine ⟨h.streaming, hwf, ?_⟩
    calc
      _ = s.delivered ++ (taken s.receiver a ++ c.inputBuffer.content) ++ rest := by
        rw [← hrest, List.drop_left]
        simp only [List.append_assoc]
      _ = s.delivered ++ s.receiver.inputBuffer.content ++ (a.received ++ rest) := by
        rw [htaken]
        simp only [List.append_assoc]
      _ = s.sender.conn.wire := by rw [hrest, h.wire]

/-- A harmless step keeps the sender's stream. -/
theorem LinkInv.stream {s s' : ByteLink} (h : s.LinkInv) {a : Label} (ha : s.Enabled a)
    (hharm : s.Harmless a) (hs : s.step a = .ok s') (hstream : s.sender.conn.stream = s.sender.sent) :
    s'.sender.conn.stream = s'.sender.sent := by
  cases a with
  | send a =>
    obtain ⟨t, ht, hs⟩ := bind_eq_ok.mp hs
    cases hs
    obtain ⟨t', ht', hintact⟩ := (step_intact_iff h.streaming hstream ha).mpr hharm
    obtain rfl : t = t' := Except.ok.inj (ht.symm.trans ht')
    exact hintact
  | receive a =>
    obtain ⟨c, -, hs⟩ := bind_eq_ok.mp hs
    cases hs
    exact hstream

/-- **End to end.** Whatever the two ends do, the user of the receiver gets what
the kernel of the sender has taken, in order. When every send is harmless, each
byte sent is delivered, in the receiver's buffer, in the network or in the
sender's buffer, in this order. -/
theorem end_to_end {sender receiver : TcpConnection} (hsender : sender.Streaming)
    (hwire : sender.wire = []) (hinput : receiver.inputBuffer.WF)
    (hempty : receiver.inputBuffer.content = []) {steps : List Label} {t : ByteLink}
    (hrun : Run step (start sender receiver) steps t)
    (hsteps : Along step Enabled (start sender receiver) steps) :
    t.delivered <+: t.sender.conn.wire ∧
    (Along step Harmless (start sender receiver) steps →
      t.delivered ++ t.receiver.inputBuffer.content ++ t.network ++
        t.sender.conn.outputBuffer.content = t.sender.sent) := by
  have hinit : (start sender receiver).LinkInv :=
    ⟨hsender, hinput, by simp [start, StreamState.start, hempty, hwire]⟩
  have hinv : t.LinkInv := hrun.invariant hsteps hinit fun s a s' h ha hs => h.step ha hs
  constructor
  · rw [← hinv.wire, List.append_assoc]
    exact List.prefix_append ..
  · intro hharmless
    have hE : Along step (fun s a => s.Enabled a ∧ s.Harmless a) (start sender receiver) steps :=
      hsteps.and hharmless
    have hboth : t.LinkInv ∧ t.sender.conn.stream = t.sender.sent := by
      refine hrun.invariant (I := fun t => t.LinkInv ∧ t.sender.conn.stream = t.sender.sent)
        hE ⟨hinit, rfl⟩ fun s a s' h ha hs => ?_
      exact ⟨h.1.step ha.1 hs, h.1.stream ha.1 ha.2 hs h.2⟩
    rw [hinv.wire]
    exact hboth.2

/-- Three bytes are sent, two of them arrive, and one is taken. -/
def oneDelivered : List Label :=
  [.send (.send (.ofBytes [1, 2, 3]) (.failed .EWOULDBLOCK)), .send (.handleWrite (.written 2)),
    .receive (.dispatch Events.POLLIN (.received [1, 2]) (.written 0)), .receive (.retrieve 1)]

theorem end_to_end_oneDelivered :
    ∃ t, Run step (start { TcpConnection.established true with outputBuffer := Buffer.fresh 4 }
        smallInput) oneDelivered t ∧
      t.delivered ++ t.receiver.inputBuffer.content ++ t.network ++
        t.sender.conn.outputBuffer.content = t.sender.sent := by
  have hst : ({ TcpConnection.established true with
      outputBuffer := Buffer.fresh 4 } : TcpConnection).Streaming :=
    ⟨rfl, Buffer.fresh_WF 4, (TcpConnection.established_streaming true).coherent⟩
  refine ⟨_, .cons rfl (.cons rfl (.cons rfl (.cons rfl (.nil _)))), ?_⟩
  refine (@end_to_end _ smallInput hst rfl (Buffer.fresh_WF 4) (Buffer.fresh_content 4) oneDelivered _
    (.cons rfl (.cons rfl (.cons rfl (.cons rfl (.nil _))))) ?_).2 ?_
  · decide
  · decide

end ByteLink

end Muduo
