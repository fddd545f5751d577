import Muduo.InputStream
import Muduo.SendOverloads

/-!
The echo server of `main.cpp`: the `messageCallback_` of its connections is
`onMessage`, which sends all that is in `inputBuffer_` back. It is called inside of
the dispatch, in front of the write branch of the same event.

* `step_spec`: what an event adds to the output stream;
* `echo_intact_iff`: when what goes out is what has come in.
-/

namespace Muduo

open Lib Events

/-- An event, and what the system calls say while it is handled. -/
structure EchoEvent where
  revents : Events
  read : ReadResult
  /-- to the `send` of `onMessage` -/
  echo : WriteResult
  /-- to `handleWrite` -/
  write : WriteResult

structure EchoConnection where
  conn : TcpConnection
  /-- all bytes that have come in -/
  received : List UInt8

namespace EchoConnection

/-- The callback runs in the loop thread. -/
def onMessage (conn : TcpConnection) (echo : WriteResult) : Checked TcpConnection := do
  let (msg, inputBuffer) ← conn.inputBuffer.retrieveAllAsString
  { conn with inputBuffer }.sendString true msg echo

/-- The callback is the last thing in `handleRead`. -/
def handleRead (e : EchoEvent) (conn : TcpConnection) : Checked TcpConnection := do
  let conn ← conn.handleRead e.read
  match e.read with
  | .received (_ :: _) => onMessage conn e.echo
  | _ => return conn

def callbacks (e : EchoEvent) : Channel.Callbacks TcpConnection :=
  { TcpConnection.callbacks e.read e.write with read := some (handleRead e) }

/-- `Channel::handleEvent` -/
def handleEvent (conn : TcpConnection) (e : EchoEvent) : Checked TcpConnection := do
  let conn ← Channel.handleEventWithGuard (callbacks e) e.revents (conn.setEventHandling true)
  return conn.setEventHandling false

def step (s : EchoConnection) (e : EchoEvent) : Checked EchoConnection := do
  let conn ← handleEvent s.conn e
  return ⟨conn, s.received ++ TcpConnection.received e.revents e.read⟩

/-- The branch of the event in which `onMessage` runs. -/
def readBranch (e : EchoEvent) (conn : TcpConnection) : Checked TcpConnection :=
  if TcpConnection.readable e.revents then handleRead e conn else return conn

/-- The connection stays open, and `write` takes no more than it is given. -/
structure Allowed (s : EchoConnection) (e : EchoEvent) : Prop where
  opened : ¬ TcpConnection.closing e.revents = true
  more : ¬ TcpConnection.atEof e.revents e.read
  echo : e.echo.Fits (TcpConnection.received e.revents e.read).length
  write : ∀ conn, readBranch e (s.conn.setEventHandling true) = .ok conn →
    e.write.Fits conn.outputBuffer.readableBytes

end EchoConnection

/-! ## One message -/

namespace TcpConnection

/-- What a message adds to the stream, whatever `write` says. -/
def echoed (c : TcpConnection) (bytes : List UInt8) (r : WriteResult) : List UInt8 :=
  if faultError r then [] else c.added (Message.ofBytes bytes) r

theorem sendInLoop_echoed {c : TcpConnection} (h : c.Streaming) (bytes : List UInt8)
    (r : WriteResult) :
    ∃ c', c.sendInLoop (Message.ofBytes bytes) r = .ok c' ∧ c'.Streaming ∧
      c'.stream = c.stream ++ c.echoed bytes r := by
  cases hr : faultError r with
  | true =>
    exact ⟨c, sendInLoop_fault c (Message.ofBytes bytes) hr, h, by simp [echoed, hr]⟩
  | false =>
    obtain ⟨c', hc', hst, hs⟩ := sendInLoop_spec h (Message.ofBytes bytes) hr
    exact ⟨c', hc', hst, by simp [hs, echoed, hr]⟩

/-- The message comes back as it is when the connection is idle and its socket
takes nothing at once. -/
theorem echoed_eq_iff (c : TcpConnection) {bytes : List UInt8} (hbytes : bytes ≠ [])
    {r : WriteResult} (hr : r.Fits bytes.length) :
    c.echoed bytes r = bytes ↔ c.Idle ∧ r.taken = 0 ∧ faultError r = false := by
  have hm := bytes_ofBytes bytes
  have hlen : (Message.ofBytes bytes).len ≠ 0 := by
    simpa [Message.ofBytes] using hbytes
  cases hfault : faultError r with
  | true => simp [echoed, hfault, hbytes.symm]
  | false =>
    have hadded := added_eq_iff c (Message.ofBytes bytes) hr
    rw [hm] at hadded
    simp [echoed, hfault, hadded, hlen]

end TcpConnection

namespace EchoConnection

open TcpConnection (Streaming echoed readable closing atEof)

/-- Nothing is left in the input buffer between two events. -/
structure Waiting (conn : TcpConnection) : Prop where
  streaming : conn.Streaming
  input : conn.inputBuffer.WF
  empty : conn.inputBuffer.content = []

theorem onMessage_spec {conn : TcpConnection} (h : conn.Streaming) (hwf : conn.inputBuffer.WF)
    (echo : WriteResult) :
    ∃ conn', onMessage conn echo = .ok conn' ∧ Waiting conn' ∧
      conn'.stream = conn.stream ++ echoed conn conn.inputBuffer.content echo := by
  obtain ⟨b, hb, hretrieve⟩ := Buffer.retrieveAsString_spec hwf (Nat.le_refl conn.inputBuffer.readableBytes)
  obtain ⟨b', hb', hbec⟩ := Buffer.retrieve_spec hwf (Nat.le_refl conn.inputBuffer.readableBytes)
  obtain rfl : b = b' := Except.ok.inj (hretrieve.symm.trans hb')
  have hlen := Buffer.length_content hwf
  obtain ⟨conn', hconn', hst, hs⟩ := TcpConnection.sendInLoop_echoed
    (c := { conn with inputBuffer := b }) ⟨h.state, h.wf, h.coherent⟩ conn.inputBuffer.content echo
  have hinput := TcpConnection.inputBuffer_sendInLoop hconn'
  refine ⟨conn', ?_, ⟨hst, ?_, ?_⟩, hs⟩
  · have hall : conn.inputBuffer.content.take conn.inputBuffer.readableBytes =
        conn.inputBuffer.content := List.take_of_length_le (Nat.le_of_eq hlen)
    rw [hall] at hb
    simp only [onMessage, Buffer.retrieveAllAsString, hb, ok_bind]
    rw [TcpConnection.sendString, if_pos h.state]
    exact hconn'
  · rw [hinput]
    exact hbec.wf
  · rw [hinput]
    simp [hbec.content, ← hlen]

/-! ## One event -/

theorem handleRead_spec {conn : TcpConnection} (h : Waiting conn) {e : EchoEvent}
    (hread : e.read ≠ .received []) :
    ∃ conn', handleRead e conn = .ok conn' ∧ Waiting conn' ∧
      conn'.stream = conn.stream ++
        if e.read.bytes = [] then [] else echoed conn e.read.bytes e.echo := by
  unfold handleRead TcpConnection.handleRead
  match hr : e.read with
  | .failed errno => exact ⟨conn, rfl, h, by simp [ReadResult.bytes]⟩
  | .received [] => exact absurd hr hread
  | .received (byte :: bytes) =>
    obtain ⟨b, hb, hwf, hcontent⟩ := TcpConnection.readFd_content h.input (.received (byte :: bytes))
    rw [h.empty, List.nil_append] at hcontent
    have hst : ({ conn with inputBuffer := b }.emit .messageCallback).Streaming :=
      ⟨h.streaming.state, h.streaming.wf, h.streaming.coherent⟩
    obtain ⟨conn', hconn', hwaiting, hs⟩ := onMessage_spec hst hwf e.echo
    refine ⟨conn', by simpa [hb] using hconn', hwaiting, ?_⟩
    rw [hs, if_neg (by simp [ReadResult.bytes])]
    exact congrArg (fun bytes => conn.stream ++ echoed conn bytes e.echo) hcontent

/-- What an event adds to the output stream. -/
def answer (conn : TcpConnection) (e : EchoEvent) : List UInt8 :=
  if TcpConnection.received e.revents e.read = [] then []
  else echoed conn (TcpConnection.received e.revents e.read) e.echo

theorem readBranch_spec {conn : TcpConnection} (h : Waiting conn) {e : EchoEvent}
    (hmore : ¬ atEof e.revents e.read) :
    ∃ conn', readBranch e conn = .ok conn' ∧ Waiting conn' ∧
      conn'.stream = conn.stream ++ answer conn e := by
  unfold readBranch answer TcpConnection.received
  split
  · rename_i hreadable
    exact handleRead_spec h fun heof => hmore ⟨hreadable, heof⟩
  · exact ⟨conn, rfl, h, by simp⟩

theorem handleEvent_eq {conn : TcpConnection} {e : EchoEvent} (h : ¬ closing e.revents = true) :
    handleEvent conn e =
      readBranch e (conn.setEventHandling true) >>= TcpConnection.writeBranch e.revents e.write >>=
        fun c => pure (c.setEventHandling false) := by
  unfold handleEvent Channel.handleEventWithGuard readBranch TcpConnection.writeBranch callbacks
    TcpConnection.callbacks
  simp only [Channel.invoke, TcpConnection.handleError, readable]
  by_cases herror : e.revents.has (POLLERR ||| POLLNVAL) = true <;>
    by_cases hread : e.revents.has (POLLIN ||| POLLPRI ||| POLLRDHUP) = true <;>
    simp only [closing] at h <;>
    simp only [h, herror, hread, Bool.false_eq_true, ↓reduceIte, bind_assoc, pure_bind]

theorem Waiting.handling {conn : TcpConnection} (h : Waiting conn) (b : Bool) :
    Waiting (conn.setEventHandling b) :=
  ⟨⟨h.streaming.state, h.streaming.wf, h.streaming.coherent.mapped_iff, h.streaming.coherent.added_iff⟩,
    h.input, h.empty⟩

theorem step_spec {s : EchoConnection} (h : Waiting s.conn) {e : EchoEvent} (ha : s.Allowed e) :
    ∃ s', s.step e = .ok s' ∧ Waiting s'.conn ∧
      s'.conn.stream = s.conn.stream ++ answer s.conn e ∧
      s'.received = s.received ++ TcpConnection.received e.revents e.read := by
  obtain ⟨c₁, h₁, hwaiting, hs⟩ := readBranch_spec (h.handling true) ha.more
  obtain ⟨c₂, h₂, hst, hs₂⟩ : ∃ c₂, TcpConnection.writeBranch e.revents e.write c₁ = .ok c₂ ∧
      c₂.Streaming ∧ c₂.stream = c₁.stream := by
    unfold TcpConnection.writeBranch
    split
    · exact TcpConnection.handleWrite_spec hwaiting.streaming (ha.write c₁ h₁)
    · exact ⟨c₁, rfl, hwaiting.streaming, rfl⟩
  have hinput : c₂.inputBuffer = c₁.inputBuffer := by
    unfold TcpConnection.writeBranch at h₂
    split at h₂
    · exact TcpConnection.inputBuffer_handleWrite h₂
    · cases h₂
      rfl
  have hwaiting₂ : Waiting c₂ := ⟨hst, hinput ▸ hwaiting.input, hinput ▸ hwaiting.empty⟩
  refine ⟨⟨c₂.setEventHandling false, _⟩, ?_, hwaiting₂.handling false, hs₂.trans hs, rfl⟩
  simp only [step, handleEvent_eq ha.opened, h₁, ok_bind, h₂, pure_eq_ok]

/-! ## Runs -/

/-- No assertion fails, and the stream is what has come in. -/
def Intact (_ : EchoConnection) (_ : EchoEvent) (o : Checked EchoConnection) : Prop :=
  ∃ s', o = .ok s' ∧ s'.conn.stream = s'.received

/-- Nothing comes in, or nothing is on its way out, the socket takes nothing of
the answer at once and its connection is not broken. -/
def Harmless (s : EchoConnection) (e : EchoEvent) : Prop :=
  TcpConnection.received e.revents e.read = [] ∨
    s.conn.Idle ∧ e.echo.taken = 0 ∧ TcpConnection.faultError e.echo = false

theorem step_intact_iff {s : EchoConnection} (h : Waiting s.conn) (hs : s.conn.stream = s.received)
    {e : EchoEvent} (ha : s.Allowed e) : Intact s e (s.step e) ↔ s.Harmless e := by
  obtain ⟨s', hs', -, hstream, hreceived⟩ := step_spec h ha
  have hintact : Intact s e (s.step e) ↔
      answer s.conn e = TcpConnection.received e.revents e.read := by
    simp only [Intact, hs', Except.ok.injEq, exists_eq_left']
    rw [hstream, hreceived, hs, List.append_right_inj]
  rw [hintact, Harmless, answer]
  split
  · rename_i hnil
    exact iff_of_true hnil.symm (.inl hnil)
  · rename_i hbytes
    rw [TcpConnection.echoed_eq_iff s.conn hbytes ha.echo]
    exact (or_iff_right hbytes).symm

/-- **The echo server.** While a connection is open, whatever events it sees and
however its socket takes the answers, what it has written and has yet to write is
what it has received, in every state, exactly if each message finds nothing on its
way out and a socket that takes nothing of it at once, and this without `EPIPE` or
`ECONNRESET`. -/
theorem echo_intact_iff {conn : TcpConnection} (h : Waiting conn) (hstart : conn.stream = [])
    (events : List EchoEvent) (hevents : Along step Allowed ⟨conn, []⟩ events) :
    Steps step Intact ⟨conn, []⟩ events ↔ Along step Harmless ⟨conn, []⟩ events := by
  refine steps_iff (I := fun s => Waiting s.conn ∧ s.conn.stream = s.received) ?_ ?_ ⟨h, hstart⟩
    hevents
  · intro s e ⟨hwaiting, hs⟩ ha
    exact step_intact_iff hwaiting hs ha
  · intro s e s' ⟨hwaiting, hs⟩ ha hharmless hstep
    obtain ⟨s₁, h₁, hintact⟩ := (step_intact_iff hwaiting hs ha).mpr hharmless
    obtain ⟨s₂, h₂, hwaiting₂, -⟩ := step_spec hwaiting ha
    rw [hstep] at h₁ h₂
    cases h₁
    cases h₂
    exact ⟨hwaiting₂, hintact⟩

/-- An open connection with small buffers. -/
def small : TcpConnection :=
  { TcpConnection.established false with inputBuffer := Buffer.fresh 4, outputBuffer := Buffer.fresh 4 }

theorem small_waiting : Waiting small :=
  ⟨⟨rfl, Buffer.fresh_WF 4, (TcpConnection.established_streaming false).coherent⟩, Buffer.fresh_WF 4,
    Buffer.fresh_content 4⟩

/-- A full socket, which then takes both bytes, and a third byte. -/
def threeEvents : List EchoEvent :=
  [⟨POLLIN, .received [1, 2], .failed .EWOULDBLOCK, .written 0⟩,
   ⟨POLLOUT, .received [], .written 0, .written 2⟩,
   ⟨POLLIN, .received [3], .failed .EWOULDBLOCK, .written 0⟩]

theorem echo_intact_iff_threeEvents : Steps step Intact ⟨small, []⟩ threeEvents := by
  refine (echo_intact_iff small_waiting rfl threeEvents ?_).mpr ?_
  · refine (steps_cons_ok rfl).mpr ⟨⟨by decide, by simp [atEof], trivial, fun _ _ => Nat.zero_le _⟩, ?_⟩
    refine (steps_cons_ok rfl).mpr ⟨⟨by decide, fun h => absurd h.1 (by decide), Nat.zero_le _, fun conn h => ?_⟩, ?_⟩
    · cases h
      decide
    · exact ⟨⟨by decide, by simp [atEof], trivial, fun _ _ => Nat.zero_le _⟩, fun _ _ => trivial⟩
  · refine (steps_cons_ok rfl).mpr ⟨.inr ⟨by decide, rfl, rfl⟩, ?_⟩
    refine (steps_cons_ok rfl).mpr ⟨.inl rfl, ?_⟩
    exact ⟨.inr ⟨by decide, rfl, rfl⟩, fun _ _ => trivial⟩

/-- A socket that takes the answer at once is then given a byte from behind it. -/
example : (step ⟨small, []⟩ ⟨POLLIN, .received [7], .written 1, .written 0⟩).map
    (fun s => s.conn.stream) = .ok [7, 0] := rfl

end EchoConnection

end Muduo
