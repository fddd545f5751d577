import Muduo.ConnectionSteps
import Muduo.WriteInterest

/-!
`TcpConnection::shutdown` in the loop thread, and the write events behind it.
The half-close falls due when the output is drained: at once, or in the
`handleWrite` that writes the last byte, and never twice.

What is issued then is `::shutdown(sockfd, SHUT_RD)`. It leaves the sending
direction open and shuts the receiving one: a read that finds nothing is now the
end of the stream, and closes the connection. So `half_close_iff` finds the runs
that are right to be those in which no half-close falls due.
-/

namespace Muduo

open Lib

/-! ## The socket -/

/-- The argument `how` of `shutdown(2)`. -/
inductive ShutdownHow where
  | SHUT_RD
  | SHUT_WR
  | SHUT_RDWR

/-- The directions of a connected socket that are open. -/
structure Socket where
  sending : Bool
  receiving : Bool
  deriving DecidableEq, Repr

namespace Socket

def connected : Socket := ⟨true, true⟩

/-- `::shutdown`. -/
def shutdown (s : Socket) : ShutdownHow → Socket
  | .SHUT_RD => { s with receiving := false }
  | .SHUT_WR => { s with sending := false }
  | .SHUT_RDWR => ⟨false, false⟩

/-- `sockets::shutdownWrite`. -/
def shutdownWrite (s : Socket) : Socket := s.shutdown .SHUT_RD

/-- What a function of the connection does to its socket. -/
def perform (s : Socket) : Effect → Socket
  | .shutdownWrite => s.shutdownWrite
  | _ => s

/-- What `sockets::readv` may give when it finds `arrived`. With the receiving
direction shut it is the kernel's choice: what has arrived is still there to be
read, but the end of the stream may come at any time, and does when there is
nothing. -/
inductive Reads (s : Socket) (arrived : List UInt8) : ReadResult → Prop where
  | received (h : arrived ≠ []) : Reads s arrived (.received arrived)
  | again (h : arrived = []) (hopen : s.receiving = true) : Reads s arrived (.failed .EWOULDBLOCK)
  | shut (hshut : s.receiving = false) : Reads s arrived (.received [])

end Socket

def Effect.isShutdown : Effect → Bool
  | .shutdownWrite => true
  | _ => false

/-- Several half-closes do what one does. -/
theorem foldl_perform (es : List Effect) (s : Socket) :
    es.foldl Socket.perform s =
      if es.countP Effect.isShutdown = 0 then s else s.shutdownWrite := by
  induction es generalizing s with
  | nil => rfl
  | cons e es ih =>
    rw [List.foldl_cons, ih]
    cases e with
    | shutdownWrite =>
      simp only [List.countP_cons, Effect.isShutdown, ↓reduceIte, Nat.add_one_ne_zero]
      split <;> rfl
    | _ => rfl

/-! ## The steps -/

/-- A connection, its socket, and the number of half-closes issued. -/
structure Closing where
  conn : TcpConnection
  socket : Socket
  halfCloses : Nat

inductive ClosingStep where
  | shutdown
  | handleWrite (r : WriteResult)
  deriving DecidableEq, Repr

namespace Closing

open TcpConnection

def start (c : TcpConnection) : Closing := ⟨c, Socket.connected, 0⟩

/-- The connection has come to `conn`, with the effects of one step. -/
def performed (s : Closing) (conn : TcpConnection) : Closing where
  conn := conn
  socket := conn.effects.foldl Socket.perform s.socket
  halfCloses := s.halfCloses + conn.effects.countP Effect.isShutdown

/-- `shutdown` writes nothing, so the result it is given does not matter. -/
def step (s : Closing) : ClosingStep → Checked Closing
  | .shutdown => do
    let conn ← s.conn.rested.shutdown true (.written 0)
    return s.performed conn
  | .handleWrite r => do
    let conn ← s.conn.rested.handleWrite r
    return s.performed conn

/-- `write(2)` takes no more than it is offered. -/
def Allowed (s : Closing) : ClosingStep → Prop
  | .shutdown => True
  | .handleWrite r => r.Fits s.conn.outputBuffer.readableBytes

/-- The half-close falls due: nothing is pending at `shutdown`, or a write takes
all that is pending. -/
def Due (s : Closing) : ClosingStep → Prop
  | .shutdown => s.conn.outputBuffer.readableBytes = 0
  | .handleWrite r =>
    0 < s.conn.outputBuffer.readableBytes ∧ r.taken = s.conn.outputBuffer.readableBytes

instance (s : Closing) (a : ClosingStep) : Decidable (s.Allowed a) := by
  cases a <;> unfold Allowed <;> infer_instance

instance (s : Closing) (a : ClosingStep) : Decidable (s.Due a) := by
  cases a <;> unfold Due <;> infer_instance

/-- No assertion fails, and the half-close is issued when it falls due, for the
first time and with all that was `accepted` in the kernel, and never else. -/
def Timed (accepted : List UInt8) (s : Closing) (a : ClosingStep) (o : Checked Closing) : Prop :=
  ∃ s', o = .ok s' ∧
    if s.Due a then s.halfCloses = 0 ∧ s'.halfCloses = 1 ∧ s'.conn.wire = accepted
    else s'.halfCloses = s.halfCloses ∧ s'.socket = s.socket

/-- Whatever a read may give, what has arrived goes into `inputBuffer_` and to
`messageCallback_`, and the connection stays open for what is still to come. -/
def Delivers (s : Closing) : Prop :=
  ∀ arrived r, s.socket.Reads arrived r → ∃ c, s.conn.handleRead r = .ok c ∧
    c.state = s.conn.state ∧
    c.inputBuffer.content = s.conn.inputBuffer.content ++ arrived ∧
    c.effects = s.conn.effects ++ if arrived = [] then [] else [.messageCallback]

/-- A half-close ends the sending and lets the receiving go on. -/
def Directed (s : Closing) (a : ClosingStep) (o : Checked Closing) : Prop :=
  ∀ s', o = .ok s' → s.Due a → s'.socket.sending = false ∧ s'.Delivers

/-- What the half-close does instead: the sending goes on, and the receiving may
end at the next read. -/
def Misdirected (s : Closing) (a : ClosingStep) (o : Checked Closing) : Prop :=
  ∀ s', o = .ok s' → s.Due a → s'.socket.sending = true ∧ ¬ s'.Delivers

def Graceful (accepted : List UInt8) (s : Closing) (a : ClosingStep) (o : Checked Closing) : Prop :=
  Timed accepted s a o ∧ Directed s a o

/-- Only an open receiving direction delivers: when it is shut, the read that
finds nothing closes the connection. -/
theorem delivers_iff {s : Closing} (h : s.conn.Sound) (hlive : s.conn.Live) :
    s.Delivers ↔ s.socket.receiving = true := by
  constructor
  · intro hdel
    by_contra hshut
    obtain ⟨c, hc, hstate, -, -⟩ := hdel [] _ (.shut (Bool.eq_false_iff.mpr hshut))
    obtain ⟨c₁, hcalm, hclose⟩ := handleRead_nil h
    have hlive₁ : c₁.Live := by
      rw [Live, hcalm.state]
      exact hlive
    obtain ⟨c₂, hc₂, hcl⟩ := handleClose_closes hcalm.sound hlive₁
    obtain rfl : c = c₂ := Except.ok.inj (hc.symm.trans (hclose.trans hc₂))
    rw [Live, ← hstate, hcl.state] at hlive
    simp at hlive
  · intro hopen arrived r hread
    cases hread with
    | received hne =>
      obtain ⟨byte, bytes, rfl⟩ := List.exists_cons_of_ne_nil hne
      obtain ⟨b, hb, hbec⟩ := Buffer.readFd_spec h.input (byte :: bytes)
      refine ⟨{ s.conn with inputBuffer := b }.emit .messageCallback, ?_, rfl, hbec.content, rfl⟩
      simp only [handleRead, hb, ok_bind, pure_eq_ok]
    | again hnil =>
      subst hnil
      exact ⟨s.conn, rfl, rfl, (List.append_nil _).symm, (List.append_nil _).symm⟩
    | shut hshut => simp [hopen] at hshut

theorem performed_sending (s : Closing) (conn : TcpConnection) :
    (s.performed conn).socket.sending = s.socket.sending := by
  simp only [performed, foldl_perform]
  split <;> rfl

/-- Where the half-close is misdirected, it is right only not to fall due. -/
theorem Misdirected.directed_iff {s s' : Closing} {a : ClosingStep} {o : Checked Closing}
    (h : Misdirected s a o) (ho : o = .ok s') : Directed s a o ↔ ¬ s.Due a := by
  constructor
  · intro hdir hdue
    have hclosed := (hdir s' ho hdue).1
    rw [(h s' ho hdue).1] at hclosed
    cases hclosed
  · intro hdue _ _ hdue'
    exact absurd hdue' hdue

/-! ## What the steps do -/

/-- `written` on a connection that shuts down: the last byte brings the
half-close. -/
theorem written_closing {c : TcpConnection} (h : c.Sound) (hs : c.state = .kDisconnecting) {n : Nat}
    (hn : n ≤ c.outputBuffer.readableBytes) :
    ∃ c' es, c.written n = .ok c' ∧ c'.state = .kDisconnecting ∧ c'.stream = c.stream ∧
      c'.outputBuffer.readableBytes = c.outputBuffer.readableBytes - n ∧
      c'.effects = c.effects ++ es ∧
      es.countP Effect.isShutdown = if n = c.outputBuffer.readableBytes then 1 else 0 := by
  obtain ⟨b, hb, hbec⟩ := Buffer.retrieve_spec h.output hn
  have hleft : b.readableBytes = c.outputBuffer.readableBytes - n := by
    rw [← Buffer.length_content hbec.wf, hbec.content, List.length_drop,
      Buffer.length_content h.output]
  have hbytes : (bytesAt c.outputBuffer.peek c.outputBuffer.readableBytes).take n =
      c.outputBuffer.content.take n := by
    rw [Buffer.bytesAt_peek h.output (Nat.le_refl _), List.take_take, Nat.min_eq_left hn]
  have hstream : c.wire ++ c.outputBuffer.content.take n ++ b.content = c.stream := by
    rw [hbec.content, List.append_assoc, List.take_append_drop, stream]
  by_cases hdone : b.readableBytes = 0
  · obtain ⟨ch, hch, hup⟩ := Channel.update_spec h.coherent
      (c.channel.events &&& ~~~Events.kWriteEvent)
    have hwriting : ch.isWriting = false := by
      simp only [Channel.isWriting, hup.events, Events.has_write_and_not_write]
    let drained : TcpConnection := { c.transmit (c.outputBuffer.content.take n) with
      outputBuffer := b, channel := ch }
    let callback : List Effect :=
      if c.writeCompleteCallback then [.quene .writeCompleteCallback] else []
    have hcallback : callback.countP Effect.isShutdown = 0 := by
      simp only [callback]
      split <;> rfl
    refine ⟨(drained.emits callback).emit .shutdownWrite, callback ++ [.shutdownWrite], ?_, hs,
      hstream, hleft, by simp [drained], ?_⟩
    · simp [written, hbytes, hb, hdone, Channel.disableWriting, hch, queneWriteComplete, hs,
        shutdownInLoop, hwriting, drained, callback, transmit]
    · rw [List.countP_append, hcallback, if_pos (by omega)]
      rfl
  · refine ⟨{ c.transmit (c.outputBuffer.content.take n) with outputBuffer := b }, [], ?_, hs,
      hstream, hleft, by simp, ?_⟩
    · simp [written, hbytes, hb, hdone]
    · rw [if_neg (by omega)]
      rfl

theorem handleWrite_closing {c : TcpConnection} (h : c.Sound) (hm : c.Matched)
    (hs : c.state = .kDisconnecting) {r : WriteResult}
    (hr : r.Fits c.outputBuffer.readableBytes) :
    ∃ c' es, c.handleWrite r = .ok c' ∧ c'.state = .kDisconnecting ∧ c'.stream = c.stream ∧
      c'.outputBuffer.readableBytes = c.outputBuffer.readableBytes - r.taken ∧
      c'.effects = c.effects ++ es ∧
      es.countP Effect.isShutdown = if 0 < c.outputBuffer.readableBytes ∧
        r.taken = c.outputBuffer.readableBytes then 1 else 0 := by
  have hle := WriteResult.taken_le hr
  have hpending := hm (.inr hs)
  unfold handleWrite
  split
  · rename_i hwriting
    have hpos := hpending.mp hwriting
    split
    · simp only [hpos, true_and]
      exact written_closing h hs hle
    · -- nothing was taken, and `shutdownInLoop` finds the channel writing
      refine ⟨c, [], by simp [shutdownInLoop, hwriting], hs, rfl, by omega, by simp, ?_⟩
      rw [if_neg (by omega)]
      rfl
  · rename_i hwriting
    have hzero : c.outputBuffer.readableBytes = 0 := by
      rw [hpending] at hwriting
      omega
    exact ⟨c, [], rfl, hs, rfl, by omega, by simp, by simp [hzero]⟩

/-- The states behind `shutdown`. -/
structure Inv (accepted : List UInt8) (s : Closing) : Prop where
  sound : s.conn.Sound
  matched : s.conn.Matched
  state : s.conn.state = .kDisconnecting
  stream : s.conn.stream = accepted
  sending : s.socket.sending = true
  issued : s.halfCloses = if s.conn.outputBuffer.readableBytes = 0 then 1 else 0

/-- With nothing pending all bytes are in the kernel. -/
theorem Inv.wire {accepted : List UInt8} {s : Closing} (h : s.Inv accepted)
    (hnone : s.conn.outputBuffer.readableBytes = 0) : s.conn.wire = accepted := by
  have hnil := (Buffer.content_eq_nil h.sound.output).mpr hnone
  have hstream := h.stream
  rwa [TcpConnection.stream, hnil, List.append_nil] at hstream

/-- `shutdown` on a connection that is open. -/
theorem shutdown_step {c : TcpConnection} (h : c.Sound) (hm : c.Matched)
    (hs : c.state = .kConnected) :
    ∃ conn, (start c).step .shutdown = .ok ((start c).performed conn) ∧
      ((start c).performed conn).Inv c.stream ∧
      conn.outputBuffer.readableBytes = c.outputBuffer.readableBytes ∧
      conn.effects.countP Effect.isShutdown = if (start c).Due .shutdown then 1 else 0 := by
  have hpending := hm (.inl hs)
  let c₁ := c.rested.setState .kDisconnecting
  have hm₁ : c₁.Matched := hm.congr (fun _ => .inl hs) rfl rfl
  have hcalm := shutdownInLoop_calm (setState_sound h.rested .kDisconnecting)
  have hstep : (start c).step .shutdown = .ok ((start c).performed c₁.shutdownInLoop) := by
    simp [step, start, TcpConnection.shutdown, rested, hs, runInLoop, runFunctor, c₁]
  -- the connection itself is the same in both branches
  have hbranch : c₁.shutdownInLoop.stream = c.stream ∧
      c₁.shutdownInLoop.outputBuffer = c.outputBuffer ∧
      c₁.shutdownInLoop.effects.countP Effect.isShutdown =
        if c.outputBuffer.readableBytes = 0 then 1 else 0 := by
    by_cases hw : c.channel.isWriting = true
    · have hpos := hpending.mp hw
      rw [shutdownInLoop, if_pos (show c₁.channel.isWriting = true from hw), if_neg (by omega)]
      exact ⟨rfl, rfl, rfl⟩
    · have hzero : c.outputBuffer.readableBytes = 0 := by
        rw [hpending] at hw
        omega
      rw [shutdownInLoop, if_neg (show ¬ c₁.channel.isWriting = true from hw), if_pos hzero]
      exact ⟨rfl, rfl, rfl⟩
  obtain ⟨hstream, houtput, hcount⟩ := hbranch
  refine ⟨_, hstep, ⟨hcalm.sound, shutdownInLoop_matched hm₁, hcalm.state, hstream,
    performed_sending .., ?_⟩, congrArg _ houtput, hcount⟩
  simp only [performed, start, hcount, houtput, Nat.zero_add]

/-- A write event behind `shutdown`. -/
theorem handleWrite_step {accepted : List UInt8} {s : Closing} (h : s.Inv accepted)
    {r : WriteResult} (hr : s.Allowed (.handleWrite r)) :
    ∃ conn, s.step (.handleWrite r) = .ok (s.performed conn) ∧ (s.performed conn).Inv accepted ∧
      conn.outputBuffer.readableBytes = s.conn.outputBuffer.readableBytes - r.taken ∧
      conn.effects.countP Effect.isShutdown = if s.Due (.handleWrite r) then 1 else 0 := by
  have hm : s.conn.rested.Matched := h.matched.congr id rfl rfl
  obtain ⟨c', es, hc', hs, hstream, hleft, heff, hcount⟩ :=
    handleWrite_closing h.sound.rested hm h.state hr
  obtain ⟨c₂, hc₂, hcalm⟩ := handleWrite_calm h.sound.rested hr
  obtain rfl : c₂ = c' := Except.ok.inj (hc₂.symm.trans hc')
  have hdue : c₂.effects.countP Effect.isShutdown = if s.Due (.handleWrite r) then 1 else 0 := by
    rw [heff, show s.conn.rested.effects = [] from rfl, List.nil_append]
    exact hcount
  refine ⟨c₂, by simp only [step, hc', ok_bind, pure_eq_ok], ⟨hcalm.sound,
    handleWrite_matched h.sound.rested hm hr hc', hs, hstream.trans h.stream,
    (performed_sending ..).trans h.sending, ?_⟩, hleft, hdue⟩
  have hle : r.taken ≤ s.conn.outputBuffer.readableBytes := WriteResult.taken_le hr
  change c₂.outputBuffer.readableBytes = s.conn.outputBuffer.readableBytes - r.taken at hleft
  simp only [performed, hdue, h.issued, hleft]
  by_cases hd : s.Due (.handleWrite r)
  · obtain ⟨hpos, hall⟩ := id hd
    rw [if_neg (by omega), if_pos hd, if_pos (by omega)]
  · have hnot : ¬ (0 < s.conn.outputBuffer.readableBytes ∧
        r.taken = s.conn.outputBuffer.readableBytes) := hd
    rw [if_neg hd]
    exact if_congr (by omega) rfl rfl

/-- A step that does as the last two lemmas say is on time, and issues what is
not meant. -/
theorem timed_and_misdirected {accepted : List UInt8} {s : Closing} {a : ClosingStep}
    {conn : TcpConnection} (hstep : s.step a = .ok (s.performed conn))
    (hinv : (s.performed conn).Inv accepted)
    (hcount : conn.effects.countP Effect.isShutdown = if s.Due a then 1 else 0)
    (hfirst : s.Due a → s.halfCloses = 0 ∧ conn.outputBuffer.readableBytes = 0) :
    Timed accepted s a (s.step a) ∧ Misdirected s a (s.step a) := by
  constructor
  · refine ⟨_, hstep, ?_⟩
    split
    · rename_i hdue
      obtain ⟨hzero, hnone⟩ := hfirst hdue
      exact ⟨hzero, by simp [performed, hcount, hdue, hzero], hinv.wire hnone⟩
    · rename_i hdue
      simp [performed, foldl_perform, hcount, hdue]
  · intro s' hs' hdue
    cases hstep.symm.trans hs'
    refine ⟨hinv.sending, fun hdel => ?_⟩
    -- the receiving direction is the one that was shut
    have hopen := (delivers_iff hinv.sound (.inr hinv.state)).mp hdel
    simp [performed, foldl_perform, hcount, hdue, Socket.shutdownWrite, Socket.shutdown] at hopen

/-- The steps behind `shutdown`. -/
def Behind (s : Closing) (a : ClosingStep) : Prop := s.Allowed a ∧ a ≠ .shutdown

theorem Inv.timed_and_misdirected {accepted : List UInt8} {s : Closing} (h : s.Inv accepted)
    {a : ClosingStep} (ha : s.Behind a) :
    Timed accepted s a (s.step a) ∧ Misdirected s a (s.step a) := by
  cases a with
  | shutdown => exact absurd rfl ha.2
  | handleWrite r =>
    obtain ⟨conn, hstep, hinv, hleft, hcount⟩ := handleWrite_step h ha.1
    refine Closing.timed_and_misdirected hstep hinv hcount fun ⟨hpos, hall⟩ => ⟨?_, by omega⟩
    rw [h.issued, if_neg (by omega)]

theorem Inv.next {accepted : List UInt8} {s : Closing} (h : s.Inv accepted) {a : ClosingStep}
    (ha : s.Behind a) : ∃ s', s.step a = .ok s' ∧ s'.Inv accepted := by
  cases a with
  | shutdown => exact absurd rfl ha.2
  | handleWrite r =>
    obtain ⟨conn, hstep, hinv, -⟩ := handleWrite_step h ha.1
    exact ⟨_, hstep, hinv⟩

theorem Inv.kept {accepted : List UInt8} {s s' : Closing} (h : s.Inv accepted) {a : ClosingStep}
    (ha : s.Behind a) (hs : s.step a = .ok s') : s'.Inv accepted := by
  obtain ⟨s₁, hs₁, hinv⟩ := h.next ha
  cases hs₁.symm.trans hs
  exact hinv

/-- A run of write events behind `shutdown`. -/
theorem Inv.run {accepted : List UInt8} {s : Closing} (h : s.Inv accepted)
    {writes : List WriteResult} (hwrites : Along step Allowed s (writes.map .handleWrite)) :
    (∃ t, Run step s (writes.map .handleWrite) t ∧ t.Inv accepted) ∧
    Steps step (Timed accepted) s (writes.map .handleWrite) ∧
    Steps step Misdirected s (writes.map .handleWrite) ∧
    (Steps step (Graceful accepted) s (writes.map .handleWrite) ↔
      Along step (fun s a => ¬ s.Due a) s (writes.map .handleWrite)) := by
  have hbehind : Along step Behind s (writes.map .handleWrite) :=
    hwrites.and (Steps.of_forall (P := fun a : ClosingStep => a ≠ .shutdown) (by simp))
  refine ⟨Run.progress (fun _ _ h ha => h.next ha) h hbehind, ?_, ?_, ?_⟩
  · exact Steps.of_invariant (fun _ _ h ha => (h.timed_and_misdirected ha).1)
      (fun _ _ _ h ha hs => h.kept ha hs) h hbehind
  · exact Steps.of_invariant (fun _ _ h ha => (h.timed_and_misdirected ha).2)
      (fun _ _ _ h ha hs => h.kept ha hs) h hbehind
  · refine steps_iff ?_ (fun _ _ _ h ha _ hs => h.kept ha hs) h hbehind
    intro _ _ h ha
    obtain ⟨htimed, hmis⟩ := h.timed_and_misdirected ha
    obtain ⟨_, hs, -⟩ := h.next ha
    rw [Graceful, and_iff_right htimed, hmis.directed_iff hs]

/-- `shutdown()` in the loop thread, and then write events. -/
def shutdownThen (writes : List WriteResult) : List ClosingStep :=
  .shutdown :: writes.map .handleWrite

/-- **The half-close.** Whatever comes before `shutdown()` and whatever the
writes take behind it, the half-close is issued when it falls due and never
else; at the end it has been issued once if all is written, and else not at
all. Whenever it is issued, it leaves the sending direction open and shuts the
receiving one. So it is directed as it should be exactly in the runs that issue
none: with output pending at `shutdown()` that no `handleWrite` drains. -/
theorem half_close_iff {c : TcpConnection} (hc : Reached c) (hconn : c.state = .kConnected)
    (writes : List WriteResult)
    (hwrites : Along step Allowed (start c) (shutdownThen writes)) :
    (∃ t, Run step (start c) (shutdownThen writes) t ∧
      t.halfCloses = if t.conn.wire = c.stream then 1 else 0) ∧
    Steps step (Timed c.stream) (start c) (shutdownThen writes) ∧
    Steps step Misdirected (start c) (shutdownThen writes) ∧
    (Steps step (Graceful c.stream) (start c) (shutdownThen writes) ↔
      Along step (fun s a => ¬ s.Due a) (start c) (shutdownThen writes)) := by
  obtain ⟨hsound, hmatched⟩ := hc.matched
  obtain ⟨conn, hstep, hinv, hleft, hcount⟩ := shutdown_step hsound hmatched hconn
  have hfirst := timed_and_misdirected hstep hinv hcount fun hdue => ⟨rfl, hleft.trans hdue⟩
  rw [hstep] at hfirst
  obtain ⟨⟨t, hrun, ht⟩, htimed, hmis, hgraceful⟩ := hinv.run ((steps_cons_ok hstep).mp hwrites).2
  refine ⟨⟨t, .cons hstep hrun, ?_⟩, (steps_cons_ok hstep).mpr ⟨hfirst.1, htimed⟩,
    (steps_cons_ok hstep).mpr ⟨hfirst.2, hmis⟩, ?_⟩
  · rw [ht.issued]
    refine if_congr ⟨ht.wire, ?_⟩ rfl rfl
    intro hall
    have hstream := ht.stream
    rw [TcpConnection.stream, hall] at hstream
    exact (Buffer.content_eq_nil ht.sound.output).mp (by simpa using hstream)
  · refine (steps_cons_ok hstep).trans (Iff.trans ?_ (steps_cons_ok hstep).symm)
    rw [Graceful, and_iff_right hfirst.1, hfirst.2.directed_iff rfl, hgraceful]

/-- A small output buffer. -/
def opened : TcpConnection := { established true with outputBuffer := Buffer.fresh 4 }

theorem opened_opened : Opened opened :=
  ⟨⟨Buffer.fresh_WF _, Buffer.fresh_WF 4, established_coherent true⟩, .inl rfl,
    by simp [Known, opened, established, readingChannel], rfl, rfl⟩

/-- Three bytes went to a socket that was full. -/
def threePending : TcpConnection :=
  { opened with
    channel := ⟨7, .kAdded, false, true, true, some 7⟩
    outputBuffer := ⟨[0, 0, 0, 0, 0, 0, 0, 0, 1, 2, 3, 0], 8, 11⟩ }

theorem threePending_reached : Reached threePending := by
  have hsend : loopStep opened
      (.functor (.sendInLoop (.ofBytes [1, 2, 3])) (.failed .EWOULDBLOCK)) = .ok threePending := rfl
  exact ⟨opened, [.functor (.sendInLoop (.ofBytes [1, 2, 3])) (.failed .EWOULDBLOCK)],
    opened_opened, ⟨rfl, rfl⟩, ⟨opened_opened.known, fun _ _ => trivial⟩, .cons hsend (.nil _)⟩

/-- Two writes take one byte each, and the half-close does not fall due. -/
theorem half_close_iff_sample :
    (∃ t, Run step (start threePending) (shutdownThen [.written 1, .written 1]) t ∧
      t.halfCloses = if t.conn.wire = threePending.stream then 1 else 0) ∧
    Steps step (Timed threePending.stream) (start threePending)
      (shutdownThen [.written 1, .written 1]) ∧
    Steps step Misdirected (start threePending) (shutdownThen [.written 1, .written 1]) ∧
    (Steps step (Graceful threePending.stream) (start threePending)
        (shutdownThen [.written 1, .written 1]) ↔
      Along step (fun s a => ¬ s.Due a) (start threePending)
        (shutdownThen [.written 1, .written 1])) :=
  half_close_iff threePending_reached rfl _ (by decide)

/-- With nothing pending the half-close falls due at once. The sending direction
is still open behind it, and the next read, when nothing has come from the peer,
may give the end of the stream and close the connection. -/
theorem half_close_stops_receiving :
    Reached opened ∧ opened.state = .kConnected ∧
    (¬ Steps step (Graceful opened.stream) (start opened) (shutdownThen [])) ∧
    ∃ t, Run step (start opened) (shutdownThen []) t ∧ t.socket = ⟨true, false⟩ ∧
      t.socket.Reads [] (.received []) ∧
      ∃ c, t.conn.handleRead (.received []) = .ok c ∧ c.state = .kDisconnected := by
  let t : Closing :=
    ⟨{ opened with state := .kDisconnecting, effects := [.shutdownWrite] }, ⟨true, false⟩, 1⟩
  have hstep : (start opened).step .shutdown = .ok t := rfl
  refine ⟨⟨opened, [], opened_opened, ⟨rfl, rfl⟩, trivial, .nil _⟩, rfl, fun h => ?_, t,
    .cons hstep (.nil _), rfl, .shut rfl, _, rfl, rfl⟩
  have hsending := (h.1.2 t hstep rfl).1
  cases hsending

end Closing

end Muduo
