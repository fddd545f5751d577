import Muduo.ConnectionLife
import Muduo.Lib.Fifo

/-!
The bytes a connection receives. `handleRead` appends to `inputBuffer_` what the
socket gives, and the user takes a part of it, or nothing, with the `retrieve`
functions when it is told of a message or later. Nothing else touches the buffer.

* `inputBuffer_*`: the functions that leave `inputBuffer_` alone;
* `handleEvent_input`: what a dispatch adds to it;
* `input_conserved`: what the user takes is what was received, in order.
-/

namespace Muduo

open Lib Events

/-- The bytes of a read. -/
def ReadResult.bytes : ReadResult → List UInt8
  | .received bytes => bytes
  | .failed _ => []

namespace TcpConnection

/-! ## What leaves the buffer alone -/

theorem inputBuffer_startWriting {c c' : TcpConnection} (h : c.startWriting = .ok c') :
    c'.inputBuffer = c.inputBuffer := by
  unfold startWriting at h
  split at h
  · cases h
    rfl
  · obtain ⟨ch, -, h⟩ := bind_eq_ok.mp h
    cases h
    rfl

theorem inputBuffer_sendInLoop {c c' : TcpConnection} {m : Message} {r : WriteResult}
    (h : c.sendInLoop m r = .ok c') : c'.inputBuffer = c.inputBuffer := by
  have hdirect : ∀ d : TcpConnection, d.inputBuffer = c.inputBuffer →
      (if r = .written 0 then d.queneWriteComplete else d).inputBuffer = c.inputBuffer := by
    intro d hd
    split
    · exact hd
    · exact hd
  unfold sendInLoop at h
  split at h
  · cases h
    rfl
  split at h
  · dsimp only at h
    split at h
    · obtain ⟨b, -, h⟩ := bind_eq_ok.mp h
      exact (inputBuffer_startWriting h).trans (hdirect (c.transmit _) rfl)
    · cases h
      exact hdirect (c.transmit _) rfl
  · cases h
    rfl

theorem inputBuffer_shutdownInLoop (c : TcpConnection) :
    c.shutdownInLoop.inputBuffer = c.inputBuffer := by
  unfold shutdownInLoop
  split <;> rfl

theorem inputBuffer_written {c c' : TcpConnection} {n : Nat} (h : c.written n = .ok c') :
    c'.inputBuffer = c.inputBuffer := by
  obtain ⟨b, -, h⟩ := bind_eq_ok.mp h
  split at h
  · obtain ⟨ch, -, h⟩ := bind_eq_ok.mp h
    cases h
    split
    · exact inputBuffer_shutdownInLoop _
    · rfl
  · cases h
    rfl

theorem inputBuffer_handleWrite {c c' : TcpConnection} {r : WriteResult}
    (h : c.handleWrite r = .ok c') : c'.inputBuffer = c.inputBuffer := by
  unfold handleWrite at h
  split at h
  · split at h
    · exact inputBuffer_written h
    · cases h
      split
      · exact inputBuffer_shutdownInLoop c
      · rfl
  · cases h
    rfl

theorem inputBuffer_handleClose {c c' : TcpConnection} (h : c.handleClose = .ok c') :
    c'.inputBuffer = c.inputBuffer := by
  obtain ⟨_, -, h⟩ := bind_eq_ok.mp h
  obtain ⟨ch, -, h⟩ := bind_eq_ok.mp h
  cases h
  rfl

theorem inputBuffer_runFunctor {c c' : TcpConnection} {f : Functor} {write : WriteResult}
    (h : c.runFunctor f write = .ok c') : c'.inputBuffer = c.inputBuffer := by
  cases f with
  | connectEstablished =>
    obtain ⟨_, -, h⟩ := bind_eq_ok.mp h
    obtain ⟨ch, -, h⟩ := bind_eq_ok.mp h
    cases h
    rfl
  | connectDestroyed =>
    simp only [runFunctor, connectDestroyed] at h
    split at h
    · obtain ⟨ch, -, h⟩ := bind_eq_ok.mp h
      obtain ⟨d, hd, h⟩ := bind_eq_ok.mp h
      cases hd
      obtain ⟨ch', -, h⟩ := bind_eq_ok.mp h
      cases h
      rfl
    · obtain ⟨d, hd, h⟩ := bind_eq_ok.mp h
      cases hd
      obtain ⟨ch, -, h⟩ := bind_eq_ok.mp h
      cases h
      rfl
  | sendInLoop m => exact inputBuffer_sendInLoop h
  | shutdownInLoop =>
    cases h
    exact inputBuffer_shutdownInLoop c
  | forceCloseInLoop =>
    simp only [runFunctor, forceCloseInLoop] at h
    split at h
    · exact inputBuffer_handleClose h
    · cases h
      rfl
  | startReadInLoop =>
    simp only [runFunctor, startReadInLoop] at h
    split at h
    · obtain ⟨ch, -, h⟩ := bind_eq_ok.mp h
      cases h
      rfl
    · cases h
      rfl
  | stopReadInLoop =>
    simp only [runFunctor, stopReadInLoop] at h
    split at h
    · obtain ⟨ch, -, h⟩ := bind_eq_ok.mp h
      cases h
      rfl
    · cases h
      rfl
  | writeCompleteCallback | highWaterMarkCallback size =>
    cases h
    rfl

theorem inputBuffer_runInLoop {c c' : TcpConnection} {inLoop : Bool} {f : Functor}
    {write : WriteResult} (h : c.runInLoop inLoop f write = .ok c') :
    c'.inputBuffer = c.inputBuffer := by
  unfold runInLoop at h
  split at h
  · exact inputBuffer_runFunctor h
  · cases h
    rfl

theorem inputBuffer_call {c c' : TcpConnection} {inLoop : Bool} {write : WriteResult} {call : Call}
    (h : c.call inLoop write call = .ok c') : c'.inputBuffer = c.inputBuffer := by
  cases call with
  | sendPointer m => exact inputBuffer_sendInLoop h
  | sendString message =>
    simp only [TcpConnection.call, sendString] at h
    split at h
    · exact inputBuffer_runInLoop h
    · cases h
      rfl
  | sendBuffer message =>
    obtain ⟨⟨d, b⟩, hd, h⟩ := bind_eq_ok.mp h
    cases h
    simp only [sendBuffer] at hd
    split at hd
    · split at hd
      · obtain ⟨e, he, hd⟩ := bind_eq_ok.mp hd
        cases hd
        exact inputBuffer_sendInLoop he
      · obtain ⟨⟨bytes, b⟩, -, hd⟩ := bind_eq_ok.mp hd
        cases hd
        rfl
    · cases hd
      rfl
  | shutdown =>
    simp only [TcpConnection.call, shutdown] at h
    split at h
    · have hrun := inputBuffer_runInLoop h
      exact hrun
    · cases h
      rfl
  | forceClose =>
    cases h
    unfold forceClose
    split <;> rfl
  | startRead => exact inputBuffer_runInLoop h
  | stopRead => exact inputBuffer_runInLoop h

/-! ## What adds to it -/

theorem readFd_content {b : Buffer} (h : b.WF) (r : ReadResult) :
    ∃ b', b.readFd r = .ok b' ∧ b'.WF ∧ b'.content = b.content ++ r.bytes := by
  cases r with
  | received bytes =>
    obtain ⟨b', hb', hbec⟩ := Buffer.readFd_spec h bytes
    exact ⟨b', hb', hbec.wf, hbec.content⟩
  | failed errno => exact ⟨b, rfl, h, (List.append_nil _).symm⟩

theorem handleRead_input {c c' : TcpConnection} (hwf : c.inputBuffer.WF) {r : ReadResult}
    (h : c.handleRead r = .ok c') :
    c'.inputBuffer.WF ∧ c'.inputBuffer.content = c.inputBuffer.content ++ r.bytes := by
  obtain ⟨b, hb, hwf', hcontent⟩ := readFd_content hwf r
  unfold handleRead at h
  rw [hb, ok_bind] at h
  have hbuffer : c'.inputBuffer = b := by
    split at h
    · cases h
      rfl
    · exact inputBuffer_handleClose h
    · cases h
      rfl
  rw [hbuffer]
  exact ⟨hwf', hcontent⟩

/-- What a dispatch receives. -/
def received (revents : Events) (read : ReadResult) : List UInt8 :=
  if readable revents then read.bytes else []

theorem handleEvent_input {c c' : TcpConnection} (hwf : c.inputBuffer.WF) {revents : Events}
    {read : ReadResult} {write : WriteResult} (h : c.handleEvent revents read write = .ok c') :
    c'.inputBuffer.WF ∧ c'.inputBuffer.content = c.inputBuffer.content ++ received revents read := by
  rw [handleEvent_eq] at h
  obtain ⟨c₃, h, hend⟩ := bind_eq_ok.mp h
  obtain ⟨c₂, h, hwrite⟩ := bind_eq_ok.mp h
  obtain ⟨c₁, hclose, hread⟩ := bind_eq_ok.mp h
  have hb₁ : c₁.inputBuffer = c.inputBuffer := by
    unfold closeBranch at hclose
    split at hclose
    · exact (inputBuffer_handleClose hclose :)
    · cases hclose
      rfl
  have hb₂ : c₂.inputBuffer.WF ∧
      c₂.inputBuffer.content = c.inputBuffer.content ++ received revents read := by
    rw [← hb₁] at hwf ⊢
    unfold readBranch at hread
    unfold received
    split at hread
    · rename_i hreadable
      rw [if_pos hreadable]
      exact handleRead_input hwf hread
    · rename_i hreadable
      cases hread
      rw [if_neg hreadable, List.append_nil]
      exact ⟨hwf, rfl⟩
  have hb₃ : c₃.inputBuffer = c₂.inputBuffer := by
    unfold writeBranch at hwrite
    split at hwrite
    · exact inputBuffer_handleWrite hwrite
    · cases hwrite
      rfl
  cases hend
  change c₃.inputBuffer.WF ∧ c₃.inputBuffer.content = _
  rw [hb₃]
  exact hb₂

end TcpConnection

/-! ## Runs -/

inductive InputStep where
  | dispatch (revents : Events) (read : ReadResult) (write : WriteResult)
  | functor (f : Functor) (write : WriteResult)
  | call (inLoop : Bool) (c : TcpConnection.Call) (write : WriteResult)
  /-- the user takes bytes with `retrieveAsString` -/
  | retrieve (len : Nat)

/-- The user takes what is there. -/
def InputAllowed (c : TcpConnection) : InputStep → Prop
  | .retrieve len => len ≤ c.inputBuffer.readableBytes
  | _ => True

instance (c : TcpConnection) (a : InputStep) : Decidable (InputAllowed c a) := by
  cases a <;> unfold InputAllowed <;> infer_instance

def inputStep (c : TcpConnection) : InputStep → Checked TcpConnection
  | .dispatch revents read write => c.handleEvent revents read write
  | .functor f write => c.runFunctor f write
  | .call inLoop call write => c.call inLoop write call
  | .retrieve len => do
    let (_, inputBuffer) ← c.inputBuffer.retrieveAsString len
    return { c with inputBuffer }

/-- The text that `retrieveAsString` returns. -/
def taken (c : TcpConnection) : InputStep → List UInt8
  | .retrieve len =>
    match c.inputBuffer.retrieveAsString len with
    | .ok (bytes, _) => bytes
    | .error _ => []
  | _ => []

/-- What the step receives from the socket. -/
def InputStep.received : InputStep → List UInt8
  | .dispatch revents read _ => TcpConnection.received revents read
  | _ => []

theorem inputStep_spec {c c' : TcpConnection} (hwf : c.inputBuffer.WF) {a : InputStep}
    (ha : InputAllowed c a) (h : inputStep c a = .ok c') :
    c'.inputBuffer.WF ∧
      taken c a ++ c'.inputBuffer.content = c.inputBuffer.content ++ a.received := by
  have hsame : c'.inputBuffer = c.inputBuffer →
      c'.inputBuffer.WF ∧ [] ++ c'.inputBuffer.content = c.inputBuffer.content ++ [] := by
    intro heq
    rw [heq, List.append_nil]
    exact ⟨hwf, rfl⟩
  cases a with
  | dispatch revents read write => exact TcpConnection.handleEvent_input hwf h
  | functor f write => exact hsame (TcpConnection.inputBuffer_runFunctor h)
  | call inLoop call write => exact hsame (TcpConnection.inputBuffer_call h)
  | retrieve len =>
    obtain ⟨b, hb, hretrieve⟩ := Buffer.retrieveAsString_spec hwf ha
    obtain ⟨b', hb', hbec⟩ := Buffer.retrieve_spec hwf ha
    obtain rfl : b = b' := Except.ok.inj (hretrieve.symm.trans hb')
    simp only [inputStep, hb, ok_bind] at h
    cases h
    refine ⟨hbec.wf, ?_⟩
    simp [taken, hb, InputStep.received, hbec.content]

/-- **The input stream.** Whatever a connection does meanwhile, closing included,
the bytes that its user has taken and behind them the readable bytes of
`inputBuffer_` are the bytes received, each once and in order. -/
theorem input_conserved {c t : TcpConnection} (hwf : c.inputBuffer.WF) {steps : List InputStep}
    (hrun : Run inputStep c steps t) (hsteps : Along inputStep InputAllowed c steps) :
    yields inputStep taken c steps ++ t.inputBuffer.content =
      c.inputBuffer.content ++ steps.flatMap InputStep.received := by
  have hin : yields inputStep (fun _ a => a.received) c steps =
      steps.flatMap InputStep.received := hrun.yields_eq fun _ _ => rfl
  rw [← hin]
  exact hrun.conserved hsteps hwf (fun c a c' h ha hs => (inputStep_spec h ha hs).1)
    fun c a c' h ha hs => (inputStep_spec h ha hs).2

/-- A connection with a small input buffer. -/
def smallInput : TcpConnection :=
  { TcpConnection.established false with inputBuffer := Buffer.fresh 4 }

/-- Two reads, of which the user takes three bytes, then the end of the stream. -/
def threeTaken : List InputStep :=
  [.dispatch POLLIN (.received [1, 2]) (.written 0), .dispatch POLLIN (.received [3, 4]) (.written 0),
    .retrieve 3, .dispatch (POLLIN ||| POLLHUP) (.received []) (.written 0)]

theorem input_conserved_threeTaken :
    ∃ t, Run inputStep smallInput threeTaken t ∧
      yields inputStep taken smallInput threeTaken ++ t.inputBuffer.content = [1, 2, 3, 4] := by
  refine ⟨_, .cons rfl (.cons rfl (.cons rfl (.cons rfl (.nil _)))), ?_⟩
  refine (input_conserved (Buffer.fresh_WF 4) (.cons rfl (.cons rfl (.cons rfl (.cons rfl (.nil _)))))
    ?_).trans (by decide)
  decide

end Muduo
