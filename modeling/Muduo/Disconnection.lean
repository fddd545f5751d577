import Muduo.ConnectionLife

/-!
What comes behind `handleClose`. An established connection sees dispatches,
calls from its loop thread and functors in any order, until `connectDestroyed`;
once it is closed nothing may reach the user again, and the channel must keep
an empty interest set, or `Channel::remove` fails.

Two things go wrong, and `disconnection_final_iff` says that nothing else does:
a dispatch that reads from the connection it has just closed, and a
`startReadInLoop` behind the close.
-/

namespace Muduo

open Lib Events

namespace TcpConnection

/-! ## Closed connections -/

/-- `handleClose` has run. -/
def closed (c : TcpConnection) : Bool := c.effects.any Effect.isClose

/-- The effects behind the first invocation of `closeCallback_`. -/
def afterClose : List Effect → List Effect
  | [] => []
  | e :: es => if e.isClose then es else afterClose es

theorem afterClose_append {es : List Effect} (h : es.any Effect.isClose = true)
    (fs : List Effect) : afterClose (es ++ fs) = afterClose es ++ fs := by
  induction es with
  | nil => simp at h
  | cons e es ih =>
    by_cases he : e.isClose = true
    · simp [afterClose, he]
    · have hes : es.any Effect.isClose = true := by simpa [he] using h
      simp [afterClose, he, ih hes]

theorem afterClose_closing {es : List Effect} (h : es.any Effect.isClose = false)
    (fs : List Effect) : afterClose (es ++ .closeCallback :: fs) = fs := by
  induction es with
  | nil => rfl
  | cons e es ih =>
    have he : e.isClose = false ∧ es.any Effect.isClose = false := by simpa using h
    simp [afterClose, he.1, ih he.2]

theorem Calm.closed {c c' : TcpConnection} (h : Calm c c') : c'.closed = c.closed := by
  obtain ⟨es, he, hes⟩ := h.effects
  simp [TcpConnection.closed, he, List.any_append, not_close_of_minor hes]

/-- A connection that is closed and at rest. -/
structure Closed (c : TcpConnection) : Prop where
  sound : c.Sound
  closed : c.closed = true
  state : c.state = .kDisconnected
  interest : c.channel.events = kNoneEvent
  silent : ∀ e ∈ afterClose c.effects, e.invokes = false

theorem Closes.to_closed {c c' : TcpConnection} (hc : c.closed = false) (h : Closes c c') :
    Closed c' := by
  obtain ⟨es, he, hes⟩ := h.effects
  have hopen : (c.effects ++ es ++ [Effect.connectionCallback]).any Effect.isClose = false := by
    rw [List.any_append, List.any_append, not_close_of_minor hes]
    simpa [TcpConnection.closed, Effect.isClose] using hc
  have heff : c'.effects = (c.effects ++ es ++ [.connectionCallback]) ++ .closeCallback :: [] := by
    simp [he]
  refine ⟨h.sound, ?_, h.state, h.interest, ?_⟩
  · simp [TcpConnection.closed, heff, Effect.isClose]
  · rw [heff, afterClose_closing hopen]
    simp

/-- A closed connection stays at rest through a calm step that keeps the
interest set empty and invokes nothing. -/
theorem Closed.calm {c c' : TcpConnection} (hc : Closed c) (h : Calm c c')
    (hi : c'.channel.events = kNoneEvent)
    (hs : ∃ es, c'.effects = c.effects ++ es ∧ ∀ e ∈ es, e.invokes = false) : Closed c' := by
  obtain ⟨es, he, hes⟩ := hs
  refine ⟨h.sound, h.closed.trans hc.closed, h.state.trans hc.state, hi, ?_⟩
  intro e hmem
  rw [he, afterClose_append hc.closed] at hmem
  rcases List.mem_append.mp hmem with hm | hm
  · exact hc.silent e hm
  · exact hes e hm

/-! ## Functions on a closed connection -/

theorem Closed.atRest {c : TcpConnection} (hc : Closed c) : AtRest c := ⟨hc.sound, hc.state, hc.interest⟩

theorem Closed.rests {c c' : TcpConnection} (hc : Closed c) (h : Rests c c') : Closed c' :=
  hc.calm h.calm h.interest h.silent

/-- The interest set is not empty any more. -/
theorem Closed.startReadInLoop {c : TcpConnection} (hc : Closed c) :
    ∃ c', c.startReadInLoop = .ok c' ∧ c'.closed = true ∧ c'.channel.isNoneEvent = false := by
  obtain ⟨c', hc', hcalm, hread⟩ := startReadInLoop_calm hc.sound
  refine ⟨c', hc', hcalm.closed.trans hc.closed, ?_⟩
  by_contra hnone
  have hev : c'.channel.events = kNoneEvent := by simpa [Channel.isNoneEvent] using hnone
  simp [Channel.isReading, hev] at hread

theorem Closed.connectDestroyed {c : TcpConnection} (hc : Closed c) (hk : c.Known) :
    ∃ c', c.connectDestroyed = .ok c' ∧ Closed c' := by
  obtain ⟨c', hc', hrest, -, -, heff⟩ := hc.atRest.connectDestroyed hk
  refine ⟨c', hc', hrest.sound, ?_, hrest.state, hrest.interest, heff ▸ hc.silent⟩
  rw [TcpConnection.closed, heff]
  exact hc.closed

end TcpConnection

/-! ## Runs -/

open TcpConnection

/-- What happens to a connection in its loop thread. -/
inductive LoopStep where
  | dispatch (revents : Events) (read : ReadResult) (write : WriteResult)
  | call (k : Call) (write : WriteResult)
  | functor (f : Functor) (write : WriteResult)

def loopStep (c : TcpConnection) : LoopStep → Checked TcpConnection
  | .dispatch revents read write => c.handleEvent revents read write
  | .call k write => c.call true write k
  | .functor f write => c.runFunctor f write

/-- The connection is established, so `connectEstablished` has run. Behind the
close come calls and functors, no further dispatch, and `connectDestroyed` is
the last. -/
def LoopAllowed (c : TcpConnection) : LoopStep → Prop
  | .dispatch _ _ write => c.closed = false ∧ write.Fits c.outputBuffer.readableBytes
  | .call k _ => c.Known ∧ k.WF
  | .functor .connectEstablished _ => False
  | .functor .connectDestroyed _ => c.Known ∧ c.closed = true
  | .functor _ _ => c.Known

/-- Once closed, a connection is `kDisconnected` with an empty interest set,
and no callback has been invoked behind `closeCallback_`. -/
def Final (c : TcpConnection) : Prop :=
  c.closed = true → c.state = .kDisconnected ∧ c.channel.isNoneEvent = true ∧
    ∀ e ∈ afterClose c.effects, e.invokes = false

/-- A step ends in a state that is final if closed; neither the assertion of
`handleClose` nor that of `Channel::remove` fails. -/
def StaysFinal (_ : TcpConnection) (_ : LoopStep) : Checked TcpConnection → Prop
  | .ok c => Final c
  | .error a => a ≠ .handleClose ∧ a ≠ .channelRemove

/-- No read in the dispatch that closed the connection, and no start of reading
behind the close. -/
def Orderly (c : TcpConnection) : LoopStep → Prop
  | .dispatch revents read _ => late revents read = false
  | .call .startRead _ => c.closed = false
  | .functor .startReadInLoop _ => c.closed = false
  | _ => True

/-- An established connection that is not closed. -/
structure Opened (c : TcpConnection) : Prop where
  sound : c.Sound
  live : c.Live
  known : c.Known
  unhandled : c.Unhandled
  closed : c.closed = false

/-- The invariant of orderly runs. -/
inductive Phase (c : TcpConnection) : Prop
  | opened (h : Opened c)
  | closed (h : Closed c)

theorem Phase.final {c : TcpConnection} (h : Phase c) : Final c := by
  intro hcl
  cases h with
  | opened h => simp [h.closed] at hcl
  | closed h => exact ⟨h.state, by simp [Channel.isNoneEvent, h.interest], h.silent⟩

theorem Opened.calm {c c' : TcpConnection} (h : Opened c) (hcalm : Calm c c') : Opened c' :=
  ⟨hcalm.sound, by rw [Live, hcalm.state]; exact h.live, hcalm.known h.known,
    hcalm.handling.trans h.unhandled, hcalm.closed.trans h.closed⟩

theorem Opened.shuts {c c' : TcpConnection} (h : Opened c) (hs : Shuts c c') : Opened c' := by
  cases hs with
  | same => exact h
  | disconnecting _ =>
    exact ⟨setState_sound h.sound _, .inr rfl, h.known, h.unhandled, h.closed⟩

/-- A late dispatch fails, or reaches the user behind the close. -/
theorem late_not_final {c : TcpConnection} (h : Opened c) {revents : Events} {read : ReadResult}
    (write : WriteResult) (hlate : late revents read = true) :
    ¬ StaysFinal c (.dispatch revents read write) (c.handleEvent revents read write) := by
  rcases handleEvent_late h.sound h.live h.unhandled write hlate with he | ⟨c₁, c', hc', hcl, hcalm, heff, -⟩
  · simp [he, StaysFinal]
  · have hcl₁ : Closed c₁ := hcl.to_closed h.closed
    rw [hc']
    intro hfinal
    have hsilent := (hfinal (hcalm.closed.trans hcl₁.closed)).2.2 .messageCallback
    rw [heff, afterClose_append hcl₁.closed] at hsilent
    simp [Effect.invokes] at hsilent

theorem startRead_not_final {c : TcpConnection} (h : Closed c) (a : LoopStep) :
    ¬ StaysFinal c a c.startReadInLoop := by
  obtain ⟨c', hc', hcl, hev⟩ := h.startReadInLoop
  rw [hc']
  intro hfinal
  simpa [hev] using (hfinal hcl).2.1

theorem opened_step {c : TcpConnection} (h : Opened c) {a : LoopStep} (ha : LoopAllowed c a)
    (ho : Orderly c a) : ∃ c', loopStep c a = .ok c' ∧ Phase c' := by
  cases a with
  | dispatch revents read write =>
    obtain ⟨c', hc', hcalm | hcl⟩ := handleEvent_spec h.sound h.live h.unhandled ha.2 ho
    · exact ⟨c', hc', .opened (h.calm hcalm)⟩
    · exact ⟨c', hc', .closed (hcl.to_closed h.closed)⟩
  | call k write =>
    obtain ⟨c₁, c', hc', hs, hcalm⟩ := call_spec h.sound ha.2 true write
    exact ⟨c', hc', .opened ((h.shuts hs).calm hcalm)⟩
  | functor f write =>
    have hminor : (Effect.quene f).minor = true := by
      cases f with
      | connectEstablished => exact ha.elim
      | connectDestroyed => simp [LoopAllowed, h.closed] at ha
      | _ => rfl
    obtain ⟨c', hc', hcalm | ⟨-, -, hcl⟩⟩ := runFunctor_spec h.sound hminor write
    · exact ⟨c', hc', .opened (h.calm hcalm)⟩
    · exact ⟨c', hc', .closed (hcl.to_closed h.closed)⟩

theorem closed_step {c : TcpConnection} (h : Closed c) {a : LoopStep} (ha : LoopAllowed c a)
    (ho : Orderly c a) : ∃ c', loopStep c a = .ok c' ∧ Phase c' := by
  cases a with
  | dispatch revents read write => simp [LoopAllowed, h.closed] at ha
  | call k write =>
    have hstart : k ≠ .startRead := by
      rintro rfl
      simp [Orderly, h.closed] at ho
    obtain ⟨c', hc', hrests, -⟩ := h.atRest.call (fun hk => hstart hk.1) write
    exact ⟨c', hc', .closed (h.rests hrests)⟩
  | functor f write =>
    by_cases hd : f = .connectDestroyed
    · subst hd
      obtain ⟨c', hc', hcl⟩ := h.connectDestroyed ha.1
      exact ⟨c', hc', .closed hcl⟩
    · have hstart : f ≠ .startReadInLoop := by
        rintro rfl
        simp [Orderly, h.closed] at ho
      have hminor : (Effect.quene f).minor = true := by
        cases f with
        | connectEstablished => exact ha.elim
        | connectDestroyed => exact absurd rfl hd
        | _ => rfl
      obtain ⟨c', hc', hrests, -⟩ := h.atRest.runFunctor hminor hstart write
      exact ⟨c', hc', .closed (h.rests hrests)⟩

theorem phase_step {c : TcpConnection} (h : Phase c) {a : LoopStep} (ha : LoopAllowed c a)
    (ho : Orderly c a) : ∃ c', loopStep c a = .ok c' ∧ Phase c' := by
  cases h with
  | opened h => exact opened_step h ha ho
  | closed h => exact closed_step h ha ho

theorem disorderly_not_final {c : TcpConnection} (h : Phase c) {a : LoopStep}
    (ha : LoopAllowed c a) (ho : ¬ Orderly c a) : ¬ StaysFinal c a (loopStep c a) := by
  cases h with
  | opened h =>
    cases a with
    | dispatch revents read write => exact late_not_final h write (by simpa [Orderly] using ho)
    | call k write => cases k <;> simp [Orderly, h.closed] at ho
    | functor f write => cases f <;> simp [Orderly, h.closed] at ho
  | closed h =>
    cases a with
    | dispatch revents read write => simp [LoopAllowed, h.closed] at ha
    | call k write => cases k <;> first | exact startRead_not_final h _ | simp [Orderly] at ho
    | functor f write => cases f <;> first | exact startRead_not_final h _ | simp [Orderly] at ho

/-- **Finality of disconnection.** In a run of an established connection every
state is final, and no assertion about the close fails, exactly when the run is
orderly. -/
theorem disconnection_final_iff {c : TcpConnection} (hc : Opened c) (steps : List LoopStep)
    (hsteps : Along loopStep LoopAllowed c steps) :
    Steps loopStep StaysFinal c steps ↔ Along loopStep Orderly c steps := by
  refine steps_iff (I := Phase) ?_ ?_ (.opened hc) hsteps
  · intro c a h ha
    constructor
    · intro hf
      by_contra ho
      exact disorderly_not_final h ha ho hf
    · intro ho
      obtain ⟨c', hc', hph⟩ := phase_step h ha ho
      rw [hc']
      exact hph.final
  · intro c a c' h ha ho hs
    obtain ⟨c₁, hc₁, hph⟩ := phase_step h ha ho
    rw [hs] at hc₁
    cases hc₁
    exact hph

theorem established_opened (w : Bool) : Opened (established w) :=
  ⟨⟨Buffer.fresh_WF _, Buffer.fresh_WF _, established_coherent w⟩, .inl rfl,
    by simp [Known, established, readingChannel], rfl, rfl⟩

/-- A connection after a forced close. -/
def forceClosed : TcpConnection :=
  { established true with
    state := .kDisconnected
    channel := ⟨kNoneEvent, .kDeleted, false, true, true, none⟩
    effects := [.connectionCallback, .connectionCallback, .closeCallback] }

theorem forceClosed_step (write : WriteResult) :
    loopStep (established true) (.functor .forceCloseInLoop write) = .ok forceClosed := rfl

theorem forceClosed_known : forceClosed.Known := by simp [Known, forceClosed]

/-- A forced close, a late send, and the destruction. -/
theorem disconnection_final_iff_sample :
    Steps loopStep StaysFinal (established true)
      [.functor .forceCloseInLoop (.written 0), .call (.sendString [1]) (.written 1),
       .functor .connectDestroyed (.written 0)] := by
  have hsend : loopStep forceClosed (.call (.sendString [1]) (.written 1)) = .ok forceClosed := rfl
  refine (disconnection_final_iff (established_opened true) _ ?_).mpr ?_
  · refine (steps_cons_ok (forceClosed_step _)).mpr ⟨(established_opened true).known, ?_⟩
    refine (steps_cons_ok hsend).mpr ⟨⟨forceClosed_known, trivial⟩, ?_⟩
    exact ⟨⟨forceClosed_known, rfl⟩, fun _ _ => trivial⟩
  · exact ⟨trivial, fun _ _ => ⟨trivial, fun _ _ => ⟨trivial, fun _ _ => trivial⟩⟩⟩

/-- `startRead` behind a close gives the channel an interest again, and the
assertion of `Channel::remove` fails in `connectDestroyed`. -/
theorem startRead_breaks_remove :
    Opened (established true) ∧
    (Along loopStep LoopAllowed (established true)
      [.functor .forceCloseInLoop (.written 0), .call .startRead (.written 0),
       .functor .connectDestroyed (.written 0)]) ∧
    (¬ Steps loopStep StaysFinal (established true)
      [.functor .forceCloseInLoop (.written 0), .call .startRead (.written 0)]) ∧
    ∃ c, Run loopStep (established true)
        [.functor .forceCloseInLoop (.written 0), .call .startRead (.written 0)] c ∧
      loopStep c (.functor .connectDestroyed (.written 0)) = .error .channelRemove := by
  let reopened : TcpConnection :=
    { forceClosed with channel := ⟨kReadEvent, .kAdded, false, true, true, some kReadEvent⟩ }
  have hstart : loopStep forceClosed (.call .startRead (.written 0)) = .ok reopened := rfl
  refine ⟨established_opened true, ?_, ?_, reopened, ?_, rfl⟩
  · refine (steps_cons_ok (forceClosed_step _)).mpr ⟨(established_opened true).known, ?_⟩
    refine (steps_cons_ok hstart).mpr ⟨⟨forceClosed_known, trivial⟩, ?_⟩
    exact ⟨⟨by simp [Known, reopened], rfl⟩, fun _ _ => trivial⟩
  · intro h
    have hfinal := ((steps_cons_ok hstart).mp ((steps_cons_ok (forceClosed_step _)).mp h).2).1
    have hnone : reopened.channel.isNoneEvent = true := (hfinal rfl).2.1
    exact absurd hnone (by decide)
  · exact .cons (forceClosed_step _) (.cons hstart (.nil _))

end Muduo
