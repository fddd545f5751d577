import Mathlib.Algebra.GroupWithZero.Nat
import Muduo.TcpClient

/-!
How the connections of a client end. `TcpClient::removeConnection` only drops
`connection_`; the callback that `~TcpClient` installs queues
`connectDestroyed`. A connection that is closed through the former keeps its
channel in the poller, and `~Channel` fails.

* `Kept`: what holds of a connection that is, or will be, closed through the
  latter;
* `connections_torn_down`: then every close is followed by one
  `connectDestroyed`, and the channel is out of the poller when it is destructed.
-/

namespace Muduo

open Lib Events TcpConnection

theorem TcpConnection.AtRest.rested {c : TcpConnection} (h : AtRest c) : AtRest c.rested :=
  ⟨h.sound.rested, h.state, h.interest⟩

/-- How a function of a connection may go whose owner has the callback `cb`: a
close is for `sockets::removeConnection`, and at rest the channel is let alone. -/
inductive Goes (cb : CloseCallback) (c c' : TcpConnection) : Prop
  | stays (c₁ : TcpConnection) (shuts : Shuts c c₁) (calm : Calm c₁ c')
      (quiet : AtRest c → c'.channel.events = kNoneEvent ∧ (¬ c.Known → c'.channel = c.channel))
  | closes (callback : cb = .sockets) (live : c.Live) (c₁ : TcpConnection) (closes : Closes c c₁)
      (calm : Calm c₁ c') (interest : c'.channel.events = kNoneEvent)

/-- The outcome of such a function. -/
def Going (cb : CloseCallback) (c : TcpConnection) : Checked TcpConnection → Prop
  | .ok c' => Goes cb c c'
  | .error e => e = .handleClose

theorem Closes.going {cb : CloseCallback} {c c' : TcpConnection} (hcb : cb = .sockets)
    (hlive : c.Live) (h : Closes c c') : Goes cb c c' :=
  .closes hcb hlive c' h (.refl h.sound) h.interest

theorem handleEvent_going {c : TcpConnection} (h : c.Sound) (hh : c.Unhandled) {revents : Events}
    {read : ReadResult} {write : WriteResult} (hw : write.Fits c.outputBuffer.readableBytes)
    {cb : CloseCallback}
    (hcb : c.Live → closing revents = true ∨ atEof revents read → cb = .sockets) :
    Going cb c (c.handleEvent revents read write) := by
  by_cases hclosing : closing revents = true ∨ atEof revents read
  swap
  · obtain ⟨hclose, heof⟩ := not_or.mp hclosing
    obtain ⟨c', hc', hcalm, hch⟩ := handleEvent_calm h hh hw hclose heof
    rw [hc']
    refine .stays c .same hcalm ?_
    intro hrest
    have hsame := hch hrest.interest
    exact ⟨by rw [hsame, hrest.interest], fun _ => hsame⟩
  by_cases hlive : c.Live
  swap
  · rw [handleEvent_dead h hlive write hclosing]
    exact rfl
  have hsockets := hcb hlive hclosing
  by_cases hlate : late revents read = true
  · rcases handleEvent_late h hlive hh write hlate with he | ⟨c₁, c', hc', hcl, hcalm, -, hch⟩
    · rw [he]
      exact rfl
    · rw [hc']
      exact .closes hsockets hlive c₁ hcl hcalm (by rw [hch, hcl.interest])
  · obtain ⟨c', hc', hcalm | hcl⟩ := handleEvent_spec h hlive hh hw (by simpa using hlate)
    · rw [hc']
      exact .stays c .same hcalm fun hrest => absurd hlive hrest.not_live
    · rw [hc']
      exact Closes.going hsockets hlive hcl

namespace TcpClient

/-! ## What is allowed of a run -/

/-- A functor that closes a connection finds the callback of `~TcpClient`; reads
are not started behind the close, nor stopped behind `connectDestroyed` if they
have not been before. -/
def Admits (c : ClientConnection) : Functor → Prop
  | .forceCloseInLoop => c.conn.Live → c.closeCallback = .sockets
  | .startReadInLoop => c.closed = false
  | .stopReadInLoop => c.destroyed = 0 ∨ c.conn.reading = false
  | _ => True

/-- The same for the calls of users. -/
def AdmitsCall (c : ClientConnection) (inLoop : Bool) : Call → Prop
  | .startRead => inLoop = true → c.closed = false
  | .stopRead => inLoop = true → c.destroyed = 0 ∨ c.conn.reading = false
  | _ => True

/-- The same for every step: what closes a connection finds the callback of
`~TcpClient`. -/
def Proper (s : TcpClient) : Label → Prop
  | .functor _ => ∀ k f rest c, s.pendingFunctors = (k, .functor f) :: rest →
    s.connections[k]? = some c → Admits c f
  | .dispatch k revents read _ => ∀ c, s.connections[k]? = some c → c.conn.Live →
    closing revents = true ∨ atEof revents read → c.closeCallback = .sockets
  | .call k inLoop call _ => ∀ c, s.connections[k]? = some c → AdmitsCall c inLoop call
  | _ => True

/-! ## Stages -/

/-- How often `connectDestroyed` is queued for the connection. -/
def pendingDestroys (s : TcpClient) (k : Nat) : Nat :=
  ((boundTo s.pendingFunctors k).map ClientTask.destroys).sum

/-- The stages of a connection with `n` runs of `connectDestroyed` queued. -/
inductive Stage (c : ClientConnection) (n : Nat) : Prop
  | opened (closed : c.closed = false) (live : c.conn.Live) (known : c.conn.Known)
      (destroyed : c.destroyed = 0) (pending : n = 0) (there : c.destructed = false)
  | closing (closed : c.closed = true) (rest : AtRest c.conn) (known : c.conn.Known)
      (destroyed : c.destroyed = 0) (pending : n = 1) (there : c.destructed = false)
  | gone (closed : c.closed = true) (rest : AtRest c.conn) (unknown : ¬ c.conn.Known)
      (destroyed : c.destroyed = 1) (pending : n = 0)

structure Kept (c : ClientConnection) (n : Nat) : Prop where
  sound : c.conn.Sound
  unhandled : c.conn.Unhandled
  stage : Stage c n

theorem Kept.open_of_not_closed {c : ClientConnection} {n : Nat} (h : Kept c n)
    (hc : c.closed = false) : ¬ AtRest c.conn.rested := by
  intro hrest
  cases h.stage with
  | opened _ live => exact hrest.not_live live
  | closing closed => simp [hc] at closed
  | gone closed => simp [hc] at closed

theorem Kept.known_of_not_destroyed {c : ClientConnection} {n : Nat} (h : Kept c n)
    (hd : c.destroyed = 0) : c.conn.rested.Known := by
  cases h.stage with
  | opened _ _ known => exact known
  | closing _ _ known => exact known
  | gone _ _ _ destroyed => omega

theorem Kept.runFunctor_going {c : ClientConnection} {n : Nat} (h : Kept c n) {f : Functor}
    (hf : (Effect.quene f).minor = true) (hadmits : Admits c f) (write : WriteResult) :
    Going c.closeCallback c.conn.rested (c.conn.rested.runFunctor f write) := by
  by_cases hrest : AtRest c.conn.rested
  · have hstart : f ≠ .startReadInLoop := by
      rintro rfl
      exact h.open_of_not_closed hadmits hrest
    obtain ⟨c', hc', hrests, hch⟩ := hrest.runFunctor hf hstart write
    rw [hc']
    refine .stays _ .same hrests.calm fun _ => ⟨hrests.interest, fun hunknown => hch ?_⟩
    rintro rfl
    exact hadmits.resolve_left fun hd => hunknown (h.known_of_not_destroyed hd)
  · obtain ⟨c', hc', hcalm | ⟨rfl, hlive, hcl⟩⟩ := runFunctor_spec h.sound.rested hf write
    · rw [hc']
      exact .stays _ .same hcalm fun hr => absurd hr hrest
    · rw [hc']
      exact Closes.going (hadmits hlive) hlive hcl

theorem Kept.call_going {c : ClientConnection} {n : Nat} (h : Kept c n) {k : Call} (hk : k.WF)
    {inLoop : Bool} (hadmits : AdmitsCall c inLoop k) (write : WriteResult) :
    Going c.closeCallback c.conn.rested (c.conn.rested.call inLoop write k) := by
  by_cases hrest : AtRest c.conn.rested
  · have hstart : ¬ (k = .startRead ∧ inLoop = true) := by
      rintro ⟨rfl, hin⟩
      exact h.open_of_not_closed (hadmits hin) hrest
    obtain ⟨c', hc', hrests, hch⟩ := hrest.call hstart write
    rw [hc']
    refine .stays _ .same hrests.calm fun _ => ⟨hrests.interest, fun hunknown => hch ?_⟩
    rintro ⟨rfl, hin⟩
    exact (hadmits hin).resolve_left fun hd => hunknown (h.known_of_not_destroyed hd)
  · obtain ⟨c₁, c', hc', hs, hcalm⟩ := call_spec h.sound.rested hk inLoop write
    rw [hc']
    exact .stays c₁ hs hcalm fun hr => absurd hr hrest

/-! ## One connection and the others -/

/-- Functors are bound to connections that have been made, and none of them is
`connectEstablished`; `connection_` is one of these connections. -/
structure Bound (s : TcpClient) : Prop where
  tasks : ∀ t ∈ s.pendingFunctors,
    t.1 < s.connections.length ∧ t.2 ≠ .functor .connectEstablished
  connection : ∀ k, s.connection = some k → k < s.connections.length

/-- From `s` to `s'` nothing changes but the connection `k`, the functors bound to
it, and the client. -/
structure Frame (k : Nat) (s s' : TcpClient) : Prop where
  length : s'.connections.length = s.connections.length
  connections : ∀ j, j ≠ k → s'.connections[j]? = s.connections[j]?
  pending : ∀ j, j ≠ k → s'.pendingDestroys j = s.pendingDestroys j
  bound : s.Bound → s'.Bound

theorem Frame.refl (k : Nat) (s : TcpClient) : Frame k s s :=
  ⟨rfl, fun _ _ => rfl, fun _ _ => rfl, id⟩

theorem Frame.trans {k : Nat} {s s' s'' : TcpClient} (h : Frame k s s') (h' : Frame k s' s'') :
    Frame k s s'' :=
  ⟨h'.length.trans h.length, fun j hj => (h'.connections j hj).trans (h.connections j hj),
    fun j hj => (h'.pending j hj).trans (h.pending j hj), h'.bound ∘ h.bound⟩

/-- The connection `k` is `c`, with `n` runs of `connectDestroyed` queued. -/
structure At (s : TcpClient) (k : Nat) (c : ClientConnection) (n : Nat) : Prop where
  connection : s.connections[k]? = some c
  pending : s.pendingDestroys k = n

structure Inv (s : TcpClient) : Prop where
  bound : s.Bound
  kept : ∀ k c, s.connections[k]? = some c → Kept c (s.pendingDestroys k)

theorem Frame.inv {s s' : TcpClient} {k : Nat} (hf : Frame k s s') (hb : s.Bound)
    (hothers : ∀ j c, j ≠ k → s.connections[j]? = some c → Kept c (s.pendingDestroys j))
    {c : ClientConnection} {n : Nat} (hat : At s' k c n) (hk : Kept c n) : s'.Inv := by
  refine ⟨hf.bound hb, ?_⟩
  intro j c' hj
  by_cases hjk : j = k
  · subst hjk
    obtain rfl : c = c' := Option.some.inj (hat.connection.symm.trans hj)
    rwa [hat.pending]
  · rw [hf.pending j hjk]
    exact hothers j c' hjk ((hf.connections j hjk).symm.trans hj)

theorem Inv.step_on {s s' : TcpClient} (h : s.Inv) {k : Nat} (hf : Frame k s s')
    {c : ClientConnection} {n : Nat} (hat : At s' k c n) (hk : Kept c n) : s'.Inv :=
  hf.inv h.bound (fun j c _ hj => h.kept j c hj) hat hk

section Functions

variable {s : TcpClient} {k : Nat} {c : ClientConnection} {n : Nat}

theorem At.lt (h : At s k c n) : k < s.connections.length :=
  (List.getElem?_eq_some_iff.mp h.connection).1

theorem At.set (h : At s k c n) (c' : ClientConnection) :
    Frame k s (s.setConnection k c') ∧ At (s.setConnection k c') k c' n := by
  refine ⟨⟨by simp [setConnection], fun j hj => ?_, fun _ _ => rfl, fun hb => ⟨fun t ht => ?_, fun j hj => ?_⟩⟩,
    ?_, h.pending⟩
  · simp [setConnection, List.getElem?_set_ne hj.symm]
  · simpa [setConnection] using hb.tasks t ht
  · simpa [setConnection] using hb.connection j hj
  · simp [setConnection, h.lt]

theorem At.quene (h : At s k c n) {t : ClientTask} (ht : t ≠ .functor .connectEstablished) :
    Frame k s (s.queneInLoop k t) ∧ At (s.queneInLoop k t) k c (n + t.destroys) := by
  refine ⟨⟨rfl, fun _ _ => rfl, fun j hj => ?_, fun hb => ⟨fun t' ht' => ?_, hb.connection⟩⟩,
    h.connection, ?_⟩
  · simp [pendingDestroys, queneInLoop, boundTo_cons, hj.symm]
  · have hmem : t' ∈ s.pendingFunctors ∨ t' = (k, t) := by simpa [queneInLoop] using ht'
    rcases hmem with hm | rfl
    · exact hb.tasks t' hm
    · exact ⟨h.lt, ht⟩
  · simp [pendingDestroys, queneInLoop, boundTo_cons, ← h.pending]

theorem At.pop (h : At s k c n) {t : ClientTask} {rest : List (Nat × ClientTask)}
    (hq : s.pendingFunctors = (k, t) :: rest) :
    Frame k s s.pop ∧ ∃ m, n = t.destroys + m ∧ At s.pop k c m := by
  refine ⟨⟨rfl, fun _ _ => rfl, fun j hj => ?_, fun hb => ⟨fun t' ht' => hb.tasks t' ?_, hb.connection⟩⟩,
    _, ?_, h.connection, rfl⟩
  · simp [pendingDestroys, TcpClient.pop, hq, boundTo_cons, hj.symm]
  · exact List.mem_of_mem_tail ht'
  · simp [← h.pending, pendingDestroys, TcpClient.pop, hq, boundTo_cons]

theorem At.deliver_minor (h : At s k c n) {e : Effect} (he : e.minor = true) (cb : CloseCallback) :
    ∃ s', deliver k cb s e = .ok s' ∧ Frame k s s' ∧ At s' k c n := by
  cases e with
  | quene f =>
    obtain ⟨hframe, hat⟩ := h.quene (t := .functor f) (by rintro ⟨⟩; simp [Effect.minor] at he)
    refine ⟨_, rfl, hframe, ?_⟩
    cases f <;> first | exact hat | simp [Effect.minor] at he
  | connectionCallback | closeCallback => simp [Effect.minor] at he
  | _ => exact ⟨s, rfl, .refl .., h⟩

theorem At.deliver_minors {es : List Effect} (hes : ∀ e ∈ es, e.minor = true) (h : At s k c n)
    (cb : CloseCallback) :
    ∃ s', es.foldlM (deliver k cb) s = .ok s' ∧ Frame k s s' ∧ At s' k c n := by
  have hstep : ∀ t e, (Frame k s t ∧ At t k c n) → e.minor = true →
      ∃ t', deliver k cb t e = .ok t' ∧ Frame k s t' ∧ At t' k c n := by
    rintro t e ⟨hframe, hat⟩ he
    obtain ⟨t', ht', hframe', hat'⟩ := hat.deliver_minor he cb
    exact ⟨t', ht', hframe.trans hframe', hat'⟩
  obtain ⟨s', hrun, hspec⟩ := Run.progress hstep ⟨.refl .., h⟩ (Steps.of_forall hes)
  exact ⟨s', run_iff_foldlM.mp hrun, hspec⟩

/-- The effects of a close whose callback is `sockets::removeConnection`. -/
theorem At.deliver_close {es es' : List Effect} (hes : ∀ e ∈ es, e.minor = true)
    (hes' : ∀ e ∈ es', e.minor = true) (h : At s k c n) {cb : CloseCallback} (hcb : cb = .sockets) :
    ∃ s', (es ++ [Effect.connectionCallback, .closeCallback] ++ es').foldlM (deliver k cb) s = .ok s' ∧
      Frame k s s' ∧ At s' k c (n + 1) := by
  subst hcb
  obtain ⟨s₁, h₁, hframe₁, hat₁⟩ := h.deliver_minors hes .sockets
  obtain ⟨hframe₂, hat₂⟩ := hat₁.quene (t := .functor .connectDestroyed) (by simp)
  obtain ⟨s₃, h₃, hframe₃, hat₃⟩ := hat₂.deliver_minors hes' .sockets
  refine ⟨s₃, ?_, (hframe₁.trans hframe₂).trans hframe₃, hat₃⟩
  simp only [List.foldlM_append, List.foldlM_cons, List.foldlM_nil, h₁, ok_bind, deliver,
    pure_eq_ok, invokeClose, h₃]

end Functions

/-! ## Steps -/

/-- A failure other than of the removal of a channel and of `~Channel`. -/
def Foreign (e : Assertion) : Prop :=
  e ≠ .channelRemove ∧ e ≠ .removeChannel ∧ e ≠ .channelDtor

def Safe : Checked TcpClient → Prop
  | .ok s => s.Inv
  | .error e => Foreign e

/-- A function of the connection that does not close it. -/
theorem Kept.stays {c : ClientConnection} {n : Nat} (h : Kept c n) {c₁ conn : TcpConnection}
    (hs : Shuts c.conn.rested c₁) (hcalm : Calm c₁ conn)
    (hquiet : AtRest c.conn.rested → conn.channel.events = kNoneEvent ∧
      (¬ c.conn.rested.Known → conn.channel = c.conn.rested.channel)) :
    Kept { c with conn } n := by
  have hlives : c.conn.rested.Lives conn := .stays c₁ hs hcalm
  have hknown : c.conn.Known → conn.Known := by
    intro hk
    refine hcalm.known ?_
    rw [Known, hs.fields.1]
    exact hk
  have hstate : ¬ c.conn.Live → conn.state = c.conn.state := by
    intro hdead
    cases hs with
    | same => exact hcalm.state
    | disconnecting hlive => exact absurd hlive hdead
  refine ⟨hlives.sound, hlives.unhandled h.unhandled, ?_⟩
  cases h.stage with
  | opened closed live known destroyed pending there =>
    refine .opened closed ?_ (hknown known) destroyed pending there
    cases hs with
    | same => exact live.imp hcalm.state.trans hcalm.state.trans
    | disconnecting _ => exact .inr hcalm.state
  | closing closed rest known destroyed pending there =>
    exact .closing closed
      ⟨hlives.sound, (hstate rest.not_live).trans rest.state, (hquiet rest.rested).1⟩
      (hknown known) destroyed pending there
  | gone closed rest unknown destroyed pending =>
    obtain ⟨hnone, hsame⟩ := hquiet rest.rested
    refine .gone closed ⟨hlives.sound, (hstate rest.not_live).trans rest.state, hnone⟩ ?_ destroyed
      pending
    have hch : conn.channel = c.conn.channel := hsame unknown
    simpa [Known, hch] using unknown

/-- A function of the connection, other than its ends. -/
theorem Inv.onConnection {s : TcpClient} (h : s.Inv) {k : Nat} {c : ClientConnection}
    (hc : s.connections[k]? = some c) (op : TcpConnection → Checked TcpConnection)
    (hop : Going c.closeCallback c.conn.rested (op c.conn.rested)) :
    Safe (s.onConnection k 0 op) := by
  have hk := h.kept k c hc
  have hat : At s k c (s.pendingDestroys k) := ⟨hc, rfl⟩
  simp only [TcpClient.onConnection, hc]
  by_cases hlive : c.destructed = false
  swap
  · rw [check_neg hlive]
    exact ⟨by simp, by simp, by simp⟩
  rw [check_pos hlive, ok_bind]
  cases hconn : op c.conn.rested with
  | error e =>
    rw [hconn] at hop
    obtain rfl : e = .handleClose := hop
    exact ⟨by simp, by simp, by simp⟩
  | ok conn =>
    rw [hconn] at hop
    rw [ok_bind]
    cases hop with
    | stays c₁ hs hcalm hquiet =>
      obtain ⟨es, heff, hminor⟩ := hcalm.effects
      rw [hs.fields.2] at heff
      have heff' : conn.effects = es := heff
      subst heff'
      obtain ⟨hframe₁, hat₁⟩ := hat.set { c with conn }
      obtain ⟨s', hs', hframe₂, hat₂⟩ := hat₁.deliver_minors hminor c.closeCallback
      simp only [not_close_of_minor hminor, Bool.or_false, Nat.add_zero, hs']
      exact h.step_on (hframe₁.trans hframe₂) hat₂ (hk.stays hs hcalm hquiet)
    | closes hcb hl c₁ hcl hcalm hnone =>
      have hlives : c.conn.rested.Lives conn := .closes hl c₁ hcl hcalm
      obtain ⟨es, heff, hminor⟩ := hcl.effects
      obtain ⟨es', heff', hminor'⟩ := hcalm.effects
      rw [heff] at heff'
      have heff'' : conn.effects = es ++ [.connectionCallback, .closeCallback] ++ es' := heff'
      have hclose : conn.effects.any Effect.isClose = true := by simp [heff'', Effect.isClose]
      obtain ⟨hframe₁, hat₁⟩ := hat.set { c with conn, closed := true }
      obtain ⟨s', hs', hframe₂, hat₂⟩ := hat₁.deliver_close hminor hminor' hcb
      simp only [hclose, Bool.or_true, Nat.add_zero]
      rw [heff'', hs']
      refine h.step_on (hframe₁.trans hframe₂) hat₂ ⟨hlives.sound, hlives.unhandled hk.unhandled, ?_⟩
      have hrest : AtRest conn := ⟨hlives.sound, hcalm.state.trans hcl.state, hnone⟩
      -- the connection was open
      cases hk.stage with
      | opened _ _ _ destroyed pending there =>
        exact .closing rfl hrest (hcalm.known hcl.known) destroyed (by omega) there
      | closing _ rest => exact absurd hl rest.rested.not_live
      | gone _ rest => exact absurd hl rest.rested.not_live

/-- `connectDestroyed` of a closed connection leaves its queue and runs. -/
theorem Inv.connectDestroyed {s : TcpClient} (h : s.Inv) {k : Nat} {c : ClientConnection}
    {rest : List (Nat × ClientTask)} (hc : s.connections[k]? = some c)
    (hq : s.pendingFunctors = (k, .functor .connectDestroyed) :: rest) (write : WriteResult) :
    Safe (s.pop.runFunctor k .connectDestroyed write) := by
  have hk := h.kept k c hc
  obtain ⟨hframe₁, m, hm, hat₁⟩ := At.pop ⟨hc, rfl⟩ hq
  have hm' : s.pendingDestroys k = 1 + m := hm
  cases hk.stage with
  | opened _ _ _ _ pending => omega
  | gone _ _ _ _ pending => omega
  | closing closed hrest known destroyed pending there =>
    obtain ⟨conn, hconn, hrest', hunknown, hhand, heff⟩ := hrest.rested.connectDestroyed known
    have heff' : conn.effects = [] := heff
    obtain ⟨hframe₂, hat₂⟩ := hat₁.set { c with conn, destroyed := c.destroyed + 1 }
    simp only [runFunctor, TcpClient.onConnection, hat₁.connection, check_pos there, ok_bind,
      TcpConnection.runFunctor, hconn, heff', List.any_nil, Bool.or_false, List.foldlM_nil,
      Functor.destroys]
    exact h.step_on (hframe₁.trans hframe₂) hat₂ ⟨hrest'.sound, hhand.trans hk.unhandled,
      .gone closed hrest' hunknown (by simp [destroyed]) (by omega)⟩

/-- The stage is a matter of these fields. -/
theorem Kept.same {c c' : ClientConnection} {n : Nat} (h : Kept c n) (hconn : c'.conn = c.conn)
    (hclosed : c'.closed = c.closed) (hdestroyed : c'.destroyed = c.destroyed)
    (hthere : c'.destructed = c.destructed) : Kept c' n := by
  refine ⟨hconn ▸ h.sound, hconn ▸ h.unhandled, ?_⟩
  cases h.stage with
  | opened closed live known destroyed pending there =>
    exact .opened (hclosed.trans closed) (hconn ▸ live) (hconn ▸ known) (hdestroyed.trans destroyed)
      pending (hthere.trans there)
  | closing closed rest known destroyed pending there =>
    exact .closing (hclosed.trans closed) (hconn ▸ rest) (hconn ▸ known)
      (hdestroyed.trans destroyed) pending (hthere.trans there)
  | gone closed rest unknown destroyed pending =>
    exact .gone (hclosed.trans closed) (hconn ▸ rest) (hconn ▸ unknown)
      (hdestroyed.trans destroyed) pending

theorem Inv.setConnection {s : TcpClient} (h : s.Inv) {k : Nat} {c c' : ClientConnection}
    (hc : s.connections[k]? = some c) (hsame : ∀ n, Kept c n → Kept c' n) :
    (s.setConnection k c').Inv := by
  obtain ⟨hframe, hat⟩ := At.set ⟨hc, rfl⟩ c'
  exact h.step_on hframe hat (hsame _ (h.kept k c hc))

theorem Inv.setCloseCallback {s : TcpClient} (h : s.Inv) (k : Nat) (cb : CloseCallback) :
    (s.setCloseCallback k cb).Inv := by
  unfold TcpClient.setCloseCallback
  split
  · exact h
  · rename_i c hc
    exact h.setConnection hc fun _ hk => hk.same rfl rfl rfl rfl

theorem Inv.setHeld {s : TcpClient} (h : s.Inv) (k : Nat) (held : Bool) : (s.setHeld k held).Inv := by
  unfold TcpClient.setHeld
  split
  · exact h
  · rename_i c hc
    exact h.setConnection hc fun _ hk => hk.same rfl rfl rfl rfl

/-- The loop runs its next functor. -/
theorem Inv.runPending {s : TcpClient} (h : s.Inv) {write : WriteResult}
    (hproper : s.Proper (.functor write)) : Safe (s.runPending write) := by
  cases hq : s.pendingFunctors with
  | nil =>
    simp only [TcpClient.runPending, hq]
    exact h
  | cons head rest =>
    obtain ⟨k, t⟩ := head
    obtain ⟨hlt, hne⟩ := h.bound.tasks (k, t) (by simp [hq])
    obtain ⟨c, hc⟩ : ∃ c, s.connections[k]? = some c := ⟨_, List.getElem?_eq_getElem hlt⟩
    have hk := h.kept k c hc
    obtain ⟨hframe, m, hm, hat⟩ := At.pop ⟨hc, rfl⟩ hq
    cases t with
    | setCloseCallback cb =>
      have hm' : s.pendingDestroys k = m := by simpa [ClientTask.destroys] using hm
      simp only [TcpClient.runPending, hq]
      exact (h.step_on hframe hat (hm' ▸ hk)).setCloseCallback k cb
    | functor f =>
      simp only [TcpClient.runPending, hq]
      by_cases hf : (Effect.quene f).minor = true
      · have hd : f.destroys = 0 := by cases f <;> first | rfl | simp [Effect.minor] at hf
        have hm' : s.pendingDestroys k = m := by simpa [ClientTask.destroys, hd] using hm
        have hpop : s.pop.Inv := h.step_on hframe hat (hm' ▸ hk)
        have hgoing := hk.runFunctor_going hf (hproper k f rest c hq hc) write
        rw [runFunctor, hd]
        exact hpop.onConnection hat.connection (fun c => c.runFunctor f write) hgoing
      · cases f with
        | connectEstablished => exact absurd rfl hne
        | connectDestroyed => exact h.connectDestroyed hc hq write
        | _ => exact absurd rfl hf

theorem Inv.newConnection {s : TcpClient} (h : s.Inv) : Safe s.newConnection := by
  let c : ClientConnection :=
    ⟨TcpConnection.new s.writeCompleteCallback, .tcpClient, false, false, false, 0⟩
  let s₁ : TcpClient :=
    { s with connection := some s.connections.length, connections := s.connections ++ [c] }
  have hb : s₁.Bound := by
    constructor
    · intro t ht
      obtain ⟨hlt, hne⟩ := h.bound.tasks t ht
      refine ⟨?_, hne⟩
      simp only [s₁, List.length_append, List.length_singleton]
      omega
    · intro k hk
      obtain rfl : s.connections.length = k := by simpa [s₁] using hk
      simp [s₁]
  have hothers : ∀ j c', j ≠ s.connections.length → s₁.connections[j]? = some c' →
      Kept c' (s₁.pendingDestroys j) := by
    intro j c' hj hc'
    refine h.kept j c' ?_
    have hlt := (List.getElem?_eq_some_iff.mp hc').1
    simp only [s₁, List.length_append, List.length_singleton] at hlt
    rwa [show s₁.connections = s.connections ++ [c] from rfl,
      List.getElem?_append_left (by omega)] at hc'
  have hat₁ : At s₁ s.connections.length c 0 := by
    refine ⟨by simp [s₁], ?_⟩
    rw [pendingDestroys, boundTo_eq_nil fun t ht => Nat.ne_of_lt (h.bound.tasks t ht).1]
    rfl
  obtain ⟨conn, hconn, hsound, hstate, hknown, hhand, heff⟩ :=
    connectEstablished_spec (new_sound s.writeCompleteCallback).rested rfl
  have heff' : conn.effects = [.connectionCallback] := heff
  obtain ⟨hframe, hat⟩ := hat₁.set { c with conn }
  have hnew : s.newConnection = s₁.runFunctor s.connections.length .connectEstablished (.written 0) :=
    rfl
  simp only [hnew, runFunctor, TcpClient.onConnection, hat₁.connection, c, check_pos, ok_bind,
    TcpConnection.runFunctor, hconn, heff', List.any_cons, List.any_nil, Effect.isClose,
    Bool.or_false, List.foldlM_cons, List.foldlM_nil, deliver, pure_eq_ok, Functor.destroys]
  exact hframe.inv hb hothers hat
    ⟨hsound, hhand, .opened rfl (.inl hstate) hknown rfl rfl rfl⟩

theorem ClientTask.destroys_of_not_holds {t : ClientTask} (h : t.holds = false) : t.destroys = 0 := by
  cases t with
  | setCloseCallback cb => rfl
  | functor f => cases f <;> first | rfl | cases h

/-- A connection without references is open, or its channel is removed. -/
theorem Inv.destruct {s : TcpClient} (h : s.Inv) {k : Nat} {c : ClientConnection}
    (hc : s.connections[k]? = some c) (hun : s.Unreferenced k c) : Safe (s.destruct k) := by
  have hk := h.kept k c hc
  have hpend : s.pendingDestroys k = 0 := by
    apply List.sum_eq_zero_iff_forall_eq_nat.mpr
    intro n hn
    obtain ⟨t, ht, rfl⟩ := List.mem_map.mp hn
    exact ClientTask.destroys_of_not_holds (hun.2.2 t ht)
  simp only [TcpClient.destruct, hc, TcpConnection.dtor]
  cases hk.stage with
  | opened _ live =>
    have hstate : ¬ c.conn.state = .kDisconnected := by rcases live with hs | hs <;> simp [hs]
    rw [check_neg hstate]
    exact ⟨by simp, by simp, by simp⟩
  | closing _ _ _ _ pending => omega
  | gone closed rest unknown destroyed pending =>
    have hadded : c.conn.channel.addedToLoop = false := by
      by_contra hadd
      exact unknown (hk.sound.coherent.added_iff.mp (by simpa using hadd))
    have hhand : c.conn.channel.eventHandling = false := hk.unhandled
    simp only [check_pos rest.state, Channel.dtor, check_pos hhand, check_pos hadded, ok_bind]
    obtain ⟨hframe, hat⟩ := At.set ⟨hc, rfl⟩ { c with destructed := true }
    exact h.step_on hframe hat ⟨hk.sound, hk.unhandled, .gone closed rest unknown destroyed pending⟩

/-- A call that every connection admits, when there is a connection. -/
theorem Inv.call {s : TcpClient} (h : s.Inv) (k : Nat) (inLoop : Bool) (call : Call) (hcall : call.WF)
    (hadmits : ∀ c, s.connections[k]? = some c → AdmitsCall c inLoop call) (write : WriteResult) :
    Safe (s.onConnection k 0 fun c => c.call inLoop write call) := by
  cases hc : s.connections[k]? with
  | none =>
    simp only [TcpClient.onConnection, hc]
    exact h
  | some c =>
    exact h.onConnection hc (fun c => c.call inLoop write call)
      ((h.kept k c hc).call_going hcall (hadmits c hc) write)

theorem Inv.disconnect {s : TcpClient} (h : s.Inv) (inLoop : Bool) (write : WriteResult) :
    Safe (s.disconnect inLoop write) := by
  have hs : Inv { s with connect := false } := ⟨⟨h.bound.tasks, h.bound.connection⟩, h.kept⟩
  unfold TcpClient.disconnect
  dsimp only
  split
  · rename_i k _
    exact hs.call k inLoop .shutdown trivial (fun _ _ => trivial) write
  · exact hs

/-- The new callback is set now or by a functor, which comes before the forced
close. -/
theorem Inv.destructClient {s : TcpClient} (h : s.Inv) (inLoop : Bool) :
    Safe (s.destructClient inLoop) := by
  let client : TcpClient := { s with destructed := true, connection := none }
  have hclient : client.Inv := ⟨⟨h.bound.tasks, by simp [client]⟩, h.kept⟩
  cases hconn : s.connection with
  | none =>
    simp only [TcpClient.destructClient, hconn]
    exact hclient
  | some k =>
    obtain ⟨c, hc⟩ : ∃ c, s.connections[k]? = some c :=
      ⟨_, List.getElem?_eq_getElem (h.bound.connection k hconn)⟩
    have hset : (if inLoop then client.setCloseCallback k .sockets
        else client.queneInLoop k (.setCloseCallback .sockets)).Inv := by
      split
      · exact hclient.setCloseCallback k .sockets
      · obtain ⟨hframe, hat⟩ := At.quene (s := client) (t := .setCloseCallback .sockets) ⟨hc, rfl⟩
          (by simp)
        exact hclient.step_on hframe hat (h.kept k c hc)
    have hclose := hset.call k inLoop .forceClose trivial (fun _ _ => trivial) (.written 0)
    simp only [TcpClient.destructClient, hconn]
    split
    · exact hclose
    · exact hset

/-- **Every proper step is safe.** -/
theorem Inv.step {s : TcpClient} (h : s.Inv) {a : Label} (ha : s.Enabled a) (hproper : s.Proper a) :
    Safe (s.step a) := by
  cases a with
  | newConnection => exact h.newConnection
  | functor write => exact h.runPending hproper
  | dispatch k revents read write =>
    obtain ⟨c, hc, -, -, hw⟩ := ha
    have hk := h.kept k c hc
    exact h.onConnection hc (fun c => c.handleEvent revents read write)
      (handleEvent_going hk.sound.rested hk.unhandled hw (hproper c hc))
  | call k inLoop call write =>
    obtain ⟨c, hc, -, -, hcall⟩ := ha
    exact h.call k inLoop call hcall hproper write
  | acquire k => exact h.setHeld k true
  | release k => exact h.setHeld k false
  | disconnect inLoop write => exact h.disconnect inLoop write
  | destructClient inLoop => exact h.destructClient inLoop
  | destruct k =>
    obtain ⟨c, hc, -, hun⟩ := ha
    exact h.destruct hc hun

/-! ## Runs -/

theorem new_inv (writeCompleteCallback : Bool) : (new writeCompleteCallback).Inv :=
  ⟨⟨by simp [new], by simp [new]⟩, by simp [new]⟩

/-- A connection whose `handleClose` has run: `connectDestroyed` runs once, and
behind it the channel is out of the poller, also when the connection is
destructed. -/
structure TornDown (s : TcpClient) (k : Nat) (c : ClientConnection) : Prop where
  once : c.destroyed + s.pendingDestroys k = 1
  removed : c.destroyed = 1 → c.conn.channel.mapped = false ∧ c.conn.channel.addedToLoop = false
  destructed : c.destructed = true → c.destroyed = 1

theorem Kept.tornDown {s : TcpClient} {k : Nat} {c : ClientConnection}
    (h : Kept c (s.pendingDestroys k)) (hc : c.closed = true) : TornDown s k c := by
  cases h.stage with
  | opened closed => simp [hc] at closed
  | closing _ _ _ destroyed pending there =>
    exact ⟨by omega, by simp [destroyed], by simp [there]⟩
  | gone _ _ unknown destroyed pending =>
    refine ⟨by omega, fun _ => ⟨?_, ?_⟩, fun _ => destroyed⟩
    · by_contra hm
      exact unknown (h.sound.coherent.mapped_iff.mp (by simpa using hm))
    · by_contra hm
      exact unknown (h.sound.coherent.added_iff.mp (by simpa using hm))

/-- Every closed connection of the state is or will be torn down; a failure is
none of a channel's. -/
def TearsDown (_ : TcpClient) (_ : Label) : Checked TcpClient → Prop
  | .ok s => ∀ k c, s.connections[k]? = some c → c.closed = true → TornDown s k c
  | .error e => Foreign e

/-- **Teardown.** In every proper run of a client each connection that has been
closed is torn down. -/
theorem connections_torn_down (writeCompleteCallback : Bool) (steps : List Label)
    (hsteps : Along step Enabled (new writeCompleteCallback) steps)
    (hproper : Along step Proper (new writeCompleteCallback) steps) :
    Steps step TearsDown (new writeCompleteCallback) steps := by
  refine Steps.of_invariant (I := Inv) (E := fun s a => s.Enabled a ∧ s.Proper a)
    (fun s a h ha => ?_) (fun s a s' h ha hs => ?_) (new_inv _) (hsteps.and hproper)
  · have hsafe := h.step ha.1 ha.2
    cases hs : s.step a with
    | ok s' =>
      rw [hs] at hsafe
      intro k c hc hclosed
      exact (Inv.kept hsafe k c hc).tornDown hclosed
    | error e =>
      rw [hs] at hsafe
      exact hsafe
  · have hsafe := h.step ha.1 ha.2
    rw [hs] at hsafe
    exact hsafe

/-- The client goes first, and its destructor forces the connection to close. -/
theorem connections_torn_down_sample :
    Steps step TearsDown (new false)
      [.newConnection, .destructClient true, .functor (.written 0), .functor (.written 0),
       .destruct 0] := by
  refine connections_torn_down _ _ ?_ ?_
  · refine (steps_cons_ok rfl).mpr ⟨rfl, ?_⟩
    refine (steps_cons_ok rfl).mpr ⟨rfl, ?_⟩
    refine (steps_cons_ok rfl).mpr ⟨List.cons_ne_nil _ _, ?_⟩
    refine (steps_cons_ok rfl).mpr ⟨List.cons_ne_nil _ _, ?_⟩
    exact ⟨⟨_, rfl, rfl, rfl, nofun, List.forall_mem_nil _⟩, fun _ _ => trivial⟩
  · refine (steps_cons_ok rfl).mpr ⟨trivial, ?_⟩
    refine (steps_cons_ok rfl).mpr ⟨trivial, ?_⟩
    refine (steps_cons_ok rfl).mpr ⟨?_, ?_⟩
    · rintro k f rest c ⟨⟩ ⟨⟩ -
      rfl
    refine (steps_cons_ok rfl).mpr ⟨?_, ?_⟩
    · rintro k f rest c ⟨⟩ -
      trivial
    exact ⟨trivial, fun _ _ => trivial⟩

/-- The connection is hung up while the client is there. -/
def hangsUp : List Label := [.newConnection, .dispatch 0 POLLHUP (.received []) (.written 0)]

/-- `TcpClient::removeConnection` drops the connection without
`connectDestroyed`, and `~Channel` fails. -/
theorem hangsUp_not_torn_down :
    Along step Enabled (new false) hangsUp ∧ ¬ Steps step TearsDown (new false) hangsUp ∧
      ∃ s, Run step (new false) hangsUp s ∧ s.Enabled (.destruct 0) ∧
        s.step (.destruct 0) = .error .channelDtor := by
  refine ⟨?_, ?_, _, run_iff_foldlM.mpr rfl, ⟨_, rfl, rfl, rfl, nofun, ?_⟩, rfl⟩
  · refine (steps_cons_ok rfl).mpr ⟨rfl, ?_⟩
    exact ⟨⟨_, rfl, rfl, rfl, Nat.zero_le _⟩, fun _ _ => trivial⟩
  · intro h
    have hlast := ((steps_cons_ok rfl).mp ((steps_cons_ok rfl).mp h).2).1
    have honce := (hlast 0 _ rfl rfl).once
    exact absurd honce (by decide)
  · exact List.forall_mem_nil _

end TcpClient

end Muduo
