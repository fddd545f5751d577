import Muduo.ClientTeardown
import Muduo.ConnectorSockets

/-!
A client and its connector in one loop, from `connect` on: the attempts, the
retry timers, the connections that come of them and what users do to these.
`disconnect`, `stop` and `~TcpClient` are not called here.

A failed attempt is followed by a retry timer. Nothing follows the end of a
connection: `TcpClient::removeConnection` does not look at `retry_` and never
calls `Connector::restart`.

* `keeps_reconnecting`: while each connection ends with another attempt under
  way, the client is connected or on its way to be;
* `dropped_not_reconnecting`: the connection ends alone, and that is all.
-/

namespace Muduo

open Lib Events TcpConnection

/-! ## The connector -/

namespace Connector

/-- The state is `kConnecting`, and the channel is in the poller. -/
def InProgress (c : Connector) : Prop :=
  c.state = .kConnecting ∧ ∃ a ∈ c.channel, a.channel.Registered

/-- An attempt is under way, or `startInLoop` will begin one. -/
def Awaits (c : Connector) : Prop :=
  c.InProgress ∨ c.retryTimers ≠ [] ∨ .startInLoop ∈ c.functors

/-- No attempt begins between `c` and `c'`, and one that ends is followed by a
timer or a connection. -/
structure Carries (c c' : Connector) : Prop where
  connect_ : c'.connect_ = c.connect_
  created : c'.created = c.created
  connections : c.connections.length ≤ c'.connections.length
  awaits : c.connect_ = true → c.Awaits →
    c'.Awaits ∨ c.connections.length < c'.connections.length

theorem Carries.refl (c : Connector) : Carries c c := ⟨rfl, rfl, Nat.le_refl _, fun _ h => .inl h⟩

theorem Carries.trans {c c' c'' : Connector} (h : Carries c c') (h' : Carries c' c'') :
    Carries c c'' := by
  have hle := h.connections
  have hle' := h'.connections
  refine ⟨h'.connect_.trans h.connect_, h'.created.trans h.created, by omega, ?_⟩
  intro hconnect hawaits
  rcases h.awaits hconnect hawaits with hawaits' | hmore
  · rcases h'.awaits (h.connect_.trans hconnect) hawaits' with hawaits'' | hmore
    · exact .inl hawaits''
    · exact .inr (by omega)
  · exact .inr (by omega)

theorem retry_fields (c : Connector) (s : Nat) :
    (c.retry s).connect_ = c.connect_ ∧ (c.retry s).created = c.created ∧
      (c.retry s).connections = c.connections ∧
        (c.connect_ = true → (c.retry s).retryTimers ≠ []) := by
  unfold retry
  dsimp only
  split
  · exact ⟨rfl, rfl, rfl, fun _ => by simp⟩
  · rename_i hc
    exact ⟨rfl, rfl, rfl, fun hc' => absurd hc' hc⟩

theorem retry_carries {c c₁ : Connector} (hc : c₁.connect_ = c.connect_)
    (hcreated : c₁.created = c.created) (hconn : c₁.connections = c.connections) (s : Nat) :
    Carries c (c₁.retry s) := by
  obtain ⟨h₁, h₂, h₃, h₄⟩ := retry_fields c₁ s
  refine ⟨h₁.trans hc, h₂.trans hcreated, (h₃.trans hconn) ▸ Nat.le_refl _, fun hconnect _ => ?_⟩
  exact .inl (.inr (.inl (h₄ (hc.trans hconnect))))

theorem handleError_carries {c c' : Connector} (h : c.handleError = .ok c') : Carries c c' := by
  unfold Connector.handleError at h
  split at h
  · obtain ⟨⟨c₁, s⟩, hrem, h⟩ := bind_eq_ok.mp h
    obtain ⟨a, channel, -, -, rfl⟩ := removeAndResetChannel_ok hrem
    cases h
    apply retry_carries <;> rfl
  · cases h
    exact .refl c

theorem stopInLoop_carries {c c' : Connector} (h : c.stopInLoop = .ok c') : Carries c c' := by
  unfold Connector.stopInLoop at h
  split at h
  · obtain ⟨⟨c₁, s⟩, hrem, h⟩ := bind_eq_ok.mp h
    obtain ⟨a, channel, -, -, rfl⟩ := removeAndResetChannel_ok hrem
    cases h
    apply retry_carries <;> rfl
  · cases h
    exact .refl c

theorem handleWrite_carries {c c' : Connector} {err : Nat} {selfConnect : Bool}
    (h : c.handleWrite err selfConnect = .ok c') : Carries c c' := by
  unfold Connector.handleWrite at h
  split at h
  · obtain ⟨⟨c₁, s⟩, hrem, h⟩ := bind_eq_ok.mp h
    obtain ⟨a, channel, -, -, rfl⟩ := removeAndResetChannel_ok hrem
    dsimp only at h
    split at h
    · cases h
      apply retry_carries <;> rfl
    split at h
    · cases h
      apply retry_carries <;> rfl
    · cases h
      split
      · exact ⟨rfl, rfl, by simp [newConnectionCallback, setState, queneInLoop], fun _ _ =>
          .inr (by simp [newConnectionCallback, setState, queneInLoop])⟩
      · rename_i hc
        exact ⟨rfl, rfl, Nat.le_refl _, fun hc' => absurd hc' hc⟩
  · obtain ⟨_, _, h⟩ := bind_eq_ok.mp h
    cases h
    exact .refl c

theorem setEventHandling_carries (c : Connector) (b : Bool) : Carries c (c.setEventHandling b) := by
  refine ⟨rfl, rfl, Nat.le_refl _, fun _ h => .inl (h.imp_left ?_)⟩
  rintro ⟨hstate, a, ha, hreg⟩
  exact ⟨hstate, _, Option.mem_map_of_mem _ ha, hreg⟩

theorem handleEvent_carries {c c' : Connector} {revents : Events} {err : Nat} {selfConnect : Bool}
    (h : c.handleEvent revents err selfConnect = .ok c') : Carries c c' := by
  refine Connector.handleEvent_invariant (I := Carries c) ?_ ?_ ?_ (.refl c) h
  · intro c₁ b h₁
    exact h₁.trans (setEventHandling_carries c₁ b)
  · intro c₁ c₂ h₁ h₂
    exact h₁.trans (handleError_carries h₂)
  · intro c₁ c₂ h₁ h₂
    exact h₁.trans (handleWrite_carries h₂)

/-- A channel in the poller is not reset: `~Channel` would fail. -/
theorem resetChannel_carries {c c' : Connector} (h : c.resetChannel = .ok c') : Carries c c' := by
  unfold Connector.resetChannel at h
  split at h
  · cases h
    exact .refl c
  · rename_i a ha
    obtain ⟨u, hdtor, h⟩ := bind_eq_ok.mp h
    cases h
    obtain ⟨v, -, hadded⟩ := bind_eq_ok.mp hdtor
    have hadded' : a.channel.addedToLoop = false := by simpa using hadded
    refine ⟨rfl, rfl, Nat.le_refl _, fun _ hawaits => .inl ?_⟩
    rcases hawaits with ⟨-, a', ha', hreg⟩ | hlater
    · obtain rfl : a = a' := by simpa [ha] using ha'
      simp [hreg.1] at hadded'
    · exact .inr hlater

/-- An attempt begins, or will begin, unless it ends at once in an error that is
not retried. -/
structure Begins (savedErrno : Option Errno) (c c' : Connector) : Prop where
  connect_ : c'.connect_ = true
  connections : c'.connections = c.connections
  awaits : c'.Awaits ∨ c'.created ≠ c.created ∧ branch savedErrno = .close

theorem connecting_awaits {c c' : Connector} {s : Nat} (h : c.connecting s = .ok c') :
    c'.connect_ = c.connect_ ∧ c'.connections = c.connections ∧ c'.Awaits := by
  obtain ⟨u, -, h⟩ := bind_eq_ok.mp h
  obtain ⟨channel, hch, h⟩ := bind_eq_ok.mp h
  cases h
  refine ⟨rfl, rfl, .inl ⟨rfl, ⟨s, channel⟩, rfl, ?_⟩⟩
  obtain rfl : writing false = channel := Except.ok.inj hch
  exact ⟨rfl, rfl, by simp [writing]⟩

theorem connect_begins {c c' : Connector} (hconnect : c.connect_ = true) {savedErrno : Option Errno}
    (h : c.connect savedErrno = .ok c') : Begins savedErrno c c' := by
  unfold connect at h
  dsimp only at h
  cases hb : branch savedErrno with
  | connecting =>
    rw [hb] at h
    obtain ⟨h₁, h₂, h₃⟩ := connecting_awaits h
    exact ⟨h₁.trans hconnect, h₂, .inl h₃⟩
  | retry =>
    rw [hb] at h
    cases h
    obtain ⟨h₁, -, h₃, h₄⟩ := retry_fields { c with created := c.created + 1 } c.created
    exact ⟨h₁.trans hconnect, h₃, .inl (.inr (.inl (h₄ hconnect)))⟩
  | close =>
    rw [hb] at h
    cases h
    exact ⟨hconnect, rfl, .inr ⟨by simp [close], hb⟩⟩

theorem start_begins {c c' : Connector} {inLoop : Bool} {savedErrno : Option Errno}
    (h : c.start inLoop savedErrno = .ok c') : Begins savedErrno c c' := by
  cases inLoop with
  | true =>
    have hb : Begins savedErrno { c with connect_ := true } c' := connect_begins rfl h
    exact ⟨hb.connect_, hb.connections, hb.awaits⟩
  | false =>
    cases h
    exact ⟨rfl, rfl, .inl (.inr (.inr (by simp [queneInLoop])))⟩

/-- What comes of a step: the connector goes on, or it begins. -/
def Pursues (savedErrno : Option Errno) (c c' : Connector) : Prop :=
  Carries c c' ∨ Begins savedErrno c c'

/-- `startInLoop`, called by what a timer or a functor leaves of `c`. -/
theorem startInLoop_pursues {c c₁ c' : Connector} {savedErrno : Option Errno}
    (h : c₁.startInLoop savedErrno = .ok c') (hconnect : c₁.connect_ = c.connect_)
    (hcreated : c₁.created = c.created) (hconn : c₁.connections = c.connections) :
    Pursues savedErrno c c' := by
  unfold startInLoop at h
  split at h
  · rename_i hc
    have hb := connect_begins hc h
    rw [Pursues]
    exact .inr ⟨hb.connect_, hb.connections.trans hconn, hcreated ▸ hb.awaits⟩
  · rename_i hc
    cases h
    refine .inl ⟨hconnect, hcreated, hconn ▸ Nat.le_refl _, ?_⟩
    intro hc'
    exact absurd (hconnect.trans hc') hc

theorem dequeue_carries {c : Connector} {f : ConnectorFunctor} {functors : List ConnectorFunctor}
    (hq : c.functors = f :: functors) (hf : f ≠ .startInLoop) :
    Carries c { c with functors } := by
  refine ⟨rfl, rfl, Nat.le_refl _, fun _ hawaits => .inl ?_⟩
  rcases hawaits with hprogress | htimer | hstart
  · exact .inl hprogress
  · exact .inr (.inl htimer)
  · rw [hq] at hstart
    rcases List.mem_cons.mp hstart with heq | hmem
    · exact absurd heq.symm hf
    · exact .inr (.inr hmem)

/-- The step is one of the connector's own: neither `start` nor `stop` nor
`restart`. -/
def Step.ofLoop : Step → Bool
  | .timer .. | .dispatch .. | .functor _ => true
  | _ => false

/-- The result that the step has for a call of `connect`. -/
def Step.savedErrno : Step → Option Errno
  | .start _ savedErrno | .restart savedErrno | .timer _ savedErrno | .functor savedErrno => savedErrno
  | _ => none

theorem step_pursues {c c' : Connector} {a : Step} (ha : a.ofLoop = true)
    (h : c.step a = .ok c') : Pursues a.savedErrno c c' := by
  cases a with
  | timer i savedErrno =>
    have hstart : ({ c with retryTimers := c.retryTimers.eraseIdx i } : Connector).startInLoop
        savedErrno = .ok c' := h
    exact startInLoop_pursues hstart rfl rfl rfl
  | dispatch revents err selfConnect => exact .inl (handleEvent_carries h)
  | functor savedErrno =>
    simp only [Connector.step] at h
    split at h
    · cases h
      exact .inl (.refl c)
    · rename_i f functors hq
      cases f with
      | startInLoop =>
        have hstart : ({ c with functors } : Connector).startInLoop savedErrno = .ok c' := h
        exact startInLoop_pursues hstart rfl rfl rfl
      | stopInLoop => exact .inl ((dequeue_carries hq (by simp)).trans (stopInLoop_carries h))
      | resetChannel => exact .inl ((dequeue_carries hq (by simp)).trans (resetChannel_carries h))
  | start inLoop savedErrno => cases ha
  | stop => cases ha
  | restart savedErrno => cases ha

end Connector

/-! ## The connections -/

namespace TcpConnection

theorem Passes.lives {c : TcpConnection} {o : Checked TcpConnection} (h : c.Passes o)
    {c' : TcpConnection} (ho : o = .ok c') : Lives c c' := by
  subst ho
  exact h

theorem Calm.not_close {c c' : TcpConnection} (h : Calm c c') (hc : c.effects = []) :
    c'.effects.any Effect.isClose = false := by
  obtain ⟨es, he, hes⟩ := h.effects
  rw [he, hc, List.nil_append]
  exact not_close_of_minor hes

end TcpConnection

namespace TcpClient

/-- `connection_` is an open connection. -/
def Connected (s : TcpClient) : Prop :=
  ∃ k c, s.connection = some k ∧ s.connections[k]? = some c ∧ c.conn.Live

/-- The step closes `connection_`: the dispatch brings a hang-up or the end of
the stream, or `forceCloseInLoop` runs. -/
def Closing (s : TcpClient) : Label → Prop
  | .functor _ => ∃ k, s.connection = some k ∧
      ∃ rest, s.pendingFunctors = (k, .functor .forceCloseInLoop) :: rest
  | .dispatch k revents read _ => s.connection = some k ∧ (closing revents = true ∨ atEof revents read)
  | _ => False

/-- The functors are those of open connections. -/
def Minor (tasks : List (Nat × ClientTask)) : Prop :=
  ∀ t ∈ tasks, ∃ f, t.2 = .functor f ∧ (Effect.quene f).minor = true

/-- What holds of a connection while its client is there. -/
structure Kind (c : ClientConnection) : Prop where
  sound : c.conn.Sound
  unhandled : c.conn.Unhandled
  callback : c.closeCallback = .tcpClient

/-- The invariant of a client that has not been destructed. -/
structure Running (s : TcpClient) : Prop where
  tasks : Minor s.pendingFunctors
  connections : ∀ c ∈ s.connections, Kind c
  connection : ∀ k, s.connection = some k → ∃ c, s.connections[k]? = some c ∧ c.conn.Live

theorem Running.connected {s : TcpClient} (h : s.Running) (hc : s.connection ≠ none) :
    s.Connected := by
  obtain ⟨k, hk⟩ := Option.ne_none_iff_exists'.mp hc
  obtain ⟨c, hc, hlive⟩ := h.connection k hk
  exact ⟨k, c, hk, hc, hlive⟩

/-- An effect that is no close only adds to the functors. -/
structure Adds (s s' : TcpClient) : Prop where
  connections : s'.connections = s.connections
  connection : s'.connection = s.connection
  tasks : Minor s.pendingFunctors → Minor s'.pendingFunctors

theorem Adds.refl (s : TcpClient) : Adds s s := ⟨rfl, rfl, id⟩

theorem Adds.trans {s s' s'' : TcpClient} (h : Adds s s') (h' : Adds s' s'') : Adds s s'' :=
  ⟨h'.connections.trans h.connections, h'.connection.trans h.connection, h'.tasks ∘ h.tasks⟩

theorem deliver_adds {s s' : TcpClient} {k : Nat} {cb : CloseCallback} {e : Effect}
    (he : e.minor = true) (h : deliver k cb s e = .ok s') : Adds s s' := by
  cases e with
  | quene f =>
    cases h
    refine ⟨rfl, rfl, fun htasks t ht => ?_⟩
    rcases List.mem_append.mp ht with ht | ht
    · exact htasks t ht
    · obtain rfl := List.mem_singleton.mp ht
      exact ⟨f, rfl, he⟩
  | closeCallback => cases he
  | _ =>
    cases h
    exact .refl s

theorem delivers_add {s s' : TcpClient} {k : Nat} {cb : CloseCallback} {es : List Effect}
    (hes : ∀ e ∈ es, e.minor = true) (h : es.foldlM (deliver k cb) s = .ok s') : Adds s s' := by
  refine (run_iff_foldlM.mpr h).invariant (Steps.of_forall hes) (.refl s) ?_
  intro t e t' hadds he ht
  exact hadds.trans (deliver_adds he ht)

/-- A close drops `connection_`, which must be the connection that closes. -/
theorem delivers_close {s s' : TcpClient} {k : Nat} {cb : CloseCallback} (hcb : cb = .tcpClient)
    {es es' : List Effect} (hes : ∀ e ∈ es, e.minor = true) (hes' : ∀ e ∈ es', e.minor = true)
    (h : (es ++ [Effect.connectionCallback, .closeCallback] ++ es').foldlM (deliver k cb) s = .ok s') :
    s.connection = some k ∧ s'.connection = none ∧ s'.connections = s.connections ∧
      (Minor s.pendingFunctors → Minor s'.pendingFunctors) := by
  subst hcb
  rw [List.foldlM_append, List.foldlM_append] at h
  obtain ⟨s₂, h₂, h₃⟩ := bind_eq_ok.mp h
  obtain ⟨s₁, h₁, h₂⟩ := bind_eq_ok.mp h₂
  have hadds₁ := delivers_add hes h₁
  have hadds₃ := delivers_add hes' h₃
  obtain ⟨s₁', h₁', h₂⟩ := bind_eq_ok.mp h₂
  obtain rfl : s₁ = s₁' := Except.ok.inj h₁'
  obtain ⟨s₂', hclose, h₂⟩ := bind_eq_ok.mp h₂
  obtain rfl : s₂' = s₂ := Except.ok.inj h₂
  obtain ⟨u, -, hclose⟩ := bind_eq_ok.mp hclose
  obtain ⟨v, hk, hclose⟩ := bind_eq_ok.mp hclose
  cases hclose
  refine ⟨hadds₁.connection ▸ (check_eq_ok ..).mp hk, hadds₃.connection,
    hadds₃.connections.trans hadds₁.connections, fun htasks => hadds₃.tasks (hadds₁.tasks htasks)⟩

theorem Running.setConnection_kinds {s : TcpClient} (h : s.Running) (k : Nat)
    {c' : ClientConnection} (hkind : Kind c') :
    ∀ d ∈ (s.setConnection k c').connections, Kind d := by
  intro d hd
  rcases List.mem_or_eq_of_mem_set hd with hd | rfl
  · exact h.connections d hd
  · exact hkind

/-- The connection `k` is replaced by one that is open if it was. -/
theorem Running.setConnection {s : TcpClient} (h : s.Running) {k : Nat} {c c' : ClientConnection}
    (hc : s.connections[k]? = some c) (hkind : Kind c')
    (hlive : s.connection = some k → c'.conn.Live) : (s.setConnection k c').Running := by
  have hlt : k < s.connections.length := (List.getElem?_eq_some_iff.mp hc).1
  refine ⟨h.tasks, h.setConnection_kinds k hkind, ?_⟩
  intro j hj
  by_cases hjk : k = j
  · subst hjk
    exact ⟨c', by simp [TcpClient.setConnection, hlt], hlive hj⟩
  · obtain ⟨d, hd, hlive'⟩ := h.connection j hj
    exact ⟨d, by simpa [TcpClient.setConnection, List.getElem?_set_ne hjk] using hd, hlive'⟩

theorem Adds.running {s s' : TcpClient} (h : Adds s s') (hs : s.Running) : s'.Running := by
  refine ⟨h.tasks hs.tasks, ?_, ?_⟩
  · rw [h.connections]
    exact hs.connections
  · rw [h.connection, h.connections]
    exact hs.connection

/-- A function of a connection closes `connection_` or leaves it alone. -/
theorem Running.onConnection {s s' : TcpClient} (h : s.Running) {k destroyed : Nat}
    {op : TcpConnection → Checked TcpConnection}
    (hop : ∀ c conn, s.connections[k]? = some c → op c.conn.rested = .ok conn →
      Lives c.conn.rested conn)
    (hs : s.onConnection k destroyed op = .ok s') :
    s'.Running ∧ (s'.connection = s.connection ∨ s.connection = some k ∧
      ∃ c conn, s.connections[k]? = some c ∧ op c.conn.rested = .ok conn ∧
        conn.effects.any Effect.isClose = true) := by
  unfold TcpClient.onConnection at hs
  split at hs
  · cases hs
    exact ⟨h, .inl rfl⟩
  rename_i c hc
  obtain ⟨u, -, hs⟩ := bind_eq_ok.mp hs
  obtain ⟨conn, hconn, hs⟩ := bind_eq_ok.mp hs
  dsimp only at hs
  have hkind := h.connections c (List.mem_of_getElem? hc)
  have hlives := hop c conn hc hconn
  generalize hclosed : (c.closed || conn.effects.any Effect.isClose) = closed at hs
  have hkind' : Kind { c with conn, closed, destroyed := c.destroyed + destroyed } :=
    ⟨hlives.sound, hlives.unhandled hkind.unhandled, hkind.callback⟩
  cases hlives.ends rfl with
  | stays state minor =>
    have hadds := delivers_add minor hs
    refine ⟨hadds.running (h.setConnection hc hkind' ?_), .inl hadds.connection⟩
    intro hk
    obtain ⟨d, hd, hlive⟩ := h.connection k hk
    obtain rfl : c = d := Option.some.inj (hc.symm.trans hd)
    rcases state with hsame | ⟨-, hlive'⟩
    · rw [Live, hsame]
      exact hlive
    · exact hlive'
  | closes live state es es' effects minor minor' =>
    rw [effects] at hs
    obtain ⟨hk, hnone, hconns, htasks⟩ := delivers_close hkind.callback minor minor' hs
    refine ⟨⟨htasks h.tasks, ?_, by simp [hnone]⟩, .inr ⟨hk, c, conn, hc, hconn, ?_⟩⟩
    · rw [hconns]
      exact h.setConnection_kinds k hkind'
    · simp [effects, Effect.isClose]

/-- `connectEstablished` runs at once. -/
theorem newConnection_eq (s : TcpClient) :
    s.newConnection = .ok { s with
      connection := some s.connections.length
      connections := s.connections ++
        [⟨established s.writeCompleteCallback, .tcpClient, false, false, false, 0⟩] } := by
  have hconn := connectEstablished_new s.writeCompleteCallback
  have hrested : (TcpConnection.new s.writeCompleteCallback).rested =
      TcpConnection.new s.writeCompleteCallback := rfl
  simp [newConnection, runFunctor, TcpClient.onConnection, hrested, check_pos,
    TcpConnection.runFunctor, hconn, established, deliver, TcpClient.setConnection,
    Functor.destroys, Effect.isClose]

theorem established_kind (w : Bool) :
    Kind ⟨established w, .tcpClient, false, false, false, 0⟩ :=
  ⟨⟨Buffer.fresh_WF _, Buffer.fresh_WF _, established_coherent w⟩, rfl, rfl⟩

theorem Running.newConnection {s s' : TcpClient} (h : s.Running) (hs : s.newConnection = .ok s') :
    s'.Running ∧ s'.connection ≠ none := by
  rw [newConnection_eq] at hs
  cases hs
  refine ⟨⟨h.tasks, ?_, ?_⟩, by simp⟩
  · intro c hc
    rcases List.mem_append.mp hc with hc | hc
    · exact h.connections c hc
    · obtain rfl := List.mem_singleton.mp hc
      exact established_kind _
  · intro k hk
    obtain rfl : s.connections.length = k := by simpa using hk
    exact ⟨_, List.getElem?_concat_length, .inl rfl⟩

theorem Running.setHeld {s : TcpClient} (h : s.Running) (k : Nat) (held : Bool) :
    (s.setHeld k held).Running ∧ (s.setHeld k held).connection = s.connection := by
  unfold TcpClient.setHeld
  split
  · exact ⟨h, rfl⟩
  rename_i c hc
  have hkind := h.connections c (List.mem_of_getElem? hc)
  refine ⟨h.setConnection hc ⟨hkind.sound, hkind.unhandled, hkind.callback⟩ ?_, rfl⟩
  intro hk
  obtain ⟨d, hd, hlive⟩ := h.connection k hk
  obtain rfl : c = d := Option.some.inj (hc.symm.trans hd)
  exact hlive

theorem Running.destruct {s s' : TcpClient} (h : s.Running) {k : Nat} (hk : s.connection ≠ some k)
    (hs : s.destruct k = .ok s') : s'.Running ∧ s'.connection = s.connection := by
  unfold TcpClient.destruct at hs
  split at hs
  · cases hs
    exact ⟨h, rfl⟩
  rename_i c hc
  obtain ⟨u, -, hs⟩ := bind_eq_ok.mp hs
  cases hs
  have hkind := h.connections c (List.mem_of_getElem? hc)
  refine ⟨h.setConnection hc ⟨hkind.sound, hkind.unhandled, hkind.callback⟩ ?_, rfl⟩
  intro hk'
  exact absurd hk' hk

/-- The next functor closes `connection_` only if it is `forceCloseInLoop`. -/
theorem Running.runPending {s s' : TcpClient} (h : s.Running) {write : WriteResult}
    (hs : s.runPending write = .ok s') :
    s'.Running ∧ (¬ s.Closing (.functor write) → s'.connection = s.connection) := by
  cases hq : s.pendingFunctors with
  | nil =>
    simp only [TcpClient.runPending, hq] at hs
    cases hs
    exact ⟨h, fun _ => rfl⟩
  | cons head rest =>
    obtain ⟨k, t⟩ := head
    obtain ⟨f, rfl, hf⟩ := h.tasks (k, t) (by simp [hq])
    have hpop : s.pop.Running := by
      refine ⟨fun t ht => h.tasks t (List.mem_of_mem_tail ht), h.connections, h.connection⟩
    simp only [TcpClient.runPending, hq] at hs
    have hsound : ∀ c, s.pop.connections[k]? = some c → c.conn.rested.Sound :=
      fun c hc => (h.connections c (List.mem_of_getElem? hc)).sound.rested
    obtain ⟨hs', hconn⟩ := hpop.onConnection 
      (fun c conn hc hconn => (runFunctor_passes (hsound c hc) hf write).lives hconn) hs
    refine ⟨hs', fun hnot => ?_⟩
    rcases hconn with hsame | ⟨hk, c, conn, hc, hconn, hclose⟩
    · exact hsame
    obtain ⟨conn', hconn', hcalm | ⟨rfl, -⟩⟩ := runFunctor_spec (hsound c hc) hf write
    · obtain rfl : conn = conn' := Except.ok.inj (hconn.symm.trans hconn')
      simp [hcalm.not_close rfl] at hclose
    · exact absurd ⟨k, hk, rest, hq⟩ hnot

/-- The step is one of the loop, of a user, or of a pointer. -/
def Label.ofConnection : Label → Bool
  | .newConnection | .disconnect .. | .destructClient _ => false
  | _ => true

/-- **Step lemma.** A step that does not close `connection_` leaves it alone. -/
theorem Running.step {s s' : TcpClient} (h : s.Running) {a : Label} (ha : s.Enabled a)
    (hown : a.ofConnection = true) (hs : s.step a = .ok s') :
    s'.Running ∧ (¬ s.Closing a → s'.connection = s.connection) := by
  have hkinds : ∀ (k : Nat) c, s.connections[k]? = some c → Kind c :=
    fun _ c hc => h.connections c (List.mem_of_getElem? hc)
  cases a with
  | newConnection => cases hown
  | disconnect inLoop write => cases hown
  | destructClient inLoop => cases hown
  | functor write => exact h.runPending hs
  | dispatch k revents read write =>
    obtain ⟨c₀, hc₀, -, -, hw⟩ := ha
    have hfits : ∀ c, s.connections[k]? = some c → write.Fits c.conn.outputBuffer.readableBytes := by
      intro c hc
      obtain rfl : c₀ = c := Option.some.inj (hc₀.symm.trans hc)
      exact hw
    have hon : (s.onConnection k 0 fun c => c.handleEvent revents read write) = .ok s' := hs
    obtain ⟨hs', hconn⟩ := h.onConnection (fun c conn hc hconn =>
      (handleEvent_passes (hkinds k c hc).sound.rested (hkinds k c hc).unhandled revents read
        (hfits c hc)).lives hconn) hon
    refine ⟨hs', fun hnot => ?_⟩
    rcases hconn with hsame | ⟨hk, c, conn, hc, hconn, hclose⟩
    · exact hsame
    obtain ⟨hopen, heof⟩ := not_or.mp (not_and.mp hnot hk)
    obtain ⟨conn', hconn', hcalm, -⟩ := handleEvent_calm (hkinds k c hc).sound.rested
      (hkinds k c hc).unhandled (hfits c hc) hopen heof
    obtain rfl : conn = conn' := Except.ok.inj (hconn.symm.trans hconn')
    simp [hcalm.not_close rfl] at hclose
  | call k inLoop call write =>
    obtain ⟨c₀, -, -, -, hcall⟩ := ha
    have hon : (s.onConnection k 0 fun c => c.call inLoop write call) = .ok s' := hs
    obtain ⟨hs', hconn⟩ := h.onConnection (fun c conn hc hconn =>
      (call_passes (hkinds k c hc).sound.rested hcall inLoop write).lives hconn) hon
    refine ⟨hs', fun _ => ?_⟩
    rcases hconn with hsame | ⟨hk, c, conn, hc, hconn, hclose⟩
    · exact hsame
    obtain ⟨c₁, conn', hconn', hshuts, hcalm⟩ :=
      call_spec (hkinds k c hc).sound.rested hcall inLoop write
    obtain rfl : conn = conn' := Except.ok.inj (hconn.symm.trans hconn')
    simp [hcalm.not_close hshuts.fields.2] at hclose
  | acquire k =>
    cases hs
    obtain ⟨hs', hsame⟩ := h.setHeld k true
    exact ⟨hs', fun _ => hsame⟩
  | release k =>
    cases hs
    obtain ⟨hs', hsame⟩ := h.setHeld k false
    exact ⟨hs', fun _ => hsame⟩
  | destruct k =>
    obtain ⟨c, -, -, hun⟩ := ha
    obtain ⟨hs', hsame⟩ := h.destruct hun.2.1 hs
    exact ⟨hs', fun _ => hsame⟩

theorem new_running (writeCompleteCallback : Bool) : (new writeCompleteCallback).Running :=
  ⟨by simp [new, Minor], by simp [new], by simp [new]⟩

end TcpClient

/-! ## The client and its connector -/

/-- The loop has one queue; here the next functor of either part may run. -/
structure RetryClient where
  client : TcpClient
  connector : Connector
  /-- `retry_` -/
  retry : Bool
  /-- the last attempt ended in a connect error that is not retried -/
  abandoned : Bool

namespace RetryClient

def new (writeCompleteCallback : Bool) : RetryClient :=
  ⟨.new writeCompleteCallback, .new, false, false⟩

inductive Label where
  | connect (inLoop : Bool) (savedErrno : Option Errno)
  | enableRetry
  | connector (a : Connector.Step)
  | client (a : TcpClient.Label)

def Enabled (s : RetryClient) : Label → Prop
  | .connect .. | .enableRetry => True
  | .connector a => a.ofLoop = true ∧ s.connector.Allowed a
  | .client a => a.ofConnection = true ∧ s.client.Enabled a

/-- A function of the connector. Each socket that it hands over goes to
`TcpClient::newConnection`, the last thing it does. -/
def onConnector (s : RetryClient) (savedErrno : Option Errno)
    (op : Connector → Checked Connector) : Checked RetryClient := do
  let connector ← op s.connector
  let abandoned := if connector.created = s.connector.created then s.abandoned
    else decide (Connector.branch savedErrno = .close)
  let sockets := connector.connections.drop s.connector.connections.length
  let client ← sockets.foldlM (fun client _ => client.newConnection) s.client
  return { s with client, connector, abandoned }

def connect (s : RetryClient) (inLoop : Bool) (savedErrno : Option Errno) : Checked RetryClient :=
  { s with client := { s.client with connect := true } }.onConnector savedErrno
    fun c => c.start inLoop savedErrno

def step (s : RetryClient) : Label → Checked RetryClient
  | .connect inLoop savedErrno => s.connect inLoop savedErrno
  | .enableRetry => return { s with retry := true }
  | .connector a => s.onConnector a.savedErrno fun c => c.step a
  | .client a => do
    let client ← s.client.step a
    return { s with client }

/-! ## What is kept -/

def Drained (s : RetryClient) : Prop :=
  s.connector.functors = [] ∧ s.client.pendingFunctors = []

/-- Behind `connect` and `enableRetry`, with no functor queued and no attempt
abandoned, the client is connected, or an attempt is in progress, or a timer will
begin one. -/
def Reconnects (s : RetryClient) : Prop :=
  s.connector.connect_ = true → s.retry = true → s.Drained → s.abandoned = false →
    s.client.Connected ∨ s.connector.InProgress ∨ s.connector.retryTimers ≠ []

/-- Where the step closes `connection_`, another attempt is under way, or the last
one was abandoned. -/
def Covered (s : RetryClient) : Label → Prop
  | .client a => s.client.Closing a → s.connector.Awaits ∨ s.abandoned = true
  | _ => True

/-- The invariant of the covered runs. -/
structure Inv (s : RetryClient) : Prop where
  running : s.client.Running
  standing : s.connector.connect_ = true →
    s.client.connection ≠ none ∨ s.connector.Awaits ∨ s.abandoned = true

theorem Inv.reconnects {s : RetryClient} (h : s.Inv) : s.Reconnects := by
  intro hconnect hretry hdrained habandoned
  rcases h.standing hconnect with hconn | hawaits | habandoned'
  · exact .inl (h.running.connected hconn)
  · rcases hawaits with hprogress | htimer | hstart
    · exact .inr (.inl hprogress)
    · exact .inr (.inr htimer)
    · simp [hdrained.1] at hstart
  · simp [habandoned] at habandoned'

theorem new_inv (writeCompleteCallback : Bool) : (new writeCompleteCallback).Inv :=
  ⟨TcpClient.new_running _, by simp [new, Connector.new]⟩

/-- The sockets handed over become connections, and the last one is
`connection_`. -/
theorem newConnections_running {sockets : List Nat} {s s' : TcpClient} (h : s.Running)
    (hs : sockets.foldlM (fun client _ => client.newConnection) s = .ok s') :
    s'.Running ∧ (s.connection ≠ none ∨ sockets ≠ [] → s'.connection ≠ none) := by
  induction sockets generalizing s with
  | nil =>
    cases hs
    exact ⟨h, by simp⟩
  | cons sockfd sockets ih =>
    obtain ⟨s₁, h₁, hs⟩ := bind_eq_ok.mp hs
    obtain ⟨hrunning, hconn⟩ := h.newConnection h₁
    obtain ⟨hrunning', hconn'⟩ := ih hrunning hs
    exact ⟨hrunning', fun _ => hconn' (.inl hconn)⟩

/-- An attempt that ends well becomes a connection. -/
theorem Inv.onConnector {s s' : RetryClient} (h : s.Inv) {savedErrno : Option Errno}
    {op : Connector → Checked Connector}
    (hop : ∀ c', op s.connector = .ok c' → Connector.Pursues savedErrno s.connector c')
    (hs : s.onConnector savedErrno op = .ok s') : s'.Inv := by
  obtain ⟨connector, hconnector, hs⟩ := bind_eq_ok.mp hs
  obtain ⟨client, hclient, hs⟩ := bind_eq_ok.mp hs
  cases hs
  obtain ⟨hrunning, hconn⟩ := newConnections_running h.running hclient
  refine ⟨hrunning, fun hconnect => ?_⟩
  dsimp only at hconnect ⊢
  rcases hop connector hconnector with hcarries | hbegins
  · rw [if_pos hcarries.created]
    have hconnect₀ : s.connector.connect_ = true := hcarries.connect_ ▸ hconnect
    rcases h.standing hconnect₀ with hthere | hawaits | habandoned
    · exact .inl (hconn (.inl hthere))
    · rcases hcarries.awaits hconnect₀ hawaits with hawaits' | hmore
      · exact .inr (.inl hawaits')
      · refine .inl (hconn (.inr ?_))
        rw [ne_eq, List.drop_eq_nil_iff]
        omega
    · exact .inr (.inr habandoned)
  · right
    rcases hbegins.awaits with hawaits | ⟨hcreated, hclose⟩
    · exact .inl hawaits
    · right
      rw [if_neg hcreated]
      simpa using hclose

/-- **Step lemma.** -/
theorem Inv.step {s s' : RetryClient} (h : s.Inv) {a : Label} (ha : s.Enabled a)
    (hcovered : s.Covered a) (hs : s.step a = .ok s') : s'.Inv := by
  cases a with
  | connect inLoop savedErrno =>
    let s₁ : RetryClient := { s with client := { s.client with connect := true } }
    have hset : s₁.Inv :=
      ⟨⟨h.running.tasks, h.running.connections, h.running.connection⟩, h.standing⟩
    have hon : (s₁.onConnector savedErrno fun c => c.start inLoop savedErrno) = .ok s' := hs
    exact hset.onConnector (fun c' hc' => .inr (Connector.start_begins hc')) hon
  | enableRetry =>
    cases hs
    exact ⟨h.running, h.standing⟩
  | connector a =>
    have hon : (s.onConnector a.savedErrno fun c => c.step a) = .ok s' := hs
    exact h.onConnector (fun c' hc' => Connector.step_pursues ha.1 hc') hon
  | client a =>
    obtain ⟨client, hclient, hs⟩ := bind_eq_ok.mp hs
    cases hs
    obtain ⟨hrunning, hsame⟩ := h.running.step ha.2 ha.1 hclient
    refine ⟨hrunning, fun hconnect => ?_⟩
    by_cases hclosing : s.client.Closing a
    · exact .inr (hcovered hclosing)
    · rw [hsame hclosing]
      exact h.standing hconnect

/-- **A client with retry keeps reconnecting.** In every run in which
`connection_` is closed only while another attempt is under way. -/
theorem keeps_reconnecting (writeCompleteCallback : Bool) (steps : List Label) (s : RetryClient)
    (hrun : Run step (new writeCompleteCallback) steps s)
    (hsteps : Along step Enabled (new writeCompleteCallback) steps)
    (hcovered : Along step Covered (new writeCompleteCallback) steps) : s.Reconnects := by
  have hinv : s.Inv := hrun.invariant (E := fun s a => s.Enabled a ∧ s.Covered a)
    (hsteps.and hcovered) (new_inv _) fun _ _ _ h ha hs => h.step ha.1 ha.2 hs
  exact hinv.reconnects

/-- The first attempt is refused and made again; the connection ends while the
user has asked for another one. -/
def pursued : List Label :=
  [.connect true (some .EINPROGRESS), .enableRetry, .connector (.dispatch POLLOUT 111 false),
   .connector (.functor none), .connector (.timer 0 (some .EINPROGRESS)),
   .connector (.dispatch POLLOUT 0 false), .connector (.functor none),
   .connect true (some .EINPROGRESS), .client (.dispatch 0 POLLHUP (.received []) (.written 0))]

theorem keeps_reconnecting_pursued :
    ∃ s, Run step (new false) pursued s ∧ s.client.connection = none ∧ s.Reconnects := by
  obtain ⟨s, hrun, hnone⟩ : ∃ s, Run step (new false) pursued s ∧ s.client.connection = none :=
    ⟨_, run_iff_foldlM.mpr rfl, rfl⟩
  refine ⟨s, hrun, hnone, keeps_reconnecting false pursued s hrun ?_ ?_⟩
  · refine (steps_cons_ok rfl).mpr ⟨trivial, ?_⟩
    refine (steps_cons_ok rfl).mpr ⟨trivial, ?_⟩
    refine (steps_cons_ok rfl).mpr ⟨⟨rfl, _, rfl, by decide⟩, ?_⟩
    refine (steps_cons_ok rfl).mpr ⟨⟨rfl, trivial⟩, ?_⟩
    refine (steps_cons_ok rfl).mpr ⟨⟨rfl, by decide⟩, ?_⟩
    refine (steps_cons_ok rfl).mpr ⟨⟨rfl, _, rfl, by decide⟩, ?_⟩
    refine (steps_cons_ok rfl).mpr ⟨⟨rfl, trivial⟩, ?_⟩
    refine (steps_cons_ok rfl).mpr ⟨trivial, ?_⟩
    exact ⟨⟨rfl, _, rfl, rfl, rfl, Nat.zero_le _⟩, fun _ _ => trivial⟩
  · refine (steps_cons_ok rfl).mpr ⟨trivial, ?_⟩
    refine (steps_cons_ok rfl).mpr ⟨trivial, ?_⟩
    refine (steps_cons_ok rfl).mpr ⟨trivial, ?_⟩
    refine (steps_cons_ok rfl).mpr ⟨trivial, ?_⟩
    refine (steps_cons_ok rfl).mpr ⟨trivial, ?_⟩
    refine (steps_cons_ok rfl).mpr ⟨trivial, ?_⟩
    refine (steps_cons_ok rfl).mpr ⟨trivial, ?_⟩
    refine (steps_cons_ok rfl).mpr ⟨trivial, ?_⟩
    exact ⟨fun _ => .inl (.inl ⟨rfl, _, rfl, rfl, rfl, by decide⟩), fun _ _ => trivial⟩

/-- The connection is made and its peer closes it. -/
def dropped : List Label :=
  [.connect true (some .EINPROGRESS), .enableRetry, .connector (.dispatch POLLOUT 0 false),
   .connector (.functor none), .client (.dispatch 0 POLLHUP (.received []) (.written 0))]

/-- `removeConnection` drops the connection, and nobody starts the connector. -/
theorem dropped_not_reconnecting :
    Along step Enabled (new false) dropped ∧
      ∃ s, Run step (new false) dropped s ∧ s.connector.connect_ = true ∧ s.retry = true ∧
        s.Drained ∧ s.abandoned = false ∧ ¬ s.Reconnects := by
  refine ⟨?_, _, run_iff_foldlM.mpr rfl, rfl, rfl, ⟨rfl, rfl⟩, rfl, ?_⟩
  · refine (steps_cons_ok rfl).mpr ⟨trivial, ?_⟩
    refine (steps_cons_ok rfl).mpr ⟨trivial, ?_⟩
    refine (steps_cons_ok rfl).mpr ⟨⟨rfl, _, rfl, by decide⟩, ?_⟩
    refine (steps_cons_ok rfl).mpr ⟨⟨rfl, trivial⟩, ?_⟩
    exact ⟨⟨rfl, _, rfl, rfl, rfl, Nat.zero_le _⟩, fun _ _ => trivial⟩
  · intro h
    rcases h rfl rfl ⟨rfl, rfl⟩ rfl with ⟨k, c, hk, -⟩ | ⟨hstate, -⟩ | htimers
    · cases hk
    · cases hstate
    · exact htimers rfl

end RetryClient

end Muduo
