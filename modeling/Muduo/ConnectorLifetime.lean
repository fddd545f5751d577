import Muduo.ClientRetry
import Muduo.ConnectorStop

/-!
How long a client's `Connector` is there. The client has a `shared_ptr` to it, as
each retry timer has, and the timer that `~TcpClient` starts when there is no
connection. The functors and the callbacks of the channel have a plain `this`, and
`newConnectionCallback_` has one to the client.

* `Inv.step`, `doomed_of_timers`: a careful step, and what a careless one leads to;
* `outlasts_iff`: when no call finds an object that is gone, and the assertion of
  `~Connector` holds.
-/

namespace Muduo

open Lib Events

/-! ## The client with its connector -/

inductive LifetimeFailure where
  /-- an assertion of the connector, or of a connection -/
  | assertion (e : Assertion)
  /-- `assert(!channel_)` -/
  | connectorDtor
  /-- a functor or a channel calls a connector that is gone -/
  | deletedConnector
  /-- `newConnectionCallback_` calls a client that is gone -/
  | deletedClient

structure ClientObject where
  client : TcpClient
  connector : Connector
  /-- the timer of `~TcpClient`, with `removeConnector`, has not fired -/
  removeTimer : Bool
  /-- `~Connector` has run -/
  connectorDestructed : Bool

/-- `channel_` is null, and no functor in the queue is bound to the connector. -/
def Connector.Unbound (c : Connector) : Prop := c.channel = none ∧ c.functors = []

def Connector.Step.isTimer : Connector.Step → Bool
  | .timer .. => true
  | _ => false

namespace ClientObject

def new (writeCompleteCallback : Bool) : ClientObject :=
  ⟨.new writeCompleteCallback, .new, false, false⟩

/-- Something has a `shared_ptr` to the connector. -/
def Owned (s : ClientObject) : Prop :=
  s.client.destructed = false ∨ s.removeTimer = true ∨ s.connector.retryTimers ≠ []

instance (s : ClientObject) : Decidable s.Owned :=
  inferInstanceAs (Decidable (_ ∨ _ ∨ _))

/-- A `shared_ptr` to the connector goes. `~Connector` runs behind the last one. -/
def release (s : ClientObject) : Except LifetimeFailure ClientObject :=
  if s.Owned then return s
  else do
    check (s.connector.channel = none) .connectorDtor
    return { s with connectorDestructed := true }

/-- A function of the connector. Each socket that it hands over goes to
`TcpClient::newConnection`, the last thing it does. -/
def onConnector (s : ClientObject) (op : Connector → Checked Connector) :
    Except LifetimeFailure ClientObject := do
  check (s.connectorDestructed = false) .deletedConnector
  let connector ← (op s.connector).mapError .assertion
  let sockets := connector.connections.drop s.connector.connections.length
  check (s.client.destructed = false ∨ sockets = []) .deletedClient
  let client ← (sockets.foldlM (fun (client : TcpClient) _ => client.newConnection)
    s.client).mapError .assertion
  return { s with client, connector }

/-- `~TcpClient`, with its `connector_`. -/
def destructClient (s : ClientObject) (inLoop : Bool) : Except LifetimeFailure ClientObject := do
  let client ← (s.client.destructClient inLoop).mapError .assertion
  match s.client.connection with
  | some _ => release { s with client }
  | none => release { s with client, connector := s.connector.stop, removeTimer := true }

inductive Label where
  /-- `TcpClient::connect` -/
  | connect (inLoop : Bool) (savedErrno : Option Errno)
  /-- `TcpClient::stop` -/
  | stop
  | connector (a : Connector.Step)
  | client (a : TcpClient.Label)
  | destructClient (inLoop : Bool)
  /-- the timer of `~TcpClient` fires -/
  | removeConnector

def Enabled (s : ClientObject) : Label → Prop
  | .connect .. | .stop | .destructClient _ => s.client.destructed = false
  | .connector a => a.ofLoop = true ∧ s.connector.Allowed a ∧
      (a.isFunctor = true → s.connector.functors ≠ [])
  | .client .newConnection | .client (.destructClient _) => False
  | .client a => s.client.Enabled a
  | .removeConnector => s.removeTimer = true

def step (s : ClientObject) : Label → Except LifetimeFailure ClientObject
  | .connect inLoop savedErrno =>
    let s := { s with client := { s.client with connect := true } }
    s.onConnector fun c => c.start inLoop savedErrno
  | .stop =>
    let s := { s with client := { s.client with connect := false } }
    s.onConnector fun c => return c.stop
  | .connector a => do
    let s ← s.onConnector fun c => c.step a
    -- a timer goes when it has fired
    if a.isTimer then s.release else return s
  | .client a => do
    let client ← (s.client.step a).mapError .assertion
    return { s with client }
  | .destructClient inLoop => s.destructClient inLoop
  | .removeConnector => { s with removeTimer := false }.release

/-- No call has found an object that is gone. -/
def Survives : Except LifetimeFailure ClientObject → Prop
  | .ok _ | .error (.assertion _) => True
  | _ => False

/-- Neither the step nor what the loop does with the connector behind it finds an
object that is gone. -/
def Outlasts (s : ClientObject) (a : Label) : Prop :=
  ∀ rest, (∀ b ∈ rest, ∃ x, b = .connector x) → Along step Enabled s (a :: rest) →
    Steps step (fun _ _ o => Survives o) s (a :: rest)

/-- `~TcpClient` with a connection finds a connector that nothing calls and that
will not connect again; its timer finds one that nothing calls. -/
def Careful (s : ClientObject) : Label → Prop
  | .destructClient _ => s.client.connection ≠ none →
      s.connector.Unbound ∧ (s.connector.connect_ = true → s.connector.retryTimers = [])
  | .removeConnector => s.connector.Unbound
  | _ => True

end ClientObject

/-- A timer that finds `connect_` cleared does nothing. -/
theorem Connector.timer_off {c : Connector} (h : c.connect_ = false) (i : Nat)
    (savedErrno : Option Errno) : c.step (.timer i savedErrno) =
      .ok { c with retryTimers := c.retryTimers.eraseIdx i } :=
  startInLoop_off (c := { c with retryTimers := c.retryTimers.eraseIdx i }) h savedErrno

/-! ## The connection of a client -/

namespace TcpClient

/-- `connection_` has not been destructed. -/
def Stands (s : TcpClient) : Prop :=
  ∀ (k : Nat) (c : ClientConnection), s.connection = some k → s.connections[k]? = some c →
    c.destructed = false

/-- From `s` to `s'` nothing is destructed, and `connection_` is at most reset. -/
structure Retains (s s' : TcpClient) : Prop where
  destructed : s'.destructed = s.destructed
  connection : ∀ k, s'.connection = some k → s.connection = some k
  connections : ∀ (k : Nat) (c' : ClientConnection), s'.connections[k]? = some c' →
    ∃ c, s.connections[k]? = some c ∧ c'.destructed = c.destructed

theorem Retains.of_eq {s s' : TcpClient} (h : s'.destructed = s.destructed)
    (hc : s'.connection = s.connection) (hcs : s'.connections = s.connections) : Retains s s' :=
  ⟨h, fun _ hk => hc ▸ hk, fun _ c' hk => ⟨c', hcs ▸ hk, rfl⟩⟩

theorem Retains.refl (s : TcpClient) : Retains s s := .of_eq rfl rfl rfl

theorem Retains.trans {s s' s'' : TcpClient} (h : Retains s s') (h' : Retains s' s'') :
    Retains s s'' := by
  refine ⟨h'.destructed.trans h.destructed, fun k hk => h.connection k (h'.connection k hk), ?_⟩
  intro k c'' hc''
  obtain ⟨c', hc', he'⟩ := h'.connections k c'' hc''
  obtain ⟨c, hc, he⟩ := h.connections k c' hc'
  exact ⟨c, hc, he'.trans he⟩

theorem Retains.stands {s s' : TcpClient} (h : Retains s s') (hs : s.Stands) : s'.Stands := by
  intro k c' hk hc'
  obtain ⟨c, hc, he⟩ := h.connections k c' hc'
  rw [he]
  exact hs k c (h.connection k hk) hc

theorem setConnection_retains {s : TcpClient} {k : Nat} {c c' : ClientConnection}
    (hc : s.connections[k]? = some c) (he : c'.destructed = c.destructed) :
    Retains s (s.setConnection k c') := by
  refine ⟨rfl, fun _ hj => hj, ?_⟩
  intro j d hd
  by_cases hjk : k = j
  · subst hjk
    have hlt : k < s.connections.length := (List.getElem?_eq_some_iff.mp hc).1
    obtain rfl : c' = d := by simpa [setConnection, hlt] using hd
    exact ⟨c, hc, he⟩
  · exact ⟨d, by simpa [setConnection, List.getElem?_set_ne hjk] using hd, rfl⟩

theorem deliver_retains {s s' : TcpClient} {k : Nat} {cb : CloseCallback} {e : Effect}
    (h : deliver k cb s e = .ok s') : Retains s s' := by
  cases e with
  | closeCallback =>
    cases cb with
    | tcpClient =>
      obtain ⟨u, -, h⟩ := bind_eq_ok.mp h
      obtain ⟨v, -, h⟩ := bind_eq_ok.mp h
      cases h
      exact ⟨rfl, by simp, fun _ c' hc' => ⟨c', hc', rfl⟩⟩
    | sockets =>
      cases h
      exact .of_eq rfl rfl rfl
  | _ =>
    cases h
    exact .of_eq rfl rfl rfl

theorem onConnection_retains {s s' : TcpClient} {k destroyed : Nat}
    {op : TcpConnection → Checked TcpConnection} (h : s.onConnection k destroyed op = .ok s') :
    Retains s s' := by
  unfold onConnection at h
  split at h
  · cases h
    exact .refl s
  rename_i c hc
  obtain ⟨u, -, h⟩ := bind_eq_ok.mp h
  obtain ⟨conn, -, h⟩ := bind_eq_ok.mp h
  have hset : Retains s (s.setConnection k { c with
      conn
      closed := c.closed || conn.effects.any Effect.isClose
      destroyed := c.destroyed + destroyed }) := setConnection_retains hc rfl
  refine (run_iff_foldlM.mpr h).invariant (E := fun _ _ => True) (Steps.of_forall fun _ _ => trivial)
    hset ?_
  intro t e t' ht _ he
  exact ht.trans (deliver_retains he)

theorem setCloseCallback_retains (s : TcpClient) (k : Nat) (cb : CloseCallback) :
    Retains s (s.setCloseCallback k cb) := by
  unfold setCloseCallback
  split
  · exact .refl s
  · rename_i c hc
    exact setConnection_retains hc rfl

theorem setHeld_retains (s : TcpClient) (k : Nat) (held : Bool) : Retains s (s.setHeld k held) := by
  unfold setHeld
  split
  · exact .refl s
  · rename_i c hc
    exact setConnection_retains hc rfl

theorem runPending_retains {s s' : TcpClient} {write : WriteResult}
    (h : s.runPending write = .ok s') : Retains s s' := by
  have hpop : Retains s s.pop := .of_eq rfl rfl rfl
  unfold runPending at h
  split at h
  · cases h
    exact .refl s
  · exact hpop.trans (onConnection_retains h)
  · cases h
    exact hpop.trans (setCloseCallback_retains _ _ _)

theorem disconnect_retains {s s' : TcpClient} {inLoop : Bool} {write : WriteResult}
    (h : s.disconnect inLoop write = .ok s') : Retains s s' := by
  have hset : Retains s { s with connect := false } := .of_eq rfl rfl rfl
  unfold disconnect at h
  dsimp only at h
  split at h
  · exact hset.trans (onConnection_retains h)
  · cases h
    exact hset

theorem newConnections_stand (sockets : List Nat) {s : TcpClient} (h : s.Stands) :
    ∃ s', sockets.foldlM (fun (client : TcpClient) _ => client.newConnection) s = .ok s' ∧
      s'.Stands ∧ s'.destructed = s.destructed := by
  induction sockets generalizing s with
  | nil => exact ⟨s, rfl, h, rfl⟩
  | cons sockfd sockets ih =>
    let s₁ : TcpClient := { s with
      connection := some s.connections.length
      connections := s.connections ++
        [⟨TcpConnection.established s.writeCompleteCallback, .tcpClient, false, false, false, 0⟩] }
    have hs₁ : s₁.Stands := by
      intro k c hk hc
      obtain rfl : s.connections.length = k := by simpa [s₁] using hk
      rw [List.getElem?_concat_length] at hc
      cases hc
      rfl
    obtain ⟨s', hs', hstands, hdestructed⟩ := ih hs₁
    refine ⟨s', ?_, hstands, hdestructed⟩
    rw [List.foldlM_cons, newConnection_eq, ok_bind]
    exact hs'

/-- **Step lemma.** Steps of the connections. -/
theorem Stands.step {s s' : TcpClient} (h : s.Stands) {a : Label} (ha : s.Enabled a)
    (hnew : a ≠ .newConnection) (hdestruct : ∀ inLoop, a ≠ .destructClient inLoop)
    (hs : s.step a = .ok s') : s'.Stands ∧ s'.destructed = s.destructed := by
  have hretains : Retains s s' → s'.Stands ∧ s'.destructed = s.destructed :=
    fun hr => ⟨hr.stands h, hr.destructed⟩
  cases a with
  | newConnection => exact absurd rfl hnew
  | destructClient inLoop => exact absurd rfl (hdestruct inLoop)
  | functor write => exact hretains (runPending_retains hs)
  | dispatch k revents read write =>
    have hon : (s.onConnection k 0 fun c => c.handleEvent revents read write) = .ok s' := hs
    exact hretains (onConnection_retains hon)
  | call k inLoop call write =>
    have hon : (s.onConnection k 0 fun c => c.call inLoop write call) = .ok s' := hs
    exact hretains (onConnection_retains hon)
  | disconnect inLoop write => exact hretains (disconnect_retains hs)
  | acquire k =>
    cases hs
    exact hretains (setHeld_retains s k true)
  | release k =>
    cases hs
    exact hretains (setHeld_retains s k false)
  | destruct k =>
    obtain ⟨c, hc, -, -, hk, -⟩ := ha
    simp only [TcpClient.step, destruct, hc] at hs
    obtain ⟨u, -, hs⟩ := bind_eq_ok.mp hs
    cases hs
    refine ⟨?_, rfl⟩
    intro j d hj hd
    have hkj : k ≠ j := by
      rintro rfl
      exact hk hj
    exact h j d hj (by simpa [setConnection, List.getElem?_set_ne hkj] using hd)

/-- A connection that has not been destructed can be told to close itself. -/
theorem forceClose_ok {s : TcpClient} {k : Nat}
    (h : ∀ c, s.connections[k]? = some c → c.destructed = false) :
    ∃ s', (s.onConnection k 0 fun c => return c.forceClose) = .ok s' := by
  unfold onConnection
  split
  · exact ⟨s, rfl⟩
  rename_i c hc
  simp only [check_pos (h c hc), ok_bind, pure_eq_ok, TcpConnection.forceClose]
  split <;> exact ⟨_, rfl⟩

/-- `~TcpClient` runs to its end. -/
theorem Stands.destructClient {s : TcpClient} (h : s.Stands) (inLoop : Bool) :
    ∃ s', s.destructClient inLoop = .ok s' ∧ s'.destructed = true ∧ s'.connection = none := by
  unfold TcpClient.destructClient
  cases hk : s.connection with
  | none => exact ⟨_, rfl, rfl, rfl⟩
  | some k =>
    dsimp only
    let client : TcpClient := { s with destructed := true, connection := none }
    have hset : Retains client (if inLoop then client.setCloseCallback k .sockets
        else client.queneInLoop k (.setCloseCallback .sockets)) := by
      split
      · exact setCloseCallback_retains _ _ _
      · exact .of_eq rfl rfl rfl
    have hdone : ∀ s', Retains client s' → s'.destructed = true ∧ s'.connection = none :=
      fun s' hr => ⟨hr.destructed, Option.eq_none_iff_forall_ne_some.mpr fun j hj => by
        cases hr.connection j hj⟩
    split
    · obtain ⟨s', hs'⟩ := forceClose_ok (k := k) fun c' hc' => by
        obtain ⟨c, hc, he⟩ := hset.connections k c' hc'
        exact he.trans (h k c hk hc)
      exact ⟨s', hs', hdone s' (hset.trans (onConnection_retains hs'))⟩
    · exact ⟨_, rfl, hdone _ hset⟩

end TcpClient

namespace ClientObject

/-! ## The invariant -/

/-- The invariant of careful runs. -/
structure Inv (s : ClientObject) : Prop where
  stands : s.client.Stands
  behind : s.client.destructed = true → (s.Owned → s.connector.connect_ = false) ∧
    (s.removeTimer = true ∨ s.connector.Unbound)
  timer : s.removeTimer = true → s.client.destructed = true
  gone : s.connectorDestructed = true ↔ ¬ s.Owned

/-- The outcome of a careful step. -/
def Kept : Except LifetimeFailure ClientObject → Prop
  | .ok s => s.Inv
  | .error (.assertion _) => True
  | .error _ => False

theorem Kept.survives {o : Except LifetimeFailure ClientObject} (h : Kept o) : Survives o := by
  unfold Kept at h
  split at h
  · trivial
  · trivial
  · exact h.elim

theorem new_inv (writeCompleteCallback : Bool) : (new writeCompleteCallback).Inv := by
  refine ⟨?_, ?_, ?_, ?_⟩
  · intro k c hk
    cases hk
  · intro hd
    cases hd
  · intro ht
    cases ht
  · exact iff_of_false (by simp [new]) (not_not.mpr (.inl rfl))

section Functions

variable {s : ClientObject}

theorem not_owned (h : ¬ s.Owned) :
    s.client.destructed = true ∧ s.removeTimer = false ∧ s.connector.retryTimers = [] := by
  simpa [Owned] using h

theorem Inv.there (h : s.Inv) (howned : s.Owned) : s.connectorDestructed = false :=
  Bool.eq_false_iff.mpr fun hgone => h.gone.mp hgone howned

theorem Inv.no_timer (h : s.Inv) (hd : s.client.destructed = false) : s.removeTimer = false :=
  Bool.eq_false_iff.mpr fun ht => by simp [h.timer ht] at hd

theorem release_owned (h : s.Owned) : s.release = .ok s := if_pos h

theorem release_last (h : ¬ s.Owned) (hch : s.connector.channel = none) :
    s.release = .ok { s with connectorDestructed := true } := by
  rw [release, if_neg h, check_pos hch]
  rfl

theorem release_fails (h : ¬ s.Owned) (hch : s.connector.channel ≠ none) :
    s.release = .error .connectorDtor := by
  rw [release, if_neg h, check_neg hch]
  rfl

theorem release_kept (hstands : s.client.Stands) (hthere : s.connectorDestructed = false)
    (hbehind : s.client.destructed = true → (s.Owned → s.connector.connect_ = false) ∧
      (s.removeTimer = true ∨ s.connector.Unbound))
    (htimer : s.removeTimer = true → s.client.destructed = true) : Kept s.release := by
  by_cases howned : s.Owned
  · rw [release_owned howned]
    exact ⟨hstands, hbehind, htimer, iff_of_false (by simp [hthere]) (not_not.mpr howned)⟩
  · obtain ⟨hd, ht, -⟩ := not_owned howned
    obtain ⟨-, htimer' | hunbound⟩ := hbehind hd
    · simp [ht] at htimer'
    · rw [release_last howned hunbound.1]
      exact ⟨hstands, hbehind, htimer, iff_of_true rfl howned⟩

/-- What a function of the connector does. Behind `~TcpClient` it must not hand
over a socket. -/
theorem onConnector_spec (hthere : s.connectorDestructed = false) (hstands : s.client.Stands)
    (op : Connector → Checked Connector)
    (hcalls : s.client.destructed = true → ∀ c, op s.connector = .ok c →
      c.connections = s.connector.connections) :
    (∃ e, s.onConnector op = .error (.assertion e)) ∨
      ∃ connector client, op s.connector = .ok connector ∧ client.Stands ∧
        client.destructed = s.client.destructed ∧
        s.onConnector op = .ok { s with client, connector } := by
  unfold onConnector
  rw [check_pos hthere, ok_bind]
  cases hop : op s.connector with
  | error e => exact .inl ⟨e, rfl⟩
  | ok connector =>
    right
    obtain ⟨client, hclient, hstands', hdestructed⟩ := TcpClient.newConnections_stand
      (connector.connections.drop s.connector.connections.length) hstands
    have hcheck : s.client.destructed = false ∨
        connector.connections.drop s.connector.connections.length = [] := by
      cases hd : s.client.destructed with
      | false => exact .inl rfl
      | true => exact .inr (by rw [hcalls hd connector hop, List.drop_length])
    refine ⟨connector, client, rfl, hstands', hdestructed, ?_⟩
    dsimp only [Except.mapError, ok_bind]
    rw [check_pos hcheck, ok_bind, hclient]
    rfl

theorem destructClient_spec (hstands : s.client.Stands) (inLoop : Bool) :
    ∃ client : TcpClient, client.destructed = true ∧ client.Stands ∧
      (s.client.connection ≠ none →
        s.step (.destructClient inLoop) = release { s with client }) ∧
      (s.client.connection = none → s.step (.destructClient inLoop) =
        release { s with client, connector := s.connector.stop, removeTimer := true }) := by
  obtain ⟨client, hclient, hd, hnone⟩ := hstands.destructClient inLoop
  refine ⟨client, hd, fun k c hk => by simp [hnone] at hk, ?_, ?_⟩
  · intro hk
    obtain ⟨k, hk⟩ := Option.ne_none_iff_exists'.mp hk
    simp only [ClientObject.step, ClientObject.destructClient, hclient, hk]
    rfl
  · intro hk
    simp only [ClientObject.step, ClientObject.destructClient, hclient, hk]
    rfl

/-- As long as the client is there, everything is kept. -/
theorem Inv.onConnector (h : s.Inv) (hd : s.client.destructed = false)
    (op : Connector → Checked Connector) :
    (∃ e, s.onConnector op = .error (.assertion e)) ∨
      ∃ s', s.onConnector op = .ok s' ∧ s'.Inv ∧ s'.Owned := by
  rcases onConnector_spec (h.there (.inl hd)) h.stands op (by simp [hd]) with
    he | ⟨connector, client, -, hstands, hd', heq⟩
  · exact .inl he
  · right
    rw [hd] at hd'
    refine ⟨_, heq, ⟨hstands, by simp [hd'], ?_, ?_⟩, .inl hd'⟩
    · intro ht
      simp [h.timer ht] at hd
    · exact iff_of_false (by simp [h.there (.inl hd)]) (not_not.mpr (.inl hd'))

end Functions

/-! ## Careful steps -/

theorem enabled_client {s : ClientObject} {a : TcpClient.Label} (h : s.Enabled (.client a)) :
    s.client.Enabled a ∧ a ≠ .newConnection ∧ ∀ inLoop, a ≠ .destructClient inLoop := by
  cases a <;> first | exact h.elim | exact ⟨h, by simp, by simp⟩

/-- With nothing bound to the connector, all that is left to fire are the timers. -/
theorem timer_of_unbound {s : ClientObject} (h : s.connector.Unbound) {a : Connector.Step}
    (ha : s.Enabled (.connector a)) :
    ∃ i savedErrno, a = .timer i savedErrno ∧ i < s.connector.retryTimers.length := by
  obtain ⟨hloop, hallowed, hqueue⟩ := ha
  cases a with
  | timer i savedErrno => exact ⟨i, savedErrno, rfl, hallowed⟩
  | dispatch revents err selfConnect =>
    obtain ⟨x, hx, -⟩ := hallowed
    simp [h.1] at hx
  | functor savedErrno => exact absurd h.2 (hqueue rfl)
  | _ => cases hloop

/-- The loop does something with the connector. -/
theorem Inv.connector {s : ClientObject} (h : s.Inv) {a : Connector.Step}
    (ha : s.Enabled (.connector a)) : Kept (s.step (.connector a)) := by
  unfold step
  dsimp only
  cases hd : s.client.destructed with
  | false =>
    rcases h.onConnector hd fun c => c.step a with ⟨e, he⟩ | ⟨s', hs', hinv, howned⟩
    · rw [he]
      trivial
    · rw [hs', ok_bind, release_owned howned, pure_eq_ok, ite_self]
      exact hinv
  | true =>
    obtain ⟨hoff, hleft⟩ := h.behind hd
    have hthere : s.Owned := by
      by_contra hgone
      obtain ⟨-, ht, htimers⟩ := not_owned hgone
      obtain ⟨i, -, -, hi⟩ := timer_of_unbound (hleft.resolve_left (by simp [ht])) ha
      simp [htimers] at hi
    have hconnect := hoff hthere
    have hstarts : ¬ a.Starts := by
      have hloop := ha.1
      cases a <;> first | exact id | cases hloop
    have hfades : ∀ c, s.connector.step a = .ok c → (s.connector.popped a).Fades c :=
      fun c hc => Connector.step_fades hconnect hstarts hc
    rcases onConnector_spec (h.there hthere) h.stands (fun c => c.step a)
      (fun _ c hc => (hfades c hc).connections.trans (s.connector.popped_connections a)) with
      ⟨e, he⟩ | ⟨connector, client, hc, hstands, hd', heq⟩
    · rw [he]
      trivial
    rw [heq, ok_bind]
    rw [hd] at hd'
    cases htimer : a.isTimer with
    | true =>
      cases a with
      | timer i savedErrno =>
        cases (Connector.timer_off hconnect i savedErrno).symm.trans hc
        exact release_kept hstands (h.there hthere) (fun _ => ⟨fun _ => hconnect, hleft⟩) fun _ => hd'
      | _ => cases htimer
    | false =>
      have ht : s.removeTimer = true := by
        refine hleft.resolve_right fun hunbound => ?_
        obtain ⟨i, savedErrno, rfl, -⟩ := timer_of_unbound hunbound ha
        cases htimer
      refine ⟨hstands, fun _ => ⟨fun _ => (hfades connector hc).connect_, .inl ht⟩, fun _ => hd', ?_⟩
      exact iff_of_false (by simp [h.there hthere]) (not_not.mpr (.inr (.inl ht)))

/-- **Every careful step is kept.** -/
theorem Inv.step {s : ClientObject} (h : s.Inv) {a : Label} (ha : s.Enabled a)
    (hcareful : s.Careful a) : Kept (s.step a) := by
  have hset : ∀ connect, ({ s with client := { s.client with connect } } : ClientObject).Inv :=
    fun _ => ⟨h.stands, h.behind, h.timer, h.gone⟩
  cases a with
  | connect inLoop savedErrno =>
    rcases (hset true).onConnector ha fun c => c.start inLoop savedErrno with
      ⟨e, he⟩ | ⟨s', hs', hinv, -⟩
    · rw [ClientObject.step, he]
      trivial
    · rw [ClientObject.step, hs']
      exact hinv
  | stop =>
    rcases (hset false).onConnector ha fun c => return c.stop with ⟨e, he⟩ | ⟨s', hs', hinv, -⟩
    · rw [ClientObject.step, he]
      trivial
    · rw [ClientObject.step, hs']
      exact hinv
  | connector a => exact h.connector ha
  | client a =>
    obtain ⟨ha', hnew, hdestruct⟩ := enabled_client ha
    unfold ClientObject.step
    dsimp only
    cases hs : s.client.step a with
    | error e => trivial
    | ok client =>
      obtain ⟨hstands, hd⟩ := h.stands.step ha' hnew hdestruct hs
      have howned : ({ s with client } : ClientObject).Owned ↔ s.Owned := by simp [Owned, hd]
      exact ⟨hstands, fun hd' => ⟨fun ho => (h.behind (hd ▸ hd')).1 (howned.mp ho),
        (h.behind (hd ▸ hd')).2⟩, fun ht => hd.trans (h.timer ht), h.gone.trans howned.not.symm⟩
  | destructClient inLoop =>
    obtain ⟨client, hd, hstands, hsome, hnone⟩ := destructClient_spec h.stands inLoop
    have hthere := h.there (.inl ha)
    have ht := h.no_timer ha
    by_cases hk : s.client.connection = none
    · rw [hnone hk]
      exact release_kept hstands hthere (fun _ => ⟨fun _ => rfl, .inl rfl⟩) fun _ => hd
    · rw [hsome hk]
      obtain ⟨hunbound, hretries⟩ := hcareful hk
      refine release_kept hstands hthere (fun _ => ⟨fun howned => ?_, .inr hunbound⟩) (by simp [ht])
      have htimers : s.connector.retryTimers ≠ [] := by simpa [Owned, hd, ht] using howned
      exact Bool.eq_false_iff.mpr fun hconnect => htimers (hretries hconnect)
  | removeConnector =>
    have hd := h.timer ha
    have howned : s.Owned := .inr (.inl ha)
    exact release_kept h.stands (h.there howned)
      (fun _ => ⟨fun _ => (h.behind hd).1 howned, .inr hcareful⟩) (by simp)

/-! ## Careless steps -/

/-- The loop alone comes to a call that finds an object that is gone. -/
def Doomed (s : ClientObject) : Prop :=
  ∃ rest, (∀ b ∈ rest, ∃ x, b = .connector x) ∧ Along ClientObject.step Enabled s rest ∧
    ¬ Steps ClientObject.step (fun _ _ o => Survives o) s rest

theorem Doomed.not_outlasts {s s' : ClientObject} (h : s'.Doomed) {a : Label} (ha : s.Enabled a)
    (hs : s.step a = .ok s') : ¬ s.Outlasts a := by
  obtain ⟨rest, hrest, halong, hnot⟩ := h
  intro hout
  exact hnot ((steps_cons_ok hs).mp (hout rest hrest ((steps_cons_ok hs).mpr ⟨ha, halong⟩))).2

theorem doomed_of_not_outlasts {s : ClientObject} {x : Connector.Step}
    (h : ¬ s.Outlasts (.connector x)) : s.Doomed := by
  obtain ⟨rest, hrest, halong, hnot⟩ : ∃ rest, (∀ b ∈ rest, ∃ x, b = .connector x) ∧
      Along ClientObject.step Enabled s (.connector x :: rest) ∧
        ¬ Steps ClientObject.step (fun _ _ o => Survives o) s (.connector x :: rest) := by
    simpa only [Outlasts, not_forall, exists_prop] using h
  refine ⟨.connector x :: rest, ?_, halong, hnot⟩
  intro b hb
  rcases List.mem_cons.mp hb with rfl | hb
  · exact ⟨x, rfl⟩
  · exact hrest b hb

/-- The last `shared_ptr` goes while something is bound to the connector. -/
theorem not_outlasts_of_release {s s' : ClientObject} {a : Label} (ha : s.Enabled a)
    (hs : s.step a = s'.release) (hlast : ¬ s'.Owned) (hbound : ¬ s'.connector.Unbound) :
    ¬ s.Outlasts a := by
  by_cases hch : s'.connector.channel = none
  · -- the next functor calls a connector that is gone
    rw [release_last hlast hch] at hs
    refine Doomed.not_outlasts ?_ ha hs
    have hfs : s'.connector.functors ≠ [] := fun hfs => hbound ⟨hch, hfs⟩
    refine ⟨[.connector (.functor none)], by simp, ⟨⟨rfl, trivial, fun _ => hfs⟩, fun _ _ => trivial⟩, ?_⟩
    intro hsteps
    exact hsteps.1
  · rw [release_fails hlast hch] at hs
    intro hout
    have hsteps := hout [] (by simp) ⟨ha, fun _ _ => trivial⟩
    rw [steps_cons_error hs] at hsteps
    exact hsteps

/-- What a retry timer of a client that is gone comes to. -/
theorem timer_step {s : ClientObject} (hthere : s.connectorDestructed = false) {i : Nat}
    {savedErrno : Option Errno} {c : Connector} (hc : s.connector.step (.timer i savedErrno) = .ok c)
    (hsame : c.connections = s.connector.connections) :
    s.step (.connector (.timer i savedErrno)) = ({ s with connector := c } : ClientObject).release := by
  have hdrop : c.connections.drop s.connector.connections.length = [] := by
    rw [hsame, List.drop_length]
  have hon : (s.onConnector fun c => c.step (.timer i savedErrno)) = .ok { s with connector := c } := by
    unfold onConnector
    rw [check_pos hthere, ok_bind]
    dsimp only
    rw [hc]
    dsimp only [Except.mapError, ok_bind]
    rw [check_pos (.inr hdrop), ok_bind, hdrop]
    rfl
  rw [ClientObject.step, hon]
  rfl

/-- A retry timer whose attempt, if it makes one, ends in an error. -/
theorem timer_closes (c : Connector) {d : Nat} {ds : List Nat} (hds : c.retryTimers = d :: ds) :
    ∃ c', c.step (.timer 0 (some (.other 13))) = .ok c' ∧ c'.connect_ = c.connect_ ∧
      c'.channel = c.channel ∧ c'.functors = c.functors ∧ c'.retryTimers = ds ∧
        c'.connections = c.connections := by
  have hstep : c.step (.timer 0 (some (.other 13))) =
      ({ c with retryTimers := ds } : Connector).startInLoop (some (.other 13)) := by
    simp [Connector.step, hds]
  rw [hstep]
  unfold Connector.startInLoop
  split <;> exact ⟨_, rfl, rfl, rfl, rfl, rfl, rfl⟩

/-- A retry timer whose attempt begins. -/
theorem timer_connects {c : Connector} {d : Nat} {ds : List Nat} (hds : c.retryTimers = d :: ds)
    (hconnect : c.connect_ = true) (hch : c.channel = none) :
    ∃ c', c.step (.timer 0 none) = .ok c' ∧ c'.channel ≠ none ∧ c'.retryTimers = ds ∧
      c'.connections = c.connections := by
  have hstep : c.step (.timer 0 none) =
      ({ c with retryTimers := ds } : Connector).startInLoop none := by
    simp [Connector.step, hds]
  have henable : Channel.new.enableWriting = .ok (Connector.writing false) := rfl
  rw [hstep]
  refine ⟨{ c with
    state := .kConnecting
    retryTimers := ds
    created := c.created + 1
    channel := some ⟨c.created, Connector.writing false⟩
    attempts := c.attempts ++ [c.created] }, ?_, by simp, rfl, rfl⟩
  simp [Connector.startInLoop, hconnect, Connector.connect, Connector.branch, Connector.connecting,
    Connector.setState, hch, check_pos, henable]

/-- The timers hold a connector that will connect, or that something is bound to. -/
theorem doomed_of_timers {s : ClientObject} (hthere : s.connectorDestructed = false)
    (hd : s.client.destructed = true) (ht : s.removeTimer = false)
    (htimers : s.connector.retryTimers ≠ [])
    (hbound : s.connector.connect_ = true ∨ ¬ s.connector.Unbound) : s.Doomed := by
  generalize hds : s.connector.retryTimers = ds at htimers
  induction ds generalizing s with
  | nil => exact absurd rfl htimers
  | cons d ds ih =>
    have ha : ∀ savedErrno, s.Enabled (.connector (.timer 0 savedErrno)) :=
      fun _ => ⟨rfl, by simp [Connector.Allowed, hds], by simp [Connector.Step.isFunctor]⟩
    obtain ⟨c, hc, hconnect, hch, hfs, hds', hsame⟩ := timer_closes s.connector hds
    have hstep := timer_step hthere hc hsame
    have hunbound : c.Unbound ↔ s.connector.Unbound := by
      rw [Connector.Unbound, Connector.Unbound, hch, hfs]
    cases ds with
    | cons d' ds' =>
      -- another timer is left
      apply doomed_of_not_outlasts
      have howned : ({ s with connector := c } : ClientObject).Owned := .inr (.inr (by simp [hds']))
      rw [release_owned howned] at hstep
      refine Doomed.not_outlasts (ih (s := { s with connector := c }) hthere hd ht ?_ hds' (by simp))
        (ha _) hstep
      dsimp only
      rw [hconnect, hunbound]
      exact hbound
    | nil =>
      by_cases hub : s.connector.Unbound
      · -- the last attempt has a channel when its timer goes
        obtain ⟨c, hc, hch, hds', hsame⟩ :=
          timer_connects hds (hbound.resolve_right (not_not.mpr hub)) hub.1
        exact doomed_of_not_outlasts (not_outlasts_of_release (ha none) (timer_step hthere hc hsame)
          (by simp [Owned, hd, ht, hds']) fun h => hch h.1)
      · exact doomed_of_not_outlasts (not_outlasts_of_release (ha _) hstep
          (by simp [Owned, hd, ht, hds']) (hunbound.not.mpr hub))

theorem Inv.outlasts_iff_careful {s : ClientObject} (h : s.Inv) {a : Label} (ha : s.Enabled a) :
    s.Outlasts a ↔ s.Careful a := by
  constructor
  · contrapose
    intro hcareless
    cases a with
    | destructClient inLoop =>
      obtain ⟨client, hd, -, hsome, -⟩ := destructClient_spec h.stands inLoop
      obtain ⟨hk, hbound⟩ : s.client.connection ≠ none ∧ ¬ (s.connector.Unbound ∧
          (s.connector.connect_ = true → s.connector.retryTimers = [])) := by
        simpa only [Careful, Classical.not_imp] using hcareless
      have hthere := h.there (.inl ha)
      have ht := h.no_timer ha
      have hs := hsome hk
      by_cases htimers : s.connector.retryTimers = []
      · exact not_outlasts_of_release ha hs (by simp [Owned, hd, ht, htimers])
          fun hub => hbound ⟨hub, fun _ => htimers⟩
      · have howned : ({ s with client } : ClientObject).Owned := .inr (.inr htimers)
        rw [release_owned howned] at hs
        have hheld : s.connector.connect_ = true ∨ ¬ s.connector.Unbound := by
          rw [not_and_or] at hbound
          exact hbound.symm.imp (fun h => by simpa [htimers] using h) id
        exact (doomed_of_timers (s := { s with client }) hthere hd ht htimers hheld).not_outlasts ha hs
    | removeConnector =>
      have hd := h.timer ha
      have hthere : s.connectorDestructed = false := h.there (.inr (.inl ha))
      have hs : s.step .removeConnector = ({ s with removeTimer := false } : ClientObject).release := rfl
      by_cases htimers : s.connector.retryTimers = []
      · exact not_outlasts_of_release ha hs (by simp [Owned, hd, htimers]) hcareless
      · have howned : ({ s with removeTimer := false } : ClientObject).Owned := .inr (.inr htimers)
        rw [release_owned howned] at hs
        exact (doomed_of_timers (s := { s with removeTimer := false }) hthere hd rfl htimers
          (.inr hcareless)).not_outlasts ha hs
    | _ => exact absurd trivial hcareless
  · intro hcareful rest hrest halong
    have hall : Along ClientObject.step Careful s (a :: rest) := by
      refine ⟨hcareful, fun s' _ => (Steps.of_forall hrest).mono ?_⟩
      rintro _ _ _ ⟨x, rfl⟩
      trivial
    refine Steps.of_invariant (E := fun s a => s.Enabled a ∧ s.Careful a)
      (fun s a hs ha => (hs.step ha.1 ha.2).survives) ?_ h (halong.and hall)
    intro s a s' hs ha hs'
    have hkept := hs.step ha.1 ha.2
    rw [hs'] at hkept
    exact hkept

/-- **How long a connector is there.** In every run of a client, its connections and
its connector, no step finds an object that is gone or fails `assert(!channel_)`,
whatever the loop then does with the connector, exactly if `~TcpClient` with a
connection always finds a connector that has neither a channel nor functors and
will not connect again, and its timer one that has neither a channel nor functors. -/
theorem outlasts_iff (writeCompleteCallback : Bool) (steps : List Label)
    (hsteps : Along step Enabled (new writeCompleteCallback) steps) :
    Steps step (fun s a _ => s.Outlasts a) (new writeCompleteCallback) steps ↔
      Along step Careful (new writeCompleteCallback) steps := by
  apply steps_iff (I := Inv) _ _ (new_inv _) hsteps
  · intro s a hs ha
    exact hs.outlasts_iff_careful ha
  · intro s a s' hs ha hcareful hs'
    have hkept := hs.step ha hcareful
    rw [hs'] at hkept
    exact hkept

/-- The client goes during the first attempt, and its timer fires behind
`stopInLoop` and `resetChannel`. -/
def goesConnecting : List Label :=
  [.connect true (some .EINPROGRESS), .destructClient true, .connector (.functor none),
   .connector (.functor none), .removeConnector]

theorem outlasts_iff_goesConnecting :
    Steps step (fun s a _ => s.Outlasts a) (new false) goesConnecting := by
  refine (outlasts_iff false goesConnecting ?_).mpr ?_
  · refine (steps_cons_ok rfl).mpr ⟨rfl, ?_⟩
    refine (steps_cons_ok rfl).mpr ⟨rfl, ?_⟩
    refine (steps_cons_ok rfl).mpr ⟨⟨rfl, trivial, fun _ => List.cons_ne_nil _ _⟩, ?_⟩
    refine (steps_cons_ok rfl).mpr ⟨⟨rfl, trivial, fun _ => List.cons_ne_nil _ _⟩, ?_⟩
    exact ⟨rfl, fun _ _ => trivial⟩
  · refine (steps_cons_ok rfl).mpr ⟨trivial, ?_⟩
    refine (steps_cons_ok rfl).mpr ⟨fun hk => absurd rfl hk, ?_⟩
    refine (steps_cons_ok rfl).mpr ⟨trivial, ?_⟩
    refine (steps_cons_ok rfl).mpr ⟨trivial, ?_⟩
    exact ⟨⟨rfl, rfl⟩, fun _ _ => trivial⟩

end ClientObject

end Muduo
