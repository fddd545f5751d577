import Muduo.TcpServer

/-!
Who closes the descriptor of an accepted connection. `handleClose` leaves it to
the destructor, the destructor of the connection to that of its `socket_`, and
`Socket::~Socket` is empty. The step relation is that of the server, with the
descriptors that the process has open beside it.
-/

namespace Muduo

open Lib Events

/-- `Socket::~Socket`: the descriptors that it closes. -/
def Socket.dtor (_sockfd : Nat) : List Nat := []

/-- A server with the descriptors of its connections. -/
structure ServerDescriptors where
  server : TcpServer
  /-- `sockfd_` of the `socket_` of each accepted connection -/
  sockfds : List Nat
  /-- the connection descriptors that the process has open -/
  opened : List Nat
  /-- the connections whose descriptor has been closed, one entry a `close(2)` -/
  closed : List Nat

namespace ServerDescriptors

def new (server : TcpServer) : ServerDescriptors := ⟨server, [], [], []⟩

/-- The calls of `close(2)` on descriptors of the connection `k`. -/
def close (d : ServerDescriptors) (k : Nat) (fds : List Nat) : ServerDescriptors :=
  { d with
    opened := d.opened.filter fun fd => fd ∉ fds
    closed := d.closed ++ fds.map fun _ => k }

inductive Label where
  /-- `Acceptor::handleRead`; `connfd` is what `accept4(2)` returns -/
  | handleRead (connfd : Int)
  /-- any other step of the server -/
  | server (a : TcpServer.Label)

/-- The kernel hands out a descriptor that is not open. -/
def Enabled (d : ServerDescriptors) : Label → Prop
  | .handleRead connfd => ∀ fd : Nat, connfd = fd → fd ∉ d.opened
  | .server a => a ≠ .newConnection ∧ d.server.Enabled a

def step (d : ServerDescriptors) : Label → Checked ServerDescriptors
  | .handleRead (.ofNat connfd) => do
    let server ← d.server.newConnection
    return { d with
      server := server
      sockfds := d.sockfds ++ [connfd]
      opened := d.opened ++ [connfd] }
  | .handleRead (.negSucc _) => return d
  | .server (.destruct k) => do
    let server ← d.server.destruct k
    -- the members go behind the body of `~TcpConnection`
    return { d with server := server }.close k (Socket.dtor (d.sockfds.getD k 0))
  | .server a => do
    let server ← d.server.step a
    return { d with server := server }

/-- The descriptor of every connection is closed once it has been destructed,
behind its removal from the poller, once, and not before. -/
structure ClosedOnce (d : ServerDescriptors) : Prop where
  once : ∀ k c, d.server.accepted[k]? = some c →
    d.closed.count k = if c.destructed then 1 else 0
  behind : ∀ k c, d.server.accepted[k]? = some c → k ∈ d.closed → c.conn.channel.mapped = false
  opened : d.opened.length = d.server.accepted.countP fun c => !c.destructed

end ServerDescriptors

/-! ## Which connections have been destructed -/

namespace TcpServer

/-- Which of the accepted connections have been destructed. -/
def gone (s : TcpServer) : List Bool := s.accepted.map Accepted.destructed

theorem gone_setAccepted {s : TcpServer} {k : Nat} {c c' : Accepted} (hk : s.accepted[k]? = some c)
    (hd : c'.destructed = c.destructed) : (s.setAccepted k c').gone = s.gone := by
  obtain ⟨hlt, rfl⟩ := List.getElem?_eq_some_iff.mp hk
  apply List.ext_getElem? fun j => ?_
  by_cases hj : k = j
  · subst hj
    simp [gone, setAccepted, hlt, hd]
  · simp [gone, setAccepted, List.getElem?_set_ne hj]

theorem gone_removeConnectionInLoop {s s' : TcpServer} {k : Nat}
    (h : s.removeConnectionInLoop k = .ok s') : s'.gone = s.gone := by
  unfold removeConnectionInLoop at h
  cases hk : s.accepted[k]? with
  | none =>
    rw [hk] at h
    cases h
    rfl
  | some c =>
    rw [hk] at h
    obtain ⟨u, -, h⟩ := bind_eq_ok.mp h
    cases h
    exact gone_setAccepted (s := { s with connections := _ }) hk rfl

theorem gone_removeConnection {s s' : TcpServer} {k loop : Nat}
    (h : s.removeConnection k loop = .ok s') : s'.gone = s.gone := by
  unfold removeConnection at h
  split at h
  · exact gone_removeConnectionInLoop h
  · cases h
    rfl

theorem gone_deliver {s s' : TcpServer} {k loop : Nat} {e : Effect}
    (h : deliver k loop s e = .ok s') : s'.gone = s.gone := by
  cases e with
  | closeCallback => exact gone_removeConnection h
  | _ =>
    cases h
    rfl

theorem gone_onConnection {s s' : TcpServer} {k : Nat} {ms : List Milestone}
    {op : TcpConnection → Checked TcpConnection} (h : s.onConnection k ms op = .ok s') :
    s'.gone = s.gone := by
  unfold onConnection at h
  cases hk : s.accepted[k]? with
  | none =>
    rw [hk] at h
    cases h
    rfl
  | some c =>
    rw [hk] at h
    obtain ⟨u, -, h⟩ := bind_eq_ok.mp h
    obtain ⟨conn, -, h⟩ := bind_eq_ok.mp h
    have hset : (s.setAccepted k { c with conn, log := c.log ++ ms }).gone = s.gone :=
      gone_setAccepted hk rfl
    refine (run_iff_foldlM.mpr h).invariant (I := fun t => t.gone = s.gone) (E := fun _ _ => True)
      (Steps.of_forall fun _ _ => trivial) hset ?_
    intro t e t' ht _ hs
    exact (gone_deliver hs).trans ht

theorem gone_newConnection {s s' : TcpServer} (h : s.newConnection = .ok s') :
    s'.gone = s.gone ++ [false] := by
  obtain ⟨u, -, h⟩ := bind_eq_ok.mp h
  have hadd : ∀ ioLoop next, (s.addConnection ioLoop next).gone = s.gone ++ [false] := by
    intro ioLoop next
    simp [gone, addConnection, Accepted.new]
  rw [← hadd s.getNextLoop.1 s.getNextLoop.2]
  simp only at h
  split at h
  · exact gone_onConnection h
  · cases h
    rfl

theorem gone_runPending {s s' : TcpServer} {loop : Nat} {write : WriteResult}
    (h : s.runPending loop write = .ok s') : s'.gone = s.gone := by
  unfold runPending at h
  split at h
  · cases h
    rfl
  · exact gone_onConnection (s := s.pop loop) h
  · exact gone_removeConnectionInLoop (s := s.pop loop) h

theorem gone_setHeld (s : TcpServer) (k : Nat) (held : Bool) : (s.setHeld k held).gone = s.gone := by
  unfold setHeld
  cases hk : s.accepted[k]? with
  | none => rfl
  | some c => exact gone_setAccepted hk rfl

/-- Only `newConnection` and `~TcpConnection` change the connections there are. -/
theorem gone_step {s s' : TcpServer} {a : Label} (hnew : a ≠ .newConnection)
    (hdtor : ∀ k, a ≠ .destruct k) (h : s.step a = .ok s') : s'.gone = s.gone := by
  cases a with
  | newConnection => exact absurd rfl hnew
  | destruct k => exact absurd rfl (hdtor k)
  | functor loop write => exact gone_runPending h
  | dispatch k revents read write =>
    simp only [step] at h
    exact gone_onConnection h
  | call k inLoop c write =>
    simp only [step] at h
    exact gone_onConnection h
  | acquire k =>
    cases h
    exact gone_setHeld s k true
  | release k =>
    cases h
    exact gone_setHeld s k false

theorem length_destruct {s s' : TcpServer} {k : Nat} (h : s.destruct k = .ok s') :
    s'.gone.length = s.gone.length := by
  unfold destruct at h
  split at h
  · cases h
    rfl
  · obtain ⟨u, -, h⟩ := bind_eq_ok.mp h
    cases h
    simp [gone, setAccepted]

/-- `~TcpConnection` has passed. -/
theorem gone_destruct {s s' : TcpServer} {k : Nat} {c : Accepted} (hk : s.accepted[k]? = some c)
    (h : s.destruct k = .ok s') : true ∈ s'.gone := by
  simp only [destruct, hk] at h
  obtain ⟨u, -, h⟩ := bind_eq_ok.mp h
  cases h
  have hlt := (List.getElem?_eq_some_iff.mp hk).1
  refine List.mem_map.mpr ⟨_, List.mem_of_getElem? (List.getElem?_set_self hlt), rfl⟩

end TcpServer

/-! ## Runs -/

namespace ServerDescriptors

/-- Nothing has been closed. -/
structure Inv (d : ServerDescriptors) : Prop where
  closed : d.closed = []
  opened : d.opened.length = d.server.gone.length

/-- No connection has been destructed. -/
def AllLive (d : ServerDescriptors) : Prop := true ∉ d.server.gone

theorem allLive_iff (d : ServerDescriptors) :
    d.AllLive ↔ ∀ (k : Nat) c, d.server.accepted[k]? = some c → c.destructed = false := by
  unfold AllLive TcpServer.gone
  constructor
  · intro h k c hk
    by_contra hd
    exact h (List.mem_map.mpr ⟨c, List.mem_of_getElem? hk, by simpa using hd⟩)
  · intro h hmem
    obtain ⟨c, hc, hd⟩ := List.mem_map.mp hmem
    obtain ⟨k, hk⟩ := List.getElem?_of_mem hc
    simp [h k c hk] at hd

theorem Inv.closedOnce_iff {d : ServerDescriptors} (h : d.Inv) : d.ClosedOnce ↔ d.AllLive := by
  rw [allLive_iff]
  constructor
  · intro hd k c hk
    have hcount := hd.once k c hk
    rw [h.closed] at hcount
    by_contra hc
    simp [hc] at hcount
  · intro hlive
    refine ⟨fun k c hk => ?_, fun k c _ hk => ?_, ?_⟩
    · simp [h.closed, hlive k c hk]
    · simp [h.closed] at hk
    · have hall : d.server.accepted.countP (fun c => !c.destructed) = d.server.accepted.length := by
        apply List.countP_eq_length.mpr
        intro c hc
        obtain ⟨k, hk⟩ := List.getElem?_of_mem hc
        simp [hlive k c hk]
      rw [hall, h.opened, TcpServer.gone, List.length_map]

/-- A step in which no connection goes. -/
theorem Inv.step_server {d d' : ServerDescriptors} (h : d.Inv) {a : TcpServer.Label}
    (hnew : a ≠ .newConnection) (hdtor : ∀ k, a ≠ .destruct k)
    (hs : d.step (.server a) = .ok d') : d'.Inv ∧ (d'.AllLive ↔ d.AllLive) := by
  have hstep : ∃ server, d.server.step a = .ok server ∧ d' = { d with server := server } := by
    cases a with
    | destruct k => exact absurd rfl (hdtor k)
    | _ =>
      obtain ⟨server, hserver, hd⟩ := bind_eq_ok.mp hs
      exact ⟨server, hserver, (Except.ok.inj hd).symm⟩
  obtain ⟨server, hserver, rfl⟩ := hstep
  have hgone := TcpServer.gone_step hnew hdtor hserver
  exact ⟨⟨h.closed, hgone ▸ h.opened⟩, by rw [AllLive, AllLive, hgone]⟩

theorem Inv.handleRead {d d' : ServerDescriptors} (h : d.Inv) {connfd : Int}
    (hs : d.step (.handleRead connfd) = .ok d') : d'.Inv ∧ (d'.AllLive ↔ d.AllLive) := by
  cases connfd with
  | negSucc n =>
    cases hs
    exact ⟨h, Iff.rfl⟩
  | ofNat fd =>
    obtain ⟨server, hserver, hd⟩ := bind_eq_ok.mp hs
    cases hd
    have hgone := TcpServer.gone_newConnection hserver
    refine ⟨⟨h.closed, ?_⟩, ?_⟩
    · simp [hgone, h.opened]
    · simp [AllLive, hgone]

/-- `~TcpConnection` passes, and closes nothing. -/
theorem Inv.destruct {d d' : ServerDescriptors} (h : d.Inv) {k : Nat}
    (ha : d.Enabled (.server (.destruct k))) (hs : d.step (.server (.destruct k)) = .ok d') :
    d'.Inv ∧ ¬ d'.AllLive := by
  obtain ⟨-, c, hk, -⟩ := ha
  obtain ⟨server, hserver, hd⟩ := bind_eq_ok.mp hs
  cases hd
  have hlen := TcpServer.length_destruct hserver
  refine ⟨⟨?_, ?_⟩, not_not.mpr (TcpServer.gone_destruct hk hserver)⟩
  · simp [close, Socket.dtor, h.closed]
  · simpa [close, Socket.dtor, hlen] using h.opened

/-- **Who closes a descriptor.** At the end of a run every descriptor of a
destructed connection has been closed exactly if no connection has been
destructed. -/
theorem descriptors_closed_once_iff (ipPort : IpPort) (name : String) (writeCompleteCallback : Bool)
    (numThreads : Nat) {steps : List Label} {d : ServerDescriptors}
    (hrun : Run step (new (.new ipPort name writeCompleteCallback numThreads)) steps d)
    (hsteps : Along step Enabled (new (.new ipPort name writeCompleteCallback numThreads)) steps) :
    d.ClosedOnce ↔ ∀ k, .server (.destruct k) ∉ steps := by
  have hstep : ∀ s a s', Inv s → s.Enabled a → s.step a = .ok s' →
      s'.Inv ∧ (s'.AllLive ↔ s.AllLive ∧ ∀ k, a ≠ .server (.destruct k)) := by
    intro s a s' h ha hs
    cases a with
    | handleRead connfd =>
      obtain ⟨h', hlive⟩ := h.handleRead hs
      exact ⟨h', by simp [hlive]⟩
    | server a =>
      by_cases hdtor : ∀ k, a ≠ .destruct k
      · obtain ⟨h', hlive⟩ := h.step_server ha.1 hdtor hs
        exact ⟨h', by simp [hlive, hdtor]⟩
      · obtain ⟨k, rfl⟩ : ∃ k, a = .destruct k := by simpa using hdtor
        obtain ⟨h', hlive⟩ := h.destruct ha hs
        exact ⟨h', by simp [hlive]⟩
  have hinit : (new (.new ipPort name writeCompleteCallback numThreads)).Inv := ⟨rfl, rfl⟩
  have hinv : d.Inv :=
    hrun.invariant hsteps hinit fun s a s' h ha hs => (hstep s a s' h ha hs).1
  have hexact := hrun.holds_iff hsteps hinit (fun s a s' h ha hs => (hstep s a s' h ha hs).1)
    fun s a s' h ha hs => (hstep s a s' h ha hs).2
  rw [hinv.closedOnce_iff, hexact, hrun.along_iff]
  constructor
  · intro h k hk
    exact h.2 _ hk k rfl
  · intro h
    refine ⟨by simp [AllLive, TcpServer.gone, new, TcpServer.new], fun a ha k hk => ?_⟩
    exact h k (hk ▸ ha)

/-- One connection, which its user closes. -/
def closes : List Label :=
  [.handleRead 5, .server (.acquire 0), .server (.call 0 true .forceClose (.written 0)),
   .server (.release 0), .server (.functor 0 (.written 0)), .server (.functor 0 (.written 0))]

/-- The server of the samples. -/
def echo : ServerDescriptors := new (.new ⟨"0.0.0.0:80", by decide⟩ "echo" false 0)

theorem closes_enabled : Along step Enabled echo closes := by
  apply (steps_cons_ok rfl).mpr
  constructor
  · intro fd _
    exact List.not_mem_nil
  apply (steps_cons_ok rfl).mpr
  refine ⟨⟨nofun, _, rfl, rfl, .head _⟩, ?_⟩
  apply (steps_cons_ok rfl).mpr
  refine ⟨⟨nofun, _, rfl, rfl, trivial⟩, ?_⟩
  apply (steps_cons_ok rfl).mpr
  refine ⟨⟨nofun, _, rfl, rfl⟩, ?_⟩
  apply (steps_cons_ok rfl).mpr
  refine ⟨⟨nofun, List.cons_ne_nil _ _⟩, ?_⟩
  exact ⟨⟨nofun, List.cons_ne_nil _ _⟩, fun _ _ => trivial⟩

theorem descriptors_closed_once_iff_sample :
    ∃ d, Run step echo closes d ∧ d.ClosedOnce :=
  ⟨_, run_iff_foldlM.mpr rfl,
    (descriptors_closed_once_iff _ _ _ _ (run_iff_foldlM.mpr rfl) closes_enabled).mpr
      (fun k => by simp [closes])⟩

/-- The last pointer to the closed connection goes: its descriptor stays open. -/
theorem descriptor_not_closed :
    ∃ d d', Run step echo closes d ∧ Along step Enabled echo closes ∧
      d.Enabled (.server (.destruct 0)) ∧ d.step (.server (.destruct 0)) = .ok d' ∧
      d'.opened = [5] ∧ d'.closed = [] ∧ ¬ d'.ClosedOnce := by
  refine ⟨_, _, run_iff_foldlM.mpr rfl, closes_enabled, ⟨nofun, _, rfl, rfl, rfl, ?_, ?_⟩, rfl, rfl,
    rfl, ?_⟩
  · intro name
    change Function.update (Function.update (fun _ => none) (echo.server.connName 1) (some 0))
      (echo.server.connName 1) none name ≠ some 0
    rw [Function.update_idem]
    by_cases hname : name = echo.server.connName 1
    · simp [hname]
    · simp [hname]
  · intro loop t ht
    cases loop with
    | zero => exact absurd ht List.not_mem_nil
    | succ n => exact absurd ht List.not_mem_nil
  · intro h
    have hcount := h.once 0 _ rfl
    cases hcount

end ServerDescriptors

end Muduo
