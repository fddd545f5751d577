import Muduo.Channel
import Muduo.SocketOps

/-!
`net/Connector.cpp`. Sockets are numbered in the order of their creation, so a
descriptor number that the system uses again is another socket here. The
results of `connect`, `getSocketError` and `isSelfConnect` are arguments.
-/

namespace Muduo

open Lib Events

/-- `States`. -/
inductive ConnectorState where
  | kDisconnected
  | kConnecting
  | kConnected
  deriving DecidableEq, Repr

/-- What a connector queues in its loop. -/
inductive ConnectorFunctor where
  | startInLoop
  | stopInLoop
  | resetChannel
  deriving DecidableEq, Repr

/-- What `channel_` points to. -/
structure SocketChannel where
  sockfd : Nat
  channel : Channel
  deriving DecidableEq, Repr

structure Connector where
  connect_ : Bool
  state : ConnectorState
  channel : Option SocketChannel
  retryDelayMs : Nat
  /-- the functors queued in the loop -/
  functors : List ConnectorFunctor
  /-- the delays of the retry timers that have not fired -/
  retryTimers : List Nat
  /-- the number of sockets created -/
  created : Nat
  /-- the sockets handed to `connecting` -/
  attempts : List Nat
  /-- the sockets closed -/
  closes : List Nat
  /-- the sockets handed to `newConnectionCallback_` -/
  connections : List Nat
  deriving DecidableEq, Repr

namespace Connector

def kMaxRetryDelayMs : Nat := 30 * 1000
def kInitRetryDelayMs : Nat := 500

/-- The constructor. -/
def new : Connector where
  connect_ := false
  state := .kDisconnected
  channel := none
  retryDelayMs := kInitRetryDelayMs
  functors := []
  retryTimers := []
  created := 0
  attempts := []
  closes := []
  connections := []

def setState (c : Connector) (s : ConnectorState) : Connector := { c with state := s }

def queneInLoop (c : Connector) (f : ConnectorFunctor) : Connector :=
  { c with functors := c.functors ++ [f] }

/-- `sockets::close`. -/
def close (c : Connector) (sockfd : Nat) : Connector := { c with closes := c.closes ++ [sockfd] }

def newConnectionCallback (c : Connector) (sockfd : Nat) : Connector :=
  { c with connections := c.connections ++ [sockfd] }

/-! ## Connecting -/

def connecting (c : Connector) (sockfd : Nat) : Checked Connector := do
  let c := c.setState .kConnecting
  check (c.channel = none) .connecting
  let channel ← Channel.new.enableWriting
  return { c with channel := some ⟨sockfd, channel⟩, attempts := c.attempts ++ [sockfd] }

def retry (c : Connector) (sockfd : Nat) : Connector :=
  let c := (c.close sockfd).setState .kDisconnected
  if c.connect_ then
    { c with
      retryTimers := c.retryTimers ++ [c.retryDelayMs]
      retryDelayMs := min (c.retryDelayMs * 2) kMaxRetryDelayMs }
  else c

/-- The branches of the `switch` in `connect`. -/
inductive Branch where
  | connecting
  | retry
  | close
  deriving DecidableEq, Repr

/-- The branch for `savedErrno`; no error is 0. -/
def branch : Option Errno → Branch
  | none | some .EINPROGRESS | some .EINTR | some .EISCONN => .connecting
  | some .EAGAIN | some .EADDRINUSE | some .EADDRNOTAVAIL | some .ECONNREFUSED
  | some .ENETUNREACH => .retry
  | some _ => .close

def connect (c : Connector) (savedErrno : Option Errno) : Checked Connector :=
  let sockfd := c.created
  let c := { c with created := c.created + 1 }
  match branch savedErrno with
  | .connecting => c.connecting sockfd
  | .retry => return c.retry sockfd
  | .close => return c.close sockfd

def startInLoop (c : Connector) (savedErrno : Option Errno) : Checked Connector :=
  if c.connect_ then c.connect savedErrno else return c

def start (c : Connector) (inLoop : Bool) (savedErrno : Option Errno) : Checked Connector :=
  let c := { c with connect_ := true }
  if inLoop then c.startInLoop savedErrno else return c.queneInLoop .startInLoop

def restart (c : Connector) (savedErrno : Option Errno) : Checked Connector :=
  let c := c.setState .kDisconnected
  let c := { c with retryDelayMs := kInitRetryDelayMs, connect_ := true }
  c.startInLoop savedErrno

/-! ## Events -/

/-- The second component is the socket. The channel itself is reset later. -/
def removeAndResetChannel (c : Connector) : Checked (Connector × Nat) := do
  match c.channel with
  | none => .error .nullChannel
  | some a =>
    let channel ← a.channel.disableAll
    let channel ← channel.remove
    return ({ c with channel := some { a with channel } }.queneInLoop .resetChannel, a.sockfd)

/-- `~Channel` runs when `channel_` is reset. -/
def resetChannel (c : Connector) : Checked Connector := do
  match c.channel with
  | none => return c
  | some a =>
    a.channel.dtor
    return { c with channel := none }

/-- `err` is the socket error. -/
def handleWrite (c : Connector) (err : Nat) (selfConnect : Bool) : Checked Connector := do
  if c.state = .kConnecting then
    let (c, sockfd) ← c.removeAndResetChannel
    if err ≠ 0 then
      return c.retry sockfd
    else if selfConnect then
      return c.retry sockfd
    else
      let c := c.setState .kConnected
      return if c.connect_ then c.newConnectionCallback sockfd else c.close sockfd
  else
    check (c.state = .kDisconnected) .connectorHandleWrite
    return c

def handleError (c : Connector) : Checked Connector := do
  if c.state = .kConnecting then
    let (c, sockfd) ← c.removeAndResetChannel
    return c.retry sockfd
  else
    return c

def stopInLoop (c : Connector) : Checked Connector := do
  if c.state = .kConnecting then
    let c := c.setState .kDisconnected
    let (c, sockfd) ← c.removeAndResetChannel
    return c.retry sockfd
  else
    return c

def stop (c : Connector) : Connector := { c with connect_ := false }.queneInLoop .stopInLoop

def callbacks (err : Nat) (selfConnect : Bool) : Channel.Callbacks Connector where
  close := none
  error := some handleError
  read := none
  write := some fun c => c.handleWrite err selfConnect

def setEventHandling (c : Connector) (b : Bool) : Connector :=
  { c with channel := c.channel.map fun a =>
      { a with channel := { a.channel with eventHandling := b } } }

/-- `Channel::handleEventWithGuard` on `channel_`. -/
def handleEvent (c : Connector) (revents : Events) (err : Nat) (selfConnect : Bool) :
    Checked Connector := do
  let c ← Channel.handleEventWithGuard (callbacks err selfConnect) revents (c.setEventHandling true)
  return c.setEventHandling false

/-- What the two callbacks and the flag of the channel keep. -/
theorem handleEvent_invariant {I : Connector → Prop} {err : Nat} {selfConnect : Bool}
    (hset : ∀ c b, I c → I (c.setEventHandling b))
    (herror : ∀ c c', I c → c.handleError = .ok c' → I c')
    (hwrite : ∀ c c', I c → c.handleWrite err selfConnect = .ok c' → I c')
    {c c' : Connector} {revents : Events} (h : I c)
    (hc : c.handleEvent revents err selfConnect = .ok c') : I c' := by
  obtain ⟨c₁, hguard, hc⟩ := bind_eq_ok.mp hc
  cases hc
  have hcbs : (callbacks err selfConnect).Preserve I := by
    constructor
    · simp [callbacks]
    · rintro _ ⟨⟩
      exact herror
    · simp [callbacks]
    · rintro _ ⟨⟩
      exact hwrite
  have h₁ : I c₁ := Channel.handleEventWithGuard_invariant hcbs (hset c true h) hguard
  exact hset c₁ false h₁

/-! ## Steps -/

/-- Everything that happens to a connector. A step that may come to `connect`
carries the result of that call. -/
inductive Step where
  | start (inLoop : Bool) (savedErrno : Option Errno)
  | stop
  | restart (savedErrno : Option Errno)
  /-- the retry timer at this position fires -/
  | timer (i : Nat) (savedErrno : Option Errno)
  | dispatch (revents : Events) (err : Nat) (selfConnect : Bool)
  /-- the loop runs the first functor -/
  | functor (savedErrno : Option Errno)

def runFunctor (c : Connector) (savedErrno : Option Errno) : ConnectorFunctor → Checked Connector
  | .startInLoop => c.startInLoop savedErrno
  | .stopInLoop => c.stopInLoop
  | .resetChannel => c.resetChannel

def step (c : Connector) : Step → Checked Connector
  | .start inLoop savedErrno => c.start inLoop savedErrno
  | .stop => return c.stop
  | .restart savedErrno => c.restart savedErrno
  | .timer i savedErrno =>
    { c with retryTimers := c.retryTimers.eraseIdx i }.startInLoop savedErrno
  | .dispatch revents err selfConnect => c.handleEvent revents err selfConnect
  | .functor savedErrno =>
    match c.functors with
    | [] => return c
    | f :: functors => { c with functors }.runFunctor savedErrno f

/-- A timer must be there to fire, and the poller reports a channel that is
registered. -/
def Allowed (c : Connector) : Step → Prop
  | .timer i _ => i < c.retryTimers.length
  | .dispatch .. => ∃ a ∈ c.channel, a.channel.registered ≠ none
  | _ => True

end Connector

end Muduo
