import Muduo.ConnectionSteps
import Muduo.Lib.Bound

/-!
`net/TcpClient.cpp` with `sockets::removeConnection`: a client in its loop, and
the connections it has made. The connector is outside the model; it calls
`newConnection` while the client is there. A functor, a dispatch and a call are
one step each.
-/

namespace Muduo

open Lib Events

/-- What `closeCallback_` of a client's connection can be. -/
inductive CloseCallback where
  /-- `TcpClient::removeConnection` -/
  | tcpClient
  /-- `sockets::removeConnection` -/
  | sockets
  deriving DecidableEq, Repr

inductive ClientTask where
  | functor (f : Functor)
  | setCloseCallback (cb : CloseCallback)

/-- The functor holds a `TcpConnectionPtr`. -/
def ClientTask.holds : ClientTask → Bool
  | .functor f => f.holds
  | .setCloseCallback _ => true

/-- The runs of `connectDestroyed` that a functor is. -/
def Functor.destroys : Functor → Nat
  | .connectDestroyed => 1
  | _ => 0

def ClientTask.destroys : ClientTask → Nat
  | .functor f => f.destroys
  | .setCloseCallback _ => 0

/-- A connection of a client. -/
structure ClientConnection where
  conn : TcpConnection
  closeCallback : CloseCallback
  /-- a user keeps a `TcpConnectionPtr` -/
  held : Bool
  destructed : Bool
  /-- `handleClose` has run -/
  closed : Bool
  /-- how often `connectDestroyed` has run -/
  destroyed : Nat

structure TcpClient where
  writeCompleteCallback : Bool
  connect : Bool
  /-- `connection_` -/
  connection : Option Nat
  destructed : Bool
  /-- every connection made so far -/
  connections : List ClientConnection
  /-- `pendingFunctors_` of the loop -/
  pendingFunctors : List (Nat × ClientTask)

namespace TcpClient

/-- A client behind `connect()`. -/
def new (writeCompleteCallback : Bool) : TcpClient where
  writeCompleteCallback := writeCompleteCallback
  connect := true
  connection := none
  destructed := false
  connections := []
  pendingFunctors := []

def queneInLoop (s : TcpClient) (k : Nat) (t : ClientTask) : TcpClient :=
  { s with pendingFunctors := s.pendingFunctors ++ [(k, t)] }

def setConnection (s : TcpClient) (k : Nat) (c : ClientConnection) : TcpClient :=
  { s with connections := s.connections.set k c }

def removeConnection (s : TcpClient) (k : Nat) : Checked TcpClient := do
  check (s.destructed = false) .deletedClient
  check (s.connection = some k) .removeConnection
  return { s with connection := none }

/-- `closeCallback_(guardThis)`. -/
def invokeClose (s : TcpClient) (k : Nat) (cb : CloseCallback) : Checked TcpClient :=
  match cb with
  | .tcpClient => s.removeConnection k
  | .sockets => return s.queneInLoop k (.functor .connectDestroyed)

/-- What a connection hands to its loop and to its owner. -/
def deliver (k : Nat) (cb : CloseCallback) (s : TcpClient) : Effect → Checked TcpClient
  | .quene f => return s.queneInLoop k (.functor f)
  | .closeCallback => s.invokeClose k cb
  | _ => return s

/-- Run a function of a connection. -/
def onConnection (s : TcpClient) (k : Nat) (destroyed : Nat)
    (op : TcpConnection → Checked TcpConnection) : Checked TcpClient :=
  match s.connections[k]? with
  | none => return s
  | some c => do
    check (c.destructed = false) .deletedConnection
    let conn ← op c.conn.rested
    let closed := c.closed || conn.effects.any Effect.isClose
    let s := s.setConnection k { c with conn, closed, destroyed := c.destroyed + destroyed }
    conn.effects.foldlM (deliver k c.closeCallback) s

def runFunctor (s : TcpClient) (k : Nat) (f : Functor) (write : WriteResult) : Checked TcpClient :=
  s.onConnection k f.destroys fun c => c.runFunctor f write

def setCloseCallback (s : TcpClient) (k : Nat) (closeCallback : CloseCallback) : TcpClient :=
  match s.connections[k]? with
  | none => s
  | some c => s.setConnection k { c with closeCallback }

def newConnection (s : TcpClient) : Checked TcpClient :=
  let k := s.connections.length
  let c : ClientConnection :=
    ⟨TcpConnection.new s.writeCompleteCallback, .tcpClient, false, false, false, 0⟩
  let s := { s with connection := some k, connections := s.connections ++ [c] }
  s.runFunctor k .connectEstablished (.written 0)

def disconnect (s : TcpClient) (inLoop : Bool) (write : WriteResult) : Checked TcpClient :=
  let s := { s with connect := false }
  match s.connection with
  | some k => s.onConnection k 0 fun c => c.shutdown inLoop write
  | none => return s

/-- `connection_.unique()`: no user and no functor has another pointer. -/
def unique (s : TcpClient) (k : Nat) : Bool :=
  match s.connections[k]? with
  | none => false
  | some c => !c.held && (boundTo s.pendingFunctors k).all fun t => !t.holds

/-- `~TcpClient`, in the loop thread or in another one. -/
def destructClient (s : TcpClient) (inLoop : Bool) : Checked TcpClient :=
  let client := { s with destructed := true, connection := none }
  match s.connection with
  | some k => do
    let client := if inLoop then client.setCloseCallback k .sockets
      else client.queneInLoop k (.setCloseCallback .sockets)
    if s.unique k then client.onConnection k 0 fun c => return c.forceClose else return client
  | none => return client

/-! ## Steps -/

inductive Label where
  | newConnection
  /-- the loop runs its next functor -/
  | functor (write : WriteResult)
  | dispatch (k : Nat) (revents : Events) (read : ReadResult) (write : WriteResult)
  /-- a user calls a connection -/
  | call (k : Nat) (inLoop : Bool) (c : TcpConnection.Call) (write : WriteResult)
  | acquire (k : Nat)
  | release (k : Nat)
  | disconnect (inLoop : Bool) (write : WriteResult)
  | destructClient (inLoop : Bool)
  /-- the last pointer to a connection is gone -/
  | destruct (k : Nat)

/-- Nothing holds a pointer to the connection. -/
def Unreferenced (s : TcpClient) (k : Nat) (c : ClientConnection) : Prop :=
  c.held = false ∧ s.connection ≠ some k ∧ ∀ t ∈ boundTo s.pendingFunctors k, t.holds = false

def EnabledOn (s : TcpClient) (k : Nat) (c : ClientConnection) : Label → Prop
  | .dispatch _ _ _ write =>
    c.conn.channel.mapped = true ∧ write.Fits c.conn.outputBuffer.readableBytes
  | .call _ _ call _ => c.held = true ∧ call.WF
  | .release _ => c.held = true
  | .destruct _ => s.Unreferenced k c
  | _ => True

def Enabled (s : TcpClient) : Label → Prop
  | .newConnection | .disconnect .. | .destructClient _ => s.destructed = false
  | .functor _ => s.pendingFunctors ≠ []
  | a@(.dispatch k _ _ _) | a@(.call k _ _ _) | a@(.acquire k) | a@(.release k) | a@(.destruct k) =>
    ∃ c, s.connections[k]? = some c ∧ c.destructed = false ∧ s.EnabledOn k c a

def setHeld (s : TcpClient) (k : Nat) (held : Bool) : TcpClient :=
  match s.connections[k]? with
  | none => s
  | some c => s.setConnection k { c with held }

/-- `~TcpConnection`. -/
def destruct (s : TcpClient) (k : Nat) : Checked TcpClient :=
  match s.connections[k]? with
  | none => return s
  | some c => do
    c.conn.dtor
    return s.setConnection k { c with destructed := true }

/-- The loop takes a functor from its queue. -/
def pop (s : TcpClient) : TcpClient := { s with pendingFunctors := s.pendingFunctors.tail }

/-- The next functor of `doPendingFunctors`. -/
def runPending (s : TcpClient) (write : WriteResult) : Checked TcpClient :=
  match s.pendingFunctors with
  | [] => return s
  | (k, .functor f) :: _ => s.pop.runFunctor k f write
  | (k, .setCloseCallback cb) :: _ => return s.pop.setCloseCallback k cb

def step (s : TcpClient) : Label → Checked TcpClient
  | .newConnection => s.newConnection
  | .functor write => s.runPending write
  | .dispatch k revents read write =>
    s.onConnection k 0 fun c => c.handleEvent revents read write
  | .call k inLoop c write => s.onConnection k 0 fun conn => conn.call inLoop write c
  | .acquire k => return s.setHeld k true
  | .release k => return s.setHeld k false
  | .disconnect inLoop write => s.disconnect inLoop write
  | .destructClient inLoop => s.destructClient inLoop
  | .destruct k => s.destruct k

end TcpClient

end Muduo
