import Mathlib.Data.Nat.Digits.Defs
import Mathlib.Logic.Function.Basic
import Muduo.ConnectionSteps
import Muduo.Lib.Bound

/-!
`net/TcpServer.cpp` with `EventLoopThreadPool::getNextLoop`: a server, its base
loop and its I/O loops, each with the queue of its pending functors. Steps of
different loops and of the users interleave; a functor, a dispatch and a call
are one step each. The server is not destroyed.

Loop 0 is the base loop. A connection is known by its place in the order of
acceptance; `log` is what it has lived to see.
-/

namespace Muduo

open Lib Events

/-- The largest `int`. -/
def intMax : Nat := 2 ^ 31 - 1

/-- What `sockets::toIpPort` writes: at most 45 characters of `inet_ntop`, a
colon and a port. -/
structure IpPort where
  text : String
  short : text.length ≤ 51

/-- `snprintf(buf, size, …)` of a text. -/
def snprintf (size : Nat) (text : String) : String := String.ofList (text.toList.take (size - 1))

/-- A pending functor that is bound to a connection. -/
inductive Task where
  | functor (f : Functor)
  /-- `TcpServer::removeConnectionInLoop` -/
  | removeConnectionInLoop

/-- The functor holds a `TcpConnectionPtr`. -/
def Task.holds : Task → Bool
  | .functor f => f.holds
  | .removeConnectionInLoop => true

def Task.milestones : Task → List Milestone
  | .functor f => f.milestones
  | .removeConnectionInLoop => [.removeConnectionInLoop]

theorem Task.holds_of_mem {t : Task} {m : Milestone} (h : m ∈ t.milestones) : t.holds = true := by
  cases t with
  | removeConnectionInLoop => rfl
  | functor f => cases f <;> first | rfl | cases h

/-- An accepted connection. -/
structure Accepted where
  conn : TcpConnection
  name : String
  /-- `getLoop()` -/
  loop : Nat
  /-- a user keeps a `TcpConnectionPtr` -/
  held : Bool
  destructed : Bool
  log : List Milestone

/-- A connection when it is accepted. -/
def Accepted.new (name : String) (loop : Nat) (writeCompleteCallback : Bool) : Accepted where
  conn := TcpConnection.new writeCompleteCallback
  name := name
  loop := loop
  held := false
  destructed := false
  log := []

structure TcpServer where
  ipPort : IpPort
  name : String
  /-- `writeCompleteCallback_` is set -/
  writeCompleteCallback : Bool
  /-- `threadPool_->numThreads_`, the number of I/O loops -/
  numThreads : Nat
  /-- `threadPool_->next_` -/
  next : Nat
  nextConnId : Nat
  connections : String → Option Nat
  accepted : List Accepted
  /-- `pendingFunctors_` of each loop -/
  pendingFunctors : Nat → List (Nat × Task)

namespace TcpServer

/-- A server behind `start()`. -/
def new (ipPort : IpPort) (name : String) (writeCompleteCallback : Bool) (numThreads : Nat) :
    TcpServer where
  ipPort := ipPort
  name := name
  writeCompleteCallback := writeCompleteCallback
  numThreads := numThreads
  next := 0
  nextConnId := 1
  connections := fun _ => none
  accepted := []
  pendingFunctors := fun _ => []

/-- `EventLoopThreadPool::getNextLoop`: the loop, and `next_` behind it. -/
def getNextLoop (s : TcpServer) : Nat × Nat :=
  if s.numThreads = 0 then (0, s.next)
  else (s.next + 1, if s.numThreads ≤ s.next + 1 then 0 else s.next + 1)

/-- `connName` of the connection with the number `id`. -/
def connName (s : TcpServer) (id : Nat) : String :=
  s.name ++ snprintf 64 ("-" ++ s.ipPort.text ++ "#" ++ id.repr)

/-- `queneInLoop` of a loop. -/
def queneInLoop (s : TcpServer) (loop : Nat) (k : Nat) (t : Task) : TcpServer :=
  { s with
    pendingFunctors :=
      Function.update s.pendingFunctors loop (s.pendingFunctors loop ++ [(k, t)]) }

def setAccepted (s : TcpServer) (k : Nat) (c : Accepted) : TcpServer :=
  { s with accepted := s.accepted.set k c }

def removeConnectionInLoop (s : TcpServer) (k : Nat) : Checked TcpServer :=
  match s.accepted[k]? with
  | none => return s
  | some c => do
    let n := if (s.connections c.name).isSome then 1 else 0
    let s := { s with connections := Function.update s.connections c.name none }
    check (n = 1) .removeConnectionInLoop
    let s := s.setAccepted k { c with log := c.log ++ [.removeConnectionInLoop] }
    return s.queneInLoop c.loop k (.functor .connectDestroyed)

/-- Called by `handleClose`, so in the loop of the connection. -/
def removeConnection (s : TcpServer) (k loop : Nat) : Checked TcpServer :=
  if loop = 0 then s.removeConnectionInLoop k
  else return s.queneInLoop 0 k .removeConnectionInLoop

/-- What a connection hands to its loop and to the server. -/
def deliver (k loop : Nat) (s : TcpServer) : Effect → Checked TcpServer
  | .quene f => return s.queneInLoop loop k (.functor f)
  | .closeCallback => s.removeConnection k loop
  | _ => return s

/-- Run a function of a connection. -/
def onConnection (s : TcpServer) (k : Nat) (ms : List Milestone)
    (op : TcpConnection → Checked TcpConnection) : Checked TcpServer :=
  match s.accepted[k]? with
  | none => return s
  | some c => do
    check (c.destructed = false) .deletedConnection
    let conn ← op c.conn.rested
    let s := s.setAccepted k { c with conn, log := c.log ++ ms }
    conn.effects.foldlM (deliver k c.loop) s

def runFunctor (s : TcpServer) (k : Nat) (f : Functor) (write : WriteResult) : Checked TcpServer :=
  s.onConnection k f.milestones fun c => c.runFunctor f write

/-- `newConnection` up to its `runInLoop`. -/
def addConnection (s : TcpServer) (ioLoop next : Nat) : TcpServer :=
  let connName := s.connName s.nextConnId
  { s with
    next := next
    nextConnId := s.nextConnId + 1
    connections := Function.update s.connections connName (some s.accepted.length)
    accepted := s.accepted ++ [Accepted.new connName ioLoop s.writeCompleteCallback] }

def newConnection (s : TcpServer) : Checked TcpServer := do
  check (s.nextConnId < intMax) .connIdOverflow
  let (ioLoop, next) := s.getNextLoop
  let k := s.accepted.length
  let s := s.addConnection ioLoop next
  if ioLoop = 0 then s.runFunctor k .connectEstablished (.written 0)
  else return s.queneInLoop ioLoop k (.functor .connectEstablished)

/-! ## Steps -/

inductive Label where
  /-- the base loop accepts a connection -/
  | newConnection
  /-- a loop runs its next functor -/
  | functor (loop : Nat) (write : WriteResult)
  /-- the loop of a connection handles events of its channel -/
  | dispatch (k : Nat) (revents : Events) (read : ReadResult) (write : WriteResult)
  /-- a user calls a connection, in its loop thread or in another one -/
  | call (k : Nat) (inLoop : Bool) (c : TcpConnection.Call) (write : WriteResult)
  /-- a user keeps the pointer that a callback was given -/
  | acquire (k : Nat)
  | release (k : Nat)
  /-- the last pointer to a connection is gone -/
  | destruct (k : Nat)

/-- Nothing holds a pointer to the connection. -/
def Unreferenced (s : TcpServer) (k : Nat) (c : Accepted) : Prop :=
  c.held = false ∧ (∀ name, s.connections name ≠ some k) ∧
    ∀ loop, ∀ t ∈ s.pendingFunctors loop, t.1 = k → t.2.holds = false

/-- What may happen to a connection. The poller reports a channel only when it
is in its map, and a user has the pointer from a callback. -/
def EnabledOn (s : TcpServer) (k : Nat) (c : Accepted) : Label → Prop
  | .dispatch _ _ _ write =>
    c.destructed = false ∧ c.conn.channel.mapped = true ∧ write.Fits c.conn.outputBuffer.readableBytes
  | .call _ _ call _ => c.held = true ∧ call.WF
  | .acquire _ => c.destructed = false ∧ .connectEstablished ∈ c.log
  | .release _ => c.held = true
  | .destruct _ => c.destructed = false ∧ s.Unreferenced k c
  | _ => True

def Enabled (s : TcpServer) : Label → Prop
  | .newConnection => True
  | .functor loop _ => s.pendingFunctors loop ≠ []
  | a@(.dispatch k _ _ _) | a@(.call k _ _ _) | a@(.acquire k) | a@(.release k) | a@(.destruct k) =>
    ∃ c, s.accepted[k]? = some c ∧ s.EnabledOn k c a

def setHeld (s : TcpServer) (k : Nat) (held : Bool) : TcpServer :=
  match s.accepted[k]? with
  | none => s
  | some c => s.setAccepted k { c with held }

/-- `~TcpConnection`. -/
def destruct (s : TcpServer) (k : Nat) : Checked TcpServer :=
  match s.accepted[k]? with
  | none => return s
  | some c => do
    c.conn.dtor
    return s.setAccepted k { c with destructed := true, log := c.log ++ [.destructed] }

/-- A loop takes a functor from its queue. -/
def pop (s : TcpServer) (loop : Nat) : TcpServer :=
  { s with
    pendingFunctors := Function.update s.pendingFunctors loop (s.pendingFunctors loop).tail }

/-- The next functor of `doPendingFunctors`. -/
def runPending (s : TcpServer) (loop : Nat) (write : WriteResult) : Checked TcpServer :=
  match s.pendingFunctors loop with
  | [] => return s
  | (k, .functor f) :: _ => (s.pop loop).runFunctor k f write
  | (k, .removeConnectionInLoop) :: _ => (s.pop loop).removeConnectionInLoop k

def step (s : TcpServer) : Label → Checked TcpServer
  | .newConnection => s.newConnection
  | .functor loop write => s.runPending loop write
  | .dispatch k revents read write =>
    s.onConnection k [.dispatched] fun c => c.handleEvent revents read write
  | .call k inLoop c write => s.onConnection k [] fun conn => conn.call inLoop write c
  | .acquire k => return s.setHeld k true
  | .release k => return s.setHeld k false
  | .destruct k => s.destruct k

end TcpServer

end Muduo
