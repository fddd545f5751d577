import Muduo.TcpServer

/-!
A server whose connections are shared. Users in any thread hold, copy and drop
`TcpConnectionPtr`s; a request made outside the loop of the connection reads
`state_`, sets it and queues its functor, each a step by itself. A loop takes its
queue in batches, and a functor that has run keeps what it is bound to until its
batch is gone. A connection is destroyed as soon as nothing points to it.

`send`, `shutdown`, `startRead` and `stopRead` queue functors that are bound to
the plain `this`; `forceClose` uses `shared_from_this`.
-/

namespace Muduo

open Lib Events

/-! ## Requests from another thread -/

/-- A call outside of the loop thread. Both overloads of `send` that may be called
there queue a copy of their bytes. -/
inductive Request where
  | send (message : List UInt8)
  | shutdown
  | forceClose
  | startRead
  | stopRead

namespace Request

/-- The condition on `state_`. -/
def guard : Request → ConnState → Bool
  | .send _, s | .shutdown, s => s = .kConnected
  | .forceClose, s => s = .kConnected ∨ s = .kDisconnecting
  | .startRead, _ | .stopRead, _ => true

/-- `setState(kDisconnecting)` comes next. -/
def disconnects : Request → Bool
  | .shutdown | .forceClose => true
  | _ => false

/-- What is queued. -/
def functor : Request → Functor
  | .send message => .sendInLoop (Message.ofBytes message)
  | .shutdown => .shutdownInLoop
  | .forceClose => .forceCloseInLoop
  | .startRead => .startReadInLoop
  | .stopRead => .stopReadInLoop

/-- The function of the connection. -/
def call : Request → TcpConnection.Call
  | .send message => .sendString message
  | .shutdown => .shutdown
  | .forceClose => .forceClose
  | .startRead => .startRead
  | .stopRead => .stopRead

/-- Made in one go, the steps of a request are the call. -/
theorem call_eq (r : Request) (c : TcpConnection) (write : WriteResult) :
    c.call false write r.call = .ok (if r.guard c.state then
      (if r.disconnects then c.setState .kDisconnecting else c).emit (.quene r.functor) else c) := by
  cases r with
  | send message =>
    by_cases hs : c.state = .kConnected <;>
      simp [call, guard, disconnects, functor, TcpConnection.call, TcpConnection.sendString,
        TcpConnection.runInLoop, hs]
  | shutdown =>
    by_cases hs : c.state = .kConnected <;>
      simp [call, guard, disconnects, functor, TcpConnection.call, TcpConnection.shutdown,
        TcpConnection.runInLoop, hs]
  | forceClose =>
    by_cases hs : c.state = .kConnected ∨ c.state = .kDisconnecting <;>
      simp [call, guard, disconnects, functor, TcpConnection.call, TcpConnection.forceClose, hs]
  | startRead => rfl
  | stopRead => rfl

end Request

/-! ## The system -/

/-- The connection has been accepted and not destroyed. -/
def TcpServer.There (s : TcpServer) (k : Nat) : Prop :=
  ∃ c, s.accepted[k]? = some c ∧ c.destructed = false

/-- What a thread does next in a request. -/
inductive Progress where
  | sets (r : Request)
  | quenes (r : Request)

/-- `functors` of `doPendingFunctors`. Those that have not run are still the first
ones of the queue in the model. -/
structure Batch where
  ran : List (Nat × Task)
  left : Nat

structure SharedServer where
  server : TcpServer
  /-- the batch that a loop is at -/
  batch : Nat → Option Batch
  /-- how many pointers a user has to a connection -/
  pointers : Nat → Nat → Nat
  /-- the request that a user is in, and its connection -/
  calling : Nat → Option (Nat × Progress)

namespace SharedServer

def new (ipPort : IpPort) (name : String) (writeCompleteCallback : Bool) (numThreads : Nat) :
    SharedServer where
  server := .new ipPort name writeCompleteCallback numThreads
  batch := fun _ => none
  pointers := fun _ _ => 0
  calling := fun _ => none

inductive Label where
  /-- the base loop accepts a connection -/
  | newConnection
  /-- the loop of a connection handles events of its channel -/
  | dispatch (k : Nat) (revents : Events) (read : ReadResult) (write : WriteResult)
  /-- `functors.swap(pendingFunctors_)` -/
  | swap (loop : Nat)
  /-- a loop runs the next functor of its batch -/
  | functor (loop : Nat) (write : WriteResult)
  /-- the batch of a loop is gone -/
  | finish (loop : Nat)
  /-- a user keeps the pointer that a callback was given -/
  | acquire (u k : Nat)
  /-- a user copies the pointer of another one -/
  | copy (u v k : Nat)
  | drop (u k : Nat)
  /-- a user calls a connection in the loop thread -/
  | call (u k : Nat) (c : TcpConnection.Call) (write : WriteResult)
  /-- a user begins a request outside of it -/
  | request (u k : Nat) (r : Request)
  /-- and goes on with it -/
  | proceed (u : Nat)
  /-- the last pointer to a connection is gone -/
  | destruct (k : Nat)

/-- Nothing points to the connection but functors bound to its `this`. -/
structure Unreferenced (s : SharedServer) (k : Nat) : Prop where
  pointers : ∀ u, s.pointers u k = 0
  entries : ∀ name, s.server.connections name ≠ some k
  queued : ∀ loop, ∀ t ∈ s.server.pendingFunctors loop, t.1 = k → t.2.holds = false
  ran : ∀ loop, ∀ b ∈ s.batch loop, ∀ t ∈ b.ran, t.1 = k → t.2.holds = false

/-- A loop handles events between its batches. -/
def Allowed (s : SharedServer) : Label → Prop
  | .newConnection => s.batch 0 = none
  | .dispatch k _ _ write => ∃ c, s.server.accepted[k]? = some c ∧ c.destructed = false ∧
      s.batch c.loop = none ∧ c.conn.channel.mapped = true ∧
        write.Fits c.conn.outputBuffer.readableBytes
  | .swap loop => s.batch loop = none
  | .functor loop _ => ∃ b ∈ s.batch loop, b.left ≠ 0
  | .finish loop => ∃ b ∈ s.batch loop, b.left = 0
  | .acquire _ k => ∃ c, s.server.accepted[k]? = some c ∧ c.destructed = false ∧
      .connectEstablished ∈ c.log
  | .copy u _ k => 0 < s.pointers u k
  | .drop u k => 0 < s.pointers u k ∧ s.calling u = none
  | .call u k c _ => 0 < s.pointers u k ∧ s.calling u = none ∧ c.WF
  | .request u k _ => 0 < s.pointers u k ∧ s.calling u = none
  | .proceed u => s.calling u ≠ none
  | .destruct k => s.server.There k ∧ s.Unreferenced k

/-- Nothing else happens before a connection that has lost its last pointer is
destroyed. -/
def Enabled (s : SharedServer) (a : Label) : Prop :=
  s.Allowed a ∧ ((∃ k, a = .destruct k) ∨ ∀ k, s.server.There k → ¬ s.Unreferenced k)

def setPointers (s : SharedServer) (u k n : Nat) : SharedServer :=
  { s with pointers := Function.update s.pointers u (Function.update (s.pointers u) k n) }

def setCalling (s : SharedServer) (u : Nat) (p : Option (Nat × Progress)) : SharedServer :=
  { s with calling := Function.update s.calling u p }

def setBatch (s : SharedServer) (loop : Nat) (b : Option Batch) : SharedServer :=
  { s with batch := Function.update s.batch loop b }

/-- The next functor of the batch. -/
def runNext (s : SharedServer) (loop : Nat) (write : WriteResult) : Checked SharedServer :=
  match s.batch loop with
  | none => return s
  | some b => do
    let head := (s.server.pendingFunctors loop).take 1
    let server ← s.server.runPending loop write
    return { s with server }.setBatch loop (some ⟨b.ran ++ head, b.left - 1⟩)

/-- The condition of the request, in the thread of the user. -/
def request (s : SharedServer) (u k : Nat) (r : Request) : SharedServer :=
  match s.server.accepted[k]? with
  | none => s
  | some c =>
    if r.guard c.conn.state then
      s.setCalling u (some (k, if r.disconnects then .sets r else .quenes r))
    else s

/-- What follows it. -/
def proceed (s : SharedServer) (u : Nat) : SharedServer :=
  match s.calling u with
  | none => s
  | some (k, p) =>
    match s.server.accepted[k]?, p with
    | none, _ => s
    | some c, .sets r =>
      let server := s.server.setAccepted k { c with conn := c.conn.setState .kDisconnecting }
      { s with server }.setCalling u (some (k, .quenes r))
    | some c, .quenes r =>
      { s with server := s.server.queneInLoop c.loop k (.functor r.functor) }.setCalling u none

def step (s : SharedServer) : Label → Checked SharedServer
  | .newConnection => do
    let server ← s.server.newConnection
    return { s with server }
  | .dispatch k revents read write => do
    let server ← s.server.onConnection k [.dispatched] fun c => c.handleEvent revents read write
    return { s with server }
  | .swap loop => return s.setBatch loop (some ⟨[], (s.server.pendingFunctors loop).length⟩)
  | .functor loop write => s.runNext loop write
  | .finish loop => return s.setBatch loop none
  | .acquire u k => return s.setPointers u k (s.pointers u k + 1)
  | .copy _ v k => return s.setPointers v k (s.pointers v k + 1)
  | .drop u k => return s.setPointers u k (s.pointers u k - 1)
  | .call _ k c write => do
    let server ← s.server.onConnection k [] fun conn => conn.call true write c
    return { s with server }
  | .request u k r => return s.request u k r
  | .proceed u => return s.proceed u
  | .destruct k => do
    let server ← s.server.destruct k
    return { s with server }

end SharedServer

end Muduo
