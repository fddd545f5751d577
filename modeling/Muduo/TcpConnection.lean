import Muduo.Buffer
import Muduo.Channel

/-!
`net/TcpConnection.cpp`. The functions that run in the loop thread are total
functions on the connection, up to failed assertions; the results of the system
calls they make are arguments. What a function hands to others (the user's
callbacks, the loop's queue, the socket) is recorded in `effects`, in order,
and the bytes the kernel took in `wire`.

User callbacks do nothing to the connection while they run: a call they make is
a step of its own after the function that invoked them.
-/

namespace Muduo

open Lib Events

/-- `const void* message, size_t len`. -/
structure Message where
  data : Nat → UInt8
  len : Nat

def Message.bytes (m : Message) : List UInt8 := bytesAt m.data m.len

/-- A message whose neighbours in memory are zero. -/
def Message.ofBytes (bs : List UInt8) : Message := ⟨fun i => bs.getD i 0, bs.length⟩

/-- `StateE`. -/
inductive ConnState where
  | kDisconnected
  | kConnecting
  | kConnected
  | kDisconnecting
  deriving DecidableEq, Repr

/-- What is bound to a connection and queued in its loop. -/
inductive Functor where
  | connectEstablished
  | connectDestroyed
  | sendInLoop (m : Message)
  | shutdownInLoop
  | forceCloseInLoop
  | startReadInLoop
  | stopReadInLoop
  | writeCompleteCallback
  | highWaterMarkCallback (size : Nat)

inductive Effect where
  | connectionCallback
  | messageCallback
  | closeCallback
  | writeCompleteCallback
  | highWaterMarkCallback (size : Nat)
  /-- `socket_->shutdownWrite()` -/
  | shutdownWrite
  /-- `loop_->queneInLoop(f)` -/
  | quene (f : Functor)

structure TcpConnection where
  state : ConnState
  reading : Bool
  channel : Channel
  /-- `writeCompleteCallback_` is set -/
  writeCompleteCallback : Bool
  /-- `highWaterMarkCallback_` is set -/
  highWaterMarkCallback : Bool
  highWaterMark : Nat
  inputBuffer : Buffer
  outputBuffer : Buffer
  /-- the bytes handed to the kernel -/
  wire : List UInt8
  effects : List Effect

namespace TcpConnection

/-- The constructor, with the callbacks set before `connectEstablished`. -/
def new (writeCompleteCallback : Bool) : TcpConnection where
  state := .kConnecting
  reading := true
  channel := Channel.new
  writeCompleteCallback := writeCompleteCallback
  highWaterMarkCallback := false
  highWaterMark := 64 * 1024 * 1024
  inputBuffer := Buffer.fresh Buffer.kInitialSize
  outputBuffer := Buffer.fresh Buffer.kInitialSize
  wire := []
  effects := []

/-- `~TcpConnection`, and the `~Channel` of its member. -/
def dtor (c : TcpConnection) : Checked Unit := do
  check (c.state = .kDisconnected) .tcpConnectionDtor
  c.channel.dtor

def setState (c : TcpConnection) (s : ConnState) : TcpConnection := { c with state := s }

def emits (c : TcpConnection) (es : List Effect) : TcpConnection :=
  { c with effects := c.effects ++ es }

abbrev emit (c : TcpConnection) (e : Effect) : TcpConnection := c.emits [e]

/-- The kernel takes bytes. -/
def transmit (c : TcpConnection) (bs : List UInt8) : TcpConnection := { c with wire := c.wire ++ bs }

section Fields

variable (c : TcpConnection) (es : List Effect) (bs : List UInt8)

@[simp] theorem emits_state : (c.emits es).state = c.state := rfl
@[simp] theorem emits_channel : (c.emits es).channel = c.channel := rfl
@[simp] theorem emits_outputBuffer : (c.emits es).outputBuffer = c.outputBuffer := rfl
@[simp] theorem emits_wire : (c.emits es).wire = c.wire := rfl
@[simp] theorem emits_effects : (c.emits es).effects = c.effects ++ es := rfl
@[simp] theorem transmit_state : (c.transmit bs).state = c.state := rfl
@[simp] theorem transmit_channel : (c.transmit bs).channel = c.channel := rfl
@[simp] theorem transmit_outputBuffer : (c.transmit bs).outputBuffer = c.outputBuffer := rfl
@[simp] theorem transmit_wire : (c.transmit bs).wire = c.wire ++ bs := rfl
@[simp] theorem transmit_effects : (c.transmit bs).effects = c.effects := rfl

end Fields

/-! ## Writing -/

/-- Queue `writeCompleteCallback_`, if it is set. -/
def queneWriteComplete (c : TcpConnection) : TcpConnection :=
  c.emits (if c.writeCompleteCallback then [.quene .writeCompleteCallback] else [])

/-- Queue `highWaterMarkCallback_` when `remaining` more bytes cross the mark. -/
def queneHighWaterMark (c : TcpConnection) (remaining : Nat) : TcpConnection :=
  let oldLen := c.outputBuffer.readableBytes
  c.emits (if c.highWaterMark ≤ oldLen + remaining ∧ oldLen < c.highWaterMark ∧
      c.highWaterMarkCallback = true then
    [.quene (.highWaterMarkCallback (oldLen + remaining))]
  else [])

/-- `if (!channel_->isWriting()) channel_->enableWriting();` -/
def startWriting (c : TcpConnection) : Checked TcpConnection := do
  if c.channel.isWriting then
    return c
  else
    let channel ← c.channel.enableWriting
    return { c with channel }

/-- The part of `sendInLoop` behind the direct write. `remaining` still is
`len`, and counts from `message + nwrote` on. -/
def sendRemaining (c : TcpConnection) (m : Message) (nwrote : Nat) : Checked TcpConnection := do
  let c := c.queneHighWaterMark m.len
  let outputBuffer ← c.outputBuffer.append (fun i => m.data (nwrote + i)) m.len
  startWriting { c with outputBuffer }

/-- `faultError` -/
def faultError : WriteResult → Bool
  | .failed .EPIPE | .failed .ECONNRESET => true
  | _ => false

def sendInLoop (c : TcpConnection) (m : Message) (r : WriteResult) : Checked TcpConnection :=
  if c.state = .kDisconnected then
    return c
  else if !c.channel.isWriting && c.outputBuffer.readableBytes == 0 then
    let nwrote := r.taken
    let c := c.transmit (m.bytes.take nwrote)
    let c := if r = .written 0 then c.queneWriteComplete else c
    if !faultError r && m.len != 0 then c.sendRemaining m nwrote else return c
  else
    return c

def shutdownInLoop (c : TcpConnection) : TcpConnection :=
  if c.channel.isWriting then c else c.emit .shutdownWrite

/-- `handleWrite` when `n > 0` bytes went out. -/
def written (c : TcpConnection) (n : Nat) : Checked TcpConnection := do
  let c := c.transmit ((bytesAt c.outputBuffer.peek c.outputBuffer.readableBytes).take n)
  let outputBuffer ← c.outputBuffer.retrieve n
  if outputBuffer.readableBytes = 0 then
    let channel ← c.channel.disableWriting
    let c := { c with outputBuffer, channel }.queneWriteComplete
    return if c.state = .kDisconnecting then c.shutdownInLoop else c
  else
    return { c with outputBuffer }

def handleWrite (c : TcpConnection) (r : WriteResult) : Checked TcpConnection :=
  if c.channel.isWriting then
    if 0 < r.taken then c.written r.taken
    else return if c.state = .kDisconnecting then c.shutdownInLoop else c
  else
    return c

/-! ## Closing and reading -/

def handleClose (c : TcpConnection) : Checked TcpConnection := do
  check (c.state = .kConnected ∨ c.state = .kDisconnecting) .handleClose
  let channel ← c.channel.disableAll
  let c := { c.setState .kDisconnected with channel }
  return (c.emit .connectionCallback).emit .closeCallback

/-- Reads the socket error and logs it. -/
def handleError (c : TcpConnection) : TcpConnection := c

def handleRead (c : TcpConnection) (r : ReadResult) : Checked TcpConnection := do
  let inputBuffer ← c.inputBuffer.readFd r
  let c := { c with inputBuffer }
  match r with
  | .received (_ :: _) => return c.emit .messageCallback
  | .received [] => c.handleClose
  | .failed _ => return c.handleError

def forceCloseInLoop (c : TcpConnection) : Checked TcpConnection :=
  if c.state = .kConnected ∨ c.state = .kDisconnecting then c.handleClose else return c

def startReadInLoop (c : TcpConnection) : Checked TcpConnection := do
  if !c.reading || !c.channel.isReading then
    let channel ← c.channel.enableReading
    return { c with channel, reading := true }
  else
    return c

def stopReadInLoop (c : TcpConnection) : Checked TcpConnection := do
  if c.reading || c.channel.isReading then
    let channel ← c.channel.disableReading
    return { c with channel, reading := false }
  else
    return c

def connectEstablished (c : TcpConnection) : Checked TcpConnection := do
  check (c.state = .kConnecting) .connectEstablished
  let channel ← c.channel.enableReading
  return { c.setState .kConnected with channel }.emit .connectionCallback

def connectDestroyed (c : TcpConnection) : Checked TcpConnection := do
  let c ← if c.state = .kConnected then do
      let channel ← c.channel.disableAll
      pure ({ c.setState .kDisconnected with channel }.emit .connectionCallback)
    else pure c
  let channel ← c.channel.remove
  return { c with channel }

/-! ## Dispatch and functors -/

/-- The callbacks that the constructor gives to the channel, for one dispatch. -/
def callbacks (read : ReadResult) (write : WriteResult) : Channel.Callbacks TcpConnection where
  close := some handleClose
  error := some fun c => return c.handleError
  read := some fun c => c.handleRead read
  write := some fun c => c.handleWrite write

def setEventHandling (c : TcpConnection) (b : Bool) : TcpConnection :=
  { c with channel := { c.channel with eventHandling := b } }

/-- `Channel::handleEventWithGuard` on the channel of a connection. -/
def handleEvent (c : TcpConnection) (revents : Events) (read : ReadResult) (write : WriteResult) :
    Checked TcpConnection := do
  let c ← Channel.handleEventWithGuard (callbacks read write) revents (c.setEventHandling true)
  return c.setEventHandling false

/-- Run a queued functor; a queued send makes its write now. -/
def runFunctor (c : TcpConnection) (f : Functor) (write : WriteResult) : Checked TcpConnection :=
  match f with
  | .connectEstablished => c.connectEstablished
  | .connectDestroyed => c.connectDestroyed
  | .sendInLoop m => c.sendInLoop m write
  | .shutdownInLoop => return c.shutdownInLoop
  | .forceCloseInLoop => c.forceCloseInLoop
  | .startReadInLoop => c.startReadInLoop
  | .stopReadInLoop => c.stopReadInLoop
  | .writeCompleteCallback => return c.emit .writeCompleteCallback
  | .highWaterMarkCallback size => return c.emit (.highWaterMarkCallback size)

/-! ## The interface

Each function is called in the loop thread or in another one; `runInLoop` runs
the functor at once in the former and queues it in the latter. -/

def runInLoop (c : TcpConnection) (inLoop : Bool) (f : Functor) (write : WriteResult) :
    Checked TcpConnection :=
  if inLoop then c.runFunctor f write else return c.emit (.quene f)

/-- `send(const void*, int)`. -/
def sendPointer (c : TcpConnection) (m : Message) (write : WriteResult) : Checked TcpConnection :=
  c.sendInLoop m write

/-- `send(std::string)`. -/
def sendString (c : TcpConnection) (inLoop : Bool) (message : List UInt8) (write : WriteResult) :
    Checked TcpConnection :=
  if c.state = .kConnected then
    c.runInLoop inLoop (.sendInLoop (Message.ofBytes message)) write
  else return c

/-- `send(Buffer*)`; the second component is the buffer afterwards. -/
def sendBuffer (c : TcpConnection) (inLoop : Bool) (message : Buffer) (write : WriteResult) :
    Checked (TcpConnection × Buffer) := do
  if c.state = .kConnected then
    if inLoop then
      let c ← c.sendInLoop ⟨message.peek, message.readableBytes⟩ write
      return (c, message.retrieveAll)
    else
      let (bytes, message) ← message.retrieveAllAsString
      return (c.emit (.quene (.sendInLoop (Message.ofBytes bytes))), message)
  else
    return (c, message)

def shutdown (c : TcpConnection) (inLoop : Bool) (write : WriteResult) : Checked TcpConnection :=
  if c.state = .kConnected then
    (c.setState .kDisconnecting).runInLoop inLoop .shutdownInLoop write
  else return c

def forceClose (c : TcpConnection) : TcpConnection :=
  if c.state = .kConnected ∨ c.state = .kDisconnecting then
    (c.setState .kDisconnecting).emit (.quene .forceCloseInLoop)
  else c

def startRead (c : TcpConnection) (inLoop : Bool) (write : WriteResult) : Checked TcpConnection :=
  c.runInLoop inLoop .startReadInLoop write

def stopRead (c : TcpConnection) (inLoop : Bool) (write : WriteResult) : Checked TcpConnection :=
  c.runInLoop inLoop .stopReadInLoop write

/-- A call of the interface. -/
inductive Call where
  | sendPointer (m : Message)
  | sendString (message : List UInt8)
  | sendBuffer (message : Buffer)
  | shutdown
  | forceClose
  | startRead
  | stopRead

/-- `send(const void*, int)` is for the loop thread only. -/
def call (c : TcpConnection) (inLoop : Bool) (write : WriteResult) : Call → Checked TcpConnection
  | .sendPointer m => c.sendPointer m write
  | .sendString message => c.sendString inLoop message write
  | .sendBuffer message => do
    let (c, _) ← c.sendBuffer inLoop message write
    return c
  | .shutdown => c.shutdown inLoop write
  | .forceClose => return c.forceClose
  | .startRead => c.startRead inLoop write
  | .stopRead => c.stopRead inLoop write

/-! ## An established connection -/

/-- The channel of a connection that reads. -/
def readingChannel : Channel :=
  ⟨kReadEvent, .kAdded, false, true, true, some kReadEvent⟩

/-- A new connection after `connectEstablished`. -/
def established (writeCompleteCallback : Bool) : TcpConnection :=
  { new writeCompleteCallback with
    state := .kConnected
    channel := readingChannel
    effects := [.connectionCallback] }

theorem connectEstablished_new (w : Bool) : (new w).connectEstablished = .ok (established w) := by
  have hch : Channel.new.enableReading = .ok readingChannel := by decide
  simp [connectEstablished, new, check_pos, hch, established, setState, emits]

theorem established_coherent (w : Bool) : (established w).channel.Coherent :=
  ⟨by simp [established, readingChannel], by simp [established, readingChannel]⟩

end TcpConnection

end Muduo
