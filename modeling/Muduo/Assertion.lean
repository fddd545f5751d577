import Muduo.Lib.Run

/-! The assertions of the modelled functions. A function that asserts returns
`Checked`, and the failed assertion is named after the function it stands in. -/

namespace Muduo

inductive Assertion where
  | bufferCtor
  | retrieve
  | retrieveUntil
  | retrieveAsString
  | ensureWritableBytes
  | hasWritten
  | unwrite
  | prepend
  | makeSpace
  | peekInt
  | loop
  | channelRemove
  | channelDtor
  | updateChannel
  | removeChannel
  | handleClose
  | connectEstablished
  | tcpConnectionDtor
  | removeConnectionInLoop
  | removeConnection
  | connecting
  | connectorHandleWrite
  | cancelInLoop
  | getExpired
  | timerInsert
  /-- not an assertion: a `Timer*` is used that was deleted -/
  | deletedTimer
  /-- not an assertion: an `EventLoop` is used that was destructed -/
  | deletedLoop
  /-- not an assertion: a `TcpConnection` is used that was destructed -/
  | deletedConnection
  /-- not an assertion: a `TcpClient` is used that was destructed -/
  | deletedClient
  /-- not an assertion: a `TcpServer` is used that was destructed -/
  | deletedServer
  /-- not an assertion: `nextConnId_` goes beyond the largest `int` -/
  | connIdOverflow
  /-- not an assertion: a null `channel_` is used -/
  | nullChannel
  | threadFunc
  | threadStart
  | threadJoin
  | threadPoolRun
  | toIp
  | toIpPort
  /-- not an assertion: a null pointer to a log buffer is used -/
  | nullBuffer
  /-- not an assertion: a null `file_` is used -/
  | nullFile
  | fillActiveChannels
  | threadPoolStart
  /-- not an assertion: an element of `threads_` is used that is not there -/
  | threadsIndex
  deriving DecidableEq, Repr

abbrev Checked (α : Type) := Except Assertion α

end Muduo
