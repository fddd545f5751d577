import Mathlib.Data.Nat.Digits.Defs
import Muduo.Assertion
import Muduo.Endian

/-!
`net/InetAddress.h`, with the address functions of `net/SocketOps.cpp` and
`net/Socket.cpp` that read one.

An `InetAddress` has two members, `addr_` and `addr6_`, side by side. Each
constructor writes one of them and leaves the other as the memory it is built
in: `m` below. `family()` reads `addr_`, everything else reads `addr6_` through
`getSockAddr()`.
-/

namespace Muduo

open Lib

/-! ## Socket addresses -/

def AF_INET : BitVec 16 := 2
def AF_INET6 : BitVec 16 := 10

def INADDR_ANY : BitVec 32 := 0
def INADDR_LOOPBACK : BitVec 32 := 0x7f000001

abbrev In6Addr := Vector UInt8 16

def in6addr_any : In6Addr := Vector.replicate 16 0
def in6addr_loopback : In6Addr := in6addr_any.set 15 1

def INET_ADDRSTRLEN : Nat := 16
def INET6_ADDRSTRLEN : Nat := 46

/-- `struct sockaddr_in`. Ports and addresses are in network order. -/
structure SockaddrIn where
  sinFamily : BitVec 16
  sinPort : BitVec 16
  sinAddr : BitVec 32
  sinZero : Vector UInt8 8
  deriving DecidableEq

/-- `struct sockaddr_in6`. A `struct sockaddr*` points to one. -/
structure SockaddrIn6 where
  sin6Family : BitVec 16
  sin6Port : BitVec 16
  sin6Flowinfo : BitVec 32
  sin6Addr : In6Addr
  sin6ScopeId : BitVec 32
  deriving DecidableEq

/-- What `memset` makes of one. -/
def SockaddrIn.zero : SockaddrIn := ⟨0, 0, 0, Vector.replicate 8 0⟩
def SockaddrIn6.zero : SockaddrIn6 := ⟨0, 0, 0, Vector.replicate 16 0, 0⟩

def SockaddrIn.sizeof : Nat := 2 + 2 + 4 + 8
def SockaddrIn6.sizeof : Nat := 2 + 2 + 4 + 16 + 4
def sizeofSizeT : Nat := 8

def SockaddrIn6.saFamily (addr : SockaddrIn6) : BitVec 16 := addr.sin6Family

/-- `sockaddr_in_cast`: the same bytes, read as the other structure. -/
def sockaddrInCast (addr : SockaddrIn6) : SockaddrIn :=
  ⟨addr.sin6Family, addr.sin6Port, addr.sin6Flowinfo, Vector.ofFn fun i => addr.sin6Addr[i]⟩

/-! ## `SocketOps.cpp` -/

/-- `inet_pton` and `inet_ntop`. An IPv4 address is its number. -/
structure InetText where
  pton4 : List Char → Option (BitVec 32)
  ntop4 : BitVec 32 → List Char
  pton6 : List Char → Option In6Addr
  ntop6 : In6Addr → List Char

namespace sockets

/-- The arguments of `bind(2)` and `connect(2)`. -/
structure AddressCall where
  sockfd : Nat
  addr : SockaddrIn6
  addrlen : Nat
  deriving DecidableEq

section Text

variable (T : InetText) (o : ByteOrder)

/-- A text that is no address leaves the address as it was. -/
def fromIpPort (ip : List Char) (port : BitVec 16) (addr : SockaddrIn) : SockaddrIn :=
  { addr with
    sinFamily := AF_INET
    sinPort := hostToNetwork16 o port
    sinAddr := match T.pton4 ip with
      | some a => hostToNetwork32 o a
      | none => addr.sinAddr }

def fromIpPort6 (ip : List Char) (port : BitVec 16) (addr : SockaddrIn6) : SockaddrIn6 :=
  { addr with
    sin6Family := AF_INET6
    sin6Port := hostToNetwork16 o port
    sin6Addr := (T.pton6 ip).getD addr.sin6Addr }

/-- What `inet_ntop` leaves in an empty buffer: nothing when the text does not fit. -/
def ntopInto (size : Nat) (text : List Char) : List Char :=
  if text.length < size then text else []

def toIp (size : Nat) (addr : SockaddrIn6) : Checked (List Char) := do
  if addr.saFamily = AF_INET then
    check (INET_ADDRSTRLEN ≤ size) .toIp
    return ntopInto size (T.ntop4 (networkToHost32 o (sockaddrInCast addr).sinAddr))
  else if addr.saFamily = AF_INET6 then
    check (INET6_ADDRSTRLEN ≤ size) .toIp
    return ntopInto size (T.ntop6 addr.sin6Addr)
  else
    return []

/-- `":%u"`. -/
def portText (port : BitVec 16) : List Char := ':' :: Nat.toDigits 10 port.toNat

def toIpPort (size : Nat) (addr : SockaddrIn6) : Checked (List Char) := do
  let buf ← toIp T o size addr
  let stop := buf.length
  let port := networkToHost16 o (sockaddrInCast addr).sinPort
  check (stop < size) .toIpPort
  return buf ++ (portText port).take (size - stop - 1)

end Text

/-- The length is `sizeof(sizeof(struct sockaddr_in6))`, the size of a `size_t`. -/
def bindOrDie (sockfd : Nat) (addr : SockaddrIn6) : AddressCall := ⟨sockfd, addr, sizeofSizeT⟩

def connect (sockfd : Nat) (addr : SockaddrIn6) : AddressCall :=
  ⟨sockfd, addr, SockaddrIn6.sizeof⟩

end sockets

/-! ## `InetAddress` -/

structure InetAddress where
  addr : SockaddrIn
  addr6 : SockaddrIn6
  deriving DecidableEq

namespace InetAddress

section Constructors

variable (T : InetText) (o : ByteOrder) (m : InetAddress)

def ofPort (port : BitVec 16) (loopbackOnly ipv6 : Bool) : InetAddress :=
  if ipv6 then
    let ip := if loopbackOnly then in6addr_loopback else in6addr_any
    { m with addr6 := { SockaddrIn6.zero with
        sin6Family := AF_INET6, sin6Addr := ip, sin6Port := hostToNetwork16 o port } }
  else
    let ip := if loopbackOnly then INADDR_LOOPBACK else INADDR_ANY
    { m with addr := { SockaddrIn.zero with
        sinFamily := AF_INET, sinAddr := hostToNetwork32 o ip, sinPort := hostToNetwork16 o port } }

def ofIpPort (ip : List Char) (port : BitVec 16) (ipv6 : Bool) : InetAddress :=
  if ipv6 then
    { m with addr6 := sockets.fromIpPort6 T o ip port SockaddrIn6.zero }
  else
    { m with addr := sockets.fromIpPort T o ip port SockaddrIn.zero }

def ofSockaddrIn (addr : SockaddrIn) : InetAddress := { m with addr }

def ofSockaddrIn6 (addr : SockaddrIn6) : InetAddress := { m with addr6 := addr }

end Constructors

def setSockAddrInet6 (x : InetAddress) (addr6 : SockaddrIn6) : InetAddress := { x with addr6 }

def family (x : InetAddress) : BitVec 16 := x.addr.sinFamily

def getSockAddr (x : InetAddress) : SockaddrIn6 := x.addr6

/-- `sizeof buf` in the functions below. -/
def bufSize : Nat := 64

def toIp (T : InetText) (o : ByteOrder) (x : InetAddress) : Checked (List Char) :=
  sockets.toIp T o bufSize x.getSockAddr

def tpIP (T : InetText) (o : ByteOrder) (x : InetAddress) : Checked (List Char) :=
  sockets.toIp T o bufSize x.getSockAddr

def tpIPPort (T : InetText) (o : ByteOrder) (x : InetAddress) : Checked (List Char) :=
  sockets.toIpPort T o bufSize x.getSockAddr

end InetAddress

/-! ## `Socket.cpp` -/

namespace Socket

def bindAddress (sockfd : Nat) (localaddr : InetAddress) : sockets.AddressCall :=
  sockets.bindOrDie sockfd localaddr.getSockAddr

/-- `connfd` and `addr` are what `accept4(2)` returns and writes. -/
def accept (connfd : Int) (addr : SockaddrIn6) (peeraddr : InetAddress) : InetAddress :=
  if 0 ≤ connfd then peeraddr.setSockAddrInet6 addr else peeraddr

end Socket

end Muduo
