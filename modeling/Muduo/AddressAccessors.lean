import Muduo.InetAddress

/-!
What the accessors of an `InetAddress` show of the address it was built from.

`getSockAddr_written` and `getSockAddr_untouched` say which constructions the
members behind `getSockAddr()` take part in, `family_build` says the same of
`family()`. `never_denotes` puts them together for every construction and
adds the two system calls.
-/

namespace Muduo

open Lib

/-! ## Endpoints -/

inductive Address where
  | v4 (a : BitVec 32)
  | v6 (a : In6Addr)
  deriving DecidableEq

structure Endpoint where
  addr : Address
  port : BitVec 16
  deriving DecidableEq

namespace Address

def family : Address → BitVec 16
  | v4 _ => AF_INET
  | v6 _ => AF_INET6

def isV6 : Address → Bool
  | v4 _ => false
  | v6 _ => true

/-- The size of the structure of the family. -/
def sizeof : Address → Nat
  | v4 _ => SockaddrIn.sizeof
  | v6 _ => SockaddrIn6.sizeof

/-- The canonical text. -/
def text (T : InetText) : Address → List Char
  | v4 a => T.ntop4 a
  | v6 a => T.ntop6 a

/-- `inet_pton` reads the canonical text of this address back, and the text is
not longer than the documented maximum. -/
def Canonical (T : InetText) : Address → Prop
  | v4 a => T.pton4 (T.ntop4 a) = some a ∧ (T.ntop4 a).length < INET_ADDRSTRLEN
  | v6 a => T.pton6 (T.ntop6 a) = some a ∧ (T.ntop6 a).length < INET6_ADDRSTRLEN

end Address

def Endpoint.text (T : InetText) (g : Endpoint) : List Char :=
  g.addr.text T ++ sockets.portText g.port

/-- The address and port in a `sockaddr` of one of the two families. -/
def SockaddrIn6.endpoint (o : ByteOrder) (addr : SockaddrIn6) : Option Endpoint :=
  if addr.saFamily = AF_INET then
    some ⟨.v4 (networkToHost32 o (sockaddrInCast addr).sinAddr), networkToHost16 o addr.sin6Port⟩
  else if addr.saFamily = AF_INET6 then
    some ⟨.v6 addr.sin6Addr, networkToHost16 o addr.sin6Port⟩
  else
    none

/-- A `sockaddr` of this address and port, with any bytes in its other fields. -/
def Endpoint.sockaddr (o : ByteOrder) (g : Endpoint) (rest : SockaddrIn6) : SockaddrIn6 :=
  match g.addr with
  | .v4 a =>
    { rest with
      sin6Family := AF_INET
      sin6Port := hostToNetwork16 o g.port
      sin6Flowinfo := hostToNetwork32 o a }
  | .v6 a =>
    { rest with
      sin6Family := AF_INET6
      sin6Port := hostToNetwork16 o g.port
      sin6Addr := a }

theorem endpoint_sockaddr (o : ByteOrder) (g : Endpoint) (rest : SockaddrIn6) :
    (g.sockaddr o rest).endpoint o = some g := by
  obtain ⟨a, port⟩ := g
  cases a with
  | v4 a => simp [Endpoint.sockaddr, SockaddrIn6.endpoint, SockaddrIn6.saFamily, sockaddrInCast]
  | v6 a =>
    simp [Endpoint.sockaddr, SockaddrIn6.endpoint, SockaddrIn6.saFamily, AF_INET, AF_INET6]

/-- A `sockaddr` carries an endpoint of the family it names. -/
theorem endpoint_cases {o : ByteOrder} {addr : SockaddrIn6} {g : Endpoint}
    (h : addr.endpoint o = some g) :
    (addr.saFamily = AF_INET ∧ g = ⟨.v4 (networkToHost32 o (sockaddrInCast addr).sinAddr),
      networkToHost16 o addr.sin6Port⟩) ∨
    (addr.saFamily ≠ AF_INET ∧ addr.saFamily = AF_INET6 ∧
      g = ⟨.v6 addr.sin6Addr, networkToHost16 o addr.sin6Port⟩) := by
  unfold SockaddrIn6.endpoint at h
  split at h
  next hfam => exact .inl ⟨hfam, (Option.some.inj h).symm⟩
  next hfam =>
    split at h
    next hfam6 => exact .inr ⟨hfam, hfam6, (Option.some.inj h).symm⟩
    next => cases h

theorem saFamily_of_endpoint {o : ByteOrder} {addr : SockaddrIn6} {g : Endpoint}
    (h : addr.endpoint o = some g) : addr.saFamily = g.addr.family := by
  rcases endpoint_cases h with ⟨hfam, rfl⟩ | ⟨-, hfam6, rfl⟩
  · exact hfam
  · exact hfam6

theorem port_of_endpoint {o : ByteOrder} {addr : SockaddrIn6} {g : Endpoint}
    (h : addr.endpoint o = some g) : networkToHost16 o (sockaddrInCast addr).sinPort = g.port := by
  rcases endpoint_cases h with ⟨-, rfl⟩ | ⟨-, -, rfl⟩
  · rfl
  · rfl

theorem text_length {T : InetText} {a : Address} (hT : a.Canonical T) :
    (a.text T).length < INET6_ADDRSTRLEN := by
  cases a with
  | v4 a => exact Nat.lt_trans hT.2 (by decide)
  | v6 a => exact hT.2

theorem toIp_endpoint {T : InetText} {o : ByteOrder} {addr : SockaddrIn6} {g : Endpoint}
    (h : addr.endpoint o = some g) (hT : g.addr.Canonical T) :
    sockets.toIp T o InetAddress.bufSize addr = .ok (g.addr.text T) := by
  have hfits : (g.addr.text T).length < InetAddress.bufSize :=
    Nat.lt_trans (text_length hT) (by decide)
  have hsize4 : INET_ADDRSTRLEN ≤ InetAddress.bufSize := by decide
  have hsize6 : INET6_ADDRSTRLEN ≤ InetAddress.bufSize := by decide
  rcases endpoint_cases h with ⟨hfam, rfl⟩ | ⟨hfam, hfam6, rfl⟩
  · rw [sockets.toIp, if_pos hfam, check_pos hsize4, ok_bind]
    exact congrArg Except.ok (if_pos hfits)
  · rw [sockets.toIp, if_neg hfam, if_pos hfam6, check_pos hsize6, ok_bind]
    exact congrArg Except.ok (if_pos hfits)

theorem portText_length (port : BitVec 16) : (sockets.portText port).length ≤ 6 := by
  have hport := port.isLt
  have hdigits := Nat.toDigits_length 10 port.toNat 5 (by omega) (by omega)
  rw [sockets.portText, List.length_cons]
  omega

/-- The printers show the endpoint a `sockaddr` carries, and nothing is cut off. -/
theorem toIpPort_endpoint {T : InetText} {o : ByteOrder} {addr : SockaddrIn6} {g : Endpoint}
    (h : addr.endpoint o = some g) (hT : g.addr.Canonical T) :
    sockets.toIpPort T o InetAddress.bufSize addr = .ok (g.text T) := by
  have hip := text_length hT
  have hport := portText_length g.port
  have hroom : (g.addr.text T).length < InetAddress.bufSize := Nat.lt_trans hip (by decide)
  have hfits : (sockets.portText g.port).length ≤
      InetAddress.bufSize - (g.addr.text T).length - 1 := by
    unfold INET6_ADDRSTRLEN at hip
    unfold InetAddress.bufSize
    omega
  simp only [sockets.toIpPort, toIp_endpoint h hT, ok_bind, port_of_endpoint h, check_pos hroom,
    List.take_of_length_le hfits]
  rfl

/-! ## Constructions -/

/-- The ways to make an `InetAddress` that holds an address. -/
inductive Construction where
  | ofPort (port : BitVec 16) (loopbackOnly ipv6 : Bool)
  /-- from the canonical text of an address -/
  | ofIpPort (a : Address) (port : BitVec 16)
  | ofSockaddrIn (a : BitVec 32) (port : BitVec 16) (zero : Vector UInt8 8)
  | ofSockaddrIn6 (g : Endpoint) (rest : SockaddrIn6)
  /-- after default construction -/
  | setSockAddrInet6 (g : Endpoint) (rest : SockaddrIn6)

/-- The members a construction writes. -/
inductive Writes where
  | addr
  | addr6
  | both
  deriving DecidableEq

namespace Construction

def build (T : InetText) (o : ByteOrder) (m : InetAddress) : Construction → InetAddress
  | ofPort port loopbackOnly ipv6 => InetAddress.ofPort o m port loopbackOnly ipv6
  | ofIpPort a port => InetAddress.ofIpPort T o m (a.text T) port a.isV6
  | ofSockaddrIn a port zero =>
    InetAddress.ofSockaddrIn m ⟨AF_INET, hostToNetwork16 o port, hostToNetwork32 o a, zero⟩
  | ofSockaddrIn6 g rest => InetAddress.ofSockaddrIn6 m (g.sockaddr o rest)
  | setSockAddrInet6 g rest =>
    (InetAddress.ofPort o m 0 false false).setSockAddrInet6 (g.sockaddr o rest)

/-- The address and port a construction is given. -/
def given : Construction → Endpoint
  | ofPort port false false => ⟨.v4 INADDR_ANY, port⟩
  | ofPort port true false => ⟨.v4 INADDR_LOOPBACK, port⟩
  | ofPort port false true => ⟨.v6 in6addr_any, port⟩
  | ofPort port true true => ⟨.v6 in6addr_loopback, port⟩
  | ofIpPort a port => ⟨a, port⟩
  | ofSockaddrIn a port _ => ⟨.v4 a, port⟩
  | ofSockaddrIn6 g _ | setSockAddrInet6 g _ => g

def writes : Construction → Writes
  | ofPort _ _ ipv6 => if ipv6 then .addr6 else .addr
  | ofIpPort a _ => if a.isV6 then .addr6 else .addr
  | ofSockaddrIn _ _ _ => .addr
  | ofSockaddrIn6 _ _ => .addr6
  | setSockAddrInet6 _ _ => .both

variable {T : InetText} {o : ByteOrder} {m : InetAddress}

/-- A construction that writes `addr6_` shows its address through `getSockAddr()`. -/
theorem getSockAddr_written {c : Construction} (hc : c.writes ≠ .addr)
    (hT : c.given.addr.Canonical T) :
    (c.build T o m).getSockAddr.endpoint o = some c.given := by
  cases c with
  | ofPort port loopbackOnly ipv6 =>
    cases ipv6 with
    | false => exact absurd rfl hc
    | true => cases loopbackOnly <;> exact endpoint_sockaddr o ⟨.v6 _, port⟩ SockaddrIn6.zero
  | ofIpPort a port =>
    cases a with
    | v4 a => exact absurd rfl hc
    | v6 a =>
      obtain ⟨hpton, _⟩ : T.pton6 (T.ntop6 a) = some a ∧ _ := hT
      have hbuild : (build T o m (ofIpPort (.v6 a) port)).getSockAddr =
          (Endpoint.mk (.v6 a) port).sockaddr o SockaddrIn6.zero := by
        change sockets.fromIpPort6 T o (T.ntop6 a) port SockaddrIn6.zero = _
        rw [sockets.fromIpPort6, hpton]
        rfl
      rw [hbuild]
      exact endpoint_sockaddr o _ _
  | ofSockaddrIn a port zero => exact absurd rfl hc
  | ofSockaddrIn6 g rest => exact endpoint_sockaddr o g rest
  | setSockAddrInet6 g rest => exact endpoint_sockaddr o g rest

/-- Behind any other construction `getSockAddr()` shows what the memory held before. -/
theorem getSockAddr_untouched {c : Construction} (hc : c.writes = .addr) :
    (c.build T o m).getSockAddr = m.getSockAddr := by
  cases c with
  | ofPort port loopbackOnly ipv6 =>
    cases ipv6 with
    | false => rfl
    | true => cases hc
  | ofIpPort a port =>
    cases a with
    | v4 a => rfl
    | v6 a => cases hc
  | ofSockaddrIn a port zero => rfl
  | ofSockaddrIn6 g rest => cases hc
  | setSockAddrInet6 g rest => cases hc

theorem family_build (c : Construction) :
    (c.build T o m).family = if c.writes = .addr6 then m.family else AF_INET := by
  cases c with
  | ofPort port loopbackOnly ipv6 => cases ipv6 <;> rfl
  | ofIpPort a port => cases a <;> rfl
  | _ => rfl

/-- An accepted connection's peer address is set after default construction. -/
theorem accept_eq (g : Endpoint) (rest : SockaddrIn6) {connfd : Int} (h : 0 ≤ connfd) :
    Socket.accept connfd (g.sockaddr o rest) (InetAddress.ofPort o m 0 false false) =
      (setSockAddrInet6 g rest).build T o m := by
  rw [Socket.accept, if_pos h]
  rfl

end Construction

/-! ## Every accessor -/

/-- The ip/port constructor makes an equal address of the two parts of the
text, in whatever memory. -/
def Reparses (T : InetText) (o : ByteOrder) (g : Endpoint) : Prop :=
  ∀ m, ((Construction.ofIpPort g.addr g.port).build T o m).getSockAddr.endpoint o = some g

/-- A system call is handed the `sockaddr` of `x`, with a length that covers
the structure of the family of `g`. -/
def Hands (x : InetAddress) (g : Endpoint) (call : sockets.AddressCall) : Prop :=
  call.addr = x.getSockAddr ∧ g.addr.sizeof ≤ call.addrlen

/-- `x` denotes `g` through every accessor and system call. -/
structure Denotes (T : InetText) (o : ByteOrder) (x : InetAddress) (g : Endpoint) : Prop where
  family : x.family = x.getSockAddr.saFamily
  carries : x.getSockAddr.endpoint o = some g
  text : x.tpIPPort T o = .ok (g.text T)
  reparses : Reparses T o g
  bind : ∀ sockfd, Hands x g (Socket.bindAddress sockfd x)
  connect : ∀ sockfd, Hands x g (sockets.connect sockfd x.getSockAddr)

namespace Construction

/-- One family is read from what was written and the other from the memory, or
both were written. -/
def FamilyAgrees (m : InetAddress) (c : Construction) : Prop :=
  match c.writes with
  | .addr => m.getSockAddr.saFamily = AF_INET
  | .addr6 => m.family = c.given.addr.family
  | .both => c.given.addr.family = AF_INET

/-- The memory behind `getSockAddr()` was written, or held this address before. -/
def Carried (o : ByteOrder) (m : InetAddress) (c : Construction) : Prop :=
  c.writes = .addr → m.getSockAddr.endpoint o = some c.given

/-- When each accessor of the new object shows the address it was given. -/
structure Accessors (T : InetText) (o : ByteOrder) (m : InetAddress) (c : Construction) :
    Prop where
  family : (c.build T o m).family = (c.build T o m).getSockAddr.saFamily ↔ c.FamilyAgrees m
  carries : (c.build T o m).getSockAddr.endpoint o = some c.given ↔ c.Carried o m
  text : c.Carried o m → (c.build T o m).tpIPPort T o = .ok (c.given.text T)
  reparses : Reparses T o c.given ↔ c.given.addr.isV6
  connect : ∀ sockfd,
    Hands (c.build T o m) c.given (sockets.connect sockfd (c.build T o m).getSockAddr)

variable {T : InetText} {o : ByteOrder} {m : InetAddress}

theorem family_agrees_iff {c : Construction} (hT : c.given.addr.Canonical T) :
    (c.build T o m).family = (c.build T o m).getSockAddr.saFamily ↔ c.FamilyAgrees m := by
  rw [family_build, FamilyAgrees]
  cases hw : c.writes with
  | addr =>
    rw [getSockAddr_untouched hw]
    exact eq_comm
  | addr6 =>
    have hfam := saFamily_of_endpoint (getSockAddr_written (o := o) (m := m) (by simp [hw]) hT)
    rw [hfam]
    rfl
  | both =>
    have hfam := saFamily_of_endpoint (getSockAddr_written (o := o) (m := m) (by simp [hw]) hT)
    rw [hfam]
    exact eq_comm

theorem carries_iff {c : Construction} (hT : c.given.addr.Canonical T) :
    (c.build T o m).getSockAddr.endpoint o = some c.given ↔ c.Carried o m := by
  by_cases hw : c.writes = .addr
  · rw [getSockAddr_untouched hw]
    exact ⟨fun h _ => h, fun h => h hw⟩
  · exact ⟨fun _ h => absurd h hw, fun _ => getSockAddr_written hw hT⟩

theorem toIp_build {c : Construction} (h : c.Carried o m) (hT : c.given.addr.Canonical T) :
    (c.build T o m).toIp T o = .ok (c.given.addr.text T) ∧
      (c.build T o m).tpIP T o = .ok (c.given.addr.text T) := by
  have hcarries := (carries_iff hT).mpr h
  exact ⟨toIp_endpoint hcarries hT, toIp_endpoint hcarries hT⟩

/-- An IPv4 address that is parsed goes into `addr_`, which nobody reads back. -/
theorem reparses_iff {g : Endpoint} (hT : g.addr.Canonical T) :
    Reparses T o g ↔ g.addr.isV6 := by
  obtain ⟨a, port⟩ := g
  cases a with
  | v4 a =>
    have hzero : ¬ Reparses T o ⟨.v4 a, port⟩ := by
      intro h
      have hnone := h ⟨SockaddrIn.zero, SockaddrIn6.zero⟩
      rw [getSockAddr_untouched rfl] at hnone
      cases hnone
    exact ⟨fun h => absurd h hzero, fun h => by cases h⟩
  | v6 a =>
    have hall : Reparses T o ⟨.v6 a, port⟩ := fun m =>
      getSockAddr_written (c := ofIpPort (.v6 a) port) (fun h => by cases h) hT
    exact ⟨fun _ => rfl, fun _ => hall⟩

end Construction

theorem sizeof_le (a : Address) : a.sizeof ≤ SockaddrIn6.sizeof := by
  cases a with
  | v4 a => exact (by decide : SockaddrIn.sizeof ≤ SockaddrIn6.sizeof)
  | v6 a => exact Nat.le_refl _

/-- The length given to `bind` is too short for either family. -/
theorem bind_never (x : InetAddress) (g : Endpoint) (sockfd : Nat) :
    ¬ Hands x g (Socket.bindAddress sockfd x) := by
  rintro ⟨_, hlen⟩
  obtain ⟨a, port⟩ := g
  cases a with
  | v4 a => exact absurd hlen (by decide : ¬ SockaddrIn.sizeof ≤ sizeofSizeT)
  | v6 a => exact absurd hlen (by decide : ¬ SockaddrIn6.sizeof ≤ sizeofSizeT)

/-- **No `InetAddress` denotes its address through everything that reads it**:
`bindOrDie` always passes the size of a `size_t`. The accessors show the
address exactly under the conditions of `Construction.Accessors`: one of the
two members is the memory the object was built in. -/
theorem never_denotes (T : InetText) (o : ByteOrder) (m : InetAddress) (c : Construction)
    (hT : c.given.addr.Canonical T) :
    ¬ Denotes T o (c.build T o m) c.given ∧ c.Accessors T o m := by
  refine ⟨fun h => bind_never _ _ 0 (h.bind 0), ?_⟩
  exact {
    family := Construction.family_agrees_iff hT
    carries := Construction.carries_iff hT
    text := fun h => toIpPort_endpoint ((Construction.carries_iff hT).mpr h) hT
    reparses := Construction.reparses_iff hT
    connect := fun sockfd => ⟨rfl, sizeof_le _⟩ }

/-! ## A host -/

/-- `inet_ntop(AF_INET, …)`. -/
def dotted (a : BitVec 32) : List Char :=
  ['.'].intercalate ((bigEndian 4 a.toNat).map fun b => Nat.toDigits 10 b.toNat)

/-- A number below 256 without a leading zero. -/
def parseOctet (s : List Char) : Option UInt8 :=
  let n := s.foldl (fun n c => 10 * n + (c.toNat - '0'.toNat)) 0
  if s = Nat.toDigits 10 n ∧ n < 256 then some n.toUInt8 else none

/-- `inet_pton(AF_INET, …)`. -/
def parseDotted (s : List Char) : Option (BitVec 32) := do
  let octets ← (s.splitOn '.').mapM parseOctet
  if octets.length = 4 then some (wordBE 4 octets) else none

/-- IPv6 with `::1` and `::` only. -/
def namedText : InetText where
  ntop4 := dotted
  pton4 := parseDotted
  ntop6 a := if a = in6addr_loopback then "::1".toList else "::".toList
  pton6 s :=
    if s = "::1".toList then some in6addr_loopback
    else if s = "::".toList then some in6addr_any
    else none

/-- Zeroed memory, as a static object has it. -/
def zeroed : InetAddress := ⟨SockaddrIn.zero, SockaddrIn6.zero⟩

/-- A `sockaddr_in6` that holds 127.0.0.1:8080, as `accept` fills it. -/
theorem never_denotes_sample :
    let c := Construction.setSockAddrInet6 ⟨.v4 INADDR_LOOPBACK, 8080⟩ SockaddrIn6.zero
    ¬ Denotes namedText .little (c.build namedText .little zeroed) c.given ∧
      (c.build namedText .little zeroed).tpIPPort namedText .little =
        .ok "127.0.0.1:8080".toList := by
  intro c
  have hT : c.given.addr.Canonical namedText := by
    constructor
    · decide +kernel
    · decide +kernel
  obtain ⟨hnever, hacc⟩ := never_denotes namedText .little zeroed c hT
  have htext := hacc.text (fun h => by cases h)
  exact ⟨hnever, htext.trans (by decide +kernel)⟩

/-- `InetAddress(2037)` is an IPv4 address, its `sockaddr` has no family, and
`bind` is given 8 of its bytes. -/
theorem port_not_denoted :
    let c := Construction.ofPort 2037 false false
    let x := c.build namedText .little zeroed
    ¬ Denotes namedText .little x c.given ∧ x.family = AF_INET ∧ x.getSockAddr.saFamily = 0 ∧
      (Socket.bindAddress 3 x).addrlen = 8 := by
  intro c x
  have hsa : x.getSockAddr.saFamily = 0 := rfl
  have hfamily : x.family = AF_INET := rfl
  have hnot : ¬ Denotes namedText .little x c.given := by
    intro h
    have heq := h.family
    rw [hfamily, hsa] at heq
    exact absurd heq (by decide)
  exact ⟨hnot, hfamily, hsa, rfl⟩

end Muduo
