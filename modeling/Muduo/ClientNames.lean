import Muduo.ConnectionNames
import Muduo.Lib.Printf

/-!
The names that `TcpClient::newConnection` gives to its connections. Its format
has two conversions, for the address of the peer and for `nextConnId_`, and one
argument: what is printed as the number is whatever is found in the place of
the other. The buffer has 32 bytes.

* `named_iff`: the name of one call;
* `names_whole_iff`: the names of all calls.
-/

namespace Muduo

open Lib

structure ClientNames where
  name : String
  nextConnId : Nat
  /-- the names given so far -/
  names : List String
  deriving DecidableEq

/-- A call of `newConnection`. -/
structure PeerCall where
  /-- what `sockets::getPeerAddr` returns -/
  peerAddr : SockaddrIn6
  /-- what `%d` finds where no argument was passed -/
  stray : Int

namespace ClientNames

def new (name : String) : ClientNames := ⟨name, 1, []⟩

/-- The family is one of the two. -/
def Enabled (_ : ClientNames) (c : PeerCall) : Prop :=
  c.peerAddr.saFamily = AF_INET ∨ c.peerAddr.saFamily = AF_INET6

/-- A name with the whole address and the whole number. -/
def fullName (s : ClientNames) (ipPort : List Char) : String :=
  s.name ++ String.ofList (':' :: ipPort ++ '#' :: decimal s.nextConnId)

variable (T : InetText) (o : ByteOrder) (m : InetAddress)

/-- `peerAddr.tpIPPort()`, with `peerAddr` in the memory `m`. -/
def peerText (c : PeerCall) : Checked (List Char) :=
  InetAddress.tpIPPort T o (InetAddress.ofSockaddrIn6 m c.peerAddr)

def newConnection (s : ClientNames) (c : PeerCall) : Checked ClientNames := do
  let ipPort ← peerText T o m c
  let buf := fit 32 (':' :: ipPort ++ '#' :: signed c.stray)
  check (s.nextConnId < intMax) .connIdOverflow
  let connName := s.name ++ String.ofList buf
  return { s with nextConnId := s.nextConnId + 1, names := s.names ++ [connName] }

/-- The call gives a new name, with the whole address and the number. -/
def Named (s : ClientNames) (c : PeerCall) (out : Checked ClientNames) : Prop :=
  ∃ ipPort s', peerText T o m c = .ok ipPort ∧ out = .ok s' ∧
    s'.names = s.names ++ [s.fullName ipPort] ∧ s.fullName ipPort ∉ s.names

/-- What is printed of the stray number, where there is room, is `nextConnId_`. -/
def Fits (s : ClientNames) (c : PeerCall) : Prop :=
  ∀ ipPort, peerText T o m c = .ok ipPort →
    (signed c.stray).take (29 - ipPort.length) = decimal s.nextConnId

variable {T o m}

/-- The text of an address of either family. -/
theorem peerText_ok (hT : T.Documented) {s : ClientNames} {c : PeerCall} (hc : s.Enabled c) :
    ∃ ipPort, peerText T o m c = .ok ipPort := by
  obtain ⟨ip, hip⟩ : ∃ ip, sockets.toIp T o InetAddress.bufSize c.peerAddr = .ok ip := by
    unfold sockets.toIp
    rcases hc with h | h
    · rw [if_pos h, check_pos (by decide), ok_bind]
      exact ⟨_, rfl⟩
    · have hne : c.peerAddr.saFamily ≠ AF_INET := by
        rw [h]
        decide
      rw [if_neg hne, if_pos h, check_pos (by decide), ok_bind]
      exact ⟨_, rfl⟩
  have hlen : ip.length < InetAddress.bufSize := Nat.lt_of_le_of_lt (toIp_short hT hip) (by decide)
  refine ⟨ip ++ (sockets.portText (networkToHost16 o (sockaddrInCast c.peerAddr).sinPort)).take
    (InetAddress.bufSize - ip.length - 1), ?_⟩
  change sockets.toIpPort T o InetAddress.bufSize c.peerAddr = _
  rw [sockets.toIpPort, hip, ok_bind]
  dsimp only
  rw [check_pos hlen, ok_bind]
  rfl

/-- The buffer holds the colon, the address, the sign and what there is room for
behind it. -/
theorem fit_eq_iff (ipPort number : List Char) {digits : List Char} (h : digits ≠ []) :
    fit 32 (':' :: ipPort ++ '#' :: number) = ':' :: ipPort ++ '#' :: digits ↔
      number.take (29 - ipPort.length) = digits := by
  have hpos := List.length_pos_iff.mpr h
  by_cases hroom : ipPort.length ≤ 29
  · have hfit : fit 32 (':' :: ipPort ++ '#' :: number) =
        ':' :: ipPort ++ '#' :: number.take (29 - ipPort.length) := by
      have hsplit : ':' :: ipPort ++ '#' :: number = (':' :: ipPort ++ ['#']) ++ number := by simp
      have hfront : (':' :: ipPort ++ ['#']).length = ipPort.length + 2 := by simp
      rw [fit, hsplit, List.take_append, List.take_of_length_le (by omega), hfront,
        List.append_assoc, List.singleton_append]
      congr 3
      omega
    rw [hfit, List.append_cancel_left_eq, List.cons.injEq]
    exact and_iff_right rfl
  · refine iff_of_false ?_ ?_
    · intro heq
      have hlen := congrArg List.length heq
      simp only [fit, List.length_take, List.length_append, List.length_cons] at hlen
      omega
    · rw [Nat.sub_eq_zero_of_le (by omega), List.take_zero]
      exact h.symm

/-- The names so far have smaller numbers. -/
def Numbered (s : ClientNames) : Prop :=
  ∀ n ∈ s.names, ∃ ipPort id, id < s.nextConnId ∧
    n = s.name ++ String.ofList (':' :: ipPort ++ '#' :: decimal id)

theorem Numbered.fresh {s : ClientNames} (h : s.Numbered) (ipPort : List Char) :
    s.fullName ipPort ∉ s.names := by
  intro hmem
  obtain ⟨ipPort', id, hid, heq⟩ := h _ hmem
  have hlist := congrArg String.toList heq
  simp only [fullName, String.toList_append, String.toList_ofList,
    List.append_cancel_left_eq] at hlist
  have hnumber := (append_cons_unique_last (not_mem_decimal rfl _) (not_mem_decimal rfl _) hlist).2
  rw [decimal_inj hnumber] at hid
  exact Nat.lt_irrefl _ hid

/-- What a call does. -/
theorem newConnection_eq {s : ClientNames} {c : PeerCall} {ipPort : List Char}
    (hip : peerText T o m c = .ok ipPort) (hid : s.nextConnId < intMax) :
    newConnection T o m s c = .ok { s with
      nextConnId := s.nextConnId + 1
      names := s.names ++
        [s.name ++ String.ofList (fit 32 (':' :: ipPort ++ '#' :: signed c.stray))] } := by
  rw [newConnection, hip, ok_bind]
  dsimp only
  rw [check_pos hid, ok_bind]
  rfl

/-- A call that returns has printed the text of an address. -/
theorem newConnection_ok {s s' : ClientNames} {c : PeerCall}
    (hs : newConnection T o m s c = .ok s') :
    ∃ ipPort, peerText T o m c = .ok ipPort ∧ s' = { s with
      nextConnId := s.nextConnId + 1
      names := s.names ++
        [s.name ++ String.ofList (fit 32 (':' :: ipPort ++ '#' :: signed c.stray))] } := by
  obtain ⟨ipPort, hip, hrest⟩ := bind_eq_ok.mp hs
  obtain ⟨_, hid, -⟩ := bind_eq_ok.mp hrest
  rw [newConnection_eq hip ((check_eq_ok ..).mp hid), Except.ok.injEq] at hs
  exact ⟨ipPort, hip, hs.symm⟩

theorem Named.fits {s : ClientNames} {c : PeerCall}
    (h : Named T o m s c (newConnection T o m s c)) : Fits T o m s c := by
  obtain ⟨ipPort, s', hip, hs, hnames, -⟩ := h
  obtain ⟨ipPort', hip', rfl⟩ := newConnection_ok hs
  cases hip.symm.trans hip'
  have hname := (List.cons.inj (List.append_cancel_left hnames)).1
  have hlist := congrArg String.toList hname
  simp only [fullName, String.toList_append, String.toList_ofList,
    List.append_cancel_left_eq] at hlist
  intro ipPort' hip'
  cases hip.symm.trans hip'
  exact (fit_eq_iff ipPort _ (decimal_ne_nil _)).mp hlist

/-- **The name of one call** is as it should be exactly if the stray number makes
up for the one that is missing. -/
theorem named_iff (hT : T.Documented) {s : ClientNames} (hs : s.Numbered) {c : PeerCall}
    (hc : s.Enabled c) (hid : s.nextConnId < intMax) :
    Named T o m s c (newConnection T o m s c) ↔ Fits T o m s c := by
  constructor
  · exact Named.fits
  · intro hfits
    obtain ⟨ipPort, hip⟩ := peerText_ok (o := o) (m := m) hT hc
    refine ⟨ipPort, _, hip, newConnection_eq hip hid, ?_, hs.fresh ipPort⟩
    rw [(fit_eq_iff ipPort _ (decimal_ne_nil _)).mpr (hfits ipPort hip)]
    rfl

theorem Numbered.step {s s' : ClientNames} {c : PeerCall} (h : s.Numbered)
    (hfits : Fits T o m s c) (hs : newConnection T o m s c = .ok s') : s'.Numbered := by
  obtain ⟨ipPort, hip, rfl⟩ := newConnection_ok hs
  intro n hn
  rcases List.mem_append.mp hn with hn | hn
  · obtain ⟨ipPort', id, hid, heq⟩ := h n hn
    exact ⟨ipPort', id, Nat.lt_succ_of_lt hid, heq⟩
  · refine ⟨ipPort, s.nextConnId, Nat.lt_succ_self _, ?_⟩
    rw [List.mem_singleton.mp hn,
      (fit_eq_iff ipPort _ (decimal_ne_nil s.nextConnId)).mpr (hfits ipPort hip)]

/-- A negative number is never `nextConnId_`. -/
theorem not_fits_negative (s : ClientNames) {c : PeerCall} (hc : c.stray < 0)
    {ipPort : List Char} (hip : peerText T o m c = .ok ipPort) : ¬ Fits T o m s c := by
  intro hfits
  have heq := hfits ipPort hip
  rw [signed, if_pos hc] at heq
  cases hroom : 29 - ipPort.length with
  | zero =>
    rw [hroom, List.take_zero] at heq
    exact decimal_ne_nil _ heq.symm
  | succ room =>
    rw [hroom, List.take_succ_cons] at heq
    have hmem : '-' ∈ decimal s.nextConnId := by
      rw [← heq]
      exact List.mem_cons_self ..
    exact not_mem_decimal rfl _ hmem

/-- The calls are fewer than an `int` can number. -/
theorem along_small {s : ClientNames} {calls : List PeerCall}
    (h : s.nextConnId + calls.length ≤ intMax) :
    Along (newConnection T o m) (fun s _ => s.nextConnId < intMax) s calls := by
  induction calls generalizing s with
  | nil => trivial
  | cons c calls ih =>
    rw [List.length_cons] at h
    refine ⟨by omega, fun s' hs => ih ?_⟩
    obtain ⟨_, -, rfl⟩ := newConnection_ok hs
    dsimp only
    omega

/-- **The names of a client's connections** are whole, numbered and distinct
exactly if in each call what is printed of the stray number happens to be
`nextConnId_`. The code sees to it in no call: another number spoils the name. -/
theorem names_whole_iff (hT : T.Documented) (o : ByteOrder) (m : InetAddress) (name : String)
    (calls : List PeerCall) (hcalls : calls.length < 2 ^ 31 - 1)
    (hpeers : Along (newConnection T o m) Enabled (new name) calls) :
    (Steps (newConnection T o m) (Named T o m) (new name) calls ↔
      Along (newConnection T o m) (Fits T o m) (new name) calls) ∧
    ∀ (s : ClientNames) (c : PeerCall),
      ∃ stray, ¬ Named T o m s { c with stray } (newConnection T o m s { c with stray }) := by
  constructor
  · have hsmall : (new name).nextConnId + calls.length ≤ intMax := by
      change 1 + calls.length ≤ 2 ^ 31 - 1
      omega
    have hE := hpeers.and (along_small hsmall)
    have hstart : (new name).Numbered := by
      intro n hn
      cases hn
    refine steps_iff (I := Numbered) (fun s c hs ha => ?_) (fun s c s' hs _ hfits hstep => ?_)
      hstart hE
    · exact named_iff hT hs ha.1 ha.2
    · exact hs.step hfits hstep
  · intro s c
    refine ⟨-1, fun hnamed => ?_⟩
    have hfits := hnamed.fits
    obtain ⟨ipPort, -, hip, -⟩ := hnamed
    exact not_fits_negative s (show (-1 : Int) < 0 by decide) hip hfits

/-- A peer on the loopback address. -/
def loopbackPeer (stray : Int) : PeerCall :=
  ⟨(Endpoint.mk (.v4 INADDR_LOOPBACK) 8080).sockaddr .little SockaddrIn6.zero, stray⟩

theorem loopbackPeer_text (stray : Int) :
    peerText namedText .little zeroed (loopbackPeer stray) = .ok "127.0.0.1:8080".toList := by
  change sockets.toIpPort namedText .little InetAddress.bufSize
    ((Endpoint.mk (.v4 INADDR_LOOPBACK) 8080).sockaddr .little SockaddrIn6.zero) = _
  decide +kernel

/-- Two calls that happen to find the right numbers. -/
theorem names_whole_iff_twoCalls :
    Steps (newConnection namedText .little zeroed) (Named namedText .little zeroed)
      (new "echo") [loopbackPeer 1, loopbackPeer 2] := by
  have hpeers : Along (newConnection namedText .little zeroed) Enabled (new "echo")
      [loopbackPeer 1, loopbackPeer 2] :=
    ⟨Or.inl (by decide), fun _ _ => ⟨Or.inl (by decide), fun _ _ => trivial⟩⟩
  apply (names_whole_iff TcpServer.namedText_documented .little zeroed "echo" _ (by decide)
    hpeers).1.mpr
  refine ⟨?_, fun s' hs => ⟨?_, fun _ _ => trivial⟩⟩
  · intro ipPort h
    cases (loopbackPeer_text 1).symm.trans h
    decide
  · obtain ⟨_, -, rfl⟩ := newConnection_ok hs
    intro ipPort h
    cases (loopbackPeer_text 2).symm.trans h
    change (signed 2).take (29 - "127.0.0.1:8080".toList.length) = decimal 2
    decide

/-- Two calls for one peer that find the same number: the second name is the
first one again. -/
theorem second_name_repeated :
    ¬ Steps (newConnection namedText .little zeroed) (Named namedText .little zeroed)
      (new "echo") [loopbackPeer 0, loopbackPeer 0] ∧
    ∃ s', [loopbackPeer 0, loopbackPeer 0].foldlM (newConnection namedText .little zeroed)
      (new "echo") = .ok s' ∧ s'.names = ["echo:127.0.0.1:8080#0", "echo:127.0.0.1:8080#0"] := by
  have hip := loopbackPeer_text 0
  constructor
  · intro h
    have hfits := h.1.fits _ hip
    revert hfits
    decide
  · rw [List.foldlM_cons, newConnection_eq hip (by decide), ok_bind, List.foldlM_cons,
      newConnection_eq hip (by decide), ok_bind, List.foldlM_nil]
    exact ⟨_, rfl, by decide⟩

end ClientNames

end Muduo
