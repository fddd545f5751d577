import Mathlib.Algebra.Order.BigOperators.Group.List
import Muduo.AddressAccessors
import Muduo.QueuedFunctors
import Muduo.ServerLife

/-!
The names of the connections of a server. What `toIpPort` prints leaves room in
the buffer of `newConnection` for every identifier, so no name is cut off and
no two are the same; the entry of a connection is then its own.

* `toIpPort_short`: the longest text, of either family;
* `Erases`: what a step other than `newConnection` does to `connections_`;
* `names_apart`: along every run with fewer calls of `newConnection` than an
  `int` can number.
-/

namespace Muduo

open Lib Events

/-! ## The text of the listening address -/

/-- `inet_ntop` keeps to the documented lengths. -/
structure InetText.Documented (T : InetText) : Prop where
  ntop4 : ∀ a, (T.ntop4 a).length < INET_ADDRSTRLEN
  ntop6 : ∀ a, (T.ntop6 a).length < INET6_ADDRSTRLEN

theorem ntopInto_length (size : Nat) (text : List Char) :
    (sockets.ntopInto size text).length ≤ text.length := by
  unfold sockets.ntopInto
  split
  · exact Nat.le_refl _
  · exact Nat.zero_le _

theorem toIp_short {T : InetText} {o : ByteOrder} (hT : T.Documented) {size : Nat}
    {addr : SockaddrIn6} {text : List Char} (h : sockets.toIp T o size addr = .ok text) :
    text.length ≤ 45 := by
  unfold sockets.toIp at h
  split at h
  · obtain ⟨_, -, h⟩ := bind_eq_ok.mp h
    cases h
    have hlong := hT.ntop4 (networkToHost32 o (sockaddrInCast addr).sinAddr)
    exact (ntopInto_length ..).trans (hlong.le.trans (by decide))
  split at h
  · obtain ⟨_, -, h⟩ := bind_eq_ok.mp h
    cases h
    exact (ntopInto_length ..).trans (Nat.le_of_lt_succ (hT.ntop6 addr.sin6Addr))
  · cases h
    exact Nat.zero_le 45

/-- The colon and the port are six characters at most. -/
theorem toIpPort_short {T : InetText} {o : ByteOrder} (hT : T.Documented) {size : Nat}
    {addr : SockaddrIn6} {text : List Char} (h : sockets.toIpPort T o size addr = .ok text) :
    text.length ≤ 51 := by
  obtain ⟨buf, hbuf, h⟩ := bind_eq_ok.mp h
  obtain ⟨_, -, h⟩ := bind_eq_ok.mp h
  cases h
  have hip : buf.length ≤ 45 := toIp_short hT hbuf
  have hport := portText_length (networkToHost16 o (sockaddrInCast addr).sinPort)
  rw [List.length_append, List.length_take]
  omega

/-- `ipPort_`, from the `sockaddr` of the listening address. -/
def IpPort.ofSockaddr {T : InetText} {o : ByteOrder} (hT : T.Documented) {addr : SockaddrIn6}
    {text : List Char} (h : sockets.toIpPort T o InetAddress.bufSize addr = .ok text) : IpPort :=
  ⟨String.ofList text, by rw [String.length_ofList]; exact toIpPort_short hT h⟩

namespace TcpServer

/-- A name with its whole identifier. -/
def fullName (s : TcpServer) (id : Nat) : String := s.name ++ ("-" ++ s.ipPort.text ++ "#" ++ id.repr)

theorem connName_eq (s : TcpServer) {id : Nat} (hid : id ≤ intMax) : s.connName id = s.fullName id := by
  have hip := s.ipPort.short
  have hid' : id.repr.length ≤ 10 := (Nat.length_repr_le_iff (by decide)).mpr (hid.trans_lt (by decide))
  have hdash : "-".length = 1 := rfl
  have hhash : "#".length = 1 := rfl
  rw [connName, snprintf_short]
  · rfl
  · simp only [String.length_append]
    omega

/-! ## What a step does to `connections_` -/

/-- From `s` to `s'` no connection comes, and entries only go. -/
structure Erases (s s' : TcpServer) : Prop where
  connName : s'.connName = s.connName
  nextConnId : s'.nextConnId = s.nextConnId
  names : s'.accepted.map Accepted.name = s.accepted.map Accepted.name
  entries : ∀ n j, s'.connections n = some j → s.connections n = some j

theorem Erases.refl (s : TcpServer) : Erases s s := ⟨rfl, rfl, rfl, fun _ _ => id⟩

theorem Erases.trans {s s' s'' : TcpServer} (h : Erases s s') (h' : Erases s' s'') : Erases s s'' :=
  ⟨h'.connName.trans h.connName, h'.nextConnId.trans h.nextConnId, h'.names.trans h.names,
    fun n j hj => h.entries n j (h'.entries n j hj)⟩

theorem Erases.length {s s' : TcpServer} (h : Erases s s') : s'.accepted.length = s.accepted.length := by
  have hlength := congrArg List.length h.names
  simpa using hlength

theorem quene_erases (s : TcpServer) (loop k : Nat) (t : Task) : Erases s (s.queneInLoop loop k t) :=
  ⟨rfl, rfl, rfl, fun _ _ => id⟩

theorem setAccepted_erases {s : TcpServer} {k : Nat} {c c' : Accepted} (hc : s.accepted[k]? = some c)
    (hname : c'.name = c.name) : Erases s (s.setAccepted k c') := by
  refine ⟨rfl, rfl, ?_, fun _ _ => id⟩
  apply List.ext_getElem?
  intro j
  by_cases hjk : k = j
  · subst hjk
    obtain ⟨hlt, rfl⟩ := List.getElem?_eq_some_iff.mp hc
    simp [setAccepted, hlt, hname]
  · simp [setAccepted, List.getElem?_set_ne hjk]

theorem removeConnectionInLoop_erases {s s' : TcpServer} {k : Nat}
    (h : s.removeConnectionInLoop k = .ok s') : Erases s s' := by
  unfold removeConnectionInLoop at h
  split at h
  · cases h
    exact .refl s
  · rename_i c hc
    obtain ⟨_, -, h⟩ := bind_eq_ok.mp h
    cases h
    let s₁ : TcpServer := { s with connections := Function.update s.connections c.name none }
    have herase : Erases s s₁ := ⟨rfl, rfl, rfl, fun _ _ => erase_entries⟩
    have hset : Erases s₁ (s₁.setAccepted k { c with log := c.log ++ [.removeConnectionInLoop] }) :=
      setAccepted_erases (s := s₁) hc rfl
    exact (herase.trans hset).trans (quene_erases ..)

theorem deliver_erases {s s' : TcpServer} {k loop : Nat} {e : Effect}
    (h : deliver k loop s e = .ok s') : Erases s s' := by
  cases e with
  | quene f =>
    cases h
    exact quene_erases ..
  | closeCallback =>
    simp only [deliver, removeConnection] at h
    split at h
    · exact removeConnectionInLoop_erases h
    · cases h
      exact quene_erases ..
  | _ =>
    cases h
    exact .refl s

theorem onConnection_erases {s s' : TcpServer} {k : Nat} {ms : List Milestone}
    {op : TcpConnection → Checked TcpConnection} (h : s.onConnection k ms op = .ok s') :
    Erases s s' := by
  unfold onConnection at h
  split at h
  · cases h
    exact .refl s
  · rename_i c hc
    obtain ⟨_, -, h⟩ := bind_eq_ok.mp h
    obtain ⟨conn, -, h⟩ := bind_eq_ok.mp h
    have hset : Erases s (s.setAccepted k { c with conn, log := c.log ++ ms }) :=
      setAccepted_erases hc rfl
    refine (run_iff_foldlM.mpr h).invariant (E := fun _ _ => True) (Steps.of_forall fun _ _ => trivial)
      hset ?_
    intro t e t' ht _ hstep
    exact ht.trans (deliver_erases hstep)

theorem runPending_erases {s s' : TcpServer} {loop : Nat} {write : WriteResult}
    (h : s.runPending loop write = .ok s') : Erases s s' := by
  have hpop : Erases s (s.pop loop) := ⟨rfl, rfl, rfl, fun _ _ => id⟩
  unfold runPending at h
  split at h
  · cases h
    exact .refl s
  · exact hpop.trans (onConnection_erases h)
  · exact hpop.trans (removeConnectionInLoop_erases h)

theorem setHeld_erases (s : TcpServer) (k : Nat) (held : Bool) : Erases s (s.setHeld k held) := by
  unfold setHeld
  split
  · exact .refl s
  · rename_i c hc
    exact setAccepted_erases hc rfl

theorem step_erases {s s' : TcpServer} {a : Label} (ha : a ≠ .newConnection)
    (h : s.step a = .ok s') : Erases s s' := by
  cases a with
  | newConnection => exact absurd rfl ha
  | functor loop write => exact runPending_erases h
  | dispatch k revents read write =>
    simp only [step] at h
    exact onConnection_erases h
  | call k inLoop c write =>
    simp only [step] at h
    exact onConnection_erases h
  | acquire k =>
    cases h
    exact setHeld_erases s k true
  | release k =>
    cases h
    exact setHeld_erases s k false
  | destruct k =>
    rcases destruct_ok h with rfl | ⟨c, hc, rfl⟩
    · exact .refl _
    · exact setAccepted_erases hc rfl

theorem Named.erases {s s' : TcpServer} (h : s.Named) (he : Erases s s') : s'.Named := by
  refine ⟨?_, he.nextConnId ▸ h.small, ?_, ?_⟩
  · rw [he.nextConnId, he.length]
    exact h.nextConnId
  · intro k c hc
    have hname : (s.accepted.map Accepted.name)[k]? = some c.name := by
      rw [← he.names, List.getElem?_map, hc]
      rfl
    rw [List.getElem?_map, Option.map_eq_some_iff] at hname
    obtain ⟨d, hd, hdname⟩ := hname
    rw [← hdname, he.connName]
    exact h.names k d hd
  · intro n k hk
    rw [he.connName, he.length]
    exact h.entries n k (he.entries n k hk)

/-- `newConnection` adds a connection, and goes on from there. -/
theorem newConnection_erases {s s' : TcpServer} (h : s.newConnection = .ok s') :
    s.nextConnId < intMax ∧ ∃ ioLoop next, Erases (s.addConnection ioLoop next) s' := by
  obtain ⟨_, hid, h⟩ := bind_eq_ok.mp h
  refine ⟨(check_eq_ok ..).mp hid, s.getNextLoop.1, s.getNextLoop.2, ?_⟩
  dsimp only at h
  split at h
  · exact onConnection_erases h
  · cases h
    exact quene_erases ..

def Label.accepts : Label → Bool
  | .newConnection => true
  | _ => false

theorem Label.accepts_iff {a : Label} : a.accepts = true ↔ a = .newConnection := by
  cases a <;> simp [accepts]

theorem Named.step {s s' : TcpServer} (h : s.Named) {a : Label} (hs : s.step a = .ok s') :
    s'.Named ∧ s'.connName = s.connName ∧
      s'.nextConnId = s.nextConnId + if a.accepts then 1 else 0 := by
  by_cases ha : a = .newConnection
  · subst ha
    obtain ⟨hid, ioLoop, next, herases⟩ := newConnection_erases hs
    exact ⟨(h.addConnection hid ioLoop next).erases herases, herases.connName, herases.nextConnId⟩
  · have herases := step_erases ha hs
    refine ⟨h.erases herases, herases.connName, ?_⟩
    rw [if_neg (Label.accepts_iff.not.mpr ha)]
    exact herases.nextConnId

theorem Inv.newConnection_ok {s : TcpServer} (h : s.Inv) (hid : s.nextConnId < intMax) :
    ∃ s', s.newConnection = .ok s' := by
  unfold TcpServer.newConnection
  rw [check_pos hid, ok_bind]
  obtain ⟨c, -, hat, -, hstage, -, -⟩ := h.addConnection hid s.getNextLoop.1 s.getNextLoop.2
  by_cases hbase : s.getNextLoop.1 = 0
  · obtain ⟨s', -, hs', -⟩ := runFunctor_connectEstablished hstage hat (.written 0)
    simp only [hbase, ↓reduceIte] at hs' ⊢
    exact ⟨s', hs'⟩
  · simp only [hbase, ↓reduceIte]
    exact ⟨_, rfl⟩

/-! ## Runs -/

/-- The names of the accepted connections are whole and pairwise distinct, and
the entry under each is that of its connection until it is removed. -/
structure Apart (s : TcpServer) : Prop where
  whole : ∀ k c, s.accepted[k]? = some c → c.name = s.fullName (k + 1)
  distinct : ∀ (i j : Nat) (c d : Accepted), s.accepted[i]? = some c → s.accepted[j]? = some d → c.name = d.name → i = j
  own : ∀ k c, s.accepted[k]? = some c →
    s.connections c.name = if .removeConnectionInLoop ∈ c.log then none else some k

theorem Inv.apart {s : TcpServer} (h : s.Inv) : s.Apart where
  whole := by
    intro k c hc
    have hlt : k < s.accepted.length := (List.getElem?_eq_some_iff.mp hc).1
    have hnext := h.nextConnId
    have hsmall := h.small
    rw [(h.lodged k c hc).1, connName_eq s (by omega)]
  distinct := by
    intro i j c d hc hd hname
    have hi : i < s.accepted.length := (List.getElem?_eq_some_iff.mp hc).1
    have hj : j < s.accepted.length := (List.getElem?_eq_some_iff.mp hd).1
    have hnext := h.nextConnId
    have hsmall := h.small
    rw [(h.lodged i c hc).1, (h.lodged j d hd).1] at hname
    exact Nat.succ_injective (connName_inj (by omega) (by omega) hname)
  own := by
    intro k c hc
    obtain ⟨-, g, hg⟩ := h.lodged k c hc
    have hremoved := hg.stage.mem_log (m := .removeConnectionInLoop) (by decide)
    simp only [hg.view.entry, hremoved]
    cases g <;> simp [Stage.entry, Stage.milestones]

/-- A call of `newConnection` completes, with a name that has no entry. Behind
every step the names are apart, and an entry that is gone is that of a
connection that was removed. -/
def KeepsApart (s : TcpServer) (a : Label) (o : Checked TcpServer) : Prop :=
  (a = .newConnection → s.connections (s.connName s.nextConnId) = none ∧ ∃ s', o = .ok s') ∧
  ∀ s', o = .ok s' → s'.Apart ∧
    ∀ n k, s.connections n = some k → s'.connections n = some k ∨
      s'.connections n = none ∧
        ∃ c, s'.accepted[k]? = some c ∧ c.name = n ∧ .removeConnectionInLoop ∈ c.log

theorem step_keepsApart {s : TcpServer} (h : s.Inv) (hn : s.Named) {a : Label} (ha : s.Enabled a)
    (hid : a.accepts = true → s.nextConnId < intMax) : KeepsApart s a (s.step a) := by
  constructor
  · rintro rfl
    refine ⟨?_, h.newConnection_ok (hid rfl)⟩
    cases hentry : s.connections (s.connName s.nextConnId) with
    | none => rfl
    | some k => exact absurd rfl (hn.fresh hentry)
  · intro s' hs
    have hinv : s'.Inv := by
      have hsafe := h.step ha
      rw [hs] at hsafe
      exact hsafe
    refine ⟨hinv.apart, ?_⟩
    intro n k hk
    obtain ⟨hlt, hname⟩ := hn.entries n k hk
    obtain ⟨-, hconnName, hgrows⟩ := hn.step hs
    have hlt' : k < s'.accepted.length := by
      have hnext := hn.nextConnId
      have hnext' := hinv.nextConnId
      omega
    obtain ⟨c, hc⟩ : ∃ c, s'.accepted[k]? = some c := ⟨_, List.getElem?_eq_getElem hlt'⟩
    have hcname : c.name = n := by rw [(hinv.lodged k c hc).1, hconnName, hname]
    have hown := hinv.apart.own k c hc
    rw [hcname] at hown
    by_cases hremoved : .removeConnectionInLoop ∈ c.log
    · rw [if_pos hremoved] at hown
      exact .inr ⟨hown, c, hc, hcname, hremoved⟩
    · rw [if_neg hremoved] at hown
      exact .inl hown

theorem steps_keepApart {s : TcpServer} {steps : List Label} (h : s.Inv) (hn : s.Named)
    (hcalls : s.nextConnId + steps.countP Label.accepts ≤ intMax)
    (hsteps : Along step Enabled s steps) : Steps step KeepsApart s steps := by
  induction steps generalizing s with
  | nil => trivial
  | cons a steps ih =>
    rw [List.countP_cons] at hcalls
    refine ⟨step_keepsApart h hn hsteps.1 fun ha => ?_, fun s' hs => ?_⟩
    · rw [if_pos ha] at hcalls
      omega
    · obtain ⟨hn', -, hgrows⟩ := hn.step hs
      have hinv : s'.Inv := by
        have hsafe := h.step hsteps.1
        rw [hs] at hsafe
        exact hsafe
      refine ih hinv hn' ?_ (hsteps.2 s' hs)
      rw [hgrows]
      omega

theorem new_named (ipPort : IpPort) (name : String) (writeCompleteCallback : Bool) (numThreads : Nat) :
    (new ipPort name writeCompleteCallback numThreads).Named :=
  ⟨rfl, by simp [new, intMax], by simp [new], nofun⟩

/-- **Names stay apart.** For every address that `toIpPort` prints, and along
every run with fewer calls of `newConnection` than `2^31 - 1`, the names carry
their whole identifiers and are pairwise distinct, no call overwrites an entry,
and a removal erases that of its own connection. -/
theorem names_apart {T : InetText} {o : ByteOrder} (hT : T.Documented) {addr : SockaddrIn6}
    {text : List Char} (htext : sockets.toIpPort T o InetAddress.bufSize addr = .ok text)
    (name : String) (writeCompleteCallback : Bool) (numThreads : Nat) (steps : List Label)
    (hcalls : steps.countP Label.accepts < 2 ^ 31 - 1)
    (hsteps : Along step Enabled
      (new (.ofSockaddr hT htext) name writeCompleteCallback numThreads) steps) :
    Steps step KeepsApart
      (new (.ofSockaddr hT htext) name writeCompleteCallback numThreads) steps := by
  apply steps_keepApart (new_inv ..) (new_named ..) _ hsteps
  have hfirst : (new (.ofSockaddr hT htext) name writeCompleteCallback numThreads).nextConnId = 1 := rfl
  rw [hfirst, intMax]
  omega

/-- The texts of `namedText` are short enough. -/
theorem namedText_documented : namedText.Documented where
  ntop4 := by
    intro a
    have hdigits (b : UInt8) : (Nat.toDigits 10 b.toNat).length ≤ 3 := by
      have hb := b.toNat_lt
      exact Nat.toDigits_length 10 b.toNat 3 (by omega) (by omega)
    have hlength : (dotted a).length = ((bigEndian 4 a.toNat).map fun b =>
        (Nat.toDigits 10 b.toNat).length).sum + 3 := by
      simp [dotted, bigEndian, littleEndian, List.intercalate]
      omega
    have hsum := List.sum_le_card_nsmul ((bigEndian 4 a.toNat).map fun b =>
        (Nat.toDigits 10 b.toNat).length) 3 (by simp [hdigits])
    rw [List.length_map, length_bigEndian] at hsum
    change (dotted a).length < 16
    rw [hlength]
    exact Nat.lt_succ_of_le (Nat.add_le_add_right hsum 3)
  ntop6 := by
    intro a
    simp only [namedText]
    split <;> decide

/-- Two connections of a server on 127.0.0.1:8080; the first is closed. -/
def twoConnections : List Label :=
  [.newConnection, .newConnection, .acquire 0, .call 0 true .forceClose (.written 0),
    .functor 0 (.written 0)]

theorem names_apart_twoConnections :
    ∃ ip : IpPort, ip.text = "127.0.0.1:8080" ∧
      Steps step KeepsApart (new ip "echo" false 0) twoConnections := by
  let addr : SockaddrIn6 := (Endpoint.mk (.v4 INADDR_LOOPBACK) 8080).sockaddr .little SockaddrIn6.zero
  have htext : sockets.toIpPort namedText .little InetAddress.bufSize addr =
      .ok "127.0.0.1:8080".toList := by decide +kernel
  refine ⟨.ofSockaddr namedText_documented htext, String.ofList_toList, ?_⟩
  apply names_apart namedText_documented htext
  · decide
  refine (steps_cons_ok rfl).mpr ⟨trivial, ?_⟩
  refine (steps_cons_ok rfl).mpr ⟨trivial, ?_⟩
  refine (steps_cons_ok rfl).mpr ⟨⟨_, rfl, rfl, .head _⟩, ?_⟩
  refine (steps_cons_ok rfl).mpr ⟨⟨_, rfl, rfl, trivial⟩, ?_⟩
  exact ⟨List.cons_ne_nil _ _, fun _ _ => trivial⟩

end TcpServer

end Muduo
