import Muduo.AcceptorOverload
import Muduo.ServerDescriptors

/-!
A listening server in a process with `n` descriptors: the acceptor hands each
connection to `TcpServer::newConnection`, and `~TcpConnection` leaves closing its
descriptor to `~Socket`, which closes nothing. Steps of the acceptor, of the
loops and users of the server, and of the other code interleave.

* `descriptors_last`: every connection that was ever accepted has its descriptor
  open, so that there are fewer than `n` of them;
* `capacity_for_life`: how many the server accepts before it turns all away.
-/

namespace Muduo

open Lib

inductive ListeningFailure where
  | acceptor (e : AcceptorFailure)
  | server (e : Assertion)

structure ListeningServer (n : Nat) where
  /-- with the descriptors of the process -/
  acceptor : Acceptor n
  server : TcpServer
  /-- `sockfd_` of the `socket_` of each accepted connection -/
  sockfds : List (Fin n)

namespace Acceptor

variable {n : Nat}

/-- What `handleRead` hands to the callback. -/
def handsOver (s : Acceptor n) : Label n → Option (Fin n)
  | .handleRead fails _ =>
    match s.accept4 fails with
    | .ok (connfd, _) => if s.newConnectionCallback then some connfd else none
    | .error _ => none
  | _ => none

/-- The connections that were handed to the callback. -/
def handed (s : Acceptor n) : List Nat := (s.served.filter fun x => x.2 = .handed).map Prod.fst

end Acceptor

namespace ListeningServer

variable {n : Nat}

/-- The constructor of the server and `start`, up to the call of `listen`. What
the I/O loops open in `start`, for `epoll`, the eventfd and the timerfd of each,
is in `opened` with the rest of the process. -/
def new (opened : Fin n → Bool) (server : TcpServer) :
    Except ListeningFailure (ListeningServer n) := do
  let acceptor ← (Acceptor.new opened true).mapError .acceptor
  return ⟨acceptor, server, []⟩

inductive Label (n : Nat) where
  | acceptor (a : Acceptor.Label n)
  | server (a : TcpServer.Label)

/-- The server is not destroyed, and what was handed to it is not closed by the
other code. -/
def Enabled (s : ListeningServer n) : Label n → Prop
  | .acceptor .dtor => False
  | .acceptor (.closeOther fd) => s.acceptor.descriptors fd = some .other
  | .acceptor a => s.acceptor.Enabled a
  | .server a => a ≠ .newConnection ∧ s.server.Enabled a

/-- The descriptors that a step of the server closes. -/
def closes (s : ListeningServer n) : TcpServer.Label → List Nat
  | .destruct k => s.sockfds[k]?.elim [] fun fd => Socket.dtor fd
  | _ => []

def step (s : ListeningServer n) : Label n → Except ListeningFailure (ListeningServer n)
  | .acceptor a => do
    let acceptor ← (s.acceptor.step a).mapError .acceptor
    match s.acceptor.handsOver a with
    | none => return { s with acceptor }
    | some connfd =>
      let server ← s.server.newConnection.mapError .server
      return { acceptor, server, sockfds := s.sockfds ++ [connfd] }
  | .server a => do
    let server ← (s.server.step a).mapError .server
    let descriptors : Descriptors n OpenFile := fun fd =>
      if fd.val ∈ s.closes a then none else s.acceptor.descriptors fd
    return { s with server, acceptor := { s.acceptor with descriptors } }

end ListeningServer

/-! ## What is handed over -/

namespace Acceptor

variable {n : Nat}

theorem close_handed {s s' : Acceptor n} {fd : Option (Fin n)} (h : s.close fd = .ok s') :
    s'.handed = s.handed ∧ s'.newConnectionCallback = s.newConnectionCallback := by
  unfold close at h
  split at h
  · cases h
    exact ⟨rfl, rfl⟩
  · split at h
    · cases h
      exact ⟨rfl, rfl⟩
    · cases h
      exact ⟨by simp [handed], rfl⟩
    · cases h

theorem next_handed {s s' : Acceptor n} {fails : Option AcceptErrno} (h : s.next fails = .ok s') :
    s'.handed = s.handed ∧ s'.newConnectionCallback = s.newConnectionCallback := by
  unfold next at h
  cases hplace : s.place with simp only [hplace] at h
  | rest | gone =>
    cases h
    exact ⟨rfl, rfl⟩
  | closeConn connfd c =>
    obtain ⟨t, ht, h⟩ := bind_eq_ok.mp h
    cases h
    obtain ⟨hhanded, hcb⟩ := close_handed ht
    exact ⟨hhanded, hcb⟩
  | closeIdle =>
    obtain ⟨t, ht, h⟩ := bind_eq_ok.mp h
    cases h
    obtain ⟨hhanded, hcb⟩ := close_handed ht
    exact ⟨hhanded, hcb⟩
  | acceptIdle =>
    split at h
    · cases h
      exact ⟨rfl, rfl⟩
    · cases h
      exact ⟨rfl, rfl⟩
  | closeAccepted c =>
    obtain ⟨t, ht, h⟩ := bind_eq_ok.mp h
    cases h
    obtain ⟨hhanded, hcb⟩ := close_handed ht
    exact ⟨hhanded, hcb⟩
  | openIdle =>
    split at h
    · cases h
      exact ⟨rfl, rfl⟩
    · cases h
      exact ⟨rfl, rfl⟩

/-- A step behind which as many connections have been handed over as before. -/
theorem handed_of_none {s s' : Acceptor n} {a : Label n} (hcb : s.newConnectionCallback = true)
    (hnone : s.handsOver a = none) (hdtor : a ≠ .dtor) (hs : s.step a = .ok s') :
    s'.handed = s.handed ∧ s'.newConnectionCallback = true := by
  cases a with
  | next fails =>
    obtain ⟨hhanded, hsame⟩ := next_handed hs
    exact ⟨hhanded, hsame.trans hcb⟩
  | handleRead fails log =>
    cases hs
    cases hacc : s.accept4 fails with
    | ok r => simp [handsOver, hacc, hcb] at hnone
    | error errno =>
      simp only [Acceptor.handleRead, hacc]
      split <;> exact ⟨rfl, hcb⟩
  | dtor => exact absurd rfl hdtor
  | openOther =>
    simp only [step] at hs
    split at hs <;> cases hs <;> exact ⟨rfl, hcb⟩
  | listen | arrive | abort | closeOther =>
    cases hs
    exact ⟨rfl, hcb⟩

/-- A connection is handed over. -/
theorem handed_of_some {s s' : Acceptor n} {a : Label n} {connfd : Fin n}
    (hsome : s.handsOver a = some connfd) (hs : s.step a = .ok s') :
    s'.newConnectionCallback = true ∧ s.descriptors connfd = none ∧ ∃ c,
      s'.handed = s.handed ++ [c] ∧
      s'.descriptors = Function.update s.descriptors connfd (some (.handed c)) := by
  cases a with
  | handleRead fails log =>
    cases hs
    cases hacc : s.accept4 fails with
    | error errno => simp [handsOver, hacc] at hsome
    | ok r =>
      obtain ⟨fd, c⟩ := r
      cases hcb : s.newConnectionCallback with
      | false => simp [handsOver, hacc, hcb] at hsome
      | true =>
        obtain rfl : fd = connfd := by simpa [handsOver, hacc, hcb] using hsome
        refine ⟨?_, (accept4_ok hacc).1, c, ?_, ?_⟩
        · simp [Acceptor.handleRead, hacc, hcb, take]
        · simp [Acceptor.handleRead, hacc, hcb, take, handed]
        · simp [Acceptor.handleRead, hacc, hcb, take]
  | listen | next | dtor | arrive | abort | openOther | closeOther => cases hsome

/-- Connections are handed over once. -/
theorem Inv.handed_nodup {s : Acceptor n} (h : s.Inv) : s.handed.Nodup := by
  have hserved : (s.served.map Prod.fst).Pairwise (· < ·) := by
    have hline := h.inOrder
    rw [line, List.append_assoc, List.pairwise_append] at hline
    exact hline.1
  have hsub : s.handed.Sublist (s.served.map Prod.fst) := List.filter_sublist.map _
  exact (hserved.sublist hsub).imp fun hlt => Nat.ne_of_lt hlt

end Acceptor

/-! ## Every step -/

namespace ListeningServer

variable {n : Nat}

structure Inv (s : ListeningServer n) : Prop where
  acceptor : s.acceptor.Inv
  newConnectionCallback : s.acceptor.newConnectionCallback = true
  listener : ∃ fd, s.acceptor.descriptors fd = some .listener
  opened : s.sockfds.map s.acceptor.descriptors = s.acceptor.handed.map fun c => some (.handed c)
  accepted : s.server.gone.length = s.sockfds.length

theorem new_inv {opened : Fin n → Bool} {server : TcpServer} {s : ListeningServer n}
    (h : new opened server = .ok s) (hserver : server.accepted = []) : s.Inv := by
  obtain ⟨acceptor, hnew, hs⟩ := bind_eq_ok.mp h
  cases hs
  have hnew := ok_of_mapError hnew
  have hinv := Acceptor.new_inv hnew
  dsimp only [Acceptor.new] at hnew
  split at hnew
  · cases hnew
  rename_i sockfd hsock
  split at hnew
  · cases hnew
  rename_i fd hfd
  cases hnew
  have hne : sockfd ≠ fd := by
    rintro rfl
    have hfree := Descriptors.free_of_lowest hfd
    rw [Function.update_self] at hfree
    cases hfree
  refine ⟨hinv, rfl, ⟨sockfd, ?_⟩, rfl, by simp [TcpServer.gone, hserver]⟩
  exact (Function.update_of_ne hne ..).trans (Function.update_self ..)

/-- What a step of the acceptor needs to be enabled. -/
theorem Enabled.acceptor {s : ListeningServer n} {a : Acceptor.Label n}
    (h : s.Enabled (.acceptor a)) : s.acceptor.Enabled a ∧ a ≠ .dtor ∧
      ∀ fd, a = .closeOther fd → s.acceptor.descriptors fd = some .other := by
  cases a with
  | dtor => exact h.elim
  | closeOther fd =>
    refine ⟨⟨.other, h, id, by decide⟩, by simp, fun fd' hfd => ?_⟩
    cases hfd
    exact h
  | listen | handleRead | next | arrive | abort | openOther => exact ⟨h, by simp, by simp⟩

/-- A step leaves open what is neither the acceptor's nor the other code's. -/
theorem keeps_open {s : ListeningServer n} (h : s.acceptor.Inv) {a : Acceptor.Label n}
    (ha : s.Enabled (.acceptor a)) {acceptor : Acceptor n} (hs : s.acceptor.step a = .ok acceptor)
    {fd : Fin n} {f : OpenFile} (hfd : s.acceptor.descriptors fd = some f) (hown : ¬ f.Own)
    (hother : f ≠ .other) : acceptor.descriptors fd = some f := by
  obtain ⟨henabled, -, hclose⟩ := ha.acceptor
  obtain ⟨_, hs', -, halone⟩ := h.step henabled
  cases hs.symm.trans hs'
  refine halone fd f hfd hown fun heq => hother ?_
  have hopen := hclose fd heq
  rw [hfd] at hopen
  exact Option.some.inj hopen

/-- The server closes nothing. -/
theorem closes_eq (s : ListeningServer n) (a : TcpServer.Label) : s.closes a = [] := by
  cases a with
  | destruct k =>
    simp only [closes]
    cases s.sockfds[k]? with
    | none => rfl
    | some fd => rfl
  | newConnection | functor | dispatch | call | acquire | release => rfl

theorem of_step_server {s s' : ListeningServer n} {a : TcpServer.Label}
    (h : s.step (.server a) = .ok s') :
    ∃ server, s.server.step a = .ok server ∧ s' = { s with server } := by
  obtain ⟨server, hserver, hs⟩ := bind_eq_ok.mp h
  cases hs
  exact ⟨server, ok_of_mapError hserver, by simp [closes_eq]⟩

theorem of_step_acceptor {s s' : ListeningServer n} {a : Acceptor.Label n}
    (h : s.step (.acceptor a) = .ok s') : s.acceptor.step a = .ok s'.acceptor := by
  obtain ⟨acceptor, hacceptor, hs⟩ := bind_eq_ok.mp h
  rw [ok_of_mapError hacceptor]
  cases hover : s.acceptor.handsOver a with
  | none =>
    simp only [hover] at hs
    cases hs
    rfl
  | some connfd =>
    simp only [hover] at hs
    obtain ⟨server, -, hs⟩ := bind_eq_ok.mp hs
    cases hs
    rfl

theorem Inv.step {s s' : ListeningServer n} (h : s.Inv) {a : Label n} (ha : s.Enabled a)
    (hs : s.step a = .ok s') : s'.Inv := by
  cases a with
  | server a =>
    obtain ⟨server, hserver, rfl⟩ := of_step_server hs
    have hgone : server.gone.length = s.server.gone.length := by
      by_cases hdtor : ∀ k, a ≠ .destruct k
      · rw [TcpServer.gone_step ha.1 hdtor hserver]
      · obtain ⟨k, rfl⟩ : ∃ k, a = .destruct k := by simpa using hdtor
        exact TcpServer.length_destruct hserver
    exact ⟨h.acceptor, h.newConnectionCallback, h.listener, h.opened, hgone.trans h.accepted⟩
  | acceptor a =>
    obtain ⟨henabled, hdtor, -⟩ := ha.acceptor
    obtain ⟨acceptor, hacceptor, hs⟩ := bind_eq_ok.mp hs
    have hacceptor := ok_of_mapError hacceptor
    obtain ⟨_, hstep, hinv, -⟩ := h.acceptor.step henabled
    cases hacceptor.symm.trans hstep
    obtain ⟨lfd, hlfd⟩ := h.listener
    have hlistener := keeps_open h.acceptor ha hacceptor hlfd id (by decide)
    have hopened : s.sockfds.map acceptor.descriptors =
        s.acceptor.handed.map fun c => some (.handed c) := by
      rw [← h.opened]
      refine List.map_congr_left fun fd hfd => ?_
      have hmem := List.mem_map_of_mem (f := s.acceptor.descriptors) hfd
      rw [h.opened] at hmem
      obtain ⟨c, -, hc⟩ := List.mem_map.mp hmem
      rw [← hc]
      exact keeps_open h.acceptor ha hacceptor hc.symm id (by simp)
    cases hover : s.acceptor.handsOver a with
    | none =>
      simp only [hover] at hs
      cases hs
      obtain ⟨hhanded, hcb⟩ :=
        Acceptor.handed_of_none h.newConnectionCallback hover hdtor hacceptor
      exact ⟨hinv, hcb, ⟨lfd, hlistener⟩, by rw [hhanded, hopened], h.accepted⟩
    | some connfd =>
      simp only [hover] at hs
      obtain ⟨server, hserver, hs⟩ := bind_eq_ok.mp hs
      cases hs
      obtain ⟨hcb, hfree, c, hhanded, hupdate⟩ := Acceptor.handed_of_some hover hacceptor
      refine ⟨hinv, hcb, ⟨lfd, hlistener⟩, ?_, ?_⟩
      · have hconnfd : acceptor.descriptors connfd = some (.handed c) := by
          rw [hupdate, Function.update_self]
        rw [hhanded, List.map_append, List.map_append, hopened]
        simp [hconnfd]
      · rw [TcpServer.gone_newConnection (ok_of_mapError hserver)]
        simp [h.accepted]

/-! ## Runs -/

/-- **Descriptors last.** Along every run of a listening server, whatever has
become of the connections, each one that was ever accepted has a descriptor of
its own that is still open; with that of the listening socket they are at most
`n`. -/
theorem descriptors_last {opened : Fin n → Bool} (ipPort : IpPort) (name : String)
    (writeCompleteCallback : Bool) (numThreads : Nat) {s t : ListeningServer n}
    (hnew : new opened (.new ipPort name writeCompleteCallback numThreads) = .ok s)
    {steps : List (Label n)} (hrun : Run step s steps t) (hsteps : Along step Enabled s steps) :
    t.sockfds.length = t.server.accepted.length ∧ t.sockfds.Nodup ∧
      (∀ fd ∈ t.sockfds, ∃ c, t.acceptor.descriptors fd = some (.handed c)) ∧
      t.server.accepted.length < n := by
  have hinv : t.Inv := hrun.invariant hsteps (new_inv hnew rfl) fun _ _ _ h ha hs => h.step ha hs
  have hnodup : t.sockfds.Nodup := by
    have hhanded : (t.sockfds.map t.acceptor.descriptors).Nodup := by
      rw [hinv.opened]
      exact hinv.acceptor.handed_nodup.map fun c c' heq => by simpa using heq
    exact hhanded.of_map _
  have hopen : ∀ fd ∈ t.sockfds, ∃ c, t.acceptor.descriptors fd = some (.handed c) := by
    intro fd hfd
    have hmem := List.mem_map_of_mem (f := t.acceptor.descriptors) hfd
    rw [hinv.opened] at hmem
    obtain ⟨c, -, hc⟩ := List.mem_map.mp hmem
    exact ⟨c, hc.symm⟩
  have hlength : t.sockfds.length = t.server.accepted.length := by
    rw [← hinv.accepted, TcpServer.gone, List.length_map]
  refine ⟨hlength, hnodup, hopen, ?_⟩
  obtain ⟨lfd, hlfd⟩ := hinv.listener
  have hcons : (lfd :: t.sockfds).Nodup := by
    refine List.nodup_cons.mpr ⟨fun hmem => ?_, hnodup⟩
    obtain ⟨c, hc⟩ := hopen lfd hmem
    rw [hlfd] at hc
    cases hc
  have hcard := hcons.length_le_card
  rw [Fintype.card_fin, List.length_cons, hlength] at hcard
  exact hcard

/-- The server of the samples. -/
def echo : TcpServer := .new ⟨"0.0.0.0:2037", by decide⟩ "echo" false 0

/-- One connection, which its user closes, to its end. -/
def oneConnection : List (Label 4) :=
  [.acceptor .listen, .acceptor .arrive, .acceptor (.handleRead none .none), .server (.acquire 0),
   .server (.call 0 true .forceClose (.written 0)), .server (.release 0),
   .server (.functor 0 (.written 0)), .server (.functor 0 (.written 0)), .server (.destruct 0)]

theorem oneConnection_enabled {s : ListeningServer 4}
    (hnew : new (fun fd => decide (fd = 0)) echo = .ok s) : Along step Enabled s oneConnection := by
  cases hnew
  refine (steps_cons_ok rfl).mpr ⟨rfl, ?_⟩
  refine (steps_cons_ok rfl).mpr ⟨rfl, ?_⟩
  refine (steps_cons_ok rfl).mpr ⟨⟨rfl, rfl, by decide⟩, ?_⟩
  refine (steps_cons_ok rfl).mpr ⟨⟨by simp, _, rfl, rfl, .head _⟩, ?_⟩
  refine (steps_cons_ok rfl).mpr ⟨⟨by simp, _, rfl, rfl, trivial⟩, ?_⟩
  refine (steps_cons_ok rfl).mpr ⟨⟨by simp, _, rfl, rfl⟩, ?_⟩
  refine (steps_cons_ok rfl).mpr ⟨⟨by simp, List.cons_ne_nil _ _⟩, ?_⟩
  refine (steps_cons_ok rfl).mpr ⟨⟨by simp, List.cons_ne_nil _ _⟩, ?_⟩
  refine ⟨⟨by simp, _, rfl, rfl, rfl, fun name => ?_, fun loop t ht => ?_⟩, fun _ _ => trivial⟩
  · change Function.update (Function.update (fun _ => none) (echo.connName 1) (some 0))
      (echo.connName 1) none name ≠ some 0
    rw [Function.update_idem]
    by_cases hname : name = echo.connName 1
    · simp [hname]
    · simp [hname]
  · cases loop with
    | zero => exact absurd ht List.not_mem_nil
    | succ n => exact absurd ht List.not_mem_nil

/-- Behind the end of the connection its descriptor is open. -/
theorem descriptors_last_sample :
    ∃ s t : ListeningServer 4, new (fun fd => decide (fd = 0)) echo = .ok s ∧
      Run step s oneConnection t ∧ t.sockfds = [3] ∧
      ∀ fd ∈ t.sockfds, ∃ c, t.acceptor.descriptors fd = some (.handed c) := by
  have hnew : new (fun fd : Fin 4 => decide (fd = 0)) echo = .ok _ := rfl
  refine ⟨_, _, hnew, run_iff_foldlM.mpr rfl, rfl, ?_⟩
  exact (descriptors_last _ _ _ _ hnew (run_iff_foldlM.mpr rfl) (oneConnection_enabled hnew)).2.2.1

end ListeningServer

/-! ## How many -/

namespace Acceptor

variable {n : Nat}

/-- The descriptor that `handleRead` has given up for the moment. -/
def missing (s : Acceptor n) : Nat :=
  match s.place with
  | .acceptIdle | .openIdle => 1
  | _ => 0

/-- The fates of `m` connections when the first `cap` are handed over. -/
def schedule (cap m : Nat) : List Fate :=
  List.replicate (min m cap) .handed ++ List.replicate (m - cap) .turnedAway

theorem schedule_succ (cap m : Nat) :
    schedule cap (m + 1) = schedule cap m ++ [if m < cap then .handed else .turnedAway] := by
  unfold schedule
  split
  · rename_i hlt
    rw [Nat.min_eq_left hlt, Nat.min_eq_left (Nat.le_of_lt hlt), Nat.sub_eq_zero_of_le hlt,
      Nat.sub_eq_zero_of_le (Nat.le_of_lt hlt)]
    simp [List.replicate_succ']
  · rename_i hge
    have hle : cap ≤ m := Nat.le_of_not_lt hge
    rw [Nat.min_eq_right hle, Nat.min_eq_right (Nat.le_succ_of_le hle), Nat.succ_sub hle,
      List.replicate_succ', List.append_assoc]

theorem getElem?_schedule {cap m k : Nat} (h : k < m) :
    (schedule cap m)[k]? = some (if k < cap then .handed else .turnedAway) := by
  unfold schedule
  by_cases hk : k < cap
  · rw [List.getElem?_append_left (by simp; omega), List.getElem?_replicate_of_lt (by omega),
      if_pos hk]
  · rw [List.getElem?_append_right (by simp; omega), List.length_replicate,
      List.getElem?_replicate_of_lt (by omega), if_neg hk]

theorem count_schedule (cap m : Nat) : (schedule cap m).count .handed = min m cap := by
  simp [schedule, List.count_append, List.count_replicate]

theorem length_handed (s : Acceptor n) :
    s.handed.length = (s.fates.map Prod.snd).count .handed := by
  have hpending : (s.pending.map Prod.snd).count .handed = 0 := by
    rw [List.count_eq_zero]
    unfold pending
    split <;> simp
  rw [fates, List.map_append, List.count_append, hpending, Nat.add_zero, handed, List.length_map,
    ← List.countP_eq_length_filter, List.count, List.countP_map]
  rfl

/-- What is open, with what is given up for the moment, grows with what is
handed over; no connection is closed for want of a callback. -/
def Spends (s s' : Acceptor n) : Prop :=
  s'.descriptors.count + s'.missing + s.handed.length =
      s.descriptors.count + s.missing + s'.handed.length ∧
    ∀ fd c, s'.place ≠ .closeConn fd c

theorem spends_handleRead {s : Acceptor n} (hrest : s.place = .rest)
    (hback : s.backlog ≠ []) (hcb : s.newConnectionCallback = true) :
    s.Spends (s.handleRead none .none) := by
  obtain ⟨c, rest, hbacklog⟩ := List.exists_cons_of_ne_nil hback
  by_cases hfull : s.descriptors.Full
  · have hread : s.handleRead none .none = { s with place := .closeIdle } := by
      simp [Acceptor.handleRead, accept4_full hfull, acceptErrno, Clobber.none]
    rw [hread]
    exact ⟨by simp [missing, hrest, handed], by simp⟩
  · obtain ⟨fd, hacc, hlow⟩ := accept4_of_room hfull hbacklog
    have hread : s.handleRead none .none =
        { s.take fd (.handed c) with served := s.served ++ [(c, .handed)] } := by
      simp [Acceptor.handleRead, hacc, hcb]
    have hcount := Descriptors.count_open (Descriptors.free_of_lowest hlow) (OpenFile.handed c)
    rw [hread]
    refine ⟨?_, by simp [take, hrest]⟩
    simp only [missing, take, hrest, handed, hcount, List.filter_append, List.map_append,
      List.length_append]
    simp
    omega

theorem Kept.spends_next {s s' : Acceptor n} (h : s.Kept) (hrest : s.place ≠ .rest)
    (hconn : ∀ fd c, s.place ≠ .closeConn fd c) (hs : s.next none = .ok s') : s.Spends s' := by
  have hhanded := (next_handed hs).1
  suffices hcount : s'.descriptors.count + s'.missing = s.descriptors.count + s.missing ∧
      ∀ fd c, s'.place ≠ .closeConn fd c by
    refine ⟨?_, hcount.2⟩
    rw [hhanded, hcount.1]
  unfold Acceptor.next at hs
  cases hp : s.place with simp only [hp] at hs
  | rest => exact absurd hp hrest
  | gone =>
    cases hs
    exact ⟨rfl, by simp [hp]⟩
  | closeConn connfd c => exact absurd hp (hconn connfd c)
  | closeIdle =>
    obtain ⟨idle, hidle⟩ := Option.ne_none_iff_exists'.mp (h.idle (.inr (.inl hp)))
    have hholds : s.Holds idle .devNull := by simp [Holds, hp, hidle]
    have hcount := Descriptors.count_close ((h.inv.owns idle .devNull trivial).mpr hholds)
    rw [hidle, close_own h.inv.owns (f := .devNull) trivial hholds] at hs
    cases hs
    exact ⟨by simpa [missing, hp] using hcount, by simp⟩
  | acceptIdle =>
    obtain ⟨c, rest, hbacklog⟩ := List.exists_cons_of_ne_nil (h.waiting (.inr hp))
    obtain ⟨fd, hacc, hlow⟩ := accept4_of_room (h.room (.inl hp)) hbacklog
    have hcount := Descriptors.count_open (Descriptors.free_of_lowest hlow) (OpenFile.peer c)
    rw [hacc] at hs
    cases hs
    exact ⟨by simpa [missing, take, hp] using hcount, by simp⟩
  | closeAccepted c =>
    cases c with
    | none => exact absurd hp h.accepted
    | some c =>
      obtain ⟨fd, hidle⟩ := Option.isSome_iff_exists.mp (h.inv.accepted (some c) hp)
      have hholds : s.Holds fd (.peer c) := by simp [Holds, hp, hidle]
      have hcount := Descriptors.count_close ((h.inv.owns fd (.peer c) trivial).mpr hholds)
      rw [hidle, close_own h.inv.owns (f := .peer c) trivial hholds] at hs
      cases hs
      exact ⟨by simpa [missing, hp] using hcount, by simp⟩
  | openIdle =>
    obtain ⟨fd, hlow⟩ := Descriptors.exists_lowest (h.room (.inr hp))
    have hcount := Descriptors.count_open (Descriptors.free_of_lowest hlow) OpenFile.devNull
    rw [hlow] at hs
    cases hs
    exact ⟨by simpa [missing, hp] using hcount, by simp⟩

/-- The other code opens and closes nothing. -/
def Alone : Label n → Prop
  | .openOther | .closeOther _ => False
  | _ => True

theorem Kept.spends_step {s s' : Acceptor n} (h : s.Kept) (hcb : s.newConnectionCallback = true)
    (hconn : ∀ fd c, s.place ≠ .closeConn fd c) {a : Label n} (ha : s.Enabled a)
    (hsh : s.Sheltered a) (halone : Alone a) (hdtor : a ≠ .dtor) (hs : s.step a = .ok s') :
    s.Spends s' := by
  cases a with
  | listen | arrive | abort =>
    cases hs
    exact ⟨rfl, hconn⟩
  | handleRead fails log =>
    obtain ⟨rfl, rfl, hback⟩ := hsh
    cases hs
    exact spends_handleRead ha.1 hback hcb
  | next fails =>
    obtain rfl : fails = none := hsh
    exact h.spends_next ha.1 hconn hs
  | dtor => exact absurd rfl hdtor
  | openOther | closeOther => exact halone.elim

/-- What a report promises is as there is room. -/
theorem promised_fates {s : Acceptor n} (hcb : s.newConnectionCallback = true) {a : Label n}
    (ha : s.Enabled a) (hsh : s.Sheltered a) :
    s.promised a = [] ∨ s.place = .rest ∧ (s.promised a).map Prod.snd =
      [if s.descriptors.Full then .turnedAway else .handed] := by
  cases a with
  | handleRead fails log =>
    obtain ⟨-, -, hback⟩ := hsh
    obtain ⟨c, rest, hbacklog⟩ := List.exists_cons_of_ne_nil hback
    refine .inr ⟨ha.1, ?_⟩
    by_cases hfull : s.descriptors.Full <;> simp [promised, hbacklog, hfull, hcb]
  | listen | next | dtor | arrive | abort | openOther | closeOther => exact .inl rfl

end Acceptor

namespace ListeningServer

variable {n : Nat}

/-- What the world leaves to the acceptor, which is alone with the server. -/
def Sheltered (s : ListeningServer n) : Label n → Prop
  | .acceptor a => s.acceptor.Sheltered a ∧ Acceptor.Alone a
  | .server _ => True

/-- The descriptors that are left for connections. -/
def capacity (opened : Fin n → Bool) : Nat :=
  n - (Finset.univ.filter fun fd => opened fd = true).card - 2

structure Metered (cap : Nat) (s : ListeningServer n) : Prop where
  inv : s.Inv
  kept : s.acceptor.Kept
  count : s.acceptor.descriptors.count + s.acceptor.missing + cap =
    n + s.acceptor.handed.length
  fates : s.acceptor.fates.map Prod.snd = Acceptor.schedule cap s.acceptor.fates.length
  place : ∀ fd c, s.acceptor.place ≠ .closeConn fd c

theorem Metered.full_iff {cap : Nat} {s : ListeningServer n} (h : s.Metered cap)
    (hrest : s.acceptor.place = .rest) :
    s.acceptor.descriptors.Full ↔ cap ≤ s.acceptor.fates.length := by
  have hcount := h.count
  have hmissing : s.acceptor.missing = 0 := by simp [Acceptor.missing, hrest]
  rw [Descriptors.full_iff_count]
  rw [Acceptor.length_handed, h.fates, Acceptor.count_schedule] at hcount
  omega

theorem Metered.step {cap : Nat} {s s' : ListeningServer n} (h : s.Metered cap) {a : Label n}
    (ha : s.Enabled a) (hsh : s.Sheltered a) (hs : s.step a = .ok s') : s'.Metered cap := by
  have hinv := h.inv.step ha hs
  cases a with
  | server a =>
    obtain ⟨server, -, rfl⟩ := of_step_server hs
    exact ⟨hinv, h.kept, h.count, h.fates, h.place⟩
  | acceptor a =>
    have hstep := of_step_acceptor hs
    obtain ⟨henabled, hdtor, -⟩ := ha.acceptor
    have hcb := h.inv.newConnectionCallback
    have hserves := h.kept.step henabled hsh.1 hstep
    have hspends := h.kept.spends_step hcb h.place henabled hsh.1 hsh.2 hdtor hstep
    refine ⟨hinv, hserves.1, ?_, ?_, hspends.2⟩
    · have hcount := h.count
      have hspent := hspends.1
      omega
    · rw [hserves.2, List.map_append, List.length_append, h.fates]
      rcases Acceptor.promised_fates hcb henabled hsh.1 with hnil | ⟨hrest, hone⟩
      · simp [hnil]
      · have hlength : (s.acceptor.promised a).length = 1 := by
          rw [← List.length_map (f := Prod.snd), hone, List.length_singleton]
        rw [hlength, hone, Acceptor.schedule_succ]
        by_cases hlt : s.acceptor.fates.length < cap
        · simp [h.full_iff hrest, hlt, Nat.not_le.mpr hlt]
        · simp [h.full_iff hrest, hlt, Nat.not_lt.mp hlt]

theorem new_metered {opened : Fin n → Bool} {server : TcpServer} {s : ListeningServer n}
    (h : new opened server = .ok s) (hserver : server.accepted = []) :
    s.Metered (capacity opened) := by
  have hinv := new_inv h hserver
  obtain ⟨acceptor, hnew, hs⟩ := bind_eq_ok.mp h
  cases hs
  have hnew := ok_of_mapError hnew
  obtain ⟨hkept, hplace, hserved⟩ := Acceptor.Kept.of_new hnew
  have hfates : acceptor.fates = [] := by simp [Acceptor.fates, Acceptor.pending, hplace, hserved]
  refine ⟨hinv, hkept, ?_, by simp [hfates, Acceptor.schedule], by simp [hplace]⟩
  have hmissing : acceptor.missing = 0 := by simp [Acceptor.missing, hplace]
  have hhanded : acceptor.handed = [] := by simp [Acceptor.handed, hserved]
  have hcount : acceptor.descriptors.count =
      (Finset.univ.filter fun fd => opened fd = true).card + 2 := by
    dsimp only [Acceptor.new] at hnew
    split at hnew
    · cases hnew
    rename_i sockfd hsock
    split at hnew
    · cases hnew
    rename_i fd hfd
    cases hnew
    have hsockfd := Descriptors.count_open (Descriptors.free_of_lowest hsock) OpenFile.listener
    have hidle := Descriptors.count_open (Descriptors.free_of_lowest hfd) OpenFile.devNull
    rw [hidle, hsockfd]
    have hfirst : Descriptors.count (fun fd : Fin n =>
        if opened fd then some OpenFile.other else none) =
          (Finset.univ.filter fun fd => opened fd = true).card := by
      rw [Descriptors.count]
      congr 1
      ext fd
      cases hfd : opened fd <;> simp [hfd]
    omega
  have hle := acceptor.descriptors.count_le
  change acceptor.descriptors.count + acceptor.missing + _ = n + acceptor.handed.length
  rw [hmissing, hhanded, hcount, capacity, List.length_nil]
  omega

/-- **Capacity for life.** When the acceptor is left alone with the server, and
the world does to it only what it can deal with, the first `capacity` of the
connections that it takes are accepted by the server, and all others are turned
away, whatever has become of the first ones. -/
theorem capacity_for_life {opened : Fin n → Bool} (ipPort : IpPort) (name : String)
    (writeCompleteCallback : Bool) (numThreads : Nat) {s t : ListeningServer n}
    (hnew : new opened (.new ipPort name writeCompleteCallback numThreads) = .ok s)
    {steps : List (Label n)} (hrun : Run step s steps t) (hsteps : Along step Enabled s steps)
    (hsheltered : Along step Sheltered s steps) (hrest : t.acceptor.place = .rest) :
    (∀ k c f, t.acceptor.served[k]? = some (c, f) → (f = .handed ↔ k < capacity opened)) ∧
      t.server.accepted.length = min t.acceptor.served.length (capacity opened) := by
  have h : t.Metered (capacity opened) :=
    hrun.invariant (E := fun s a => s.Enabled a ∧ s.Sheltered a) (hsteps.and hsheltered)
      (new_metered hnew rfl) fun _ _ _ h ha hs => h.step ha.1 ha.2 hs
  have hserved : t.acceptor.fates = t.acceptor.served := by
    simp [Acceptor.fates, Acceptor.pending, hrest]
  have hfates := h.fates
  rw [hserved] at hfates
  constructor
  · intro k c f hk
    have hlt := (List.getElem?_eq_some_iff.mp hk).1
    have hfate : (t.acceptor.served.map Prod.snd)[k]? = some f := by simp [hk]
    rw [hfates, Acceptor.getElem?_schedule hlt, Option.some.injEq] at hfate
    subst hfate
    by_cases hcap : k < capacity opened <;> simp [hcap]
  · have hlength := congrArg List.length h.inv.opened
    rw [List.length_map, List.length_map] at hlength
    have haccepted := h.inv.accepted
    rw [TcpServer.gone, List.length_map] at haccepted
    rw [haccepted, hlength, Acceptor.length_handed, hserved, hfates, Acceptor.count_schedule]

/-- Another connection arrives. -/
def nextConnection : List (Label 4) :=
  [.acceptor .arrive, .acceptor (.handleRead none .none), .acceptor (.next none),
   .acceptor (.next none), .acceptor (.next none), .acceptor (.next none)]

theorem oneConnection_sheltered {s : ListeningServer 4}
    (hnew : new (fun fd => decide (fd = 0)) echo = .ok s) :
    Along step Sheltered s oneConnection := by
  cases hnew
  refine (steps_cons_ok rfl).mpr ⟨⟨trivial, trivial⟩, ?_⟩
  refine (steps_cons_ok rfl).mpr ⟨⟨trivial, trivial⟩, ?_⟩
  refine (steps_cons_ok rfl).mpr ⟨⟨⟨rfl, rfl, by simp⟩, trivial⟩, ?_⟩
  refine (steps_cons_ok rfl).mpr ⟨trivial, ?_⟩
  refine (steps_cons_ok rfl).mpr ⟨trivial, ?_⟩
  refine (steps_cons_ok rfl).mpr ⟨trivial, ?_⟩
  refine (steps_cons_ok rfl).mpr ⟨trivial, ?_⟩
  refine (steps_cons_ok rfl).mpr ⟨trivial, ?_⟩
  exact ⟨trivial, fun _ _ => trivial⟩

/-- Room for one connection: the next one is turned away, although the first is
gone. -/
theorem capacity_for_life_sample :
    ∃ s t : ListeningServer 4, new (fun fd => decide (fd = 0)) echo = .ok s ∧
      Run step s (oneConnection ++ nextConnection) t ∧
      (∀ k c f, t.acceptor.served[k]? = some (c, f) →
        (f = .handed ↔ k < capacity fun fd : Fin 4 => decide (fd = 0))) ∧
      t.acceptor.served.length = 2 ∧ t.server.accepted.length = 1 := by
  have hnew : new (fun fd : Fin 4 => decide (fd = 0)) echo = .ok _ := rfl
  refine ⟨_, _, hnew, run_iff_foldlM.mpr rfl, ?_, rfl, rfl⟩
  refine (@capacity_for_life 4 _ _ _ _ _ _ _ hnew (oneConnection ++ nextConnection)
    (run_iff_foldlM.mpr rfl) ?_ ?_ rfl).1
  · refine (oneConnection_enabled hnew).append (run_iff_foldlM.mpr rfl) ?_
    refine (steps_cons_ok rfl).mpr ⟨rfl, ?_⟩
    refine (steps_cons_ok rfl).mpr ⟨⟨rfl, rfl, by decide⟩, ?_⟩
    refine (steps_cons_ok rfl).mpr ⟨⟨by decide, by decide⟩, ?_⟩
    refine (steps_cons_ok rfl).mpr ⟨⟨by decide, by decide⟩, ?_⟩
    refine (steps_cons_ok rfl).mpr ⟨⟨by decide, by decide⟩, ?_⟩
    exact ⟨⟨by decide, by decide⟩, fun _ _ => trivial⟩
  · refine (oneConnection_sheltered hnew).append (run_iff_foldlM.mpr rfl) ?_
    refine (steps_cons_ok rfl).mpr ⟨⟨trivial, trivial⟩, ?_⟩
    refine (steps_cons_ok rfl).mpr ⟨⟨⟨rfl, rfl, by decide⟩, trivial⟩, ?_⟩
    refine (steps_cons_ok rfl).mpr ⟨⟨rfl, trivial⟩, ?_⟩
    refine (steps_cons_ok rfl).mpr ⟨⟨rfl, trivial⟩, ?_⟩
    refine (steps_cons_ok rfl).mpr ⟨⟨rfl, trivial⟩, ?_⟩
    exact ⟨⟨rfl, trivial⟩, fun _ _ => trivial⟩

end ListeningServer

end Muduo
