import Mathlib.Data.List.Perm.Subperm
import Mathlib.Data.List.Range
import Muduo.Lib.Descriptors
import Muduo.Lib.Fifo

/-!
`net/Acceptor.cpp` with `Socket::accept` and `sockets::accept`: the listening
side of a server in a process with `n` descriptors. Every system call is a step
of its own; between two of them the other threads open and close descriptors of
theirs, and peers arrive and give up. A connection is known by its place in the
order of arrival.

* `closes_its_own`: a `close(2)` of the acceptor hits what it has opened itself,
  and nothing of it is left open between two calls of `handleRead`;
* `connections_accounted_for`: a connection that has arrived is handed over,
  turned away, given up or still waiting, one of these and once, in order.
-/

namespace Muduo

open Lib

/-- `errno` behind `accept4(2)` and `open(2)`, as `sockets::accept` tells it apart. -/
inductive AcceptErrno where
  | EAGAIN
  | ECONNABORTED
  | EINTR
  | EPROTO
  | EPERM
  | EMFILE
  | EBADF
  | EFAULT
  | EINVAL
  | ENFILE
  | ENOBUFS
  | ENOMEM
  | ENOTSOCK
  | EOPNOTSUPP
  | other (code : Nat)
  deriving DecidableEq, Repr

/-- What the `LOG_DEBUG` lines leave in `errno` when they change it: the two of
`sockets::accept` and the one of `handleRead`. -/
structure Clobber where
  failed : Option AcceptErrno
  unexpected : Option AcceptErrno
  handleRead : Option AcceptErrno
  deriving DecidableEq

def Clobber.none : Clobber := ⟨.none, .none, .none⟩

/-- `errno` behind a failed `sockets::accept`. Only for an expected error is the
saved value put back. -/
def acceptErrno (savedErrno : AcceptErrno) (log : Clobber) : AcceptErrno :=
  match savedErrno with
  | .EAGAIN | .ECONNABORTED | .EINTR | .EPROTO | .EPERM | .EMFILE => savedErrno
  | _ => log.unexpected.getD (log.failed.getD savedErrno)

/-- What is open under a descriptor of the process. -/
inductive OpenFile where
  /-- `acceptSocket_` -/
  | listener
  /-- `/dev/null`, opened by the acceptor -/
  | devNull
  /-- a connection that `handleRead` has in hand -/
  | peer (c : Nat)
  /-- a connection that was handed to the callback -/
  | handed (c : Nat)
  /-- opened by other code -/
  | other
  deriving DecidableEq

/-- The acceptor has opened it and has not passed it on. -/
def OpenFile.Own : OpenFile → Prop
  | .devNull | .peer _ => True
  | _ => False

instance (f : OpenFile) : Decidable f.Own := by
  cases f <;> unfold OpenFile.Own <;> infer_instance

/-- What becomes of a connection that is taken from the backlog. -/
inductive Fate where
  | handed
  | turnedAway
  deriving DecidableEq

/-- The next system call of `handleRead`. -/
inductive AcceptorPlace (n : Nat) where
  /-- not in `handleRead` -/
  | rest
  /-- `sockets::close(connfd)` -/
  | closeConn (connfd : Fin n) (c : Nat)
  /-- `::close(idleFd_)`, behind `EMFILE` -/
  | closeIdle
  /-- `idleFd_ = ::accept(…)` -/
  | acceptIdle
  /-- `::close(idleFd_)` of what was accepted, a connection or nothing -/
  | closeAccepted (c : Option Nat)
  /-- `idleFd_ = ::open("/dev/null", …)` -/
  | openIdle
  /-- behind the destructor -/
  | gone
  deriving DecidableEq

structure Acceptor (n : Nat) where
  descriptors : Descriptors n OpenFile
  /-- `newConnectionCallback_` is set -/
  newConnectionCallback : Bool
  listenning : Bool
  /-- `none` is `-1` -/
  idleFd : Option (Fin n)
  place : AcceptorPlace n
  /-- the connections that wait in the kernel -/
  backlog : List Nat
  arrived : Nat
  aborted : List Nat
  /-- what has become of the connections taken, in order -/
  served : List (Nat × Fate)

/-- A run ends at a failed assertion, or with a `close(2)` of a descriptor that
is not the acceptor's. -/
inductive AcceptorFailure where
  | idleFd
  | foreignClose
  deriving DecidableEq

namespace Acceptor

variable {n : Nat}

/-- The constructor in a process that has opened some descriptors. When the
table is full no socket is created, and `/dev/null` is not opened either. -/
def new (opened : Fin n → Bool) (newConnectionCallback : Bool) :
    Except AcceptorFailure (Acceptor n) :=
  let descriptors : Descriptors n OpenFile := fun fd => if opened fd then some .other else none
  match descriptors.lowest with
  | none => .error .idleFd
  | some sockfd =>
    let descriptors : Descriptors n OpenFile := Function.update descriptors sockfd (some .listener)
    match descriptors.lowest with
    | none => .error .idleFd
    | some fd => .ok {
        descriptors := Function.update descriptors fd (some .devNull)
        newConnectionCallback := newConnectionCallback
        listenning := false
        idleFd := some fd
        place := .rest
        backlog := []
        arrived := 0
        aborted := []
        served := [] }

/-- `accept4(2)`: a descriptor comes first, then a connection. `fails` is any
other error. -/
def accept4 (s : Acceptor n) (fails : Option AcceptErrno) : Except AcceptErrno (Fin n × Nat) :=
  match s.descriptors.lowest, fails, s.backlog with
  | none, _, _ => .error .EMFILE
  | some _, some errno, _ => .error errno
  | some _, none, [] => .error .EAGAIN
  | some fd, none, c :: _ => .ok (fd, c)

/-- `close(2)`; of `-1` it is `EBADF`. -/
def close (s : Acceptor n) : Option (Fin n) → Except AcceptorFailure (Acceptor n)
  | none => .ok s
  | some fd =>
    match s.descriptors fd with
    | some .devNull => .ok { s with descriptors := Function.update s.descriptors fd none }
    | some (.peer c) => .ok { s with
        descriptors := Function.update s.descriptors fd none
        served := s.served ++ [(c, .turnedAway)] }
    | _ => .error .foreignClose

/-- The head of the backlog is open under `fd`. -/
def take (s : Acceptor n) (fd : Fin n) (f : OpenFile) : Acceptor n :=
  { s with descriptors := Function.update s.descriptors fd (some f), backlog := s.backlog.tail }

def handleRead (s : Acceptor n) (fails : Option AcceptErrno) (log : Clobber) : Acceptor n :=
  match s.accept4 fails with
  | .ok (connfd, c) =>
    if s.newConnectionCallback then
      { s.take connfd (.handed c) with served := s.served ++ [(c, .handed)] }
    else { s.take connfd (.peer c) with place := .closeConn connfd c }
  | .error errno =>
    if log.handleRead.getD (acceptErrno errno log) = .EMFILE then { s with place := .closeIdle }
    else s

/-- The next system call of `handleRead`. -/
def next (s : Acceptor n) (fails : Option AcceptErrno) : Except AcceptorFailure (Acceptor n) :=
  match s.place with
  | .rest | .gone => .ok s
  | .closeConn connfd _ => do
    let s ← s.close (some connfd)
    return { s with place := .rest }
  | .closeIdle => do
    let s ← s.close s.idleFd
    return { s with place := .acceptIdle }
  | .acceptIdle =>
    match s.accept4 fails with
    | .ok (fd, c) => .ok
        { s.take fd (.peer c) with idleFd := some fd, place := .closeAccepted (some c) }
    | .error _ => .ok { s with idleFd := none, place := .closeAccepted none }
  | .closeAccepted _ => do
    let s ← s.close s.idleFd
    return { s with place := .openIdle }
  | .openIdle =>
    match s.descriptors.lowest, fails with
    | some fd, none => .ok
        { s with
          descriptors := Function.update s.descriptors fd (some .devNull)
          idleFd := some fd
          place := .rest }
    | _, _ => .ok { s with idleFd := none, place := .rest }

/-- `~Acceptor`; `Socket::~Socket` leaves the socket open. -/
def dtor (s : Acceptor n) : Except AcceptorFailure (Acceptor n) := do
  let s ← s.close s.idleFd
  return { s with place := .gone }

inductive Label (n : Nat) where
  | listen
  /-- the channel is readable -/
  | handleRead (fails : Option AcceptErrno) (log : Clobber)
  | next (fails : Option AcceptErrno)
  | dtor
  /-- a connection is set up by the kernel -/
  | arrive
  /-- a peer gives up while it waits -/
  | abort (c : Nat)
  /-- other code opens the lowest free descriptor -/
  | openOther
  /-- other code closes one of its own -/
  | closeOther (fd : Fin n)

def Enabled (s : Acceptor n) : Label n → Prop
  | .listen => s.place = .rest
  | .handleRead fails _ => s.place = .rest ∧ s.listenning = true ∧ fails ≠ some .EMFILE
  | .next _ => s.place ≠ .rest ∧ s.place ≠ .gone
  | .dtor => s.place = .rest
  | .arrive => s.listenning = true
  | .abort c => c ∈ s.backlog
  | .openOther => True
  | .closeOther fd => ∃ f, s.descriptors fd = some f ∧ ¬ f.Own ∧ f ≠ .listener

def step (s : Acceptor n) : Label n → Except AcceptorFailure (Acceptor n)
  | .listen => .ok { s with listenning := true }
  | .handleRead fails log => .ok (s.handleRead fails log)
  | .next fails => s.next fails
  | .dtor => s.dtor
  | .arrive => .ok { s with backlog := s.backlog ++ [s.arrived], arrived := s.arrived + 1 }
  | .abort c => .ok { s with backlog := s.backlog.erase c, aborted := c :: s.aborted }
  | .openOther =>
    match s.descriptors.lowest with
    | none => .ok s
    | some fd => .ok { s with descriptors := Function.update s.descriptors fd (some .other) }
  | .closeOther fd => .ok { s with descriptors := Function.update s.descriptors fd none }

/-! ## Whose descriptors they are -/

/-- What the acceptor holds at its place. -/
def Holds (s : Acceptor n) (fd : Fin n) (f : OpenFile) : Prop :=
  match s.place with
  | .rest | .closeIdle => s.idleFd = some fd ∧ f = .devNull
  | .closeConn connfd c => s.idleFd = some fd ∧ f = .devNull ∨ fd = connfd ∧ f = .peer c
  | .closeAccepted (some c) => s.idleFd = some fd ∧ f = .peer c
  | .closeAccepted none | .acceptIdle | .openIdle | .gone => False

/-- The acceptor's own entries of a table are these. -/
def Owns (t : Descriptors n OpenFile) (H : Fin n → OpenFile → Prop) : Prop :=
  ∀ fd f, f.Own → (t fd = some f ↔ H fd f)

/-- The entries of others are left alone. -/
def Keeps (t t' : Descriptors n OpenFile) : Prop :=
  ∀ fd f, t fd = some f → ¬ f.Own → t' fd = some f

theorem Keeps.refl (t : Descriptors n OpenFile) : Keeps t t := fun _ _ h _ => h

variable {t : Descriptors n OpenFile} {H : Fin n → OpenFile → Prop} {fd : Fin n} {f : OpenFile}

theorem Keeps.opened (h : t fd = none) (x : Option OpenFile) : Keeps t (Function.update t fd x) := by
  intro fd' f' hf _
  rwa [Function.update_of_ne]
  rintro rfl
  simp [h] at hf

theorem Keeps.closed (h : t fd = some f) (hf : f.Own) : Keeps t (Function.update t fd none) := by
  intro fd' f' hf' hother
  rwa [Function.update_of_ne]
  rintro rfl
  rw [h] at hf'
  cases hf'
  exact hother hf

theorem Owns.congr (h : Owns t H) {H' : Fin n → OpenFile → Prop} (hH : ∀ fd f, H fd f ↔ H' fd f) :
    Owns t H' := fun fd f hf => (h fd f hf).trans (hH fd f)

/-- A free descriptor is given to other code. -/
theorem Owns.lend (h : Owns t H) (hfree : t fd = none) (hf : ¬ f.Own) :
    Owns (Function.update t fd (some f)) H := by
  intro fd' f' hf'
  by_cases hfd : fd' = fd
  · subst hfd
    rw [Function.update_self, ← h fd' f' hf', hfree]
    refine iff_of_false ?_ nofun
    rintro ⟨⟩
    exact hf hf'
  · rw [Function.update_of_ne hfd]
    exact h fd' f' hf'

/-- Other code closes a descriptor of its own. -/
theorem Owns.returned (h : Owns t H) (hfd : t fd = some f) (hf : ¬ f.Own) :
    Owns (Function.update t fd none) H := by
  intro fd' f' hf'
  by_cases heq : fd' = fd
  · subst heq
    rw [Function.update_self, ← h fd' f' hf', hfd]
    refine iff_of_false nofun ?_
    rintro ⟨⟩
    exact hf hf'
  · rw [Function.update_of_ne heq]
    exact h fd' f' hf'

theorem Owns.opened (h : Owns t H) (hfree : t fd = none) (f : OpenFile) :
    Owns (Function.update t fd (some f)) fun fd' f' => H fd' f' ∨ fd' = fd ∧ f' = f := by
  intro fd' f' hf'
  by_cases heq : fd' = fd
  · subst heq
    have hno : ¬ H fd' f' := by simp [← h fd' f' hf', hfree]
    simp [hno, eq_comm]
  · simp [h fd' f' hf', heq]

theorem Owns.closed (h : Owns t H) (fd : Fin n) :
    Owns (Function.update t fd none) fun fd' f' => H fd' f' ∧ fd' ≠ fd := by
  intro fd' f' hf'
  by_cases heq : fd' = fd
  · subst heq
    rw [Function.update_self]
    exact iff_of_false nofun fun hH => hH.2 rfl
  · simp [h fd' f' hf', heq]

/-! ## Every step -/

/-- The connection that `handleRead` has in hand. -/
def inHand (s : Acceptor n) : List Nat :=
  match s.place with
  | .closeConn _ c | .closeAccepted (some c) => [c]
  | _ => []

/-- The connections that have not been given up, in order of arrival. -/
def line (s : Acceptor n) : List Nat := s.served.map Prod.fst ++ s.inHand ++ s.backlog

structure Inv (s : Acceptor n) : Prop where
  owns : Owns s.descriptors s.Holds
  /-- behind the second `accept`, `idleFd_` is `-1` if nothing was accepted -/
  accepted : ∀ c, s.place = .closeAccepted c → s.idleFd.isSome = c.isSome
  accounted : (s.line ++ s.aborted).Perm (List.range s.arrived)
  inOrder : s.line.Pairwise (· < ·)

theorem new_inv {opened : Fin n → Bool} {newConnectionCallback : Bool} {s : Acceptor n}
    (h : new opened newConnectionCallback = .ok s) : s.Inv := by
  dsimp only [new] at h
  split at h
  · cases h
  rename_i sockfd hsock
  split at h
  · cases h
  rename_i fd hfd
  cases h
  refine ⟨?_, by simp, by simp [line, inHand], by simp [line, inHand]⟩
  have hnone : Owns (n := n) (fun fd => if opened fd then some .other else none)
      fun _ _ => False := by
    intro fd f hf
    refine iff_of_false ?_ id
    cases hopened : opened fd with
    | true =>
      simp only [hopened, if_true]
      rintro ⟨⟩
      exact hf
    | false => simp [hopened]
  have hlistener := hnone.lend (Descriptors.free_of_lowest hsock) (f := .listener) id
  refine (hlistener.opened (Descriptors.free_of_lowest hfd) .devNull).congr fun fd' f' => ?_
  simp [Holds, eq_comm]

theorem accept4_ok {s : Acceptor n} {fails : Option AcceptErrno} {fd : Fin n} {c : Nat}
    (h : s.accept4 fails = .ok (fd, c)) :
    s.descriptors fd = none ∧ fails = none ∧ ∃ rest, s.backlog = c :: rest := by
  unfold accept4 at h
  split at h
  · cases h
  · cases h
  · cases h
  · rename_i hlow hbacklog
    cases h
    exact ⟨Descriptors.free_of_lowest hlow, rfl, _, hbacklog⟩

/-- The fate of a connection that the acceptor closes. -/
def turnedAway : OpenFile → List (Nat × Fate)
  | .peer c => [(c, .turnedAway)]
  | _ => []

/-- The acceptor closes what it holds. -/
theorem close_own {s : Acceptor n} (h : Owns s.descriptors s.Holds) {fd : Fin n} {f : OpenFile}
    (hf : f.Own) (hfd : s.Holds fd f) :
    s.close (some fd) = .ok { s with
      descriptors := Function.update s.descriptors fd none
      served := s.served ++ turnedAway f } := by
  have hopen : s.descriptors fd = some f := (h fd f hf).mpr hfd
  cases f with
  | devNull => simp [close, hopen, turnedAway]
  | peer c => simp [close, hopen, turnedAway]
  | listener | handed c | other => cases hf

/-- A step that leaves the line as it is. -/
theorem Inv.same_line {s s' : Acceptor n} (h : s.Inv) (howns : Owns s'.descriptors s'.Holds)
    (haccepted : ∀ c, s'.place = .closeAccepted c → s'.idleFd.isSome = c.isSome)
    (hline : s'.line = s.line) (haborted : s'.aborted = s.aborted)
    (harrived : s'.arrived = s.arrived) : s'.Inv :=
  ⟨howns, haccepted, by rw [hline, haborted, harrived]; exact h.accounted, hline ▸ h.inOrder⟩

/-- The step does not fail, keeps the invariant and what belongs to others. -/
def Advances (s : Acceptor n) (o : Except AcceptorFailure (Acceptor n)) : Prop :=
  ∃ s', o = .ok s' ∧ s'.Inv ∧ Keeps s.descriptors s'.descriptors

/-- A `close(2)` of `handleRead`. -/
theorem Inv.release {s : Acceptor n} (h : s.Inv) {fd : Fin n} {f : OpenFile} (hf : f.Own)
    (hfd : s.Holds fd f) {p : AcceptorPlace n}
    (hholds : ∀ fd' f', s.Holds fd' f' ∧ fd' ≠ fd ↔ { s with place := p }.Holds fd' f')
    (hp : ∀ c, p ≠ .closeAccepted c)
    (hline : { s with place := p, served := s.served ++ turnedAway f }.line = s.line) :
    s.Advances (do
      let s ← s.close (some fd)
      return { s with place := p }) := by
  rw [close_own h.owns hf hfd]
  refine ⟨_, rfl, ?_, .closed ((h.owns fd f hf).mpr hfd) hf⟩
  exact h.same_line ((h.owns.closed fd).congr hholds) (fun c hc => absurd hc (hp c)) hline rfl rfl

theorem Inv.handleRead {s : Acceptor n} (h : s.Inv) (hrest : s.place = .rest)
    (fails : Option AcceptErrno) (log : Clobber) : s.Advances (.ok (s.handleRead fails log)) := by
  refine ⟨_, rfl, ?_⟩
  unfold Acceptor.handleRead
  cases hacc : s.accept4 fails with
  | ok r =>
    obtain ⟨connfd, c⟩ := r
    obtain ⟨hfree, -, rest, hbacklog⟩ := accept4_ok hacc
    cases hcb : s.newConnectionCallback with
    | true =>
      refine ⟨h.same_line ?_ (by simp [take, hrest]) ?_ rfl rfl, .opened hfree _⟩
      · exact (h.owns.lend hfree (f := .handed c) id).congr fun fd f => by simp [Holds, take]
      · simp [line, inHand, take, hrest, hbacklog]
    | false =>
      refine ⟨h.same_line ?_ (by simp) ?_ rfl rfl, .opened hfree _⟩
      · refine (h.owns.opened hfree (.peer c)).congr fun fd f => ?_
        simp [Holds, take, hrest]
      · simp [line, inHand, take, hrest, hbacklog]
  | error errno =>
    dsimp only
    split
    · refine ⟨h.same_line (h.owns.congr fun fd f => ?_) (by simp) ?_ rfl rfl, .refl _⟩
      · simp [Holds, hrest]
      · simp [line, inHand, hrest]
    · exact ⟨h, .refl _⟩

theorem Inv.next {s : Acceptor n} (h : s.Inv) (fails : Option AcceptErrno) :
    s.Advances (s.next fails) := by
  unfold Acceptor.next
  cases hplace : s.place with dsimp only
  | rest | gone => exact ⟨s, rfl, h, .refl _⟩
  | closeConn connfd c =>
    refine h.release (f := .peer c) trivial (by simp [Holds, hplace]) (fun fd f => ?_) (by simp) ?_
    · -- `/dev/null` is open under another descriptor than the connection
      have hne : s.idleFd = some fd → f = .devNull → fd ≠ connfd := by
        rintro hidle rfl rfl
        have hnull := (h.owns fd .devNull trivial).mpr (by simp [Holds, hplace, hidle])
        have hpeer := (h.owns fd (.peer c) trivial).mpr (by simp [Holds, hplace])
        simp [hnull] at hpeer
      simp only [Holds, hplace]
      tauto
    · simp [line, inHand, hplace, turnedAway]
  | closeIdle =>
    cases hidle : s.idleFd with
    | none =>
      refine ⟨_, rfl, ?_, .refl _⟩
      refine h.same_line (h.owns.congr fun fd f => ?_) (by simp) ?_ rfl rfl
      · simp [Holds, hplace, hidle]
      · simp [line, inHand, hplace]
    | some idle =>
      refine h.release (f := .devNull) trivial (by simp [Holds, hplace, hidle]) (fun fd f => ?_)
        (by simp) ?_
      · simp only [Holds, hplace, hidle, Option.some.injEq]
        tauto
      · simp [line, inHand, hplace, turnedAway]
  | acceptIdle =>
    cases hacc : s.accept4 fails with
    | ok r =>
      obtain ⟨fd, c⟩ := r
      obtain ⟨hfree, -, rest, hbacklog⟩ := accept4_ok hacc
      refine ⟨_, rfl, ?_, .opened hfree _⟩
      refine h.same_line ((h.owns.opened hfree (.peer c)).congr fun fd f => ?_) (by simp) ?_ rfl rfl
      · simp [Holds, hplace, eq_comm]
      · simp [line, inHand, take, hplace, hbacklog]
    | error errno =>
      refine ⟨_, rfl, ?_, .refl _⟩
      refine h.same_line (h.owns.congr fun fd f => ?_) (by simp) ?_ rfl rfl
      · simp [Holds, hplace]
      · simp [line, inHand, hplace]
  | closeAccepted c =>
    cases c with
    | none =>
      have hidle : s.idleFd = none := by simpa using h.accepted none hplace
      rw [hidle]
      refine ⟨_, rfl, ?_, .refl _⟩
      refine h.same_line (h.owns.congr fun fd f => ?_) (by simp) ?_ rfl rfl
      · simp [Holds, hplace]
      · simp [line, inHand, hplace]
    | some c =>
      obtain ⟨fd, hidle⟩ : ∃ fd, s.idleFd = some fd :=
        Option.isSome_iff_exists.mp (h.accepted (some c) hplace)
      rw [hidle]
      refine h.release (f := .peer c) trivial (by simp [Holds, hplace, hidle]) (fun fd' f => ?_)
        (by simp) ?_
      · simp only [Holds, hplace, hidle, Option.some.injEq]
        tauto
      · simp [line, inHand, hplace, turnedAway]
  | openIdle =>
    split
    · rename_i fd hlow
      have hfree := Descriptors.free_of_lowest hlow
      refine ⟨_, rfl, ?_, .opened hfree _⟩
      refine h.same_line ((h.owns.opened hfree .devNull).congr fun fd f => ?_) (by simp) ?_ rfl rfl
      · simp [Holds, hplace, eq_comm]
      · simp [line, inHand, hplace]
    · refine ⟨_, rfl, ?_, .refl _⟩
      refine h.same_line (h.owns.congr fun fd f => ?_) (by simp) ?_ rfl rfl
      · simp [Holds, hplace]
      · simp [line, inHand, hplace]

theorem Inv.arrive {s : Acceptor n} (h : s.Inv) :
    { s with backlog := s.backlog ++ [s.arrived], arrived := s.arrived + 1 }.Inv := by
  have hline : { s with backlog := s.backlog ++ [s.arrived], arrived := s.arrived + 1 }.line =
      s.line ++ [s.arrived] := by simp [line, inHand]
  refine ⟨h.owns, h.accepted, ?_, ?_⟩
  · rw [hline, List.range_succ, List.append_assoc, List.singleton_append]
    exact List.perm_middle.trans ((h.accounted.cons _).trans
      (List.perm_append_singleton ..).symm)
  · rw [hline, List.pairwise_append]
    refine ⟨h.inOrder, List.pairwise_singleton .., fun c hc b hb => ?_⟩
    rw [List.mem_singleton.mp hb]
    have hmem : c ∈ s.line ++ s.aborted := List.mem_append_left _ hc
    simpa using h.accounted.mem_iff.mp hmem

theorem Inv.abort {s : Acceptor n} (h : s.Inv) {c : Nat} (hc : c ∈ s.backlog) :
    { s with backlog := s.backlog.erase c, aborted := c :: s.aborted }.Inv := by
  refine ⟨h.owns, h.accepted, ?_, ?_⟩
  · refine List.Perm.trans ?_ h.accounted
    have hback : (s.backlog.erase c ++ c :: s.aborted).Perm (s.backlog ++ s.aborted) :=
      List.perm_middle.trans ((List.perm_cons_erase hc).symm.append_right _)
    simpa [line, inHand] using (hback.append_left s.inHand).append_left (s.served.map Prod.fst)
  · exact h.inOrder.sublist ((List.erase_sublist ..).append_left _)

theorem Inv.dtor {s : Acceptor n} (h : s.Inv) (hrest : s.place = .rest) : s.Advances s.dtor := by
  unfold Acceptor.dtor
  cases hidle : s.idleFd with
  | none =>
    refine ⟨_, rfl, ?_, .refl _⟩
    refine h.same_line (h.owns.congr fun fd f => ?_) (by simp) ?_ rfl rfl
    · simp [Holds, hrest, hidle]
    · simp [line, inHand, hrest]
  | some idle =>
    refine h.release (f := .devNull) trivial (by simp [Holds, hrest, hidle]) (fun fd f => ?_)
      (by simp) ?_
    · simp only [Holds, hrest, hidle, Option.some.injEq]
      tauto
    · simp [line, inHand, hrest, turnedAway]

/-- What is open and not the acceptor's stays open, if it is not closed by who
has opened it. -/
def LeavesAlone (s : Acceptor n) (a : Label n) (s' : Acceptor n) : Prop :=
  ∀ fd f, s.descriptors fd = some f → ¬ f.Own → a ≠ .closeOther fd → s'.descriptors fd = some f

theorem Inv.step {s : Acceptor n} (h : s.Inv) {a : Label n} (ha : s.Enabled a) :
    ∃ s', s.step a = .ok s' ∧ s'.Inv ∧ s.LeavesAlone a s' := by
  have hown : ∀ {o}, s.Advances o → ∃ s', o = .ok s' ∧ s'.Inv ∧ s.LeavesAlone a s' := by
    rintro o ⟨s', ho, hinv, hkeeps⟩
    exact ⟨s', ho, hinv, fun fd f hf hother _ => hkeeps fd f hf hother⟩
  cases a with
  | listen => exact hown ⟨_, rfl, h.same_line h.owns h.accepted rfl rfl rfl, .refl _⟩
  | handleRead fails log => exact hown (h.handleRead ha.1 fails log)
  | next fails => exact hown (h.next fails)
  | dtor => exact hown (h.dtor ha)
  | arrive => exact hown ⟨_, rfl, h.arrive, .refl _⟩
  | abort c => exact hown ⟨_, rfl, h.abort ha, .refl _⟩
  | openOther =>
    refine hown ?_
    simp only [Acceptor.step]
    split
    · exact ⟨_, rfl, h, .refl _⟩
    · rename_i fd hlow
      have hfree := Descriptors.free_of_lowest hlow
      exact ⟨_, rfl, h.same_line (h.owns.lend hfree (f := .other) id) h.accepted rfl rfl rfl,
        .opened hfree _⟩
  | closeOther fd =>
    obtain ⟨f, hf, hother, -⟩ := ha
    refine ⟨_, rfl, h.same_line (h.owns.returned hf hother) h.accepted rfl rfl rfl, ?_⟩
    intro fd' f' hf' _ hne
    have hfd : fd' ≠ fd := fun heq => hne (heq ▸ rfl)
    exact (Function.update_of_ne hfd ..).trans hf'

/-! ## Runs -/

/-- The step does not fail and leaves alone what belongs to others. Outside of
`handleRead` the acceptor has nothing open but `/dev/null`, and behind its
destructor nothing at all; the listening socket is not closed by anyone. -/
def Careful (s : Acceptor n) (a : Label n) : Except AcceptorFailure (Acceptor n) → Prop
  | .error _ => False
  | .ok s' => s.LeavesAlone a s' ∧
    (s'.place = .rest → ∀ fd f, f.Own →
      (s'.descriptors fd = some f ↔ s'.idleFd = some fd ∧ f = .devNull)) ∧
    (s'.place = .gone → ∀ fd f, s'.descriptors fd = some f → ¬ f.Own)

/-- **No descriptor of another one is closed.** In every interleaving of the
system calls of `handleRead` with what the other threads open and close,
whatever the kernel answers and the log does to `errno`, each `close(2)` of the
acceptor is of `-1` or of a descriptor that it has opened itself. -/
theorem closes_its_own {opened : Fin n → Bool} {newConnectionCallback : Bool} {s : Acceptor n}
    (hnew : new opened newConnectionCallback = .ok s) (steps : List (Label n))
    (hsteps : Along step Enabled s steps) : Steps step Careful s steps := by
  refine Steps.of_invariant (I := Inv) (fun s a h ha => ?_) (fun s a s' h ha hs => ?_)
    (new_inv hnew) hsteps
  · obtain ⟨s', hs, hinv, halone⟩ := h.step ha
    rw [hs]
    refine ⟨halone, fun hrest fd f hf => ?_, fun hgone fd f hfd hf => ?_⟩
    · rw [hinv.owns fd f hf]
      simp [Holds, hrest]
    · have hholds := (hinv.owns fd f hf).mp hfd
      simp [Holds, hgone] at hholds
  · obtain ⟨_, hs', hinv, -⟩ := h.step ha
    cases hs.symm.trans hs'
    exact hinv

/-- Three descriptors, of which one is in use; the connection that arrives is
turned away with the idle one. -/
theorem closes_its_own_sample :
    ∃ s, new (fun fd : Fin 3 => decide (fd = 0)) true = .ok s ∧
      Steps step Careful s [.listen, .arrive, .handleRead none .none, .next none, .openOther,
        .next none, .next none, .next none] := by
  have hnew : new (fun fd : Fin 3 => decide (fd = 0)) true = .ok _ := rfl
  refine ⟨_, hnew, closes_its_own hnew _ ?_⟩
  refine (steps_cons_ok rfl).mpr ⟨rfl, ?_⟩
  refine (steps_cons_ok rfl).mpr ⟨rfl, ?_⟩
  refine (steps_cons_ok rfl).mpr ⟨⟨rfl, rfl, by decide⟩, ?_⟩
  refine (steps_cons_ok rfl).mpr ⟨⟨by decide, by decide⟩, ?_⟩
  refine (steps_cons_ok rfl).mpr ⟨trivial, ?_⟩
  refine (steps_cons_ok rfl).mpr ⟨⟨by decide, by decide⟩, ?_⟩
  refine (steps_cons_ok rfl).mpr ⟨⟨by decide, by decide⟩, ?_⟩
  exact (steps_cons_ok rfl).mpr ⟨⟨by decide, by decide⟩, trivial⟩

theorem reachable_inv {s t : Acceptor n} {steps : List (Label n)} (h : s.Inv)
    (hrun : Run step s steps t) (hsteps : Along step Enabled s steps) : t.Inv := by
  refine hrun.invariant hsteps h fun s a s' h ha hs => ?_
  obtain ⟨_, hs', hinv, -⟩ := h.step ha
  cases hs.symm.trans hs'
  exact hinv

/-- **No connection is lost.** Between two calls of `handleRead` every connection
that has arrived was handed to the callback, was closed, has given up or waits
in the backlog, one of these and once; they are served in order of arrival. -/
theorem connections_accounted_for {opened : Fin n → Bool} {newConnectionCallback : Bool}
    {s t : Acceptor n} (hnew : new opened newConnectionCallback = .ok s) {steps : List (Label n)}
    (hrun : Run step s steps t) (hsteps : Along step Enabled s steps)
    (hrest : t.place = .rest ∨ t.place = .gone) :
    (t.served.map Prod.fst ++ t.backlog ++ t.aborted).Perm (List.range t.arrived) ∧
      (t.served.map Prod.fst ++ t.backlog).Pairwise (· < ·) := by
  have hinv := reachable_inv (new_inv hnew) hrun hsteps
  have hline : t.line = t.served.map Prod.fst ++ t.backlog := by
    rcases hrest with hplace | hplace <;> simp [line, inHand, hplace]
  exact ⟨hline ▸ hinv.accounted, hline ▸ hinv.inOrder⟩

/-- Of two connections one gives up, and there is a descriptor for the other. -/
theorem connections_accounted_for_sample :
    ∃ s t : Acceptor 4, new (fun _ => false) true = .ok s ∧
      Run step s [.listen, .arrive, .arrive, .abort 0, .handleRead none .none] t ∧
      (t.served.map Prod.fst ++ t.backlog ++ t.aborted).Perm (List.range t.arrived) ∧
      (t.served.map Prod.fst ++ t.backlog).Pairwise (· < ·) := by
  have hnew : new (n := 4) (fun _ => false) true = .ok _ := rfl
  refine ⟨_, _, hnew, .cons rfl (.cons rfl (.cons rfl (.cons rfl (.cons rfl (.nil _))))), ?_⟩
  refine @connections_accounted_for 4 _ _ _ _ hnew
    [.listen, .arrive, .arrive, .abort 0, .handleRead none .none]
    (.cons rfl (.cons rfl (.cons rfl (.cons rfl (.cons rfl (.nil _)))))) ?_ (.inl rfl)
  refine (steps_cons_ok rfl).mpr ⟨rfl, ?_⟩
  refine (steps_cons_ok rfl).mpr ⟨rfl, ?_⟩
  refine (steps_cons_ok rfl).mpr ⟨rfl, ?_⟩
  refine (steps_cons_ok rfl).mpr ⟨List.mem_cons_self .., ?_⟩
  exact (steps_cons_ok rfl).mpr ⟨⟨rfl, rfl, by decide⟩, trivial⟩

end Acceptor

end Muduo
