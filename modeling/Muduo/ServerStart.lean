import Mathlib.Data.List.Count
import Muduo.Lib.Mutex
import Muduo.Lib.RoundRobin
import Muduo.Lib.Run

/-!
`TcpServer::start`, called by any number of threads, over
`EventLoopThreadPool::start` and `EventLoopThread::startLoop`. The caller that
finds `started_` zero creates the I/O threads one by one, waits for the loop of
each and has the acceptor listen; the others return at once. The threads run
`threadFunc` meanwhile, their loops may end at any time, and the base loop
accepts when it listens. `assertInLoopThread` only logs, so that any thread may
be the one that starts.

* `Holds`: what each place of `start` knows;
* `starts_once`: the server is started once, and no connection comes before all
  its loops.
-/

namespace Muduo

open Lib

/-- Where a thread of the pool is in `threadFunc`. -/
inductive IoThreadPhase where
  /-- `pthread_create` has failed -/
  | notCreated
  /-- before `callback_` -/
  | created
  /-- before `loop_` is set -/
  | initialized
  | looping
  /-- behind `loop.loop()` -/
  | returned
  /-- `loop_` is `NULL` again -/
  | finished
  deriving DecidableEq, Repr

/-- `loop_` points to the loop. -/
def IoThreadPhase.loop_ : IoThreadPhase → Bool
  | .looping | .returned => true
  | _ => false

/-- `callback_` has been called. -/
def IoThreadPhase.called : IoThreadPhase → Bool
  | .notCreated | .created => false
  | _ => true

/-- Where a thread is in `TcpServer::start`. -/
inductive StartPhase where
  | outside
  /-- behind `started_.getAndSet(1)`, which has returned 0 -/
  | exchanged
  /-- at the head of the `for` of `EventLoopThreadPool::start` -/
  | creating (i : Nat)
  /-- in `startLoop` of the thread `i`, before the test of `loop_` or in `cond_.wait()` -/
  | waiting (i : Nat) (asleep : Bool)
  /-- behind `threadPool_->start` -/
  | listening
  deriving DecidableEq, Repr

/-- The thread `k` notifies. -/
def StartPhase.notified (k : Nat) : StartPhase → StartPhase
  | .waiting i asleep => .waiting i (asleep && i != k)
  | p => p

/-- The caller has won the exchange, and `start` has not returned. -/
def StartPhase.Inside (p : StartPhase) : Prop := p ≠ .outside

theorem StartPhase.inside_notified (k : Nat) (p : StartPhase) :
    (p.notified k).Inside ↔ p.Inside := by
  cases p <;> simp [StartPhase.notified, StartPhase.Inside]

inductive StartFailure where
  /-- `assert(!started_)` -/
  | poolStart
  /-- `assert(!accepter_->listenning())` -/
  | serverStart
  /-- `assert(started_)` -/
  | getNextLoop
  /-- `loops_[next_]` is outside `loops_` -/
  | loopsIndex
  deriving DecidableEq, Repr

structure ServerStart (ι : Type) where
  started : Bool
  poolStarted : Bool
  threads : List IoThreadPhase
  /-- `loops_`, each loop by the position of its thread -/
  loops : List Nat
  next : Nat
  listenning : Bool
  /-- the calls of `Acceptor::listen` that are queued in the base loop -/
  pendingListens : Nat
  caller : ι → StartPhase
  /-- the loops with which `threadInitCallback_` was called, `none` for the base loop -/
  initialized : List (Option Nat)
  /-- what `getNextLoop` has returned -/
  handedOut : List (Option Nat)

namespace ServerStart

variable {ι : Type}

def new : ServerStart ι where
  started := false
  poolStarted := false
  threads := []
  loops := []
  next := 0
  listenning := false
  pendingListens := 0
  caller := fun _ => .outside
  initialized := []
  handedOut := []

/-- `cb(loop)`, if there is a callback. -/
def callback (init : Bool) (s : ServerStart ι) (loop : Option Nat) : ServerStart ι :=
  if init then { s with initialized := s.initialized ++ [loop] } else s

def getNextLoop (s : ServerStart ι) : Except StartFailure (ServerStart ι) := do
  check (s.poolStarted = true) .getNextLoop
  if s.loops.isEmpty then
    return { s with handedOut := s.handedOut ++ [none] }
  else
    match s.loops[s.next]? with
    | some loop =>
      let next := if s.loops.length ≤ s.next + 1 then 0 else s.next + 1
      return { s with next, handedOut := s.handedOut ++ [some loop] }
    | none => .error .loopsIndex

inductive Label (ι : Type) where
  /-- a call of `start` up to the exchange -/
  | start (i : ι)
  | startPool (i : ι)
  /-- `new EventLoopThread` and `thread_.start()`, with the outcome of `pthread_create` -/
  | create (i : ι) (ok : Bool)
  /-- the test of `loop_` in `startLoop` -/
  | look (i : ι)
  /-- a wakeup that nobody has asked for -/
  | wake (i : ι)
  /-- the end of the `for`, and what is behind it -/
  | leave (i : ι)
  | listen (i : ι)
  /-- a thread of the pool calls `callback_`, if it is set -/
  | callback (k : Nat)
  | publish (k : Nat)
  | loopReturns (k : Nat)
  | finish (k : Nat)
  /-- the base loop runs a queued `listen` -/
  | runListen
  /-- the base loop accepts, and `newConnection` asks for a loop -/
  | newConnection

variable [DecidableEq ι] (base : ι) (numThreads : Nat) (init : Bool)

def Enabled (s : ServerStart ι) : Label ι → Prop
  | .start i => s.caller i = .outside
  | .startPool i => s.caller i = .exchanged
  | .create i _ => ∃ n < numThreads, s.caller i = .creating n
  | .look i => ∃ n, s.caller i = .waiting n false
  | .wake i => ∃ n, s.caller i = .waiting n true
  | .leave i => ∃ n ≥ numThreads, s.caller i = .creating n
  | .listen i => s.caller i = .listening
  | .callback k => s.threads[k]? = some .created
  | .publish k => s.threads[k]? = some .initialized
  | .loopReturns k => s.threads[k]? = some .looping
  | .finish k => s.threads[k]? = some .returned
  | .runListen => s.caller base = .outside ∧ 0 < s.pendingListens
  | .newConnection => s.caller base = .outside ∧ s.listenning = true

def setCaller (s : ServerStart ι) (i : ι) (p : StartPhase) : ServerStart ι :=
  { s with caller := Function.update s.caller i p }

def setThread (s : ServerStart ι) (k : Nat) (p : IoThreadPhase) : ServerStart ι :=
  { s with threads := s.threads.set k p }

def step (s : ServerStart ι) : Label ι → Except StartFailure (ServerStart ι)
  | .start i => return if s.started then s else { s with started := true }.setCaller i .exchanged
  | .startPool i => do
    check (s.poolStarted = false) .poolStart
    return { s with poolStarted := true }.setCaller i (.creating 0)
  | .create i ok =>
    match s.caller i with
    | .creating n =>
      let t : IoThreadPhase := if ok then .created else .notCreated
      return { s with threads := s.threads ++ [t] }.setCaller i (.waiting n false)
    | _ => return s
  | .look i =>
    match s.caller i with
    | .waiting n _ =>
      return if s.threads[n]?.any IoThreadPhase.loop_ then
        { s with loops := s.loops ++ [n] }.setCaller i (.creating (n + 1))
      else s.setCaller i (.waiting n true)
    | _ => return s
  | .wake i =>
    match s.caller i with
    | .waiting n _ => return s.setCaller i (.waiting n false)
    | _ => return s
  | .leave i =>
    return (if numThreads = 0 then s.callback init none else s).setCaller i .listening
  | .listen i => do
    check (s.listenning = false) .serverStart
    return (if i = base then { s with listenning := true }
      else { s with pendingListens := s.pendingListens + 1 }).setCaller i .outside
  | .callback k => return (s.callback init (some k)).setThread k .initialized
  | .publish k =>
    return { s with caller := fun i => (s.caller i).notified k }.setThread k .looping
  | .loopReturns k => return s.setThread k .returned
  | .finish k => return s.setThread k .finished
  | .runListen =>
    return { s with listenning := true, pendingListens := s.pendingListens - 1 }
  | .newConnection => s.getNextLoop

/-! ## What holds meanwhile -/

/-- How far the pool is. -/
structure Grown (s : ServerStart ι) (poolStarted : Bool) (threads loops calls : Nat) : Prop where
  poolStarted : s.poolStarted = poolStarted
  threads : s.threads.length = threads
  loops : s.loops.length = loops
  calls : s.initialized.count none = calls

/-- `threadPool_->start` is through. -/
def Complete (s : ServerStart ι) : Prop :=
  s.Grown true numThreads numThreads (if init = true ∧ numThreads = 0 then 1 else 0)

/-- What a caller knows at its place. Asleep, it has not missed the notification. -/
def Holds (s : ServerStart ι) : StartPhase → Prop
  | .outside => True
  | .exchanged => s.Grown false 0 0 0
  | .creating i => s.Grown true i i 0 ∧ i ≤ numThreads
  | .waiting i asleep => s.Grown true (i + 1) i 0 ∧ i < numThreads ∧
      (asleep = true → s.threads[i]?.any IoThreadPhase.loop_ = false)
  | .listening => s.Complete numThreads init

/-- No call of `Acceptor::listen` yet. -/
def Silent (s : ServerStart ι) : Prop := s.listenning = false ∧ s.pendingListens = 0

/-- The stage of the server, with the caller that starts it. -/
def Stage (s : ServerStart ι) : Option ι → Prop
  | some _ => s.started = true ∧ s.Silent
  | none => s.started = false ∧ s.Silent ∧ s.Grown false 0 0 0 ∨
      s.started = true ∧ s.pendingListens + s.listenning.toNat = 1 ∧ s.Complete numThreads init

structure Threaded (s : ServerStart ι) : Prop where
  loops : s.loops = List.range s.loops.length
  published : ∀ k < s.loops.length, ∃ p ∈ s.threads[k]?, p.loop_ = true ∨ p = .finished
  called : ∀ k, s.initialized.count (some k) =
    if init = true ∧ s.threads[k]?.any IoThreadPhase.called = true then 1 else 0

/-- The loop for the connection number `k`. -/
def turn (numThreads k : Nat) : Option Nat := if numThreads = 0 then none else some (k % numThreads)

structure Turns (s : ServerStart ι) : Prop where
  quiet : s.handedOut ≠ [] → s.listenning = true
  handedOut : s.handedOut = (List.range s.handedOut.length).map (turn numThreads)
  next : s.next = if numThreads = 0 then 0 else s.handedOut.length % numThreads

structure Inv (s : ServerStart ι) : Prop where
  stage : ∃ holder, Exclusive StartPhase.Inside holder s.caller ∧ s.Stage numThreads init holder
  place : ∀ i, s.Holds numThreads init (s.caller i)
  threaded : s.Threaded init
  turns : s.Turns numThreads

omit [DecidableEq ι] in
theorem new_inv : (new : ServerStart ι).Inv numThreads init := by
  refine ⟨⟨none, fun i => ?_, .inl ⟨rfl, ⟨rfl, rfl⟩, ⟨rfl, rfl, rfl, rfl⟩⟩⟩, fun _ => trivial,
    ⟨rfl, by simp [new], by simp [new]⟩, ⟨by simp [new], rfl, by simp [new]⟩⟩
  simp [new, StartPhase.Inside]

variable {base numThreads init} {s u : ServerStart ι} {i : ι}

omit [DecidableEq ι] in
/-- Who is inside has won the exchange, and nobody else is inside. -/
theorem Inv.winner (h : s.Inv numThreads init) (hi : s.caller i ≠ .outside) :
    Exclusive StartPhase.Inside (some i) s.caller ∧ s.started = true ∧ s.Silent ∧
      ∀ j, j ≠ i → s.caller j = .outside := by
  obtain ⟨holder, hex, hstage⟩ := h.stage
  obtain rfl : holder = some i := (hex i).mp hi
  refine ⟨hex, hstage.1, hstage.2, fun j hj => ?_⟩
  by_contra hin
  exact hj (hex.eq hin hi)

/-- A step of the winner to another place of `start`. -/
theorem Inv.move (h : s.Inv numThreads init) (hi : s.caller i ≠ .outside) {p : StartPhase}
    (hp : p ≠ .outside) (hcaller : u.caller = s.caller) (hstarted : u.started = s.started)
    (hlisten : u.listenning = s.listenning) (hpending : u.pendingListens = s.pendingListens)
    (hhanded : u.handedOut = s.handedOut) (hnext : u.next = s.next)
    (hholds : (u.setCaller i p).Holds numThreads init p) (hthreaded : u.Threaded init) :
    (u.setCaller i p).Inv numThreads init := by
  obtain ⟨hex, hst, ⟨hsilent, hzero⟩, hout⟩ := h.winner hi
  have hupdate : (u.setCaller i p).caller = Function.update s.caller i p := by
    rw [← hcaller]
    rfl
  refine ⟨⟨some i, ?_, hstarted.trans hst, hlisten.trans hsilent, hpending.trans hzero⟩, ?_,
    ⟨hthreaded.loops, hthreaded.published, hthreaded.called⟩, ?_⟩
  · rw [hupdate]
    exact hex.stay rfl (iff_of_true hp hi)
  · rw [hupdate]
    apply forall_update (p := fun (_ : ι) q => Holds numThreads init (u.setCaller i p) q) hholds
    intro j hj
    rw [hout j hj]
    trivial
  · have ht := h.turns
    exact ⟨by simpa [setCaller, hhanded, hlisten] using ht.quiet,
      by simpa [setCaller, hhanded] using ht.handedOut,
      by simpa [setCaller, hhanded, hnext] using ht.next⟩

/-! ## The caller -/

theorem Inv.start (h : s.Inv numThreads init) :
    Inv numThreads init
      (if s.started then s else { s with started := true }.setCaller i .exchanged) := by
  split
  · exact h
  · rename_i hstarted
    obtain ⟨holder, hex, hstage⟩ := h.stage
    cases holder with
    | some j => exact absurd hstage.1 hstarted
    | none =>
      obtain ⟨-, hsilent, hgrown⟩ := hstage.resolve_right fun hst => hstarted hst.1
      refine ⟨⟨some i, hex.lock nofun, rfl, hsilent⟩, ?_, ⟨h.threaded.loops, h.threaded.published,
        h.threaded.called⟩, ⟨h.turns.quiet, h.turns.handedOut, h.turns.next⟩⟩
      let s₁ : ServerStart ι := { s with started := true }
      apply forall_update
        (p := fun (_ : ι) q => Holds numThreads init (s₁.setCaller i .exchanged) q)
      · exact ⟨hgrown.poolStarted, hgrown.threads, hgrown.loops, hgrown.calls⟩
      · intro j hj
        have hout : s.caller j = .outside := by
          by_contra hin
          exact hex.free j hin
        rw [hout]
        trivial

theorem Inv.startPool (h : s.Inv numThreads init) (ha : s.caller i = .exchanged) :
    ∃ s', step base numThreads init s (.startPool i) = .ok s' ∧ s'.Inv numThreads init := by
  have hgrown : s.Grown false 0 0 0 := by
    have hplace := h.place i
    rwa [ha] at hplace
  refine ⟨_, ?_, h.move (u := { s with poolStarted := true }) (i := i) (p := .creating 0)
    (by simp [ha]) nofun rfl rfl rfl rfl rfl rfl ?_ ?_⟩
  · simp [step, check_pos hgrown.poolStarted]
  · exact ⟨⟨rfl, hgrown.threads, hgrown.loops, hgrown.calls⟩, Nat.zero_le _⟩
  · exact ⟨h.threaded.loops, h.threaded.published, h.threaded.called⟩

theorem Inv.create (h : s.Inv numThreads init) {n : Nat} (ha : s.caller i = .creating n)
    (hn : n < numThreads) (ok : Bool) :
    ∃ s', step base numThreads init s (.create i ok) = .ok s' ∧ s'.Inv numThreads init := by
  obtain ⟨hgrown, -⟩ : s.Grown true n n 0 ∧ n ≤ numThreads := by
    have hplace := h.place i
    rwa [ha] at hplace
  let t : IoThreadPhase := if ok then .created else .notCreated
  have hnot : t.called = false := by
    cases ok <;> rfl
  refine ⟨_, ?_, h.move (u := { s with threads := s.threads ++ [t] }) (i := i)
    (p := .waiting n false) (by simp [ha]) nofun rfl rfl rfl rfl rfl rfl ?_ ?_⟩
  · simp [step, ha, t]
  · refine ⟨⟨hgrown.poolStarted, ?_, hgrown.loops, hgrown.calls⟩, hn, nofun⟩
    simp [setCaller, hgrown.threads]
  · refine ⟨h.threaded.loops, fun k hk => ?_, fun k => ?_⟩
    · obtain ⟨p, hp, hset⟩ := h.threaded.published k hk
      have hlt := (List.getElem?_eq_some_iff.mp hp).1
      exact ⟨p, by rwa [List.getElem?_append_left hlt], hset⟩
    · change s.initialized.count (some k) = _
      rw [h.threaded.called k]
      rcases Nat.lt_trichotomy k s.threads.length with hlt | heq | hgt
      · rw [List.getElem?_append_left hlt]
      · subst heq
        simp [hnot]
      · rw [List.getElem?_eq_none (by omega), List.getElem?_eq_none (by simp; omega)]

theorem Inv.look (h : s.Inv numThreads init) {n : Nat} (ha : s.caller i = .waiting n false) :
    ∃ s', step base numThreads init s (.look i) = .ok s' ∧ s'.Inv numThreads init := by
  obtain ⟨hgrown, hn, -⟩ : s.Grown true (n + 1) n 0 ∧ n < numThreads ∧
      (false = true → s.threads[n]?.any IoThreadPhase.loop_ = false) := by
    have hplace := h.place i
    rwa [ha] at hplace
  cases hset : s.threads[n]?.any IoThreadPhase.loop_ with
  | true =>
    refine ⟨_, ?_, h.move (u := { s with loops := s.loops ++ [n] }) (i := i)
      (p := .creating (n + 1)) (by simp [ha]) nofun rfl rfl rfl rfl rfl rfl ?_ ?_⟩
    · simp [step, ha, hset]
    · refine ⟨⟨hgrown.poolStarted, hgrown.threads, ?_, hgrown.calls⟩, hn⟩
      simp [setCaller, hgrown.loops]
    · refine ⟨?_, fun k hk => ?_, h.threaded.called⟩
      · change s.loops ++ [n] = List.range (s.loops ++ [n]).length
        rw [List.length_append, List.length_singleton, List.range_succ, ← h.threaded.loops,
          hgrown.loops]
      · rcases Nat.lt_or_ge k s.loops.length with hlt | hge
        · exact h.threaded.published k hlt
        · obtain rfl : k = n := by
            simp only [List.length_append, List.length_singleton, hgrown.loops] at hk hge
            omega
          obtain ⟨p, hp, hloop⟩ := (Option.any_eq_true _ _).mp hset
          exact ⟨p, hp, .inl hloop⟩
  | false =>
    refine ⟨_, ?_, h.move (u := s) (i := i) (p := .waiting n true) (by simp [ha]) nofun rfl rfl rfl
      rfl rfl rfl ⟨?_, hn, fun _ => hset⟩ h.threaded⟩
    · simp [step, ha, hset]
    · exact ⟨hgrown.poolStarted, hgrown.threads, hgrown.loops, hgrown.calls⟩

theorem Inv.wake (h : s.Inv numThreads init) {n : Nat} (ha : s.caller i = .waiting n true) :
    ∃ s', step base numThreads init s (.wake i) = .ok s' ∧ s'.Inv numThreads init := by
  obtain ⟨hgrown, hn, -⟩ : s.Grown true (n + 1) n 0 ∧ n < numThreads ∧
      (true = true → s.threads[n]?.any IoThreadPhase.loop_ = false) := by
    have hplace := h.place i
    rwa [ha] at hplace
  refine ⟨_, ?_, h.move (u := s) (i := i) (p := .waiting n false) (by simp [ha]) nofun rfl rfl rfl
    rfl rfl rfl ⟨?_, hn, nofun⟩ h.threaded⟩
  · simp [step, ha]
  · exact ⟨hgrown.poolStarted, hgrown.threads, hgrown.loops, hgrown.calls⟩

theorem Inv.leave (h : s.Inv numThreads init) {n : Nat} (ha : s.caller i = .creating n)
    (hn : numThreads ≤ n) :
    ∃ s', step base numThreads init s (.leave i) = .ok s' ∧ s'.Inv numThreads init := by
  obtain ⟨hgrown, hle⟩ : s.Grown true n n 0 ∧ n ≤ numThreads := by
    have hplace := h.place i
    rwa [ha] at hplace
  obtain rfl : n = numThreads := Nat.le_antisymm hle hn
  by_cases hcall : init = true ∧ n = 0
  · obtain ⟨rfl, rfl⟩ := hcall
    refine ⟨_, rfl, h.move (u := s.callback true none) (i := i) (p := .listening) (by simp [ha])
      nofun rfl rfl rfl rfl rfl rfl ⟨hgrown.poolStarted, hgrown.threads, hgrown.loops, ?_⟩ ?_⟩
    · simp [setCaller, ServerStart.callback, hgrown.calls]
    · refine ⟨h.threaded.loops, h.threaded.published, fun k => ?_⟩
      have hcount := h.threaded.called k
      simpa [ServerStart.callback] using hcount
  · have hsame : (if n = 0 then s.callback init none else s) = s := by
      unfold ServerStart.callback
      split
      · rename_i hzero
        rw [if_neg fun hinit => hcall ⟨hinit, hzero⟩]
      · rfl
    refine ⟨_, rfl, ?_⟩
    rw [hsame]
    refine h.move (by simp [ha]) nofun rfl rfl rfl rfl rfl rfl
      ⟨hgrown.poolStarted, hgrown.threads, hgrown.loops, ?_⟩ h.threaded
    rw [if_neg hcall]
    exact hgrown.calls

theorem Inv.listen (h : s.Inv numThreads init) (ha : s.caller i = .listening) :
    ∃ s', step base numThreads init s (.listen i) = .ok s' ∧ s'.Inv numThreads init := by
  have hcomplete : s.Complete numThreads init := by
    have hplace := h.place i
    rwa [ha] at hplace
  obtain ⟨hex, hst, ⟨hsilent, hzero⟩, hout⟩ := h.winner (i := i) (by simp [ha])
  have hquiet : s.handedOut = [] := by
    by_contra hne
    simp [h.turns.quiet hne] at hsilent
  let s₁ : ServerStart ι := if i = base then { s with listenning := true }
    else { s with pendingListens := s.pendingListens + 1 }
  have hsame : s₁.started = s.started ∧ s₁.poolStarted = s.poolStarted ∧ s₁.threads = s.threads ∧
      s₁.loops = s.loops ∧ s₁.next = s.next ∧ s₁.caller = s.caller ∧
      s₁.initialized = s.initialized ∧ s₁.handedOut = s.handedOut ∧
      s₁.pendingListens + s₁.listenning.toNat = 1 := by
    by_cases hbase : i = base <;> simp [s₁, hbase, hsilent, hzero]
  obtain ⟨hst₁, hpool, hthreads, hloops, hnext, hcaller, hinits, hhanded, hone⟩ := hsame
  refine ⟨s₁.setCaller i .outside, by simp [step, check_pos hsilent, s₁],
    ⟨none, ?_, .inr ⟨hst₁.trans hst, hone, hpool.trans hcomplete.poolStarted, ?_, ?_, ?_⟩⟩, ?_,
    ⟨?_, ?_, ?_⟩, ⟨?_, ?_, ?_⟩⟩
  all_goals simp only [setCaller, hthreads, hloops, hnext, hcaller, hinits, hhanded]
  · exact hex.unlock rfl (by simp [StartPhase.Inside, ha]) (by simp [StartPhase.Inside])
  · exact hcomplete.threads
  · exact hcomplete.loops
  · exact hcomplete.calls
  · intro j
    have hj : Function.update s.caller i .outside j = .outside := by
      by_cases hji : j = i
      · rw [hji, Function.update_self]
      · rw [Function.update_of_ne hji, hout j hji]
    rw [hj]
    trivial
  · exact h.threaded.loops
  · exact h.threaded.published
  · exact h.threaded.called
  · exact fun hne => absurd hquiet hne
  · exact h.turns.handedOut
  · exact h.turns.next

/-! ## The threads of the pool and the base loop -/

/-- A step of another thread leaves the server as it is for the callers. -/
structure Beside (s u : ServerStart ι) : Prop where
  started : u.started = s.started
  listenning : u.listenning = s.listenning
  pendingListens : u.pendingListens = s.pendingListens
  next : u.next = s.next
  handedOut : u.handedOut = s.handedOut
  grown : ∀ {b t l c}, s.Grown b t l c → u.Grown b t l c

omit [DecidableEq ι] in
theorem Inv.beside (h : s.Inv numThreads init) (hs : s.Beside u) {g : StartPhase → StartPhase}
    (hcaller : u.caller = fun i => g (s.caller i)) (hinside : ∀ p, (g p).Inside ↔ p.Inside)
    (hplace : ∀ p, s.Holds numThreads init p → u.Holds numThreads init (g p))
    (hthreaded : u.Threaded init) : u.Inv numThreads init := by
  obtain ⟨holder, hex, hstage⟩ := h.stage
  constructor
  · refine ⟨holder, hcaller ▸ hex.map hinside, ?_⟩
    cases holder with
    | some i =>
      exact ⟨hs.started.trans hstage.1, hs.listenning.trans hstage.2.1,
        hs.pendingListens.trans hstage.2.2⟩
    | none =>
      rcases hstage with ⟨hst, ⟨hsilent, hzero⟩, hgrown⟩ | ⟨hst, hone, hcomplete⟩
      · exact .inl ⟨hs.started.trans hst, ⟨hs.listenning.trans hsilent,
          hs.pendingListens.trans hzero⟩, hs.grown hgrown⟩
      · refine .inr ⟨hs.started.trans hst, ?_, hs.grown hcomplete⟩
        rw [hs.pendingListens, hs.listenning]
        exact hone
  · intro i
    rw [hcaller]
    exact hplace _ (h.place i)
  · exact hthreaded
  · constructor
    · rw [hs.handedOut, hs.listenning]
      exact h.turns.quiet
    · rw [hs.handedOut]
      exact h.turns.handedOut
    · rw [hs.next, hs.handedOut]
      exact h.turns.next

omit [DecidableEq ι] in
/-- A thread that keeps or clears `loop_` cannot strand a sleeper. -/
theorem Holds.thread (hgrown : ∀ {b t l c}, s.Grown b t l c → u.Grown b t l c) {k : Nat}
    {q r : IoThreadPhase} (hk : s.threads[k]? = some q) (hthreads : u.threads = s.threads.set k r)
    (hloop : r.loop_ = true → q.loop_ = true) {p : StartPhase} (h : s.Holds numThreads init p) :
    u.Holds numThreads init p := by
  cases p with
  | outside => trivial
  | exchanged => exact hgrown h
  | creating i => exact ⟨hgrown h.1, h.2⟩
  | listening => exact hgrown h
  | waiting i asleep =>
    refine ⟨hgrown h.1, h.2.1, fun hasleep => ?_⟩
    have hunset := h.2.2 hasleep
    rw [hthreads]
    by_cases hik : k = i
    · subst hik
      have hlt := (List.getElem?_eq_some_iff.mp hk).1
      rw [hk] at hunset
      rw [List.getElem?_set_self hlt]
      simp only [Option.any_some] at hunset ⊢
      cases hr : r.loop_ with
      | false => rfl
      | true => exact absurd (hloop hr) (by simp [hunset])
    · rwa [List.getElem?_set_ne hik]

omit [DecidableEq ι] in
/-- A thread goes on, and its loop is published as before. -/
theorem Threaded.thread (h : s.Threaded init) {k : Nat} {q r : IoThreadPhase}
    (hk : s.threads[k]? = some q) (hloops : u.loops = s.loops)
    (hthreads : u.threads = s.threads.set k r)
    (hpub : q.loop_ = true ∨ q = .finished → r.loop_ = true ∨ r = .finished)
    (hothers : ∀ l, l ≠ k → u.initialized.count (some l) = s.initialized.count (some l))
    (hown : u.initialized.count (some k) = if init = true ∧ r.called = true then 1 else 0) :
    u.Threaded init := by
  have hlt := (List.getElem?_eq_some_iff.mp hk).1
  constructor
  · rw [hloops]
    exact h.loops
  · intro l hl
    rw [hloops] at hl
    obtain ⟨p, hp, hset⟩ := h.published l hl
    rw [hthreads]
    by_cases hkl : k = l
    · subst hkl
      obtain rfl : q = p := Option.some.inj (hk.symm.trans hp)
      exact ⟨r, List.getElem?_set_self hlt, hpub hset⟩
    · exact ⟨p, by rwa [List.getElem?_set_ne hkl], hset⟩
  · intro l
    rw [hthreads]
    by_cases hkl : k = l
    · subst hkl
      rw [List.getElem?_set_self hlt]
      exact hown
    · rw [List.getElem?_set_ne hkl, hothers l (Ne.symm hkl)]
      exact h.called l

omit [DecidableEq ι] in
/-- What thread `k` has initialized, by its place. -/
theorem Threaded.own (h : s.Threaded init) {k : Nat} {q : IoThreadPhase}
    (hk : s.threads[k]? = some q) :
    s.initialized.count (some k) = if init = true ∧ q.called = true then 1 else 0 := by
  have hcalled := h.called k
  rwa [hk] at hcalled

omit [DecidableEq ι] in
theorem Inv.callback (h : s.Inv numThreads init) {k : Nat} (ha : s.threads[k]? = some .created) :
    ((s.callback init (some k)).setThread k .initialized).Inv numThreads init := by
  have hgrown : ∀ {b t l c}, s.Grown b t l c →
      ((s.callback init (some k)).setThread k .initialized).Grown b t l c := by
    intro b t l c hg
    cases init <;>
    · refine ⟨hg.poolStarted, ?_, hg.loops, ?_⟩
      · simpa [setThread, ServerStart.callback] using hg.threads
      · simpa [setThread, ServerStart.callback] using hg.calls
  have hsame : s.Beside ((s.callback init (some k)).setThread k .initialized) := by
    cases init <;> exact ⟨rfl, rfl, rfl, rfl, rfl, hgrown⟩
  have hthreads : ((s.callback init (some k)).setThread k .initialized).threads =
      s.threads.set k .initialized := by
    cases init <;> rfl
  have hown := h.threaded.own ha
  apply h.beside hsame (g := id) (by cases init <;> rfl) (fun _ => Iff.rfl)
  · intro p hp
    exact Holds.thread hgrown ha hthreads nofun hp
  · apply h.threaded.thread ha (by cases init <;> rfl) hthreads nofun
    · intro l hl
      cases init <;> simp [setThread, ServerStart.callback, List.count_append, hl.symm]
    · cases init
      · simpa [setThread, ServerStart.callback] using hown
      · simpa [setThread, ServerStart.callback, IoThreadPhase.called] using hown

omit [DecidableEq ι] in
/-- With `loop_` set, the sleeper is awake. -/
theorem Inv.publish (h : s.Inv numThreads init) {k : Nat} (ha : s.threads[k]? = some .initialized) :
    ({ s with caller := fun i => (s.caller i).notified k }.setThread k .looping).Inv
      numThreads init := by
  have hlt := (List.getElem?_eq_some_iff.mp ha).1
  let u : ServerStart ι :=
    { s with caller := fun i => (s.caller i).notified k }.setThread k .looping
  have hgrown : ∀ {b t l c}, s.Grown b t l c → u.Grown b t l c := by
    intro b t l c hg
    exact ⟨hg.poolStarted, by simpa [u, setThread] using hg.threads, hg.loops, hg.calls⟩
  have hown := h.threaded.own ha
  apply h.beside (u := u) ⟨rfl, rfl, rfl, rfl, rfl, hgrown⟩ rfl (StartPhase.inside_notified k)
  · intro p hp
    cases p with
    | outside => trivial
    | exchanged => exact hgrown hp
    | creating i => exact ⟨hgrown hp.1, hp.2⟩
    | listening => exact hgrown hp
    | waiting i asleep =>
      refine ⟨hgrown hp.1, hp.2.1, fun hasleep => ?_⟩
      obtain ⟨hwas, hik⟩ : asleep = true ∧ i ≠ k := by
        simpa [StartPhase.notified] using hasleep
      change (s.threads.set k .looping)[i]?.any IoThreadPhase.loop_ = false
      rw [List.getElem?_set_ne (Ne.symm hik)]
      exact hp.2.2 hwas
  · apply h.threaded.thread (u := u) (r := .looping) ha rfl rfl (fun _ => .inl rfl)
      (fun _ _ => rfl)
    simpa [u, setThread, IoThreadPhase.called] using hown

omit [DecidableEq ι] in
theorem Inv.stop (h : s.Inv numThreads init) {k : Nat} {q r : IoThreadPhase}
    (hk : s.threads[k]? = some q) (hq : q.loop_ = true) (hr : r.loop_ = true ∨ r = .finished)
    (hcalled : r.called = q.called) : (s.setThread k r).Inv numThreads init := by
  have hgrown : ∀ {b t l c}, s.Grown b t l c → (s.setThread k r).Grown b t l c := by
    intro b t l c hg
    exact ⟨hg.poolStarted, by simpa [setThread] using hg.threads, hg.loops, hg.calls⟩
  apply h.beside (u := s.setThread k r) ⟨rfl, rfl, rfl, rfl, rfl, hgrown⟩ (g := id) rfl
    (fun _ => Iff.rfl)
  · intro p hp
    exact Holds.thread hgrown hk rfl (fun _ => hq) hp
  · apply h.threaded.thread (u := s.setThread k r) hk rfl rfl (fun _ => hr) (fun _ _ => rfl)
    change s.initialized.count (some k) = _
    rw [hcalled]
    exact h.threaded.own hk

omit [DecidableEq ι] in
/-- Another field of the server does not make the pool incomplete. -/
theorem Complete.keep (h : s.Complete numThreads init) (hpool : u.poolStarted = s.poolStarted)
    (hthreads : u.threads = s.threads) (hloops : u.loops = s.loops)
    (hcalls : u.initialized = s.initialized) : u.Complete numThreads init := by
  unfold Complete at *
  constructor
  · exact hpool.trans h.poolStarted
  · rw [hthreads]
    exact h.threads
  · rw [hloops]
    exact h.loops
  · rw [hcalls]
    exact h.calls

omit [DecidableEq ι] in
theorem Inv.runListen (h : s.Inv numThreads init) (ha : 0 < s.pendingListens) :
    ({ s with listenning := true, pendingListens := s.pendingListens - 1 } : ServerStart ι).Inv
      numThreads init := by
  obtain ⟨holder, hex, hstage⟩ := h.stage
  cases holder with
  | some j =>
    have hzero := hstage.2.2
    omega
  | none =>
    rcases hstage with ⟨-, ⟨-, hzero⟩, -⟩ | ⟨hst, hone, hcomplete⟩
    · omega
    · have hlast : s.pendingListens = 1 := by omega
      constructor
      · refine ⟨none, hex, .inr ⟨hst, ?_, hcomplete.keep rfl rfl rfl rfl⟩⟩
        simp [hlast]
      · intro i
        have hout : s.caller i = .outside := by
          by_contra hin
          exact hex.free i hin
        change Holds numThreads init _ (s.caller i)
        rw [hout]
        trivial
      · exact ⟨h.threaded.loops, h.threaded.published, h.threaded.called⟩
      · exact ⟨fun _ => rfl, h.turns.handedOut, h.turns.next⟩

omit [DecidableEq ι] in
/-- The listening server has all its loops, and `getNextLoop` finds one. -/
theorem Inv.newConnection (h : s.Inv numThreads init) (ha : s.listenning = true) :
    ∃ s', s.getNextLoop = .ok s' ∧ s'.Inv numThreads init := by
  obtain ⟨holder, hex, hstage⟩ := h.stage
  cases holder with
  | some j =>
    have hsilent := hstage.2.1
    simp [ha] at hsilent
  | none =>
    rcases hstage with ⟨-, ⟨hsilent, -⟩, -⟩ | ⟨hst, hone, hcomplete⟩
    · simp [ha] at hsilent
    · have hplace : ∀ t : ServerStart ι, t.caller = s.caller →
          ∀ i, t.Holds numThreads init (t.caller i) := by
        intro t ht i
        have hout : s.caller i = .outside := by
          by_contra hin
          exact hex.free i hin
        rw [ht, hout]
        trivial
      unfold getNextLoop
      rw [check_pos hcomplete.poolStarted, ok_bind]
      have hlen := hcomplete.loops
      have hnext := h.turns.next
      cases hzero : s.loops.isEmpty with
      | true =>
        have hnone : numThreads = 0 := by
          rw [← hlen, List.isEmpty_iff.mp hzero]
          rfl
        subst hnone
        refine ⟨_, rfl, ⟨none, hex, .inr ⟨hst, hone, hcomplete.keep rfl rfl rfl rfl⟩⟩,
          hplace _ rfl, ⟨h.threaded.loops, h.threaded.published, h.threaded.called⟩,
          fun _ => ha, ?_, ?_⟩
        · rw [List.length_append, List.length_singleton, List.range_succ, List.map_append,
            ← h.turns.handedOut]
          rfl
        · exact hnext
      | false =>
        have hpos : 0 < numThreads := by
          rw [← hlen]
          exact List.length_pos_iff.mpr (by simpa using hzero)
        have hne : numThreads ≠ 0 := by omega
        rw [if_neg hne] at hnext
        have hget : s.loops[s.next]? = some (s.handedOut.length % numThreads) := by
          rw [h.threaded.loops, hlen, hnext]
          simp [Nat.mod_lt _ hpos]
        rw [hget]
        refine ⟨_, rfl, ⟨none, hex, .inr ⟨hst, hone, hcomplete.keep rfl rfl rfl rfl⟩⟩,
          hplace _ rfl, ⟨h.threaded.loops, h.threaded.published, h.threaded.called⟩,
          fun _ => ha, ?_, ?_⟩
        · rw [List.length_append, List.length_singleton, List.range_succ, List.map_append,
            ← h.turns.handedOut]
          simp [turn, hne]
        · rw [if_neg hne, List.length_append, List.length_singleton, ← cursor_succ hpos, hlen,
            hnext]

/-! ## The runs -/

theorem Inv.step (h : s.Inv numThreads init) {a : Label ι} (ha : s.Enabled base numThreads a) :
    ∃ s', ServerStart.step base numThreads init s a = .ok s' ∧ s'.Inv numThreads init := by
  cases a with
  | start i => exact ⟨_, rfl, h.start⟩
  | startPool i => exact h.startPool ha
  | create i ok =>
    obtain ⟨n, hn, hcaller⟩ := ha
    exact h.create hcaller hn ok
  | look i =>
    obtain ⟨n, hcaller⟩ := ha
    exact h.look hcaller
  | wake i =>
    obtain ⟨n, hcaller⟩ := ha
    exact h.wake hcaller
  | leave i =>
    obtain ⟨n, hn, hcaller⟩ := ha
    exact h.leave hcaller hn
  | listen i => exact h.listen ha
  | callback k => exact ⟨_, rfl, h.callback ha⟩
  | publish k => exact ⟨_, rfl, h.publish ha⟩
  | loopReturns k => exact ⟨_, rfl, h.stop ha rfl (.inl rfl) rfl⟩
  | finish k => exact ⟨_, rfl, h.stop ha rfl (.inr rfl) rfl⟩
  | runListen => exact ⟨_, rfl, h.runListen ha.2⟩
  | newConnection => exact h.newConnection ha.2

omit [DecidableEq ι] in
/-- The pool never has more than its loops. -/
theorem Inv.loops_le (h : s.Inv numThreads init) : s.loops.length ≤ numThreads := by
  obtain ⟨holder, hex, hstage⟩ := h.stage
  cases holder with
  | none =>
    rcases hstage with ⟨-, -, hgrown⟩ | ⟨-, -, hcomplete⟩
    · rw [hgrown.loops]
      exact Nat.zero_le _
    · exact hcomplete.loops.le
  | some j =>
    have hplace := h.place j
    have hin : (s.caller j).Inside := (hex j).mpr rfl
    cases hj : s.caller j with
    | outside => exact absurd hj hin
    | exchanged =>
      rw [hj] at hplace
      rw [hplace.loops]
      exact Nat.zero_le _
    | creating i =>
      rw [hj] at hplace
      rw [hplace.1.loops]
      exact hplace.2
    | waiting i asleep =>
      rw [hj] at hplace
      rw [hplace.1.loops]
      exact hplace.2.1.le
    | listening =>
      rw [hj] at hplace
      exact hplace.loops.le

omit [DecidableEq ι] in
/-- A loop that can be handed out has been through the callback. -/
theorem Inv.initialized_loops (h : s.Inv numThreads init) {k : Nat} (hk : k ∈ s.loops) :
    s.initialized.count (some k) = if init = true then 1 else 0 := by
  rw [h.threaded.loops, List.mem_range] at hk
  obtain ⟨p, hp, hset⟩ := h.threaded.published k hk
  have hcalled : p.called = true := by
    cases p <;> simp_all [IoThreadPhase.loop_, IoThreadPhase.called]
  have hown := h.threaded.own hp
  simpa [hcalled] using hown

omit [DecidableEq ι] in
theorem Inv.listens (h : s.Inv numThreads init) :
    s.pendingListens + s.listenning.toNat = 0 ∨
      s.pendingListens + s.listenning.toNat = 1 ∧ s.Complete numThreads init := by
  obtain ⟨holder, hex, hstage⟩ := h.stage
  cases holder with
  | some j =>
    left
    simp [hstage.2.1, hstage.2.2]
  | none =>
    rcases hstage with ⟨-, hsilent, -⟩ | ⟨-, hone, hcomplete⟩
    · left
      simp [hsilent.1, hsilent.2]
    · exact .inr ⟨hone, hcomplete⟩

/-- However many threads call `start`, no assertion of it fails, `Acceptor::listen`
is called once at most and not before the pool has all its loops, and every loop
of the pool has been through the init callback once when it is there. The
connections go round the loops from the first. -/
theorem starts_once {steps : List (Label ι)}
    (h : Along (step base numThreads init) (Enabled base numThreads) new steps) :
    ∃ s, Run (step base numThreads init) new steps s ∧
      s.pendingListens + s.listenning.toNat ≤ 1 ∧
      (0 < s.pendingListens ∨ s.listenning = true →
        s.loops.length = numThreads ∧
          s.initialized.count none = if init = true ∧ numThreads = 0 then 1 else 0) ∧
      s.loops = List.range s.loops.length ∧ s.loops.length ≤ numThreads ∧
      (∀ k ∈ s.loops, s.initialized.count (some k) = if init = true then 1 else 0) ∧
      s.handedOut = (List.range s.handedOut.length).map (turn numThreads) := by
  obtain ⟨s, hrun, hinv⟩ :=
    Run.progress (I := Inv numThreads init) (fun s a hs ha => hs.step ha) (new_inv _ _) h
  refine ⟨s, hrun, ?_, ?_, hinv.threaded.loops, hinv.loops_le,
    fun k hk => hinv.initialized_loops hk, hinv.turns.handedOut⟩
  · have hlistens := hinv.listens
    omega
  · intro hsome
    have hpos : 0 < s.pendingListens + s.listenning.toNat := by
      rcases hsome with hpending | hlistenning
      · omega
      · simp [hlistenning]
    have hcomplete := (hinv.listens.resolve_left hpos.ne').2
    exact ⟨hcomplete.loops, hcomplete.calls⟩

/-- Two threads start a server with one loop. -/
theorem starts_once_twoCallers : ∃ s : ServerStart Bool,
    Run (step true 1 true) new [.start false, .start true, .startPool false, .create false true,
        .look false, .callback 0, .publish 0, .look false, .leave false, .listen false, .runListen,
        .newConnection] s ∧
      s.pendingListens + s.listenning.toNat ≤ 1 ∧
      (0 < s.pendingListens ∨ s.listenning = true →
        s.loops.length = 1 ∧ s.initialized.count none = if true = true ∧ 1 = 0 then 1 else 0) ∧
      s.loops = List.range s.loops.length ∧ s.loops.length ≤ 1 ∧
      (∀ k ∈ s.loops, s.initialized.count (some k) = if true = true then 1 else 0) ∧
      s.handedOut = (List.range s.handedOut.length).map (turn 1) := by
  apply starts_once
  refine (steps_cons_ok rfl).mpr ⟨rfl, ?_⟩
  refine (steps_cons_ok rfl).mpr ⟨rfl, ?_⟩
  refine (steps_cons_ok rfl).mpr ⟨rfl, ?_⟩
  refine (steps_cons_ok rfl).mpr ⟨⟨0, Nat.one_pos, rfl⟩, ?_⟩
  refine (steps_cons_ok rfl).mpr ⟨⟨0, rfl⟩, ?_⟩
  refine (steps_cons_ok rfl).mpr ⟨rfl, ?_⟩
  refine (steps_cons_ok rfl).mpr ⟨rfl, ?_⟩
  refine (steps_cons_ok rfl).mpr ⟨⟨0, rfl⟩, ?_⟩
  refine (steps_cons_ok rfl).mpr ⟨⟨1, Nat.le_refl 1, rfl⟩, ?_⟩
  refine (steps_cons_ok rfl).mpr ⟨rfl, ?_⟩
  refine (steps_cons_ok rfl).mpr ⟨⟨rfl, Nat.one_pos⟩, ?_⟩
  exact (steps_cons_ok rfl).mpr ⟨⟨rfl, rfl⟩, trivial⟩

end ServerStart

end Muduo
