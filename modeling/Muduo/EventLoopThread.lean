import Muduo.EventLoopQuit

/-!
`EventLoopThread.cpp`: a thread that runs one loop, and the owner of the
object, whose destructor asks the loop to quit and joins the thread. The loop
is a local variable of `threadFunc`; it is gone when that has returned, and
`loop_` points to it from the end of the thread's initialization on.

* `destructor_joins`: a request made behind the entry of `loop()` lets the
  destructor come to its end, the destruction of the local loop left aside;
* `Stuck.run`: after one made before, neither the loop nor the destructor ends.
-/

namespace Muduo

open Lib

/-- Where the owner is. -/
inductive OwnerPhase where
  | constructed
  /-- in `startLoop`, waiting for `loop_` -/
  | starting
  | started
  /-- in the destructor, which has seen `loop_` -/
  | destructing
  /-- behind the write of `quit_`, before the write to the eventfd -/
  | quitting
  | joining
  | destructed
  deriving DecidableEq, Repr

/-- How far the owner is from the end of the destructor. -/
def OwnerPhase.distance : OwnerPhase → ℕ
  | .destructed => 0
  | .joining => 1
  | _ => 2

/-- Where the thread is. -/
inductive ThreadFuncPhase where
  | notStarted
  /-- in `callback_`, before `loop_` is set -/
  | initializing
  | looping
  | finished
  deriving DecidableEq, Repr

/-- To the loop, the owner is the thread `none`. -/
structure EventLoopThread (ι φ : Type) where
  /-- `loop_` is not `NULL` -/
  loop_ : Bool
  exiting : Bool
  owner : OwnerPhase
  thread : ThreadFuncPhase
  loop : EventLoop (Option ι) φ

namespace EventLoopThread

variable {ι φ : Type}

def new : EventLoopThread ι φ where
  loop_ := false
  exiting := false
  owner := .constructed
  thread := .notStarted
  loop := .new

inductive Label (ι φ : Type) where
  | startLoop
  | startLoopReturns
  /-- `callback_` calls the loop -/
  | callback (c : LoopCall φ)
  /-- `threadFunc` sets `loop_` -/
  | publish
  /-- a step of `loop()`, or of a call that another thread makes -/
  | loop (a : EventLoop.Label (Option ι) φ)
  /-- `threadFunc` behind `loop()` -/
  | finish
  /-- the destructor up to its test of `loop_` -/
  | destruct
  | quit
  | wakeup
  | join

/-- A thread that may call the loop now: the owner between `startLoop` and the
destructor, another one from the initialization on. -/
def MayCall (s : EventLoopThread ι φ) : Option ι → Prop
  | none => s.owner = .started
  | some _ => s.thread = .initializing ∨ s.thread = .looping

/-- The steps of the loop belong to `threadFunc` or to a thread that calls. -/
def LoopEnabled (s : EventLoopThread ι φ) : EventLoop.Label (Option ι) φ → Prop
  | .early _ => False
  | .queneInLoop i _ | .quit i | .wakeupFrom i => s.MayCall i
  | _ => s.thread = .looping

def Enabled (s : EventLoopThread ι φ) : Label ι φ → Prop
  | .startLoop => s.owner = .constructed
  | .startLoopReturns => s.owner = .starting ∧ s.loop_ = true
  | .callback c => s.thread = .initializing ∧ s.loop.Enabled (.early c)
  | .publish => s.thread = .initializing
  | .loop a => s.LoopEnabled a ∧ s.loop.Enabled a
  | .finish => s.thread = .looping ∧ s.loop.phase = .returned
  | .destruct => (s.owner = .constructed ∨ s.owner = .started) ∧ s.loop.threads none = .outside
  | .quit => s.owner = .destructing
  | .wakeup => s.owner = .quitting
  | .join => s.owner = .joining ∧ s.thread = .finished

/-- What is left to do until the destructor is done. -/
def measure (s : EventLoopThread ι φ) : ℕ ×ₗ ℕ ×ₗ (ℕ ×ₗ ℕ ×ₗ ℕ) :=
  toLex (s.owner.distance, toLex (if s.thread = .finished then 0 else 1, s.loop.measure))

theorem measure_lt_of_loop {s : EventLoopThread ι φ} {loop : EventLoop (Option ι) φ}
    (h : loop.measure < s.loop.measure) : measure { s with loop } < s.measure :=
  Prod.Lex.toLex_lt_toLex.mpr (.inr ⟨rfl, Prod.Lex.toLex_lt_toLex.mpr (.inr ⟨rfl, h⟩)⟩)

variable [DecidableEq ι]

/-- A step of the loop inside the thread. A loop that is gone is not to be
called. -/
def onLoop (s : EventLoopThread ι φ) (a : EventLoop.Label (Option ι) φ) :
    Checked (EventLoopThread ι φ) := do
  check (s.thread ≠ .finished) .deletedLoop
  return { s with loop := ← s.loop.step a }

/-- `finish` leaves out the destruction of the local `EventLoop`, which always
fails the assertion of `~Channel` where assertions are checked
(`LoopObject.never_released`). -/
def step (s : EventLoopThread ι φ) : Label ι φ → Checked (EventLoopThread ι φ)
  | .startLoop => return { s with owner := .starting, thread := .initializing }
  | .startLoopReturns => return { s with owner := .started }
  | .callback c => s.onLoop (.early c)
  | .publish => return { s with loop_ := true, thread := .looping }
  | .loop a => s.onLoop a
  | .finish => return { s with loop_ := false, thread := .finished }
  | .destruct =>
    return { s with exiting := true, owner := if s.loop_ then .destructing else .destructed }
  | .quit => return { ← s.onLoop (.quit none) with owner := .quitting }
  | .wakeup => return { ← s.onLoop (.wakeupFrom none) with owner := .joining }
  | .join => return { s with owner := .destructed }

theorem onLoop_ok {s s' : EventLoopThread ι φ} {a : EventLoop.Label (Option ι) φ}
    (h : s.onLoop a = .ok s') :
    s.thread ≠ .finished ∧ ∃ loop, s.loop.step a = .ok loop ∧ s' = { s with loop } := by
  obtain ⟨_, hcheck, h⟩ := bind_eq_ok.mp h
  obtain ⟨loop, hloop, h⟩ := bind_eq_ok.mp h
  cases h
  exact ⟨(check_eq_ok ..).mp hcheck, loop, hloop, rfl⟩

/-! ## A request made in time -/

/-- The destructor is behind its request, and the loop is to quit. -/
structure Leaving (s : EventLoopThread ι φ) : Prop where
  owner : s.owner = .quitting ∨ s.owner = .joining ∨ s.owner = .destructed
  loop : s.loop.Quitting

/-- The steps towards the end of the destructor. -/
def Label.Leads : Label ι φ → Prop
  | .loop a => a.OfLoop
  | .finish | .wakeup | .join => True
  | _ => False

/-- An infinite interleaving without a failure in which, until the destructor
is done, the owner and its thread take step after step. -/
structure FairExecution (s : ℕ → EventLoopThread ι φ) (a : ℕ → Label ι φ) : Prop where
  enabled : ∀ n, (s n).Enabled (a n)
  next : ∀ n, (s n).step (a n) = .ok (s (n + 1))
  fair : ∀ n, (s n).owner ≠ .destructed → ∃ m, n ≤ m ∧ (a m).Leads

theorem Leaving.step {s s' : EventLoopThread ι φ} (h : s.Leaving) {a : Label ι φ}
    (ha : s.Enabled a) (hs : s.step a = .ok s') :
    s'.Leaving ∧ (a.Leads → s'.measure < s.measure) ∧ (¬ a.Leads → s'.measure ≤ s.measure) := by
  cases a with
  | startLoop =>
    have howner : s.owner = .constructed := ha
    simpa [howner] using h.owner
  | startLoopReturns => simpa [ha.1] using h.owner
  | callback c => exact absurd ha.2 h.loop.started
  | publish =>
    have hthread : s.thread = .initializing := ha
    cases hs
    refine ⟨⟨h.owner, h.loop⟩, fun hn => absurd hn id, fun _ => le_of_eq ?_⟩
    simp [measure, hthread]
  | loop a =>
    obtain ⟨-, loop, hloop, rfl⟩ := onLoop_ok hs
    obtain ⟨hquitting, hlt, heq⟩ := h.loop.step ha.2 hloop
    refine ⟨⟨h.owner, hquitting⟩, fun hm => measure_lt_of_loop (hlt hm), fun hm => le_of_eq ?_⟩
    simp [measure, heq hm]
  | finish =>
    cases hs
    refine ⟨⟨h.owner, h.loop⟩, fun _ => ?_, fun hn => absurd trivial hn⟩
    exact Prod.Lex.toLex_lt_toLex.mpr (.inr ⟨rfl, Prod.Lex.toLex_lt_toLex.mpr (.inl (by simp [ha.1]))⟩)
  | destruct =>
    rcases ha.1 with howner | howner <;> simpa [howner] using h.owner
  | quit =>
    have howner : s.owner = .destructing := ha
    simpa [howner] using h.owner
  | wakeup =>
    have howner : s.owner = .quitting := ha
    obtain ⟨_, hon, hs⟩ := bind_eq_ok.mp hs
    obtain ⟨-, loop, hloop, rfl⟩ := onLoop_ok hon
    cases hs
    cases hloop
    refine ⟨⟨.inr (.inl rfl), h.loop.started, h.loop.quit⟩, fun _ => ?_, fun hn => absurd trivial hn⟩
    exact Prod.Lex.toLex_lt_toLex.mpr (.inl (by simp [howner, OwnerPhase.distance]))
  | join =>
    cases hs
    refine ⟨⟨.inr (.inr rfl), h.loop⟩, fun _ => ?_, fun hn => absurd trivial hn⟩
    exact Prod.Lex.toLex_lt_toLex.mpr (.inl (by simp [ha.1, OwnerPhase.distance]))

/-- **The destructor joins**, if `~EventLoop` at the end of `threadFunc` lets the
thread end. -/
theorem destructor_joins {s : ℕ → EventLoopThread ι φ} {a : ℕ → Label ι φ}
    (hfair : FairExecution s a) (h : (s 0).Leaving) : ∃ n, (s n).owner = .destructed := by
  have hl : ∀ n, (s n).Leaving := by
    intro n
    induction n with
    | zero => exact h
    | succ n ih => exact (ih.step (hfair.enabled n) (hfair.next n)).1
  refine eventually_of_fair measure (fun s => s.owner = .destructed)
    (fun n => (a n).Leads) hfair.fair (fun n _ hm => ?_) (fun n _ hm => ?_)
  · exact ((hl n).step (hfair.enabled n) (hfair.next n)).2.1 hm
  · exact ((hl n).step (hfair.enabled n) (hfair.next n)).2.2 hm

/-! ## A request made too early -/

/-- The destructor is behind its request, and the loop knows of none. -/
structure Stuck (s : EventLoopThread ι φ) : Prop where
  owner : s.owner = .quitting ∨ s.owner = .joining
  thread : s.thread ≠ .finished
  loop : s.loop.Unasked

/-- No callback, functor or other thread asks the loop to quit once it runs. -/
def NoRequest (s : EventLoopThread ι φ) : Label ι φ → Prop
  | .loop a => ¬ (s.loop.IsQuit a ∧ s.loop.phase ≠ .notStarted)
  | _ => True

theorem Stuck.step {s s' : EventLoopThread ι φ} (h : s.Stuck) {a : Label ι φ} (ha : s.Enabled a)
    (hq : s.NoRequest a) (hs : s.step a = .ok s') : s'.Stuck := by
  cases a with
  | startLoop =>
    have howner : s.owner = .constructed := ha
    simpa [howner] using h.owner
  | startLoopReturns => simpa [ha.1] using h.owner
  | callback c =>
    obtain ⟨-, loop, hloop, rfl⟩ := onLoop_ok hs
    have hp : s.loop.phase = .notStarted := ha.2
    exact ⟨h.owner, h.thread, h.loop.step ha.2 (fun hreq => hreq.2 hp) hloop⟩
  | publish =>
    cases hs
    exact ⟨h.owner, by simp, h.loop⟩
  | loop a =>
    obtain ⟨-, loop, hloop, rfl⟩ := onLoop_ok hs
    exact ⟨h.owner, h.thread, h.loop.step ha.2 hq hloop⟩
  | finish => exact absurd ha.2 h.loop.running
  | destruct =>
    rcases ha.1 with howner | howner <;> simpa [howner] using h.owner
  | quit =>
    have howner : s.owner = .destructing := ha
    simpa [howner] using h.owner
  | wakeup =>
    obtain ⟨_, hon, hs⟩ := bind_eq_ok.mp hs
    obtain ⟨-, loop, hloop, rfl⟩ := onLoop_ok hon
    cases hs
    cases hloop
    exact ⟨.inr rfl, h.thread, h.loop.running, h.loop.quit⟩
  | join => exact absurd ha.2 h.thread

/-- **The destructor hangs.** Without another request neither the loop nor the
destructor comes to its end. -/
theorem Stuck.run {s t : EventLoopThread ι φ} {steps : List (Label ι φ)} (h : s.Stuck)
    (hrun : Run EventLoopThread.step s steps t) (hen : Along EventLoopThread.step Enabled s steps)
    (hq : Along EventLoopThread.step NoRequest s steps) : t.Stuck :=
  hrun.invariant (E := fun s a => s.Enabled a ∧ s.NoRequest a) (hen.and hq) h
    fun _ _ _ h ha hs => h.step ha.1 ha.2 hs

/-- What becomes of the destructor is decided by its request. -/
theorem quit_outcome {s s' : EventLoopThread ι φ} (hs : s.step .quit = .ok s') :
    (s.loop.phase ≠ .notStarted → s'.Leaving) ∧ (s.loop.phase = .notStarted → s'.Stuck) := by
  obtain ⟨_, hon, hs⟩ := bind_eq_ok.mp hs
  obtain ⟨hthread, loop, hloop, rfl⟩ := onLoop_ok hon
  cases hs
  cases hloop
  constructor
  · exact fun hp => ⟨.inl rfl, hp, rfl⟩
  · intro hp
    have hp' : (({ s.loop with quit := true } : EventLoop (Option ι) φ).setThread none .quitting).phase =
      .notStarted := hp
    exact ⟨.inl rfl, hthread, by simp [hp'], .inl hp'⟩

/-- The owner destructs the object right behind `startLoop`, before the thread
has entered `loop()`. -/
def earlyDestruct : List (Label Unit Nat) :=
  [.startLoop, .publish, .startLoopReturns, .destruct, .quit, .wakeup, .loop .enter, .loop .test,
   .loop .poll]

theorem quit_forgotten :
    ∃ s, Run step new earlyDestruct s ∧ Along step Enabled new earlyDestruct ∧
      s.owner = .joining ∧ s.loop.phase = .polling ∧ s.Stuck := by
  refine ⟨_, run_iff_foldlM.mpr rfl, ?_, rfl, rfl, .inr rfl, by simp, by simp, .inr rfl⟩
  refine (steps_cons_ok rfl).mpr ⟨rfl, ?_⟩
  refine (steps_cons_ok rfl).mpr ⟨rfl, ?_⟩
  refine (steps_cons_ok rfl).mpr ⟨⟨rfl, rfl⟩, ?_⟩
  refine (steps_cons_ok rfl).mpr ⟨⟨.inr rfl, rfl⟩, ?_⟩
  refine (steps_cons_ok rfl).mpr ⟨rfl, ?_⟩
  refine (steps_cons_ok rfl).mpr ⟨rfl, ?_⟩
  refine (steps_cons_ok rfl).mpr ⟨⟨rfl, rfl⟩, ?_⟩
  refine (steps_cons_ok rfl).mpr ⟨⟨rfl, rfl⟩, ?_⟩
  exact ⟨⟨rfl, rfl⟩, fun _ _ => trivial⟩

end EventLoopThread

end Muduo
