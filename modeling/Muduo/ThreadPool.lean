import Muduo.Assertion
import Muduo.Lib.Fifo
import Mathlib.Data.Nat.Notation
import Mathlib.Logic.Function.Basic

/-!
`ThreadPool.cpp`: worker threads that take tasks off a queue, and producers that
put them in. One step is one critical section: it starts with the mutex being
acquired and ends with its release, by `wait` or by the end of the guard.

* `executing_iff`: what `take` returns is what its worker executes;
* `conserved`: tasks come out in the order in which they went in, each once;
* `Inv`, `Inv.step`: the queue stays in its bound, and no wakeup is lost;
* `bounded_fifo`: both, along every run.

The workers are started, there is at least one, and no task calls `run` of its
own pool. `stop` is here up to its `join`.
-/

namespace Muduo

open Lib

/-- Where a worker is in `runInThread`. -/
inductive WorkerPhase (τ : Type) where
  /-- at the head of the loop -/
  | ready
  /-- in `take`, before the mutex -/
  | taking
  /-- in `notEmpty_.wait()` -/
  | asleep
  /-- notified, but without the mutex -/
  | woken
  | executing (task : τ)
  | finished

/-- Where a producer is in `run`. -/
inductive ProducerPhase (τ : Type) where
  | outside
  /-- in `run`, before the mutex -/
  | calling (f : τ)
  /-- in `notFull_.wait()` -/
  | asleep (f : τ)
  /-- notified, but without the mutex -/
  | woken (f : τ)

def WorkerPhase.wake {τ : Type} : WorkerPhase τ → WorkerPhase τ
  | .asleep => .woken
  | phase => phase

def ProducerPhase.wake {τ : Type} : ProducerPhase τ → ProducerPhase τ
  | .asleep f => .woken f
  | phase => phase

/-- Active, or with a notification that is pending. -/
def WorkerPhase.Awake {τ : Type} : WorkerPhase τ → Prop
  | .asleep | .finished => False
  | _ => True

/-- In `run` and active, or with a notification that is pending. -/
def ProducerPhase.Awake {τ : Type} : ProducerPhase τ → Prop
  | .calling _ | .woken _ => True
  | _ => False

def WorkerPhase.Asleep {τ : Type} (phase : WorkerPhase τ) : Prop := phase = .asleep

def ProducerPhase.Asleep {τ : Type} (phase : ProducerPhase τ) : Prop := ∃ f, phase = .asleep f

/-- Whom `pthread_cond_signal` wakes: one of the waiting threads, if any waits. -/
def Signals {ι : Type} (Asleep : ι → Prop) : Option ι → Prop
  | none => ∀ i, ¬ Asleep i
  | some i => Asleep i

structure ThreadPool (ω π τ : Type) where
  maxQueueSize_ : ℕ
  running_ : Bool
  queue_ : List τ
  worker : ω → WorkerPhase τ
  producer : π → ProducerPhase τ

namespace ThreadPool

variable {ω π τ : Type}

/-- The pool behind `start`. -/
def new (maxQueueSize : ℕ) : ThreadPool ω π τ where
  maxQueueSize_ := maxQueueSize
  running_ := true
  queue_ := []
  worker := fun _ => .ready
  producer := fun _ => .outside

/-- A label names the thread that steps, and whom it notifies. -/
inductive Label (ω π τ : Type) where
  /-- `while (running_)` -/
  | test (w : ω)
  | take (w : ω) (notified : Option π)
  | executed (w : ω)
  /-- a producer calls `run` -/
  | call (p : π) (f : τ)
  | run (p : π) (notified : Option ω)
  /-- `wait` returns without a notification -/
  | spurious (i : ω ⊕ π)
  | stop

def Enabled (s : ThreadPool ω π τ) : Label ω π τ → Prop
  | .test w => s.worker w = .ready
  | .take w p =>
    (s.worker w = .taking ∨ s.worker w = .woken) ∧ Signals (fun p => (s.producer p).Asleep) p
  | .executed w => ∃ f, s.worker w = .executing f
  | .call p _ => s.producer p = .outside
  | .run p w =>
    (s.producer p).Awake ∧ Signals (fun w => (s.worker w).Asleep) w
  | .spurious (.inl w) => (s.worker w).Asleep
  | .spurious (.inr p) => (s.producer p).Asleep
  | .stop => True

/-- `isFull()` -/
def IsFull (s : ThreadPool ω π τ) : Prop := 0 < s.maxQueueSize_ ∧ s.maxQueueSize_ ≤ s.queue_.length

instance (s : ThreadPool ω π τ) : Decidable s.IsFull :=
  inferInstanceAs (Decidable (_ ∧ _))

section Workers

variable [DecidableEq ω]

def setWorker (s : ThreadPool ω π τ) (w : ω) (phase : WorkerPhase τ) : ThreadPool ω π τ :=
  { s with worker := Function.update s.worker w phase }

/-- `notEmpty_.notify()` -/
def notifyNotEmpty (s : ThreadPool ω π τ) : Option ω → ThreadPool ω π τ
  | none => s
  | some w => s.setWorker w (s.worker w).wake

@[simp] theorem setWorker_queue_ (s : ThreadPool ω π τ) (w : ω) (phase : WorkerPhase τ) :
    (s.setWorker w phase).queue_ = s.queue_ := rfl

@[simp] theorem setWorker_self (s : ThreadPool ω π τ) (w : ω) (phase : WorkerPhase τ) :
    (s.setWorker w phase).worker w = phase := Function.update_self ..

@[simp] theorem notifyNotEmpty_queue_ (s : ThreadPool ω π τ) (w : Option ω) :
    (s.notifyNotEmpty w).queue_ = s.queue_ := by
  cases w <;> rfl

end Workers

section Producers

variable [DecidableEq π]

def setProducer (s : ThreadPool ω π τ) (p : π) (phase : ProducerPhase τ) : ThreadPool ω π τ :=
  { s with producer := Function.update s.producer p phase }

/-- `notFull_.notify()` -/
def notifyNotFull (s : ThreadPool ω π τ) : Option π → ThreadPool ω π τ
  | none => s
  | some p => s.setProducer p (s.producer p).wake

@[simp] theorem setProducer_queue_ (s : ThreadPool ω π τ) (p : π) (phase : ProducerPhase τ) :
    (s.setProducer p phase).queue_ = s.queue_ := rfl

@[simp] theorem setProducer_self (s : ThreadPool ω π τ) (p : π) (phase : ProducerPhase τ) :
    (s.setProducer p phase).producer p = phase := Function.update_self ..

@[simp] theorem notifyNotFull_queue_ (s : ThreadPool ω π τ) (p : Option π) :
    (s.notifyNotFull p).queue_ = s.queue_ := by
  cases p <;> rfl

end Producers

variable [DecidableEq ω] [DecidableEq π]

/-- A worker behind the acquisition of the mutex, in `take` or in its `wait`. -/
def take (s : ThreadPool ω π τ) (w : ω) (notified : Option π) : ThreadPool ω π τ :=
  if s.queue_.isEmpty ∧ s.running_ then
    s.setWorker w .asleep
  else
    match s.queue_ with
    | [] => s.setWorker w .ready
    | task :: queue =>
      let s := { s with queue_ := queue }.setWorker w (.executing task)
      if 0 < s.maxQueueSize_ then s.notifyNotFull notified else s

/-- A producer behind the acquisition of the mutex, in `run` or in its `wait`. -/
def run (s : ThreadPool ω π τ) (p : π) (f : τ) (notified : Option ω) : Checked (ThreadPool ω π τ) :=
  if s.IsFull then
    return s.setProducer p (.asleep f)
  else do
    check (¬ s.IsFull) .threadPoolRun
    let s := { s with queue_ := s.queue_ ++ [f] }.setProducer p .outside
    return s.notifyNotEmpty notified

def step (s : ThreadPool ω π τ) : Label ω π τ → Checked (ThreadPool ω π τ)
  | .test w => return s.setWorker w (if s.running_ then .taking else .finished)
  | .take w p => return s.take w p
  | .executed w => return s.setWorker w .ready
  | .call p f => return s.setProducer p (.calling f)
  | .run p w =>
    match s.producer p with
    | .calling f | .woken f => s.run p f w
    | _ => return s
  | .spurious (.inl w) => return s.setWorker w (s.worker w).wake
  | .spurious (.inr p) => return s.setProducer p (s.producer p).wake
  | .stop => return { s with running_ := false, worker := fun w => (s.worker w).wake }

/-- What a step enqueues. -/
def enqueued (s : ThreadPool ω π τ) : Label ω π τ → List τ
  | .run p _ =>
    match s.producer p with
    | .calling f | .woken f => if s.IsFull then [] else [f]
    | _ => []
  | _ => []

/-- What `take` returns in a step. -/
def taken (s : ThreadPool ω π τ) : Label ω π τ → List τ
  | .take _ _ => s.queue_.take 1
  | _ => []

theorem take_queue_ (s : ThreadPool ω π τ) (w : ω) (p : Option π) :
    (s.take w p).queue_ = s.queue_.drop 1 := by
  unfold take
  split
  · have hempty : s.queue_ = [] := by simp_all
    simp [hempty]
  · split
    · simp [*]
    · dsimp only
      split <;> simp [*]

/-! ## What a step does -/

theorem run_ok {s s' : ThreadPool ω π τ} {p : π} {f : τ} {w : Option ω}
    (h : s.run p f w = .ok s') :
    (s.IsFull ∧ s' = s.setProducer p (.asleep f)) ∨
      (¬ s.IsFull ∧
        s' = ({ s with queue_ := s.queue_ ++ [f] }.setProducer p .outside).notifyNotEmpty w) := by
  unfold run at h
  split at h
  · cases h
    exact .inl ⟨‹_›, rfl⟩
  · obtain ⟨_, _, h⟩ := bind_eq_ok.mp h
    cases h
    exact .inr ⟨‹_›, rfl⟩

/-- A critical section of `run` is that of a call, which is in `f`. -/
theorem step_run {s s' : ThreadPool ω π τ} {p : π} {w : Option ω} (ha : s.Enabled (.run p w))
    (hs : s.step (.run p w) = .ok s') :
    ∃ f, (s.producer p = .calling f ∨ s.producer p = .woken f) ∧ s.run p f w = .ok s' := by
  have hawake : (s.producer p).Awake := ha.1
  cases hp : s.producer p with
  | calling f => exact ⟨f, .inl rfl, by simpa [step, hp] using hs⟩
  | woken f => exact ⟨f, .inr rfl, by simpa [step, hp] using hs⟩
  | outside => simp [hp, ProducerPhase.Awake] at hawake
  | asleep f => simp [hp, ProducerPhase.Awake] at hawake

/-! ## What the workers execute -/

@[simp] theorem wake_executing (phase : WorkerPhase τ) (f : τ) :
    phase.wake = .executing f ↔ phase = .executing f := by
  cases phase <;> simp [WorkerPhase.wake]

omit [DecidableEq π] in
theorem setWorker_executing (s : ThreadPool ω π τ) {w : ω} {phase : WorkerPhase τ}
    (h : ∀ f, phase ≠ .executing f) (w' : ω) (f : τ) :
    (s.setWorker w phase).worker w' = .executing f ↔ s.worker w' = .executing f ∧ w' ≠ w := by
  by_cases hw : w' = w
  · subst hw
    simp [h]
  · simp [setWorker, hw]

omit [DecidableEq π] in
theorem setWorker_wake_executing (s : ThreadPool ω π τ) (w w' : ω) (f : τ) :
    (s.setWorker w (s.worker w).wake).worker w' = .executing f ↔ s.worker w' = .executing f := by
  by_cases hw : w' = w
  · subst hw
    simp
  · simp [setWorker, hw]

omit [DecidableEq π] in
theorem notifyNotEmpty_executing (s : ThreadPool ω π τ) (notified : Option ω) (w : ω) (f : τ) :
    (s.notifyNotEmpty notified).worker w = .executing f ↔ s.worker w = .executing f := by
  cases notified with
  | none => rfl
  | some w' => exact setWorker_wake_executing s w' w f

omit [DecidableEq ω] in
@[simp] theorem notifyNotFull_worker (s : ThreadPool ω π τ) (p : Option π) :
    (s.notifyNotFull p).worker = s.worker := by
  cases p <;> rfl

theorem take_nil {s : ThreadPool ω π τ} (h : s.queue_ = []) (w : ω) (p : Option π) :
    s.take w p = s.setWorker w (if s.running_ then .asleep else .ready) := by
  cases hrunning : s.running_ <;> simp [take, h, hrunning]

theorem take_cons {s : ThreadPool ω π τ} {task : τ} {queue : List τ} (h : s.queue_ = task :: queue)
    (w : ω) (p : Option π) :
    (s.take w p).worker = Function.update s.worker w (.executing task) := by
  unfold take
  rw [if_neg (by simp [h]), h]
  dsimp only
  split <;> simp [setWorker]

/-- What `take` takes off the queue is what its worker comes to execute. -/
theorem take_executing (s : ThreadPool ω π τ) (w : ω) (p : Option π) (w' : ω) (f : τ) :
    (s.take w p).worker w' = .executing f ↔
      s.worker w' = .executing f ∧ w' ≠ w ∨ w' = w ∧ s.queue_.take 1 = [f] := by
  cases hq : s.queue_ with
  | nil =>
    rw [take_nil hq, setWorker_executing s (by intro f; split <;> simp)]
    simp
  | cons task queue =>
    rw [take_cons hq]
    by_cases hw : w' = w
    · subst hw
      simp
    · simp [hw]

/-- **Taken and executed.** A worker executes what `take` has returned to it, and
nothing else, until it is done with it. -/
theorem executing_iff {s s' : ThreadPool ω π τ} {a : Label ω π τ} (ha : s.Enabled a)
    (hs : s.step a = .ok s') (w : ω) (f : τ) :
    s'.worker w = .executing f ↔
      s.worker w = .executing f ∧ a ≠ .executed w ∨ ∃ p, a = .take w p ∧ s.taken a = [f] := by
  cases a with
  | test w' =>
    cases hs
    have hready : s.worker w' = .ready := ha
    have hne (h : s.worker w = .executing f) : w ≠ w' := by
      rintro rfl
      rw [h] at hready
      cases hready
    rw [setWorker_executing s (by intro f; split <;> simp)]
    simpa using hne
  | take w' p =>
    cases hs
    have hawake : s.worker w' = .taking ∨ s.worker w' = .woken := ha.1
    rw [take_executing]
    by_cases hw : w = w'
    · subst hw
      rcases hawake with hawake | hawake <;> simp [hawake, taken]
    · simp [hw, Ne.symm hw]
  | executed w' =>
    cases hs
    rw [setWorker_executing s (by simp)]
    simp [eq_comm]
  | run p notified =>
    obtain ⟨g, -, hrun⟩ := step_run ha hs
    rcases run_ok hrun with ⟨-, rfl⟩ | ⟨-, rfl⟩
    · simp [setProducer]
    · rw [notifyNotEmpty_executing]
      simp [setProducer]
  | spurious i =>
    cases i with
    | inl w' =>
      cases hs
      simp [setWorker_wake_executing]
    | inr p =>
      cases hs
      simp [setProducer]
  | call p g =>
    cases hs
    simp [setProducer]
  | stop =>
    cases hs
    simp

/-! ## First in, first out -/

theorem step_conserved {s s' : ThreadPool ω π τ} {a : Label ω π τ} (ha : s.Enabled a)
    (hs : s.step a = .ok s') : s.taken a ++ s'.queue_ = s.queue_ ++ s.enqueued a := by
  cases a with
  | take w p =>
    cases hs
    have hq : s.queue_.take 1 ++ s.queue_.drop 1 = s.queue_ := List.take_append_drop ..
    simpa [taken, enqueued, take_queue_] using hq
  | run p w =>
    obtain ⟨f, hp, hrun⟩ := step_run ha hs
    have henq : s.enqueued (.run p w) = if s.IsFull then [] else [f] := by
      rcases hp with hp | hp <;> simp [enqueued, hp]
    rcases run_ok hrun with ⟨hfull, rfl⟩ | ⟨hfull, rfl⟩ <;> simp [henq, taken, hfull]
  | spurious i => cases i <;> (cases hs; simp [taken, enqueued])
  | _ =>
    cases hs
    simp [taken, enqueued]

/-- **Exactly once, in order.** What has been taken, and then what is in the
queue, is what has been enqueued. -/
theorem conserved {m : ℕ} {t : ThreadPool ω π τ} {steps : List (Label ω π τ)}
    (hrun : Run step (new m) steps t) (hen : Along step Enabled (new m) steps) :
    yields step taken (new m) steps ++ t.queue_ = yields step enqueued (new m) steps :=
  hrun.conserved (I := fun _ => True) hen trivial (fun _ _ _ _ _ _ => trivial)
    fun _ _ _ _ => step_conserved

/-! ## The bound and the wakeups -/

/-- Of a pool with the bound `m`. In the last field a woken producer is on its
way to put a task into the queue. -/
structure Inv (m : ℕ) (s : ThreadPool ω π τ) : Prop where
  maxQueueSize : s.maxQueueSize_ = m
  bounded : 0 < m → s.queue_.length ≤ m
  working : s.running_ = true → ∀ w, s.worker w ≠ .finished
  served : s.running_ = true → s.queue_ ≠ [] → ∃ w, (s.worker w).Awake
  refilled : 0 < m → s.queue_ = [] → ∀ p, (s.producer p).Asleep → ∃ p', (s.producer p').Awake

omit [DecidableEq ω] [DecidableEq π] in
theorem Inv.new [Nonempty ω] (m : ℕ) : Inv m (new m : ThreadPool ω π τ) where
  maxQueueSize := rfl
  bounded := fun _ => Nat.zero_le m
  working := fun _ _ h => nomatch h
  served := fun _ h => absurd rfl h
  refilled := by
    rintro - - p ⟨f, hf⟩
    cases hf

omit [DecidableEq π] in
/-- A worker that does not go to sleep disturbs nothing. -/
theorem Inv.setWorker {m : ℕ} {s : ThreadPool ω π τ} (h : Inv m s) (w : ω)
    {phase : WorkerPhase τ} (hphase : phase.Awake) : Inv m (s.setWorker w phase) where
  maxQueueSize := h.maxQueueSize
  bounded := h.bounded
  working := by
    intro hrunning w'
    by_cases hw : w' = w
    · subst hw
      rw [setWorker_self]
      rintro rfl
      exact hphase
    · simpa [ThreadPool.setWorker, hw] using h.working hrunning w'
  served := by
    intro _ _
    exact ⟨w, by rwa [setWorker_self]⟩
  refilled := h.refilled

omit [DecidableEq ω] in
/-- Nor does a producer that does not. -/
theorem Inv.setProducer {m : ℕ} {s : ThreadPool ω π τ} (h : Inv m s) (p : π)
    {phase : ProducerPhase τ} (hphase : phase.Awake) : Inv m (s.setProducer p phase) where
  maxQueueSize := h.maxQueueSize
  bounded := h.bounded
  working := h.working
  served := h.served
  refilled := by
    intro _ _ _ _
    exact ⟨p, by rwa [setProducer_self]⟩

omit [DecidableEq π] in
/-- A task is taken, and `producer` is what the notification makes of the producers. -/
theorem Inv.pop {m : ℕ} {s : ThreadPool ω π τ} (h : Inv m s) (w : ω) {task : τ} {queue : List τ}
    (hq : s.queue_ = task :: queue) (producer : π → ProducerPhase τ)
    (hproducer : 0 < m → ∀ p, (producer p).Asleep → ∃ p', (producer p').Awake) :
    Inv m ({ s with queue_ := queue, producer := producer }.setWorker w (.executing task)) where
  maxQueueSize := h.maxQueueSize
  bounded := by
    intro hm
    have hlen : s.queue_.length = queue.length + 1 := by rw [hq, List.length_cons]
    have hle : s.queue_.length ≤ m := h.bounded hm
    change queue.length ≤ m
    omega
  working := (h.setWorker w (show (WorkerPhase.executing task).Awake from trivial)).working
  served := by
    intro _ _
    exact ⟨w, by rw [setWorker_self]; trivial⟩
  refilled := by
    intro hm _
    exact hproducer hm

theorem Inv.take {m : ℕ} {s : ThreadPool ω π τ} (h : Inv m s) (w : ω) {p : Option π}
    (hp : Signals (fun p => (s.producer p).Asleep) p) : Inv m (s.take w p) := by
  unfold ThreadPool.take
  split
  · have hempty : s.queue_ = [] := by simp_all
    constructor
    · exact h.maxQueueSize
    · exact h.bounded
    · intro hrunning w'
      by_cases hw : w' = w
      · simp [ThreadPool.setWorker, hw]
      · simpa [ThreadPool.setWorker, hw] using h.working hrunning w'
    · exact fun _ hne => absurd hempty hne
    · exact h.refilled
  · split
    · exact h.setWorker w trivial
    · rename_i task queue hq
      dsimp only
      split
      · cases p with
        | none => exact h.pop w hq s.producer fun _ p hasleep => absurd hasleep (hp p)
        | some p =>
          -- the producer that is notified will find room
          obtain ⟨f, hasleep⟩ : (s.producer p).Asleep := hp
          have hwoken : (Function.update s.producer p (s.producer p).wake p).Awake := by
            simp [hasleep, ProducerPhase.wake, ProducerPhase.Awake]
          exact h.pop w hq (Function.update s.producer p (s.producer p).wake)
            fun _ _ _ => ⟨p, hwoken⟩
      · rename_i hm
        exact h.pop w hq s.producer fun hpos => absurd (lt_of_lt_of_eq hpos h.maxQueueSize.symm) hm

theorem Inv.push [Nonempty ω] {m : ℕ} {s : ThreadPool ω π τ} (h : Inv m s) (hfull : ¬ s.IsFull)
    (p : π) (f : τ) {w : Option ω} (hw : Signals (fun w => (s.worker w).Asleep) w) :
    Inv m (({ s with queue_ := s.queue_ ++ [f] }.setProducer p .outside).notifyNotEmpty w) := by
  have hbounded : 0 < m → (s.queue_ ++ [f]).length ≤ m := by
    intro hm
    rw [IsFull, h.maxQueueSize] at hfull
    rw [List.length_append, List.length_singleton]
    omega
  have hne : s.queue_ ++ [f] ≠ [] := by simp
  cases w with
  | none =>
    -- nobody waits, so any worker will do
    have hawake : s.running_ = true → ∀ w, (s.worker w).Awake := by
      intro hrunning w
      have hasleep : s.worker w ≠ .asleep := hw w
      have hfinished : s.worker w ≠ .finished := h.working hrunning w
      cases hw' : s.worker w <;> simp_all [WorkerPhase.Awake]
    obtain ⟨w⟩ : Nonempty ω := inferInstance
    exact ⟨h.maxQueueSize, hbounded, h.working, fun hr _ => ⟨w, hawake hr w⟩,
      fun _ hq => absurd hq hne⟩
  | some w =>
    have hasleep : s.worker w = .asleep := hw
    have hset : Inv m (s.setWorker w (s.worker w).wake) :=
      h.setWorker w (by simp [hasleep, WorkerPhase.wake, WorkerPhase.Awake])
    refine ⟨h.maxQueueSize, hbounded, hset.working, fun _ _ => ⟨w, ?_⟩, fun _ hq => absurd hq hne⟩
    simp [notifyNotEmpty, ThreadPool.setProducer, hasleep, WorkerPhase.wake, WorkerPhase.Awake]

theorem Inv.run [Nonempty ω] {m : ℕ} {s s' : ThreadPool ω π τ} (h : Inv m s) {p : π} {f : τ}
    {w : Option ω} (hw : Signals (fun w => (s.worker w).Asleep) w)
    (hs : s.run p f w = .ok s') : Inv m s' := by
  rcases run_ok hs with ⟨hfull, rfl⟩ | ⟨hfull, rfl⟩
  · refine ⟨h.maxQueueSize, h.bounded, h.working, h.served, ?_⟩
    intro hm hempty
    have hlen : s.queue_.length = 0 := by rw [show s.queue_ = [] from hempty, List.length_nil]
    rw [IsFull, h.maxQueueSize] at hfull
    omega
  · exact h.push hfull p f hw

theorem Inv.step [Nonempty ω] {m : ℕ} {s s' : ThreadPool ω π τ} (h : Inv m s) {a : Label ω π τ}
    (ha : s.Enabled a) (hs : s.step a = .ok s') : Inv m s' := by
  cases a with
  | test w =>
    cases hs
    by_cases hrunning : s.running_ = true
    · rw [if_pos hrunning]
      exact h.setWorker w trivial
    · rw [if_neg hrunning]
      exact ⟨h.maxQueueSize, h.bounded, fun hr => absurd hr hrunning,
        fun hr => absurd hr hrunning, h.refilled⟩
  | take w p =>
    cases hs
    exact h.take w ha.2
  | executed w =>
    cases hs
    exact h.setWorker w trivial
  | call p f =>
    cases hs
    exact h.setProducer p trivial
  | run p w =>
    obtain ⟨f, -, hrun⟩ := step_run ha hs
    exact h.run ha.2 hrun
  | spurious i =>
    cases i with
    | inl w =>
      cases hs
      have hasleep : s.worker w = .asleep := ha
      exact h.setWorker w (by simp [hasleep, WorkerPhase.wake, WorkerPhase.Awake])
    | inr p =>
      cases hs
      obtain ⟨f, hasleep⟩ := ha
      exact h.setProducer p (by simp [hasleep, ProducerPhase.wake, ProducerPhase.Awake])
  | stop =>
    cases hs
    exact ⟨h.maxQueueSize, h.bounded, nofun, nofun, h.refilled⟩

theorem Inv.run_of_new [Nonempty ω] {m : ℕ} {t : ThreadPool ω π τ} {steps : List (Label ω π τ)}
    (hrun : Run ThreadPool.step (ThreadPool.new m) steps t)
    (hen : Along ThreadPool.step Enabled (ThreadPool.new m) steps) : Inv m t :=
  hrun.invariant hen (Inv.new m) fun _ _ _ h ha hs => h.step ha hs

omit [DecidableEq ω] [DecidableEq π] in
/-- Somebody is about to make use of the room that a blocked producer waits for. -/
theorem Inv.awake {m : ℕ} {s : ThreadPool ω π τ} (h : Inv m s) (hrunning : s.running_ = true)
    (hm : 0 < m) {p : π} (hp : (s.producer p).Asleep) :
    (∃ w, (s.worker w).Awake) ∨ ∃ p', (s.producer p').Awake := by
  by_cases hq : s.queue_ = []
  · exact .inr (h.refilled hm hq p hp)
  · exact .inl (h.served hrunning hq)

/-- **A bounded queue without lost wakeups.** Behind every run, what was taken
and what is in the queue is what was enqueued, the queue is in its bound, and
until `stop` a task in the queue and a producer that waits for room that is
there find somebody awake. -/
theorem bounded_fifo [Nonempty ω] {m : ℕ} {t : ThreadPool ω π τ} {steps : List (Label ω π τ)}
    (hrun : Run step (new m) steps t) (hen : Along step Enabled (new m) steps) :
    yields step taken (new m) steps ++ t.queue_ = yields step enqueued (new m) steps ∧
      (0 < m → t.queue_.length ≤ m) ∧
      (t.running_ = true →
        (t.queue_ ≠ [] → ∃ w, (t.worker w).Awake) ∧
        (0 < m → t.queue_.length < m → (∃ p, (t.producer p).Asleep) →
          (∃ w, (t.worker w).Awake) ∨ ∃ p, (t.producer p).Awake)) := by
  have h : Inv m t := Inv.run_of_new hrun hen
  refine ⟨conserved hrun hen, h.bounded, fun hrunning => ⟨h.served hrunning, ?_⟩⟩
  rintro hm - ⟨p, hp⟩
  exact h.awake hrunning hm hp

/-- One worker, three producers and room for one task: two producers wait, and
`take` wakes one of them. -/
def threeCalls : List (Label Unit (Fin 3) ℕ) :=
  [.call 0 10, .run 0 none, .call 1 11, .run 1 none, .call 2 12, .run 2 none, .test (),
   .take () (some 1)]

theorem bounded_fifo_threeCalls :
    ∃ t, Run step (new 1) threeCalls t ∧
      [10] ++ t.queue_ = [10] ∧ t.queue_.length ≤ 1 ∧ (t.producer 2).Asleep ∧
      ((∃ w, (t.worker w).Awake) ∨ ∃ p, (t.producer p).Awake) := by
  have hnobody : Signals (fun _ : Unit => (WorkerPhase.ready : WorkerPhase ℕ).Asleep) none := by
    intro _ h
    cases h
  have hrun : ∃ t, Run step (new 1) threeCalls t := ⟨_, run_iff_foldlM.mpr rfl⟩
  have hen : Along step Enabled (new 1) threeCalls := by
    apply (steps_cons_ok rfl).mpr ⟨rfl, _⟩
    apply (steps_cons_ok rfl).mpr ⟨⟨trivial, hnobody⟩, _⟩
    apply (steps_cons_ok rfl).mpr ⟨rfl, _⟩
    apply (steps_cons_ok rfl).mpr ⟨⟨trivial, hnobody⟩, _⟩
    apply (steps_cons_ok rfl).mpr ⟨rfl, _⟩
    apply (steps_cons_ok rfl).mpr ⟨⟨trivial, hnobody⟩, _⟩
    apply (steps_cons_ok rfl).mpr ⟨rfl, _⟩
    exact ⟨⟨.inl rfl, 11, rfl⟩, fun _ _ => trivial⟩
  obtain ⟨t, hrun⟩ := hrun
  obtain ⟨hfifo, hbound, hawake⟩ := bounded_fifo hrun hen
  have ht : t.running_ = true ∧ t.queue_ = [] ∧ (t.producer 2).Asleep := by
    cases run_iff_foldlM.mp hrun
    exact ⟨rfl, rfl, 12, rfl⟩
  have hroom : t.queue_.length < 1 := by rw [ht.2.1]; decide
  exact ⟨t, hrun, hfifo, hbound Nat.one_pos, ht.2.2,
    (hawake ht.1).2 Nat.one_pos hroom ⟨2, ht.2.2⟩⟩

end ThreadPool

end Muduo
