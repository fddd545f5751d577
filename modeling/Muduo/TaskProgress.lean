import Mathlib.Data.Prod.Lex
import Muduo.Lib.Progress
import Muduo.Lib.Tally
import Muduo.ThreadPool

/-!
Tasks do not stay in the queue of a `ThreadPool`. As long as workers that are
awake take steps, which means that their tasks end, every task is taken in its
turn, until the pool is stopped. Who of them steps, whom a notification wakes
and what the producers do is open.

* `load`: how far the workers are from their next `take`;
* `tasks_taken`: what is in the queue comes out.
-/

namespace Muduo

open Lib

/-- The steps of a worker to a critical section of `take`. -/
def WorkerPhase.untilTake {τ : Type} : WorkerPhase τ → ℕ
  | .taking | .asleep | .woken | .finished => 0
  | .ready => 1
  | .executing _ => 2

theorem WorkerPhase.untilTake_wake {τ : Type} (phase : WorkerPhase τ) :
    phase.wake.untilTake = phase.untilTake := by
  cases phase <;> rfl

namespace ThreadPool

variable {ω π τ : Type}

def Label.OfWorker : Label ω π τ → Prop
  | .test _ | .take .. | .executed _ => True
  | _ => False

variable [Fintype ω]

def load (s : ThreadPool ω π τ) : ℕ := weigh WorkerPhase.untilTake s.worker

theorem load_congr {s s' : ThreadPool ω π τ}
    (h : ∀ w, (s'.worker w).untilTake = (s.worker w).untilTake) : s'.load = s.load :=
  weigh_congr h

variable [DecidableEq ω]

theorem load_setWorker (s : ThreadPool ω π τ) (w : ω) (phase : WorkerPhase τ) :
    (s.setWorker w phase).load + (s.worker w).untilTake = s.load + phase.untilTake :=
  weigh_update ..

theorem load_notifyNotEmpty (s : ThreadPool ω π τ) (w : Option ω) :
    (s.notifyNotEmpty w).load = s.load := by
  cases w with
  | none => rfl
  | some w =>
    have hset := s.load_setWorker w (s.worker w).wake
    rw [WorkerPhase.untilTake_wake] at hset
    exact Nat.add_right_cancel hset

variable [DecidableEq π]

/-- With a task in the queue, a worker takes it or comes closer to `take`. -/
theorem worker_step {s s' : ThreadPool ω π τ} (hrunning : s.running_ = true)
    (hne : s.queue_ ≠ []) {a : Label ω π τ} (hof : a.OfWorker) (ha : s.Enabled a)
    (hs : s.step a = .ok s') :
    (s.taken a).length = 1 ∨ s.taken a = [] ∧ s'.load < s.load := by
  cases a with
  | test w =>
    have hready : s.worker w = .ready := ha
    have hload := s.load_setWorker w .taking
    rw [hready] at hload
    simp only [WorkerPhase.untilTake] at hload
    simp only [step, hrunning, if_pos, pure_eq_ok, Except.ok.injEq] at hs
    subst hs
    exact .inr ⟨rfl, by omega⟩
  | take w p =>
    left
    have hpos := List.length_pos_iff.mpr hne
    simp only [taken, List.length_take]
    omega
  | executed w =>
    obtain ⟨f, hexecuting⟩ := ha
    have hload := s.load_setWorker w .ready
    rw [hexecuting] at hload
    simp only [WorkerPhase.untilTake] at hload
    cases hs
    exact .inr ⟨rfl, by omega⟩
  | _ => exact hof.elim

/-- The other threads take nothing, and keep no worker from it. -/
theorem other_step {s s' : ThreadPool ω π τ} {a : Label ω π τ} (hof : ¬ a.OfWorker)
    (ha : s.Enabled a) (hs : s.step a = .ok s') : s.taken a = [] ∧ s'.load = s.load := by
  cases a with
  | test | take | executed => exact absurd trivial hof
  | call p f =>
    cases hs
    exact ⟨rfl, rfl⟩
  | run p w =>
    obtain ⟨f, -, hrun⟩ := step_run ha hs
    rcases run_ok hrun with ⟨-, rfl⟩ | ⟨-, rfl⟩
    · exact ⟨rfl, rfl⟩
    · exact ⟨rfl, load_notifyNotEmpty _ w⟩
  | spurious i =>
    cases i with
    | inl w =>
      cases hs
      exact ⟨rfl, load_notifyNotEmpty s (some w)⟩
    | inr p =>
      cases hs
      exact ⟨rfl, rfl⟩
  | stop =>
    cases hs
    exact ⟨rfl, load_congr fun w => WorkerPhase.untilTake_wake _⟩

/-- An infinite interleaving in which, as long as a worker is awake, some worker
takes another step. -/
structure FairExecution (s : ℕ → ThreadPool ω π τ) (a : ℕ → Label ω π τ) : Prop where
  enabled : ∀ n, (s n).Enabled (a n)
  next : ∀ n, (s n).step (a n) = .ok (s (n + 1))
  fair : ∀ n, (∃ w, ((s n).worker w).Awake) → ∃ m, n ≤ m ∧ (a m).OfWorker

/-- **Every task is taken.** In a fair execution of a pool, the tasks that are in
the queue at some moment are taken later, in their order and before any other,
or the pool is stopped. -/
theorem tasks_taken [Nonempty ω] {m : ℕ} {s : ℕ → ThreadPool ω π τ} {a : ℕ → Label ω π τ}
    (h : FairExecution s a) (h0 : s 0 = new m) (n : ℕ) :
    ∃ k, (s (n + k)).running_ = false ∨
      (s n).queue_ <+: yields step taken (s n) ((List.range k).map fun j => a (n + j)) := by
  let labels (k : ℕ) : List (Label ω π τ) := (List.range k).map fun j => a (n + j)
  let count (k : ℕ) : ℕ := (yields step taken (s n) (labels k)).length
  have hrun : ∀ k, Run step (s n) (labels k) (s (n + k)) :=
    fun k => Run.of_execution (s := fun j => s (n + j)) (fun j => h.next (n + j)) k
  have henabled : ∀ k, Along step Enabled (s n) (labels k) := fun k =>
    Steps.of_execution (s := fun j => s (n + j)) (fun j => h.next (n + j))
      (fun j => h.enabled (n + j)) k
  have hall : ∀ k, yields step taken (s n) (labels k) ++ (s (n + k)).queue_ =
      (s n).queue_ ++ yields step enqueued (s n) (labels k) := fun k =>
    (hrun k).conserved (I := fun _ => True) (henabled k) trivial (fun _ _ _ _ _ _ => trivial)
      fun _ _ _ _ => step_conserved
  have hcount : ∀ k, count (k + 1) = count k + ((s (n + k)).taken (a (n + k))).length := by
    intro k
    simp only [count, labels]
    rw [List.range_succ, List.map_append, (hrun k).yields_append, List.length_append,
      List.map_singleton, yields_cons (h.next (n + k)), yields_nil, List.append_nil]
  have hinv : ∀ k, Inv m (s (n + k)) := fun k =>
    Inv.run_of_new (h0 ▸ Run.of_execution h.next (n + k))
      (h0 ▸ Steps.of_execution h.next h.enabled (n + k))
  -- until the tasks are taken there is one in the queue
  have hqueue : ∀ k, ¬ (s n).queue_.length ≤ count k → (s (n + k)).queue_ ≠ [] := by
    intro k hless hempty
    have hlen := congrArg List.length (hall k)
    rw [hempty, List.append_nil, List.length_append] at hlen
    exact hless (by simp only [count]; omega)
  obtain ⟨k, hk⟩ : ∃ k, (s (n + k)).running_ = false ∨ (s n).queue_.length ≤ count k := by
    apply eventually_of_fair (s := fun k => k)
      (fun k => toLex ((s n).queue_.length - count k, (s (n + k)).load))
      (fun k => (s (n + k)).running_ = false ∨ (s n).queue_.length ≤ count k)
      fun k => (a (n + k)).OfWorker
    · intro k hgoal
      obtain ⟨hrunning, hless⟩ := not_or.mp hgoal
      have hawake := (hinv k).served (by simpa using hrunning) (hqueue k hless)
      obtain ⟨j, hj, hof⟩ := h.fair (n + k) hawake
      refine ⟨j - n, by omega, ?_⟩
      rwa [Nat.add_sub_cancel' (by omega)]
    · intro k hgoal hof
      obtain ⟨hrunning, hless⟩ := not_or.mp hgoal
      have hstep := worker_step (by simpa using hrunning) (hqueue k hless) hof
        (h.enabled (n + k)) (h.next (n + k))
      rw [hcount]
      rcases hstep with hone | ⟨hnone, hload⟩
      · exact Prod.Lex.toLex_lt_toLex.mpr (.inl (by omega))
      · rw [hnone]
        exact Prod.Lex.toLex_lt_toLex.mpr (.inr ⟨rfl, hload⟩)
    · intro k _ hof
      obtain ⟨hnone, hload⟩ := other_step hof (h.enabled (n + k)) (h.next (n + k))
      rw [hcount, hnone]
      exact Prod.Lex.toLex_le_toLex.mpr (.inr ⟨rfl, hload.le⟩)
  refine ⟨k, hk.imp_right fun hlen => ?_⟩
  apply List.prefix_of_prefix_length_le _ (List.prefix_append _ (s (n + k)).queue_) hlen
  rw [hall]
  exact List.prefix_append ..

/-- One task, behind which the pool is stopped and its worker exits. -/
def oneTask : List (Label Unit Unit ℕ) :=
  [.call () 7, .run () none, .test (), .take () none, .executed (), .stop, .test ()]

theorem oneTask_enabled : Along step Enabled (new 1) oneTask := by
  have hworker : Signals (fun _ : Unit => (WorkerPhase.ready : WorkerPhase ℕ).Asleep) none := by
    intro _ h
    cases h
  refine (steps_cons_ok rfl).mpr ⟨rfl, ?_⟩
  refine (steps_cons_ok rfl).mpr ⟨⟨trivial, hworker⟩, ?_⟩
  refine (steps_cons_ok rfl).mpr ⟨rfl, ?_⟩
  refine (steps_cons_ok rfl).mpr ⟨⟨.inl rfl, ?_⟩, ?_⟩
  · rintro ⟨⟩ ⟨f, hf⟩
    cases hf
  refine (steps_cons_ok rfl).mpr ⟨⟨7, rfl⟩, ?_⟩
  refine (steps_cons_ok rfl).mpr ⟨trivial, ?_⟩
  exact (steps_cons_ok rfl).mpr ⟨rfl, trivial⟩

omit [Fintype ω] in
/-- When all is over, nothing changes any more. -/
theorem stop_again {s : ThreadPool ω π τ} (hrunning : s.running_ = false)
    (hw : ∀ w, s.worker w = .finished) : s.step .stop = .ok s := by
  have hworker : (fun w => (s.worker w).wake) = s.worker := by
    funext w
    rw [hw w]
    rfl
  simp only [step, hworker, ← hrunning, pure_eq_ok]

theorem tasks_taken_oneTask :
    ∃ s : ℕ → ThreadPool Unit Unit ℕ, s 0 = new 1 ∧ ∃ k, (s (2 + k)).running_ = false ∨
      (s 2).queue_ <+: yields step taken (s 2)
        ((List.range k).map fun j => oneTask.getD (2 + j) .stop) := by
  obtain ⟨t, hrun, hstopped, hexited⟩ : ∃ t, Run step (new 1) oneTask t ∧
      t.running_ = false ∧ ∀ w, t.worker w = .finished :=
    ⟨_, run_iff_foldlM.mpr rfl, rfl, fun _ => rfl⟩
  obtain ⟨s, h0, henabled, hnext, hend⟩ :=
    hrun.execution (E := Enabled) (b := .stop) oneTask_enabled trivial
      (stop_again hstopped hexited)
  have hfair : FairExecution s fun n => oneTask.getD n .stop := by
    refine ⟨henabled, hnext, fun n hn => ?_⟩
    have hlt : n < 7 := by
      by_contra hge
      obtain ⟨w, hawake⟩ := hn
      rw [hend n (Nat.le_of_not_lt hge), hexited w] at hawake
      exact hawake
    exact ⟨6, by omega, trivial⟩
  exact ⟨s, h0, tasks_taken hfair h0 2⟩

end ThreadPool

end Muduo
