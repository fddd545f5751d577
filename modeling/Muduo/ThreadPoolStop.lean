import Muduo.Lib.Tally
import Muduo.ThreadPool

/-!
`ThreadPool::stop` with its joins. It wakes the workers that wait on `notEmpty_`;
a producer that waits on `notFull_` is left to the workers, each of which takes
at most one more task before it tests `running_`.

* `Relieved`: there are tasks and workers enough for the producers that wait;
* `stop_strands_iff`: as long as they are, `stop` leaves nobody behind, and once
  they are not, it may.

With no threads `run` calls its task and comes to no queue.
-/

namespace Muduo

open Lib

section Phases

variable {τ : Type}

/-- One for a worker that is still to look at the queue. -/
def WorkerPhase.takes : WorkerPhase τ → ℕ
  | .taking | .asleep | .woken => 1
  | .ready | .executing _ | .finished => 0

/-- One for a producer in `notFull_.wait()`. -/
def ProducerPhase.sleeps : ProducerPhase τ → ℕ
  | .asleep _ => 1
  | .outside | .calling _ | .woken _ => 0

/-- The steps of a worker up to its exit, when `running_` is false. -/
def WorkerPhase.rank : WorkerPhase τ → ℕ
  | .finished => 0
  | .ready => 1
  | .executing _ => 2
  | .taking | .asleep | .woken => 3

theorem WorkerPhase.takes_wake (phase : WorkerPhase τ) : phase.wake.takes = phase.takes := by
  cases phase <;> rfl

theorem ProducerPhase.sleeps_pos {phase : ProducerPhase τ} : 0 < phase.sleeps ↔ phase.Asleep := by
  cases phase <;> simp [sleeps, Asleep]

theorem exists_signals {ι : Type} (Asleep : ι → Prop) : ∃ i, Signals Asleep i := by
  by_cases h : ∃ i, Asleep i
  · obtain ⟨i, hi⟩ := h
    exact ⟨some i, hi⟩
  · exact ⟨none, not_exists.mp h⟩

end Phases

namespace ThreadPool

variable {ω π τ : Type}

def takers [Fintype ω] (s : ThreadPool ω π τ) : ℕ := weigh WorkerPhase.takes s.worker

def sleepers [Fintype π] (s : ThreadPool ω π τ) : ℕ := weigh ProducerPhase.sleeps s.producer

/-- The producers that wait, and `more` of them, find each a task in the queue
and a worker that will take one. -/
def Relieved [Fintype ω] [Fintype π] (s : ThreadPool ω π τ) (more : ℕ) : Prop :=
  s.sleepers + more ≤ s.takers ∧ s.sleepers + more ≤ s.queue_.length

/-! ## What a step does to the numbers -/

section Workers

variable [Fintype ω] [DecidableEq ω]

theorem takers_setWorker (s : ThreadPool ω π τ) (w : ω) (phase : WorkerPhase τ) :
    (s.setWorker w phase).takers + (s.worker w).takes = s.takers + phase.takes :=
  weigh_update ..

theorem takers_notifyNotEmpty (s : ThreadPool ω π τ) (w : Option ω) :
    (s.notifyNotEmpty w).takers = s.takers := by
  cases w with
  | none => rfl
  | some w =>
    have hset := s.takers_setWorker w (s.worker w).wake
    rw [WorkerPhase.takes_wake] at hset
    exact Nat.add_right_cancel hset

end Workers

section Producers

variable [Fintype π] [DecidableEq π]

theorem sleepers_setProducer (s : ThreadPool ω π τ) (p : π) (phase : ProducerPhase τ) :
    (s.setProducer p phase).sleepers + (s.producer p).sleeps = s.sleepers + phase.sleeps :=
  weigh_update ..

omit [DecidableEq π] in
theorem sleepers_eq_zero {s : ThreadPool ω π τ} : s.sleepers = 0 ↔ ∀ p, ¬ (s.producer p).Asleep := by
  unfold sleepers
  rw [weigh_eq_zero]
  refine forall_congr' fun p => ?_
  rw [← ProducerPhase.sleeps_pos, Nat.not_lt, Nat.le_zero]

/-- A notification leaves one sleeper less, if there is one. -/
theorem sleepers_notifyNotFull {s : ThreadPool ω π τ} {p : Option π}
    (hp : Signals (fun p => (s.producer p).Asleep) p) :
    (s.notifyNotFull p).sleepers = s.sleepers - 1 := by
  cases p with
  | none =>
    have hzero : s.sleepers = 0 := sleepers_eq_zero.mpr hp
    rw [hzero]
    exact hzero
  | some p =>
    obtain ⟨f, hf⟩ : (s.producer p).Asleep := hp
    have hset := s.sleepers_setProducer p (s.producer p).wake
    simp only [hf, ProducerPhase.wake, ProducerPhase.sleeps] at hset
    simp only [notifyNotFull, hf, ProducerPhase.wake]
    omega

end Producers

variable [Fintype π]

/-- What a step other than `stop` leaves alone. -/
structure Keeps (s s' : ThreadPool ω π τ) : Prop where
  maxQueueSize_ : s'.maxQueueSize_ = s.maxQueueSize_
  running_ : s'.running_ = s.running_
  finished : ∀ w, s.worker w = .finished → s'.worker w = .finished
  awake : s.running_ = false → ∀ w, s'.worker w = .asleep → s.worker w = .asleep
  sleepers : s'.sleepers ≤ s.sleepers ∨ s.IsFull

variable [DecidableEq ω] [DecidableEq π]

omit [DecidableEq π] in
/-- A worker goes on where it has not exited, and does not go to sleep. -/
theorem Keeps.setWorker {s : ThreadPool ω π τ} {w : ω} (hw : s.worker w ≠ .finished)
    {phase : WorkerPhase τ} (hphase : phase ≠ .asleep) : Keeps s (s.setWorker w phase) where
  maxQueueSize_ := rfl
  running_ := rfl
  finished := by
    intro w' hw'
    have hne : w' ≠ w := by
      rintro rfl
      exact hw hw'
    simpa [ThreadPool.setWorker, hne] using hw'
  awake := by
    intro _ w' hw'
    by_cases hne : w' = w
    · subst hne
      exact absurd (by simpa using hw') hphase
    · simpa [ThreadPool.setWorker, hne] using hw'
  sleepers := .inl (Nat.le_refl _)

theorem take_keeps {s : ThreadPool ω π τ} {w : ω}
    (hw : s.worker w = .taking ∨ s.worker w = .woken) {p : Option π}
    (hp : Signals (fun p => (s.producer p).Asleep) p) : Keeps s (s.take w p) := by
  have hne : s.worker w ≠ .finished := by rcases hw with hw | hw <;> simp [hw]
  unfold take
  split
  · rename_i hwait
    refine ⟨rfl, rfl, ?_, fun hrunning => by simp [hrunning] at hwait, .inl (Nat.le_refl _)⟩
    intro w' hw'
    have hother : w' ≠ w := by
      rintro rfl
      exact hne hw'
    simpa [ThreadPool.setWorker, hother] using hw'
  split
  · exact .setWorker hne (by simp)
  · rename_i task queue hq
    let s₁ : ThreadPool ω π τ := { s with queue_ := queue }.setWorker w (.executing task)
    have hset : Keeps { s with queue_ := queue } s₁ :=
      Keeps.setWorker (s := { s with queue_ := queue }) hne (by simp)
    have hkeeps : Keeps s s₁ := ⟨rfl, rfl, hset.finished, hset.awake, .inl (Nat.le_refl _)⟩
    dsimp only
    split
    · have hless : (s₁.notifyNotFull p).sleepers = s.sleepers - 1 := sleepers_notifyNotFull (s := s₁) hp
      have hle : (s₁.notifyNotFull p).sleepers ≤ s.sleepers := by omega
      cases p <;> exact ⟨rfl, rfl, hkeeps.finished, hkeeps.awake, .inl hle⟩
    · exact hkeeps

omit [DecidableEq ω] in
theorem Keeps.setProducer {s : ThreadPool ω π τ} {p : π} {phase : ProducerPhase τ}
    (hsleeps : phase.sleeps = 0) : Keeps s (s.setProducer p phase) := by
  have hset := s.sleepers_setProducer p phase
  exact ⟨rfl, rfl, fun _ => id, fun _ _ => id, .inl (by omega)⟩

theorem run_keeps {s s' : ThreadPool ω π τ} {p : π} {f : τ} {w : Option ω}
    (hw : Signals (fun w => (s.worker w).Asleep) w) (hs : s.run p f w = .ok s') : Keeps s s' := by
  rcases run_ok hs with ⟨hfull, rfl⟩ | ⟨-, rfl⟩
  · exact ⟨rfl, rfl, fun _ => id, fun _ _ => id, .inr hfull⟩
  · let s₁ : ThreadPool ω π τ := { s with queue_ := s.queue_ ++ [f] }.setProducer p .outside
    have hset : Keeps ({ s with queue_ := s.queue_ ++ [f] } : ThreadPool ω π τ) s₁ := .setProducer rfl
    have hle : s₁.sleepers ≤ s.sleepers := by
      have h := ({ s with queue_ := s.queue_ ++ [f] } : ThreadPool ω π τ).sleepers_setProducer p .outside
      exact Nat.le_of_add_right_le (Nat.le_of_eq h)
    cases w with
    | none => exact ⟨rfl, rfl, hset.finished, hset.awake, .inl hle⟩
    | some w =>
      have hasleep : s.worker w = .asleep := hw
      have hne : s₁.worker w ≠ .finished := by simp [s₁, ThreadPool.setProducer, hasleep]
      have hnotify : Keeps s₁ (s₁.setWorker w (s.worker w).wake) :=
        Keeps.setWorker hne (by simp [hasleep, WorkerPhase.wake])
      exact ⟨rfl, rfl, hnotify.finished, hnotify.awake, .inl hle⟩

theorem step_keeps {s s' : ThreadPool ω π τ} {a : Label ω π τ} (hstop : a ≠ .stop)
    (ha : s.Enabled a) (hs : s.step a = .ok s') : Keeps s s' := by
  cases a with
  | test w =>
    have hw : s.worker w = .ready := ha
    cases hs
    exact .setWorker (by simp [hw]) (by split <;> simp)
  | take w p =>
    cases hs
    exact take_keeps ha.1 ha.2
  | executed w =>
    obtain ⟨f, hw⟩ := ha
    cases hs
    exact .setWorker (by simp [hw]) (by simp)
  | call p f =>
    cases hs
    exact .setProducer rfl
  | run p w =>
    obtain ⟨f, -, hrun⟩ := step_run ha hs
    exact run_keeps ha.2 hrun
  | spurious i =>
    cases i with
    | inl w =>
      have hw : s.worker w = .asleep := ha
      cases hs
      exact .setWorker (by simp [hw]) (by simp [hw, WorkerPhase.wake])
    | inr p =>
      obtain ⟨f, hf⟩ : (s.producer p).Asleep := ha
      cases hs
      exact .setProducer (by simp [hf, ProducerPhase.wake, ProducerPhase.sleeps])
  | stop => exact absurd rfl hstop

variable [Fintype ω]

/-- A producer finds the queue full and comes to wait. -/
structure Waits (s s' : ThreadPool ω π τ) : Prop where
  full : s.IsFull
  takers : s'.takers = s.takers
  sleepers : s'.sleepers = s.sleepers + 1
  queue : s'.queue_ = s.queue_

/-- A worker looks at the queue. -/
structure Takes (s s' : ThreadPool ω π τ) : Prop where
  takers : s'.takers + 1 = s.takers
  queue : s'.queue_.length = s.queue_.length - 1
  sleepers : s'.sleepers = if s.queue_ = [] then s.sleepers else s.sleepers - 1

/-- Another step when `running_` is false. -/
structure Eases (s s' : ThreadPool ω π τ) : Prop where
  takers : s'.takers = s.takers
  sleepers : s'.sleepers ≤ s.sleepers
  queue : s.queue_.length ≤ s'.queue_.length

theorem take_takes {s : ThreadPool ω π τ} (hrunning : s.running_ = false) {w : ω}
    (hw : s.worker w = .taking ∨ s.worker w = .woken) {p : Option π}
    (hp : Signals (fun p => (s.producer p).Asleep) p) (hm : 0 < s.sleepers → 0 < s.maxQueueSize_) :
    Takes s (s.take w p) := by
  have htakes : (s.worker w).takes = 1 := by rcases hw with hw | hw <;> rw [hw] <;> rfl
  unfold take
  rw [if_neg (by simp [hrunning])]
  split
  · rename_i hq
    have hset := s.takers_setWorker w .ready
    rw [htakes] at hset
    exact ⟨hset, by simp [hq], by rw [if_pos hq]; rfl⟩
  · rename_i task queue hq
    have hset : ({ s with queue_ := queue }.setWorker w (.executing task)).takers + 1 = s.takers := by
      have h := ({ s with queue_ := queue } : ThreadPool ω π τ).takers_setWorker w (.executing task)
      rw [show (({ s with queue_ := queue } : ThreadPool ω π τ).worker w).takes = 1 from htakes] at h
      exact h
    have hne : s.queue_ ≠ [] := by simp [hq]
    dsimp only
    split
    · refine ⟨?_, by simp [hq], ?_⟩
      · cases p <;> exact hset
      · rw [if_neg hne]
        exact sleepers_notifyNotFull (s := { s with queue_ := queue }.setWorker w (.executing task)) hp
    · rename_i hzero
      refine ⟨hset, by simp [hq], ?_⟩
      have hnone : s.sleepers = 0 := by
        by_contra hpos
        exact hzero (hm (Nat.pos_of_ne_zero hpos))
      rw [if_neg hne, hnone]
      exact hnone

theorem run_waits {s s' : ThreadPool ω π τ} {p : π} {f : τ}
    (hp : s.producer p = .calling f ∨ s.producer p = .woken f) {w : Option ω}
    (hfull : s.IsFull) (hs : s.run p f w = .ok s') : Waits s s' := by
  have hsleeps : (s.producer p).sleeps = 0 := by rcases hp with hp | hp <;> rw [hp] <;> rfl
  have hset := s.sleepers_setProducer p (.asleep f)
  rw [hsleeps] at hset
  rw [ThreadPool.run, if_pos hfull] at hs
  cases hs
  exact ⟨hfull, rfl, hset, rfl⟩

/-- A producer that does not find the queue full puts its task there. -/
theorem run_eases {s s' : ThreadPool ω π τ} {p : π} {f : τ} {w : Option ω} (hfull : ¬ s.IsFull)
    (hs : s.run p f w = .ok s') : Eases s s' := by
  obtain ⟨h, -⟩ | ⟨-, rfl⟩ := run_ok hs
  · exact absurd h hfull
  · let s₁ : ThreadPool ω π τ := { s with queue_ := s.queue_ ++ [f] }.setProducer p .outside
    have hset : s₁.sleepers + (s.producer p).sleeps = s.sleepers + 0 :=
      ({ s with queue_ := s.queue_ ++ [f] } : ThreadPool ω π τ).sleepers_setProducer p .outside
    have hsame : (s₁.notifyNotEmpty w).sleepers = s₁.sleepers := by cases w <;> rfl
    have hle : (s₁.notifyNotEmpty w).sleepers ≤ s.sleepers := by omega
    exact ⟨takers_notifyNotEmpty s₁ w, hle, by simp⟩

omit [DecidableEq π] in
/-- Another phase of a worker that takes as many tasks from there. -/
theorem Eases.setWorker {s : ThreadPool ω π τ} {w : ω} {phase : WorkerPhase τ}
    (htakes : phase.takes = (s.worker w).takes) : Eases s (s.setWorker w phase) := by
  have hset := s.takers_setWorker w phase
  rw [htakes] at hset
  exact ⟨Nat.add_right_cancel hset, Nat.le_refl _, Nat.le_refl _⟩

omit [DecidableEq ω] in
/-- Another phase of a producer that does not sleep there. -/
theorem Eases.setProducer {s : ThreadPool ω π τ} {p : π} {phase : ProducerPhase τ}
    (hsleeps : phase.sleeps = 0) : Eases s (s.setProducer p phase) := by
  have hset := s.sleepers_setProducer p phase
  exact ⟨rfl, by omega, Nat.le_refl _⟩

theorem step_numbers {s s' : ThreadPool ω π τ} (hrunning : s.running_ = false)
    (hm : 0 < s.sleepers → 0 < s.maxQueueSize_) {a : Label ω π τ} (hstop : a ≠ .stop)
    (ha : s.Enabled a) (hs : s.step a = .ok s') :
    Takes s s' ∨ Eases s s' ∨ (∃ p w, a = .run p w) ∧ Waits s s' := by
  cases a with
  | test w =>
    have hw : s.worker w = .ready := ha
    cases hs
    exact .inr (.inl (.setWorker (by simp [hrunning, hw, WorkerPhase.takes])))
  | take w p =>
    cases hs
    exact .inl (take_takes hrunning ha.1 ha.2 hm)
  | executed w =>
    obtain ⟨f, hw⟩ := ha
    cases hs
    exact .inr (.inl (.setWorker (by simp [hw, WorkerPhase.takes])))
  | call p f =>
    cases hs
    exact .inr (.inl (.setProducer rfl))
  | run p w =>
    obtain ⟨f, hp, hrun⟩ := step_run ha hs
    by_cases hfull : s.IsFull
    · exact .inr (.inr ⟨⟨p, w, rfl⟩, run_waits hp hfull hrun⟩)
    · exact .inr (.inl (run_eases hfull hrun))
  | spurious i =>
    cases i with
    | inl w =>
      cases hs
      exact .inr (.inl (.setWorker (WorkerPhase.takes_wake _)))
    | inr p =>
      obtain ⟨f, hf⟩ : (s.producer p).Asleep := ha
      cases hs
      exact .inr (.inl (.setProducer (by simp [hf, ProducerPhase.wake, ProducerPhase.sleeps])))
  | stop => exact absurd rfl hstop

omit [DecidableEq ω] [DecidableEq π] in
/-- Where there is a task to take, a producer is notified for it. -/
theorem Takes.relieved_iff {s s' : ThreadPool ω π τ} (h : Takes s s') :
    s'.Relieved 0 ↔ s.Relieved 0 := by
  obtain ⟨htakers, hqueue, hsleepers⟩ := h
  unfold Relieved
  by_cases hnil : s.queue_ = []
  · have hzero : s.queue_.length = 0 := by rw [hnil, List.length_nil]
    rw [if_pos hnil] at hsleepers
    omega
  · have hpos : 0 < s.queue_.length := List.length_pos_of_ne_nil hnil
    rw [if_neg hnil] at hsleepers
    omega

omit [DecidableEq ω] [DecidableEq π] in
theorem Eases.relieved {s s' : ThreadPool ω π τ} (h : Eases s s') (hr : s.Relieved 0) :
    s'.Relieved 0 := by
  obtain ⟨htakers, hsleepers, hqueue⟩ := h
  unfold Relieved at hr ⊢
  omega

omit [DecidableEq ω] [DecidableEq π] in
theorem Waits.relieved_iff {s s' : ThreadPool ω π τ} (h : Waits s s') :
    s'.Relieved 0 ↔ s.Relieved 1 := by
  unfold Relieved
  rw [h.takers, h.sleepers, h.queue]

/-- `stop` wakes the workers on `notEmpty_`, and the numbers stay. -/
theorem stop_relieved {s s' : ThreadPool ω π τ} (hs : s.step .stop = .ok s') :
    s'.Relieved 0 ↔ s.Relieved 0 := by
  cases hs
  have htakers : weigh WorkerPhase.takes (fun w => (s.worker w).wake) = s.takers :=
    weigh_congr fun w => WorkerPhase.takes_wake _
  unfold Relieved takers
  rw [htakers]
  rfl

/-! ## Where nobody is left -/

/-- How far the workers are from their exits. -/
def rest (s : ThreadPool ω π τ) : ℕ := weigh WorkerPhase.rank s.worker

omit [Fintype π] [DecidableEq π] in
theorem rest_setWorker (s : ThreadPool ω π τ) (w : ω) (phase : WorkerPhase τ) :
    (s.setWorker w phase).rest + (s.worker w).rank = s.rest + phase.rank :=
  weigh_update ..

omit [DecidableEq ω] [DecidableEq π] in
/-- Workers that have exited take nothing. -/
theorem relieved_of_finished {s : ThreadPool ω π τ} (hw : ∀ w, s.worker w = .finished) :
    s.Relieved 0 ↔ s.sleepers = 0 := by
  have htakers : s.takers = 0 := weigh_eq_zero.mpr fun w => by rw [hw w]; rfl
  unfold Relieved
  omega

omit [Fintype π] in
/-- `take` is on the way to the exit, when `running_` is false. -/
theorem rest_take {s : ThreadPool ω π τ} (hrunning : s.running_ = false) {w : ω}
    (hw : s.worker w = .taking ∨ s.worker w = .woken) (p : Option π) :
    (s.take w p).rest < s.rest := by
  have hrank : (s.worker w).rank = 3 := by rcases hw with hw | hw <;> rw [hw] <;> rfl
  unfold take
  rw [if_neg (by simp [hrunning])]
  split
  · have hset := s.rest_setWorker w .ready
    rw [hrank, show WorkerPhase.rank (.ready : WorkerPhase τ) = 1 from rfl] at hset
    omega
  · rename_i task queue _
    have hset : ({ s with queue_ := queue }.setWorker w (.executing task)).rest + 3 = s.rest + 2 := by
      have h := ({ s with queue_ := queue } : ThreadPool ω π τ).rest_setWorker w (.executing task)
      rw [show (({ s with queue_ := queue } : ThreadPool ω π τ).worker w).rank = 3 from hrank] at h
      exact h
    have hless : ({ s with queue_ := queue }.setWorker w (.executing task)).rest < s.rest := by omega
    dsimp only
    split
    · cases p <;> exact hless
    · exact hless

/-- A worker that is awake has a step to its exit, and it does not help where
there is not enough: what it takes from the queue it takes from the workers too. -/
theorem exists_advance {s : ThreadPool ω π τ} (hrunning : s.running_ = false) {w : ω}
    (hfinished : s.worker w ≠ .finished) (hasleep : s.worker w ≠ .asleep)
    (hm : 0 < s.sleepers → 0 < s.maxQueueSize_) :
    ∃ a s', a ≠ .stop ∧ s.Enabled a ∧ s.step a = .ok s' ∧ s'.rest < s.rest ∧
      (s'.Relieved 0 → s.Relieved 0) := by
  have htake (hw : s.worker w = .taking ∨ s.worker w = .woken) :
      ∃ a s', a ≠ .stop ∧ s.Enabled a ∧ s.step a = .ok s' ∧ s'.rest < s.rest ∧
        (s'.Relieved 0 → s.Relieved 0) := by
    obtain ⟨p, hp⟩ := exists_signals fun p => (s.producer p).Asleep
    refine ⟨.take w p, s.take w p, by simp, ⟨hw, hp⟩, rfl, rest_take hrunning hw p, ?_⟩
    exact (take_takes hrunning hw hp hm).relieved_iff.mp
  cases hw : s.worker w with
  | finished => exact absurd hw hfinished
  | asleep => exact absurd hw hasleep
  | ready =>
    have hrest := s.rest_setWorker w .finished
    have htakers := s.takers_setWorker w .finished
    simp only [hw, WorkerPhase.rank, WorkerPhase.takes] at hrest htakers
    refine ⟨.test w, s.setWorker w .finished, by simp, hw, ?_, by omega, ?_⟩
    · simp [step, hrunning]
    · rintro ⟨ht, hq⟩
      exact ⟨ht.trans (Nat.le_of_eq htakers), hq⟩
  | executing f =>
    have hrest := s.rest_setWorker w .ready
    have htakers := s.takers_setWorker w .ready
    simp only [hw, WorkerPhase.rank, WorkerPhase.takes] at hrest htakers
    refine ⟨.executed w, s.setWorker w .ready, by simp, ⟨f, hw⟩, rfl, by omega, ?_⟩
    rintro ⟨ht, hq⟩
    exact ⟨ht.trans (Nat.le_of_eq htakers), hq⟩
  | taking => exact htake (.inl hw)
  | woken => exact htake (.inr hw)

end ThreadPool

/-- `threads_` has `n` workers. -/
structure StoppingPool (n : ℕ) (π τ : Type) where
  pool : ThreadPool (Fin n) π τ
  /-- how many of `threads_` have been joined, once `stop` has notified them -/
  joined : Option ℕ

namespace StoppingPool

variable {n : ℕ} {π τ : Type}

def new (maxQueueSize : ℕ) : StoppingPool n π τ := ⟨.new maxQueueSize, none⟩

inductive Label (n : ℕ) (π τ : Type) where
  | pool (a : ThreadPool.Label (Fin n) π τ)
  /-- `thr->join()` returns -/
  | join

/-- `stop` is called once, and joins the threads in their order. -/
def Enabled (s : StoppingPool n π τ) : Label n π τ → Prop
  | .pool .stop => s.joined = none
  | .pool (.call p f) => 0 < n ∧ s.pool.Enabled (.call p f)
  | .pool a => s.pool.Enabled a
  | .join => ∃ w : Fin n, s.joined = some w.val ∧ s.pool.worker w = .finished

variable [DecidableEq π]

def step (s : StoppingPool n π τ) : Label n π τ → Checked (StoppingPool n π τ)
  | .pool .stop => do
    let pool ← s.pool.step .stop
    return ⟨pool, some 0⟩
  | .pool a => do
    let pool ← s.pool.step a
    return { s with pool }
  | .join => return { s with joined := s.joined.map (· + 1) }

/-- `stop` has completed, a producer still waits on `notFull_`, and no thread is
left that could notify it. -/
structure Blocked (s : StoppingPool n π τ) : Prop where
  completed : s.joined = some n
  waiting : ∃ p, (s.pool.producer p).Asleep
  nobody : s.pool.running_ = false ∧ ∀ w, s.pool.worker w = .finished

variable [Fintype π]

/-- `stop` finds enough for the producers that wait, and so does a producer that
finds the queue full behind it, for itself and for them. -/
def Relieves (s : StoppingPool n π τ) : Label n π τ → Prop
  | .pool .stop => s.pool.Relieved 0
  | .pool (.run _ _) => s.pool.running_ = false → s.pool.IsFull → s.pool.Relieved 1
  | _ => True

structure Inv (s : StoppingPool n π τ) : Prop where
  room : 0 < s.pool.sleepers → 0 < s.pool.maxQueueSize_
  stopped : s.pool.running_ = s.joined.isNone
  joins : ∀ i, s.joined = some i → i ≤ n ∧ ∀ w : Fin n, w.val < i → s.pool.worker w = .finished
  awake : s.pool.running_ = false → ∀ w, s.pool.worker w ≠ .asleep

omit [DecidableEq π] in
theorem Inv.new (m : ℕ) : Inv (new m : StoppingPool n π τ) where
  room := by
    intro h
    have hzero : (ThreadPool.new m : ThreadPool (Fin n) π τ).sleepers = 0 := weigh_eq_zero.mpr fun _ => rfl
    exact absurd h (hzero ▸ Nat.lt_irrefl 0)
  stopped := rfl
  joins := nofun
  awake := nofun

omit [Fintype π] in
/-- A step of the pool is `stop`, or leaves `joined` alone. -/
theorem step_pool {s s' : StoppingPool n π τ} {a : ThreadPool.Label (Fin n) π τ}
    (ha : s.Enabled (.pool a)) (hs : s.step (.pool a) = .ok s') :
    s.pool.Enabled a ∧ s.pool.step a = .ok s'.pool ∧
      (a = .stop ∧ s.joined = none ∧ s'.joined = some 0 ∨ a ≠ .stop ∧ s'.joined = s.joined) := by
  cases a with
  | stop =>
    obtain ⟨pool, hpool, hs⟩ := bind_eq_ok.mp hs
    cases hs
    exact ⟨trivial, hpool, .inl ⟨rfl, ha, rfl⟩⟩
  | call p f =>
    obtain ⟨pool, hpool, hs⟩ := bind_eq_ok.mp hs
    cases hs
    exact ⟨ha.2, hpool, .inr ⟨nofun, rfl⟩⟩
  | _ =>
    obtain ⟨pool, hpool, hs⟩ := bind_eq_ok.mp hs
    cases hs
    exact ⟨ha, hpool, .inr ⟨nofun, rfl⟩⟩

omit [DecidableEq π] [Fintype π] in
theorem enabled_pool (hn : 0 < n) {s : StoppingPool n π τ} {a : ThreadPool.Label (Fin n) π τ}
    (hstop : a ≠ .stop) (ha : s.pool.Enabled a) : s.Enabled (.pool a) := by
  cases a with
  | stop => exact absurd rfl hstop
  | call p f => exact ⟨hn, ha⟩
  | _ => exact ha

omit [Fintype π] in
theorem step_pool_ok {s : StoppingPool n π τ} {a : ThreadPool.Label (Fin n) π τ} (hstop : a ≠ .stop)
    {pool : ThreadPool (Fin n) π τ} (hpool : s.pool.step a = .ok pool) :
    s.step (.pool a) = .ok { s with pool } := by
  cases a with
  | stop => exact absurd rfl hstop
  | _ => simp only [StoppingPool.step, hpool, ok_bind, pure_eq_ok]

theorem Inv.step {s s' : StoppingPool n π τ} (h : Inv s) {a : Label n π τ} (ha : s.Enabled a)
    (hs : s.step a = .ok s') : Inv s' := by
  cases a with
  | pool a =>
    obtain ⟨ha, hpool, ⟨rfl, -, hjoined⟩ | ⟨hstop, hjoined⟩⟩ := step_pool ha hs
    · obtain ⟨pool, joined⟩ := s'
      cases hpool
      cases hjoined
      constructor
      · exact h.room
      · rfl
      · intro i hi
        cases hi
        exact ⟨Nat.zero_le n, fun w hw => absurd hw (Nat.not_lt_zero _)⟩
      · intro _ w
        cases hw : s.pool.worker w <;> simp [hw, WorkerPhase.wake]
    · have hkeeps := ThreadPool.step_keeps hstop ha hpool
      constructor
      · intro hpos
        rw [hkeeps.maxQueueSize_]
        rcases hkeeps.sleepers with hle | hfull
        · exact h.room (hpos.trans_le hle)
        · exact hfull.1
      · rw [hkeeps.running_, hjoined, h.stopped]
      · intro i hi
        obtain ⟨hle, hfinished⟩ := h.joins i (hjoined ▸ hi)
        exact ⟨hle, fun w hw => hkeeps.finished w (hfinished w hw)⟩
      · intro hrunning w hw
        rw [hkeeps.running_] at hrunning
        exact h.awake hrunning w (hkeeps.awake hrunning w hw)
  | join =>
    obtain ⟨w, hjoined, hw⟩ := ha
    cases hs
    constructor
    · exact h.room
    · simpa [hjoined] using h.stopped
    · intro i hi
      simp only [hjoined, Option.map_some, Option.some.injEq] at hi
      subst hi
      refine ⟨w.isLt, fun w' hlt => ?_⟩
      rcases Nat.lt_succ_iff_lt_or_eq.mp hlt with hlt | heq
      · exact (h.joins w hjoined).2 w' hlt
      · rwa [Fin.ext heq]
    · exact h.awake

theorem Inv.relieved_step {s s' : StoppingPool n π τ} (h : Inv s) {a : Label n π τ}
    (ha : s.Enabled a) (hs : s.step a = .ok s') (hr : s.pool.running_ = false → s.pool.Relieved 0)
    (hrelieves : s.Relieves a) : s'.pool.running_ = false → s'.pool.Relieved 0 := by
  intro hrunning
  cases a with
  | pool a =>
    obtain ⟨ha, hpool, ⟨rfl, -⟩ | ⟨hstop, -⟩⟩ := step_pool ha hs
    · exact (ThreadPool.stop_relieved hpool).mpr hrelieves
    · rw [(ThreadPool.step_keeps hstop ha hpool).running_] at hrunning
      rcases ThreadPool.step_numbers hrunning h.room hstop ha hpool with htakes | heases | ⟨hrun, hwaits⟩
      · exact htakes.relieved_iff.mpr (hr hrunning)
      · exact heases.relieved (hr hrunning)
      · obtain ⟨p, w, rfl⟩ := hrun
        exact hwaits.relieved_iff.mpr (hrelieves hrunning hwaits.full)
  | join =>
    cases hs
    exact hr hrunning

/-- A step that is not covered leads to where there is not enough. -/
theorem not_relieved_step {s s' : StoppingPool n π τ} {a : Label n π τ} (ha : s.Enabled a)
    (hs : s.step a = .ok s') (hrelieves : ¬ s.Relieves a) :
    s'.pool.running_ = false ∧ ¬ s'.pool.Relieved 0 := by
  cases a with
  | pool a =>
    obtain ⟨ha, hpool, -⟩ := step_pool ha hs
    cases a with
    | stop =>
      refine ⟨?_, fun h => hrelieves ((ThreadPool.stop_relieved hpool).mp h)⟩
      obtain ⟨pool, joined⟩ := s'
      cases hpool
      rfl
    | run p w =>
      simp only [Relieves, Classical.not_imp] at hrelieves
      obtain ⟨hrunning, hfull, hrelieved⟩ := hrelieves
      obtain ⟨f, hp, hrun⟩ := ThreadPool.step_run ha hpool
      have hwaits := ThreadPool.run_waits hp hfull hrun
      constructor
      · rw [(ThreadPool.step_keeps (by simp) ha hpool).running_]
        exact hrunning
      · rwa [hwaits.relieved_iff]
    | _ => exact absurd trivial hrelieves
  | join => exact absurd trivial hrelieves

omit [DecidableEq π] in
theorem not_blocked {s : StoppingPool n π τ}
    (hr : s.pool.running_ = false → s.pool.Relieved 0) : ¬ s.Blocked := by
  rintro ⟨hcompleted, ⟨p, hp⟩, hrunning, hfinished⟩
  have hzero : s.pool.sleepers = 0 :=
    (ThreadPool.relieved_of_finished hfinished).mp (hr hrunning)
  exact ThreadPool.sleepers_eq_zero.mp hzero p hp

omit [Fintype π] in
/-- `stop` joins the threads that are left. -/
theorem exists_joins {k : ℕ} {s : StoppingPool n π τ}
    (hfinished : ∀ w, s.pool.worker w = .finished) {i : ℕ} (hjoined : s.joined = some i)
    (hi : i + k = n) :
    ∃ as, Run step s as { s with joined := some n } ∧ Along step Enabled s as := by
  induction k generalizing s i with
  | zero =>
    have hall : s.joined = some n := by rw [hjoined, ← hi, Nat.add_zero]
    refine ⟨[], ?_, trivial⟩
    rw [← hall]
    exact .nil s
  | succ k ih =>
    have hstep : s.step .join = .ok { s with joined := some (i + 1) } := by simp [step, hjoined]
    have hen : s.Enabled .join := ⟨⟨i, by omega⟩, hjoined, hfinished _⟩
    obtain ⟨as, hrun, has⟩ := ih (s := { s with joined := some (i + 1) }) hfinished rfl (by omega)
    exact ⟨.join :: as, .cons hstep hrun, (steps_cons_ok hstep).mpr ⟨hen, has⟩⟩

/-- Where there is not enough, the workers run to their exits and leave a
producer behind. The induction is on what is left to them. -/
theorem Inv.exists_blocked {s : StoppingPool n π τ} (h : Inv s) (hrunning : s.pool.running_ = false)
    (hr : ¬ s.pool.Relieved 0) :
    ∃ as t, Run StoppingPool.step s as t ∧ Along StoppingPool.step Enabled s as ∧ t.Blocked := by
  obtain ⟨i, hi⟩ : ∃ i, s.joined = some i := by
    have hstopped := h.stopped
    rw [hrunning] at hstopped
    cases hj : s.joined with
    | none => simp [hj] at hstopped
    | some i => exact ⟨i, rfl⟩
  induction hk : s.pool.rest using Nat.strong_induction_on generalizing s with
  | _ k ih =>
    by_cases hfinished : ∀ w, s.pool.worker w = .finished
    · obtain ⟨as, hrun, has⟩ := exists_joins hfinished hi (Nat.add_sub_of_le (h.joins i hi).1)
      have hwaiting : ∃ p, (s.pool.producer p).Asleep := by
        rw [ThreadPool.relieved_of_finished hfinished, ThreadPool.sleepers_eq_zero] at hr
        simpa using hr
      exact ⟨as, _, hrun, has, rfl, hwaiting, hrunning, hfinished⟩
    · obtain ⟨w, hw⟩ := not_forall.mp hfinished
      obtain ⟨a, pool, hstop, ha, hpool, hrest, hrelieved⟩ :=
        ThreadPool.exists_advance hrunning hw (h.awake hrunning w) h.room
      have hen : s.Enabled (.pool a) := enabled_pool w.pos hstop ha
      have hstep : s.step (.pool a) = .ok { s with pool } := step_pool_ok hstop hpool
      obtain ⟨as, t, hrun, has, ht⟩ := ih pool.rest (hk ▸ hrest) (s := { s with pool })
        (h.step hen hstep) (by rw [(ThreadPool.step_keeps hstop ha hpool).running_]; exact hrunning)
        (fun h => hr (hrelieved h)) hi rfl
      exact ⟨.pool a :: as, t, .cons hstep hrun, (steps_cons_ok hstep).mpr ⟨hen, has⟩, ht⟩

/-- **Who is left behind.** Along every run whose steps find enough for the
producers that wait, no producer is left behind by `stop`. From every step that
does not, the run can go on to where one is. -/
theorem stop_strands_iff {m : ℕ} {t : StoppingPool n π τ} {steps : List (Label n π τ)}
    (hrun : Run step (new m) steps t) (hen : Along step Enabled (new m) steps) :
    (Along step Relieves (new m) steps → ¬ t.Blocked) ∧
      ∀ a s', t.Enabled a → t.step a = .ok s' → ¬ t.Relieves a →
        ∃ as u, Run step s' as u ∧ Along step Enabled s' as ∧ u.Blocked := by
  constructor
  · intro hrelieves
    let Good (s : StoppingPool n π τ) : Prop :=
      Inv s ∧ (s.pool.running_ = false → s.pool.Relieved 0)
    have hboth : Along step (fun s a => s.Enabled a ∧ s.Relieves a) (new m) steps :=
      Steps.and hen hrelieves
    have hgood : Good t := by
      apply hrun.invariant hboth ⟨Inv.new m, nofun⟩
      intro s a s' hs ha hstep
      exact ⟨hs.1.step ha.1 hstep, hs.1.relieved_step ha.1 hstep hs.2 ha.2⟩
    exact not_blocked hgood.2
  · intro a s' ha hstep hrelieves
    have hinv : Inv t := hrun.invariant hen (Inv.new m) fun _ _ _ h ha hs => h.step ha hs
    obtain ⟨hrunning, hr⟩ := not_relieved_step ha hstep hrelieves
    exact (hinv.step ha hstep).exists_blocked hrunning hr

/-- One worker and room for one task. The worker has come to `take` when one
producer fills the queue and another waits; `stop` finds them so. -/
def takingAtStop : List (Label 1 (Fin 2) ℕ) :=
  [.pool (.test 0), .pool (.call 0 10), .pool (.run 0 none), .pool (.call 1 11),
    .pool (.run 1 none), .pool .stop, .pool (.take 0 (some 1)), .pool (.executed 0),
    .pool (.test 0), .join]

theorem stop_strands_iff_takingAtStop :
    ∃ t, Run step (new 1) takingAtStop t ∧ t.joined = some 1 ∧ ¬ t.Blocked := by
  have hrun : ∃ t, Run step (new 1) takingAtStop t := ⟨_, run_iff_foldlM.mpr rfl⟩
  have hnobody : Signals (fun w : Fin 1 =>
      (Function.update (fun _ => WorkerPhase.ready) 0 (.taking : WorkerPhase ℕ) w).Asleep) none := by
    intro w
    rw [Subsingleton.elim w 0]
    nofun
  have hen : Along step Enabled (new 1) takingAtStop := by
    refine (steps_cons_ok rfl).mpr ⟨rfl, ?_⟩
    refine (steps_cons_ok rfl).mpr ⟨⟨Nat.one_pos, rfl⟩, ?_⟩
    refine (steps_cons_ok rfl).mpr ⟨⟨trivial, hnobody⟩, ?_⟩
    refine (steps_cons_ok rfl).mpr ⟨⟨Nat.one_pos, rfl⟩, ?_⟩
    refine (steps_cons_ok rfl).mpr ⟨⟨trivial, hnobody⟩, ?_⟩
    refine (steps_cons_ok rfl).mpr ⟨rfl, ?_⟩
    refine (steps_cons_ok rfl).mpr ⟨⟨.inl rfl, 11, rfl⟩, ?_⟩
    refine (steps_cons_ok rfl).mpr ⟨⟨10, rfl⟩, ?_⟩
    refine (steps_cons_ok rfl).mpr ⟨rfl, ?_⟩
    exact ⟨⟨0, rfl, rfl⟩, fun _ _ => trivial⟩
  have hrelieves : Along step Relieves (new 1) takingAtStop := by
    refine (steps_cons_ok rfl).mpr ⟨trivial, ?_⟩
    refine (steps_cons_ok rfl).mpr ⟨trivial, ?_⟩
    refine (steps_cons_ok rfl).mpr ⟨nofun, ?_⟩
    refine (steps_cons_ok rfl).mpr ⟨trivial, ?_⟩
    refine (steps_cons_ok rfl).mpr ⟨nofun, ?_⟩
    refine (steps_cons_ok rfl).mpr ⟨⟨by decide, by decide⟩, ?_⟩
    refine (steps_cons_ok rfl).mpr ⟨trivial, ?_⟩
    refine (steps_cons_ok rfl).mpr ⟨trivial, ?_⟩
    refine (steps_cons_ok rfl).mpr ⟨trivial, ?_⟩
    exact ⟨trivial, fun _ _ => trivial⟩
  obtain ⟨t, hrun⟩ := hrun
  have hjoined : t.joined = some 1 := by
    cases run_iff_foldlM.mp hrun
    rfl
  exact ⟨t, hrun, hjoined, (stop_strands_iff hrun hen).1 hrelieves⟩

/-- The same with the worker at the head of its loop: it exits without a look at
the queue. -/
def readyAtStop : List (Label 1 (Fin 2) ℕ) :=
  [.pool (.call 0 10), .pool (.run 0 none), .pool (.call 1 11), .pool (.run 1 none), .pool .stop,
    .pool (.test 0), .join]

theorem stop_strands :
    ∃ t, Run step (new 1) readyAtStop t ∧ Along step Enabled (new 1) readyAtStop ∧ t.Blocked := by
  refine ⟨_, run_iff_foldlM.mpr rfl, ?_, rfl, ⟨1, 11, rfl⟩, rfl, ?_⟩
  · refine (steps_cons_ok rfl).mpr ⟨⟨Nat.one_pos, rfl⟩, ?_⟩
    refine (steps_cons_ok rfl).mpr ⟨⟨trivial, fun _ => nofun⟩, ?_⟩
    refine (steps_cons_ok rfl).mpr ⟨⟨Nat.one_pos, rfl⟩, ?_⟩
    refine (steps_cons_ok rfl).mpr ⟨⟨trivial, fun _ => nofun⟩, ?_⟩
    refine (steps_cons_ok rfl).mpr ⟨rfl, ?_⟩
    refine (steps_cons_ok rfl).mpr ⟨rfl, ?_⟩
    exact ⟨⟨0, rfl, rfl⟩, fun _ _ => trivial⟩
  · intro w
    rw [Subsingleton.elim w 0]
    rfl

end StoppingPool

end Muduo
