import Muduo.EventLoopQuit
import Muduo.EventLoopWakeup
import Muduo.Lib.Fifo

/-!
The queue of functors. What is pushed, by the loop thread or by others, is
executed once and in the order of the pushes, and each functor in the next batch
that `doPendingFunctors` swaps out. Batches are numbered by `iteration_`.
-/

namespace Muduo

open Lib

namespace EventLoop

variable {ι φ : Type}

/-- The functors of the running batch that have not started. -/
def batch (s : EventLoop ι φ) : List φ :=
  match s.phase with
  | .callingFunctors functors => functors
  | _ => []

/-- The number of the batch that the next swap takes: never that of a batch
that runs. -/
def nextBatch (s : EventLoop ι φ) : Nat :=
  match s.phase with
  | .handlingEvents _ | .swapping => s.iteration
  | _ => s.iteration + 1

/-- What a step pushes, with the number of the next batch. -/
def pushed (s : EventLoop ι φ) : Label ι φ → List (φ × Nat)
  | .early (.queneInLoop cb) | .queneInLoop _ cb => [(cb, s.nextBatch)]
  | .call =>
    match s.calls with
    | .queneInLoop cb :: _ => [(cb, s.nextBatch)]
    | _ => []
  | _ => []

theorem pushed_snd {s : EventLoop ι φ} {a : Label ι φ} {p : φ × Nat} (hp : p ∈ s.pushed a) :
    p.2 = s.nextBatch := by
  unfold pushed at hp
  split at hp
  · rw [List.mem_singleton.mp hp]
  · rw [List.mem_singleton.mp hp]
  · split at hp
    · rw [List.mem_singleton.mp hp]
    · cases hp
  · cases hp

/-- The functor that a step starts, with the number of its batch. -/
def executed (s : EventLoop ι φ) : Label ι φ → List (φ × Nat)
  | .callFunctor _ => (s.batch.take 1).map (·, s.iteration)
  | _ => []

/-- What has been pushed and not executed. -/
def waiting (s : EventLoop ι φ) : List (φ × Nat) :=
  s.batch.map (·, s.iteration) ++ s.pendingFunctors.map (·, s.nextBatch)

theorem waiting_fst (s : EventLoop ι φ) : s.waiting.map Prod.fst = s.batch ++ s.pendingFunctors := by
  simp [waiting, Function.comp_def]

/-- A push goes behind everything that waits. -/
theorem waiting_push {s s' : EventLoop ι φ} {cb : φ} (hph : s'.phase = s.phase)
    (hi : s'.iteration = s.iteration) (hp : s'.pendingFunctors = s.pendingFunctors ++ [cb]) :
    s'.waiting = s.waiting ++ [(cb, s.nextBatch)] := by
  simp [waiting, batch, nextBatch, hph, hi, hp]

/-- A call of the loop thread. -/
theorem waiting_callInLoop (s : EventLoop ι φ) (c : LoopCall φ) :
    (s.callInLoop c).waiting = s.waiting ++
      match c with
      | .queneInLoop cb => [(cb, s.nextBatch)]
      | .quit => [] := by
  cases c with
  | queneInLoop cb => exact waiting_push rfl rfl rfl
  | quit => exact (List.append_nil _).symm

variable [DecidableEq ι]

/-- Every step keeps the order. -/
theorem step_waiting {s s' : EventLoop ι φ} {a : Label ι φ} (ha : s.Enabled a)
    (hs : s.step a = .ok s') : s.executed a ++ s'.waiting = s.waiting ++ s.pushed a := by
  cases a with
  | early c =>
    cases hs
    rw [waiting_callInLoop]
    cases c <;> rfl
  | enter =>
    have hp : s.phase = .notStarted := ha
    obtain ⟨_, -, hs⟩ := bind_eq_ok.mp hs
    cases hs
    simp [executed, pushed, waiting, batch, nextBatch, hp]
  | test =>
    have hp : s.phase = .condition := ha
    simp only [step, pure_eq_ok, Except.ok.injEq] at hs
    subst hs
    split <;> simp [executed, pushed, waiting, batch, nextBatch, hp]
  | poll =>
    have hp : s.phase = .beforePoll := ha
    cases hs
    simp [executed, pushed, waiting, batch, nextBatch, hp]
  | pollReturn activeChannels =>
    cases hs
    simp [executed, pushed, waiting, batch, nextBatch, ha.1]
  | handleEvent calls =>
    obtain ⟨-, channel, channels, hp⟩ := ha
    cases channel <;>
      simp only [step, hp, pure_eq_ok, Except.ok.injEq] at hs <;> subst hs <;>
      simp [executed, pushed, waiting, batch, nextBatch, handleRead, hp]
  | endEvents =>
    cases hs
    simp [executed, pushed, waiting, batch, nextBatch, ha.2]
  | swap =>
    have hp : s.phase = .swapping := ha
    cases hs
    simp [executed, pushed, waiting, batch, nextBatch, hp]
  | callFunctor calls =>
    obtain ⟨-, functor, functors, hp⟩ := ha
    simp only [step, hp, pure_eq_ok, Except.ok.injEq] at hs
    subst hs
    simp [executed, pushed, waiting, batch, nextBatch, hp]
  | endFunctors =>
    cases hs
    simp [executed, pushed, waiting, batch, nextBatch, ha.2]
  | call =>
    cases hcalls : s.calls with
    | nil => exact absurd hcalls ha.1
    | cons c calls =>
      simp only [step, hcalls, pure_eq_ok, Except.ok.injEq] at hs
      subst hs
      rw [waiting_callInLoop]
      cases c <;> simp [executed, pushed, hcalls, waiting, batch, nextBatch]
  | wakeup =>
    cases hs
    simp [executed, pushed, waiting, batch, nextBatch, wakeup]
  | queneInLoop i cb =>
    cases hs
    exact waiting_push rfl rfl rfl
  | quit i =>
    cases hs
    simp [executed, pushed, waiting, batch, nextBatch, setThread]
  | wakeupFrom i =>
    cases hs
    simp [executed, pushed, waiting, batch, nextBatch, wakeup, setThread]

/-- What waits behind a step waited before it, or was pushed by it. -/
theorem mem_of_step {s s' : EventLoop ι φ} {a : Label ι φ} (ha : s.Enabled a)
    (hs : s.step a = .ok s') {cb : φ} (hcb : cb ∈ s'.batch ++ s'.pendingFunctors) :
    cb ∈ s.batch ++ s.pendingFunctors ∨ cb ∈ (s.pushed a).map Prod.fst := by
  have hmap := congrArg (List.map Prod.fst) (step_waiting ha hs)
  rw [List.map_append, List.map_append, waiting_fst, waiting_fst] at hmap
  exact List.mem_append.mp (hmap ▸ List.mem_append_right _ hcb)

/-- **Once and in order.** In every interleaving, the functors pushed so far are
those executed so far, then the rest of the running batch, then
`pendingFunctors_`. Each is executed in the batch that was the next one when it
was pushed, which is a later one than the batch that runs. -/
theorem functors_in_order (steps : List (Label ι φ)) (hsteps : Along step Enabled new steps) :
    ∃ s, Run step new steps s ∧
      (yields step pushed new steps).map Prod.fst =
        (yields step executed new steps).map Prod.fst ++ s.batch ++ s.pendingFunctors ∧
      yields step executed new steps <+: yields step pushed new steps ∧
      Steps step (fun u a _ => ∀ functors, u.phase = .callingFunctors functors →
        ∀ p ∈ u.pushed a, u.iteration < p.2) new steps := by
  obtain ⟨s, hrun, -⟩ := Run.progress (I := Fresh) (fun s a h ha => (step_ok h ha).imp
    fun s' hs => ⟨hs, h.step ha hs⟩) (fun _ => rfl) hsteps
  have hall : yields step executed new steps ++ s.waiting = yields step pushed new steps :=
    hrun.conserved (I := fun _ => True) hsteps trivial (fun _ _ _ _ _ _ => trivial)
      fun s a s' _ ha hs => step_waiting ha hs
  refine ⟨s, hrun, ?_, ⟨s.waiting, hall⟩, hsteps.mono ?_⟩
  · rw [← hall, List.map_append, waiting_fst, List.append_assoc]
  · intro u a _ _ functors hp p hpush
    rw [pushed_snd hpush]
    simp [nextBatch, hp]

theorem functors_in_order_sample :
    ∃ s, Run step new requeue s ∧
      (yields step pushed new requeue).map Prod.fst =
        (yields step executed new requeue).map Prod.fst ++ s.batch ++ s.pendingFunctors ∧
      yields step executed new requeue <+: yields step pushed new requeue ∧
      Steps step (fun u a _ => ∀ functors, u.phase = .callingFunctors functors →
        ∀ p ∈ u.pushed a, u.iteration < p.2) new requeue :=
  functors_in_order requeue requeue_enabled

end EventLoop

end Muduo
