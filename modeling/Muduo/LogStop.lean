import Mathlib.Data.Int.Order.Basic
import Muduo.LogBacklog

/-!
`start` and `stop` of `src/AsyncLogging.h` over `src/thread.cpp`: the owner of
the log against the backend and the threads that append. `thread::start` counts
its own latch down, so `start` does not wait for the backend; and the backend
tests `running_` at the head of its loop only.

* `Drains`: what the backend will still do when `running_` is false;
* `stop_flushes`: when everything appended has been written as `stop` returns.
-/

namespace Muduo

open Lib

/-- `hhl::thread`, with the count of `latch_`. -/
structure Thread where
  started : Bool
  joined : Bool
  latch : Int

/-- Where the owner is. -/
inductive LogOwnerPhase where
  | created
  /-- `running_ = true` has been written -/
  | starting
  /-- behind `latch_.countDown()` of `thread::start` -/
  | counted
  /-- behind `pthread_create`, in `latch_.wait()` -/
  | waiting
  /-- `start` has returned -/
  | started
  /-- `running_ = false` has been written -/
  | stopping
  /-- behind `cond_.notify()` -/
  | joining
  /-- `stop` has returned -/
  | stopped
  deriving DecidableEq, Repr

/-- `start` and `stop` go through the phases in their order. -/
def LogOwnerPhase.rank : LogOwnerPhase → Nat
  | created => 0
  | starting => 1
  | counted => 2
  | waiting => 3
  | started => 4
  | stopping => 5
  | joining => 6
  | stopped => 7

structure LogOwner where
  log : AsyncLogging
  thread : Thread
  owner : LogOwnerPhase
  /-- the thread is there, and has not left `latch_.countDown()` of `startFunc` -/
  spawned : Bool
  /-- the lines appended so far -/
  appended : List UInt8

/-- The steps of the backend. -/
def AsyncLogging.Label.OfBackend : AsyncLogging.Label → Prop
  | .append _ | .start | .stop => False
  | _ => True

namespace LogOwner

def new : LogOwner := ⟨.new, ⟨false, false, 1⟩, .created, false, []⟩

inductive Label where
  | append (logline : List UInt8)
  /-- `running_ = true` -/
  | start
  /-- `thread::start` up to `pthread_create` -/
  | threadStart
  | create
  /-- `startFunc` of the new thread, up to `func_` -/
  | startFunc
  /-- `latch_.wait()` is over -/
  | waited
  | backend (a : AsyncLogging.Label)
  /-- `running_ = false` -/
  | stop
  | notify
  /-- `thread::join` -/
  | join

/-- Every call of `append` is over before `stop` is called. -/
def Enabled (s : LogOwner) : Label → Prop
  | .append logline => logline.length < KLargeBuffer ∧ s.owner.rank ≤ 4
  | .start => s.owner = .created
  | .threadStart => s.owner = .starting
  | .create => s.owner = .counted
  | .startFunc => s.spawned = true
  | .waited => s.owner = .waiting ∧ s.thread.latch ≤ 0
  | .backend a => a.OfBackend ∧ s.log.Enabled a
  | .stop => s.owner = .started
  | .notify => s.owner = .stopping
  | .join => s.owner = .joining ∧ s.log.phase = .finished

def step (s : LogOwner) : Label → Checked LogOwner
  | .append logline => do
    let log ← s.log.append logline
    return { s with log, appended := s.appended ++ logline }
  | .start => return { s with log := { s.log with running := true }, owner := .starting }
  | .threadStart => do
    check (s.thread.started = false) .threadStart
    let latch := s.thread.latch - 1
    return { s with thread := { s.thread with started := true, latch }, owner := .counted }
  | .create => return { s with spawned := true, owner := .waiting }
  | .startFunc =>
    let latch := s.thread.latch - 1
    return { s with
      thread := { s.thread with latch }
      spawned := false
      log := { s.log with phase := .started } }
  | .waited => return { s with owner := .started }
  | .backend a => do
    let log ← s.log.step a
    return { s with log }
  | .stop => return { s with log := { s.log with running := false }, owner := .stopping }
  | .notify => return { s with owner := .joining }
  | .join => do
    check (s.thread.started = true) .threadJoin
    check (s.thread.joined = false) .threadJoin
    return { s with thread := { s.thread with joined := true }, owner := .stopped }

/-- No swap finds more than 25 buffers. -/
def Bounded (s : LogOwner) : Label → Prop
  | .backend a => s.log.Bounded a
  | _ => True

/-- When `stop` has returned, everything appended has been given to `output`;
no assertion of `threadFunc` has failed. -/
def Flushes (_ : LogOwner) (_ : Label) : Checked LogOwner → Prop
  | .ok s => s.owner = .stopped → s.log.output = s.appended
  | .error e => e ≠ .threadFunc

end LogOwner

namespace AsyncLogging

/-- The lines that the backend has not swapped out. -/
def held (s : AsyncLogging) : List UInt8 := contents s.buffers ++ contents [s.currentBuffer]

/-- The backend has passed the assertion of `threadFunc`, and will swap once more
or need not. -/
structure Drains (s : AsyncLogging) : Prop where
  passed : s.phase ≠ .notStarted ∧ s.phase ≠ .started
  swaps : (s.phase = .beforeLock ∨ s.phase = .waiting) ∨ s.held = []

end AsyncLogging

/-- `stop` finds the backend so that it will write all there is. -/
def LogOwner.StopsInTime (s : LogOwner) : LogOwner.Label → Prop
  | .stop => s.log.Drains
  | _ => True

namespace AsyncLogging

/-! ## The backend behind `running_ = false` -/

theorem held_swapBuffers {s : AsyncLogging} (hempty : isEmptyBuffer s.newBuffer1 = true)
    (hnone : s.bufferToWrite = []) : s.swapBuffers.held = [] := by
  obtain ⟨b, hb, hzero⟩ := isEmptyBuffer_iff.mp hempty
  have hcontents : contents [some b] = [] := by
    rw [contents_some, FixedBuffer.content_eq_nil hzero]
  unfold swapBuffers
  dsimp only
  split
  · simp only [held, hnone, hb, hcontents, contents_nil, List.append_nil]
  · simp only [held, hnone, hb, hcontents, contents_nil, List.append_nil]

theorem swapBuffers_phase (s : AsyncLogging) : s.swapBuffers.phase = .swapped := by
  unfold swapBuffers
  dsimp only
  split <;> rfl

theorem recycle_held {s s' : AsyncLogging} (h : s.recycle = .ok s') :
    s'.held = s.held ∧ s'.phase = .condition := by
  obtain ⟨⟨newBuffer1, v⟩, -, h⟩ := bind_eq_ok.mp h
  obtain ⟨⟨newBuffer2, w⟩, -, h⟩ := bind_eq_ok.mp h
  cases h
  exact ⟨rfl, rfl⟩

/-- Behind the swap and at the head of the loop. -/
def Swapping (s : AsyncLogging) : Prop :=
  match s.phase with
  | .condition | .swapped | .writing _ | .finished => True
  | _ => False

theorem Swapping.drains_iff {s : AsyncLogging} (h : s.Swapping) : s.Drains ↔ s.held = [] := by
  constructor
  · intro hd
    apply hd.swaps.resolve_left
    rintro (hph | hph) <;> simp [Swapping, hph] at h
  · intro hheld
    refine ⟨⟨?_, ?_⟩, .inr hheld⟩
    · intro hph
      simp [Swapping, hph] at h
    · intro hph
      simp [Swapping, hph] at h

/-- A step from there to there. -/
theorem Swapping.drains_congr {s s' : AsyncLogging} (h : s.Swapping) (h' : s'.Swapping)
    (hheld : s'.held = s.held) : s'.Drains ↔ s.Drains := by
  rw [h.drains_iff, h'.drains_iff, hheld]

/-- Every step of the backend keeps to what is due. -/
theorem drains_step {s s' : AsyncLogging} (h : s.Inv) (hrunning : s.running = false) {a : Label}
    (hof : a.OfBackend) (ha : s.Enabled a) (hs : s.step a = .ok s') : s'.Drains ↔ s.Drains := by
  have hlocals := h.locals
  cases a with
  | append | start | stop => exact hof.elim
  | enter => cases (fails_error ⟨rfl, hrunning⟩).symm.trans hs
  | test =>
    have hph : s.phase = .condition := ha
    have hswap : s.Swapping := by simp [Swapping, hph]
    simp only [step, test, hrunning] at hs
    cases hs
    exact hswap.drains_congr trivial rfl
  | lock =>
    have hph : s.phase = .beforeLock := ha
    have hd : s.Drains := ⟨by simp [hph], .inl (.inl hph)⟩
    simp only [Locals, hph] at hlocals
    cases hs
    refine iff_of_true ?_ hd
    unfold lock
    split
    · exact ⟨by simp, .inl (.inr rfl)⟩
    · exact ⟨by simp [swapBuffers_phase], .inr (held_swapBuffers hlocals.1 hlocals.2.2)⟩
  | wake =>
    have hph : s.phase = .waiting := ha
    have hd : s.Drains := ⟨by simp [hph], .inl (.inr hph)⟩
    simp only [Locals, hph] at hlocals
    cases hs
    exact iff_of_true
      ⟨by simp [swapBuffers_phase], .inr (held_swapBuffers hlocals.1 hlocals.2.2)⟩ hd
  | dropBacklog behind =>
    have hph : s.phase = .swapped := ha
    have hswap : s.Swapping := by simp [Swapping, hph]
    obtain ⟨u, -, hs⟩ := bind_eq_ok.mp hs
    split at hs
    · cases hs
      exact hswap.drains_congr trivial rfl
    · cases hs
      exact hswap.drains_congr trivial rfl
  | write =>
    obtain ⟨next, -, hph⟩ := ha
    have hswap : s.Swapping := by simp [Swapping, hph]
    simp only [step, hph] at hs
    obtain ⟨buffer, -, hs⟩ := bind_eq_ok.mp hs
    cases hs
    exact hswap.drains_congr trivial rfl
  | recycle =>
    have hph : s.phase = .writing s.bufferToWrite.length := ha
    have hswap : s.Swapping := by simp [Swapping, hph]
    obtain ⟨hheld, hph'⟩ := recycle_held hs
    exact hswap.drains_congr (by simp [Swapping, hph']) hheld

/-! ## What the owner can rely on -/

theorem append_same {s s' : AsyncLogging} {logline : List UInt8} (h : s.append logline = .ok s') :
    s'.phase = s.phase ∧ s'.running = s.running := by
  obtain ⟨current, -, h⟩ := bind_eq_ok.mp h
  split at h
  · cases h
    exact ⟨rfl, rfl⟩
  · obtain ⟨next, -, h⟩ := bind_eq_ok.mp h
    cases h
    exact ⟨rfl, rfl⟩

theorem backend_running {s s' : AsyncLogging} {a : Label} (hof : a.OfBackend)
    (hs : s.step a = .ok s') : s'.running = s.running := by
  have hswap : s.swapBuffers.running = s.running := by
    unfold swapBuffers
    dsimp only
    split <;> rfl
  cases a with
  | append | start | stop => exact hof.elim
  | enter =>
    obtain ⟨u, -, hs⟩ := bind_eq_ok.mp hs
    cases hs
    rfl
  | test =>
    simp only [step, test] at hs
    split at hs
    · obtain ⟨-, -, hs⟩ := bind_eq_ok.mp hs
      obtain ⟨-, -, hs⟩ := bind_eq_ok.mp hs
      obtain ⟨-, -, hs⟩ := bind_eq_ok.mp hs
      cases hs
      rfl
    · cases hs
      rfl
  | lock =>
    cases hs
    unfold lock
    split
    · rfl
    · exact hswap
  | wake =>
    cases hs
    exact hswap
  | dropBacklog behind =>
    obtain ⟨-, -, hs⟩ := bind_eq_ok.mp hs
    split at hs <;> cases hs <;> rfl
  | write =>
    simp only [step] at hs
    split at hs
    · obtain ⟨buffer, -, hs⟩ := bind_eq_ok.mp hs
      cases hs
      rfl
    · cases hs
      rfl
  | recycle =>
    obtain ⟨⟨newBuffer1, v⟩, -, h⟩ := bind_eq_ok.mp hs
    obtain ⟨⟨newBuffer2, w⟩, -, h⟩ := bind_eq_ok.mp h
    cases h
    rfl

/-- The backend takes steps from the start of its function to its end. -/
theorem backend_runs {s : AsyncLogging} {a : Label} (hof : a.OfBackend) (ha : s.Enabled a) :
    s.phase ≠ .notStarted ∧ s.phase ≠ .finished := by
  cases a with
  | append | start | stop => exact hof.elim
  | enter | test | lock | wake | dropBacklog | recycle =>
    have hph := ha
    simp only [Enabled] at hph
    simp [hph]
  | write =>
    obtain ⟨next, -, hph⟩ := ha
    simp [hph]

end AsyncLogging

namespace LogOwner

/-! ## The invariant -/

structure Inv (s : LogOwner) : Prop where
  log : s.log.Inv
  kept : s.log.output ++ s.log.backlog = s.appended
  running : s.log.running = true ↔ 1 ≤ s.owner.rank ∧ s.owner.rank ≤ 4
  early : s.owner.rank ≤ 2 → s.log.phase = .notStarted ∧ s.spawned = false
  spawned : s.spawned = true → s.log.phase = .notStarted
  stopped : s.owner = .stopped → s.log.phase = .finished
  started : s.thread.started = true ↔ 2 ≤ s.owner.rank
  joined : s.thread.joined = true ↔ s.owner = .stopped

theorem new_inv : new.Inv := by
  refine ⟨AsyncLogging.new_inv, ?_, by decide, by decide, by decide, by decide, by decide, by decide⟩
  simp [new, AsyncLogging.new, AsyncLogging.backlog, AsyncLogging.unwritten,
    AsyncLogging.contents_some, FixedBuffer.content_eq_nil FixedBuffer.new_length]

/-- Behind `stop` the backend will write all there is. -/
def Settled (s : LogOwner) : Prop := 5 ≤ s.owner.rank → s.log.Drains

theorem Inv.step {s s' : LogOwner} (h : s.Inv) {a : Label} (ha : s.Enabled a) (hb : s.Bounded a)
    (hs : s.step a = .ok s') : s'.Inv := by
  cases a with
  | append logline =>
    obtain ⟨log, hlog, hs⟩ := bind_eq_ok.mp hs
    cases hs
    obtain ⟨hphase, hrunning⟩ := AsyncLogging.append_same hlog
    obtain ⟨log', hlog', hinv, hout, hback⟩ := AsyncLogging.append_spec h.log ha.1
    obtain rfl : log' = log := Except.ok.inj (hlog'.symm.trans hlog)
    refine ⟨hinv, ?_, hrunning ▸ h.running, hphase ▸ h.early, hphase ▸ h.spawned, hphase ▸ h.stopped,
      h.started, h.joined⟩
    rw [hout, hback, ← List.append_assoc, h.kept]
  | start =>
    have howner : s.owner = .created := ha
    obtain ⟨hphase, hspawned⟩ := h.early (by simp [howner, LogOwnerPhase.rank])
    have hl := h.log
    cases hs
    exact ⟨⟨hl.current, hl.present, hl.next, hl.locals⟩, h.kept, by simp [LogOwnerPhase.rank],
      fun _ => ⟨hphase, hspawned⟩, h.spawned, by simp,
      by simpa [howner, LogOwnerPhase.rank] using h.started, by simpa [howner] using h.joined⟩
  | threadStart =>
    have howner : s.owner = .starting := ha
    obtain ⟨u, -, hs⟩ := bind_eq_ok.mp hs
    cases hs
    exact ⟨h.log, h.kept, by simpa [howner, LogOwnerPhase.rank] using h.running,
      fun _ => h.early (by simp [howner, LogOwnerPhase.rank]), h.spawned, by simp,
      by simp [LogOwnerPhase.rank], by simpa [howner] using h.joined⟩
  | create =>
    have howner : s.owner = .counted := ha
    obtain ⟨hphase, -⟩ := h.early (by simp [howner, LogOwnerPhase.rank])
    cases hs
    exact ⟨h.log, h.kept, by simpa [howner, LogOwnerPhase.rank] using h.running,
      by simp [LogOwnerPhase.rank], fun _ => hphase, by simp,
      by simpa [howner, LogOwnerPhase.rank] using h.started, by simpa [howner] using h.joined⟩
  | startFunc =>
    have hspawned : s.spawned = true := ha
    have hphase := h.spawned hspawned
    have hl := h.log
    have hlocals := hl.locals
    simp only [AsyncLogging.Locals, hphase] at hlocals
    have hkept := h.kept
    simp only [AsyncLogging.backlog, AsyncLogging.unwritten, hphase] at hkept
    cases hs
    refine ⟨⟨hl.current, hl.present, hl.next, hlocals⟩, hkept, h.running, ?_, by simp, ?_, h.started,
      h.joined⟩
    · intro hrank
      simp [(h.early hrank).2] at hspawned
    · intro howner
      cases hphase.symm.trans (h.stopped howner)
  | waited =>
    have howner : s.owner = .waiting := ha.1
    cases hs
    exact ⟨h.log, h.kept, by simpa [howner, LogOwnerPhase.rank] using h.running,
      by simp [LogOwnerPhase.rank], h.spawned, by simp,
      by simpa [howner, LogOwnerPhase.rank] using h.started, by simpa [howner] using h.joined⟩
  | backend a =>
    obtain ⟨hof, ha⟩ := ha
    obtain ⟨log, hlog, hs⟩ := bind_eq_ok.mp hs
    cases hs
    obtain ⟨hbegun, hlasts⟩ := AsyncLogging.backend_runs hof ha
    obtain ⟨hinv, hkept⟩ := AsyncLogging.step_conserves h.log ha hb hlog
    have hnone : a.logline = [] := by
      cases a <;> first | rfl | exact hof.elim
    rw [h.kept, hnone, List.append_nil] at hkept
    have hrunning := AsyncLogging.backend_running hof hlog
    exact ⟨hinv, hkept, hrunning ▸ h.running, fun hrank => absurd (h.early hrank).1 hbegun,
      fun hspawned => absurd (h.spawned hspawned) hbegun,
      fun howner => absurd (h.stopped howner) hlasts, h.started, h.joined⟩
  | stop =>
    have howner : s.owner = .started := ha
    have hl := h.log
    cases hs
    exact ⟨⟨hl.current, hl.present, hl.next, hl.locals⟩, h.kept, by simp [LogOwnerPhase.rank],
      by simp [LogOwnerPhase.rank], h.spawned, by simp,
      by simpa [howner, LogOwnerPhase.rank] using h.started, by simpa [howner] using h.joined⟩
  | notify =>
    have howner : s.owner = .stopping := ha
    cases hs
    exact ⟨h.log, h.kept, by simpa [howner, LogOwnerPhase.rank] using h.running,
      by simp [LogOwnerPhase.rank], h.spawned, by simp,
      by simpa [howner, LogOwnerPhase.rank] using h.started, by simpa [howner] using h.joined⟩
  | join =>
    obtain ⟨howner, hphase⟩ := ha
    obtain ⟨u, -, hs⟩ := bind_eq_ok.mp hs
    obtain ⟨v, -, hs⟩ := bind_eq_ok.mp hs
    cases hs
    exact ⟨h.log, h.kept, by simpa [howner, LogOwnerPhase.rank] using h.running,
      by simp [LogOwnerPhase.rank], h.spawned, fun _ => hphase,
      by simpa [howner, LogOwnerPhase.rank] using h.started, by simp⟩

/-! ## What `stop` leaves to be done -/

theorem stopsInTime_of_ne (s : LogOwner) {a : Label} (ha : a ≠ .stop) : s.StopsInTime a := by
  cases a with
  | stop => exact absurd rfl ha
  | _ => trivial

/-- Steps that do not touch the log decide nothing. -/
theorem settled_congr {s s' : LogOwner} {a : Label} (ha : a ≠ .stop) (hlog : s'.log = s.log)
    (hrank : 5 ≤ s'.owner.rank ↔ 5 ≤ s.owner.rank) :
    s'.Settled ↔ s.Settled ∧ s.StopsInTime a := by
  rw [Settled, Settled, hlog, hrank]
  exact (and_iff_left (s.stopsInTime_of_ne ha)).symm

/-- Before `stop` nothing is decided. -/
theorem settled_early {s s' : LogOwner} {a : Label} (ha : a ≠ .stop) (h : s.owner.rank < 5)
    (h' : s'.owner.rank < 5) : s'.Settled ↔ s.Settled ∧ s.StopsInTime a := by
  have hnot : ∀ t : LogOwner, t.owner.rank < 5 → t.Settled := by
    intro t ht hrank
    omega
  exact iff_of_true (hnot s' h') ⟨hnot s h, s.stopsInTime_of_ne ha⟩

/-- **Step lemma.** It is `stop` that decides. -/
theorem Inv.settled_step {s s' : LogOwner} (h : s.Inv) {a : Label} (ha : s.Enabled a)
    (hs : s.step a = .ok s') : s'.Settled ↔ s.Settled ∧ s.StopsInTime a := by
  cases a with
  | append logline =>
    have hrank : s.owner.rank ≤ 4 := ha.2
    obtain ⟨log, -, hs⟩ := bind_eq_ok.mp hs
    cases hs
    exact settled_early (by simp) (by omega) (by dsimp only; omega)
  | start =>
    have howner : s.owner = .created := ha
    cases hs
    exact settled_early (by simp) (by simp [howner, LogOwnerPhase.rank]) (by simp [LogOwnerPhase.rank])
  | threadStart =>
    have howner : s.owner = .starting := ha
    obtain ⟨u, -, hs⟩ := bind_eq_ok.mp hs
    cases hs
    exact settled_early (by simp) (by simp [howner, LogOwnerPhase.rank]) (by simp [LogOwnerPhase.rank])
  | create =>
    have howner : s.owner = .counted := ha
    cases hs
    exact settled_early (by simp) (by simp [howner, LogOwnerPhase.rank]) (by simp [LogOwnerPhase.rank])
  | startFunc =>
    have hphase := h.spawned ha
    cases hs
    by_cases hrank : 5 ≤ s.owner.rank
    · -- the assertion is still to come, as it was
      refine iff_of_false (fun hset => ?_) fun hset => ?_
      · exact (hset hrank).passed.2 rfl
      · exact (hset.1 hrank).passed.1 hphase
    · exact settled_early (by simp) (by omega) (by dsimp only; omega)
  | waited =>
    have howner : s.owner = .waiting := ha.1
    cases hs
    exact settled_early (by simp) (by simp [howner, LogOwnerPhase.rank]) (by simp [LogOwnerPhase.rank])
  | backend a =>
    obtain ⟨hof, ha⟩ := ha
    obtain ⟨log, hlog, hs⟩ := bind_eq_ok.mp hs
    cases hs
    by_cases hrank : 5 ≤ s.owner.rank
    · have hrunning : s.log.running = false := by
        have hiff := h.running
        simpa [Nat.not_le.mpr hrank] using hiff
      simp only [Settled, hrank, forall_const, StopsInTime, and_true]
      exact AsyncLogging.drains_step h.log hrunning hof ha hlog
    · exact settled_early (by simp) (by omega) (by dsimp only; omega)
  | stop =>
    have howner : s.owner = .started := ha
    have hearly : s.Settled := by
      intro hrank
      simp [howner, LogOwnerPhase.rank] at hrank
    cases hs
    rw [and_iff_right hearly]
    simp only [Settled, LogOwnerPhase.rank, Nat.le_refl, forall_const, StopsInTime]
    exact ⟨fun hd => ⟨hd.passed, hd.swaps⟩, fun hd => ⟨hd.passed, hd.swaps⟩⟩
  | notify =>
    have howner : s.owner = .stopping := ha
    cases hs
    exact settled_congr (by simp) rfl (by simp [howner, LogOwnerPhase.rank])
  | join =>
    obtain ⟨howner, hphase⟩ := ha
    obtain ⟨u, -, hs⟩ := bind_eq_ok.mp hs
    obtain ⟨v, -, hs⟩ := bind_eq_ok.mp hs
    cases hs
    exact settled_congr (by simp) rfl (by simp [howner, LogOwnerPhase.rank])

/-! ## Runs -/

/-- With nothing due to be lost no step fails. -/
theorem Inv.step_succeeds {s : LogOwner} (h : s.Inv) (hset : s.Settled) {a : Label}
    (ha : s.Enabled a) (hb : s.Bounded a) : ∃ s', s.step a = .ok s' := by
  cases a with
  | append logline =>
    obtain ⟨log, hlog, -⟩ := AsyncLogging.append_spec h.log ha.1
    exact ⟨_, bind_eq_ok.mpr ⟨log, hlog, rfl⟩⟩
  | threadStart =>
    have howner : s.owner = .starting := ha
    have hstarted : s.thread.started = false := by
      simpa [howner, LogOwnerPhase.rank] using h.started
    exact ⟨_, bind_eq_ok.mpr ⟨(), check_pos hstarted _, rfl⟩⟩
  | join =>
    obtain ⟨howner, -⟩ := ha
    have hstarted : s.thread.started = true := by
      simpa [howner, LogOwnerPhase.rank] using h.started
    have hjoined : s.thread.joined = false := by simpa [howner] using h.joined
    exact ⟨_, bind_eq_ok.mpr ⟨(), check_pos hstarted _, bind_eq_ok.mpr ⟨(), check_pos hjoined _, rfl⟩⟩⟩
  | backend a =>
    obtain ⟨-, ha⟩ := ha
    have hok : ¬ s.log.Fails a := by
      rintro ⟨rfl, hrunning⟩
      have hphase : s.log.phase = .started := ha
      by_cases hrank : 5 ≤ s.owner.rank
      · exact (hset hrank).passed.2 hphase
      · -- before `stop` the thread has been started by `start`
        have hearly : ¬ s.owner.rank ≤ 2 := by
          intro hle
          cases hphase.symm.trans (h.early hle).1
        simp [h.running.mpr ⟨by omega, by omega⟩] at hrunning
    obtain ⟨log, hlog, -⟩ := AsyncLogging.step_spec h.log ha hb hok
    exact ⟨_, bind_eq_ok.mpr ⟨log, hlog, rfl⟩⟩
  | _ => exact ⟨_, rfl⟩

/-- When `stop` has returned, what the backend has not swapped out is lost. -/
theorem Inv.flushed_iff {s : LogOwner} (h : s.Inv) (howner : s.owner = .stopped) :
    s.log.output = s.appended ↔ s.Settled := by
  have hphase := h.stopped howner
  have hlocals := h.log.locals
  simp only [AsyncLogging.Locals, hphase] at hlocals
  have hswap : s.log.Swapping := by simp [AsyncLogging.Swapping, hphase]
  have hbacklog : s.log.backlog = s.log.held := by
    simp [AsyncLogging.backlog, AsyncLogging.unwritten, AsyncLogging.held, hphase, hlocals]
  have hset : s.Settled ↔ s.log.Drains := by simp [Settled, howner, LogOwnerPhase.rank]
  rw [hset, hswap.drains_iff, ← h.kept, hbacklog]
  exact List.self_eq_append_right

/-- **Stopping.** When `stop` finds the backend so that it will write all there
is, nothing fails and everything appended has been written as `stop` returns;
and a run to the return of `stop` has written everything only then. -/
theorem stop_flushes (steps : List Label) (hsteps : Along step Enabled new steps)
    (hbounded : Along step Bounded new steps) :
    (Along step StopsInTime new steps → Steps step Flushes new steps) ∧
    ∀ t, Run step new steps t → t.owner = .stopped →
      (t.log.output = t.appended ↔ Along step StopsInTime new steps) := by
  have hall := hsteps.and hbounded
  have hstart : new.Settled := by
    intro hrank
    exact absurd hrank (by decide)
  constructor
  · intro htime
    refine Steps.of_invariant (I := fun s => s.Inv ∧ s.Settled)
      (E := fun s a => (s.Enabled a ∧ s.Bounded a) ∧ s.StopsInTime a) ?_ ?_ ⟨new_inv, hstart⟩
      (hall.and htime)
    · rintro s a ⟨h, hset⟩ ⟨⟨ha, hb⟩, ht⟩
      obtain ⟨s', hs⟩ := h.step_succeeds hset ha hb
      rw [hs]
      intro howner
      exact ((h.step ha hb hs).flushed_iff howner).mpr ((h.settled_step ha hs).mpr ⟨hset, ht⟩)
    · rintro s a s' ⟨h, hset⟩ ⟨⟨ha, hb⟩, ht⟩ hs
      exact ⟨h.step ha hb hs, (h.settled_step ha hs).mpr ⟨hset, ht⟩⟩
  · intro t hrun howner
    have hinv : t.Inv :=
      hrun.invariant hall new_inv fun s a s' h ha hs => h.step ha.1 ha.2 hs
    rw [hinv.flushed_iff howner, hrun.holds_iff hall new_inv
      (fun s a s' h ha hs => h.step ha.1 ha.2 hs) fun s a s' h ha hs => h.settled_step ha.1 hs]
    exact and_iff_right hstart

theorem stopsInTime_of_not_mem {s : LogOwner} {steps : List Label} (h : ∀ a ∈ steps, a ≠ .stop) :
    Along step StopsInTime s steps :=
  (Steps.of_forall h).mono fun s _ _ ha => s.stopsInTime_of_ne ha

/-- A step other than the one behind the swap. -/
theorem bounded_of_ne (s : LogOwner) {a : Label} (ha : ∀ behind, a ≠ .backend (.dropBacklog behind)) :
    s.Bounded a := by
  cases a with
  | backend a =>
    cases a with
    | dropBacklog behind => exact absurd rfl (ha behind)
    | _ => trivial
  | _ => trivial

theorem bounded_of_not_mem {s : LogOwner} {steps : List Label}
    (h : ∀ a ∈ steps, ∀ behind, a ≠ .backend (.dropBacklog behind)) : Along step Bounded s steps :=
  (Steps.of_forall h).mono fun s _ _ ha => s.bounded_of_ne ha

/-- `start` up to its return, with the new thread in its function, and a line. -/
def starts : List Label := [.start, .threadStart, .create, .startFunc, .waited, .append [1, 2]]

theorem starts_enabled : Along step Enabled new starts := by
  refine (steps_cons_ok rfl).mpr ⟨rfl, ?_⟩
  refine (steps_cons_ok rfl).mpr ⟨rfl, ?_⟩
  refine (steps_cons_ok rfl).mpr ⟨rfl, ?_⟩
  refine (steps_cons_ok rfl).mpr ⟨rfl, ?_⟩
  refine (steps_cons_ok rfl).mpr ⟨⟨rfl, by decide⟩, ?_⟩
  exact ⟨⟨by decide, by decide⟩, fun _ _ => trivial⟩

/-- `stop` finds the backend in `waitForSeconds`. -/
def stopsWaiting : List Label :=
  [.backend .enter, .backend .test, .backend .lock] ++ (.stop ::
    ([.notify, .backend .wake] ++ (.backend (.dropBacklog fun _ => 0) ::
      [.backend .write, .backend .recycle, .backend .test, .join])))

theorem stop_flushes_sample :
    Steps step Flushes new (starts ++ stopsWaiting) ∧
      ∃ t, Run step new (starts ++ stopsWaiting) t ∧ t.owner = .stopped ∧
        t.log.output = t.appended := by
  have hrun := run_iff_foldlM.mpr (rfl : (starts ++ stopsWaiting).foldlM step new = .ok _)
  have hsteps : Along step Enabled new (starts ++ stopsWaiting) := by
    refine Steps.append starts_enabled (run_iff_foldlM.mpr rfl) ?_
    refine (steps_cons_ok rfl).mpr ⟨⟨trivial, rfl⟩, ?_⟩
    refine (steps_cons_ok rfl).mpr ⟨⟨trivial, rfl⟩, ?_⟩
    refine (steps_cons_ok rfl).mpr ⟨⟨trivial, rfl⟩, ?_⟩
    refine (steps_cons_ok rfl).mpr ⟨rfl, ?_⟩
    refine (steps_cons_ok rfl).mpr ⟨rfl, ?_⟩
    refine (steps_cons_ok rfl).mpr ⟨⟨trivial, rfl⟩, ?_⟩
    refine (steps_cons_ok rfl).mpr ⟨⟨trivial, rfl⟩, ?_⟩
    refine (steps_cons_ok rfl).mpr ⟨⟨trivial, 0, by decide, rfl⟩, ?_⟩
    refine (steps_cons_ok rfl).mpr ⟨⟨trivial, rfl⟩, ?_⟩
    refine (steps_cons_ok rfl).mpr ⟨⟨trivial, rfl⟩, ?_⟩
    exact ⟨⟨rfl, rfl⟩, fun _ _ => trivial⟩
  have hbounded : Along step Bounded new (starts ++ stopsWaiting) := by
    refine Steps.append (bounded_of_not_mem (by simp [starts])) (run_iff_foldlM.mpr rfl) ?_
    refine Steps.append (bounded_of_not_mem (by simp)) (run_iff_foldlM.mpr rfl) ?_
    refine (steps_cons_ok rfl).mpr ⟨trivial, ?_⟩
    refine Steps.append (bounded_of_not_mem (by simp)) (run_iff_foldlM.mpr rfl) ?_
    have hone : (1 : Nat) ≤ 25 := by decide
    exact (steps_cons_ok rfl).mpr ⟨hone, bounded_of_not_mem (by simp)⟩
  have htime : Along step StopsInTime new (starts ++ stopsWaiting) := by
    refine Steps.append (stopsInTime_of_not_mem (by simp [starts])) (run_iff_foldlM.mpr rfl) ?_
    refine Steps.append (stopsInTime_of_not_mem (by simp)) (run_iff_foldlM.mpr rfl) ?_
    exact (steps_cons_ok rfl).mpr
      ⟨⟨by decide, .inl (.inr rfl)⟩, stopsInTime_of_not_mem (by simp)⟩
  obtain ⟨hflushes, hall⟩ := stop_flushes _ hsteps hbounded
  exact ⟨hflushes htime, _, hrun, rfl, (hall _ hrun rfl).mpr htime⟩

/-- `stop` finds the backend at the head of its loop. -/
def stopsAtHead : List Label := [.backend .enter, .stop, .notify, .backend .test] ++ [.join]

/-- The line is lost; and when `stop` comes before the backend, it fails. -/
theorem stop_loses_line :
    Along step Enabled new (starts ++ stopsAtHead) ∧ Along step Bounded new (starts ++ stopsAtHead) ∧
      (∃ t, Run step new (starts ++ stopsAtHead) t ∧ t.owner = .stopped ∧ t.log.output = [] ∧
        t.appended = [1, 2]) ∧
      ¬ Steps step Flushes new (starts ++ stopsAtHead) ∧
    Along step Enabled new (starts ++ [.stop, .backend .enter]) ∧
      ¬ Steps step Flushes new (starts ++ [.stop, .backend .enter]) := by
  refine ⟨?_, bounded_of_not_mem (by simp [starts, stopsAtHead]),
    ⟨_, run_iff_foldlM.mpr rfl, rfl, rfl, rfl⟩, ?_, ?_, ?_⟩
  · refine Steps.append starts_enabled (run_iff_foldlM.mpr rfl) ?_
    refine (steps_cons_ok rfl).mpr ⟨⟨trivial, rfl⟩, ?_⟩
    refine (steps_cons_ok rfl).mpr ⟨rfl, ?_⟩
    refine (steps_cons_ok rfl).mpr ⟨rfl, ?_⟩
    refine (steps_cons_ok rfl).mpr ⟨⟨trivial, rfl⟩, ?_⟩
    exact ⟨⟨rfl, rfl⟩, fun _ _ => trivial⟩
  · intro h
    have hlast := ((h.right (run_iff_foldlM.mpr rfl)).right (run_iff_foldlM.mpr rfl)).1 rfl
    exact absurd hlast (by decide)
  · refine Steps.append starts_enabled (run_iff_foldlM.mpr rfl) ?_
    refine (steps_cons_ok rfl).mpr ⟨rfl, ?_⟩
    exact ⟨⟨trivial, rfl⟩, fun _ _ => trivial⟩
  · intro h
    have hlast := ((steps_cons_ok rfl).mp (h.right (run_iff_foldlM.mpr rfl))).2.1
    exact hlast rfl

end LogOwner

end Muduo
