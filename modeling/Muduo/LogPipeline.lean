import Muduo.LogNotices
import Muduo.LogRolling
import Muduo.LogStop

/-!
The way of a line to the disk: `AsyncLogging` with the `LogFile` that its backend
thread constructs, appends to and flushes. The threads that log, the backend and
the rolling of the files are one system here; every call of `output` brings its
own readings of the clock and its own choice of stdio.

* `outputCalls`: what a step of the backend does with `output`;
* `log_on_disk_iff`: no byte is lost between `append` and the files exactly when
  no roll replaces a file with bytes in its buffer, and behind each round of the
  backend what it has swapped is in the files.
-/

namespace Muduo

open Lib

/-- What the clock and stdio say in one call of `output`. -/
structure OutputChoice where
  left : Nat
  now : Time
  rollNow : Time
  deriving DecidableEq, Repr

structure LogPipeline where
  log : AsyncLogging
  /-- the local of `threadFunc` -/
  output : LogState

namespace LogPipeline

/-- `flushInterval` and `checkEveryN` of the constructor of `LogFile`. -/
def flushInterval : Int := 3
def checkEveryN : Int := 1024

/-- Before the thread runs there is no file. -/
def new (rollSize : Int) : LogPipeline :=
  ⟨.new, .start rollSize flushInterval checkEveryN 0⟩

/-- The calls of `output` in a step of the backend. -/
def outputCalls (s : AsyncLogging) (c : OutputChoice) : AsyncLogging.Label → List LogStep
  | .dropBacklog behind =>
    if 25 < s.bufferToWrite.length then
      [.append (AsyncLogging.dropNotice behind) c.left c.now c.rollNow]
    else []
  | .write =>
    match s.phase with
    | .writing next =>
      [.append (AsyncLogging.contents [s.bufferToWrite[next]?.join]) c.left c.now c.rollNow]
    | _ => []
  | .recycle => [.flush]
  -- behind the loop
  | .test => if s.running then [] else [.flush]
  | _ => []

abbrev Label := AsyncLogging.Label × OutputChoice

def step (rollSize : Int) (s : LogPipeline) (a : Label) : Checked LogPipeline := do
  let log ← s.log.step a.1
  match a.1 with
  | .enter => return ⟨log, .start rollSize flushInterval checkEveryN a.2.now⟩
  | l =>
    let output ← (outputCalls s.log a.2 l).foldlM LogState.step s.output
    return ⟨log, output⟩

/-- Lines are short, the backend is bounded and stdio keeps to its rules. -/
structure Enabled (s : LogPipeline) (a : Label) : Prop where
  log : s.log.Enabled a.1
  bounded : s.log.Bounded a.1
  stdio : ∀ call ∈ outputCalls s.log a.2 a.1, s.output.Allowed call

instance (s : LogPipeline) (a : Label) : Decidable (s.Enabled a) :=
  decidable_of_iff (s.log.Enabled a.1 ∧ s.log.Bounded a.1 ∧
      ∀ call ∈ outputCalls s.log a.2 a.1, s.output.Allowed call)
    ⟨fun h => ⟨h.1, h.2.1, h.2.2⟩, fun h => ⟨h.log, h.bounded, h.stdio⟩⟩

/-- The file is there when it is used, and is not replaced with bytes in its
buffer. -/
def Empties (s : LogPipeline) (a : Label) : Prop :=
  ∀ call ∈ outputCalls s.log a.2 a.1, s.output.Empties call

/-! ## What a step hands on -/

theorem outputCalls_short (s : AsyncLogging) (c : OutputChoice) (a : AsyncLogging.Label) :
    outputCalls s c a = [] ∨ ∃ call, outputCalls s c a = [call] := by
  cases a with
  | dropBacklog behind =>
    simp only [outputCalls]
    split
    · exact .inr ⟨_, rfl⟩
    · exact .inl rfl
  | write =>
    simp only [outputCalls]
    split
    · exact .inr ⟨_, rfl⟩
    · exact .inl rfl
  | recycle => exact .inr ⟨_, rfl⟩
  | test =>
    simp only [outputCalls]
    split
    · exact .inl rfl
    · exact .inr ⟨_, rfl⟩
  | _ => exact .inl rfl

/-- The backend counts as output what it gives to `output`. -/
theorem output_step {s s' : AsyncLogging} {a : AsyncLogging.Label} (c : OutputChoice)
    (hs : s.step a = .ok s') :
    s'.output = s.output ++ (outputCalls s c a).flatMap LogState.LogStep.logline := by
  have hswap : s.swapBuffers.output = s.output := by
    unfold AsyncLogging.swapBuffers
    dsimp only
    split <;> rfl
  cases a with
  | append logline =>
    obtain ⟨current, -, hs⟩ := bind_eq_ok.mp hs
    split at hs
    · cases hs
      exact (List.append_nil _).symm
    · obtain ⟨next, -, hs⟩ := bind_eq_ok.mp hs
      cases hs
      exact (List.append_nil _).symm
  | start | stop =>
    cases hs
    exact (List.append_nil _).symm
  | enter =>
    obtain ⟨u, -, hs⟩ := bind_eq_ok.mp hs
    cases hs
    exact (List.append_nil _).symm
  | test =>
    simp only [AsyncLogging.step, AsyncLogging.test] at hs
    split at hs
    · rename_i hrunning
      obtain ⟨-, -, hs⟩ := bind_eq_ok.mp hs
      obtain ⟨-, -, hs⟩ := bind_eq_ok.mp hs
      obtain ⟨-, -, hs⟩ := bind_eq_ok.mp hs
      cases hs
      simp [outputCalls, hrunning]
    · rename_i hrunning
      cases hs
      simp [outputCalls, hrunning, LogState.LogStep.logline]
  | lock =>
    cases hs
    unfold AsyncLogging.lock
    split
    · exact (List.append_nil _).symm
    · exact hswap.trans (List.append_nil _).symm
  | wake =>
    cases hs
    exact hswap.trans (List.append_nil _).symm
  | dropBacklog behind =>
    obtain ⟨u, -, hs⟩ := bind_eq_ok.mp hs
    split at hs <;> rename_i hlen <;> cases hs <;>
      simp [outputCalls, hlen, LogState.LogStep.logline]
  | write =>
    cases hph : s.phase with
    | writing next =>
      simp only [AsyncLogging.step, hph] at hs
      obtain ⟨buffer, hderef, hs⟩ := bind_eq_ok.mp hs
      cases hs
      have hbuffer := AsyncLogging.deref_eq_ok.mp hderef
      simp [outputCalls, hph, LogState.LogStep.logline, hbuffer, AsyncLogging.contents_some]
    | _ =>
      simp only [AsyncLogging.step, hph, pure_eq_ok, Except.ok.injEq] at hs
      simp [outputCalls, hph, ← hs]
  | recycle =>
    obtain ⟨⟨newBuffer1, v⟩, -, hs⟩ := bind_eq_ok.mp hs
    obtain ⟨⟨newBuffer2, w⟩, -, hs⟩ := bind_eq_ok.mp hs
    cases hs
    exact (List.append_nil _).symm

/-- What the calls of one step do to the files. -/
theorem calls_spec {o o' : LogState} {calls : List LogStep}
    (hshort : calls = [] ∨ ∃ call, calls = [call]) (hallowed : ∀ call ∈ calls, o.Allowed call)
    (h : o.Inv) (ho : calls.foldlM LogState.step o = .ok o') :
    o'.Inv ∧ o'.appended = o.appended ++ calls.flatMap LogState.LogStep.logline ∧
      (o'.log.kept = o'.appended ↔
        o.log.kept = o.appended ∧ ∀ call ∈ calls, o.Empties call) := by
  rcases hshort with rfl | ⟨call, rfl⟩
  · cases ho
    simpa using h
  · have hcall : o.Allowed call := hallowed call (List.mem_singleton_self _)
    obtain ⟨o₁, hone, hpure⟩ := bind_eq_ok.mp ho
    cases hpure
    obtain ⟨lost, -, happ, -⟩ := LogState.of_step hcall hone
    refine ⟨h.step hcall hone, by simpa using happ, ?_⟩
    simpa using LogState.kept_eq_iff h hcall hone

/-- Behind a flush nothing waits in the stream. -/
theorem flush_unflushed {o o' : LogState} (ho : o.step .flush = .ok o') :
    o'.log.unflushed = [] := by
  obtain ⟨log, hlog, ho⟩ := bind_eq_ok.mp ho
  cases ho
  obtain ⟨f, -, hlog⟩ := bind_eq_ok.mp hlog
  cases hlog
  rfl

/-! ## Between the rounds -/

/-- The files have what the backend has counted, or have lost some of it, and
the buffer of the stream is used while the backend writes. -/
structure Inv (s : LogPipeline) : Prop where
  log : s.log.Inv
  output : s.output.Inv
  same : s.output.appended = s.log.output
  early : s.log.phase = .notStarted ∨ s.log.phase = .started →
    s.output.appended = [] ∧ s.output.log.kept = []
  flushed : (∀ next, s.log.phase ≠ .writing next) → s.output.log.unflushed = []

theorem new_lines (rollSize : Int) :
    (new rollSize).log.output ++ (new rollSize).log.backlog = [] := by
  simp [new, AsyncLogging.backlog, AsyncLogging.unwritten, AsyncLogging.new,
    AsyncLogging.contents_some, FixedBuffer.content_eq_nil FixedBuffer.new_length]

theorem start_unflushed (rollSize : Int) (now : Time) :
    (LogState.start rollSize flushInterval checkEveryN now).log.unflushed = [] := by
  simp only [LogState.start, LogFile.new, LogFile.rollFile]
  split <;> rfl

theorem new_inv (rollSize : Int) : (new rollSize).Inv where
  log := AsyncLogging.new_inv
  output := by
    rw [LogState.Inv, new, LogState.start_kept]
    exact Nat.zero_le _
  same := rfl
  early _ := ⟨rfl, LogState.start_kept ..⟩
  flushed _ := start_unflushed ..

/-- `output` is not used before the thread runs, and behind the loop over the
buffers it is flushed. -/
theorem phase_step {s s' : AsyncLogging} {a : AsyncLogging.Label} (ha : s.Enabled a)
    (hs : s.step a = .ok s') (c : OutputChoice) :
    (s'.phase = .notStarted ∨ s'.phase = .started →
      (s.phase = .notStarted ∨ s.phase = .started) ∧ outputCalls s c a = []) ∧
    ((∀ next, s'.phase ≠ .writing next) →
      (∀ next, s.phase ≠ .writing next) ∧ outputCalls s c a = [] ∨
        outputCalls s c a = [.flush]) := by
  cases a with
  | append logline => simp [outputCalls, (AsyncLogging.append_same hs).1]
  | start =>
    have hph : s.phase = .notStarted := ha
    simp [outputCalls, hph]
  | stop =>
    cases hs
    simp [outputCalls]
  | enter =>
    have hph : s.phase = .started := ha
    simp [outputCalls, hph]
  | test =>
    have hph : s.phase = .condition := ha
    have hnext : s'.phase = .beforeLock ∨ s'.phase = .finished := by
      simp only [AsyncLogging.step, AsyncLogging.test] at hs
      split at hs
      · obtain ⟨-, -, hs⟩ := bind_eq_ok.mp hs
        obtain ⟨-, -, hs⟩ := bind_eq_ok.mp hs
        obtain ⟨-, -, hs⟩ := bind_eq_ok.mp hs
        cases hs
        exact .inl rfl
      · cases hs
        exact .inr rfl
    refine ⟨?_, fun _ => ?_⟩
    · rcases hnext with hnext | hnext <;> simp [hnext]
    · cases hrunning : s.running <;> simp [outputCalls, hrunning, hph]
  | lock =>
    have hph : s.phase = .beforeLock := ha
    cases hs
    have hnext : s.lock.phase = .waiting ∨ s.lock.phase = .swapped := by
      unfold AsyncLogging.lock
      split
      · exact .inl rfl
      · exact .inr s.swapBuffers_phase
    rcases hnext with hnext | hnext <;> simp [outputCalls, hph, hnext]
  | wake =>
    have hph : s.phase = .waiting := ha
    cases hs
    simp [outputCalls, hph, s.swapBuffers_phase]
  | dropBacklog behind =>
    obtain ⟨u, -, hs⟩ := bind_eq_ok.mp hs
    split at hs <;> cases hs <;> simp
  | write =>
    obtain ⟨next, -, hph⟩ := ha
    simp only [AsyncLogging.step, hph] at hs
    obtain ⟨buffer, -, hs⟩ := bind_eq_ok.mp hs
    cases hs
    simp
  | recycle => simp [outputCalls, (AsyncLogging.recycle_held hs).2]

/-- A step keeps this, and keeps what was kept if no call loses anything. -/
theorem Inv.step {rollSize : Int} {s s' : LogPipeline} (h : s.Inv) {a : Label} (ha : s.Enabled a)
    (hs : s.step rollSize a = .ok s') :
    s'.Inv ∧ s'.log.output ++ s'.log.backlog = s.log.output ++ s.log.backlog ++ a.1.logline ∧
      (s'.output.log.kept = s'.output.appended ↔
        s.output.log.kept = s.output.appended ∧ s.Empties a) := by
  obtain ⟨l, c⟩ := a
  obtain ⟨log, hlog, hs⟩ := bind_eq_ok.mp hs
  obtain ⟨hinv, hlines⟩ := AsyncLogging.step_conserves h.log ha.log ha.bounded hlog
  have hout := output_step c hlog
  obtain ⟨hearly, hflushed⟩ := phase_step ha.log hlog c
  by_cases hl : l = .enter
  · subst hl
    cases hs
    have hph : s.log.phase = .started := ha.log
    obtain ⟨happ, hkept⟩ := h.early (.inr hph)
    have hnone : log.output = [] := by
      rw [hout, ← h.same, happ]
      rfl
    refine ⟨⟨hinv, ?_, hnone.symm, fun _ => ⟨rfl, LogState.start_kept ..⟩,
      fun _ => start_unflushed ..⟩, hlines, ?_⟩
    · rw [LogState.Inv, LogState.start_kept]
      exact Nat.zero_le _
    · rw [happ, hkept]
      exact iff_of_true (LogState.start_kept ..) ⟨rfl, by simp [Empties, outputCalls]⟩
  · have hs : (do
        let output ← (outputCalls s.log c l).foldlM LogState.step s.output
        return (⟨log, output⟩ : LogPipeline)) = .ok s' := by
      cases l with
      | enter => exact absurd rfl hl
      | _ => exact hs
    obtain ⟨output, hcalls, hs⟩ := bind_eq_ok.mp hs
    cases hs
    obtain ⟨ho, happ, hkept⟩ := calls_spec (outputCalls_short ..) ha.stdio h.output hcalls
    refine ⟨⟨hinv, ho, ?_, fun hph => ?_, fun hph => ?_⟩, hlines, hkept⟩
    · rw [happ, hout, h.same]
    · obtain ⟨hbefore, hnone⟩ := hearly hph
      rw [hnone] at hcalls
      cases hcalls
      exact h.early hbefore
    · rcases hflushed hph with ⟨hbefore, hnone⟩ | hflush
      · rw [hnone] at hcalls
        cases hcalls
        exact h.flushed hbefore
      · rw [hflush] at hcalls
        obtain ⟨o, ho, hpure⟩ := bind_eq_ok.mp hcalls
        cases hpure
        exact flush_unflushed ho

/-! ## The runs -/

section Runs

variable {rollSize : Int} {steps : List Label} {t : LogPipeline}
  (hsteps : Along (step rollSize) Enabled (new rollSize) steps)
  (hrun : Run (step rollSize) (new rollSize) steps t)

include hsteps hrun

theorem reachable_inv : t.Inv :=
  hrun.invariant hsteps (new_inv rollSize) fun _ _ _ h ha hs => (h.step ha hs).1

/-- The lines appended are given to `output` or in the buffers of the log. -/
theorem run_lines : t.log.output ++ t.log.backlog = steps.flatMap (fun a => a.1.logline) := by
  have hlines : t.log.output ++ t.log.backlog =
      ((new rollSize).log.output ++ (new rollSize).log.backlog) ++
        steps.flatMap (fun a => a.1.logline) :=
    hrun.accumulated (I := Inv) hsteps (new_inv rollSize)
      (fun _ _ _ h ha hs => (h.step ha hs).1) (fun _ _ _ h ha hs => (h.step ha hs).2.1)
  rw [hlines, new_lines, List.nil_append]

theorem run_kept_iff : t.output.log.kept = t.output.appended ↔
    Along (step rollSize) Empties (new rollSize) steps := by
  have hkept := hrun.holds_iff (I := Inv) (J := fun s => s.output.log.kept = s.output.appended)
    hsteps (new_inv rollSize) (fun _ _ _ h ha hs => (h.step ha hs).1)
    (fun _ _ _ h ha hs => (h.step ha hs).2.2)
  exact hkept.trans (and_iff_right (LogState.start_kept ..))

end Runs

/-- **From `append` to the disk.** In every interleaving in which no swap finds
more than 25 buffers, for any clock and any choices of stdio: the files in the
order of opening, the buffer of the stream and the buffers of the log hold, one
behind the other, the lines appended if and only if no roll replaces a file with
bytes in its buffer; and when the backend is not at its loop over the buffers,
nothing is in the buffer of the stream. -/
theorem log_on_disk_iff (rollSize : Int) (steps : List Label)
    (hsteps : Along (step rollSize) Enabled (new rollSize) steps) (t : LogPipeline)
    (hrun : Run (step rollSize) (new rollSize) steps t) :
    (t.output.log.contents ++ t.output.log.unflushed ++ t.log.backlog =
        steps.flatMap (fun a => a.1.logline) ↔
      Along (step rollSize) Empties (new rollSize) steps) ∧
    ((∀ next, t.log.phase ≠ .writing next) → t.output.log.unflushed = []) := by
  refine ⟨?_, (reachable_inv hsteps hrun).flushed⟩
  rw [← run_lines hsteps hrun, List.append_left_inj, ← (reachable_inv hsteps hrun).same]
  exact run_kept_iff hsteps hrun

/-- Two lines and one round of the backend. -/
def oneRound : List Label :=
  [.start, .append [1, 2], .enter, .test, .lock, .append [3], .wake, .dropBacklog fun _ => 0,
    .write, .recycle].map fun a => (a, ⟨3, 1000, 1000⟩)

theorem log_on_disk_oneRound :
    ∃ t, Run (step 7000) (new 7000) oneRound t ∧
      (t.output.log.contents ++ t.output.log.unflushed ++ t.log.backlog =
          oneRound.flatMap (fun a => a.1.logline) ↔
        Along (step 7000) Empties (new 7000) oneRound) ∧
      ((∀ next, t.log.phase ≠ .writing next) → t.output.log.unflushed = []) := by
  obtain ⟨t, hrun⟩ : ∃ t, Run (step 7000) (new 7000) oneRound t :=
    ⟨_, .cons rfl (.cons rfl (.cons rfl (.cons rfl (.cons rfl (.cons rfl (.cons rfl (.cons rfl
      (.cons rfl (.cons rfl (.nil _))))))))))⟩
  exact ⟨t, hrun, log_on_disk_iff 7000 oneRound (by decide) t hrun⟩

end LogPipeline

end Muduo
