import Muduo.LogNotices

/-!
The buffers of the log go around: from `currentBuffer_` to `buffers_`, to
`bufferToWrite`, and back as the spare ones. The two critical sections are taken
apart into their statements, the moments at which a pointer has been moved and
the next one has not.

* `append_eq`, `swapBuffers_eq_refillNext`: the statements make up the functions;
* `moments_guarded`: what holds inside the critical sections;
* `buffers_recycled`: no pointer is null and no vector empty where they must not
  be, in every run.
-/

namespace Muduo

open Lib

namespace AsyncLogging

/-! ## The critical sections, statement by statement -/

/-- `buffers_.push_back(std::move(currentBuffer_))` -/
def pushCurrent (s : AsyncLogging) : AsyncLogging :=
  { s with buffers := s.buffers ++ [s.currentBuffer], currentBuffer := none }

/-- In `append`: `nextBuffer_` or a new buffer takes the place. -/
def takeNext (s : AsyncLogging) : AsyncLogging :=
  { s with
    currentBuffer := if s.nextBuffer.isSome then s.nextBuffer else some .new
    nextBuffer := none }

/-- `currentBuffer_ = std::move(newBuffer1)` -/
def takeFirst (s : AsyncLogging) : AsyncLogging :=
  { s with currentBuffer := s.newBuffer1, newBuffer1 := none }

/-- `bufferToWrite.swap(buffers_)` -/
def swapVectors (s : AsyncLogging) : AsyncLogging :=
  { s with bufferToWrite := s.buffers, buffers := s.bufferToWrite }

/-- `if (!nextBuffer_) nextBuffer_ = std::move(newBuffer2)`, and the end of the
critical section. -/
def refillNext (s : AsyncLogging) : AsyncLogging :=
  let s := { s with phase := .swapped }
  if s.nextBuffer.isNone then { s with nextBuffer := s.newBuffer2, newBuffer2 := none } else s

/-- Behind the swap, with the last statement to come. -/
def justSwapped (s : AsyncLogging) : AsyncLogging := s.pushCurrent.takeFirst.swapVectors

/-- The moments inside the critical section of a step. -/
def moments (s : AsyncLogging) : Label → List AsyncLogging
  | .append logline =>
    if s.currentBuffer.any fun b => toInt logline.length < b.avail then [s]
    else [s, s.pushCurrent, s.pushCurrent.takeNext]
  | .lock =>
    if s.buffers.isEmpty then [s]
    else [s, s.pushCurrent, s.pushCurrent.takeFirst, s.justSwapped, s.justSwapped.refillNext]
  | .wake => [s, s.pushCurrent, s.pushCurrent.takeFirst, s.justSwapped, s.justSwapped.refillNext]
  | _ => []

theorem swapBuffers_eq_refillNext (s : AsyncLogging) : s.swapBuffers = s.justSwapped.refillNext :=
  rfl

/-- A line that finds no room goes into the buffer that `takeNext` provides. -/
theorem append_eq {s : AsyncLogging} {b : FixedBuffer KLargeBuffer} (hb : s.currentBuffer = some b)
    {logline : Line} (hfull : ¬ toInt logline.length < b.avail) :
    s.append logline = do
      let current ← deref s.pushCurrent.takeNext.currentBuffer
      return { s.pushCurrent.takeNext with currentBuffer := some (current.append logline) } := by
  unfold append
  rw [hb, deref, pure_eq_ok, ok_bind, if_neg hfull, ← hb]
  rfl

/-! ## What holds -/

/-- When there is no next buffer, `buffers_` holds one that will take its place. -/
def Guarded (s : AsyncLogging) : Prop := s.nextBuffer = none → s.buffers ≠ []

/-- The mutex is free. -/
structure Released (s : AsyncLogging) : Prop where
  current : s.currentBuffer.isSome = true
  guarded : s.Guarded
  /-- at the head of the loop -/
  head : s.phase = .condition →
    isEmptyBuffer s.newBuffer1 = true ∧ isEmptyBuffer s.newBuffer2 = true ∧ s.bufferToWrite = []

/-- `back()` is called on a vector that has one, and it is not null. -/
def Available (v : List BufferPtr) : Prop := ∃ b, v.getLast? = some (some b)

/-- What the two steps behind `resize` find. -/
structure Replenishes (s : AsyncLogging) : Prop where
  first : s.newBuffer1 = none → Available (s.bufferToWrite.take 2)
  second : s.newBuffer2 = none → Available
    (if s.newBuffer1.isNone then (s.bufferToWrite.take 2).dropLast else s.bufferToWrite.take 2)

/-- A step keeps to the rules. -/
structure Recycles (s : AsyncLogging) (a : Label) (o : Checked AsyncLogging) : Prop where
  released : ∀ s', o = .ok s' → s'.Released
  /-- or the swap has just been made, and the step ends with a next buffer -/
  moments : ∀ m ∈ s.moments a, m.Guarded ∨
    m = s.justSwapped ∧ o = .ok m.refillNext ∧ m.refillNext.nextBuffer.isSome = true
  replenishes : a = .recycle → s.Replenishes
  /-- of the assertions only the one about `running_` can fail -/
  fails : ∀ e, o = .error e → s.Fails a

theorem Inv.guarded {s : AsyncLogging} (h : s.Inv) : s.Guarded := by
  intro hnone
  rcases h.next with ⟨-, hne⟩ | hempty
  · exact hne
  · rw [hnone] at hempty
    cases hempty

theorem Inv.released {s : AsyncLogging} (h : s.Inv) : s.Released := by
  refine ⟨h.current, h.guarded, fun hph => ?_⟩
  have hlocals := h.locals
  simp only [Locals, hph] at hlocals
  exact hlocals

/-- There are two buffers to take where both are needed. -/
theorem Inv.replenishes {s : AsyncLogging} (h : s.Inv)
    (hph : s.phase = .writing s.bufferToWrite.length) : s.Replenishes := by
  have hlocals := h.locals
  simp only [Locals, hph] at hlocals
  obtain ⟨hswapped, -⟩ := hlocals
  constructor
  · intro _
    exact getLast?_present hswapped.kept.1 hswapped.kept.2
  · intro hnone
    rcases hswapped.spare with ⟨-, hlen⟩ | hempty
    · rw [hswapped.moved, Option.isNone_none, if_pos rfl]
      exact getLast?_present (hswapped.rest hlen).1 (hswapped.rest hlen).2
    · rw [hnone] at hempty
      cases hempty

theorem pushCurrent_buffers (s : AsyncLogging) : s.pushCurrent.buffers ≠ [] :=
  List.append_ne_nil_of_right_ne_nil _ (List.cons_ne_nil _ _)

theorem refillNext_isSome {s : AsyncLogging} (h : s.newBuffer2.isSome = true) :
    s.refillNext.nextBuffer.isSome = true := by
  unfold refillNext
  dsimp only
  split
  · exact h
  · rename_i hsome
    exact Option.isSome_iff_ne_none.mpr fun hnone => hsome (Option.isNone_iff_eq_none.mpr hnone)

/-- The moments of the backend's critical section. -/
theorem swap_guarded {s : AsyncLogging} (h : s.Inv) (hsecond : isEmptyBuffer s.newBuffer2 = true)
    {m : AsyncLogging}
    (hm : m ∈
      [s, s.pushCurrent, s.pushCurrent.takeFirst, s.justSwapped, s.justSwapped.refillNext]) :
    m.Guarded ∨ m = s.justSwapped ∧ m.refillNext.nextBuffer.isSome = true := by
  have hnext : s.justSwapped.refillNext.nextBuffer.isSome = true := by
    obtain ⟨b, hb, -⟩ := isEmptyBuffer_iff.mp hsecond
    exact refillNext_isSome (s := s.justSwapped) (Option.isSome_iff_exists.mpr ⟨b, hb⟩)
  simp only [List.mem_cons, List.not_mem_nil, or_false] at hm
  rcases hm with rfl | rfl | rfl | rfl | rfl
  · exact .inl h.guarded
  · exact .inl fun _ => pushCurrent_buffers s
  · exact .inl fun _ => pushCurrent_buffers s
  · exact .inr ⟨rfl, hnext⟩
  · refine .inl fun hnone => ?_
    rw [hnone] at hnext
    cases hnext

theorem moments_guarded {s : AsyncLogging} (h : s.Inv) {a : Label} (ha : s.Possible a)
    {m : AsyncLogging} (hm : m ∈ s.moments a) :
    m.Guarded ∨ m = s.justSwapped ∧ s.step a = .ok m.refillNext ∧
      m.refillNext.nextBuffer.isSome = true := by
  have hlocals := h.locals
  cases a with
  | append logline =>
    refine .inl ?_
    by_cases hfit : (s.currentBuffer.any fun b => toInt logline.length < b.avail) = true
    · rw [moments, if_pos hfit, List.mem_singleton] at hm
      exact hm ▸ h.guarded
    · rw [moments, if_neg hfit] at hm
      simp only [List.mem_cons, List.not_mem_nil, or_false] at hm
      rcases hm with rfl | rfl | rfl
      · exact h.guarded
      · exact fun _ => pushCurrent_buffers s
      · exact fun _ => pushCurrent_buffers s
  | lock =>
    have hph : s.phase = .beforeLock := ha
    simp only [Locals, hph] at hlocals
    by_cases hnone : s.buffers.isEmpty = true
    · rw [moments, if_pos hnone, List.mem_singleton] at hm
      exact .inl (hm ▸ h.guarded)
    · rw [moments, if_neg hnone] at hm
      refine (swap_guarded h hlocals.2.1 hm).imp_right ?_
      rintro ⟨rfl, hnext⟩
      refine ⟨rfl, ?_, hnext⟩
      rw [step, lock, if_neg hnone]
      rfl
  | wake =>
    have hph : s.phase = .waiting := ha
    simp only [Locals, hph] at hlocals
    refine (swap_guarded h hlocals.2.1 hm).imp_right ?_
    rintro ⟨rfl, hnext⟩
    exact ⟨rfl, rfl, hnext⟩
  | _ => cases hm

theorem step_recycles {s : AsyncLogging} (h : s.Inv) {a : Label} (ha : s.Possible a) :
    Recycles s a (s.step a) where
  released := fun _ hs => (h.possible_ok ha hs).released
  moments := fun _ hm => moments_guarded h ha hm
  replenishes := by
    rintro rfl
    exact h.replenishes ha
  fails := fun _ he => h.possible_error ha he

/-- **The buffers are recycled safely.** In every interleaving of `append` in any
threads, with lines of any length, with the backend, and however many buffers a
swap finds. -/
theorem buffers_recycled (steps : List Label) (hsteps : Along step Possible new steps) :
    new.Released ∧ Steps step Recycles new steps := by
  refine ⟨new_inv.released, ?_⟩
  exact Steps.of_invariant (I := Inv) (fun s a h ha => step_recycles h ha)
    (fun s a s' h ha hs => h.possible_ok ha hs) new_inv hsteps

/-- A swap after a wait, with a buffer that has to be replaced. -/
theorem buffers_recycled_once :
    new.Released ∧ Steps step Recycles new
      [.start, .append [1], .enter, .test, .lock, .append [2], .wake, .dropBacklog fun _ => 0,
       .write, .recycle, .test, .stop] :=
  buffers_recycled _ (by decide)

end AsyncLogging

end Muduo
