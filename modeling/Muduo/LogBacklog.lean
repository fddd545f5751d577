import Muduo.AsyncLogging
import Muduo.Lib.Fifo

/-!
The way of a line through the log: from `currentBuffer_` into `buffers_`, with
them into `bufferToWrite`, and from there to `output`. The buffers come back
empty as `newBuffer1` and `newBuffer2`. In every interleaving the four places
hold, one behind the other, what has been appended.
-/

namespace Muduo

open Lib

namespace AsyncLogging

/-- What is in a list of buffers. -/
def contents (v : List BufferPtr) : List UInt8 :=
  v.flatMap fun
    | some b => b.content
    | none => []

/-- The buffers of `bufferToWrite` that have not been given to `output`. -/
def unwritten (s : AsyncLogging) : List BufferPtr :=
  match s.phase with
  | .writing next => s.bufferToWrite.drop next
  | _ => s.bufferToWrite

/-- What has been appended and not been given to `output`. -/
def backlog (s : AsyncLogging) : List UInt8 :=
  contents s.unwritten ++ contents s.buffers ++ contents [s.currentBuffer]

def Label.logline : Label → List UInt8
  | .append logline => logline
  | _ => []

@[simp] theorem contents_nil : contents [] = [] := rfl

theorem contents_append (v w : List BufferPtr) : contents (v ++ w) = contents v ++ contents w :=
  List.flatMap_append

theorem contents_some (b : FixedBuffer KLargeBuffer) : contents [some b] = b.content :=
  List.append_nil _

theorem isEmptyBuffer_iff {p : BufferPtr} :
    isEmptyBuffer p = true ↔ ∃ b, p = some b ∧ b.length = 0 := by
  cases p <;> simp [isEmptyBuffer]

/-- The locals of `threadFunc`, from the swap to the end of the loop. -/
structure Swapped (newBuffer1 newBuffer2 : BufferPtr) (bufferToWrite : List BufferPtr) : Prop where
  moved : newBuffer1 = none
  present : ∀ p ∈ bufferToWrite, p.isSome = true
  nonempty : bufferToWrite ≠ []
  spare : newBuffer2 = none ∧ 2 ≤ bufferToWrite.length ∨ isEmptyBuffer newBuffer2 = true

/-- The locals of `threadFunc` in its phases. -/
def Locals (s : AsyncLogging) : Prop :=
  match s.phase with
  | .notStarted | .started | .finished => s.bufferToWrite = []
  | .condition | .beforeLock | .waiting =>
    isEmptyBuffer s.newBuffer1 = true ∧ isEmptyBuffer s.newBuffer2 = true ∧ s.bufferToWrite = []
  | .swapped => Swapped s.newBuffer1 s.newBuffer2 s.bufferToWrite
  | .writing next =>
    Swapped s.newBuffer1 s.newBuffer2 s.bufferToWrite ∧ next ≤ s.bufferToWrite.length

/-- No buffer is used before it is empty, and when `nextBuffer_` has been used
up, `buffers_` holds one that can take its place. -/
structure Inv (s : AsyncLogging) : Prop where
  current : s.currentBuffer.isSome = true
  present : ∀ p ∈ s.buffers, p.isSome = true
  next : s.nextBuffer = none ∧ s.buffers ≠ [] ∨ isEmptyBuffer s.nextBuffer = true
  locals : s.Locals

theorem new_inv : new.Inv := ⟨rfl, by simp [new], .inr rfl, rfl⟩

/-! ## What the functions do -/

theorem toInt_eq {len : Nat} (h : len < KLargeBuffer) : toInt len = len := by
  unfold KLargeBuffer at h
  exact Int.bmod_eq_of_le (by omega) (by omega)

/-- `nextBuffer_` is empty, as a new buffer is. -/
theorem Inv.next_or_new {s : AsyncLogging} (h : s.Inv) :
    ∃ n, (if s.nextBuffer.isSome then s.nextBuffer else some .new) = some n ∧ n.length = 0 := by
  rcases h.next with ⟨hnone, -⟩ | hempty
  · exact ⟨.new, by simp [hnone], rfl⟩
  · obtain ⟨n, hn, hzero⟩ := isEmptyBuffer_iff.mp hempty
    exact ⟨n, by simp [hn], hzero⟩

/-- A line goes behind everything else, into the current buffer or a new one. -/
theorem append_spec {s : AsyncLogging} (h : s.Inv) {logline : List UInt8}
    (hlen : logline.length < KLargeBuffer) :
    ∃ s', s.append logline = .ok s' ∧ s'.Inv ∧ s'.output = s.output ∧
      s'.backlog = s.backlog ++ logline := by
  obtain ⟨b, hb⟩ := Option.isSome_iff_exists.mp h.current
  by_cases hfit : (logline.length : Int) < b.avail
  · refine ⟨{ s with currentBuffer := some (b.append logline) }, ?_,
      ⟨rfl, h.present, h.next, h.locals⟩, rfl, ?_⟩
    · simp only [append, hb, deref, pure_eq_ok, ok_bind, toInt_eq hlen, hfit, ↓reduceIte]
    · have hcontent := FixedBuffer.append_content b logline (by omega)
      simp only [backlog, unwritten, hb, contents_some, hcontent, List.append_assoc]
  · obtain ⟨n, hn, hempty⟩ := h.next_or_new
    have hcur : n.cur = 0 := hempty
    refine ⟨{ s with
      buffers := s.buffers ++ [s.currentBuffer]
      nextBuffer := none
      currentBuffer := some (n.append logline) }, ?_, ⟨rfl, ?_, .inl ⟨rfl, by simp⟩, h.locals⟩, rfl, ?_⟩
    · simp only [append, hb, deref, pure_eq_ok, ok_bind, toInt_eq hlen, hfit, ↓reduceIte, hn]
    · intro p hp
      rcases List.mem_append.mp hp with hp | hp
      · exact h.present p hp
      · rw [List.mem_singleton.mp hp]
        exact h.current
    · have hcontent := FixedBuffer.append_content n logline
        (by rw [FixedBuffer.avail, hcur]; exact hlen)
      rw [FixedBuffer.content_eq_nil hempty, List.nil_append] at hcontent
      simp only [backlog, unwritten, contents_append, contents_some, hcontent, List.append_assoc]

/-- The swap moves the lines on, and leaves an empty current buffer. -/
theorem swapBuffers_spec {s : AsyncLogging} (h : s.Inv)
    (hlocals : isEmptyBuffer s.newBuffer1 = true ∧ isEmptyBuffer s.newBuffer2 = true ∧
      s.bufferToWrite = []) (hph : s.phase = .beforeLock ∨ s.phase = .waiting) :
    s.swapBuffers.Inv ∧ s.swapBuffers.output = s.output ∧ s.swapBuffers.backlog = s.backlog := by
  obtain ⟨hfirst, hsecond, hnone⟩ := hlocals
  obtain ⟨b, hb, hempty⟩ := isEmptyBuffer_iff.mp hfirst
  have hpresent : ∀ p ∈ s.buffers ++ [s.currentBuffer], p.isSome = true := by
    intro p hp
    rcases List.mem_append.mp hp with hp | hp
    · exact h.present p hp
    · rw [List.mem_singleton.mp hp]
      exact h.current
  have hunwritten : s.unwritten = [] := by
    rcases hph with hph | hph <;> simp [unwritten, hph, hnone]
  -- a second buffer is given away only if there are two in `buffers_` now
  obtain ⟨nextBuffer, newBuffer2, heq, hnext, hspare⟩ : ∃ nextBuffer newBuffer2,
      s.swapBuffers = { s with
        currentBuffer := some b, nextBuffer, buffers := [], newBuffer1 := none, newBuffer2,
        bufferToWrite := s.buffers ++ [s.currentBuffer], phase := .swapped } ∧
      isEmptyBuffer nextBuffer = true ∧
      (newBuffer2 = none ∧ 2 ≤ (s.buffers ++ [s.currentBuffer]).length ∨
        isEmptyBuffer newBuffer2 = true) := by
    rcases h.next with ⟨hnull, hne⟩ | hnext
    · have hlen : 0 < s.buffers.length := List.length_pos_iff.mpr hne
      refine ⟨s.newBuffer2, none, by simp [swapBuffers, hnull, hnone, hb], hsecond, .inl ⟨rfl, ?_⟩⟩
      simp only [List.length_append, List.length_singleton]
      omega
    · obtain ⟨n, hn, -⟩ := isEmptyBuffer_iff.mp hnext
      exact ⟨s.nextBuffer, s.newBuffer2, by simp [swapBuffers, hn, hnone, hb], hnext, .inr hsecond⟩
  rw [heq]
  refine ⟨⟨rfl, by simp, .inr hnext, rfl, hpresent, by simp, hspare⟩, rfl, ?_⟩
  have hbefore : s.backlog = contents s.buffers ++ contents [s.currentBuffer] := by
    rw [backlog, hunwritten, contents_nil, List.nil_append]
  rw [hbefore]
  simp only [backlog, unwritten, contents_append, contents_nil, contents_some,
    FixedBuffer.content_eq_nil hempty, List.append_nil]

theorem lock_spec {s : AsyncLogging} (h : s.Inv) (hph : s.phase = .beforeLock) :
    s.lock.Inv ∧ s.lock.output = s.output ∧ s.lock.backlog = s.backlog := by
  have hlocals := h.locals
  simp only [Locals, hph] at hlocals
  unfold lock
  split
  · exact ⟨⟨h.current, h.present, h.next, hlocals⟩, rfl, by simp [backlog, unwritten, hph]⟩
  · exact swapBuffers_spec h hlocals (.inl hph)

/-- The assertions at the head of the loop hold. -/
theorem test_spec {s : AsyncLogging} (h : s.Inv) (hph : s.phase = .condition) :
    ∃ s', s.test = .ok s' ∧ s'.Inv ∧ s'.output = s.output ∧ s'.backlog = s.backlog := by
  have hlocals := h.locals
  simp only [Locals, hph] at hlocals
  obtain ⟨hfirst, hsecond, hnone⟩ := hlocals
  unfold test
  split
  · refine ⟨{ s with phase := .beforeLock }, ?_,
      ⟨h.current, h.present, h.next, hfirst, hsecond, hnone⟩, rfl, by simp [backlog, unwritten, hph]⟩
    simp [check_pos, hfirst, hsecond, hnone]
  · exact ⟨{ s with phase := .finished }, rfl, ⟨h.current, h.present, h.next, hnone⟩, rfl,
      by simp [backlog, unwritten, hph]⟩

/-- With at most 25 buffers nothing is dropped. -/
theorem dropBacklog_spec {s : AsyncLogging} (h : s.Inv) (hph : s.phase = .swapped)
    (hlen : s.bufferToWrite.length ≤ 25) (behind : Nat → UInt8) :
    ∃ s', s.dropBacklog behind = .ok s' ∧ s'.Inv ∧ s'.output = s.output ∧
      s'.backlog = s.backlog := by
  have hswapped := h.locals
  simp only [Locals, hph] at hswapped
  refine ⟨{ s with phase := .writing 0 }, ?_,
    ⟨h.current, h.present, h.next, hswapped, Nat.zero_le _⟩, rfl, by simp [backlog, unwritten, hph]⟩
  simp [dropBacklog, check_pos hswapped.nonempty, Nat.not_lt.mpr hlen]

/-- The next buffer goes to the output. -/
theorem write_spec {s : AsyncLogging} (h : s.Inv) {next : Nat} (hph : s.phase = .writing next)
    (hlt : next < s.bufferToWrite.length) :
    ∃ s', s.write next = .ok s' ∧ s'.Inv ∧
      s'.output ++ s'.backlog = s.output ++ s.backlog := by
  have hlocals := h.locals
  simp only [Locals, hph] at hlocals
  obtain ⟨b, hb⟩ := Option.isSome_iff_exists.mp
    (hlocals.1.present _ (List.getElem_mem hlt))
  have hget : s.bufferToWrite[next]? = some (some b) := by
    rw [List.getElem?_eq_getElem hlt, hb]
  have hdrop : s.bufferToWrite.drop next = [some b] ++ s.bufferToWrite.drop (next + 1) := by
    rw [List.drop_eq_getElem_cons hlt, hb, List.singleton_append]
  refine ⟨{ s with output := s.output ++ b.content, phase := .writing (next + 1) }, ?_,
    ⟨h.current, h.present, h.next, hlocals.1, hlt⟩, ?_⟩
  · simp [write, hget, deref]
  · simp only [backlog, unwritten, hph, hdrop, contents_append, contents_some, List.append_assoc]

theorem getLast?_present {v : List BufferPtr} (hne : v ≠ []) (hpresent : ∀ p ∈ v, p.isSome = true) :
    ∃ b, v.getLast? = some (some b) := by
  obtain ⟨b, hb⟩ := Option.isSome_iff_exists.mp (hpresent _ (List.getLast_mem hne))
  exact ⟨b, by rw [List.getLast?_eq_some_getLast hne, hb]⟩

theorem takeBack_spec {v : List BufferPtr} (hne : v ≠ []) (hpresent : ∀ p ∈ v, p.isSome = true) :
    ∃ b : FixedBuffer KLargeBuffer, takeBack none v = .ok (some b.reset, v.dropLast) := by
  obtain ⟨b, hlast⟩ := getLast?_present hne hpresent
  exact ⟨b, by simp [takeBack, hlast, deref]⟩

/-- What `resize` leaves, and the first buffer is taken from. -/
theorem Swapped.kept {newBuffer1 newBuffer2 : BufferPtr} {v : List BufferPtr}
    (h : Swapped newBuffer1 newBuffer2 v) : v.take 2 ≠ [] ∧ ∀ p ∈ v.take 2, p.isSome = true := by
  refine ⟨?_, fun p hp => h.present p (List.mem_of_mem_take hp)⟩
  simp [h.nonempty]

/-- What is left for the second. -/
theorem Swapped.rest {newBuffer1 newBuffer2 : BufferPtr} {v : List BufferPtr}
    (h : Swapped newBuffer1 newBuffer2 v) (hlen : 2 ≤ v.length) :
    (v.take 2).dropLast ≠ [] ∧ ∀ p ∈ (v.take 2).dropLast, p.isSome = true := by
  refine ⟨?_, fun p hp => h.kept.2 p ((List.dropLast_sublist _).subset hp)⟩
  apply List.ne_nil_of_length_pos
  rw [List.length_dropLast, List.length_take]
  omega

/-- Two of the buffers just written, or one, become the new ones. -/
theorem recycle_spec {s : AsyncLogging} (h : s.Inv)
    (hph : s.phase = .writing s.bufferToWrite.length) :
    ∃ s', s.recycle = .ok s' ∧ s'.Inv ∧ s'.output = s.output ∧ s'.backlog = s.backlog := by
  have hlocals := h.locals
  simp only [Locals, hph] at hlocals
  obtain ⟨hswapped, -⟩ := hlocals
  obtain ⟨b₁, hb₁⟩ := takeBack_spec hswapped.kept.1 hswapped.kept.2
  obtain ⟨newBuffer2, v, htake, hempty⟩ : ∃ newBuffer2 v,
      takeBack s.newBuffer2 (s.bufferToWrite.take 2).dropLast = .ok (newBuffer2, v) ∧
        isEmptyBuffer newBuffer2 = true := by
    rcases hswapped.spare with ⟨hnone, hlen⟩ | hempty
    · obtain ⟨b₂, hb₂⟩ := takeBack_spec (hswapped.rest hlen).1 (hswapped.rest hlen).2
      exact ⟨_, _, by rw [hnone, hb₂], rfl⟩
    · obtain ⟨b₂, hb₂, hzero⟩ := isEmptyBuffer_iff.mp hempty
      exact ⟨s.newBuffer2, (s.bufferToWrite.take 2).dropLast, by simp [takeBack, hb₂], hempty⟩
  refine ⟨{ s with newBuffer1 := some b₁.reset, newBuffer2, bufferToWrite := [], phase := .condition },
    ?_, ⟨h.current, h.present, h.next, rfl, hempty, rfl⟩, rfl, ?_⟩
  · simp only [recycle, hswapped.moved, hb₁, htake, ok_bind, pure_eq_ok]
  · simp [backlog, unwritten, hph]

/-! ## Runs -/

/-- Only the assertion that `running_` is set can fail, when `stop` comes before
the thread has started. -/
def Fails (s : AsyncLogging) (a : Label) : Prop := a = .enter ∧ s.running = false

/-- A step moves lines on and appends its own. -/
theorem step_spec {s : AsyncLogging} (h : s.Inv) {a : Label} (ha : s.Enabled a) (hb : s.Bounded a)
    (hok : ¬ s.Fails a) :
    ∃ s', s.step a = .ok s' ∧ s'.Inv ∧ s'.output ++ s'.backlog = s.output ++ s.backlog ++ a.logline := by
  cases a with
  | append logline =>
    obtain ⟨s', hs, hinv, hout, hback⟩ := append_spec h ha
    exact ⟨s', hs, hinv, by rw [hout, hback, List.append_assoc]; rfl⟩
  | start =>
    have hlocals := h.locals
    have hph : s.phase = .notStarted := ha
    simp only [Locals, hph] at hlocals
    exact ⟨_, rfl, ⟨h.current, h.present, h.next, hlocals⟩,
      by simp [backlog, unwritten, hph, Label.logline]⟩
  | stop => exact ⟨_, rfl, ⟨h.current, h.present, h.next, h.locals⟩, (List.append_nil _).symm⟩
  | enter =>
    have hlocals := h.locals
    have hph : s.phase = .started := ha
    simp only [Locals, hph] at hlocals
    have hrunning : s.running = true := by simpa [Fails] using hok
    refine ⟨{ s with newBuffer1 := some .new, newBuffer2 := some .new, phase := .condition }, ?_,
      ⟨h.current, h.present, h.next, rfl, rfl, hlocals⟩,
      by simp [backlog, unwritten, hph, Label.logline]⟩
    simp only [step, enter, check_pos hrunning, ok_bind, pure_eq_ok]
  | test =>
    obtain ⟨s', hs, hinv, hout, hback⟩ := test_spec h ha
    exact ⟨s', hs, hinv, by rw [hout, hback]; exact (List.append_nil _).symm⟩
  | lock =>
    obtain ⟨hinv, hout, hback⟩ := lock_spec h ha
    exact ⟨_, rfl, hinv, by rw [hout, hback]; exact (List.append_nil _).symm⟩
  | wake =>
    have hlocals := h.locals
    have hph : s.phase = .waiting := ha
    simp only [Locals, hph] at hlocals
    obtain ⟨hinv, hout, hback⟩ := swapBuffers_spec h hlocals (.inr hph)
    exact ⟨_, rfl, hinv, by rw [hout, hback]; exact (List.append_nil _).symm⟩
  | dropBacklog behind =>
    obtain ⟨s', hs, hinv, hout, hback⟩ := dropBacklog_spec h ha hb behind
    exact ⟨s', hs, hinv, by rw [hout, hback]; exact (List.append_nil _).symm⟩
  | write =>
    obtain ⟨next, hlt, hph⟩ := ha
    obtain ⟨s', hs, hinv, hall⟩ := write_spec h hph hlt
    exact ⟨s', by simp only [step, hph, hs], hinv, by rw [hall]; exact (List.append_nil _).symm⟩
  | recycle =>
    obtain ⟨s', hs, hinv, hout, hback⟩ := recycle_spec h ha
    exact ⟨s', hs, hinv, by rw [hout, hback]; exact (List.append_nil _).symm⟩

theorem fails_error {s : AsyncLogging} {a : Label} (h : s.Fails a) :
    s.step a = .error .threadFunc := by
  obtain ⟨rfl, hrunning⟩ := h
  simp [step, enter, check_neg, hrunning]

theorem not_fails {s s' : AsyncLogging} {a : Label} (hs : s.step a = .ok s') : ¬ s.Fails a := by
  intro hfails
  cases (fails_error hfails).symm.trans hs

/-- The same of a step that does not fail. -/
theorem step_conserves {s s' : AsyncLogging} (h : s.Inv) {a : Label} (ha : s.Enabled a)
    (hb : s.Bounded a) (hs : s.step a = .ok s') :
    s'.Inv ∧ s'.output ++ s'.backlog = s.output ++ s.backlog ++ a.logline := by
  obtain ⟨s₁, hs₁, hspec⟩ := step_spec h ha hb (not_fails hs)
  cases hs₁.symm.trans hs
  exact hspec

/-- **The log keeps every line.** In every interleaving of `append` in any
threads with the backend, in which no swap finds more than 25 buffers, the bytes
given to `output`, the unwritten buffers of `bufferToWrite`, those of
`buffers_` and the current one are, in this order, the lines appended; and
nothing fails but the start of a thread that `stop` has overtaken. -/
theorem lines_conserved (steps : List Label) (hsteps : Along step Enabled new steps)
    (hbounded : Along step Bounded new steps) :
    (∀ t, Run step new steps t →
      t.output ++ contents t.unwritten ++ contents t.buffers ++ contents [t.currentBuffer] =
        steps.flatMap Label.logline) ∧
    Steps step (fun s a o => ∀ e, o = .error e → s.Fails a) new steps := by
  have hall := hsteps.and hbounded
  constructor
  · intro t hrun
    have hkept := hrun.accumulated (I := Inv) (g := Label.logline) hall new_inv
      (fun _ _ _ h ha hs => (step_conserves h ha.1 ha.2 hs).1)
      (fun _ _ _ h ha hs => (step_conserves h ha.1 ha.2 hs).2)
    have hstart : new.output ++ new.backlog = [] := by
      simp [backlog, unwritten, new, contents_some, FixedBuffer.content_eq_nil FixedBuffer.new_length]
    rw [hstart, List.nil_append] at hkept
    simpa only [backlog, List.append_assoc] using hkept
  · refine Steps.of_invariant (I := Inv) (fun s a h ha => ?_)
      (fun _ _ _ h ha hs => (step_conserves h ha.1 ha.2 hs).1) new_inv hall
    intro e he
    by_contra hok
    obtain ⟨s', hs, -⟩ := step_spec h ha.1 ha.2 hok
    cases hs.symm.trans he

/-- A line comes before the swap and one behind it. -/
theorem lines_conserved_sample :
    let steps : List Label := [.start, .append [1, 2], .enter, .test, .lock, .append [3], .wake,
      .append [4], .dropBacklog fun _ => 0, .write, .append [5, 6], .recycle]
    (∀ t, Run step new steps t →
      t.output ++ contents t.unwritten ++ contents t.buffers ++ contents [t.currentBuffer] =
        steps.flatMap Label.logline) ∧
    Steps step (fun s a o => ∀ e, o = .error e → s.Fails a) new steps := by
  refine lines_conserved _ ?_ ?_
  · decide
  · decide

end AsyncLogging

end Muduo
