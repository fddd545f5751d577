import Mathlib.Data.List.Flatten
import Muduo.LogBacklog

/-!
What `threadFunc` gives to `LogFile::append`, with lines of any length and swaps
that find any number of buffers. A buffer holds whole lines, so that the log is
made of whole lines, and of the notices that stand for buffers dropped.

The notice is ten bytes long with its null byte, and the call that writes it
says twenty.

* `laid_step`: how lines move on, whatever is dropped;
* `clean_iff`: a run reads only its own bytes, and logs only lines and complete
  notices, exactly if no swap finds more than 25 buffers.
-/

namespace Muduo

open Lib

namespace AsyncLogging

abbrev Line := List UInt8

/-- A part of the log. -/
inductive Entry where
  | line (l : Line)
  | notice (text : List UInt8)
  deriving DecidableEq, Repr

def Entry.bytes : Entry → List UInt8
  | .line l => l
  | .notice text => text

def Entry.lines : Entry → List Line
  | .line l => [l]
  | .notice _ => []

/-- Where the lines are: in the log, and in the buffers, one by one. -/
structure Places where
  written : List Entry
  unwritten : List (List Line)
  buffers : List (List Line)
  current : List Line

def Places.lines (p : Places) : List Line :=
  p.written.flatMap Entry.lines ++ p.unwritten.flatten ++ p.buffers.flatten ++ p.current

/-- What is in each of the buffers. -/
def pieces (v : List BufferPtr) : List (List UInt8) := v.map fun p => contents [p]

/-- The log and the buffers hold these lines, and nothing else but notices. -/
structure Laid (s : AsyncLogging) (p : Places) : Prop where
  written : s.output = p.written.flatMap Entry.bytes
  unwritten : pieces s.unwritten = p.unwritten.map List.flatten
  buffers : pieces s.buffers = p.buffers.map List.flatten
  current : contents [s.currentBuffer] = p.current.flatten

/-- A line may be of any length. -/
def Possible (s : AsyncLogging) : Label → Prop
  | .append _ => True
  | a => s.Enabled a

/-- The swap has found more than 25 buffers. -/
def Overloads (s : AsyncLogging) : Label → Prop
  | .dropBacklog _ => 25 < s.bufferToWrite.length
  | _ => False

def Label.lines : Label → List Line
  | .append logline => [logline]
  | _ => []

instance (s : AsyncLogging) (a : Label) : Decidable (s.Possible a) :=
  decidable_of_iff (a.lines ≠ [] ∨ s.Enabled a) (by cases a <;> simp [Possible, Label.lines])

theorem deref_eq_ok {p : BufferPtr} {b : FixedBuffer KLargeBuffer} :
    deref p = .ok b ↔ p = some b := by
  cases p <;> simp [deref]

/-- The buffer at the iterator. -/
theorem getElem_of_deref {v : List BufferPtr} {next : Nat} (hlt : next < v.length)
    {b : FixedBuffer KLargeBuffer} (hb : deref v[next]?.join = .ok b) : v[next] = some b := by
  rw [deref_eq_ok, List.getElem?_eq_getElem hlt] at hb
  exact hb

theorem pieces_append (v w : List BufferPtr) : pieces (v ++ w) = pieces v ++ pieces w :=
  List.map_append

theorem pieces_take (v : List BufferPtr) (n : Nat) : pieces (v.take n) = (pieces v).take n :=
  List.map_take ..

/-! ## Steps that can be taken -/

/-- What becomes of a line: it is kept, or too long for the buffer. -/
theorem keep_or_drop {SIZE : Nat} (b : FixedBuffer SIZE) (logline : Line) :
    (b.append logline).content = b.content ++ logline ∨
      b.avail ≤ logline.length ∧ b.append logline = b := by
  by_cases h : logline.length < b.avail
  · exact .inl (FixedBuffer.append_content b logline h)
  · exact .inr ⟨Nat.le_of_not_lt h, by simp [FixedBuffer.append, h]⟩

/-- What `append` does, with the content of the current buffer behind it. -/
inductive Appends (s : AsyncLogging) (logline : Line) : AsyncLogging → Prop
  | stays (b b' : FixedBuffer KLargeBuffer) (hb : s.currentBuffer = some b)
      (hfit : toInt logline.length < b.avail)
      (h : b'.content = b.content ++ logline ∨
        b.avail ≤ logline.length ∧ b'.content = b.content) :
      Appends s logline { s with currentBuffer := some b' }
  | rotates (b : FixedBuffer KLargeBuffer)
      (h : b.content = logline ∨ KLargeBuffer ≤ logline.length ∧ b.content = []) :
      Appends s logline { s with
        buffers := s.buffers ++ [s.currentBuffer], nextBuffer := none, currentBuffer := some b }

theorem append_appends {s : AsyncLogging} (h : s.Inv) (logline : Line) :
    ∃ s', s.append logline = .ok s' ∧ s.Appends logline s' := by
  obtain ⟨b, hb⟩ := Option.isSome_iff_exists.mp h.current
  by_cases hfit : toInt logline.length < (b.avail : Int)
  · refine ⟨_, ?_, .stays b (b.append logline) hb hfit ?_⟩
    · unfold append
      rw [hb, deref, pure_eq_ok, ok_bind, if_pos hfit]
      rfl
    · exact (keep_or_drop b logline).imp id fun hdrop => ⟨hdrop.1, by rw [hdrop.2]⟩
  · obtain ⟨n, hn, hempty⟩ := h.next_or_new
    have hnil : n.content = [] := FixedBuffer.content_eq_nil hempty
    have havail : n.avail = KLargeBuffer := by
      rw [FixedBuffer.avail, show n.cur = 0 from hempty, Nat.sub_zero]
    refine ⟨_, ?_, .rotates (n.append logline) ?_⟩
    · unfold append
      rw [hb, deref, pure_eq_ok, ok_bind, if_neg hfit]
      simp only [hn, deref, pure_eq_ok, ok_bind]
    · rcases keep_or_drop n logline with he | ⟨hlong, he⟩
      · rw [he, hnil]
        exact .inl (List.nil_append _)
      · rw [he]
        exact .inr ⟨havail ▸ hlong, hnil⟩

theorem Appends.inv {s s' : AsyncLogging} {logline : Line} (h : s.Inv)
    (ha : s.Appends logline s') : s'.Inv := by
  cases ha with
  | stays b b' => exact ⟨rfl, h.present, h.next, h.locals⟩
  | rotates b =>
    refine ⟨rfl, ?_, .inl ⟨rfl, by simp⟩, h.locals⟩
    intro p hp
    rcases List.mem_append.mp hp with hp | hp
    · exact h.present p hp
    · rw [List.mem_singleton.mp hp]
      exact h.current

theorem Appends.same {s s' : AsyncLogging} {logline : Line} (ha : s.Appends logline s') :
    s'.phase = s.phase ∧ s'.bufferToWrite = s.bufferToWrite ∧ s'.output = s.output := by
  cases ha with
  | stays b b' => exact ⟨rfl, rfl, rfl⟩
  | rotates b => exact ⟨rfl, rfl, rfl⟩

/-- Two buffers of the swap remain. -/
theorem overload_spec {s : AsyncLogging} (h : s.Inv) (hph : s.phase = .swapped)
    (hlen : 25 < s.bufferToWrite.length) (behind : Nat → UInt8) :
    s.dropBacklog behind = .ok { s with
      output := s.output ++ dropNotice behind
      bufferToWrite := s.bufferToWrite.take 2
      phase := .writing 0 } ∧
    ({ s with
      output := s.output ++ dropNotice behind
      bufferToWrite := s.bufferToWrite.take 2
      phase := .writing 0 } : AsyncLogging).Inv := by
  have hswapped := h.locals
  simp only [Locals, hph] at hswapped
  obtain ⟨hmoved, hpresent, hne, hspare⟩ := hswapped
  have htwo : 2 ≤ (s.bufferToWrite.take 2).length := by
    rw [List.length_take]
    omega
  constructor
  · simp [dropBacklog, check_pos hne, hlen]
  · refine ⟨h.current, h.present, h.next, ⟨hmoved, ?_, ?_, ?_⟩, Nat.zero_le _⟩
    · intro p hp
      exact hpresent p (List.mem_of_mem_take hp)
    · exact List.ne_nil_of_length_pos (Nat.lt_of_lt_of_le Nat.zero_lt_two htwo)
    · exact hspare.imp (fun hs => ⟨hs.1, htwo⟩) id

/-- Whatever is found and whatever is appended, only a start that `stop` has
overtaken fails. -/
theorem step_possible {s : AsyncLogging} (h : s.Inv) {a : Label} (ha : s.Possible a)
    (hok : ¬ s.Fails a) : ∃ s', s.step a = .ok s' ∧ s'.Inv := by
  by_cases happ : ∃ logline, a = .append logline
  · obtain ⟨logline, rfl⟩ := happ
    obtain ⟨s', hs, happends⟩ := append_appends h logline
    exact ⟨s', hs, happends.inv h⟩
  · have hen : s.Enabled a := by
      cases a with
      | append logline => exact absurd ⟨logline, rfl⟩ happ
      | _ => exact ha
    by_cases hover : s.Overloads a
    · cases a with
      | dropBacklog behind => exact ⟨_, overload_spec h hen hover behind⟩
      | _ => exact hover.elim
    · have hb : s.Bounded a := by
        cases a with
        | dropBacklog behind => exact Nat.le_of_not_lt hover
        | _ => trivial
      obtain ⟨s', hs, hinv, -⟩ := step_spec h hen hb hok
      exact ⟨s', hs, hinv⟩

theorem Inv.possible_ok {s s' : AsyncLogging} (h : s.Inv) {a : Label} (ha : s.Possible a)
    (hs : s.step a = .ok s') : s'.Inv := by
  obtain ⟨t, ht, hinv⟩ := step_possible h ha (not_fails hs)
  cases ht.symm.trans hs
  exact hinv

theorem Inv.possible_error {s : AsyncLogging} (h : s.Inv) {a : Label} (ha : s.Possible a)
    {e : Assertion} (hs : s.step a = .error e) : s.Fails a := by
  by_contra hok
  obtain ⟨t, ht, -⟩ := step_possible h ha hok
  cases ht.symm.trans hs

/-! ## The way of the lines -/

/-- What a step may do to the places: the lines stay in their order, and new
notices come from dropping buffers. -/
structure Moves (s : AsyncLogging) (a : Label) (p p' : Places) : Prop where
  lines : p'.lines.Sublist (p.lines ++ a.lines)
  notices : ∀ text, .notice text ∈ p'.written → .notice text ∈ p.written ∨ s.Overloads a

theorem Moves.refl (s : AsyncLogging) (a : Label) (p : Places) : Moves s a p p :=
  ⟨List.sublist_append_left .., fun _ h => .inl h⟩

/-- The lines are where they were. -/
theorem Laid.congr {s s' : AsyncLogging} {p : Places} (h : s.Laid p) (hout : s'.output = s.output)
    (hunwritten : s'.unwritten = s.unwritten) (hbuffers : s'.buffers = s.buffers)
    (hcurrent : s'.currentBuffer = s.currentBuffer) : s'.Laid p :=
  ⟨hout ▸ h.written, hunwritten ▸ h.unwritten, hbuffers ▸ h.buffers, hcurrent ▸ h.current⟩

theorem laid_append {s s' : AsyncLogging} {p : Places} (h : s.Laid p) {logline : Line}
    (ha : s.Appends logline s') : ∃ p', s'.Laid p' ∧ Moves s (.append logline) p p' := by
  have hunwritten : s'.unwritten = s.unwritten := by cases ha <;> rfl
  cases ha with
  | stays b b' hb hfit hcontent =>
    have hcurrent : b.content = p.current.flatten := by rw [← h.current, hb, contents_some]
    rcases hcontent with hkeep | ⟨-, hdrop⟩
    · refine ⟨{ p with current := p.current ++ [logline] },
        ⟨h.written, hunwritten ▸ h.unwritten, h.buffers, ?_⟩, ?_, fun _ hn => .inl hn⟩
      · rw [contents_some, hkeep, hcurrent, List.flatten_append, List.flatten_singleton]
      · simp [Places.lines, Label.lines]
    · refine ⟨p, ⟨h.written, hunwritten ▸ h.unwritten, h.buffers, ?_⟩, Moves.refl ..⟩
      rw [contents_some, hdrop, hcurrent]
  | rotates b hcontent =>
    have hbuffers : pieces (s.buffers ++ [s.currentBuffer]) =
        (p.buffers ++ [p.current]).map List.flatten := by
      rw [pieces_append, h.buffers, List.map_append, List.map_singleton, ← h.current]
      rfl
    rcases hcontent with hkeep | ⟨-, hdrop⟩
    · refine ⟨{ p with buffers := p.buffers ++ [p.current], current := [logline] },
        ⟨h.written, hunwritten ▸ h.unwritten, hbuffers, ?_⟩, ?_, fun _ hn => .inl hn⟩
      · rw [contents_some, hkeep, List.flatten_singleton]
      · simp [Places.lines, Label.lines]
    · refine ⟨{ p with buffers := p.buffers ++ [p.current], current := [] },
        ⟨h.written, hunwritten ▸ h.unwritten, hbuffers, ?_⟩, ?_, fun _ hn => .inl hn⟩
      · rw [contents_some, hdrop]
        rfl
      · simp [Places.lines, Label.lines]

/-- All that `swapBuffers` does but for the choice of the spare buffers. -/
theorem swapBuffers_eq (s : AsyncLogging) : ∃ nextBuffer newBuffer2,
    s.swapBuffers = { s with
      currentBuffer := s.newBuffer1, nextBuffer, buffers := s.bufferToWrite, newBuffer1 := none,
      newBuffer2, bufferToWrite := s.buffers ++ [s.currentBuffer], phase := .swapped } := by
  unfold swapBuffers
  dsimp only
  split
  · exact ⟨_, _, rfl⟩
  · exact ⟨_, _, rfl⟩

theorem laid_swapBuffers {s : AsyncLogging} {p : Places} (h : s.Laid p)
    (hempty : isEmptyBuffer s.newBuffer1 = true) (hnone : s.bufferToWrite = [])
    (hunwritten : s.unwritten = s.bufferToWrite) (a : Label) :
    ∃ p', s.swapBuffers.Laid p' ∧ Moves s a p p' := by
  obtain ⟨b, hb, hzero⟩ := isEmptyBuffer_iff.mp hempty
  obtain ⟨nextBuffer, newBuffer2, heq⟩ := swapBuffers_eq s
  have hnil : p.unwritten = [] := by
    have hmap := h.unwritten
    rw [hunwritten, hnone] at hmap
    exact List.map_eq_nil_iff.mp hmap.symm
  refine ⟨⟨p.written, p.buffers ++ [p.current], [], []⟩, ?_, ?_, fun _ hn => .inl hn⟩
  · rw [heq]
    refine ⟨h.written, ?_, ?_, ?_⟩
    · change pieces (s.buffers ++ [s.currentBuffer]) = _
      rw [pieces_append, h.buffers, List.map_append, List.map_singleton, ← h.current]
      rfl
    · change pieces s.bufferToWrite = _
      rw [hnone]
      rfl
    · change contents [s.newBuffer1] = _
      rw [hb, contents_some, FixedBuffer.content_eq_nil hzero]
      rfl
  · simp [Places.lines, hnil]

/-- The first buffer that is not yet written goes to the output. -/
theorem laid_write {s : AsyncLogging} {p : Places} (h : s.Laid p) {next : Nat}
    (hph : s.phase = .writing next) (hlt : next < s.bufferToWrite.length)
    {b : FixedBuffer KLargeBuffer} (hget : s.bufferToWrite[next] = some b) :
    ∃ p', Laid { s with output := s.output ++ b.content, phase := .writing (next + 1) } p' ∧
      Moves s .write p p' := by
  have hunwritten : s.unwritten = some b :: s.bufferToWrite.drop (next + 1) := by
    simp only [unwritten, hph]
    rw [List.drop_eq_getElem_cons hlt, hget]
  have hmap := h.unwritten
  rw [hunwritten] at hmap
  cases hp : p.unwritten with
  | nil => simp [hp, pieces] at hmap
  | cons ls rest =>
    simp only [hp, pieces, List.map_cons, contents_some, List.cons.injEq] at hmap
    refine ⟨⟨p.written ++ ls.map .line, rest, p.buffers, p.current⟩,
      ⟨?_, hmap.2, h.buffers, h.current⟩, ?_, ?_⟩
    · simp [h.written, hmap.1, List.flatMap_map, Entry.bytes, List.flatMap_id']
    · simp [Places.lines, hp, List.flatMap_map, Entry.lines, Label.lines]
    · intro text hn
      exact .inl (by simpa using hn)

/-- Buffers are dropped, and the notice takes their place. -/
theorem laid_overload {s : AsyncLogging} {p : Places} (h : s.Laid p) (hph : s.phase = .swapped)
    (hlen : 25 < s.bufferToWrite.length) (behind : Nat → UInt8) :
    ∃ p', Laid { s with
        output := s.output ++ dropNotice behind
        bufferToWrite := s.bufferToWrite.take 2
        phase := .writing 0 } p' ∧ Moves s (.dropBacklog behind) p p' := by
  have hunwritten : s.unwritten = s.bufferToWrite := by simp [unwritten, hph]
  refine ⟨⟨p.written ++ [.notice (dropNotice behind)], p.unwritten.take 2, p.buffers, p.current⟩,
    ⟨?_, ?_, h.buffers, h.current⟩, ?_, fun _ _ => .inr hlen⟩
  · rw [h.written, List.flatMap_append]
    rfl
  · change pieces (s.bufferToWrite.take 2) = _
    rw [pieces_take, ← hunwritten, h.unwritten, List.map_take]
  · have hsub : ((p.unwritten.take 2).flatten).Sublist p.unwritten.flatten :=
      (List.take_sublist ..).flatten
    simp only [Places.lines, List.flatMap_append, List.flatMap_singleton, Entry.lines, Label.lines,
      List.append_nil]
    exact ((hsub.append_left _).append_right _).append_right _

/-- **Lines move on.** Every step keeps the lines whole and in their order,
whether or not it drops some. -/
theorem laid_step {s s' : AsyncLogging} (hinv : s.Inv) {p : Places} (h : s.Laid p) {a : Label}
    (ha : s.Possible a) (hs : s.step a = .ok s') : ∃ p', s'.Laid p' ∧ Moves s a p p' := by
  have hlocals := hinv.locals
  -- most steps leave the lines where they are
  have stays (hout : s'.output = s.output) (hunwritten : s'.unwritten = s.unwritten)
      (hbuffers : s'.buffers = s.buffers) (hcurrent : s'.currentBuffer = s.currentBuffer) :
      ∃ p', s'.Laid p' ∧ Moves s a p p' :=
    ⟨p, h.congr hout hunwritten hbuffers hcurrent, Moves.refl ..⟩
  cases a with
  | append logline =>
    obtain ⟨s₁, hs₁, happends⟩ := append_appends hinv logline
    cases hs₁.symm.trans hs
    exact laid_append h happends
  | start =>
    have hph : s.phase = .notStarted := ha
    cases hs
    exact stays rfl (by simp [unwritten, hph]) rfl rfl
  | stop =>
    cases hs
    exact stays rfl rfl rfl rfl
  | enter =>
    have hph : s.phase = .started := ha
    obtain ⟨u, -, hs⟩ := bind_eq_ok.mp hs
    cases hs
    exact stays rfl (by simp [unwritten, hph]) rfl rfl
  | test =>
    have hph : s.phase = .condition := ha
    simp only [step, test] at hs
    split at hs
    · obtain ⟨u, -, hs⟩ := bind_eq_ok.mp hs
      obtain ⟨u, -, hs⟩ := bind_eq_ok.mp hs
      obtain ⟨u, -, hs⟩ := bind_eq_ok.mp hs
      cases hs
      exact stays rfl (by simp [unwritten, hph]) rfl rfl
    · cases hs
      exact stays rfl (by simp [unwritten, hph]) rfl rfl
  | lock =>
    have hph : s.phase = .beforeLock := ha
    simp only [Locals, hph] at hlocals
    simp only [step, lock] at hs
    split at hs
    · cases hs
      exact stays rfl (by simp [unwritten, hph]) rfl rfl
    · cases hs
      exact laid_swapBuffers h hlocals.1 hlocals.2.2 (by simp [unwritten, hph]) _
  | wake =>
    have hph : s.phase = .waiting := ha
    simp only [Locals, hph] at hlocals
    cases hs
    exact laid_swapBuffers h hlocals.1 hlocals.2.2 (by simp [unwritten, hph]) _
  | dropBacklog behind =>
    have hph : s.phase = .swapped := ha
    by_cases hlen : 25 < s.bufferToWrite.length
    · cases (overload_spec hinv hph hlen behind).1.symm.trans hs
      exact laid_overload h hph hlen behind
    · obtain ⟨u, -, hs⟩ := bind_eq_ok.mp hs
      rw [if_neg hlen] at hs
      cases hs
      exact stays rfl (by simp [unwritten, hph]) rfl rfl
  | write =>
    obtain ⟨next, hlt, hph⟩ := ha
    simp only [step, hph] at hs
    obtain ⟨b, hb, hs⟩ := bind_eq_ok.mp hs
    cases hs
    exact laid_write h hph hlt (getElem_of_deref hlt hb)
  | recycle =>
    have hph : s.phase = .writing s.bufferToWrite.length := ha
    obtain ⟨⟨newBuffer1, v⟩, -, hs⟩ := bind_eq_ok.mp hs
    obtain ⟨⟨newBuffer2, w⟩, -, hs⟩ := bind_eq_ok.mp hs
    cases hs
    exact stays rfl (by simp [unwritten, hph]) rfl rfl

/-! ## The calls -/

/-- A call of `LogFile::append`: the size of the object that it is given, and
how much of it it reads. -/
structure LogCall where
  object : Nat
  len : Nat
  deriving DecidableEq, Repr

def LogCall.Inside (call : LogCall) : Prop := call.len ≤ call.object

/-- `"drop log!"`, without its null byte. -/
def dropText : List UInt8 := [100, 114, 111, 112, 32, 108, 111, 103, 33]

/-- The calls of `output.append` that a step makes. -/
def issues (s : AsyncLogging) : Label → List LogCall
  | .dropBacklog _ => if 25 < s.bufferToWrite.length then [⟨dropText.length + 1, 20⟩] else []
  | .write =>
    match s.phase with
    | .writing next => (s.bufferToWrite[next]?.join).toList.map fun b => ⟨KLargeBuffer, b.length⟩
    | _ => []
  | _ => []

theorem issues_inside_iff {s : AsyncLogging} (a : Label) :
    (∀ call ∈ s.issues a, call.Inside) ↔ s.Bounded a := by
  cases a with
  | dropBacklog behind =>
    by_cases hlen : 25 < s.bufferToWrite.length
    · simp [issues, hlen, Bounded, LogCall.Inside, dropText]
    · simp [issues, hlen, Bounded, Nat.le_of_not_lt hlen]
  | write =>
    refine iff_of_true ?_ trivial
    intro call hcall
    simp only [issues] at hcall
    split at hcall
    · obtain ⟨b, -, rfl⟩ := List.mem_map.mp hcall
      exact b.cur_le
    · cases hcall
  | _ => exact iff_of_true (fun call hcall => nomatch hcall) trivial

end AsyncLogging

/-! ## Runs -/

open AsyncLogging

/-- The log with what led to it. -/
structure LogAccount where
  log : AsyncLogging
  /-- the lines appended so far, in the order of the lock -/
  lines : List Line
  calls : List LogCall
  /-- the buffers of the last swap -/
  found : List BufferPtr
  /-- the output at the last swap -/
  before : List UInt8

namespace LogAccount

def new : LogAccount := ⟨.new, [], [], [], []⟩

def step (s : LogAccount) (a : Label) : Checked LogAccount := do
  let log ← s.log.step a
  let s := { s with log, lines := s.lines ++ a.lines, calls := s.calls ++ s.log.issues a }
  match a with
  | .lock | .wake => return { s with found := log.bufferToWrite, before := log.output }
  | _ => return s

/-- No call has read outside of its object; the log consists of lines appended,
in their order, and of complete notices; and when buffers have been dropped, the
first two and no others follow the notice. -/
structure Clean (s : LogAccount) : Prop where
  inside : ∀ call ∈ s.calls, call.Inside
  whole : ∃ entries : List Entry, s.log.output = entries.flatMap Entry.bytes ∧
    (entries.flatMap Entry.lines).Sublist s.lines ∧
    ∀ text, .notice text ∈ entries → text = dropText
  dropped : ∀ n, s.log.phase = .writing n → 25 < s.found.length →
    s.log.bufferToWrite = s.found.take 2 ∧
      s.log.output = s.before ++ dropText ++ contents ((s.found.take 2).take n)

/-- The state is clean; no assertion fails but that of a start that `stop` has
overtaken. -/
def Logs (s : LogAccount) (a : Label) : Checked LogAccount → Prop
  | .ok s' => s'.Clean
  | .error _ => s.log.Fails a

/-- What a swap leaves to be written. -/
def kept (found : List BufferPtr) : List BufferPtr :=
  if 25 < found.length then found.take 2 else found

def noticeOf (found : List BufferPtr) (behind : Nat → UInt8) : List UInt8 :=
  if 25 < found.length then dropNotice behind else []

/-- Between a swap and the end of its loop. -/
def Passes (s : LogAccount) : Prop :=
  match s.log.phase with
  | .swapped => s.log.bufferToWrite = s.found ∧ s.log.output = s.before
  | .writing n => s.log.bufferToWrite = kept s.found ∧
      (∃ behind, s.log.output =
        s.before ++ noticeOf s.found behind ++ contents (s.log.bufferToWrite.take n)) ∧
      (25 < s.found.length → ∃ call ∈ s.calls, ¬ call.Inside)
  | _ => True

/-- What holds in every run: where there is a notice, there was a call that read
outside. -/
structure Kept (s : LogAccount) : Prop where
  inv : s.log.Inv
  laid : ∃ p : Places, s.log.Laid p ∧ p.lines.Sublist s.lines ∧
    ∀ text, .notice text ∈ p.written → ∃ call ∈ s.calls, ¬ call.Inside
  passes : s.Passes

theorem new_kept : new.Kept := by
  refine ⟨AsyncLogging.new_inv, ⟨⟨[], [], [], []⟩, ⟨rfl, rfl, rfl, ?_⟩, List.Sublist.refl _, by simp⟩,
    trivial⟩
  change contents [some .new] = _
  rw [contents_some, FixedBuffer.content_eq_nil FixedBuffer.new_length]
  rfl

/-- The lines and the calls grow by those of the step. -/
theorem step_eq {s s' : LogAccount} {a : Label} (hs : step s a = .ok s') :
    s.log.step a = .ok s'.log ∧ s'.lines = s.lines ++ a.lines ∧
      s'.calls = s.calls ++ s.log.issues a ∧
      (((a = .lock ∨ a = .wake) ∧ s'.found = s'.log.bufferToWrite ∧ s'.before = s'.log.output) ∨
        (a ≠ .lock ∧ a ≠ .wake) ∧ s'.found = s.found ∧ s'.before = s.before) := by
  obtain ⟨log, hlog, hs⟩ := bind_eq_ok.mp hs
  cases a <;> cases hs <;> exact ⟨hlog, rfl, rfl, by simp⟩

theorem passes_swapped {s : LogAccount} (hph : s.log.phase = .swapped)
    (hfound : s.found = s.log.bufferToWrite ∧ s.before = s.log.output) : s.Passes := by
  unfold Passes
  rw [hph]
  exact ⟨hfound.1.symm, hfound.2.symm⟩

theorem Kept.passes_step {s s' : LogAccount} (h : s.Kept) {a : Label} (ha : s.log.Possible a)
    (hs : step s a = .ok s') : s'.Passes := by
  obtain ⟨hlog, -, hcalls, hswap⟩ := step_eq hs
  have hlocals := h.inv.locals
  have hpasses := h.passes
  -- a step that has no part in the swap and the loop
  have aside (hfound : s'.found = s.found ∧ s'.before = s.before)
      (hsame : s'.log.phase = s.log.phase ∧ s'.log.bufferToWrite = s.log.bufferToWrite ∧
        s'.log.output = s.log.output) : s'.Passes := by
    unfold Passes at hpasses ⊢
    rw [hsame.1, hsame.2.1, hsame.2.2, hfound.1, hfound.2, hcalls]
    split
    · simpa [*] using hpasses
    · rename_i n hph
      simp only [hph] at hpasses
      refine ⟨hpasses.1, hpasses.2.1, fun hlen => ?_⟩
      obtain ⟨call, hcall, hout⟩ := hpasses.2.2 hlen
      exact ⟨call, List.mem_append_left _ hcall, hout⟩
    · trivial
  cases a with
  | append logline =>
    obtain ⟨s₁, hs₁, happends⟩ := append_appends h.inv logline
    cases hs₁.symm.trans hlog
    exact aside (by simpa using hswap) happends.same
  | stop =>
    have hsame := Except.ok.inj hlog
    exact aside (by simpa using hswap) (by simp [← hsame])
  | start =>
    have hsame := Except.ok.inj hlog
    simp [Passes, ← hsame]
  | enter =>
    obtain ⟨u, -, hlog⟩ := bind_eq_ok.mp hlog
    have hsame := Except.ok.inj hlog
    simp [Passes, ← hsame]
  | test =>
    simp only [AsyncLogging.step, test] at hlog
    split at hlog
    · obtain ⟨u, -, hlog⟩ := bind_eq_ok.mp hlog
      obtain ⟨u, -, hlog⟩ := bind_eq_ok.mp hlog
      obtain ⟨u, -, hlog⟩ := bind_eq_ok.mp hlog
      have hsame := Except.ok.inj hlog
      simp [Passes, ← hsame]
    · have hsame := Except.ok.inj hlog
      simp [Passes, ← hsame]
  | lock =>
    have hfound : s'.found = s'.log.bufferToWrite ∧ s'.before = s'.log.output := by
      simpa using hswap
    have hsame := Except.ok.inj hlog
    by_cases hnone : s.log.buffers.isEmpty = true
    · rw [lock, if_pos hnone] at hsame
      simp [Passes, ← hsame]
    · obtain ⟨nextBuffer, newBuffer2, heq⟩ := swapBuffers_eq s.log
      rw [lock, if_neg hnone, heq] at hsame
      exact passes_swapped (by rw [← hsame]) hfound
  | wake =>
    have hfound : s'.found = s'.log.bufferToWrite ∧ s'.before = s'.log.output := by
      simpa using hswap
    have hsame := Except.ok.inj hlog
    obtain ⟨nextBuffer, newBuffer2, heq⟩ := swapBuffers_eq s.log
    rw [heq] at hsame
    exact passes_swapped (by rw [← hsame]) hfound
  | dropBacklog behind =>
    have hph : s.log.phase = .swapped := ha
    have hfound : s'.found = s.found ∧ s'.before = s.before := by simpa using hswap
    simp only [Passes, hph] at hpasses
    unfold Passes
    rw [hfound.1, hfound.2, hcalls]
    by_cases hlen : 25 < s.log.bufferToWrite.length
    · have hsame := Except.ok.inj ((overload_spec h.inv hph hlen behind).1.symm.trans hlog)
      rw [← hsame]
      refine ⟨?_, ⟨behind, ?_⟩, fun _ => ⟨⟨dropText.length + 1, 20⟩, ?_, ?_⟩⟩
      · rw [kept, ← hpasses.1, if_pos hlen]
      · simp [noticeOf, ← hpasses.1, hlen, hpasses.2]
      · simp [issues, hlen]
      · simp [LogCall.Inside, dropText]
    · obtain ⟨u, -, hlog⟩ := bind_eq_ok.mp hlog
      rw [if_neg hlen] at hlog
      have hsame := Except.ok.inj hlog
      rw [← hsame]
      refine ⟨?_, ⟨behind, ?_⟩, fun h25 => absurd (hpasses.1 ▸ h25) hlen⟩
      · rw [kept, ← hpasses.1, if_neg hlen]
      · simp [noticeOf, ← hpasses.1, hlen, hpasses.2]
  | write =>
    obtain ⟨next, hlt, hph⟩ := ha
    have hfound : s'.found = s.found ∧ s'.before = s.before := by simpa using hswap
    simp only [Passes, hph] at hpasses
    simp only [AsyncLogging.step, hph] at hlog
    obtain ⟨b, hb, hlog⟩ := bind_eq_ok.mp hlog
    have hsame := Except.ok.inj hlog
    unfold Passes
    rw [hfound.1, hfound.2, hcalls, ← hsame]
    obtain ⟨hkept, ⟨behind, hout⟩, hcall⟩ := hpasses
    refine ⟨hkept, ⟨behind, ?_⟩, fun hlen => ?_⟩
    · simp only
      rw [hout, ← List.take_append_getElem hlt, getElem_of_deref hlt hb, contents_append,
        contents_some, List.append_assoc _ (contents _)]
    · obtain ⟨call, hmem, hnot⟩ := hcall hlen
      exact ⟨call, List.mem_append_left _ hmem, hnot⟩
  | recycle =>
    obtain ⟨⟨newBuffer1, v⟩, -, hlog⟩ := bind_eq_ok.mp hlog
    obtain ⟨⟨newBuffer2, w⟩, -, hlog⟩ := bind_eq_ok.mp hlog
    have hsame := Except.ok.inj hlog
    simp [Passes, ← hsame]

theorem Kept.step {s s' : LogAccount} (h : s.Kept) {a : Label} (ha : s.log.Possible a)
    (hs : LogAccount.step s a = .ok s') : s'.Kept := by
  obtain ⟨hlog, hlines, hcalls, -⟩ := step_eq hs
  have hinv : s'.log.Inv := h.inv.possible_ok ha hlog
  obtain ⟨p, hlaid, hsub, hnotice⟩ := h.laid
  obtain ⟨p', hlaid', hmoves⟩ := laid_step h.inv hlaid ha hlog
  refine ⟨hinv, ⟨p', hlaid', ?_, ?_⟩, h.passes_step ha hs⟩
  · rw [hlines]
    exact hmoves.lines.trans (hsub.append_right _)
  · intro text hmem
    rw [hcalls]
    rcases hmoves.notices text hmem with hold | hover
    · obtain ⟨call, hcall, hout⟩ := hnotice text hold
      exact ⟨call, List.mem_append_left _ hcall, hout⟩
    · cases a with
      | dropBacklog behind =>
        have hlen : 25 < s.log.bufferToWrite.length := hover
        refine ⟨⟨dropText.length + 1, 20⟩, List.mem_append_right _ ?_, ?_⟩
        · simp [issues, hlen]
        · simp [LogCall.Inside, dropText]
      | _ => exact hover.elim

/-- Without a call that reads outside, all is as it should be. -/
theorem Kept.clean {s : LogAccount} (h : s.Kept) (hinside : ∀ call ∈ s.calls, call.Inside) :
    s.Clean := by
  have hnone : ¬ ∃ call ∈ s.calls, ¬ call.Inside := by
    rintro ⟨call, hcall, hout⟩
    exact hout (hinside call hcall)
  obtain ⟨p, hlaid, hsub, hnotice⟩ := h.laid
  refine ⟨hinside, ⟨p.written, hlaid.written, ?_, ?_⟩, ?_⟩
  · refine List.Sublist.trans ?_ hsub
    simp only [Places.lines, List.append_assoc]
    exact List.sublist_append_left ..
  · intro text hmem
    exact absurd (hnotice text hmem) hnone
  · intro n hph hlen
    have hpasses := h.passes
    simp only [Passes, hph] at hpasses
    exact absurd (hpasses.2.2 hlen) hnone

/-- Every step keeps the account, in runs that drop buffers too. -/
theorem run_kept {s t : LogAccount} {steps : List Label} (h : Run step s steps t) (hs : s.Kept)
    (hsteps : Along step (fun s a => s.log.Possible a) s steps) : t.Kept :=
  h.invariant hsteps hs fun _ _ _ hk ha hstep => hk.step ha hstep

theorem step_logs_iff {s : LogAccount} (h : s.Kept) (hinside : ∀ call ∈ s.calls, call.Inside)
    {a : Label} (ha : s.log.Possible a) : Logs s a (step s a) ↔ s.log.Bounded a := by
  cases hs : step s a with
  | error e =>
    -- only `enter` fails, and it is no swap
    have hfails : s.log.Fails a := by
      rw [step] at hs
      rcases bind_eq_error.mp hs with hlog | ⟨log, -, hrest⟩
      · exact h.inv.possible_error ha hlog
      · cases a <;> cases hrest
    obtain ⟨rfl, hrunning⟩ := hfails
    exact iff_of_true ⟨rfl, hrunning⟩ trivial
  | ok s' =>
    obtain ⟨-, -, hcalls, -⟩ := step_eq hs
    rw [← issues_inside_iff]
    constructor
    · intro hclean call hcall
      exact hclean.inside call (hcalls ▸ List.mem_append_right _ hcall)
    · intro hissues
      refine (h.step ha hs).clean ?_
      intro call hcall
      rw [hcalls] at hcall
      exact (List.mem_append.mp hcall).elim (hinside call) (hissues call)

theorem steps_log_iff {s : LogAccount} (h : s.Kept) (hinside : ∀ call ∈ s.calls, call.Inside)
    {steps : List Label} (hsteps : Along step (fun s a => s.log.Possible a) s steps) :
    Steps step Logs s steps ↔ Along step (fun s a => s.log.Bounded a) s steps := by
  refine steps_iff (I := fun s => s.Kept ∧ ∀ call ∈ s.calls, call.Inside) ?_ ?_ ⟨h, hinside⟩ hsteps
  · intro s a hs ha
    exact step_logs_iff hs.1 hs.2 ha
  · intro s a s' hs ha hbounded hstep
    have hlogs := (step_logs_iff hs.1 hs.2 ha).mpr hbounded
    rw [hstep] at hlogs
    exact ⟨hs.1.step ha hstep, hlogs.inside⟩

/-- **Nothing that was never logged.** In every interleaving of `append` in any
threads, with lines of any length, with the backend, the log is clean at every
step exactly if no swap finds more than 25 buffers. -/
theorem clean_iff (steps : List Label)
    (hsteps : Along step (fun s a => s.log.Possible a) new steps) :
    Steps step Logs new steps ↔ Along step (fun s a => s.log.Bounded a) new steps :=
  steps_log_iff new_kept (by simp [new]) hsteps

/-- A swap of one buffer with two lines, and a line behind it. -/
theorem clean_twoLines :
    Steps step Logs new
      [.start, .append [1, 2], .enter, .test, .lock, .append [3], .wake, .append [4],
       .dropBacklog fun _ => 0, .write, .recycle] :=
  (clean_iff _ (by decide)).mpr (by decide)

/-! ## A backlog -/

/-- A line of which no two fit into one buffer. -/
def long : Line := List.replicate 3000000 0

/-- The current buffer holds a long line, and nothing else; `n` buffers are full. -/
structure Loaded (s : LogAccount) (n : Nat) : Prop where
  kept : s.Kept
  phase : s.log.phase = .beforeLock
  current : contents [s.log.currentBuffer] = long
  buffers : n ≤ s.log.buffers.length

theorem length_long : long.length = 3000000 := List.length_replicate

/-- A buffer that holds a long line has no room for another. -/
theorem no_room {b : FixedBuffer KLargeBuffer} (h : b.content = long) :
    ¬ toInt long.length < b.avail := by
  have hlen : b.cur = long.length := by
    rw [← h, FixedBuffer.content, length_slice _ (by rw [b.length_data]; exact b.cur_le),
      Nat.sub_zero]
  rw [toInt_eq (by rw [length_long, KLargeBuffer]; decide), FixedBuffer.avail, hlen, length_long,
    KLargeBuffer]
  decide

theorem Loaded.append {s : LogAccount} {n : Nat} (h : s.Loaded n) :
    ∃ s', step s (.append long) = .ok s' ∧ s'.Loaded (n + 1) := by
  obtain ⟨log, hlog, happends⟩ := append_appends h.kept.inv long
  have hs : step s (.append long) =
      .ok { s with log, lines := s.lines ++ [long], calls := s.calls ++ [] } := by
    rw [step, AsyncLogging.step, hlog]
    rfl
  have hkept := h.kept.step (a := .append long) trivial hs
  have hph := happends.same.1.trans h.phase
  cases happends with
  | stays b b' hb hfit =>
    have hcontent : b.content = long := by rw [← h.current, hb, contents_some]
    exact absurd hfit (no_room hcontent)
  | rotates b hcontent =>
    refine ⟨_, hs, hkept, hph, ?_, ?_⟩
    · rcases hcontent with hcontent | ⟨hlong, -⟩
      · rw [contents_some, hcontent]
      · rw [length_long, KLargeBuffer] at hlong
        exact absurd hlong (by decide)
    · rw [List.length_append, List.length_singleton]
      exact Nat.succ_le_succ h.buffers

theorem Loaded.appends {s : LogAccount} {n : Nat} (h : s.Loaded n) (k : Nat) :
    ∃ t, Run step s (List.replicate k (.append long)) t ∧ t.Loaded (n + k) := by
  induction k generalizing s n with
  | zero => exact ⟨s, .nil s, h⟩
  | succ k ih =>
    obtain ⟨s', hs, hloaded⟩ := h.append
    obtain ⟨t, hrun, ht⟩ := ih hloaded
    rw [Nat.add_right_comm] at ht
    exact ⟨t, .cons hs hrun, ht⟩

/-- The backend before it takes the lock for the first time. -/
def waitsForLock : LogAccount :=
  { new with
    log := { AsyncLogging.new with
      running := true, newBuffer1 := some .new, newBuffer2 := some .new, phase := .beforeLock } }

theorem run_waitsForLock : Run step new [.start, .enter, .test] waitsForLock :=
  .cons rfl (.cons rfl (.cons rfl (.nil _)))

theorem waitsForLock_kept : waitsForLock.Kept :=
  run_kept run_waitsForLock new_kept (by decide)

/-- The first long line has the current buffer for itself. -/
theorem load_first :
    ∃ s, step waitsForLock (.append long) = .ok s ∧ s.Loaded 0 := by
  obtain ⟨log, hlog, happends⟩ := append_appends waitsForLock_kept.inv long
  have hs : step waitsForLock (.append long) =
      .ok { waitsForLock with log, lines := [long], calls := [] } := by
    rw [step, AsyncLogging.step, hlog]
    rfl
  have hkept := waitsForLock_kept.step (a := .append long) trivial hs
  have hph := happends.same.1
  cases happends with
  | stays b b' hb hfit hcontent =>
    obtain rfl : FixedBuffer.new = b := Option.some.inj hb
    refine ⟨_, hs, hkept, hph, ?_, Nat.zero_le _⟩
    rcases hcontent with hcontent | ⟨hfull, -⟩
    · rw [contents_some, hcontent, FixedBuffer.content_eq_nil FixedBuffer.new_length, List.nil_append]
    · rw [length_long, FixedBuffer.avail, show FixedBuffer.new.cur = 0 from rfl, KLargeBuffer] at hfull
      exact absurd hfull (by decide)
  | rotates b hcontent =>
    refine ⟨_, hs, hkept, hph, ?_, Nat.zero_le _⟩
    rcases hcontent with hcontent | ⟨hlong, -⟩
    · rw [contents_some, hcontent]
    · rw [length_long, KLargeBuffer] at hlong
      exact absurd hlong (by decide)

/-- While the backend is on its way to the lock, 26 long lines come in, which
fill 25 buffers and the current one. -/
def backlogSteps : List Label :=
  [.start, .enter, .test] ++
    (.append long :: (List.replicate 25 (.append long) ++ [.lock, .dropBacklog fun _ => 88]))

/-- The swap finds 26 buffers, and the notice is read ten bytes too far. -/
theorem backlog_reads_outside :
    Along step (fun s a => s.log.Possible a) new backlogSteps ∧
      ¬ Steps step Logs new backlogSteps := by
  obtain ⟨s, hfirst, hloaded⟩ := load_first
  obtain ⟨t, hrun, ht⟩ := hloaded.appends 25
  have hne : ¬ t.log.buffers.isEmpty = true := by
    intro hempty
    have hfull := ht.buffers
    rw [List.isEmpty_iff.mp hempty] at hfull
    exact absurd hfull (by decide)
  obtain ⟨nextBuffer, newBuffer2, heq⟩ := swapBuffers_eq t.log
  have hpossible : t.log.Possible .lock := ht.phase
  have hlock : ∃ u, step t .lock = .ok u ∧ u.log.phase = .swapped ∧
      u.log.bufferToWrite = t.log.buffers ++ [t.log.currentBuffer] := by
    refine ⟨_, rfl, ?_, ?_⟩
    · simp [lock, hne, heq]
    · simp [lock, hne, heq]
  obtain ⟨u, hu, hph, hfound⟩ := hlock
  have happend : ∀ a ∈ List.replicate 25 (Label.append long), a = .append long :=
    fun a ha => List.eq_of_mem_replicate ha
  constructor
  · refine Steps.append (by decide) run_waitsForLock ((steps_cons_ok hfirst).mpr ⟨trivial, ?_⟩)
    refine Steps.append ?_ hrun ((steps_cons_ok hu).mpr ⟨hpossible, hph, fun _ _ => trivial⟩)
    exact (Steps.of_forall (P := fun a => a = .append long) happend).mono fun s a _ ha => ha ▸ trivial
  · intro h
    have hrest := (((h.right run_waitsForLock).2 s hfirst).right hrun)
    obtain ⟨hclean, hlast, -⟩ := (steps_cons_ok hu).mp hrest
    have hbounded := (step_logs_iff (ht.kept.step hpossible hu) hclean.inside
      (a := .dropBacklog fun _ => 88) hph).mp hlast
    have hlen : (t.log.buffers ++ [t.log.currentBuffer]).length ≤ 25 := hfound ▸ hbounded
    rw [List.length_append, List.length_singleton] at hlen
    have hfull := ht.buffers
    omega

end LogAccount

end Muduo
