import Mathlib.Algebra.Group.Int.Defs
import Mathlib.Algebra.Group.Nat.Defs
import Muduo.LogRolling

/-!
When the log is rolled, and what the three time fields of a `LogFile` are then.
The clock may stand still or go back between two readings; only the reading of
the constructor has to be later than the epoch.

* `rollFile_timed`, `append_timed`: the open file is that of `lastRoll_`, and
  `startTime_` is its day;
* `append_fresh`: a file that is too long is replaced, when the clock allows it;
* `rolls_disciplined`: both, and that no file is opened twice, along every run.
-/

namespace Muduo

open Lib

namespace LogFile

/-- `start` is the start of the day of `time`. -/
structure StartsDay (start time : Time) : Prop where
  midnight : 60 * 60 * 24 ∣ start
  begun : start ≤ time
  lasts : time < start + 60 * 60 * 24

theorem period_startsDay {now : Time} (h : 0 < now) : StartsDay (period now) now := by
  have hperiod : period now = now / 86400 * 86400 := by
    simp [period, Int.tdiv_eq_ediv_of_nonneg (Int.le_of_lt h)]
  refine ⟨⟨now / 86400, ?_⟩, ?_, ?_⟩
  · rw [hperiod, Int.mul_comm]
    rfl
  · rw [hperiod]
    exact Int.ediv_mul_le now (by decide)
  · have hlast := Int.lt_ediv_add_one_mul_self now (show (0 : Int) < 86400 by decide)
    rw [Int.add_mul, Int.one_mul, ← hperiod] at hlast
    exact hlast

/-- The open file is the one of the last roll. -/
structure Timed (l : LogFile) : Prop where
  positive : 0 < l.lastRoll
  day : StartsDay l.startTime l.lastRoll
  file : l.file.map AppendFile.opened = some l.lastRoll

theorem Timed.exists_file {l : LogFile} (h : l.Timed) : ∃ f, l.file = some f := by
  obtain ⟨f, hf, -⟩ := Option.map_eq_some_iff.mp h.file
  exact ⟨f, hf⟩

theorem Timed.congr {l l' : LogFile} (h : l.Timed) (hroll : l'.lastRoll = l.lastRoll)
    (hday : l'.startTime = l.startTime)
    (hfile : l'.file.map AppendFile.opened = l.file.map AppendFile.opened) : l'.Timed := by
  refine ⟨?_, ?_, ?_⟩
  · rw [hroll]
    exact h.positive
  · rw [hday, hroll]
    exact h.day
  · rw [hfile, hroll]
    exact h.file

theorem rollFile_timed {l : LogFile} {now : Time} (hpos : 0 ≤ l.lastRoll)
    (h : l.lastRoll < now ∨ l.Timed) : (l.rollFile now).1.Timed := by
  unfold rollFile
  split
  · rename_i hlt
    have hnow : 0 < now := Int.lt_of_le_of_lt hpos hlt
    exact ⟨hnow, period_startsDay hnow, rfl⟩
  · rename_i hge
    exact h.resolve_left hge

theorem new_timed (rollSize flushInterval checkEveryN : Int) {now : Time} (hnow : 0 < now) :
    (new rollSize flushInterval checkEveryN now).Timed :=
  rollFile_timed (Int.le_refl 0) (.inl hnow)

/-- With a file that is open, `append_unlocked` gets to its end. -/
theorem append_timed {l : LogFile} (h : l.Timed) (logline : List UInt8) (left : Nat)
    (now rollNow : Time) :
    ∃ l', l.append logline left now rollNow = .ok l' ∧ l'.Timed := by
  obtain ⟨f, hf⟩ := h.exists_file
  have hopened : f.opened = l.lastRoll := by simpa [hf] using h.file
  -- what is done before a roll changes neither `lastRoll_` nor `startTime_`
  have hsame : ∀ l₁ : LogFile, l₁.lastRoll = l.lastRoll → l₁.startTime = l.startTime →
      l₁.file.map AppendFile.opened = some f.opened → l₁.Timed := by
    intro l₁ hroll hday hfile
    exact h.congr hroll hday (by rw [hfile, hf]; rfl)
  have hrolled : ∀ l₁ : LogFile, l₁.Timed → (l₁.rollFile rollNow).1.Timed := by
    intro l₁ h₁
    exact rollFile_timed (Int.le_of_lt h₁.positive) (.inr h₁)
  simp only [append, deref, hf, pure_eq_ok, ok_bind]
  split
  · exact ⟨_, rfl, hrolled _ (hsame _ rfl rfl rfl)⟩
  split
  · split
    · exact ⟨_, rfl, hrolled _ (hsame _ rfl rfl rfl)⟩
    split
    · exact ⟨_, rfl, hsame _ rfl rfl rfl⟩
    · exact ⟨_, rfl, hsame _ rfl rfl rfl⟩
  · exact ⟨_, rfl, hsame _ rfl rfl rfl⟩

/-- Behind the line the file is longer than `rollSize_`. -/
def TooLong (l : LogFile) (logline : List UInt8) : Prop :=
  ∃ f, l.file = some f ∧ l.rollBytes < f.writtenBytes + logline.length

/-- The comparison is one of `size_t`; a size is not negative. -/
theorem tooLong_iff {l : LogFile} (hsize : 0 ≤ l.rollSize) (hoff : l.rollSize < 2 ^ 63)
    (logline : List UInt8) :
    l.TooLong logline ↔ ∃ f, l.file = some f ∧ l.rollSize < f.writtenBytes + logline.length := by
  have hbytes : (l.rollBytes : Int) = l.rollSize := by
    rw [rollBytes, BitVec.toNat_ofInt]
    omega
  constructor
  · rintro ⟨f, hf, hlong⟩
    exact ⟨f, hf, by omega⟩
  · rintro ⟨f, hf, hlong⟩
    exact ⟨f, hf, by omega⟩

/-- A file that is too long is replaced when the clock is past the last roll. -/
theorem append_fresh {l l' : LogFile} {logline : List UInt8} {left : Nat} {now rollNow : Time}
    (hlong : l.TooLong logline) (hlate : l.lastRoll < rollNow)
    (hok : l.append logline left now rollNow = .ok l') : l'.file = some (.new rollNow) := by
  obtain ⟨f, hf, hsize⟩ := hlong
  have hrolled : l.append logline left now rollNow =
      .ok ({ l with file := some (f.append logline left) }.rollFile rollNow).1 := by
    simp only [append, deref, hf, pure_eq_ok, ok_bind]
    exact if_pos hsize
  cases hrolled.symm.trans hok
  simp only [rollFile]
  rw [if_pos hlate]

end LogFile

/-! ## Runs -/

namespace LogState

open LogFile

/-- What holds of a log between two calls. -/
structure Disciplined (l : LogFile) : Prop where
  open_ : l.file ≠ none
  day : StartsDay l.startTime l.lastRoll
  distinct : l.openings.Pairwise (· < ·)
  last : l.openings.getLast? = some l.lastRoll

/-- A call returns, and leaves a disciplined log. It has opened a file only
when `lastRoll_` has grown, and has opened one when the file had become too long
and the clock was past the last roll. -/
def Keeps (s : LogState) (a : LogStep) (o : Checked LogState) : Prop :=
  ∃ s', o = .ok s' ∧ Disciplined s'.log ∧
    (s'.log.openings = s.log.openings ∧ s'.log.lastRoll = s.log.lastRoll ∨
      s'.log.openings = s.log.openings ++ [s'.log.lastRoll] ∧ s.log.lastRoll < s'.log.lastRoll) ∧
    ∀ logline left now rollNow, a = .append logline left now rollNow →
      s.log.TooLong logline → s.log.lastRoll < rollNow → s'.log.file = some (.new rollNow)

/-- The names increase, and the open file has the last one. -/
def Rolled (l : LogFile) : Prop := l.Timed ∧ l.Increasing

theorem Rolled.disciplined {l : LogFile} (h : Rolled l) : Disciplined l := by
  obtain ⟨f, hf⟩ := h.1.exists_file
  have hopened : f.opened = l.lastRoll := by simpa [hf] using h.1.file
  refine ⟨by simp [hf], h.1.day, h.2.1, ?_⟩
  simp [openings, hf, hopened]

theorem start_rolled (rollSize flushInterval checkEveryN : Int) {now : Time} (hnow : 0 < now) :
    Rolled (start rollSize flushInterval checkEveryN now).log :=
  ⟨new_timed rollSize flushInterval checkEveryN hnow,
    (rollFile_opens _ now).increasing ⟨.nil, by simp [openings]⟩⟩

theorem flush_rolled {l l' : LogFile} (hl : Rolled l) (h : l.flush = .ok l') :
    Rolled l' ∧ l'.openings = l.openings ∧ l'.lastRoll = l.lastRoll := by
  obtain ⟨f, hf⟩ := hl.1.exists_file
  simp only [LogFile.flush, deref, hf, pure_eq_ok, ok_bind, Except.ok.injEq] at h
  subst h
  have hopenings : { l with file := some f.flush }.openings = l.openings := by
    simp [openings, hf, AppendFile.flush]
  refine ⟨⟨hl.1.congr rfl rfl (by rw [hf]; rfl), ?_⟩, hopenings, rfl⟩
  rw [Increasing, hopenings]
  exact hl.2

/-- One call of a log that has been rolled. -/
theorem step_keeps {s : LogState} (h : Rolled s.log) (a : LogStep) :
    Keeps s a (s.step a) ∧ ∀ s', s.step a = .ok s' → Rolled s'.log := by
  have hopens : ∀ (l : LogFile) (now : Time), s.log.Opens l now → l.Timed →
      Rolled l ∧ (l.openings = s.log.openings ∧ l.lastRoll = s.log.lastRoll ∨
        l.openings = s.log.openings ++ [l.lastRoll] ∧ s.log.lastRoll < l.lastRoll) := by
    intro l now hopens htimed
    refine ⟨⟨htimed, hopens.increasing h.2⟩, ?_⟩
    rcases hopens with hsame | ⟨hlt, hnew, hlast⟩
    · exact .inl hsame
    · rw [hlast]
      exact .inr ⟨hnew, hlt⟩
  cases a with
  | append logline left now rollNow =>
    obtain ⟨l, hl, htimed⟩ := append_timed h.1 logline left now rollNow
    obtain ⟨hrolled, hnames⟩ := hopens l rollNow (append_opens hl) htimed
    have hs : s.step (.append logline left now rollNow) = .ok ⟨l, s.appended ++ logline⟩ := by
      simp only [step, hl, ok_bind, pure_eq_ok]
    rw [hs]
    refine ⟨⟨_, rfl, hrolled.disciplined, hnames, ?_⟩, ?_⟩
    · rintro _ _ _ _ ⟨⟩ hlong hlate
      exact append_fresh hlong hlate hl
    · rintro s' ⟨⟩
      exact hrolled
  | flush =>
    obtain ⟨f, hf⟩ := h.1.exists_file
    obtain ⟨l, hl, -⟩ := flush_spec hf
    obtain ⟨hrolled, hsame⟩ := flush_rolled h hl
    have hs : s.step .flush = .ok { s with log := l } := by
      simp only [step, hl, ok_bind, pure_eq_ok]
    rw [hs]
    refine ⟨⟨_, rfl, hrolled.disciplined, .inl hsame, ?_⟩, ?_⟩
    · rintro _ _ _ _ ⟨⟩
    · rintro s' ⟨⟩
      exact hrolled
  | rollFile now =>
    have htimed : (s.log.rollFile now).1.Timed :=
      rollFile_timed (Int.le_of_lt h.1.positive) (.inr h.1)
    obtain ⟨hrolled, hnames⟩ := hopens _ now (rollFile_opens s.log now) htimed
    refine ⟨⟨_, rfl, hrolled.disciplined, hnames, ?_⟩, ?_⟩
    · rintro _ _ _ _ ⟨⟩
    · rintro s' ⟨⟩
      exact hrolled

/-- **Roll discipline.** For any sizes, any lines and any readings of the clock
of which the first is positive, every call returns and leaves an open file, the
start of the day of `lastRoll_` in `startTime_`, and names that are pairwise
distinct. A file is opened exactly when `lastRoll_` grows, and is opened when
the old one is too long and the clock is past `lastRoll_`. -/
theorem rolls_disciplined (rollSize flushInterval checkEveryN : Int) {now : Time} (hnow : 0 < now)
    (steps : List LogStep) :
    Disciplined (start rollSize flushInterval checkEveryN now).log ∧
      Steps step Keeps (start rollSize flushInterval checkEveryN now) steps := by
  have hstart := start_rolled rollSize flushInterval checkEveryN hnow
  refine ⟨hstart.disciplined, ?_⟩
  have hE : Along step (fun _ _ => True) (start rollSize flushInterval checkEveryN now) steps :=
    Steps.of_forall fun _ _ => trivial
  exact Steps.of_invariant (I := fun s : LogState => Rolled s.log)
    (fun s a h _ => (step_keeps h a).1) (fun s a s' h _ hs => (step_keeps h a).2 s' hs) hstart hE

/-- A clock that stands still and then goes back: the file that is too long
stays, and is replaced by the next line behind the last roll. -/
theorem rolls_disciplined_slowClock :
    Disciplined (start 2 3 1024 90000).log ∧ Steps step Keeps (start 2 3 1024 90000)
      [.append [1, 2, 3] 3 90000 90000, .append [4] 4 89999 89999, .append [5] 5 90001 90001] :=
  rolls_disciplined 2 3 1024 (by decide) _

end LogState

end Muduo
