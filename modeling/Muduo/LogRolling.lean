import Muduo.LogFile

/-!
What a roll does to the log. The bytes that a file has not received when the
next one is opened are lost with its stream.

* `rollFile_spec`, `append_spec`: the bytes that a step loses, if it does;
* `opened_increasing`: no file is opened twice;
* `rolling_keeps_iff`: with a last flush, nothing is lost exactly when every
  roll finds the buffer of the stream empty.
-/

namespace Muduo

open Lib

namespace AppendFile

theorem write_spec (f : AppendFile) (msg : List UInt8) (left : Nat) :
    (f.write msg left).contents ++ (f.write msg left).buffer = f.contents ++ f.buffer ++ msg := by
  simp only [write, List.append_assoc, List.take_append_drop]

theorem length_write_buffer {f : AppendFile} {msg : List UInt8} {left : Nat}
    (h : f.Buffers msg left) : (f.write msg left).buffer.length = left := by
  have hle : left ≤ f.buffer.length + msg.length := by
    unfold Buffers at h
    split at h <;> omega
  simp only [write, List.length_drop, List.length_append]
  omega

end AppendFile

namespace LogFile

/-- What is in the buffer of the open file. -/
def unflushed (l : LogFile) : List UInt8 := l.file.elim [] AppendFile.buffer

/-- What has reached a file or still can. -/
def kept (l : LogFile) : List UInt8 := l.contents ++ l.unflushed

theorem kept_some {l : LogFile} {f : AppendFile} (hf : l.file = some f) :
    l.kept = l.replaced.flatMap Prod.snd ++ (f.contents ++ f.buffer) := by
  simp [kept, contents, unflushed, hf]

/-- A roll that opens a file loses what is in the buffer of the old one. -/
theorem rollFile_spec (l : LogFile) (now : Time) :
    (l.rollFile now).1.kept ++ (if l.lastRoll < now then l.unflushed else []) = l.kept := by
  unfold rollFile
  split
  · cases hf : l.file <;> simp [kept, contents, unflushed, AppendFile.new, hf]
  · exact List.append_nil _

/-- The line makes `append_unlocked` roll the file, and a new one is opened. -/
def Rolls (l : LogFile) (logline : List UInt8) (now rollNow : Time) : Prop :=
  l.lastRoll < rollNow ∧
    (l.rollBytes < l.file.elim 0 AppendFile.writtenBytes + logline.length ∨
      l.checkEveryN ≤ l.count + 1 ∧ period now ≠ l.startTime)

instance (l : LogFile) (logline : List UInt8) (now rollNow : Time) :
    Decidable (l.Rolls logline now rollNow) := inferInstanceAs (Decidable (_ ∧ _))

/-- An append that rolls loses the bytes it leaves in the buffer. -/
theorem append_spec {l : LogFile} {f : AppendFile} (hf : l.file = some f) {logline : List UInt8}
    {left : Nat} (hleft : f.Buffers logline left) (now rollNow : Time) :
    ∃ l' lost, l.append logline left now rollNow = .ok l' ∧ l'.kept ++ lost = l.kept ++ logline ∧
      lost.length = if l.Rolls logline now rollNow then left else 0 := by
  let f₁ := f.append logline left
  have hlen : f₁.buffer.length = left := AppendFile.length_write_buffer hleft
  -- before a roll or a flush nothing is lost
  have hwritten : ∀ l₁ : LogFile, l₁.file = some f₁ → l₁.replaced = l.replaced →
      l₁.kept = l.kept ++ logline := by
    intro l₁ h₁ hr
    have hwrite := AppendFile.write_spec f logline left
    rw [kept_some h₁, kept_some hf, hr, List.append_assoc, ← hwrite]
    rfl
  have hrolled : ∀ l₁ : LogFile, l₁.file = some f₁ → l₁.replaced = l.replaced →
      l₁.lastRoll = l.lastRoll →
      ∃ lost, (l₁.rollFile rollNow).1.kept ++ lost = l.kept ++ logline ∧
        lost.length = if l.lastRoll < rollNow then left else 0 := by
    intro l₁ h₁ hr hl
    refine ⟨_, (rollFile_spec l₁ rollNow).trans (hwritten l₁ h₁ hr), ?_⟩
    rw [hl]
    split
    · simp [unflushed, h₁, hlen]
    · rfl
  by_cases hsize : l.rollBytes < f.writtenBytes + logline.length
  · obtain ⟨lost, hkept, hlost⟩ := hrolled { l with file := some f₁ } rfl rfl rfl
    refine ⟨_, lost, ?_, hkept, ?_⟩
    · simp only [append, deref, hf, pure_eq_ok, ok_bind]
      exact if_pos hsize
    · simp [hlost, Rolls, hf, hsize]
  by_cases hcheck : l.checkEveryN ≤ l.count + 1
  · by_cases hperiod : period now ≠ l.startTime
    · obtain ⟨lost, hkept, hlost⟩ := hrolled { l with file := some f₁, count := 0 } rfl rfl rfl
      refine ⟨_, lost, ?_, hkept, ?_⟩
      · simp only [append, deref, hf, pure_eq_ok, ok_bind]
        exact (if_neg hsize).trans ((if_pos hcheck).trans (if_pos hperiod))
      · simp [hlost, Rolls, hf, hsize, hcheck, hperiod]
    · have hstays : ¬ l.Rolls logline now rollNow := by simp [Rolls, hf, hsize, hperiod]
      by_cases hflush : l.flushInterval < now - l.lastFlush
      · refine ⟨{ l with count := 0, lastFlush := now, file := some f₁.flush }, [], ?_, ?_,
          (if_neg hstays).symm⟩
        · simp only [append, deref, hf, pure_eq_ok, ok_bind]
          exact (if_neg hsize).trans ((if_pos hcheck).trans ((if_neg hperiod).trans (if_pos hflush)))
        · rw [List.append_nil, ← hwritten { l with file := some f₁ } rfl rfl]
          simp [kept, contents, unflushed, AppendFile.flush]
      · refine ⟨{ l with count := 0, file := some f₁ }, [], ?_, ?_, (if_neg hstays).symm⟩
        · simp only [append, deref, hf, pure_eq_ok, ok_bind]
          exact (if_neg hsize).trans ((if_pos hcheck).trans ((if_neg hperiod).trans (if_neg hflush)))
        · rw [List.append_nil]
          exact hwritten _ rfl rfl
  · have hstays : ¬ l.Rolls logline now rollNow := by simp [Rolls, hf, hsize, hcheck]
    refine ⟨{ l with count := l.count + 1, file := some f₁ }, [], ?_, ?_, (if_neg hstays).symm⟩
    · simp only [append, deref, hf, pure_eq_ok, ok_bind]
      exact (if_neg hsize).trans (if_neg hcheck)
    · rw [List.append_nil]
      exact hwritten _ rfl rfl

theorem flush_spec {l : LogFile} {f : AppendFile} (hf : l.file = some f) :
    ∃ l', l.flush = .ok l' ∧ l'.kept = l.kept ∧ l'.contents = l'.kept := by
  refine ⟨{ l with file := some f.flush }, ?_, ?_, ?_⟩
  · simp only [flush, deref, hf, pure_eq_ok, ok_bind]
  · simp [kept, contents, unflushed, AppendFile.flush, hf]
  · simp [kept, contents, unflushed, AppendFile.flush]

theorem deref_none {l : LogFile} (hf : l.file = none) : l.deref = .error .nullFile := by
  rw [deref, hf]

/-! ## The names of the files -/

/-- The times in the names of the files, in the order of opening. -/
def openings (l : LogFile) : List Time :=
  l.replaced.map Prod.fst ++ l.file.toList.map AppendFile.opened

/-- `l'` has the files of `l`, and maybe one that was opened at `now`. -/
def Opens (l l' : LogFile) (now : Time) : Prop :=
  l'.openings = l.openings ∧ l'.lastRoll = l.lastRoll ∨
    l.lastRoll < now ∧ l'.openings = l.openings ++ [now] ∧ l'.lastRoll = now

theorem rollFile_opens (l : LogFile) (now : Time) : l.Opens (l.rollFile now).1 now := by
  unfold rollFile
  split
  · rename_i hlt
    refine .inr ⟨hlt, ?_, rfl⟩
    cases hf : l.file <;> simp [openings, AppendFile.new, hf]
  · exact .inl ⟨rfl, rfl⟩

theorem append_opens {l l' : LogFile} {logline : List UInt8} {left : Nat} {now rollNow : Time}
    (hok : l.append logline left now rollNow = .ok l') : l.Opens l' rollNow := by
  obtain ⟨f, hf, hok⟩ := bind_eq_ok.mp hok
  have hfile : l.file = some f := by
    cases h : l.file with
    | none => simp [deref, h] at hf
    | some g => simpa [deref, h] using hf
  -- the file keeps its name
  have hsame : ∀ l₁ : LogFile, l₁.file.map AppendFile.opened = some f.opened →
      l₁.replaced = l.replaced → l₁.openings = l.openings := by
    intro l₁ h₁ hr
    obtain ⟨g, hg, hopened⟩ := Option.map_eq_some_iff.mp h₁
    simp [openings, hfile, hg, hr, hopened]
  have hroll : ∀ l₁ : LogFile, l₁.openings = l.openings → l₁.lastRoll = l.lastRoll →
      l.Opens (l₁.rollFile rollNow).1 rollNow := by
    intro l₁ ho hl
    have := rollFile_opens l₁ rollNow
    rwa [Opens, ho, hl] at this
  dsimp only at hok
  split at hok
  · cases hok
    exact hroll _ (hsame _ rfl rfl) rfl
  split at hok
  · split at hok
    · cases hok
      exact hroll _ (hsame _ rfl rfl) rfl
    · split at hok <;> cases hok <;> exact .inl ⟨hsame _ rfl rfl, rfl⟩
  · cases hok
    exact .inl ⟨hsame _ rfl rfl, rfl⟩

/-- Names are used in the order of time, and the last is not after `lastRoll_`. -/
def Increasing (l : LogFile) : Prop :=
  l.openings.Pairwise (· < ·) ∧ ∀ time ∈ l.openings, time ≤ l.lastRoll

theorem Opens.increasing {l l' : LogFile} {now : Time} (h : l.Opens l' now) (hl : l.Increasing) :
    l'.Increasing := by
  rcases h with ⟨ho, hr⟩ | ⟨hlt, ho, hr⟩
  · rw [Increasing, ho, hr]
    exact hl
  · rw [Increasing, ho, hr]
    refine ⟨List.pairwise_append.mpr ⟨hl.1, List.pairwise_singleton .., ?_⟩, ?_⟩
    · intro time htime now' hnow
      rw [List.mem_singleton.mp hnow]
      exact Int.lt_of_le_of_lt (hl.2 time htime) hlt
    · intro time htime
      rcases List.mem_append.mp htime with htime | htime
      · exact Int.le_of_lt (Int.lt_of_le_of_lt (hl.2 time htime) hlt)
      · exact Int.le_of_eq (List.mem_singleton.mp htime)

end LogFile

/-! ## Runs -/

/-- A log and the lines appended so far, one behind the other. -/
structure LogState where
  log : LogFile
  appended : List UInt8
  deriving DecidableEq, Repr

inductive LogStep where
  | append (logline : List UInt8) (left : Nat) (now rollNow : Time)
  | flush
  | rollFile (now : Time)
  deriving DecidableEq, Repr

namespace LogState

open LogFile

/-- A log that is constructed at the time `now`. -/
def start (rollSize flushInterval checkEveryN : Int) (now : Time) : LogState :=
  ⟨.new rollSize flushInterval checkEveryN now, []⟩

def step (s : LogState) : LogStep → Checked LogState
  | .append logline left now rollNow => do
    let log ← s.log.append logline left now rollNow
    return ⟨log, s.appended ++ logline⟩
  | .flush => do
    let log ← s.log.flush
    return { s with log }
  | .rollFile now => return { s with log := (s.log.rollFile now).1 }

/-- stdio keeps to its rules. -/
def Allowed (s : LogState) : LogStep → Prop
  | .append logline left _ _ => ∀ f ∈ s.log.file, f.Buffers logline left
  | _ => True

/-- The file is there, and if this step replaces it, nothing is in its buffer. -/
def Empties (s : LogState) : LogStep → Prop
  | .append logline left now rollNow =>
    s.log.file ≠ none ∧ (s.log.Rolls logline now rollNow → left = 0)
  | .flush => s.log.file ≠ none
  | .rollFile now => s.log.lastRoll < now → s.log.unflushed = []

instance (s : LogState) (a : LogStep) : Decidable (s.Allowed a) := by
  cases a <;> unfold Allowed <;> infer_instance

instance (s : LogState) (a : LogStep) : Decidable (s.Empties a) := by
  cases a <;> unfold Empties <;> infer_instance

def LogStep.logline : LogStep → List UInt8
  | .append logline _ _ _ => logline
  | _ => []

/-- A step needs the file, if it is not a roll; and what it loses is what it
leaves in the buffer that it replaces. -/
theorem step_spec {s : LogState} {a : LogStep} (ha : s.Allowed a) :
    (∃ s' lost, s.step a = .ok s' ∧ s'.log.kept ++ lost = s.log.kept ++ LogStep.logline a ∧
      s'.appended = s.appended ++ LogStep.logline a ∧ (lost = [] ↔ s.Empties a)) ∨
    s.step a = .error .nullFile ∧ ¬ s.Empties a := by
  cases a with
  | append logline left now rollNow =>
    cases hf : s.log.file with
    | none =>
      refine .inr ⟨?_, fun h => h.1 hf⟩
      simp only [step, LogFile.append, deref_none hf, error_bind]
    | some f =>
      obtain ⟨l, lost, hl, hkept, hlost⟩ := append_spec hf (ha f hf) now rollNow
      refine .inl ⟨⟨l, s.appended ++ logline⟩, lost, ?_, hkept, rfl, ?_⟩
      · simp only [step, hl, ok_bind, pure_eq_ok]
      · rw [← List.length_eq_zero_iff, hlost, Empties, hf]
        split <;> simp [*]
  | flush =>
    cases hf : s.log.file with
    | none =>
      refine .inr ⟨?_, fun h => h hf⟩
      simp only [step, LogFile.flush, deref_none hf, error_bind]
    | some f =>
      obtain ⟨l, hl, hkept, -⟩ := flush_spec hf
      refine .inl ⟨{ s with log := l }, [], ?_, ?_, (List.append_nil _).symm, ?_⟩
      · simp only [step, hl, ok_bind, pure_eq_ok]
      · rw [hkept]
        rfl
      · simp [Empties, hf]
  | rollFile now =>
    refine .inl ⟨_, _, rfl, (rollFile_spec s.log now).trans (List.append_nil _).symm,
      (List.append_nil _).symm, ?_⟩
    by_cases hroll : s.log.lastRoll < now <;> simp [Empties, hroll]

theorem of_step {s s' : LogState} {a : LogStep} (ha : s.Allowed a) (hs : s.step a = .ok s') :
    ∃ lost, s'.log.kept ++ lost = s.log.kept ++ LogStep.logline a ∧
      s'.appended = s.appended ++ LogStep.logline a ∧ (lost = [] ↔ s.Empties a) := by
  rcases step_spec ha with ⟨s₁, lost, hs₁, hspec⟩ | ⟨herr, -⟩
  · cases hs₁.symm.trans hs
    exact ⟨lost, hspec⟩
  · cases herr.symm.trans hs

/-- No more is kept than was appended. -/
def Inv (s : LogState) : Prop := s.log.kept.length ≤ s.appended.length

theorem Inv.step {s s' : LogState} (h : s.Inv) {a : LogStep} (ha : s.Allowed a)
    (hs : s.step a = .ok s') : s'.Inv := by
  obtain ⟨lost, hkept, happ, -⟩ := of_step ha hs
  have hlen := congrArg List.length hkept
  simp only [List.length_append] at hlen
  unfold Inv at h ⊢
  rw [happ, List.length_append]
  omega

/-- What is lost once does not come back. -/
theorem kept_eq_iff {s s' : LogState} (h : s.Inv) {a : LogStep} (ha : s.Allowed a)
    (hs : s.step a = .ok s') :
    s'.log.kept = s'.appended ↔ s.log.kept = s.appended ∧ s.Empties a := by
  obtain ⟨lost, hkept, happ, hlost⟩ := of_step ha hs
  rw [← hlost, happ]
  constructor
  · intro heq
    have hlen := congrArg List.length hkept
    have hlen' := congrArg List.length heq
    simp only [List.length_append] at hlen hlen'
    unfold Inv at h
    have hnil : lost = [] := List.length_eq_zero_iff.mp (by omega)
    rw [hnil, List.append_nil, heq, List.append_left_inj] at hkept
    exact ⟨hkept.symm, hnil⟩
  · rintro ⟨heq, rfl⟩
    rw [List.append_nil] at hkept
    rw [hkept, heq]

theorem start_kept (rollSize flushInterval checkEveryN : Int) (now : Time) :
    (start rollSize flushInterval checkEveryN now).log.kept = [] := by
  simp only [start, LogFile.new, rollFile]
  split <;> rfl

/-- No file is opened twice, whatever the clock says. -/
theorem opened_increasing {rollSize flushInterval checkEveryN : Int} {now : Time}
    {steps : List LogStep} {t : LogState}
    (hrun : Run step (start rollSize flushInterval checkEveryN now) steps t) :
    t.log.openings.Pairwise (· < ·) := by
  have hstart : (start rollSize flushInterval checkEveryN now).log.Increasing :=
    (rollFile_opens _ now).increasing ⟨.nil, by simp [openings]⟩
  have hE : Along step (fun _ _ => True) (start rollSize flushInterval checkEveryN now) steps :=
    Steps.of_forall fun _ _ => trivial
  refine (hrun.invariant (I := fun s : LogState => s.log.Increasing) hE hstart fun s a s' h _ hs => ?_).1
  cases a with
  | append logline left now rollNow =>
    obtain ⟨l, hl, hs⟩ := bind_eq_ok.mp hs
    cases hs
    exact (append_opens hl).increasing h
  | flush =>
    obtain ⟨l, hl, hs⟩ := bind_eq_ok.mp hs
    cases hs
    cases hf : s.log.file with
    | none => simp [LogFile.flush, deref_none hf] at hl
    | some f =>
      simp only [LogFile.flush, deref, hf, pure_eq_ok, ok_bind, Except.ok.injEq] at hl
      subst hl
      simpa [Increasing, openings, hf, AppendFile.flush] using h
  | rollFile now =>
    cases hs
    exact (rollFile_opens s.log now).increasing h

/-- Behind a flush the files hold all that is kept. -/
theorem contents_flushed {s t : LogState} {steps : List LogStep}
    (hrun : Run step s (steps ++ [.flush]) t) : t.log.contents = t.log.kept := by
  obtain ⟨u, -, hlast⟩ := hrun.split
  cases hlast with
  | cons hs hnil =>
    cases hnil
    cases hf : u.log.file with
    | none => simp [step, LogFile.flush, deref_none hf] at hs
    | some f =>
      obtain ⟨l, hl, -, hcontents⟩ := flush_spec hf
      simp only [step, hl, ok_bind, pure_eq_ok, Except.ok.injEq] at hs
      subst hs
      exact hcontents

theorem run_of_empties {s : LogState} {steps : List LogStep} (hsteps : Along step Allowed s steps)
    (hempties : Along step Empties s steps) : ∃ t, Run step s steps t := by
  have hnext : ∀ (s : LogState) a, True → s.Allowed a ∧ s.Empties a →
      ∃ s', s.step a = .ok s' ∧ True := by
    intro s a _ ha
    rcases step_spec ha.1 with ⟨s', -, hs, -⟩ | ⟨-, hno⟩
    · exact ⟨s', hs, trivial⟩
    · exact absurd ha.2 hno
  obtain ⟨t, hrun, -⟩ := Run.progress hnext trivial (hsteps.and hempties)
  exact ⟨t, hrun⟩

/-- **Rolling the log.** For any clock, any sizes and any choices of stdio: when
appends, flushes and rolls are followed by a last flush, the files in the order
of opening hold exactly what was appended if and only if the file is there when
it is used, and no roll replaces a file with bytes in its buffer. -/
theorem rolling_keeps_iff (rollSize flushInterval checkEveryN : Int) (now : Time)
    (steps : List LogStep)
    (hsteps : Along step Allowed (start rollSize flushInterval checkEveryN now)
      (steps ++ [.flush])) :
    (∃ t, Run step (start rollSize flushInterval checkEveryN now) (steps ++ [.flush]) t ∧
      t.log.contents = t.appended) ↔
    Along step Empties (start rollSize flushInterval checkEveryN now) (steps ++ [.flush]) := by
  have hstart := start_kept rollSize flushInterval checkEveryN now
  have hinv : (start rollSize flushInterval checkEveryN now).Inv := by
    rw [Inv, hstart]
    exact Nat.zero_le _
  have hflushed : ∀ t, Run step (start rollSize flushInterval checkEveryN now)
      (steps ++ [.flush]) t →
      (t.log.contents = t.appended ↔
        Along step Empties (start rollSize flushInterval checkEveryN now) (steps ++ [.flush])) := by
    intro t hrun
    rw [contents_flushed hrun, hrun.holds_iff (I := Inv) (J := fun s => s.log.kept = s.appended)
      hsteps hinv (fun _ _ _ h ha hs => h.step ha hs) (fun _ _ _ h ha hs => kept_eq_iff h ha hs)]
    exact and_iff_right hstart
  constructor
  · rintro ⟨t, hrun, hcontents⟩
    exact (hflushed t hrun).mp hcontents
  · intro hempties
    obtain ⟨t, hrun⟩ := run_of_empties hsteps hempties
    exact ⟨t, hrun, (hflushed t hrun).mpr hempties⟩

/-- A flush before each roll. -/
theorem rolling_keeps_iff_sample :
    (∃ t, Run step (start 100 3 1024 1000) [.append [1, 2, 3] 3 1001 1001, .flush, .rollFile 1002,
        .append [4] 1 1003 1003, .flush] t ∧ t.log.contents = t.appended) ↔
    Along step Empties (start 100 3 1024 1000) [.append [1, 2, 3] 3 1001 1001, .flush,
      .rollFile 1002, .append [4] 1 1003 1003, .flush] :=
  rolling_keeps_iff 100 3 1024 1000 [.append [1, 2, 3] 3 1001 1001, .flush, .rollFile 1002,
    .append [4] 1 1003 1003] (by decide)

/-- The line that makes the file too long is still in the buffer when the file
is replaced. -/
theorem roll_loses_line :
    (Along step Allowed (start 4 3 1024 1000) [.append [1, 2, 3, 4, 5] 5 1001 1001, .flush]) ∧
    ∃ t, Run step (start 4 3 1024 1000) [.append [1, 2, 3, 4, 5] 5 1001 1001, .flush] t ∧
      t.appended = [1, 2, 3, 4, 5] ∧ t.log.contents = [] :=
  ⟨by decide, _, .cons rfl (.cons rfl (.nil _)), rfl, rfl⟩

end LogState

end Muduo
