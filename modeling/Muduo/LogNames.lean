import Muduo.LogRolling
import Muduo.TimeStampText

/-!
`LogFile::getLogFileName`: the second of opening between the name of the log and
those of the host and the process. The names are ordered as the files were
opened, also when the host or the process has changed between two of them.

* `name_lt`: a later second has a greater name;
* `read_back_iff`: the files of a directory in the order of their names are the
  log, exactly when no roll has found bytes in the buffer.
-/

namespace Muduo

open Lib

/-- What `gethostname` and `getpid` return. -/
structure ProcessInfo where
  gethostname : Option (List Char)
  getpid : Nat

/-- At most 255 characters. -/
def ProcessInfo.hostname (p : ProcessInfo) : List Char :=
  match p.gethostname with
  | some name => fit 256 name
  | none => "unknownhost".toList

namespace LogFile

/-- `strftime(…, ".%Y%m%d-%H%M%S.", &tm)` -/
def timebuf (tm : Tm) : List Char :=
  '.' :: (signed (tm.tm_year + 1900) ++ padded 2 (tm.tm_mon + 1) ++ padded 2 tm.tm_mday ++
    '-' :: (padded 2 tm.tm_hour ++ padded 2 tm.tm_min ++ padded 2 tm.tm_sec ++ ['.']))

def getLogFileName (basename : List Char) (process : ProcessInfo) (now : Time) : List Char :=
  basename ++ timebuf (gmtimeR now) ++ process.hostname ++ '.' :: decimal process.getpid ++
    ".log".toList

/-- The files opened, with their names; `process` is as it was at each second. -/
def files (basename : List Char) (process : Time → ProcessInfo) (l : LogFile) :
    List (List Char × List UInt8) :=
  let name time := getLogFileName basename (process time) time
  l.replaced.map (fun f => (name f.1, f.2)) ++
    l.file.toList.map fun f => (name f.opened, f.contents)

/-! ## The order of the names -/

/-- The numbers of the second, and the text behind them. -/
def nameFields (time : CivilTime) (rest : List Char) : List Field :=
  [⟨4, time.date.year.toNat, []⟩, ⟨2, time.date.month, []⟩, ⟨2, time.date.day, ['-']⟩,
    ⟨2, time.hour, []⟩, ⟨2, time.minute, []⟩, ⟨2, time.second, rest⟩]

theorem name_eq (basename : List Char) (process : ProcessInfo) {now : Time}
    (hyear : 1000 ≤ (civilTime now).date.year) :
    getLogFileName basename process now = basename ++ '.' :: printed (nameFields (civilTime now)
      ('.' :: process.hostname ++ '.' :: decimal process.getpid ++ ".log".toList)) := by
  obtain ⟨y, hy⟩ : ∃ y : Nat, (civilTime now).date.year = y :=
    ⟨(civilTime now).date.year.toNat, by omega⟩
  have hwide : decimal y = padded 4 y := (padded_wide (by decide) (show 10 ^ 3 ≤ y by omega)).symm
  have hmonth := (civilTime now).date.month_pos
  simp [getLogFileName, timebuf, gmtimeR, nameFields, printed, Field.text, hy, hwide,
    Nat.sub_add_cancel hmonth]

theorem nameFields_precedes {s s' : Time} (hfirst : 1000 ≤ (civilTime s).date.year)
    (hlast : (civilTime s').date.year ≤ 9999) (h : s < s') (rest rest' : List Char) :
    Precedes (nameFields (civilTime s) rest) (nameFields (civilTime s') rest') :=
  timeFields_precedes (Nat.zero_le 76) hfirst hlast h ['-'] [] rest rest' [] []

theorem year_of_pos {now : Time} (h : 0 ≤ now) : 1970 ≤ (civilTime now).date.year := by
  obtain ⟨n, rfl⟩ := Int.eq_ofNat_of_zero_le h
  exact (dateOf_year (n / 86400)).1

/-- A file that was opened in a later second has a greater name. -/
theorem name_lt (basename : List Char) (process process' : ProcessInfo) {s s' : Time} (hs : 0 ≤ s)
    (hlast : (civilTime s').date.year ≤ 9999) (h : s < s') :
    getLogFileName basename process s < getLogFileName basename process' s' := by
  have hfirst := year_of_pos hs
  have hfirst' := year_of_pos (Int.le_of_lt (Int.lt_of_le_of_lt hs h))
  rw [name_eq basename process (by omega), name_eq basename process' (by omega)]
  apply List.append_left_lt
  rw [List.cons_lt_cons_iff]
  exact .inr ⟨rfl, printed_lt (nameFields_precedes (by omega) hlast h _ _)⟩

end LogFile

/-! ## Runs -/

namespace LogState

open LogFile

theorem step_opens {s s' : LogState} {a : LogStep} (h : s.step a = .ok s') :
    ∃ now, s.log.Opens s'.log now := by
  cases a with
  | append logline left now rollNow =>
    obtain ⟨l, hl, hs⟩ := bind_eq_ok.mp h
    cases hs
    exact ⟨rollNow, append_opens hl⟩
  | flush =>
    obtain ⟨l, hl, hs⟩ := bind_eq_ok.mp h
    cases hs
    obtain ⟨f, hf, hl⟩ := bind_eq_ok.mp hl
    cases hl
    have hfile : s.log.file = some f := by
      cases hfile : s.log.file with
      | none => simp [deref, hfile] at hf
      | some g => simpa [deref, hfile] using hf
    exact ⟨0, .inl ⟨by simp [openings, hfile, AppendFile.flush], rfl⟩⟩
  | rollFile now =>
    cases h
    exact ⟨now, rollFile_opens s.log now⟩

/-- Every file was opened behind the epoch. -/
def Dated (l : LogFile) : Prop := 0 ≤ l.lastRoll ∧ ∀ time ∈ l.openings, 0 < time

theorem Dated.opens {l l' : LogFile} (hl : Dated l) {now : Time} (h : l.Opens l' now) :
    Dated l' := by
  rcases h with ⟨ho, hr⟩ | ⟨hlt, ho, hr⟩
  · exact ⟨hr ▸ hl.1, ho ▸ hl.2⟩
  · have hpos : 0 < now := Int.lt_of_le_of_lt hl.1 hlt
    refine ⟨hr ▸ Int.le_of_lt hpos, fun time htime => ?_⟩
    rw [ho, List.mem_append, List.mem_singleton] at htime
    rcases htime with htime | rfl
    · exact hl.2 time htime
    · exact hpos

theorem opened_dated {rollSize flushInterval checkEveryN : Int} {now : Time} {steps : List LogStep}
    {t : LogState} (hrun : Run step (start rollSize flushInterval checkEveryN now) steps t) :
    ∀ time ∈ t.log.openings, 0 < time := by
  have hstart : Dated (start rollSize flushInterval checkEveryN now).log :=
    Dated.opens ⟨Int.le_refl 0, by simp [openings]⟩ (rollFile_opens _ now)
  refine (hrun.invariant (I := fun s : LogState => Dated s.log) (E := fun _ _ => True)
    (Steps.of_forall fun _ _ => trivial) hstart fun s a s' h _ hs => ?_).2
  obtain ⟨now, hopens⟩ := step_opens hs
  exact h.opens hopens

/-- The names in a log are ordered as the files were opened. -/
theorem files_sorted (basename : List Char) (process : Time → ProcessInfo)
    {rollSize flushInterval checkEveryN : Int} {now : Time} {steps : List LogStep} {t : LogState}
    (hrun : Run step (start rollSize flushInterval checkEveryN now) steps t)
    (hyear : ∀ time ∈ t.log.openings, (civilTime time).date.year ≤ 9999) :
    (t.log.files basename process).Pairwise fun f g => f.1 < g.1 := by
  have hnames : (t.log.files basename process).map Prod.fst =
      t.log.openings.map fun time => getLogFileName basename (process time) time := by
    simp [files, openings, Function.comp_def]
  rw [← List.pairwise_map (f := Prod.fst) (R := (· < ·)), hnames, List.pairwise_map]
  have hdated := opened_dated hrun
  refine (opened_increasing hrun).imp_of_mem fun {s s'} hs hs' hlt => ?_
  exact name_lt basename _ _ (Int.le_of_lt (hdated s hs)) (hyear s' hs') hlt

theorem contents_files (basename : List Char) (process : Time → ProcessInfo) (l : LogFile) :
    (l.files basename process).flatMap Prod.snd = l.contents := by
  cases hf : l.file <;> simp [files, contents, hf, List.flatMap_map]

/-- **Reading the log back.** At the end of a run with a last flush, list the
files in any order and sort them by name: they are then in the order of opening,
and one behind the other they are what was appended exactly if no roll has
replaced a file with bytes in its buffer. -/
theorem read_back_iff (basename : List Char) (process : Time → ProcessInfo)
    {rollSize flushInterval checkEveryN : Int} {now : Time} {steps : List LogStep} {t : LogState}
    (hrun : Run step (start rollSize flushInterval checkEveryN now) (steps ++ [.flush]) t)
    (hsteps : Along step Allowed (start rollSize flushInterval checkEveryN now)
      (steps ++ [.flush]))
    (hyear : ∀ time ∈ t.log.openings, (civilTime time).date.year ≤ 9999)
    {listing : List (List Char × List UInt8)}
    (hperm : listing.Perm (t.log.files basename process))
    (hsorted : listing.Pairwise fun f g => ¬ g.1 < f.1) :
    listing = t.log.files basename process ∧
      (listing.flatMap Prod.snd = t.appended ↔
        Along step Empties (start rollSize flushInterval checkEveryN now) (steps ++ [.flush])) := by
  have hfiles := files_sorted basename process hrun hyear
  have hlisting : listing = t.log.files basename process := by
    refine hperm.eq_of_pairwise (fun f g hf hg hle hge => ?_) hsorted
      (hfiles.imp fun hlt => List.lt_asymm hlt)
    -- no two files have one name
    have hnodup : ((t.log.files basename process).map Prod.fst).Nodup := by
      refine List.pairwise_map.mpr (hfiles.imp fun hlt heq => ?_)
      rw [heq] at hlt
      exact List.lt_irrefl _ hlt
    have hname : f.1 = g.1 := List.le_antisymm (List.not_lt.mp hle) (List.not_lt.mp hge)
    exact List.inj_on_of_nodup_map hnodup (hperm.subset hf) hg hname
  refine ⟨hlisting, ?_⟩
  have hstart := start_kept rollSize flushInterval checkEveryN now
  have hinv : (start rollSize flushInterval checkEveryN now).Inv := by
    rw [Inv, hstart]
    exact Nat.zero_le _
  rw [hlisting, contents_files, contents_flushed hrun, hrun.holds_iff (I := Inv)
    (J := fun s => s.log.kept = s.appended) hsteps hinv (fun _ _ _ h ha hs => h.step ha hs)
    (fun _ _ _ h ha hs => kept_eq_iff h ha hs)]
  exact and_iff_right hstart

/-- The process of the sample, another one in each second. -/
def eachSecond (time : Time) : ProcessInfo := ⟨none, time.toNat⟩

/-- Two files, the second one opened on the next day. -/
theorem read_back_iff_sample :
    ∃ t, Run step (start 100 3 1024 86399) ([.append [1, 2, 3] 3 86399 86399, .flush,
        .rollFile 86400, .append [4] 1 86400 86400] ++ [.flush]) t ∧
      (t.log.files "echo".toList eachSecond).map Prod.fst =
        ["echo.19700101-235959.unknownhost.86399.log".toList,
          "echo.19700102-000000.unknownhost.86400.log".toList] ∧
      ((t.log.files "echo".toList eachSecond).flatMap Prod.snd = t.appended ↔
        Along step Empties (start 100 3 1024 86399) ([.append [1, 2, 3] 3 86399 86399, .flush,
          .rollFile 86400, .append [4] 1 86400 86400] ++ [.flush])) := by
  refine ⟨_, .cons rfl (.cons rfl (.cons rfl (.cons rfl (.cons rfl (.nil _))))),
    by decide +kernel, ?_⟩
  refine (@read_back_iff "echo".toList eachSecond 100 3 1024 86399 [.append [1, 2, 3] 3 86399 86399,
    .flush, .rollFile 86400, .append [4] 1 86400 86400] _
    (.cons rfl (.cons rfl (.cons rfl (.cons rfl (.cons rfl (.nil _)))))) (by decide) (by decide) _
    (.refl _) (by decide +kernel)).2

end LogState

end Muduo
