import Mathlib.Algebra.Order.SuccPred
import Mathlib.Order.Monotone.Basic

/-!
The proleptic Gregorian calendar, and civil time without leap seconds.

A date is a valid one. `dateOf n` is the date `n` days behind the epoch: the
calendar is what takes a date to the next.

* `dateOf_lt`: days and dates are in the same order;
* `civilTime_addHours`: what remains on a day keeps its date.
-/

namespace Muduo.Lib

def isLeap (year : Int) : Bool := year % 4 = 0 ∧ (year % 100 ≠ 0 ∨ year % 400 = 0)

def daysInMonth (year : Int) : Nat → Nat
  | 2 => if isLeap year then 29 else 28
  | 4 | 6 | 9 | 11 => 30
  | _ => 31

theorem daysInMonth_pos (year : Int) (month : Nat) : 0 < daysInMonth year month := by
  unfold daysInMonth
  split
  · split <;> decide
  · decide
  · decide
  · decide
  · decide
  · decide

theorem daysInMonth_le (year : Int) (month : Nat) : daysInMonth year month ≤ 31 := by
  unfold daysInMonth
  split
  · split <;> decide
  · decide
  · decide
  · decide
  · decide
  · decide

@[ext] structure Date where
  year : Int
  month : Nat
  day : Nat
  month_pos : 0 < month
  month_le : month ≤ 12
  day_pos : 0 < day
  day_le : day ≤ daysInMonth year month
  deriving DecidableEq

namespace Date

/-- The first of January 1970. -/
def epoch : Date := ⟨1970, 1, 1, by decide, by decide, by decide, by decide⟩

/-- The day after. -/
def next (d : Date) : Date :=
  if hday : d.day < daysInMonth d.year d.month then
    { d with day := d.day + 1, day_pos := Nat.succ_pos _, day_le := hday }
  else if hmonth : d.month < 12 then
    ⟨d.year, d.month + 1, 1, Nat.succ_pos _, hmonth, Nat.one_pos, daysInMonth_pos ..⟩
  else
    ⟨d.year + 1, 1, 1, Nat.one_pos, by decide, Nat.one_pos, daysInMonth_pos ..⟩

/-- The day before. -/
def prev (d : Date) : Date :=
  if hday : 1 < d.day then
    { d with
      day := d.day - 1
      day_pos := Nat.sub_pos_of_lt hday
      day_le := (Nat.sub_le ..).trans d.day_le }
  else if hmonth : 1 < d.month then
    ⟨d.year, d.month - 1, daysInMonth d.year (d.month - 1), Nat.sub_pos_of_lt hmonth,
      (Nat.sub_le ..).trans d.month_le, daysInMonth_pos .., Nat.le_refl _⟩
  else
    ⟨d.year - 1, 12, 31, by decide, Nat.le_refl _, by decide, Nat.le_refl _⟩

theorem next_prev (d : Date) : d.prev.next = d := by
  have hday_pos := d.day_pos
  have hday_le := d.day_le
  have hmonth_pos := d.month_pos
  have hmonth_le := d.month_le
  by_cases hday : 1 < d.day
  · have hlt : d.day - 1 < daysInMonth d.year d.month := by omega
    simp only [prev, hday, next, hlt, ↓reduceDIte]
    ext
    · rfl
    · rfl
    · exact Nat.sub_add_cancel hday_pos
  have hone : d.day = 1 := by omega
  by_cases hmonth : 1 < d.month
  · have hlt : d.month - 1 < 12 := by omega
    simp only [prev, hday, hmonth, next, Nat.lt_irrefl, hlt, ↓reduceDIte]
    ext
    · rfl
    · exact Nat.sub_add_cancel hmonth_pos
    · exact hone.symm
  · have hlast : ¬ 31 < daysInMonth (d.year - 1) 12 := Nat.lt_irrefl 31
    simp only [prev, hday, hmonth, next, Nat.lt_irrefl, hlast, ↓reduceDIte]
    ext
    · exact Int.sub_add_cancel ..
    · change 1 = d.month
      omega
    · exact hone.symm

theorem day_le_31 (d : Date) : d.day ≤ 31 := d.day_le.trans (daysInMonth_le ..)

/-! ## The order of dates -/

/-- By year, month and day. -/
def Before (d e : Date) : Prop :=
  d.year < e.year ∨ d.year = e.year ∧ (d.month < e.month ∨ d.month = e.month ∧ d.day < e.day)

instance : Preorder Date where
  le d e := ¬ Before e d
  lt := Before
  le_refl d := by
    unfold Before
    omega
  le_trans d e f := by
    unfold Before
    omega
  lt_iff_le_not_ge d e := by
    unfold Before
    omega

theorem lt_iff {d e : Date} : d < e ↔ d.year < e.year ∨ d.year = e.year ∧
    (d.month < e.month ∨ d.month = e.month ∧ d.day < e.day) := Iff.rfl

theorem year_mono {d e : Date} (h : d ≤ e) : d.year ≤ e.year := by
  have hnot : ¬ Before e d := h
  unfold Before at hnot
  omega

theorem lt_next (d : Date) : d < d.next := by
  rw [lt_iff]
  unfold next
  split
  · exact .inr ⟨rfl, .inr ⟨rfl, Nat.lt_succ_self _⟩⟩
  split
  · exact .inr ⟨rfl, .inl (Nat.lt_succ_self _)⟩
  · exact .inl (Int.lt_succ _)

/-- The year of the next day is this one or the next. -/
theorem next_year (d : Date) : d.next.year = d.year ∨ d.next.year = d.year + 1 := by
  unfold next
  split
  · exact .inl rfl
  split
  · exact .inl rfl
  · exact .inr rfl

end Date

/-- The date `n` days behind the epoch. -/
def dateOf : Int → Date
  | .ofNat n => Date.next^[n] .epoch
  | .negSucc n => Date.prev^[n + 1] .epoch

theorem dateOf_succ (n : Int) : dateOf (n + 1) = (dateOf n).next := by
  cases n with
  | ofNat n => exact Function.iterate_succ_apply' ..
  | negSucc n =>
    have hprev : dateOf (.negSucc n) = (Date.prev^[n] .epoch).prev :=
      Function.iterate_succ_apply' ..
    rw [hprev, Date.next_prev]
    cases n with
    | zero => rfl
    | succ n => rfl

/-- **Days and dates** are in the same order. -/
theorem dateOf_lt {m n : ℤ} (h : m < n) : dateOf m < dateOf n := by
  have hmono : StrictMono dateOf := by
    apply strictMono_int_of_lt_succ
    intro n
    rw [dateOf_succ]
    exact Date.lt_next _
  exact hmono h

theorem dateOf_le {m n : ℤ} (h : m ≤ n) : dateOf m ≤ dateOf n := by
  rcases Int.lt_or_eq_of_le h with hlt | rfl
  · exact le_of_lt (dateOf_lt hlt)
  · exact le_rfl

theorem dateOf_year (n : Nat) : 1970 ≤ (dateOf n).year ∧ (dateOf n).year ≤ 1970 + n := by
  induction n with
  | zero => exact ⟨Int.le_refl _, Int.le_refl _⟩
  | succ n ih =>
    rw [Int.natCast_succ, dateOf_succ]
    have hnext := (dateOf n).next_year
    omega

/-! ## Civil time -/

structure CivilTime where
  date : Date
  hour : Nat
  minute : Nat
  second : Nat
  hour_lt : hour < 24
  minute_lt : minute < 60
  second_lt : second < 60

/-- The civil time, `s` seconds behind the epoch. -/
def civilTime (s : Int) : CivilTime where
  date := dateOf (s / 86400)
  hour := (s % 86400 / 3600).toNat
  minute := (s % 3600 / 60).toNat
  second := (s % 60).toNat
  hour_lt := by omega
  minute_lt := by omega
  second_lt := by omega

/-- On the same day only the time changes. -/
theorem civilTime_addHours {s : Int} {h : Nat} (hday : s % 86400 + 3600 * h < 86400) :
    (civilTime (s + 3600 * h)).date = (civilTime s).date ∧
      (civilTime (s + 3600 * h)).hour = (civilTime s).hour + h ∧
      (civilTime (s + 3600 * h)).minute = (civilTime s).minute ∧
      (civilTime (s + 3600 * h)).second = (civilTime s).second := by
  have hdate : (s + 3600 * h) / 86400 = s / 86400 := by omega
  refine ⟨congrArg dateOf hdate, ?_, ?_, ?_⟩
  · change ((s + 3600 * h) % 86400 / 3600).toNat = (s % 86400 / 3600).toNat + h
    omega
  · change ((s + 3600 * h) % 3600 / 60).toNat = (s % 3600 / 60).toNat
    omega
  · change ((s + 3600 * h) % 60).toNat = (s % 60).toNat
    omega

end Muduo.Lib
