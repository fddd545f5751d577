import Mathlib.Algebra.Group.Int.Defs
import Muduo.Lib.Calendar
import Muduo.Lib.Printf
import Muduo.TimerQueue

/-!
The texts of `base/TimeStamp.cpp`.

`toString` separates the microseconds from the seconds with `&` where it should
be `%`. `toFormatString` takes UTC from `gmtime_r`, and adds the eight hours of
its zone to the hour only.

* `toString_exact_iff`: when a text of `toString` can be read back, and which
  time stamps print the same;
* `toFormatString_civil_iff`: when the text of `toFormatString` is the civil
  time, and that the texts are ordered as the time stamps are.
-/

namespace Muduo

open Lib

/-- `struct tm` -/
structure Tm where
  tm_year : Int
  tm_mon : Nat
  tm_mday : Nat
  tm_hour : Nat
  tm_min : Nat
  tm_sec : Nat
  deriving DecidableEq, Repr

/-- `gmtime_r` -/
def gmtimeR (second : Int) : Tm :=
  let time := civilTime second
  { tm_year := time.date.year - 1900
    tm_mon := time.date.month - 1
    tm_mday := time.date.day
    tm_hour := time.hour
    tm_min := time.minute
    tm_sec := time.second }

namespace TimeStamp

def toString (t : TimeStamp) : List Char :=
  let second := t.tdiv KMicronSecondsPerSecond
  let micronSecond := (BitVec.ofInt 64 t &&& BitVec.ofInt 64 KMicronSecondsPerSecond).toInt
  fit 32 (signed second ++ '.' :: signedPadded 6 micronSecond)

def toFormatString (t : TimeStamp) : List Char :=
  let time := gmtimeR (t.tdiv KMicronSecondsPerSecond)
  let miconSecond := t.tmod KMicronSecondsPerSecond
  fit 64 (spaced 4 (time.tm_year + 1900) ++ padded 2 (time.tm_mon + 1) ++ padded 2 time.tm_mday ++
    ' ' :: padded 2 (time.tm_hour + 8) ++ ':' :: padded 2 time.tm_min ++
    ':' :: padded 2 time.tm_sec ++ '.' :: signedPadded 6 miconSecond)

end TimeStamp

/-! ## Bits -/

/-- Numbers without a common bit. -/
theorem add_eq_or {x y : Nat} (h : x &&& y = 0) : x + y = x ||| y := by
  obtain ⟨w, hw⟩ : ∃ w, x + y < 2 ^ w := ⟨x + y, Nat.lt_two_pow_self⟩
  have hx : x < 2 ^ w := by omega
  have hy : y < 2 ^ w := by omega
  have hand : BitVec.ofNat w x &&& BitVec.ofNat w y = 0#w := by
    apply BitVec.eq_of_toNat_eq
    simp [Nat.mod_eq_of_lt hx, Nat.mod_eq_of_lt hy, h]
  have hadd := congrArg BitVec.toNat (BitVec.add_eq_or_of_and_eq_zero _ _ hand)
  simpa [Nat.mod_eq_of_lt hx, Nat.mod_eq_of_lt hy, Nat.mod_eq_of_lt hw] using hadd

/-- The bits of a mask are `r`. -/
theorem add_and_eq_iff (a r mask : Nat) :
    (a + r) &&& mask = r ↔ a &&& mask = 0 ∧ r &&& mask = r := by
  constructor
  · intro h
    obtain ⟨x, hx⟩ : ∃ x, x = a + r := ⟨_, rfl⟩
    rw [← hx] at h
    have hdisjoint : (x &&& mask) &&& (x ^^^ (x &&& mask)) = 0 := by
      apply Nat.eq_of_testBit_eq
      intro i
      simp only [Nat.testBit_and, Nat.testBit_xor, Nat.zero_testBit]
      cases x.testBit i <;> cases mask.testBit i <;> rfl
    have hor : (x &&& mask) ||| (x ^^^ (x &&& mask)) = x := by
      apply Nat.eq_of_testBit_eq
      intro i
      simp only [Nat.testBit_and, Nat.testBit_xor, Nat.testBit_or]
      cases x.testBit i <;> cases mask.testBit i <;> rfl
    -- what the mask leaves out of `x` is `a`
    have ha : a = x ^^^ (x &&& mask) := by
      have hsum := add_eq_or hdisjoint
      rw [hor, h] at hsum
      rw [h]
      omega
    constructor
    · rw [ha]
      apply Nat.eq_of_testBit_eq
      intro i
      simp only [Nat.testBit_and, Nat.testBit_xor, Nat.zero_testBit]
      cases x.testBit i <;> cases mask.testBit i <;> rfl
    · rw [← h, Nat.and_assoc, Nat.and_self]
  · rintro ⟨ha, hr⟩
    have hdisjoint : a &&& r = 0 := by
      rw [← hr, Nat.and_comm r, ← Nat.and_assoc, ha, Nat.zero_and]
    rw [add_eq_or hdisjoint, Nat.and_or_distrib_right, ha, hr, Nat.zero_or]

/-! ## Civil time as text -/

/-- A civil time with the given hour, and microseconds. -/
def civilText (time : CivilTime) (hour micron : Nat) : List Char :=
  spaced 4 time.date.year ++ padded 2 time.date.month ++ padded 2 time.date.day ++
    ' ' :: padded 2 hour ++ ':' :: padded 2 time.minute ++ ':' :: padded 2 time.second ++
    '.' :: padded 6 micron

/-- The numbers of the text, for a year of four digits. -/
def civilFields (time : CivilTime) (hour micron : Nat) : List Field :=
  [⟨4, time.date.year.toNat, []⟩, ⟨2, time.date.month, []⟩, ⟨2, time.date.day, [' ']⟩,
    ⟨2, hour, [':']⟩, ⟨2, time.minute, [':']⟩, ⟨2, time.second, ['.']⟩, ⟨6, micron, []⟩]

theorem civilText_eq {time : CivilTime} (h : 1000 ≤ time.date.year) (hour micron : Nat) :
    civilText time hour micron = printed (civilFields time hour micron) := by
  obtain ⟨y, hy⟩ : ∃ y : Nat, time.date.year = y := ⟨time.date.year.toNat, by omega⟩
  have hwide : 10 ^ 3 ≤ y := by omega
  have hyear : spaced 4 (y : Int) = padded 4 y :=
    (spaced_wide (by decide) hwide).trans (padded_wide (by decide) hwide).symm
  simp [civilText, civilFields, printed, Field.text, hy, hyear]

/-- The text determines the hour. -/
theorem civilText_hour {time time' : CivilTime} {hour hour' micron micron' : Nat}
    (h : 1000 ≤ time.date.year) (h' : 1000 ≤ time'.date.year)
    (heq : civilText time hour micron = civilText time' hour' micron') : hour = hour' := by
  have hsplit : ∀ (time : CivilTime) (hour micron : Nat), ∃ date rest, ' ' ∉ date ∧
      printed (civilFields time hour micron) = date ++ ' ' :: (padded 2 hour ++ ':' :: rest) := by
    intro time hour micron
    refine ⟨padded 4 time.date.year.toNat ++ padded 2 time.date.month ++ padded 2 time.date.day,
      padded 2 time.minute ++ ':' :: (padded 2 time.second ++ '.' :: padded 6 micron), ?_, ?_⟩
    · simp [not_mem_padded]
    · simp [printed, civilFields, Field.text]
  obtain ⟨date, rest, hdate, htext⟩ := hsplit time hour micron
  obtain ⟨date', rest', hdate', htext'⟩ := hsplit time' hour' micron'
  rw [civilText_eq h, civilText_eq h', htext, htext'] at heq
  obtain ⟨-, hhour⟩ := append_cons_unique hdate hdate' heq
  have hcolon := not_mem_padded (c := ':') rfl 2
  exact padded_inj (append_cons_unique (hcolon hour) (hcolon hour') hhour).1

/-- The time of a later second is later, on the same day or on a later one. -/
theorem civilTime_lt {s s' : Int} (h : s < s') :
    (civilTime s).date < (civilTime s').date ∨ (civilTime s).date = (civilTime s').date ∧
      ((civilTime s).hour < (civilTime s').hour ∨ (civilTime s).hour = (civilTime s').hour ∧
        ((civilTime s).minute < (civilTime s').minute ∨
          (civilTime s).minute = (civilTime s').minute ∧
            (civilTime s).second < (civilTime s').second)) := by
  rcases lt_or_ge (s / 86400) (s' / 86400) with hday | hday
  · exact .inl (dateOf_lt hday)
  · have hsame : s / 86400 = s' / 86400 := by omega
    refine .inr ⟨congrArg dateOf hsame, ?_⟩
    simp only [civilTime]
    omega

/-- The numbers of a second with the hours of a zone, as the texts have them:
`day` stands behind the date, `clock` behind the hour and the minute, and
`second` and `behind` at the end. -/
def timeFields (time : CivilTime) (zone : Nat) (day clock second : List Char)
    (behind : List Field) : List Field :=
  ⟨4, time.date.year.toNat, []⟩ :: ⟨2, time.date.month, []⟩ :: ⟨2, time.date.day, day⟩ ::
    ⟨2, time.hour + zone, clock⟩ :: ⟨2, time.minute, clock⟩ :: ⟨2, time.second, second⟩ :: behind

/-- The numbers of a later second are greater, whatever stands behind them. -/
theorem timeFields_precedes {s s' : Int} {zone : Nat} (hzone : zone ≤ 76)
    (hfirst : 1000 ≤ (civilTime s).date.year) (hlast : (civilTime s').date.year ≤ 9999)
    (h : s < s') (day clock second second' : List Char) (behind behind' : List Field) :
    Precedes (timeFields (civilTime s) zone day clock second behind)
      (timeFields (civilTime s') zone day clock second' behind') := by
  have hyear : (civilTime s).date.year ≤ (civilTime s').date.year :=
    Date.year_mono (dateOf_le (Int.ediv_le_ediv (by decide) (Int.le_of_lt h)))
  have hmonth := (civilTime s').date.month_le
  have hday := (civilTime s').date.day_le_31
  have hhour := (civilTime s').hour_lt
  have hminute := (civilTime s').minute_lt
  have hsecond := (civilTime s').second_lt
  -- the fields decide one after the other
  apply Precedes.cons (by decide) (by omega)
  rcases civilTime_lt h with hdate | ⟨hdate, htime⟩
  · rcases Date.lt_iff.mp hdate with hy | ⟨hy, hdate⟩
    · exact .inl (by omega)
    · refine .inr ⟨by rw [hy], Precedes.cons (by decide) (by omega) ?_⟩
      rcases hdate with hm | ⟨hm, hd⟩
      · exact .inl hm
      · exact .inr ⟨hm, .head (by decide) hd (by omega)⟩
  · rw [hdate]
    refine .inr ⟨rfl, .tail (.tail (Precedes.cons (by decide) (by omega) ?_))⟩
    rcases htime with hh | ⟨hh, htime⟩
    · exact .inl (by omega)
    · refine .inr ⟨by rw [hh], Precedes.cons (by decide) (by omega) ?_⟩
      rcases htime with hm | ⟨hm, hs⟩
      · exact .inl hm
      · exact .inr ⟨hm, .head (by decide) hs (by omega)⟩

/-- Later times have later texts, also with the hours of another zone. -/
theorem civilText_lt {s s' : Int} {micron micron' zone : Nat} (hzone : zone ≤ 76)
    (hfirst : 1000 ≤ (civilTime s).date.year) (hlast : (civilTime s').date.year ≤ 9999)
    (hmicron : micron' < 1000000) (h : s < s' ∨ s = s' ∧ micron < micron') :
    civilText (civilTime s) ((civilTime s).hour + zone) micron <
      civilText (civilTime s') ((civilTime s').hour + zone) micron' := by
  have hyear : (civilTime s).date.year ≤ (civilTime s').date.year :=
    Date.year_mono (dateOf_le (Int.ediv_le_ediv (by decide) (by omega)))
  rw [civilText_eq hfirst, civilText_eq (by omega)]
  apply printed_lt
  rcases h with hlt | ⟨rfl, hlt⟩
  · exact timeFields_precedes hzone hfirst hlast hlt [' '] [':'] ['.'] ['.'] _ _
  · exact .tail (.tail (.tail (.tail (.tail (.tail (.head (by decide) hlt hmicron))))))

namespace TimeStamp

/-! ## The two texts -/

/-- UTC, to the second. -/
def utc (t : TimeStamp) : CivilTime := civilTime (t / 1000000)

/-- The text that `toString` makes of its two numbers. -/
theorem toString_eq {n : Nat} (h : n < 2 ^ 63) :
    toString n = decimal (n / 1000000) ++ '.' :: padded 6 (n &&& 1000000) := by
  have hmask : n &&& 1000000 ≤ 1000000 := Nat.and_le_right
  have hand : (BitVec.ofInt 64 n &&& BitVec.ofInt 64 KMicronSecondsPerSecond).toInt =
      ((n &&& 1000000 : Nat) : Int) := by
    have hnat : (BitVec.ofInt 64 n &&& BitVec.ofInt 64 KMicronSecondsPerSecond).toNat =
        n &&& 1000000 := by
      rw [BitVec.toNat_and, BitVec.ofInt_natCast, BitVec.toNat_ofNat,
        Nat.mod_eq_of_lt (by omega)]
      rfl
    rw [BitVec.toInt_eq_toNat_of_lt (by rw [hnat]; omega), hnat]
  have hdiv : (n : Int).tdiv KMicronSecondsPerSecond = ((n / 1000000 : Nat) : Int) := rfl
  have hlen : (decimal (n / 1000000)).length ≤ 13 := length_decimal_le (by decide) (by omega)
  have hlen' : (padded 6 (n &&& 1000000)).length ≤ 7 :=
    length_padded_le (by decide) (by decide) (by omega)
  simp only [toString, hand, hdiv, signed_natCast, signedPadded_natCast]
  apply fit_short
  simp only [List.length_append, List.length_cons]
  omega

theorem utc_year_pos (n : Nat) : 1970 ≤ (utc n).date.year := (dateOf_year (n / 1000000 / 86400)).1

/-- The text that `toFormatString` makes of its seven numbers: the hour is that
of UTC and eight more. -/
theorem toFormatString_eq {n : Nat} (h : (utc n).date.year < 10 ^ 9) :
    toFormatString n = civilText (utc n) ((utc n).hour + 8) (n % 1000000) := by
  have hdiv : (n : Int).tdiv KMicronSecondsPerSecond = (n : Int) / 1000000 := rfl
  have hmod : (n : Int).tmod KMicronSecondsPerSecond = ((n % 1000000 : Nat) : Int) := rfl
  have hyear := utc_year_pos n
  obtain ⟨y, hy⟩ : ∃ y : Nat, (utc n).date.year = y := ⟨(utc n).date.year.toNat, by omega⟩
  have hmonth : (utc n).date.month - 1 + 1 = (utc n).date.month :=
    Nat.sub_add_cancel (utc n).date.month_pos
  have hmonth_le := (utc n).date.month_le
  have hday := (utc n).date.day_le_31
  have hhour := (utc n).hour_lt
  have hminute := (utc n).minute_lt
  have hsecond := (utc n).second_lt
  have htwo : ∀ m < 100, (padded 2 m).length = 2 := fun m hm => length_padded (by decide) hm
  have hsix : (padded 6 (n % 1000000)).length = 6 := length_padded (by decide) (by omega)
  have hlen : (spaced 4 (y : Int)).length ≤ 9 :=
    length_spaced_le (by decide) (by decide) (by omega)
  simp only [toFormatString, gmtimeR, hdiv, hmod, signedPadded_natCast, Int.sub_add_cancel]
  change fit 64 (spaced 4 (utc n).date.year ++ padded 2 ((utc n).date.month - 1 + 1) ++
    padded 2 (utc n).date.day ++ ' ' :: padded 2 ((utc n).hour + 8) ++
    ':' :: padded 2 (utc n).minute ++ ':' :: padded 2 (utc n).second ++
    '.' :: padded 6 (n % 1000000)) = _
  rw [hmonth, civilText]
  apply fit_short
  simp only [List.length_append, List.length_cons, hy, hsix, htwo (utc n).date.month (by omega),
    htwo (utc n).date.day (by omega), htwo ((utc n).hour + 8) (by omega),
    htwo (utc n).minute (by omega), htwo (utc n).second (by omega)]
  omega

/-! ## `toString` -/

/-- The text is `<s>.<m>` with the seconds and, in six digits, the microseconds,
which are those of `toFormatString`. -/
structure Exact (t : TimeStamp) : Prop where
  decodes : ∃ s m : Nat, t.toString = decimal s ++ '.' :: padded 6 m ∧ (padded 6 m).length = 6 ∧
    m < 1000000 ∧ (s : Int) * 1000000 + m = t
  agrees : fraction t.toString = fraction t.toFormatString

/-- The whole seconds have no bit of `10 ^ 6`, and the microseconds no other. -/
def Splits (t : TimeStamp) : Prop :=
  (t / 1000000 * 1000000).toNat &&& 1000000 = 0 ∧
    (t % 1000000).toNat &&& 1000000 = (t % 1000000).toNat

instance (t : TimeStamp) : Decidable t.Splits := inferInstanceAs (Decidable (_ ∧ _))

theorem splits_iff (n : Nat) : Splits n ↔ n &&& 1000000 = n % 1000000 := by
  have hsum : n / 1000000 * 1000000 + n % 1000000 = n := by omega
  have hiff := add_and_eq_iff (n / 1000000 * 1000000) (n % 1000000) 1000000
  rw [hsum] at hiff
  rw [hiff]
  exact Iff.rfl

theorem year_lt {n : Nat} (h : n < 2 ^ 63) : (utc n).date.year < 10 ^ 9 := by
  have hyear : (utc n).date.year ≤ 1970 + (n / 1000000 / 86400 : Nat) := (dateOf_year _).2
  omega

theorem toFormatString_fraction {n : Nat} (h : n < 2 ^ 63) :
    fraction (toFormatString n) = padded 6 (n % 1000000) := by
  have hyear := utc_year_pos n
  obtain ⟨y, hy⟩ : ∃ y : Nat, (utc n).date.year = y := ⟨(utc n).date.year.toNat, by omega⟩
  rw [toFormatString_eq (year_lt h), civilText]
  apply fraction_append
  simp [hy, point_not_mem_spaced, not_mem_padded]

/-- Two texts are the same when their numbers are. -/
theorem toString_inj {n m : Nat} (hn : n < 2 ^ 63) (hm : m < 2 ^ 63) :
    toString n = toString m ↔
      n / 1000000 = m / 1000000 ∧ n &&& 1000000 = m &&& 1000000 := by
  rw [toString_eq hn, toString_eq hm]
  constructor
  · intro h
    obtain ⟨hs, hmicron⟩ :=
      append_cons_unique (not_mem_decimal rfl _) (not_mem_decimal rfl _) h
    exact ⟨decimal_inj hs, padded_inj hmicron⟩
  · rintro ⟨hs, hmicron⟩
    rw [hs, hmicron]

theorem exact_iff {n : Nat} (h : n < 2 ^ 63) : Exact n ↔ n &&& 1000000 = n % 1000000 := by
  have hfraction : fraction (toString n) = padded 6 (n &&& 1000000) := by
    rw [toString_eq h, fraction_append (not_mem_decimal rfl _)]
  constructor
  · intro hexact
    have hagrees := hexact.agrees
    rw [hfraction, toFormatString_fraction h] at hagrees
    exact padded_inj hagrees
  · intro hand
    refine ⟨⟨n / 1000000, n % 1000000, ?_, ?_, ?_, ?_⟩, ?_⟩
    · rw [toString_eq h, hand]
    · exact length_padded (by decide) (by omega)
    · omega
    · omega
    · rw [hfraction, toFormatString_fraction h, hand]

/-- **`toString`.** The text of a time stamp can be read back, and agrees with
`toFormatString`, exactly if the whole seconds have no bit of `10 ^ 6` and the
microseconds no other. Two time stamps print the same exactly if they are of one
second and have the same bits of `10 ^ 6`. -/
theorem toString_exact_iff {t t' : TimeStamp} (ht : 0 ≤ t ∧ t < 2 ^ 63)
    (ht' : 0 ≤ t' ∧ t' < 2 ^ 63) :
    (Exact t ↔ Splits t) ∧
    (t.toString = t'.toString ↔ t / 1000000 = t' / 1000000 ∧
      t.toNat &&& 1000000 = t'.toNat &&& 1000000) := by
  obtain ⟨n, rfl⟩ := Int.eq_ofNat_of_zero_le ht.1
  obtain ⟨m, rfl⟩ := Int.eq_ofNat_of_zero_le ht'.1
  have hn : n < 2 ^ 63 := by exact_mod_cast ht.2
  have hm : m < 2 ^ 63 := by exact_mod_cast ht'.2
  have hsecond : n / 1000000 = m / 1000000 ↔ (n : Int) / 1000000 = (m : Int) / 1000000 := by omega
  constructor
  · rw [exact_iff hn, splits_iff]
  · rw [toString_inj hn hm, hsecond]
    exact Iff.rfl

/-- 64 microseconds have a bit of `10 ^ 6`, and 65 one more. -/
theorem toString_exact_iff_bit :
    (Exact 64 ↔ Splits 64) ∧ (toString 64 = toString 65 ↔ (64 : Int) / 1000000 = 65 / 1000000 ∧
      (64 : Int).toNat &&& 1000000 = (65 : Int).toNat &&& 1000000) :=
  toString_exact_iff (by decide) (by decide)

/-- One microsecond is printed as none. -/
theorem microsecond_not_printed :
    toString 1 = "0.000000".toList ∧ toString 0 = "0.000000".toList ∧
      toString 1048575 = "1.1000000".toList ∧ ¬ Exact 1 := by
  refine ⟨by decide, by decide, by decide, ?_⟩
  intro h
  have heq := (exact_iff (n := 1) (by decide)).mp h
  revert heq
  decide

/-! ## `toFormatString` -/

/-- The text is the date and time of the zone, eight hours ahead of UTC. -/
def Civil (t : TimeStamp) : Prop :=
  t.toFormatString = civilText (civilTime (t / 1000000 + 3600 * 8))
    (civilTime (t / 1000000 + 3600 * 8)).hour (t % 1000000).toNat

theorem civil_iff {n : Nat} (hyear : (utc n).date.year ≤ 9999) :
    Civil n ↔ (utc n).hour < 16 := by
  have hfirst := utc_year_pos n
  have htext := toFormatString_eq (n := n) (by omega)
  have hmicron : ((n : Int) % 1000000).toNat = n % 1000000 := by omega
  obtain ⟨zoned, hzoned⟩ : ∃ zoned, zoned = civilTime ((n : Int) / 1000000 + 3600 * 8) := ⟨_, rfl⟩
  have hcivil : Civil n ↔
      civilText (utc n) ((utc n).hour + 8) (n % 1000000) =
        civilText zoned zoned.hour (n % 1000000) := by
    rw [hzoned, ← htext, ← hmicron]
    exact Iff.rfl
  rw [hcivil]
  constructor
  · intro heq
    have hle : (utc n).date ≤ zoned.date := by
      rw [hzoned]
      exact dateOf_le (Int.ediv_le_ediv (by decide) (by omega))
    have hyears := Date.year_mono hle
    have hhour := civilText_hour (by omega) (by omega) heq
    have hlt := zoned.hour_lt
    omega
  · intro hhour
    have hday : (n : Int) / 1000000 % 86400 + 3600 * (8 : Nat) < 86400 := by
      have hlt : ((n : Int) / 1000000 % 86400 / 3600).toNat < 16 := hhour
      omega
    obtain ⟨hdate, hhours, hminute, hsecond⟩ := civilTime_addHours hday
    change zoned = civilTime ((n : Int) / 1000000 + 3600 * (8 : Nat)) at hzoned
    rw [← hzoned] at hdate hhours hminute hsecond
    rw [civilText, civilText, hdate, hhours, hminute, hsecond]
    rfl

/-- **`toFormatString`.** In the years of four digits, the text is the civil
time of the zone exactly if it is before 16:00 in UTC, so that the eight hours
stay on the day; and later time stamps have greater texts. -/
theorem toFormatString_civil_iff {t t' : TimeStamp} (ht : 0 ≤ t) (ht' : 0 ≤ t')
    (hyear : (utc t).date.year ≤ 9999) (hyear' : (utc t').date.year ≤ 9999) :
    (Civil t ↔ (utc t).hour < 16) ∧ (t < t' → t.toFormatString < t'.toFormatString) := by
  obtain ⟨n, rfl⟩ := Int.eq_ofNat_of_zero_le ht
  obtain ⟨m, rfl⟩ := Int.eq_ofNat_of_zero_le ht'
  refine ⟨civil_iff hyear, ?_⟩
  intro hlt
  have hnm : n < m := by exact_mod_cast hlt
  have hfirst : 1000 ≤ (utc n).date.year := Int.le_trans (by decide) (utc_year_pos n)
  rw [toFormatString_eq (n := n) (by omega), toFormatString_eq (n := m) (by omega)]
  exact civilText_lt (by decide) hfirst hyear' (by omega) (by omega)

/-- The first microsecond, and the last one before the eight hours are carried. -/
theorem toFormatString_civil_iff_firstDay :
    (Civil 0 ↔ (utc 0).hour < 16) ∧
      ((0 : TimeStamp) < 57599999999 → toFormatString 0 < toFormatString 57599999999) :=
  toFormatString_civil_iff (by decide) (by decide) (by decide) (by decide)

/-- Sixteen hours behind the epoch the second day begins in the zone. -/
theorem hour_24_printed :
    toFormatString 57600000000 = "19700101 24:00:00.000000".toList ∧
      civilText (civilTime (57600 + 3600 * 8)) (civilTime (57600 + 3600 * 8)).hour 0 =
        "19700102 00:00:00.000000".toList ∧ ¬ Civil 57600000000 := by
  refine ⟨by decide +kernel, by decide +kernel, ?_⟩
  intro h
  have hhour := (civil_iff (n := 57600000000) (by decide)).mp h
  revert hhour
  decide

end TimeStamp

end Muduo
