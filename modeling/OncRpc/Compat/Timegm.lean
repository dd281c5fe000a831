import OncRpc.Base.Calendar

/-! `timegm`, and that it turns `gmtime` round. -/
namespace OncRpc.Compat

open Calendar

def calcLeapYears (y : Int) : Int :=
  let y := y - 1
  y / 4 - y / 100 + y / 400

def isLeap (y : Int) : Bool :=
  let y := y + 1900
  decide (y % 4 = 0 ∧ (y % 100 ≠ 0 ∨ y % 400 = 0))

def ndays (leap : Bool) : List Nat :=
  if leap then [31, 29, 31, 30, 31, 30, 31, 31, 30, 31, 30, 31]
  else [31, 28, 31, 30, 31, 30, 31, 31, 30, 31, 30, 31]

/-- `timegm`, with a `time_t` of 64 bits. -/
def timegm (tm : Tm) : Int :=
  if tm.year < 0 then -1
  else
    let leap := isLeap tm.year
    if tm.mon < 0 ∨ tm.mon > 11 ∨ tm.mday < 1 ∨ tm.mday > (ndays leap).getD tm.mon.toNat 0 ∨
        tm.min < 0 ∨ tm.min > 59 ∨ tm.sec < 0 ∨ tm.sec > 60 ∨ tm.hour < 0 ∨ tm.hour > 23 then -1
    else
      let res := (tm.year - 70) * 365 + (calcLeapYears (tm.year + 1900) - calcLeapYears 1970)
      let res := ((ndays leap).take tm.mon.toNat).foldl
        (fun (res : Int) (days : Nat) => res + days) res
      let res := (res + (tm.mday - 1)) * 24
      let res := (res + tm.hour) * 60
      let res := (res + tm.min) * 60
      res + tm.sec

theorem calcLeapYears_eq (y : Nat) : calcLeapYears ((y + 1 : Nat) : Int) = leapYears y := by
  simp only [calcLeapYears, leapYears]
  omega

theorem isLeap_eq (y : Nat) : isLeap y = isLeapYear (1900 + y) := by
  unfold isLeap isLeapYear
  apply decide_eq_decide.mpr
  omega

theorem ndays_eq (leap : Bool) : ndays leap = daysOfMonths leap := by cases leap <;> rfl

/-- A date that there is, at a time of the day, with the fields counted from 0. -/
structure Moment where
  year : Nat
  mon : Nat
  mday : Nat
  hour : Nat
  min : Nat
  sec : Nat
  month : Nat
  hMonth : (daysOfMonths (isLeapYear (1900 + year)))[mon]? = some month
  hDay : mday < month
  hHour : hour < 24
  hMin : min < 60
  hSec : sec ≤ 60

namespace Moment

variable (m : Moment)

def tm : Tm where
  year := m.year
  mon := m.mon
  mday := m.mday + 1
  hour := m.hour
  min := m.min
  sec := m.sec

/-- The days of its year before it. -/
def yday : Nat := ((daysOfMonths (isLeapYear (1900 + m.year))).take m.mon).sum + m.mday

theorem yday_lt : m.yday < daysOfYear (1900 + m.year) := by
  have hSum := sum_take_add_le m.hMonth
  rw [sum_daysOfMonths] at hSum
  have hDay := m.hDay
  unfold yday
  omega

theorem mon_lt : m.mon < 12 := by
  obtain ⟨hLess, -⟩ := List.getElem?_eq_some_iff.mp m.hMonth
  exact hLess

end Moment

theorem foldl_add (lengths : List Nat) (res : Int) :
    lengths.foldl (fun (res : Int) (days : Nat) => res + days) res = res + lengths.sum := by
  induction lengths generalizing res with
  | nil => exact (Int.add_zero res).symm
  | cons l ls ih =>
      rw [List.foldl_cons, ih, List.sum_cons]
      omega

/-- The days from the start of 1970 to that of a year since 1900. -/
def startOfYear (y : Nat) : Int := (y - 70) * 365 + (leapYears (1899 + y) - leapYears 1969)

theorem startOfYear_succ (y : Nat) :
    startOfYear (y + 1) = startOfYear y + daysOfYear (1900 + y) := by
  have hLeaps := leapYears_succ (1899 + y)
  rw [show 1899 + y + 1 = 1900 + y by omega] at hLeaps
  rw [startOfYear, startOfYear, show 1899 + (y + 1) = 1900 + y by omega, daysOfYear]
  split at hLeaps
  · next hLeap =>
      rw [if_pos hLeap]
      omega
  · next hNot =>
      rw [if_neg hNot]
      omega

theorem startOfYear_mono {y z : Nat} (h : y ≤ z) : startOfYear y ≤ startOfYear z := by
  induction h with
  | refl => exact Int.le_refl _
  | step _ ih =>
      rw [startOfYear_succ]
      omega

theorem timegm_moment (m : Moment) :
    timegm m.tm = (startOfYear m.year + m.yday) * 86400 + m.hour * 3600 + m.min * 60 +
      m.sec := by
  have hMon := m.mon_lt
  have hDay := m.hDay
  have hHour := m.hHour
  have hMin := m.hMin
  have hSec := m.hSec
  have hLeap : isLeap m.tm.year = isLeapYear (1900 + m.year) := isLeap_eq m.year
  have hMonth : (ndays (isLeap m.tm.year)).getD m.tm.mon.toNat 0 = m.month := by
    rw [hLeap, ndays_eq, List.getD_eq_getElem?_getD, Moment.tm, Int.toNat_natCast, m.hMonth,
      Option.getD_some]
  have hLeaps : calcLeapYears (m.tm.year + 1900) - calcLeapYears 1970 =
      leapYears (1899 + m.year) - leapYears 1969 := by
    have hYear : m.tm.year + 1900 = ((1899 + m.year + 1 : Nat) : Int) := by
      simp only [Moment.tm]
      omega
    have hThere : calcLeapYears 1970 = leapYears 1969 := calcLeapYears_eq 1969
    rw [hYear, calcLeapYears_eq, hThere]
  unfold timegm
  rw [if_neg (show ¬m.tm.year < 0 from Int.not_lt.mpr (Int.natCast_nonneg _))]
  simp only [hMonth, hLeaps]
  rw [if_neg, hLeap, ndays_eq, foldl_add]
  · have hMonths : m.tm.mon.toNat = m.mon := Int.toNat_natCast m.mon
    rw [hMonths, Moment.yday, Int.natCast_add]
    simp only [Moment.tm, startOfYear]
    omega
  · simp only [Moment.tm]
    omega

/-- What `timegm` does not refuse is a date that there is. -/
theorem moment_of_timegm {tm : Tm} (h : timegm tm ≠ -1) : ∃ m : Moment, m.tm = tm := by
  unfold timegm at h
  by_cases hYear : tm.year < 0
  · rw [if_pos hYear] at h
    exact absurd rfl h
  rw [if_neg hYear] at h
  by_cases hRange : tm.mon < 0 ∨ tm.mon > 11 ∨ tm.mday < 1 ∨
      tm.mday > (ndays (isLeap tm.year)).getD tm.mon.toNat 0 ∨ tm.min < 0 ∨ tm.min > 59 ∨
      tm.sec < 0 ∨ tm.sec > 60 ∨ tm.hour < 0 ∨ tm.hour > 23
  · simp only [if_pos hRange] at h
    exact absurd rfl h
  have hLeap : isLeap tm.year = isLeapYear (1900 + tm.year.toNat) := by
    rw [← isLeap_eq, Int.toNat_of_nonneg (Int.not_lt.mp hYear)]
  rw [hLeap, ndays_eq] at hRange
  have hLength : (daysOfMonths (isLeapYear (1900 + tm.year.toNat))).length = 12 := rfl
  obtain ⟨month, hMonth⟩ : ∃ month,
      (daysOfMonths (isLeapYear (1900 + tm.year.toNat)))[tm.mon.toNat]? = some month :=
    ⟨_, List.getElem?_eq_getElem (by omega)⟩
  rw [List.getD_eq_getElem?_getD, hMonth, Option.getD_some] at hRange
  refine ⟨⟨tm.year.toNat, tm.mon.toNat, (tm.mday - 1).toNat, tm.hour.toNat, tm.min.toNat,
    tm.sec.toNat, month, hMonth, by omega, by omega, by omega, by omega⟩, ?_⟩
  obtain ⟨year, mon, mday, hour, min, sec⟩ := tm
  simp only [Moment.tm, Tm.mk.injEq]
  dsimp only at hYear hRange
  omega

/-- A moment is before a year when its year is, but for the last second of the year before. -/
theorem timegm_le_of_year_lt {m : Moment} {y : Nat} (h : m.year < y) :
    timegm m.tm ≤ startOfYear y * 86400 := by
  have hStart := startOfYear_mono (Nat.succ_le_of_lt h)
  have hYday := m.yday_lt
  have hHour := m.hHour
  have hMin := m.hMin
  have hSec := m.hSec
  rw [Nat.succ_eq_add_one, startOfYear_succ] at hStart
  rw [timegm_moment]
  omega

theorem timegm_lt_iff {m : Moment} (hSec : m.sec < 60) (y : Nat) :
    timegm m.tm < startOfYear y * 86400 ↔ m.year < y := by
  constructor
  · intro h
    by_contra hLate
    have hStart := startOfYear_mono (Nat.le_of_not_lt hLate)
    rw [timegm_moment] at h
    omega
  · intro h
    have hStart := startOfYear_mono (Nat.succ_le_of_lt h)
    have hYday := m.yday_lt
    have hHour := m.hHour
    have hMin := m.hMin
    rw [Nat.succ_eq_add_one, startOfYear_succ] at hStart
    rw [timegm_moment]
    omega

/-- The time of a moment and the moment of a time are each other's, in the years of `gmtime`, but
for a sixtieth second. -/
theorem gmtime_eq_some_iff {t : Int} {tm : Tm} :
    gmtime t = some tm ↔ ∃ m : Moment, m.tm = tm ∧ 70 ≤ m.year ∧ m.year ≤ 1100 ∧ m.sec < 60 ∧
      timegm m.tm = t := by
  unfold gmtime
  constructor
  · intro h
    by_cases hNegative : t < 0
    · rw [if_pos hNegative] at h
      exact nomatch h
    rw [if_neg hNegative] at h
    obtain ⟨⟨y, yday⟩, hYear, h⟩ := Option.bind_eq_some_iff.mp h
    obtain ⟨⟨mon, mday⟩, hMon, h⟩ := Option.bind_eq_some_iff.mp h
    obtain ⟨⟨l, hl, hyday⟩, hDays⟩ := locate_eq_some_iff.mp hYear
    obtain ⟨⟨month, hMonth, hDay⟩, hYday⟩ := locate_eq_some_iff.mp hMon
    obtain ⟨hy, rfl⟩ := getElem?_years.mp hl
    have hLeap : isLeapYear (1900 + (y + 70)) = isLeapYear (1970 + y) := by
      congr 1
      omega
    have hLeaps : 1899 + (y + 70) = 1969 + y := by omega
    have hSum := sum_take_years (Nat.le_of_lt hy)
    refine ⟨⟨y + 70, mon, mday, t.toNat % 86400 / 3600, t.toNat % 86400 % 3600 / 60,
      t.toNat % 86400 % 60, month, by rw [hLeap]; exact hMonth, hDay, by omega, by omega, by omega⟩,
      Option.some.inj h, by dsimp only; omega, by dsimp only; omega, by dsimp only; omega, ?_⟩
    rw [timegm_moment]
    simp only [Moment.yday, startOfYear, hLeap, hLeaps, hYday]
    omega
  · rintro ⟨m, rfl, hFirst, hLast, hSec, hTime⟩
    have hYday := m.yday_lt
    have hHour := m.hHour
    have hMin := m.hMin
    obtain ⟨y, hy⟩ := Nat.exists_eq_add_of_le' hFirst
    have hSum := sum_take_years (y := y) (by omega)
    rw [timegm_moment, hy, startOfYear, show 1899 + (y + 70) = 1969 + y by omega] at hTime
    rw [hy, show 1900 + (y + 70) = 1970 + y by omega] at hYday
    have hDays : t.toNat / 86400 = (years.take y).sum + m.yday := by omega
    have hYear : locate years (t.toNat / 86400) = some (y, m.yday) := by
      refine locate_eq_some_iff.mpr ⟨⟨_, getElem?_years.mpr ⟨by omega, rfl⟩, hYday⟩, hDays.symm⟩
    have hMon : locate (daysOfMonths (isLeapYear (1970 + y))) m.yday = some (m.mon, m.mday) := by
      have hMonth := m.hMonth
      rw [locate_eq_some_iff, Moment.yday]
      rw [hy, show 1900 + (y + 70) = 1970 + y by omega] at hMonth ⊢
      exact ⟨⟨_, hMonth, m.hDay⟩, rfl⟩
    rw [if_neg (by omega)]
    simp only [hYear, hMon, Option.bind_eq_bind, Option.bind_some, Moment.tm, hy]
    congr 2 <;> omega

end OncRpc.Compat
