import Mathlib.Algebra.Ring.Int.Defs
import Mathlib.Algebra.Ring.Nat
import Mathlib.Algebra.BigOperators.Group.List.Basic

/-! The calendar of C: seconds since the start of 1970, and broken-down times. -/
namespace OncRpc.Calendar

/-! ### Lengths laid end to end -/

/-- In which of the lengths a position lies, and how far in. -/
def locate : List Nat → Nat → Option (Nat × Nat)
  | [], _ => none
  | l :: ls, n =>
      if n < l then some (0, n)
      else (locate ls (n - l)).map fun place => (place.1 + 1, place.2)

theorem locate_eq_some_iff {lengths : List Nat} {n i r : Nat} :
    locate lengths n = some (i, r) ↔
      (∃ l, lengths[i]? = some l ∧ r < l) ∧ (lengths.take i).sum + r = n := by
  induction lengths generalizing n i with
  | nil => simp [locate]
  | cons l ls ih =>
      rw [locate]
      by_cases hHere : n < l
      · rw [if_pos hHere]
        cases i with
        | zero =>
            simp only [Option.some.injEq, Prod.mk.injEq, true_and, List.getElem?_cons_zero,
              exists_eq_left', List.take_zero, List.sum_nil, Nat.zero_add]
            exact ⟨fun h => ⟨h ▸ hHere, h.symm⟩, fun h => h.2.symm⟩
        | succ i =>
            simp only [Option.some.injEq, Prod.mk.injEq, List.take_succ_cons, List.sum_cons]
            constructor
            · rintro ⟨hZero, -⟩
              exact absurd hZero (Nat.succ_ne_zero i).symm
            · rintro ⟨-, hSum⟩
              omega
      · rw [if_neg hHere, Option.map_eq_some_iff]
        cases i with
        | zero =>
            simp only [Prod.mk.injEq, Nat.succ_ne_zero, false_and, and_false, exists_false,
              List.getElem?_cons_zero, Option.some.injEq, exists_eq_left', List.take_zero,
              List.sum_nil, Nat.zero_add, false_iff, not_and]
            omega
        | succ i =>
            simp only [Prod.mk.injEq, Nat.add_right_cancel_iff, Prod.exists,
              List.getElem?_cons_succ, List.take_succ_cons, List.sum_cons]
            constructor
            · rintro ⟨i', r', hLocate, rfl, rfl⟩
              obtain ⟨hLength, hSum⟩ := ih.mp hLocate
              exact ⟨hLength, by omega⟩
            · rintro ⟨hLength, hSum⟩
              exact ⟨i, r, ih.mpr ⟨hLength, by omega⟩, rfl, rfl⟩

theorem locate_of_lt {lengths : List Nat} {n : Nat} (h : n < lengths.sum) :
    ∃ i r, locate lengths n = some (i, r) := by
  induction lengths generalizing n with
  | nil => exact absurd h (Nat.not_lt_zero n)
  | cons l ls ih =>
      rw [locate]
      by_cases hHere : n < l
      · exact ⟨0, n, if_pos hHere⟩
      · rw [List.sum_cons] at h
        obtain ⟨i, r, hRest⟩ := @ih (n - l) (by omega)
        rw [if_neg hHere, hRest]
        exact ⟨i + 1, r, rfl⟩

/-- What lies before the end of a length is no more than all of them. -/
theorem sum_take_add_le {lengths : List Nat} {i l : Nat} (h : lengths[i]? = some l) :
    (lengths.take i).sum + l ≤ lengths.sum := by
  induction lengths generalizing i with
  | nil => exact nomatch h
  | cons k ls ih =>
      cases i with
      | zero =>
          rw [List.getElem?_cons_zero, Option.some.injEq] at h
          rw [List.take_zero, List.sum_nil, List.sum_cons]
          omega
      | succ i =>
          have hRest := ih ((List.getElem?_cons_succ ..).symm.trans h)
          rw [List.take_succ_cons, List.sum_cons, List.sum_cons]
          omega

/-! ### Years and months -/

def isLeapYear (y : Nat) : Bool := decide (y % 4 = 0 ∧ (y % 100 ≠ 0 ∨ y % 400 = 0))

def daysOfYear (y : Nat) : Nat := if isLeapYear y then 366 else 365

def daysOfMonths (leap : Bool) : List Nat :=
  [31, if leap then 29 else 28, 31, 30, 31, 30, 31, 31, 30, 31, 30, 31]

/-- The leap years up to a year. -/
def leapYears (y : Nat) : Nat := y / 4 - y / 100 + y / 400

theorem leapYears_succ (y : Nat) :
    leapYears (y + 1) = leapYears y + if isLeapYear (y + 1) then 1 else 0 := by
  have hCentury : y / 100 ≤ y / 4 := Nat.div_le_div_left (by decide) (by decide)
  have hFourth : 100 ∣ y + 1 → 4 ∣ y + 1 := Nat.dvd_trans (by decide)
  have hEra : 400 ∣ y + 1 → 100 ∣ y + 1 := Nat.dvd_trans (by decide)
  unfold leapYears isLeapYear
  simp only [Nat.succ_div, decide_eq_true_eq, ne_eq, ← Nat.dvd_iff_mod_eq_zero]
  generalize y / 4 = fourths, y / 100 = centuries, y / 400 = eras at *
  by_cases h4 : 4 ∣ y + 1
  · by_cases h100 : 100 ∣ y + 1
    · by_cases h400 : 400 ∣ y + 1
      · simp only [h4, h100, h400, if_true, or_true, and_true]
        omega
      · simp only [h4, h100, h400, if_true, if_false, not_true, or_false, and_false]
        omega
    · have h400 : ¬400 ∣ y + 1 := fun h => h100 (hEra h)
      simp only [h4, h100, h400, if_true, if_false, not_false_iff, true_or, and_true]
      omega
  · have h100 : ¬100 ∣ y + 1 := fun h => h4 (hFourth h)
    have h400 : ¬400 ∣ y + 1 := fun h => h100 (hEra h)
    simp only [h4, h100, h400, if_false, false_and]
    omega

theorem sum_daysOfYear (start count : Nat) :
    ((List.range' (start + 1) count).map daysOfYear).sum + leapYears start =
      365 * count + leapYears (start + count) := by
  induction count with
  | zero => rw [List.range'_zero, List.map_nil, List.sum_nil, Nat.mul_zero, Nat.add_zero]
  | succ count ih =>
      rw [List.range'_concat, List.map_append, List.sum_append, ← Nat.add_assoc start,
        leapYears_succ (start + count)]
      simp only [List.map_cons, List.map_nil, List.sum_cons, List.sum_nil, Nat.one_mul]
      rw [show start + 1 + count = start + count + 1 by omega, daysOfYear]
      split <;> omega

theorem sum_daysOfMonths (y : Nat) : (daysOfMonths (isLeapYear y)).sum = daysOfYear y := by
  unfold daysOfYear
  cases isLeapYear y <;> rfl

/-! ### Broken-down time -/

/-- `struct tm`: years since 1900, and months and hours from 0. -/
structure Tm where
  year : Int
  mon : Int
  mday : Int
  hour : Int
  min : Int
  sec : Int
  deriving DecidableEq

/-- The years `gmtime` goes through, of which the last is 3000. -/
def years : List Nat := (List.range' 1970 1031).map daysOfYear

theorem getElem?_years {y l : Nat} :
    years[y]? = some l ↔ y < 1031 ∧ daysOfYear (1970 + y) = l := by
  rw [years, List.getElem?_map, Option.map_eq_some_iff]
  constructor
  · rintro ⟨year, hYear, rfl⟩
    obtain ⟨hLess, hIs⟩ := List.getElem?_eq_some_iff.mp hYear
    rw [List.length_range'] at hLess
    rw [List.getElem_range', Nat.one_mul] at hIs
    exact ⟨hLess, congrArg daysOfYear hIs⟩
  · rintro ⟨hLess, rfl⟩
    refine ⟨1970 + y, ?_, rfl⟩
    rw [List.getElem?_range' hLess, Nat.one_mul]

theorem sum_take_years {y : Nat} (h : y ≤ 1031) :
    (years.take y).sum + leapYears 1969 = 365 * y + leapYears (1969 + y) := by
  rw [years, ← List.map_take, List.take_range'_of_length_ge h]
  exact sum_daysOfYear 1969 y

/-- `gmtime`. Outside of its years there is no time. -/
def gmtime (t : Int) : Option Tm := do
  if t < 0 then none
  else
    let days := t.toNat / 86400
    let secs := t.toNat % 86400
    let (y, yday) ← locate years days
    let (mon, mday) ← locate (daysOfMonths (isLeapYear (1970 + y))) yday
    return {
      year := y + 70, mon := mon, mday := mday + 1,
      hour := (secs / 3600 : Nat), min := (secs % 3600 / 60 : Nat), sec := (secs % 60 : Nat) }

theorem gmtime_of_lt {t : Int} (hStart : 0 ≤ t) (hEnd : t.toNat / 86400 < years.sum) :
    ∃ tm, gmtime t = some tm := by
  obtain ⟨y, yday, hYear⟩ := locate_of_lt hEnd
  obtain ⟨⟨l, hl, hYday⟩, -⟩ := locate_eq_some_iff.mp hYear
  obtain ⟨-, rfl⟩ := getElem?_years.mp hl
  rw [← sum_daysOfMonths] at hYday
  obtain ⟨mon, mday, hMon⟩ := locate_of_lt hYday
  unfold gmtime
  rw [if_neg (Int.not_lt.mpr hStart)]
  simp only [hYear, hMon, Option.bind_eq_bind, Option.bind_some]
  exact ⟨_, rfl⟩

end OncRpc.Calendar
