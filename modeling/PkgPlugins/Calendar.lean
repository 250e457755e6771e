/-
The proleptic Gregorian calendar: the days of a date since 1970-01-01, and the
seconds of a date and time since the same day at midnight.

Days are counted: those of the years before, of the months before, and of the month
so far.
-/
import Mathlib.Data.Int.Init
import Mathlib.Tactic.SplitIfs
import Mathlib.Tactic.Common

set_option autoImplicit false

namespace PkgPlugins.Calendar

/-! ## Dates -/

def isLeap (y : ℤ) : Bool := (y % 4 = 0 && y % 100 ≠ 0) || y % 400 = 0

/-- The days of a month, the first being 1. -/
def monthDays (leap : Bool) : ℕ → ℕ
  | 1 => 31
  | 2 => if leap then 29 else 28
  | 3 => 31
  | 4 => 30
  | 5 => 31
  | 6 => 30
  | 7 => 31
  | 8 => 31
  | 9 => 30
  | 10 => 31
  | 11 => 30
  | 12 => 31
  | _ => 0

theorem monthDays_le (leap : Bool) (m : ℕ) : monthDays leap m ≤ 31 := by
  unfold monthDays
  split <;> (try split) <;> omega

/-- A date that exists. -/
structure Date where
  year : ℤ
  month : ℕ
  day : ℕ
  month_pos : 1 ≤ month
  month_le : month ≤ 12
  day_pos : 1 ≤ day
  day_le : day ≤ monthDays (isLeap year) month

/-! ## Counting days -/

/-- The days of the months before. -/
def daysBeforeMonth (leap : Bool) : ℕ → ℕ
  | 0 => 0
  | m + 1 => daysBeforeMonth leap m + monthDays leap m

/-- The days from 0001-01-01 to the first day of a year. -/
def daysBeforeYear (y : ℤ) : ℤ := 365 * (y - 1) + (y - 1) / 4 - (y - 1) / 100 + (y - 1) / 400

/-- The days from 1970-01-01 to a date. -/
def dayNumber (y : ℤ) (m d : ℕ) : ℤ :=
  daysBeforeYear y - daysBeforeYear 1970 + daysBeforeMonth (isLeap y) m + d - 1

/-- The seconds from 1970-01-01 00:00:00 UTC to a date and time. -/
def Date.timestamp (date : Date) (hour minute second : ℕ) : ℤ :=
  86400 * dayNumber date.year date.month date.day + 3600 * hour + 60 * minute + second

theorem isLeap_iff (y : ℤ) : isLeap y = true ↔ y % 4 = 0 ∧ y % 100 ≠ 0 ∨ y % 400 = 0 := by
  simp [isLeap]

/-- A year has 365 days, a leap year one more. -/
theorem daysBeforeYear_succ (y : ℤ) :
    daysBeforeYear (y + 1) = daysBeforeYear y + (if isLeap y = true then 366 else 365) := by
  unfold daysBeforeYear
  have hsame : y + 1 - 1 = y := by omega
  rw [hsame]
  split_ifs with h
  · have hcases := (isLeap_iff y).mp h
    omega
  · rw [isLeap_iff] at h
    omega

/-- The months of a year have its days. -/
theorem daysBeforeMonth_end (leap : Bool) :
    daysBeforeMonth leap 13 = if leap = true then 366 else 365 := by
  cases leap <;> rfl

theorem daysBeforeMonth_mono (leap : Bool) {m m' : ℕ} (h : m ≤ m') :
    daysBeforeMonth leap m ≤ daysBeforeMonth leap m' := by
  induction m' with
  | zero =>
      obtain rfl := Nat.le_zero.mp h
      exact Nat.le_refl _
  | succ n ih =>
      obtain hlt | rfl := Nat.lt_or_eq_of_le h
      · have hstep : daysBeforeMonth leap (n + 1) = daysBeforeMonth leap n + monthDays leap n := rfl
        have hn := ih (by omega)
        omega
      · exact Nat.le_refl _

/-- A date is on one of the days of its year. -/
theorem Date.day_of_year_le (date : Date) :
    daysBeforeMonth (isLeap date.year) date.month + date.day
      ≤ if isLeap date.year = true then 366 else 365 := by
  rw [← daysBeforeMonth_end]
  have hmono := daysBeforeMonth_mono (isLeap date.year)
    (show date.month + 1 ≤ 13 by have := date.month_le; omega)
  have hstep : daysBeforeMonth (isLeap date.year) (date.month + 1)
      = daysBeforeMonth (isLeap date.year) date.month
        + monthDays (isLeap date.year) date.month := rfl
  have hday := date.day_le
  omega

theorem daysBeforeYear_mono {y y' : ℤ} (h : y ≤ y') : daysBeforeYear y ≤ daysBeforeYear y' := by
  unfold daysBeforeYear
  omega

/-- **A date of an earlier year** is on an earlier day. -/
theorem dayNumber_lt_of_year_lt (date : Date) {y : ℤ} (m : ℕ) {d : ℕ} (hy : date.year < y)
    (hd : 1 ≤ d) : dayNumber date.year date.month date.day < dayNumber y m d := by
  have hyear := date.day_of_year_le
  have hnext := daysBeforeYear_succ date.year
  have hmono := daysBeforeYear_mono (show date.year + 1 ≤ y by omega)
  unfold dayNumber
  split_ifs at hyear hnext <;> omega

end PkgPlugins.Calendar
