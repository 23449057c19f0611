import Mathlib.Tactic.Common
import Mathlib.Tactic.Ring

/-! Days of the proleptic Gregorian calendar, counted from 1 January 1970, a Thursday. -/
namespace Stow.Lib.Calendar

def isLeap (year : Int) : Bool := (year % 4 = 0 && year % 100 ≠ 0) || year % 400 = 0

def daysInMonth (year : Int) : Nat → Nat
  | 2 => if isLeap year then 29 else 28
  | 4 | 6 | 9 | 11 => 30
  | _ => 31

/-- The number of 1 January. -/
def dayFromYear (year : Int) : Int :=
  365 * (year - 1970) + (year - 1969) / 4 - (year - 1901) / 100 + (year - 1601) / 400

/-- The number of a day of a month, both counted from one. -/
def dayNumber (year : Int) (month : Nat) (day : Int) : Int :=
  dayFromYear year + ((List.range' 1 (month - 1)).map (daysInMonth year)).sum + day - 1

/-- The day of `Date.UTC`, with months from zero: the years 0 to 99 are taken for 1900 to 1999. -/
def utcDay (year : Int) (monthIndex : Nat) (day : Int) : Int :=
  dayNumber (if 0 ≤ year ∧ year ≤ 99 then 1900 + year else year) (monthIndex + 1) day

/-- The mean year is at most one off. -/
def yearFromDay (n : Int) : Int :=
  let year := 1970 + n * 400 / 146097
  if n < dayFromYear year then year - 1
  else if dayFromYear (year + 1) ≤ n then year + 1
  else year

/-- The Monday of the week of a day. -/
def mondayOf (n : Int) : Int := n - (n + 3) % 7

structure Date where
  year : Int
  month : Nat
  day : Nat
  month_valid : 1 ≤ month ∧ month ≤ 12
  day_valid : 1 ≤ day ∧ day ≤ daysInMonth year month

def Date.number (date : Date) : Int := dayNumber date.year date.month date.day

theorem Date.utcDay_eq {date : Date} (h : 100 ≤ date.year) :
    utcDay date.year (date.month - 1) date.day = date.number := by
  rw [utcDay, if_neg (by omega), Nat.sub_add_cancel date.month_valid.1, Date.number]

theorem dayFromYear_mono {y z : Int} (h : y ≤ z) : dayFromYear y ≤ dayFromYear z := by
  unfold dayFromYear
  omega

theorem yearFromDay_bounds (n : Int) :
    dayFromYear (yearFromDay n) ≤ n ∧ n < dayFromYear (yearFromDay n + 1) := by
  unfold yearFromDay
  have hm : 1970 + n * 400 / 146097 - 1970 = n * 400 / 146097 := by omega
  generalize 1970 + n * 400 / 146097 = year at hm
  have hl : dayFromYear (year - 1) ≤ n := by
    unfold dayFromYear
    omega
  have hh : n < dayFromYear (year + 1 + 1) := by
    unfold dayFromYear
    omega
  dsimp only
  split_ifs with hb ha
  · exact ⟨hl, by rwa [sub_add_cancel]⟩
  · exact ⟨ha, hh⟩
  · exact ⟨not_lt.mp hb, not_le.mp ha⟩

theorem le_yearFromDay {n year : Int} (h : dayFromYear year ≤ n) : year ≤ yearFromDay n := by
  by_contra hlt
  have := dayFromYear_mono (show yearFromDay n + 1 ≤ year by omega)
  have := (yearFromDay_bounds n).2
  omega

end Stow.Lib.Calendar
