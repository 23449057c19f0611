import Stow.Lib.Calendar
import Stow.Lib.Decimal

/-! The key under which a weekly digest is sent, against the weeks of ISO 8601. -/
namespace Stow.Notifications

open Stow.Lib Stow.Lib.Calendar

/-- `getUTCDay`, from Sunday on. -/
def utcWeekday (n : Int) : Int := (n + 4) % 7

def decimal (n : Int) : List Char :=
  if n < 0 then '-' :: Nat.toDigits 10 n.natAbs else Nat.toDigits 10 n.natAbs

def weekText (year week : Int) : List Char :=
  decimal year ++ '-' :: 'W' :: (decimal week).leftpad 2 '0'

def getLocalWeeklyPeriodKey (date : Date) : List Char :=
  let d := utcDay date.year (date.month - 1) date.day
  let isoDay := if utcWeekday d = 0 then 7 else utcWeekday d
  -- the date is set to another day of the month, which may lie outside of it
  let d := d + 4 - isoDay
  let yearStart := utcDay (yearFromDay d) 0 1
  -- `Math.ceil` of a whole number of days
  let week := -(-(d - yearStart + 1) / 7)
  weekText (yearFromDay d) week

/-- The first week of a year is the one of 4 January, and weeks are counted from there up to the
first week of the next year. -/
structure IsoWeek (n year week : Int) : Prop where
  first : 1 ≤ week
  counted : mondayOf n = mondayOf (dayNumber year 1 4) + 7 * (week - 1)
  before : mondayOf n < mondayOf (dayNumber (year + 1) 1 4)

theorem decimal_of_nonneg {n : Int} (h : 0 ≤ n) : decimal n = Nat.toDigits 10 n.natAbs :=
  if_neg (not_lt.mpr h)

theorem weekText_inj {y z v w : Int} (hy : 0 ≤ y) (hz : 0 ≤ z) (hv : 0 ≤ v) (hw : 0 ≤ w)
    (h : weekText y v = weekText z w) : y = z ∧ v = w := by
  simp only [weekText, decimal_of_nonneg, hy, hz, hv, hw] at h
  obtain ⟨hyr, hr⟩ := Decimal.append_mark_inj (fun _ => Decimal.isDigit_of_mem)
    (fun _ => Decimal.isDigit_of_mem) (by decide) h
  have hwk := Decimal.padded_injective (List.cons.inj hr).2
  have hyr := congrArg (Nat.ofDigitChars 10 · 0) hyr
  simp only [Nat.ofDigitChars_ten_toDigits] at hyr
  omega

/-- The week in which the year of a date from 4 January 100 on lies is named after its Thursday. -/
theorem key_spec {date : Date} (hy : 100 ≤ date.year) (hdt : dayNumber 100 1 4 ≤ date.number) :
    let thursday := mondayOf date.number + 3
    let year := yearFromDay thursday
    let week := (thursday - dayFromYear year) / 7 + 1
    getLocalWeeklyPeriodKey date = weekText year week ∧ 0 ≤ year ∧
      IsoWeek date.number year week := by
  intro thursday year week
  have hd := date.utcDay_eq hy
  have ht : date.number + 4 -
      (if utcWeekday date.number = 0 then 7 else utcWeekday date.number) = thursday := by
    simp only [thursday, utcWeekday, mondayOf]
    split_ifs <;> omega
  have hc : dayFromYear 100 ≤ thursday := by
    have : dayNumber 100 1 4 = dayFromYear 100 + 3 := by decide
    have : dayFromYear 100 = -683003 := by decide
    simp only [thursday, mondayOf]
    omega
  have hy : 100 ≤ year := le_yearFromDay hc
  obtain ⟨hf, hto⟩ : dayFromYear year ≤ thursday ∧ thursday < dayFromYear (year + 1) :=
    yearFromDay_bounds thursday
  have hm : mondayOf date.number = thursday - 3 := by omega
  have hml : thursday % 7 = 0 := by
    simp only [thursday, mondayOf]
    omega
  have hs : utcDay year 0 1 = dayFromYear year := by
    rw [utcDay, if_neg (by omega)]
    simp [dayNumber]
  have hj (y : Int) : dayNumber y 1 4 = dayFromYear y + 3 := by
    simp [dayNumber]
    omega
  refine ⟨?_, by omega, ?_, ?_, ?_⟩
  · simp only [getLocalWeeklyPeriodKey, hd, ht]
    change weekText year (-(-(thursday - utcDay year 0 1 + 1) / 7)) = _
    rw [hs]
    congr 1
    omega
  · omega
  · rw [hj, hm]
    simp only [week, mondayOf]
    omega
  · rw [hj, hm]
    simp only [mondayOf]
    omega

/-- The key of the date is its week by ISO 8601. -/
def NamesWeek (date : Date) : Prop :=
  ∃ year week, IsoWeek date.number year week ∧ getLocalWeeklyPeriodKey date = weekText year week

theorem IsoWeek.unique {n y z v w : Int} (h : IsoWeek n y v) (h' : IsoWeek n z w) :
    y = z ∧ v = w := by
  have key {y z v w : Int} (h : IsoWeek n y v) (h' : IsoWeek n z w) : y ≤ z := by
    by_contra hlt
    have hm := dayFromYear_mono (show z + 1 ≤ y by omega)
    have hy := h.first
    have hc := h.counted
    have hz := h'.before
    simp only [mondayOf, dayNumber] at hc hz
    simp at hc hz
    omega
  obtain rfl : y = z := le_antisymm (key h h') (key h' h)
  have hc := h.counted
  have hc' := h'.counted
  exact ⟨rfl, by omega⟩

/-- The week of 1 January 100 is counted from the beginning of 1999. -/
theorem not_namesWeek {date : Date} (hy : 100 ≤ date.year)
    (hdt : date.number < dayNumber 100 1 4) : ¬ NamesWeek date := by
  have hf : dayFromYear 100 ≤ date.number := by
    have := dayFromYear_mono hy
    have := date.day_valid.1
    unfold Date.number dayNumber
    omega
  rintro ⟨year, week, hw, hk⟩
  have hd := date.utcDay_eq hy
  generalize date.number = n at *
  have hn : n = -683003 ∨ n = -683002 ∨ n = -683001 := by
    have : dayNumber 100 1 4 = -683000 := by decide
    have : dayFromYear 100 = -683003 := by decide
    omega
  have h99 : IsoWeek n 99 53 := by
    rcases hn with rfl | rfl | rfl <;> exact ⟨by decide, by decide, by decide⟩
  obtain ⟨rfl, rfl⟩ := hw.unique h99
  simp only [getLocalWeeklyPeriodKey, hd] at hk
  revert hk
  rcases hn with rfl | rfl | rfl <;> decide

theorem namesWeek_iff {date : Date} (hy : 100 ≤ date.year) :
    NamesWeek date ↔ dayNumber 100 1 4 ≤ date.number := by
  constructor
  · intro h
    by_contra hlt
    exact not_namesWeek hy (not_le.mp hlt) h
  · intro h
    obtain ⟨hk, -, hw⟩ := key_spec hy h
    exact ⟨_, _, hw, hk⟩

/-- The keys of two dates are their years and weeks by ISO 8601, and equal exactly when the dates
lie in the same week from Monday to Sunday, if and only if both are from 4 January 100 on. -/
theorem weekly_keys_iso {a b : Date} (ha : 100 ≤ a.year) (hb : 100 ≤ b.year) :
    ((getLocalWeeklyPeriodKey a = getLocalWeeklyPeriodKey b ↔
        mondayOf a.number = mondayOf b.number) ∧ NamesWeek a ∧ NamesWeek b) ↔
      dayNumber 100 1 4 ≤ a.number ∧ dayNumber 100 1 4 ≤ b.number := by
  rw [namesWeek_iff ha, namesWeek_iff hb]
  refine and_iff_right_of_imp fun ⟨hfirst, hfirst'⟩ => ?_
  obtain ⟨hk, hy, hw⟩ := key_spec ha hfirst
  obtain ⟨hk', hy', hw'⟩ := key_spec hb hfirst'
  constructor
  · intro h
    rw [hk, hk'] at h
    have ho := hw.first
    have ho' := hw'.first
    obtain ⟨hs, hs'⟩ := weekText_inj hy hy' (by omega) (by omega) h
    rw [hw.counted, hw'.counted, hs', hs]
  · intro h
    rw [hk, hk', h]

theorem weekly_keys_iso_at_new_year :
    let a : Date := ⟨2024, 12, 30, by decide, by decide⟩
    let b : Date := ⟨2025, 1, 5, by decide, by decide⟩
    (getLocalWeeklyPeriodKey a = getLocalWeeklyPeriodKey b ↔
      mondayOf a.number = mondayOf b.number) ∧ NamesWeek a ∧ NamesWeek b :=
  (weekly_keys_iso (by decide) (by decide)).mpr ⟨by decide, by decide⟩

/-- The first three days of the year 100 lie in the last week of the year 99, which is counted from
the beginning of 1999. -/
theorem key_of_year_100 :
    let date : Date := ⟨100, 1, 1, by decide, by decide⟩
    IsoWeek date.number 99 53 ∧ getLocalWeeklyPeriodKey date ≠ weekText 99 53 := by
  exact ⟨⟨by decide, by decide, by decide⟩, by decide⟩

end Stow.Notifications
