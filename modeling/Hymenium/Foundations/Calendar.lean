import Mathlib.Order.Monotone.Basic
import Mathlib.Data.Nat.Find
import Mathlib.Tactic.IntervalCases

/-!
# The Gregorian calendar

Days and dates from year 0 on. Day `n` is the `n`-th day after 1 January of year 0. The date of a
later day is later, field by field (`date_lt`).
-/

namespace Calendar

/-- The days before 1 January of a year. Year 0 is a leap year. -/
def daysBeforeYear (y : ℕ) : ℕ := 365 * y + (y + 3) / 4 - (y + 99) / 100 + (y + 399) / 400

/-- A year of 366 days. -/
def IsLeap (y : ℕ) : Prop := y % 4 = 0 ∧ (y % 100 ≠ 0 ∨ y % 400 = 0)

instance : DecidablePred IsLeap := fun _ => inferInstanceAs (Decidable (_ ∧ _))

/-- The days before the month with number `m + 1` in a year that is no leap year. -/
def daysBeforeMonth : ℕ → ℕ
  | 0 => 0
  | 1 => 31
  | 2 => 59
  | 3 => 90
  | 4 => 120
  | 5 => 151
  | 6 => 181
  | 7 => 212
  | 8 => 243
  | 9 => 273
  | 10 => 304
  | 11 => 334
  | _ => 365

/-- The days before the month with number `m + 1`. -/
def monthStart (y m : ℕ) : ℕ := daysBeforeMonth m + if IsLeap y ∧ 2 ≤ m then 1 else 0

structure Date where
  year : ℕ
  month : ℕ
  day : ℕ
  deriving DecidableEq

/-- The year of a day: the mean length of a year finds it up to one. -/
def yearOf (n : ℕ) : ℕ :=
  let y := n * 400 / 146097
  if daysBeforeYear (y + 1) ≤ n then y + 1 else if daysBeforeYear y ≤ n then y else y - 1

/-- The number of the month, from 0 on, of the `d`-th day of a year. -/
def monthOf (y d : ℕ) : ℕ := Nat.findGreatest (fun m => monthStart y m ≤ d) 11

/-- The date of a day. -/
def date (n : ℕ) : Date :=
  let y := yearOf n
  let d := n - daysBeforeYear y
  let m := monthOf y d
  ⟨y, m + 1, d - monthStart y m + 1⟩

/-- Dates in the order of the calendar. -/
def Date.Lt (a b : Date) : Prop :=
  a.year < b.year ∨ a.year = b.year ∧ (a.month < b.month ∨ a.month = b.month ∧ a.day < b.day)

/-! ## Years -/

theorem daysBeforeYear_succ (y : ℕ) :
    daysBeforeYear (y + 1) = daysBeforeYear y + if IsLeap y then 366 else 365 := by
  have h4 : (y + 1 + 3) / 4 = (y + 3) / 4 + if y % 4 = 0 then 1 else 0 := by
    split_ifs <;> omega
  have h100 : (y + 1 + 99) / 100 = (y + 99) / 100 + if y % 100 = 0 then 1 else 0 := by
    split_ifs <;> omega
  have h400 : (y + 1 + 399) / 400 = (y + 399) / 400 + if y % 400 = 0 then 1 else 0 := by
    split_ifs <;> omega
  unfold daysBeforeYear IsLeap
  rw [h4, h100, h400]
  by_cases hy : y % 4 = 0 <;> by_cases hc : y % 100 = 0 <;> by_cases hq : y % 400 = 0 <;>
    simp [hy, hc, hq] <;> omega

theorem daysBeforeYear_strictMono : StrictMono daysBeforeYear := by
  refine strictMono_nat_of_lt_succ fun y => ?_
  rw [daysBeforeYear_succ]
  split_ifs <;> omega

/-- A year has 365.2425 days, up to the place in its cycle. -/
theorem daysBeforeYear_bounds (y : ℕ) :
    146097 * y ≤ 400 * daysBeforeYear y + 396 ∧ 400 * daysBeforeYear y ≤ 146097 * y + 699 := by
  unfold daysBeforeYear
  omega

/-- A day lies in its year. -/
theorem yearOf_spec (n : ℕ) :
    daysBeforeYear (yearOf n) ≤ n ∧ n < daysBeforeYear (yearOf n + 1) := by
  unfold yearOf
  dsimp only
  generalize hy : n * 400 / 146097 = y
  split_ifs with hnext hthis
  · have hbound := (daysBeforeYear_bounds (y + 1 + 1)).1
    exact ⟨hnext, by omega⟩
  · exact ⟨hthis, by omega⟩
  · have hpos : y ≠ 0 := by
      rintro rfl
      exact hthis (Nat.zero_le n)
    have hbound := (daysBeforeYear_bounds (y - 1)).2
    rw [Nat.sub_add_cancel (Nat.one_le_iff_ne_zero.mpr hpos)]
    exact ⟨by omega, by omega⟩

theorem yearOf_le {n n' : ℕ} (h : n ≤ n') : yearOf n ≤ yearOf n' := by
  have hlt := (yearOf_spec n).1.trans_lt (h.trans_lt (yearOf_spec n').2)
  exact Nat.lt_succ_iff.mp (daysBeforeYear_strictMono.lt_iff_lt.mp hlt)

/-! ## Months -/

theorem monthStart_monthOf_le (y d : ℕ) : monthStart y (monthOf y d) ≤ d := by
  refine Nat.findGreatest_spec (P := fun m => monthStart y m ≤ d) (Nat.zero_le 11) ?_
  simp [monthStart, daysBeforeMonth]

theorem monthOf_le (y d : ℕ) : monthOf y d ≤ 11 := Nat.findGreatest_le 11

/-- A month that begins by day `d` is not after the month of the day. -/
theorem le_monthOf {y d m : ℕ} (hm : m ≤ 11) (h : monthStart y m ≤ d) : m ≤ monthOf y d :=
  Nat.le_findGreatest hm h

/-- A month has at most 31 days. -/
theorem monthStart_succ_le {y m : ℕ} (hm : m ≤ 11) :
    monthStart y (m + 1) ≤ monthStart y m + 31 := by
  unfold monthStart
  by_cases hleap : IsLeap y <;> interval_cases m <;> simp [daysBeforeMonth, hleap]

/-! ## Dates -/

/-- The parts of a date have at most two digits, but for the year. -/
theorem date_bounds (n : ℕ) : (date n).month < 100 ∧ (date n).day < 100 := by
  have hyear := yearOf_spec n
  rw [daysBeforeYear_succ] at hyear
  have hmonth := monthOf_le (yearOf n) (n - daysBeforeYear (yearOf n))
  have hstart := monthStart_succ_le (y := yearOf n) hmonth
  unfold date
  dsimp only
  refine ⟨by omega, ?_⟩
  by_cases hlast : monthOf (yearOf n) (n - daysBeforeYear (yearOf n)) = 11
  · rw [hlast] at hstart ⊢
    have hdec : monthStart (yearOf n) 11 ≥ 334 := by simp [monthStart, daysBeforeMonth]
    split_ifs at hyear <;> omega
  · have hnext : n - daysBeforeYear (yearOf n) <
        monthStart (yearOf n) (monthOf (yearOf n) (n - daysBeforeYear (yearOf n)) + 1) := by
      by_contra hge
      have := le_monthOf (by omega) (not_lt.mp hge)
      omega
    omega

/-- The date of a later day is later. -/
theorem date_lt {n n' : ℕ} (h : n < n') : (date n).Lt (date n') := by
  unfold Date.Lt date
  dsimp only
  rcases (yearOf_le h.le).lt_or_eq with hyear | hyear
  · exact .inl hyear
  · rw [← hyear]
    have hfirst := (yearOf_spec n).1
    have hd : n - daysBeforeYear (yearOf n) < n' - daysBeforeYear (yearOf n) := by omega
    have hmonth := le_monthOf (monthOf_le (yearOf n) (n - daysBeforeYear (yearOf n)))
      ((monthStart_monthOf_le _ _).trans hd.le)
    refine .inr ⟨rfl, ?_⟩
    rcases hmonth.lt_or_eq with hmonth | hmonth
    · exact .inl (by omega)
    · rw [← hmonth]
      have hstart := monthStart_monthOf_le (yearOf n) (n - daysBeforeYear (yearOf n))
      exact .inr ⟨rfl, by omega⟩

example : date 0 = ⟨0, 1, 1⟩ := by decide

/-- 29 February 2024. -/
example : date (719528 + 19782) = ⟨2024, 2, 29⟩ := by decide

end Calendar
