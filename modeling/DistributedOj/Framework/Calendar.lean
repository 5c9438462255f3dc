import Mathlib

/-!
# The Gregorian calendar

Day numbers count from the first day of the year 0, in the Gregorian calendar
carried back before its introduction. The year, the month and the day of the
month that a day number falls on make the day number again (`dayNumber_dateOf`).
-/

namespace OJ.Framework

def isLeap (year : Int) : Bool := year % 4 = 0 ∧ (year % 100 ≠ 0 ∨ year % 400 = 0)

def monthLengths (leap : Bool) : List Nat :=
  [31, if leap then 29 else 28, 31, 30, 31, 30, 31, 31, 30, 31, 30, 31]

/-- The day number of the first day of a year. -/
def daysBeforeYear (year : Int) : Int :=
  365 * year + (year + 3) / 4 - (year + 99) / 100 + (year + 399) / 400

/-- The month and the day of it, each from 0 on, of a day of the year. -/
def splitMonths : List Nat → Nat → Nat × Nat
  | [], day => (0, day)
  | n :: ns, day =>
    if day < n then (0, day) else ((splitMonths ns (day - n)).1 + 1, (splitMonths ns (day - n)).2)

/-- The year of a day number: 400 years have 146097 days, which leaves it to be
corrected by one. -/
def yearOf (n : Int) : Int :=
  let year := 400 * n / 146097
  if n < daysBeforeYear year then year - 1
  else if daysBeforeYear (year + 1) ≤ n then year + 1
  else year

/-- A date; the month and the day count from 0. -/
structure Date where
  year : Int
  month : Nat
  day : Nat
  deriving DecidableEq

/-- The day number of a day of a month, which may lie outside the month. -/
def dayNumber (year : Int) (month : Nat) (day : Int) : Int :=
  daysBeforeYear year + ((monthLengths (isLeap year)).take month).sum + day

def dateOf (n : Int) : Date :=
  let year := yearOf n
  let md := splitMonths (monthLengths (isLeap year)) (n - daysBeforeYear year).toNat
  ⟨year, md.1, md.2⟩

theorem sum_monthLengths (leap : Bool) : (monthLengths leap).sum = if leap then 366 else 365 := by
  cases leap with
  | false => rfl
  | true => rfl

theorem daysBeforeYear_succ (year : Int) :
    daysBeforeYear (year + 1) = daysBeforeYear year + (monthLengths (isLeap year)).sum := by
  rw [sum_monthLengths, daysBeforeYear, daysBeforeYear, isLeap]
  by_cases h : year % 4 = 0 ∧ (year % 100 ≠ 0 ∨ year % 400 = 0)
  · rw [decide_eq_true h, if_pos rfl]
    omega
  · rw [decide_eq_false h, if_neg Bool.false_ne_true]
    omega

/-- The year that a day number falls into. -/
theorem yearOf_spec (n : Int) :
    daysBeforeYear (yearOf n) ≤ n ∧ n < daysBeforeYear (yearOf n + 1) := by
  rw [yearOf]
  split
  · next h =>
    rw [sub_add_cancel]
    refine ⟨?_, h⟩
    rw [daysBeforeYear]
    omega
  · next h =>
    split
    · next h' =>
      refine ⟨h', ?_⟩
      rw [daysBeforeYear]
      omega
    · next h' => exact ⟨Int.not_lt.mp h, Int.not_le.mp h'⟩

theorem splitMonths_spec {ns : List Nat} {day : Nat} (h : day < ns.sum) :
    (ns.take (splitMonths ns day).1).sum + (splitMonths ns day).2 = day ∧
      (splitMonths ns day).1 < ns.length ∧ ∃ n ∈ ns, (splitMonths ns day).2 < n := by
  induction ns generalizing day with
  | nil => cases h
  | cons n ns ih =>
    rw [splitMonths]
    split
    · next hlt => exact ⟨by simp, by simp, n, List.mem_cons_self, hlt⟩
    · next hlt =>
      rw [List.sum_cons] at h
      obtain ⟨hsum, hlength, k, hk, hday⟩ := ih (show day - n < ns.sum by omega)
      refine ⟨?_, Nat.succ_lt_succ hlength, k, List.mem_cons_of_mem n hk, hday⟩
      rw [List.take_succ_cons, List.sum_cons]
      omega

theorem dayOfYear_lt (n : Int) :
    (n - daysBeforeYear (yearOf n)).toNat < (monthLengths (isLeap (yearOf n))).sum := by
  obtain ⟨hlow, hhigh⟩ := yearOf_spec n
  rw [daysBeforeYear_succ] at hhigh
  omega

/-- The date of a day number makes the day number again. -/
theorem dayNumber_dateOf (n : Int) :
    dayNumber (dateOf n).year (dateOf n).month (dateOf n).day = n := by
  have hsplit := (splitMonths_spec (dayOfYear_lt n)).1
  have hlow := (yearOf_spec n).1
  simp only [dayNumber, dateOf]
  omega

/-- The first day of 1970. -/
example : dateOf 719528 = ⟨1970, 0, 0⟩ := by decide +kernel

theorem dateOf_month (n : Int) : (dateOf n).month < 12 :=
  (splitMonths_spec (dayOfYear_lt n)).2.1

theorem dateOf_day (n : Int) : (dateOf n).day < 31 := by
  obtain ⟨k, hk, hday⟩ := (splitMonths_spec (dayOfYear_lt n)).2.2
  have hle (leap : Bool) : ∀ k ∈ monthLengths leap, k ≤ 31 := by
    cases leap with
    | false => decide
    | true => decide
  exact Nat.lt_of_lt_of_le hday (hle _ k hk)

end OJ.Framework
