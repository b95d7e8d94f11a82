/-
# AntServer.Lib.Calendar — periods of time, and the Gregorian calendar

Time is cut into *periods* that begin at `start k` for an integer `k`: days, weeks, months, years. Something
that happens at most once in a period, at `moment k` if that lies in the period at all, next happens in
the current period or, when it is over there, in the next one that has it (`isLeast_of_here`,
`isLeast_of_next`).

The Gregorian calendar counts days from 1970-01-01. A month is one number, twelve times the year and the
months before it in the year, so that months past December are those of later years; `monthStart` is the
day on which it begins. `monthOf` is the month of a day.

Nothing here names the modelled system.
-/
import Mathlib.Data.Int.ConditionallyCompleteOrder
import Mathlib.Order.ConditionallyCompleteLattice.Basic
import Mathlib.Tactic.Ring

namespace AntServer.Lib

/-! ## Periods -/

section Periods

variable {α : Type*} [LinearOrder α] {start moment : ℤ → α}

/-- `t` lies in the period `k`. -/
def InPeriod (start : ℤ → α) (k : ℤ) (t : α) : Prop := start k ≤ t ∧ t < start (k + 1)

/-- When something happens that happens at `moment k` in each period that has it. -/
def occurrences (has : ℤ → Prop) (moment : ℤ → α) : Set α := {t | ∃ k, has k ∧ t = moment k}

theorem InPeriod.le_of_le (hstart : Monotone start) {k k' : ℤ} {t t' : α} (h : InPeriod start k t)
    (h' : InPeriod start k' t') (hle : t ≤ t') : k ≤ k' := by
  by_contra hlt
  have hle' : start (k' + 1) ≤ start k := hstart (by omega)
  exact absurd ((h'.2.trans_le hle').trans_le h.1) (not_lt.mpr hle)

theorem InPeriod.unique (hstart : Monotone start) {k k' : ℤ} {t : α} (h : InPeriod start k t)
    (h' : InPeriod start k' t) : k = k' :=
  le_antisymm (h.le_of_le hstart h' le_rfl) (h'.le_of_le hstart h le_rfl)

/-- What happens in a later period happens later. -/
theorem InPeriod.lt_of_lt (hstart : Monotone start) {k k' : ℤ} {t t' : α} (h : InPeriod start k t)
    (h' : InPeriod start k' t') (hlt : k < k') : t < t' :=
  (h.2.trans_le (hstart (by omega : k + 1 ≤ k'))).trans_le h'.1

section Occurrences

variable {has : ℤ → Prop} (hstart : Monotone start) (hhas : ∀ k, has k → InPeriod start k (moment k))

include hstart hhas

/-- It happens in the current period and is not over. -/
theorem isLeast_of_here {k : ℤ} {now : α} (hnow : InPeriod start k now) (hhere : has k)
    (hle : now ≤ moment k) : IsLeast {t | now ≤ t ∧ t ∈ occurrences has moment} (moment k) := by
  refine ⟨⟨hle, k, hhere, rfl⟩, ?_⟩
  rintro t ⟨hnowt, k', hk', rfl⟩
  rcases (hnow.le_of_le hstart (hhas k' hk') hnowt).eq_or_lt with rfl | hlt
  · exact le_rfl
  · exact ((hhas k hhere).lt_of_lt hstart (hhas k' hk') hlt).le

/-- It is over in the current period, or does not happen there, and happens in the next one. -/
theorem isLeast_of_next {k : ℤ} {now : α} (hnow : InPeriod start k now) (hover : has k → moment k < now)
    (hnext : has (k + 1)) : IsLeast {t | now ≤ t ∧ t ∈ occurrences has moment} (moment (k + 1)) := by
  refine ⟨⟨(hnow.lt_of_lt hstart (hhas _ hnext) (by omega)).le, k + 1, hnext, rfl⟩, ?_⟩
  rintro t ⟨hnowt, k', hk', rfl⟩
  rcases (hnow.le_of_le hstart (hhas k' hk') hnowt).eq_or_lt with rfl | hlt
  · exact absurd (hover hk') (not_lt.mpr hnowt)
  · rcases (Int.add_one_le_of_lt hlt).eq_or_lt with rfl | hlt'
    · exact le_rfl
    · exact ((hhas _ hnext).lt_of_lt hstart (hhas k' hk') hlt').le

end Occurrences

end Periods

/-! ## Years -/

namespace Calendar

/-- 1 in a leap year, else 0. -/
def leapDay (year : ℤ) : ℤ := if year % 4 = 0 ∧ (year % 100 ≠ 0 ∨ year % 400 = 0) then 1 else 0

/-- The day on which a year begins. -/
def yearStart (year : ℤ) : ℤ :=
  365 * (year - 1) + (year - 1) / 4 - (year - 1) / 100 + (year - 1) / 400 - 719162

theorem leapDay_bounds (year : ℤ) : 0 ≤ leapDay year ∧ leapDay year ≤ 1 := by
  unfold leapDay
  split
  · omega
  · omega

theorem yearStart_succ (year : ℤ) : yearStart (year + 1) = yearStart year + 365 + leapDay year := by
  unfold yearStart leapDay
  split
  · omega
  · omega

/-- The year of a day: the mean length of a year is off by less than a day. -/
def yearOf (day : ℤ) : ℤ :=
  let year := 400 * (day + 719162) / 146097 + 1
  if day < yearStart year then year - 1
  else if yearStart (year + 1) ≤ day then year + 1
  else year

theorem yearOf_spec (day : ℤ) : InPeriod yearStart (yearOf day) day := by
  unfold InPeriod yearOf
  dsimp only
  split
  · rename_i hlt
    unfold yearStart at *
    omega
  · split
    · rename_i hle hge
      unfold yearStart at *
      omega
    · omega

/-! ## Months -/

/-- The days of a year before its month `m`, from 1 on. -/
def daysBefore (leap m : ℤ) : ℤ := (367 * m - 362) / 12 + if m ≤ 2 then 0 else leap - 2

/-- The day on which a month begins. -/
def monthStart (month : ℤ) : ℤ := yearStart (month / 12) + daysBefore (leapDay (month / 12)) (month % 12 + 1)

def monthLength (month : ℤ) : ℤ := monthStart (month + 1) - monthStart month

/-- The month of a day. -/
def monthOf (day : ℤ) : ℤ :=
  let year := yearOf day
  let left := day - yearStart year
  12 * year + ((12 * (left + if left < 59 + leapDay year then 0 else 2 - leapDay year) + 373) / 367 - 1)

theorem monthStart_year (year m : ℤ) (h : 0 ≤ m) (h' : m < 12) :
    monthStart (12 * year + m) = yearStart year + daysBefore (leapDay year) (m + 1) := by
  unfold monthStart
  rw [show (12 * year + m) / 12 = year by omega, show (12 * year + m) % 12 = m by omega]

/-- The month after December is the first one of the next year. -/
theorem monthStart_next_year (year : ℤ) :
    monthStart (12 * year + 12) = yearStart year + daysBefore (leapDay year) 13 := by
  rw [show 12 * year + 12 = 12 * (year + 1) + 0 by omega, monthStart_year _ _ le_rfl (by omega), yearStart_succ]
  unfold daysBefore
  simp
  omega

/-- The days before a month and before the next one. -/
theorem monthStart_succ (year m : ℤ) (h : 0 ≤ m) (h' : m < 12) :
    monthStart (12 * year + m + 1) = yearStart year + daysBefore (leapDay year) (m + 2) := by
  rcases (Int.add_one_le_of_lt h').eq_or_lt with heq | hlt
  · rw [add_assoc, heq, show m + 2 = 13 by omega]
    exact monthStart_next_year year
  · rw [add_assoc, monthStart_year year (m + 1) (by omega) hlt, add_assoc]
    rfl

theorem monthLength_bounds (month : ℤ) : 28 ≤ monthLength month ∧ monthLength month ≤ 31 := by
  have hlow : 0 ≤ month % 12 := by omega
  have hhigh : month % 12 < 12 := by omega
  have hmonth : month = 12 * (month / 12) + month % 12 := by omega
  have hleap := leapDay_bounds (month / 12)
  have hlength : monthLength month =
      daysBefore (leapDay (month / 12)) (month % 12 + 2) - daysBefore (leapDay (month / 12)) (month % 12 + 1) := by
    have hsucc := monthStart_succ (month / 12) (month % 12) hlow hhigh
    have hhere := monthStart_year (month / 12) (month % 12) hlow hhigh
    rw [← hmonth] at hsucc hhere
    unfold monthLength
    omega
  rw [hlength]
  generalize month % 12 = m at *
  generalize leapDay (month / 12) = leap at *
  -- both ends are up to the end of February, or one or both behind it
  unfold daysBefore
  split
  · split
    · omega
    · omega
  · split
    · omega
    · omega

theorem monthStart_strictMono : StrictMono monthStart :=
  strictMono_int_of_lt_succ fun month => by
    have hlength := (monthLength_bounds month).1
    unfold monthLength at hlength
    omega

theorem monthOf_spec (day : ℤ) : InPeriod monthStart (monthOf day) day := by
  obtain ⟨hlow, hhigh⟩ := yearOf_spec day
  have hleap := leapDay_bounds (yearOf day)
  rw [yearStart_succ] at hhigh
  have hmonth : ∃ m, monthOf day = 12 * yearOf day + m ∧ 0 ≤ m ∧ m < 12 ∧
      daysBefore (leapDay (yearOf day)) (m + 1) ≤ day - yearStart (yearOf day) ∧
      day - yearStart (yearOf day) < daysBefore (leapDay (yearOf day)) (m + 2) := by
    refine ⟨_, rfl, ?_⟩
    generalize leapDay (yearOf day) = leap at *
    generalize hleft : day - yearStart (yearOf day) = left at *
    have hleft0 : 0 ≤ left := by omega
    have hleft1 : left < 365 + leap := by omega
    unfold daysBefore
    -- the days up to the end of February, then those behind it
    by_cases hfeb : left < 59 + leap
    · simp only [hfeb, if_true]
      generalize hm : (12 * (left + 0) + 373) / 367 - 1 = m
      have hle : m + 1 ≤ 2 := by omega
      rw [if_pos hle]
      refine ⟨by omega, by omega, by omega, ?_⟩
      split
      · omega
      · omega
    · simp only [hfeb, if_false]
      generalize hm : (12 * (left + (2 - leap)) + 373) / 367 - 1 = m
      have hlt : ¬ m + 1 ≤ 2 := by omega
      have hlt' : ¬ m + 2 ≤ 2 := by omega
      rw [if_neg hlt, if_neg hlt']
      refine ⟨by omega, by omega, by omega, by omega⟩
  obtain ⟨m, hm, hm0, hm1, hbefore, hafter⟩ := hmonth
  rw [hm]
  unfold InPeriod
  rw [monthStart_year _ m hm0 hm1, monthStart_succ _ m hm0 hm1]
  omega

/-- A day of a month is the one that lies in it. -/
theorem monthOf_eq {month day : ℤ} (h : InPeriod monthStart month day) : monthOf day = month :=
  (monthOf_spec day).unique monthStart_strictMono.monotone h

example : (List.range 12).map (fun m : ℕ => monthLength (12 * 2024 + m)) =
    [31, 29, 31, 30, 31, 30, 31, 31, 30, 31, 30, 31] := by decide

end Calendar

end AntServer.Lib
