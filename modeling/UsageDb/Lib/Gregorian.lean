import Mathlib.Data.Nat.Find
import Mathlib.Order.Monotone.Basic
import Mathlib.Tactic.Linarith
import Mathlib.Tactic.Ring

/-!
# The months of the proleptic Gregorian calendar

Months are counted without a gap from January of the year 0, in both directions. `monthStartMs` is
the time at which a month begins, in milliseconds from the beginning of 1970, with the leap years of
the Gregorian rule and no leap seconds. It increases strictly (`monthStartMs_lt_iff`), so a time is
of one month only (`month_unique`), and the month of a time can be searched for
(`monthOf_eq_iff`). -/

namespace UsageDb.Lib

/-- The rule of leap years. -/
def IsLeapYear (year : ℤ) : Prop := year % 4 = 0 ∧ (year % 100 ≠ 0 ∨ year % 400 = 0)

instance (year : ℤ) : Decidable (IsLeapYear year) := inferInstanceAs (Decidable (_ ∧ _))

/-- The days of a month. -/
def daysInMonth (year : ℤ) (month : ℕ) : ℤ :=
  if month = 2 then if IsLeapYear year then 29 else 28
  else if month = 4 ∨ month = 6 ∨ month = 9 ∨ month = 11 then 30
  else 31

/-- The days from the beginning of the year 1 to the beginning of a year. -/
def daysBeforeYear (year : ℤ) : ℤ := 365 * (year - 1) + (year - 1) / 4 - (year - 1) / 100 +
    (year - 1) / 400

/-- The days from the beginning of a year to the beginning of a month of it. -/
def daysBeforeMonth (year : ℤ) : ℕ → ℤ
  | 0 | 1 => 0
  | month + 2 => daysBeforeMonth year (month + 1) + daysInMonth year (month + 1)

/-- The days from the beginning of 1970 to the beginning of a month. -/
def daysFromEpoch (year : ℤ) (month : ℕ) : ℤ := daysBeforeYear year +
    daysBeforeMonth year month - 719162

/-- The number of a month. -/
def monthIndex (year : ℤ) (month : ℕ) : ℤ := 12 * year + ((month : ℤ) - 1)

/-- The beginning of the month with the number `n`. -/
def monthStartMs (n : ℤ) : ℤ := 86400000 * daysFromEpoch (n / 12) ((n % 12).toNat + 1)

theorem daysInMonth_pos (year : ℤ) (month : ℕ) : 0 < daysInMonth year month := by
  unfold daysInMonth
  split_ifs <;> omega

theorem daysBeforeYear_succ (year : ℤ) :
    daysBeforeYear (year + 1) = daysBeforeYear year + if IsLeapYear year then 366 else 365 := by
  unfold daysBeforeYear IsLeapYear
  split_ifs with hleap
  · omega
  · omega

/-- The twelve months make up the year. -/
theorem daysBeforeMonth_year (year : ℤ) : daysBeforeMonth year 13 =
    if IsLeapYear year then 366 else 365 := by
  by_cases hleap : IsLeapYear year
  · simp [daysBeforeMonth, daysInMonth, hleap]
  · simp [daysBeforeMonth, daysInMonth, hleap]

/-- A month begins when the one before is over. -/
theorem daysFromEpoch_succ (n : ℤ) :
    daysFromEpoch ((n + 1) / 12) (((n + 1) % 12).toNat + 1) =
      daysFromEpoch (n / 12) ((n % 12).toNat + 1) + daysInMonth (n / 12) ((n % 12).toNat + 1) := by
  by_cases hdec : n % 12 = 11
  · -- December is followed by January of the next year.
    have hyear : (n + 1) / 12 = n / 12 + 1 := by omega
    have hmonth : ((n + 1) % 12).toNat + 1 = 1 := by omega
    have htwelve : (n % 12).toNat + 1 = 12 := by omega
    have hdays : daysBeforeMonth (n / 12) 12 + daysInMonth (n / 12) 12 =
      daysBeforeMonth (n / 12) 13 := rfl
    have hfirst : daysBeforeMonth (n / 12 + 1) 1 = 0 := rfl
    rw [hyear, hmonth, htwelve, daysFromEpoch, daysFromEpoch, daysBeforeYear_succ,
      ← daysBeforeMonth_year, ← hdays, hfirst]
    ring
  · have hyear : (n + 1) / 12 = n / 12 := by omega
    have hmonth : ((n + 1) % 12).toNat + 1 = (n % 12).toNat + 2 := by omega
    rw [hyear, hmonth, daysFromEpoch, daysFromEpoch, daysBeforeMonth]
    ring

/-- **Every month begins after the one before.** -/
theorem monthStartMs_lt_iff {m n : ℤ} : monthStartMs m < monthStartMs n ↔ m < n := by
  have hstrict : StrictMono monthStartMs := by
    refine strictMono_int_of_lt_succ ?_
    intro n
    have hpos := daysInMonth_pos (n / 12) ((n % 12).toNat + 1)
    rw [monthStartMs, monthStartMs, daysFromEpoch_succ]
    linarith
  exact hstrict.lt_iff_lt

theorem monthStartMs_le {m n : ℤ} (h : m ≤ n) : monthStartMs m ≤ monthStartMs n :=
  not_lt.1 fun hlt => absurd (monthStartMs_lt_iff.1 hlt) (not_lt.2 h)

/-- **A time is of one month only.** -/
theorem month_unique {n n' t : ℤ} (h : monthStartMs n ≤ t) (h' : t < monthStartMs (n + 1))
    (hn : monthStartMs n' ≤ t) (hn' : t < monthStartMs (n' + 1)) : n = n' := by
  have hle := monthStartMs_lt_iff.1 (h.trans_lt hn')
  have hge := monthStartMs_lt_iff.1 (hn.trans_lt h')
  omega

/-- The month of a time, searched for in the `count` months that follow the month `first`. -/
def monthOf (first : ℤ) (count : ℕ) (t : ℤ) : ℤ :=
  first + Nat.findGreatest (fun k : ℕ => monthStartMs (first + k) ≤ t) count

/-- **The search finds the month.** -/
theorem monthOf_eq_iff {first t : ℤ} {count : ℕ} (hfirst : monthStartMs first ≤ t)
    (hlast : t < monthStartMs (first + count + 1)) (n : ℤ) :
    monthOf first count t = n ↔ monthStartMs n ≤ t ∧ t < monthStartMs (n + 1) := by
  have hstart : monthStartMs (monthOf first count t) ≤ t := by
    refine Nat.findGreatest_spec (P := fun k : ℕ => monthStartMs (first + k) ≤ t) (Nat.zero_le count) ?_
    simpa using hfirst
  have hend : t < monthStartMs (monthOf first count t + 1) := by
    rcases (Nat.findGreatest_le
      (P := fun k : ℕ => monthStartMs (first + k) ≤ t) count).lt_or_eq with hlt | heq
    · have hnot := Nat.findGreatest_is_greatest (P := fun k : ℕ => monthStartMs (first + k) ≤ t)
        (Nat.lt_succ_self _) hlt
      rw [not_le, Nat.cast_succ, ← add_assoc] at hnot
      exact hnot
    · rw [monthOf, heq]
      exact hlast
  constructor
  · rintro rfl
    exact ⟨hstart, hend⟩
  · rintro ⟨h, h'⟩
    exact month_unique hstart hend h h'

theorem monthIndex_div_mod (n : ℤ) : monthIndex (n / 12) ((n % 12).toNat + 1) = n := by
  rw [monthIndex]
  omega

theorem monthIndex_inj {year year' : ℤ} {month month' : ℕ} (hm : 1 ≤ month ∧ month ≤ 12)
    (hm' : 1 ≤ month' ∧ month' ≤ 12) :
    monthIndex year month = monthIndex year' month' ↔ year = year' ∧ month = month' := by
  rw [monthIndex, monthIndex]
  constructor
  · intro h
    constructor <;> omega
  · rintro ⟨rfl, rfl⟩
    rfl

-- The twenty-ninth of February 2024 belongs to February.
example : monthStartMs (monthIndex 1970 1) = 0 ∧
    monthStartMs (monthIndex 2024 3) - monthStartMs (monthIndex 2024 2) = 29 * 86400000 := by decide

end UsageDb.Lib
