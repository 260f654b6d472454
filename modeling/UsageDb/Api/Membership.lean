import UsageDb.Api.Period
import UsageDb.Ingest.Ingest
import UsageDb.Lib.Gregorian
import UsageDb.Lib.Parse

/-!
# Which period a time belongs to

A period is asked about in two ways. `period_for_ts` takes the year and the month of a time and
casts the year to a `u16`; the ingest uses it to reject usage of a closed period. `period_bounds`
gives the first and the last time of a period that `parse_period` has read; the queries of the
period use it. Under the calendar of `chrono`, which is the Gregorian one between the years
`MIN_YEAR` and `MAX_YEAR` (`Extern.Gregorian`), the two agree on a time and a period as long as the
year of the time is not one that the cast takes to the period's (`period_membership_iff`). From the
year 65536 on, which the check of an event does not rule out, a month is taken for the month of a
year that is long over (`far_month_taken_for_closed_one`). -/

namespace UsageDb

open Lib

variable {year month : ℕ} {fromMs toMs ts : I64} {e : UsageEvent} {closed : List ClosedPeriod}

/-! ### Reading a period -/

/-- `split_once`: the text before and after the first `c`. -/
def splitOnce (c : Char) (text : String) : Option (String × String) :=
  match text.toList.span (· ≠ c) with
  | (_, []) => none
  | (before, _ :: after) => some (String.ofList before, String.ofList after)

/-- `parse_period`. -/
def parsePeriod (s : String) : Except String (ℕ × ℕ) :=
  match splitOnce '-' s with
  | none => .error ("period must be YYYY-MM, got `" ++ s ++ "`")
  | some (yearS, monthS) => do
    let year ← (parseUInt 16 yearS).mapError fun e => "invalid year `" ++ yearS ++ "`: " ++ e.message
    let month ← (parseUInt 8 monthS).mapError fun e => "invalid month `" ++ monthS ++ "`: " ++ e.message
    if 1 ≤ month ∧ month ≤ 12 then return (year, month)
    else throw ("month must be 1..=12, got " ++ toString month)

theorem eq_ok_of_mapError {ε ε' α : Type} {f : ε → ε'} {x : Except ε α} {a : α}
    (h : x.mapError f = .ok a) : x = .ok a := by
  cases x with
  | error e => cases h
  | ok b => exact congrArg Except.ok (Except.ok.inj h)

/-- **A period that was read has a year of 16 bits and a month of the year.** -/
theorem parsePeriod_ok {s : String} (h : parsePeriod s = .ok (year, month)) :
    year < 2 ^ 16 ∧ 1 ≤ month ∧ month ≤ 12 := by
  unfold parsePeriod at h
  split at h
  · cases h
  · obtain ⟨y, hy, h⟩ := except_bind_eq_ok.1 h
    obtain ⟨m, hm, h⟩ := except_bind_eq_ok.1 h
    split_ifs at h with hmonth
    · cases h
      exact ⟨parseUInt_lt (eq_ok_of_mapError hy), hmonth⟩

example : (parsePeriod "2026-05").toOption = some (2026, 5) ∧
    (parsePeriod "2026-13").toOption = none := by decide +kernel

/-! ### The calendar -/

/-- The first year of `chrono`. -/
def MIN_YEAR : ℤ := -262143

/-- The last year of `chrono`. -/
def MAX_YEAR : ℤ := 262142

/-- A month of `chrono`. -/
def InCalendar (year : ℤ) (month : ℕ) : Prop := (MIN_YEAR ≤ year ∧ year ≤ MAX_YEAR) ∧
    1 ≤ month ∧ month ≤ 12

instance (year : ℤ) (month : ℕ) : Decidable (InCalendar year month) :=
  inferInstanceAs (Decidable (_ ∧ _))

/-- What is assumed of `chrono`: it has the proleptic Gregorian calendar of its range of years. -/
structure Extern.Gregorian (X : Extern) : Prop where
  /-- The beginning of a month. -/
  monthStart : ∀ year month t, X.monthStart year month = some t ↔
    InCalendar year month ∧ (t : ℤ) = monthStartMs (monthIndex year month)
  /-- The month of a time. -/
  yearMonth : ∀ t year month, X.yearMonth t = some (year, month) ↔
    InCalendar year month ∧ monthStartMs (monthIndex year month) ≤ t ∧
      (t : ℤ) < monthStartMs (monthIndex year month + 1)

/-- The year of the time is beyond `u16`, and the cast takes its month to the given one. -/
def Extern.WrapsTo (X : Extern) (ts : I64) (year month : ℕ) : Prop :=
  ∃ y : ℤ, X.yearMonth ts = some (y, month) ∧ 2 ^ 16 ≤ y ∧ y % 2 ^ 16 = year

variable {X : Extern}

/-- The bounds of a period are those of its month. -/
theorem Extern.Gregorian.bounds (hX : X.Gregorian)
    (h : periodBounds X year month = some (fromMs, toMs)) :
    InCalendar year month ∧ (fromMs : ℤ) = monthStartMs (monthIndex year month) ∧
      (toMs : ℤ) = monthStartMs (monthIndex year month + 1) := by
  obtain ⟨a, ha, h⟩ := Option.bind_eq_some_iff.1 h
  obtain ⟨hin, hstart⟩ := (hX.monthStart _ _ _).1 ha
  split at h
  · rename_i hdec
    obtain ⟨b, hb, h⟩ := Option.bind_eq_some_iff.1 h
    cases h
    obtain ⟨-, hend⟩ := (hX.monthStart _ _ _).1 hb
    refine ⟨hin, hstart, hend.trans (congrArg monthStartMs ?_)⟩
    rw [monthIndex, monthIndex, hdec]
    push_cast
    ring
  · obtain ⟨b, hb, h⟩ := Option.bind_eq_some_iff.1 h
    cases h
    obtain ⟨-, hend⟩ := (hX.monthStart _ _ _).1 hb
    refine ⟨hin, hstart, hend.trans (congrArg monthStartMs ?_)⟩
    rw [monthIndex, monthIndex]
    push_cast
    ring

/-- The bounds of a period tell which times have its year and month. -/
theorem Extern.Gregorian.yearMonth_iff_bounds (hX : X.Gregorian)
    (h : periodBounds X year month = some (fromMs, toMs)) (ts : I64) :
    X.yearMonth ts = some ((year : ℤ), month) ↔ (fromMs : ℤ) ≤ ts ∧ (ts : ℤ) < toMs := by
  obtain ⟨hin, hfrom, hto⟩ := hX.bounds h
  rw [hX.yearMonth, hfrom, hto]
  exact and_iff_right hin

/-- A time after the beginning of 1970 has a year after 1969. -/
theorem Extern.Gregorian.year_of_pos (hX : X.Gregorian) (hts : 0 < (ts : ℤ)) {y : ℤ}
    (h : X.yearMonth ts = some (y, month)) : 1970 ≤ y := by
  obtain ⟨⟨-, hm⟩, -, hend⟩ := (hX.yearMonth _ _ _).1 h
  have hepoch : monthStartMs (monthIndex 1970 1) < monthStartMs (monthIndex y month + 1) :=
    hts.trans hend
  have hlt := monthStartMs_lt_iff.1 hepoch
  rw [monthIndex, monthIndex] at hlt
  omega

/-- A time before the year 65536 has a year that fits in a `u16`. -/
theorem Extern.Gregorian.not_wrapsTo (hX : X.Gregorian)
    (hts : (ts : ℤ) < monthStartMs (monthIndex (2 ^ 16) 1))
    (year month : ℕ) : ¬ X.WrapsTo ts year month := by
  rintro ⟨y, h, hy, -⟩
  obtain ⟨⟨-, hm⟩, hstart, -⟩ := (hX.yearMonth _ _ _).1 h
  have hlt := monthStartMs_lt_iff.1 (hstart.trans_lt hts)
  rw [monthIndex, monthIndex] at hlt
  omega

/-- What the ingest takes for the period of a time: its month, or the one the cast takes it to. -/
theorem Extern.Gregorian.periodForTs_iff (hX : X.Gregorian) (hts : 0 < (ts : ℤ))
    (hyear : year < 2 ^ 16) :
    X.periodForTs ts = some (year, month) ↔ X.yearMonth ts = some ((year : ℤ), month) ∨
      X.WrapsTo ts year month := by
  constructor
  · intro h
    obtain ⟨⟨y, m⟩, hym, heq⟩ := Option.map_eq_some_iff.1 h
    obtain ⟨hy, rfl⟩ := Prod.mk.inj heq
    have hpos := hX.year_of_pos hts hym
    by_cases hbig : 2 ^ 16 ≤ y
    · exact .inr ⟨y, hym, hbig, by dsimp only at hy; omega⟩
    · refine .inl ?_
      have hsame : y = year := by dsimp only at hy; omega
      rw [hym, hsame]
  · rintro (h | ⟨y, h, -, hmod⟩)
    · rw [Extern.periodForTs, h, Option.map_some]
      have hself : ((year : ℤ) % 2 ^ 16).toNat = year := by omega
      rw [hself]
    · rw [Extern.periodForTs, h, Option.map_some, hmod, Int.toNat_natCast]

/-- A time of the period itself is not wrapped to it. -/
theorem Extern.not_wrapsTo_of_yearMonth (hyear : year < 2 ^ 16)
    (h : X.yearMonth ts = some ((year : ℤ), month)) : ¬ X.WrapsTo ts year month := by
  rintro ⟨y, h', hbig, -⟩
  obtain ⟨rfl, -⟩ := Prod.mk.inj (Option.some.inj (h.symm.trans h'))
  omega

/-! ### The two ways agree -/

/-- The totals of a period count an event of the account between its bounds. -/
theorem matchesPlan_totalsPlan {account : String} :
    matchesPlan (totalsPlan account fromMs toMs) e = true ↔
      ((fromMs : ℤ) ≤ e.timestampMs ∧ (e.timestampMs : ℤ) < toMs) ∧ e.accountId = account := by
  simp [matchesPlan, totalsPlan, inRange]

/-- Usage is rejected when one of the closed periods is what the ingest takes for its period. -/
theorem inClosedPeriod_iff (husage : e.kind = .usage) :
    inClosedPeriod X closed e ↔
      ∃ p ∈ closed, p.accountId = e.accountId ∧
        X.periodForTs e.timestampMs = some (p.year, p.month) := by
  rw [inClosedPeriod, husage]
  cases hp : X.periodForTs e.timestampMs with
  | none => simp
  | some ym =>
    obtain ⟨y, m⟩ := ym
    simp only [decide_true, Bool.true_and, List.any_eq_true, decide_eq_true_eq, Option.some.injEq,
      Prod.mk.injEq]
    constructor
    · rintro ⟨p, hmem, hacc, hy, hm⟩
      exact ⟨p, hmem, hacc, hy.symm, hm.symm⟩
    · rintro ⟨p, hmem, hacc, hy, hm⟩
      exact ⟨p, hmem, hacc, hy.symm, hm.symm⟩

/-- The queries of one of the closed periods count the event. -/
def CountedInClosed (X : Extern) (closed : List ClosedPeriod) (e : UsageEvent) : Prop :=
  ∃ p ∈ closed, ∃ fromMs toMs, periodBounds X p.year p.month = some (fromMs, toMs) ∧
    matchesPlan (totalsPlan p.accountId fromMs toMs) e

/-- The beginning of a month of the calendar is an `i64`. -/
theorem InCalendar.inRange {year : ℤ} (h : InCalendar year month) :
    InRange 63 (monthStartMs (monthIndex year month)) := by
  obtain ⟨⟨hlo, hhi⟩, hm, hm'⟩ := h
  have hfirst : monthStartMs (monthIndex MIN_YEAR 1) ≤ monthStartMs (monthIndex year month) := by
    refine monthStartMs_le ?_
    rw [monthIndex, monthIndex]
    omega
  have hlast : monthStartMs (monthIndex year month) ≤ monthStartMs (monthIndex MAX_YEAR 12) := by
    refine monthStartMs_le ?_
    rw [monthIndex, monthIndex]
    omega
  have hlow : -2 ^ 63 ≤ monthStartMs (monthIndex MIN_YEAR 1) := by decide
  have hhigh : monthStartMs (monthIndex MAX_YEAR 12) < 2 ^ 63 := by decide
  exact ⟨hlow.trans hfirst, hlast.trans_lt hhigh⟩

theorem Extern.Gregorian.exists_monthStart (hX : X.Gregorian) {year : ℤ} (h : InCalendar year month) :
    ∃ t, X.monthStart year month = some t :=
  ⟨⟨_, h.inRange⟩, (hX.monthStart _ _ _).2 ⟨h, rfl⟩⟩

/-- Every period that can be read has bounds. -/
theorem Extern.Gregorian.exists_bounds (hX : X.Gregorian) (hyear : year < 2 ^ 16) (hm : 1 ≤ month)
    (hm' : month ≤ 12) : ∃ fromMs toMs, periodBounds X year month = some (fromMs, toMs) := by
  have hin : InCalendar year month := ⟨⟨by rw [MIN_YEAR]; omega, by rw [MAX_YEAR]; omega⟩, hm, hm'⟩
  obtain ⟨fromMs, hfrom⟩ := hX.exists_monthStart hin
  by_cases hdec : month = 12
  · have hnext : InCalendar ((year : ℤ) + 1) 1 :=
      ⟨⟨by rw [MIN_YEAR]; omega, by rw [MAX_YEAR]; omega⟩, by omega, by omega⟩
    obtain ⟨toMs, hto⟩ := hX.exists_monthStart hnext
    subst hdec
    exact ⟨fromMs, toMs, by simp [periodBounds, hfrom, hto]⟩
  · have hnext : InCalendar (year : ℤ) (month + 1) := ⟨hin.1, by omega, by omega⟩
    obtain ⟨toMs, hto⟩ := hX.exists_monthStart hnext
    exact ⟨fromMs, toMs, by simp [periodBounds, hfrom, hdec, hto]⟩

/-- For one period: the two ways agree exactly when the cast does not take the time to it. -/
theorem Extern.Gregorian.agree_iff (hX : X.Gregorian) (hts : 0 < (ts : ℤ))
    (hyear : year < 2 ^ 16) (hbounds : periodBounds X year month = some (fromMs, toMs)) :
    (X.periodForTs ts = some (year, month) ↔ (fromMs : ℤ) ≤ ts ∧ (ts : ℤ) < toMs) ↔
      ¬ X.WrapsTo ts year month := by
  rw [hX.periodForTs_iff hts hyear, ← hX.yearMonth_iff_bounds hbounds]
  constructor
  · intro h hwraps
    exact X.not_wrapsTo_of_yearMonth hyear (h.1 (.inr hwraps)) hwraps
  · intro hno
    exact or_iff_left hno

/-- What the queries of the closed periods count, by the calendar. -/
theorem Extern.Gregorian.countedInClosed_iff (hX : X.Gregorian)
    (hclosed : ∀ p ∈ closed, ∃ text, parsePeriod text = .ok (p.year, p.month)) :
    CountedInClosed X closed e ↔
      ∃ p ∈ closed, p.accountId = e.accountId ∧
        X.yearMonth e.timestampMs = some ((p.year : ℤ), p.month) := by
  constructor
  · rintro ⟨p, hp, fromMs, toMs, hbounds, hmatch⟩
    obtain ⟨htime, hacc⟩ := matchesPlan_totalsPlan.1 hmatch
    exact ⟨p, hp, hacc.symm, (hX.yearMonth_iff_bounds hbounds _).2 htime⟩
  · rintro ⟨p, hp, hacc, hym⟩
    obtain ⟨text, htext⟩ := hclosed p hp
    obtain ⟨hyear, hm, hm'⟩ := parsePeriod_ok htext
    obtain ⟨fromMs, toMs, hbounds⟩ := hX.exists_bounds hyear hm hm'
    exact ⟨p, hp, fromMs, toMs, hbounds,
      matchesPlan_totalsPlan.2 ⟨(hX.yearMonth_iff_bounds hbounds _).1 hym, hacc.symm⟩⟩

/-- For the closed periods together: usage is rejected exactly when their queries would count it, if
and only if the cast takes its time to none of them. -/
theorem Extern.Gregorian.rejected_iff (hX : X.Gregorian) (hvalid : e.Valid)
    (husage : e.kind = .usage) (hclosed : ∀ p ∈ closed, ∃ text, parsePeriod text =
      .ok (p.year, p.month)) :
    (inClosedPeriod X closed e ↔ CountedInClosed X closed e) ↔
      ∀ p ∈ closed, p.accountId = e.accountId → ¬ X.WrapsTo e.timestampMs p.year p.month := by
  have hfor : ∀ p ∈ closed, X.periodForTs e.timestampMs = some (p.year, p.month) ↔
      X.yearMonth e.timestampMs = some ((p.year : ℤ), p.month) ∨
          X.WrapsTo e.timestampMs p.year p.month := by
    intro p hp
    obtain ⟨text, htext⟩ := hclosed p hp
    exact hX.periodForTs_iff hvalid.timestamp_pos (parsePeriod_ok htext).1
  rw [inClosedPeriod_iff husage, hX.countedInClosed_iff hclosed]
  constructor
  · intro h p hp hacc hwraps
    -- The time is of no period with a year of 16 bits, so nothing counts the event.
    obtain ⟨q, hq, -, hym⟩ := h.1 ⟨p, hp, hacc, (hfor p hp).2 (.inr hwraps)⟩
    obtain ⟨text, htext⟩ := hclosed q hq
    obtain ⟨y, hy, hbig, -⟩ := hwraps
    obtain ⟨rfl, -⟩ := Prod.mk.inj (Option.some.inj (hym.symm.trans hy))
    have hsmall := (parsePeriod_ok htext).1
    omega
  · intro hno
    constructor
    · rintro ⟨p, hp, hacc, h⟩
      exact ⟨p, hp, hacc, ((hfor p hp).1 h).resolve_right (hno p hp hacc)⟩
    · rintro ⟨p, hp, hacc, h⟩
      exact ⟨p, hp, hacc, (hfor p hp).2 (.inl h)⟩

/-- **Period membership.** A time is of a period for the ingest exactly when it is between the
period's bounds, if and only if its year is not one that the cast to a `u16` takes to the period's;
and usage is rejected exactly when the queries of a closed period would count it, if and only if the
cast takes its time to none of the account's closed periods. -/
theorem period_membership_iff (X : Extern) (hX : X.Gregorian) :
    (∀ ts : I64, 0 < (ts : ℤ) → ∀ text year month fromMs toMs, parsePeriod text = .ok (year, month) →
      periodBounds X year month = some (fromMs, toMs) →
        ((X.periodForTs ts = some (year, month) ↔ (fromMs : ℤ) ≤ ts ∧ (ts : ℤ) < toMs) ↔
          ¬ X.WrapsTo ts year month)) ∧
    ∀ e : UsageEvent, e.Valid → e.kind = .usage → ∀ closed : List ClosedPeriod,
      (∀ p ∈ closed, ∃ text, parsePeriod text = .ok (p.year, p.month)) →
        ((inClosedPeriod X closed e ↔ CountedInClosed X closed e) ↔
          ∀ p ∈ closed, p.accountId = e.accountId → ¬ X.WrapsTo e.timestampMs p.year p.month) := by
  constructor
  · intro ts hts text year month fromMs toMs hparse hbounds
    exact hX.agree_iff hts (parsePeriod_ok hparse).1 hbounds
  · intro e hvalid husage closed hclosed
    exact hX.rejected_iff hvalid husage hclosed

/-! ### A far month -/

/-- The sample functions with the calendar of `chrono`. -/
def Extern.gregorian : Extern :=
  { Extern.sample with
    yearMonth := fun t =>
      if monthStartMs (monthIndex MIN_YEAR 1) ≤ t ∧
          (t : ℤ) < monthStartMs (monthIndex (MAX_YEAR + 1) 1) then
        let n := monthOf (monthIndex MIN_YEAR 1) 6291431 t
        some (n / 12, (n % 12).toNat + 1)
      else none
    monthStart := fun year month =>
      if h : InCalendar year month then some ⟨monthStartMs (monthIndex year month),
        h.inRange⟩ else none }

theorem Extern.gregorian_ok : Extern.gregorian.Gregorian := by
  constructor
  · intro year month t
    simp only [Extern.gregorian]
    split
    · rename_i hin
      simp only [Option.some.injEq, hin, true_and, Subtype.ext_iff]
      exact eq_comm
    · rename_i hout
      simp [hout]
  · intro t year month
    simp only [Extern.gregorian]
    split
    · rename_i hin
      have hlast : (t : ℤ) < monthStartMs (monthIndex MIN_YEAR 1 + (6291431 : ℕ) + 1) := hin.2
      have hmonth := monthOf_eq_iff hin.1 hlast
      obtain ⟨hstart, hend⟩ := (hmonth _).1 rfl
      have hlo := monthStartMs_lt_iff.1 (hin.1.trans_lt hend)
      have hhi := monthStartMs_lt_iff.1 (hstart.trans_lt hin.2)
      generalize monthOf (monthIndex MIN_YEAR 1) 6291431 t = n at hmonth hstart hend hlo hhi ⊢
      have hin' : InCalendar (n / 12) ((n % 12).toNat + 1) := by
        rw [monthIndex, MIN_YEAR] at hlo
        rw [monthIndex, MAX_YEAR] at hhi
        exact ⟨⟨by rw [MIN_YEAR]; omega, by rw [MAX_YEAR]; omega⟩, by omega, by omega⟩
      rw [Option.some.injEq, Prod.mk.injEq]
      constructor
      · rintro ⟨rfl, rfl⟩
        rw [monthIndex_div_mod]
        exact ⟨hin', hstart, hend⟩
      · rintro ⟨hcal, hstart', hend'⟩
        have hsame := month_unique hstart hend hstart' hend'
        rw [← monthIndex_div_mod n] at hsame
        exact (monthIndex_inj hin'.2 hcal.2).1 hsame
    · rename_i hout
      simp only [reduceCtorEq, false_iff, not_and, not_lt]
      intro hcal hstart
      by_contra hend
      refine hout ⟨le_trans (monthStartMs_le ?_) hstart,
        lt_of_lt_of_le (not_le.1 hend) (monthStartMs_le ?_)⟩
      · obtain ⟨⟨hlo, -⟩, hm, -⟩ := hcal
        rw [monthIndex, monthIndex]
        omega
      · obtain ⟨⟨-, hhi⟩, -, hm⟩ := hcal
        rw [monthIndex, monthIndex]
        omega

/-- A period of the account `acme`, closed. -/
def closedMonth (year month : ℕ) : ClosedPeriod :=
  { accountId := "acme"
    year
    month
    closedAtMs := 0
    frozenQuantity := none
    frozenEventCount := none
    watermarkAtCloseMs := none }

/-- The twenty-ninth of February 2024. -/
def leapDay : UsageEvent := sampleEvent "a" "acme" 1709164800000 1

/-- The beginning of January 67560, which is 65536 years after 2024. -/
def farDay : UsageEvent := sampleEvent "a" "acme" (monthStartMs (monthIndex 67560 1)) 1

theorem not_wrapsTo_leapDay (year month : ℕ) :
    ¬ Extern.gregorian.WrapsTo leapDay.timestampMs year month :=
  Extern.gregorian_ok.not_wrapsTo (by decide +kernel) year month

theorem period_membership_iff_of_leapDay :
    leapDay.Valid ∧ (∃ fromMs toMs, periodBounds .gregorian 2024 2 = some (fromMs, toMs) ∧
      (Extern.gregorian.periodForTs leapDay.timestampMs = some (2024, 2) ↔
        (fromMs : ℤ) ≤ leapDay.timestampMs ∧ (leapDay.timestampMs : ℤ) < toMs)) ∧
      (inClosedPeriod .gregorian [closedMonth 2024 2] leapDay = true ↔
        CountedInClosed .gregorian [closedMonth 2024 2] leapDay) := by
  have hparse : parsePeriod "2024-02" = .ok (2024, 2) := rfl
  have hvalid : leapDay.Valid := by decide +kernel
  obtain ⟨fromMs, toMs, hbounds⟩ := Extern.gregorian_ok.exists_bounds (by decide : 2024 < 2 ^ 16)
    (by decide : 1 ≤ 2) (by decide)
  obtain ⟨hperiod, hclosed⟩ := period_membership_iff .gregorian Extern.gregorian_ok
  refine ⟨hvalid, ⟨fromMs, toMs, hbounds, ?_⟩, ?_⟩
  · exact (hperiod _ hvalid.timestamp_pos "2024-02" 2024 2 fromMs toMs hparse hbounds).2
      (not_wrapsTo_leapDay 2024 2)
  · refine (hclosed leapDay hvalid rfl [closedMonth 2024 2] ?_).2 ?_
    · intro p hp
      obtain rfl := List.mem_singleton.1 hp
      exact ⟨"2024-02", hparse⟩
    · intro p _ _
      exact not_wrapsTo_leapDay p.year p.month

/-- **Usage of a month that nobody closed is rejected**: January 67560 is taken for January 2024. -/
theorem far_month_taken_for_closed_one :
    parsePeriod "2024-01" = .ok (2024, 1) ∧ farDay.Valid ∧
      (∃ fromMs toMs, periodBounds .gregorian 2024 1 = some (fromMs, toMs) ∧
        Extern.gregorian.periodForTs farDay.timestampMs = some (2024, 1) ∧
        ¬ (farDay.timestampMs : ℤ) < toMs) ∧
      inClosedPeriod .gregorian [closedMonth 2024 1] farDay = true ∧
      ¬ CountedInClosed .gregorian [closedMonth 2024 1] farDay := by
  have hparse : parsePeriod "2024-01" = .ok (2024, 1) := rfl
  have hvalid : farDay.Valid := by decide +kernel
  have hmonth : Extern.gregorian.yearMonth farDay.timestampMs = some (67560, 1) := by
    refine (Extern.gregorian_ok.yearMonth _ _ _).2 ⟨by decide, ?_, ?_⟩
    · decide +kernel
    · decide +kernel
  have hperiod : Extern.gregorian.periodForTs farDay.timestampMs = some (2024, 1) := by
    rw [Extern.periodForTs, hmonth]
    rfl
  have hother : Extern.gregorian.yearMonth farDay.timestampMs ≠ some (((2024 : ℕ) : ℤ), 1) := by
    rw [hmonth]
    decide
  obtain ⟨fromMs, toMs, hbounds⟩ := Extern.gregorian_ok.exists_bounds (by decide : 2024 < 2 ^ 16)
    (by decide : 1 ≤ 1) (by decide)
  refine ⟨hparse, hvalid, ⟨fromMs, toMs, hbounds, hperiod, ?_⟩, ?_, ?_⟩
  · obtain ⟨-, -, hto⟩ := Extern.gregorian_ok.bounds hbounds
    rw [hto]
    decide +kernel
  · exact (inClosedPeriod_iff rfl).2 ⟨_, List.mem_singleton_self _, rfl, hperiod⟩
  · rw [Extern.gregorian_ok.countedInClosed_iff]
    · rintro ⟨p, hp, -, hym⟩
      obtain rfl := List.mem_singleton.1 hp
      exact hother hym
    · intro p hp
      obtain rfl := List.mem_singleton.1 hp
      exact ⟨"2024-01", hparse⟩

end UsageDb
