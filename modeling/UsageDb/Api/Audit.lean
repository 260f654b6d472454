import UsageDb.Api.NetTotal
import UsageDb.Runtime.Names

/-!
# Rows and adjustments

A plan without grouping and metrics is answered with the events themselves. `serde_json` holds an
integer from `i64::MIN` to `u64::MAX`, and for any other quantity the row is `null`; the rows are
the events exactly when all quantities are in that range (`aggregate_rows_iff`). The sum of the
adjustments of a closed period is then taken over what `as_i64` reads, which leaves out more: it is
the sum of what is listed exactly when what is left out cancels and the sum is an `i128`
(`adjustmentsQuantity_iff`). The ingest takes every quantity, so a correction of 2^63 is listed and
not counted (`large_correction_not_counted`). -/

namespace UsageDb

open Lib RollupBuilder List

/-- A quantity that JSON numbers hold. -/
def UsageEvent.InJson (e : UsageEvent) : Prop := -2 ^ 63 ≤ (e.quantity : ℤ) ∧ (e.quantity : ℤ) < 2 ^ 64

instance (e : UsageEvent) : Decidable e.InJson := inferInstanceAs (Decidable (_ ∧ _))

/-- A quantity that `as_i64` reads. -/
def UsageEvent.InI64 (e : UsageEvent) : Prop := -2 ^ 63 ≤ (e.quantity : ℤ) ∧ (e.quantity : ℤ) < 2 ^ 63

instance (e : UsageEvent) : Decidable e.InI64 := inferInstanceAs (Decidable (_ ∧ _))

/-! ### Rows -/

/-- The row of an event is the event when JSON holds its quantity. -/
theorem eventRow_eq_event_iff (e : UsageEvent) : eventRow e = .event e ↔ e.InJson := by
  rw [eventRow]
  constructor
  · intro h
    split_ifs at h with hin
    exact hin
  · intro hin
    exact if_pos hin

/-- **The rows of a plan without grouping and metrics.** -/
theorem aggregate_rows_iff {plan : QueryPlan} (hgroup : plan.groupBy = [])
    (hmetrics : plan.metrics.entries = []) (events : List UsageEvent) :
    aggregate plan events = (events.filter (matchesPlan plan)).map Row.event ↔
      ∀ e ∈ events, matchesPlan plan e = true → e.InJson := by
  have hrows : aggregate plan events = (events.filter (matchesPlan plan)).map eventRow := by
    simp [aggregate, hgroup, hmetrics]
  rw [hrows, map_inj_left]
  simp only [mem_filter, eventRow_eq_event_iff, and_imp]

/-! ### Adjustments -/

/-- The events that a closed period lists as adjustments. -/
def listedAdjustments (X : Extern) (s : State) (account : String) (fromMs toMs : I64) :
    List UsageEvent :=
  (collectEvents X s (planAdjustments account fromMs toMs)).filter
    (matchesPlan (planAdjustments account fromMs toMs))

/-- What is read of the row of an event. -/
theorem quantityI64_eventRow (e : UsageEvent) :
    (eventRow e).quantityI64 = if e.InI64 then some (e.quantity : ℤ) else none := by
  by_cases hjson : e.InJson
  · rw [(eventRow_eq_event_iff e).2 hjson]
    rfl
  · -- The row is `null` and has no field.
    have hnull : eventRow e = .null := if_neg hjson
    have hout : ¬ e.InI64 := fun h => hjson ⟨h.1, h.2.trans (by norm_num)⟩
    rw [hnull, if_neg hout]
    rfl

/-- The quantities that are read. -/
theorem filterMap_quantityI64 (l : List UsageEvent) :
    (l.map eventRow).filterMap Row.quantityI64 =
      (l.filter fun e => e.InI64).map fun e => (e.quantity : ℤ) := by
  induction l with
  | nil => rfl
  | cons e l ih =>
    rw [map_cons, filterMap_cons, quantityI64_eventRow, ih, filter_cons]
    by_cases hin : e.InI64
    · simp [hin]
    · simp [hin]

/-- A sum in two parts. -/
theorem sumQuantity_filter (p : UsageEvent → Prop) [DecidablePred p] (l : List UsageEvent) :
    sumQuantity (l.filter fun e => p e) + sumQuantity (l.filter fun e => ¬ p e) = sumQuantity l := by
  have hperm :=
    (filter_append_perm (fun e => decide (p e)) l).map fun e : UsageEvent => (e.quantity : ℤ)
  have hsum := hperm.sum_eq
  rw [map_append, sum_append] at hsum
  simp only [← decide_not] at hsum
  exact hsum

/-- A closed period lists the events that are not usage, and sums what is read of them. -/
theorem getPeriod_closed {X : Extern} {s : State} {account : String} {year month : ℕ}
    {entry : ClosedPeriod} {fromMs toMs : I64} {rows : List Row} {q : I128} {net live : Option I128}
    (h : getPeriod X account year month s = .closed entry fromMs toMs rows q net live) :
    rows = (listedAdjustments X s account fromMs toMs).map eventRow ∧
      q = SInt.wrap 127 (sumQuantity ((listedAdjustments X s account fromMs toMs).filter
        fun e => e.InI64)) := by
  unfold getPeriod at h
  split at h
  · cases h
  · split at h
    · cases h
    · cases h
      have hrows : executePlan X s (planAdjustments account fromMs toMs) =
          (listedAdjustments X s account fromMs toMs).map eventRow := rfl
      rw [hrows, filterMap_quantityI64]
      exact ⟨rfl, rfl⟩

/-- **The sum of the adjustments** is exact when what is left out cancels and the sum is an
`i128`. -/
theorem adjustmentsQuantity_iff (l : List UsageEvent) :
    (SInt.wrap 127 (sumQuantity (l.filter fun e => e.InI64)) : ℤ) = sumQuantity l ↔
      InRange 127 (sumQuantity l) ∧ 2 ^ 128 ∣ sumQuantity (l.filter fun e => ¬ e.InI64) := by
  rw [SInt.wrap_eq_iff, ← sumQuantity_filter UsageEvent.InI64 l, add_sub_cancel_left]

/-- **Rows and adjustments.** The rows of a plan without grouping and metrics are the matching
events exactly when JSON holds their quantities. A closed period lists corrections and retractions,
and reports their sum exactly when the quantities that are not `i64`s add up to a multiple of 2^128,
which is 0 unless they are astronomical, and the sum is an `i128`. -/
theorem audit_exact_iff (X : Extern) (s : State) :
    (∀ plan : QueryPlan, plan.groupBy = [] → plan.metrics.entries = [] → ∀ events,
      (aggregate plan events = (events.filter (matchesPlan plan)).map Row.event ↔
        ∀ e ∈ events, matchesPlan plan e → e.InJson)) ∧
    ∀ account year month entry fromMs toMs rows q net live,
      getPeriod X account year month s = .closed entry fromMs toMs rows q net live →
        rows = (listedAdjustments X s account fromMs toMs).map eventRow ∧
        (∀ e ∈ listedAdjustments X s account fromMs toMs, e.kind = .correction ∨ e.kind = .retraction) ∧
        ((q : ℤ) = sumQuantity (listedAdjustments X s account fromMs toMs) ↔
          InRange 127 (sumQuantity (listedAdjustments X s account fromMs toMs)) ∧
            2 ^ 128 ∣
              sumQuantity ((listedAdjustments X s account fromMs toMs).filter
                fun e => ¬ e.InI64)) := by
  constructor
  · intro plan hgroup hmetrics events
    exact aggregate_rows_iff hgroup hmetrics events
  · intro account year month entry fromMs toMs rows q net live h
    obtain ⟨hrows, rfl⟩ := getPeriod_closed h
    refine ⟨hrows, ?_, adjustmentsQuantity_iff _⟩
    intro e he
    have hmatch := (mem_filter.1 he).2
    rw [matchesPlan_planAdjustments, Bool.and_eq_true] at hmatch
    have husage := hmatch.2
    rw [UsageEvent.isUsage] at husage
    cases hkind : e.kind with
    | usage =>
      rw [hkind] at husage
      cases husage
    | correction => exact .inl rfl
    | retraction => exact .inr rfl

/-! ### Two runs -/

/-- Usage and a correction, and a close of their month. -/
def closedWith (usage correction : ℤ) : List Label :=
  [.restart 8000000 fun _ => 8000000,
    .run (.ingest sampleClock [sampleEvent "a" "acme" 7200000 usage,
      sampleCorrection "b" "acme" 7300000 correction "a"]),
    .run (.closePeriod "acme" 1970 1 9000000)]

theorem run_closedWith (usage correction : ℤ) {P : State → Prop} [DecidablePred P]
    (heval : (runAll (Sys.next .calendar sampleConfig) (.down .empty) (closedWith usage correction)).any
      (Sys.UpWith P ·)) :
    ∃ s, Run (Step .calendar sampleConfig) (.down .empty) (closedWith usage correction) (.up s) ∧ P s :=
  have hls : Lettered (['1', '2', '3'].zip (closedWith usage correction)) :=
    ⟨by simp [closedWith, Label.DrawsTagged, Op.DrawsTagged], by simp [closedWith]⟩
  exists_up_of_tags .calendar sampleConfig hls heval

/-- The sum of the adjustments that the month reports, and that of those it lists. -/
def reportedAndListed (s : State) : Option (ℤ × ℤ) :=
  match getPeriod .calendar "acme" 1970 1 s with
  | .closed _ fromMs toMs _ q _ _ => some (q, sumQuantity (listedAdjustments .calendar s
      "acme" fromMs toMs))
  | _ => none

/-- All events of the account. -/
def auditPlan : QueryPlan :=
  { source := .rawEvents
    accountId := some "acme"
    fromMs := 0
    toMs := SInt.wrap 63 2678400000
    filters := []
    groupBy := []
    metrics := ∅ }

/-- Small quantities are listed and summed as they are. -/
theorem audit_exact_iff_of_small :
    ∃ s, Run (Step .calendar sampleConfig) (.down .empty) (closedWith 10 (-3)) (.up s) ∧
      executePlan .calendar s auditPlan =
        ((collectEvents .calendar s auditPlan).filter (matchesPlan auditPlan)).map Row.event ∧
      ∃ entry fromMs toMs rows q net live,
        getPeriod .calendar "acme" 1970 1 s = .closed entry fromMs toMs rows q net live ∧
          (q : ℤ) = sumQuantity (listedAdjustments .calendar s "acme" fromMs toMs) := by
  obtain ⟨s, hrun, hjson, hclosed, hin, hzero⟩ := run_closedWith 10 (-3)
    (P := fun s => (∀ e ∈ collectEvents .calendar s auditPlan, matchesPlan auditPlan e = true →
      e.InJson) ∧ (s.mem.manifest.findClosed "acme" 1970 1).isSome = true ∧
      InRange 127 (sumQuantity (listedAdjustments .calendar s "acme" 0 (SInt.wrap 63 2678400000))) ∧
      sumQuantity ((listedAdjustments .calendar s "acme" 0 (SInt.wrap 63 2678400000)).filter
        fun e => ¬ e.InI64) = 0)
    (by decide +kernel)
  obtain ⟨entry, hentry⟩ := Option.isSome_iff_exists.1 hclosed
  have hget : ∃ rows q net live, getPeriod .calendar "acme" 1970 1 s =
      .closed entry 0 (SInt.wrap 63 2678400000) rows q net live := by
    rw [getPeriod, periodBounds_calendar]
    simp only [hentry]
    exact ⟨_, _, _, _, rfl⟩
  obtain ⟨rows, q, net, live, hget⟩ := hget
  obtain ⟨hrows, hadjust⟩ := audit_exact_iff .calendar s
  refine ⟨s, hrun, (hrows auditPlan rfl rfl _).2 hjson, entry, 0, _, rows, q, net, live, hget, ?_⟩
  exact ((hadjust _ _ _ _ _ _ _ _ _ _ hget).2.2).2 ⟨hin, hzero ▸ dvd_zero _⟩

/-- **A large correction is listed and not counted**, and usage that is larger is not even listed:
usage of 2^64 and a correction of 2^63 are accepted, the sum of the adjustments is reported as 0,
and the audit has a row `null`. -/
theorem large_correction_not_counted :
    ∃ s, Run (Step .calendar sampleConfig) (.down .empty) (closedWith (2 ^ 64) (2 ^ 63)) (.up s) ∧
      reportedAndListed s = some (0, 2 ^ 63) ∧
      (executePlan .calendar s auditPlan).head? = some Row.null := by
  exact run_closedWith (2 ^ 64) (2 ^ 63) (by decide +kernel)

end UsageDb
