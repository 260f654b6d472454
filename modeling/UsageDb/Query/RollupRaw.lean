import UsageDb.Query.Executor
import UsageDb.Rollup.Worker

/-!
# Rollups and raw data give the same sums

A rollup record stands for the events of one key in one hour, and the query executor turns it
back into one synthetic event. A plan cannot tell the record from its events when its bounds
are full hours and it does not ask for the kind of an event (`matchesPlan_record`,
`groupKey_record`), and the record's quantity is the sum of theirs. So the records of a rollup
segment have the groups and the sums of the events that the segment was made from
(`sameTotals_rollups`).

`sameSums_rollups` puts this together for a state in which the rollup segments were made from
the raw events below the watermark: reading the rollups below the watermark and the raw data
above it gives the same groups with the same sums as reading raw data alone.
-/

namespace UsageDb

open Lib RollupBuilder List

variable {X : Extern} {plan : QueryPlan}
  {r : HourlyRollupRecord} {buckets : ℕ} {srcs : List (List UsageEvent)}

/-- A plan that rollups can answer: its bounds are full hours, and it neither filters nor
groups by kind. -/
structure QueryPlan.Hourly (plan : QueryPlan) : Prop where
  fromMs : HOUR_MS ∣ plan.fromMs
  toMs : HOUR_MS ∣ plan.toMs
  /-- No filter on the kind. -/
  filters : ∀ f ∈ plan.filters, f.field ≠ "kind"
  /-- No grouping by the kind. -/
  groupBy : "kind" ∉ plan.groupBy

/-- A plan filters or groups, by fields of which some may be dimensions. -/
def QueryPlan.ReadsFields (plan : QueryPlan) : Prop := plan.filters ≠ [] ∨ plan.groupBy ≠ []

/-! ### A record and its events -/

section Record

variable {r : HourlyRollupRecord} {e : UsageEvent}

/-- The dimensions of the event survive their JSON text. -/
def DimsRoundTrip (X : Extern) (e : UsageEvent) : Prop := X.dimsOfJson (X.dimsToJson e.dimensions) =
    some e.dimensions

theorem hourMs_nonneg (hpos : 0 < (e.timestampMs : ℤ)) : 0 ≤ e.hourMs := floorHour_nonneg hpos.le

/-- The synthetic event of a record has the time of the hour. -/
theorem timestamp_record (hpos : 0 < (e.timestampMs : ℤ)) (hkey : r.key = keyOf X e) :
    ((rollupRecordToEvent X r).timestampMs : ℤ) = e.hourMs := by
  have hle : e.hourMs ≤ e.timestampMs := floorHour_le hpos.le
  have hnonneg := hourMs_nonneg hpos
  have hfit : InRange 63 e.hourMs :=
    ⟨(by norm_num : (-2 ^ 63 : ℤ) ≤ 0).trans hnonneg, hle.trans_lt e.timestampMs.property.2⟩
  rw [rollupRecordToEvent, hkey]
  exact SInt.wrap_of_inRange hfit

theorem filterValue_record (hdims : DimsRoundTrip X e) (hkey : r.key = keyOf X e) {field : String}
    (hfield : field ≠ "kind") : filterValue field (rollupRecordToEvent X r) = filterValue field e := by
  have hdim : (X.dimsOfJson (keyOf X e).dimensionsCanonical).getD .new = e.dimensions := by
    rw [keyOf, hdims]
    rfl
  unfold filterValue rollupRecordToEvent
  rw [hkey, hdim]
  split <;> first | rfl | contradiction

theorem accepts_record (hdims : DimsRoundTrip X e) (hkey : r.key = keyOf X e) {f : QueryFilter}
    (hfield : f.field ≠ "kind") : f.accepts (rollupRecordToEvent X r) = f.accepts e := by
  rw [QueryFilter.accepts, filterValue_record hdims hkey hfield, QueryFilter.accepts]

/-- Full hours do not separate a time from the beginning of its hour. -/
theorem hour_le_iff (hpos : 0 < (e.timestampMs : ℤ)) {t : ℤ} (ht : HOUR_MS ∣ t) : t ≤ e.hourMs ↔
    t ≤ e.timestampMs := by
  obtain ⟨a, rfl⟩ := ht
  obtain ⟨b, hb⟩ : HOUR_MS ∣ e.hourMs := floorHour_dvd _
  have hin := (hourMs_eq_iff hpos ⟨b, hb⟩).1 rfl
  rw [HOUR_MS] at *
  omega

/-- **A plan that matches a record matches its events**, and the other way round. -/
theorem matchesPlan_record (hplan : plan.Hourly) (hpos : 0 < (e.timestampMs : ℤ))
    (hdims : plan.ReadsFields → DimsRoundTrip X e) (hkey : r.key = keyOf X e) :
      matchesPlan plan (rollupRecordToEvent X r) = matchesPlan plan e := by
  have htime : inRange plan.fromMs plan.toMs (rollupRecordToEvent X r) =
      inRange plan.fromMs plan.toMs e := by
    have hfrom := hour_le_iff hpos hplan.fromMs
    have hto := hour_le_iff hpos hplan.toMs
    have hts := timestamp_record hpos hkey
    rw [Bool.eq_iff_iff]
    simp only [inRange, Bool.and_eq_true, decide_eq_true_eq, hts]
    omega
  have haccount : (rollupRecordToEvent X r).accountId = e.accountId := by
    rw [rollupRecordToEvent, hkey]
    rfl
  have hfilters : (plan.filters.all fun f => f.accepts (rollupRecordToEvent X r)) =
      plan.filters.all fun f => f.accepts e := by
    rw [Bool.eq_iff_iff, all_eq_true, all_eq_true]
    refine forall₂_congr fun f hf => ?_
    rw [accepts_record (hdims (Or.inl (ne_nil_of_mem hf))) hkey (hplan.filters f hf)]
  unfold matchesPlan
  rw [htime, haccount, hfilters]

theorem groupKeyValue_record (hpos : 0 < (e.timestampMs : ℤ)) (hdims : DimsRoundTrip X e)
    (hkey : r.key = keyOf X e) {field : String} (hfield : field ≠ "kind") :
    groupKeyValue field (rollupRecordToEvent X r) = groupKeyValue field e := by
  have hdim : (X.dimsOfJson (keyOf X e).dimensionsCanonical).getD .new = e.dimensions := by
    rw [keyOf, hdims]
    rfl
  have hts := timestamp_record hpos hkey
  have hhour : ((rollupRecordToEvent X r).timestampMs : ℤ).tdiv 3600000 * 3600000 =
      (e.timestampMs : ℤ).tdiv 3600000 * 3600000 := by
    rw [hts, UsageEvent.hourMs, Int.tdiv_eq_ediv_of_nonneg hpos.le,
      Int.tdiv_eq_ediv_of_nonneg (by omega)]
    omega
  have hday : ((rollupRecordToEvent X r).timestampMs : ℤ).tdiv 86400000 * 86400000 =
      (e.timestampMs : ℤ).tdiv 86400000 * 86400000 := by
    rw [hts, UsageEvent.hourMs, Int.tdiv_eq_ediv_of_nonneg hpos.le, Int.tdiv_eq_ediv_of_nonneg hpos.le,
      Int.tdiv_eq_ediv_of_nonneg (by omega)]
    omega
  unfold groupKeyValue
  rw [hhour, hday]
  unfold rollupRecordToEvent
  rw [hkey, hdim]
  split <;> first | rfl | contradiction

theorem groupKey_record (hplan : plan.Hourly) (hpos : 0 < (e.timestampMs : ℤ))
    (hdims : plan.ReadsFields → DimsRoundTrip X e) (hkey : r.key = keyOf X e) :
    groupKey plan (rollupRecordToEvent X r) = groupKey plan e := by
  unfold groupKey
  refine map_congr_left fun field hfield =>
    groupKeyValue_record hpos (hdims (Or.inr (ne_nil_of_mem hfield))) hkey ?_
  rintro rfl
  exact hplan.groupBy hfield

end Record

/-! ### The records of a segment -/

/-- Of the rows with a property, `rows` has some exactly when `src` has, and the same total;
its absolute total is no larger. -/
structure SameTotals (p : UsageEvent → Bool) (rows src : List UsageEvent) : Prop where
  /-- Some rows. -/
  none : rows.filter p = [] ↔ src.filter p = []
  /-- The total. -/
  sum : sumQuantity (rows.filter p) = sumQuantity (src.filter p)
  /-- The absolute total. -/
  abs : absQuantity (rows.filter p) ≤ absQuantity (src.filter p)

section Totals

variable {p : UsageEvent → Bool} {rows rows' src src' : List UsageEvent}

theorem SameTotals.refl (p : UsageEvent → Bool) (rows : List UsageEvent) : SameTotals p rows rows :=
  ⟨Iff.rfl, rfl, le_rfl⟩

theorem SameTotals.append (h : SameTotals p rows src) (h' : SameTotals p rows' src') :
    SameTotals p (rows ++ rows') (src ++ src') := by
  have hsum : ∀ l l', sumQuantity (l ++ l') = sumQuantity l + sumQuantity l' := fun l l' => by
    simp [sumQuantity]
  constructor
  · simp only [filter_append, append_eq_nil_iff, h.none, h'.none]
  · rw [filter_append, filter_append, hsum, hsum, h.sum, h'.sum]
  · rw [filter_append, filter_append, absQuantity_append, absQuantity_append]
    exact add_le_add h.abs h'.abs

theorem SameTotals.perm (h : SameTotals p rows src) (hperm : src.Perm src') :
    SameTotals p rows src' := by
  have hfilter := hperm.filter p
  refine ⟨h.none.trans ?_, h.sum.trans (sumQuantity_perm hfilter),
    h.abs.trans (absQuantity_perm hfilter).le⟩
  exact ⟨fun he => nil_perm.1 (he ▸ hfilter), fun he => perm_nil.1 (he ▸ hfilter)⟩

/-- Only the rows with the property count. -/
theorem SameTotals.congr (h : SameTotals p rows src) (hrows : (rows'.filter p).Perm (rows.filter p)) :
    SameTotals p rows' src := by
  refine ⟨Iff.trans ?_ h.none, (sumQuantity_perm hrows).trans h.sum,
    (absQuantity_perm hrows).le.trans h.abs⟩
  exact ⟨fun he => nil_perm.1 (he ▸ hrows), fun he => perm_nil.1 (he ▸ hrows)⟩

/-- One record, and the events of its key. -/
theorem sameTotals_record {group : List UsageEvent} (hne : group ≠ [])
    (hsum : r.quantitySum = sumQuantity group) (hp : ∀ e ∈ group, p (rollupRecordToEvent X r) = p e) :
    SameTotals p [rollupRecordToEvent X r] group := by
  by_cases hr : p (rollupRecordToEvent X r)
  · have hall : group.filter p = group := filter_eq_self.2 fun e he => (hp e he).symm.trans hr
    have hone : [rollupRecordToEvent X r].filter p = [rollupRecordToEvent X r] := by simp [hr]
    have hquantity : ((rollupRecordToEvent X r).quantity : ℤ) = sumQuantity group := hsum
    refine ⟨?_, ?_, ?_⟩
    · rw [hall, hone]
      simp [hne]
    · rw [hall, hone, sumQuantity_cons, hquantity]
      simp [sumQuantity]
    · rw [hall, hone, absQuantity_cons, hquantity, absQuantity_nil, add_zero]
      exact abs_sumQuantity_le group
  · have hnone : group.filter p = [] := filter_eq_nil_iff.2 fun e he => by rw [← hp e he]; exact hr
    have hone : [rollupRecordToEvent X r].filter p = [] := by simp [hr]
    rw [Bool.not_eq_true] at hr
    exact ⟨by rw [hnone, hone], by rw [hnone, hone], by rw [hnone, hone]⟩

/-- **The records of some events have their totals**, for every property that a record shares
with its events. -/
theorem sameTotals_buildRecords {src : List UsageEvent} (habs : absQuantity src < 2 ^ 127)
    (hp : ∀ e ∈ src, ∀ r : HourlyRollupRecord, r.key = keyOf X e → p (rollupRecordToEvent X r) = p e) :
    SameTotals p ((buildRecords X src).map (rollupRecordToEvent X)) src := by
  have hrecord : ∀ r ∈ buildRecords X src, SameTotals p [rollupRecordToEvent X r]
      (src.filter fun e => keyOf X e = r.key) := by
    intro r hr
    obtain ⟨⟨e, he, hkey⟩, hsum⟩ := mem_buildRecords X habs hr
    have hmem : e ∈ src.filter fun e => keyOf X e = r.key := by simp [he, hkey]
    refine sameTotals_record (ne_nil_of_mem hmem) hsum fun e' he' => ?_
    rw [mem_filter, decide_eq_true_eq] at he'
    exact hp e' he'.1 r he'.2.symm
  refine SameTotals.perm ?_ (perm_flatMap_buildRecords X src).symm
  generalize buildRecords X src = records at hrecord
  induction records with
  | nil => exact SameTotals.refl p []
  | cons r records ih =>
    exact (hrecord r (by simp)).append (ih fun r' hr' => hrecord r' (by simp [hr']))

/-- The same for rollup segments, one after another. -/
theorem sameTotals_rollups {segs : List (SegmentMeta × List HourlyRollupRecord)}
    (h : List.Forall₂ (RollupOf X buckets) segs srcs) (habs : absQuantity srcs.flatten < 2 ^ 127)
    (hp : ∀ e ∈ srcs.flatten, ∀ r : HourlyRollupRecord, r.key = keyOf X e →
      p (rollupRecordToEvent X r) = p e) :
    SameTotals p ((segs.flatMap (·.2)).map (rollupRecordToEvent X)) srcs.flatten := by
  induction h with
  | nil => exact SameTotals.refl p []
  | @cons seg src segs srcs hseg _ ih =>
    rw [flatten_cons, absQuantity_append] at habs
    have hleft := absQuantity_nonneg src
    have hright := absQuantity_nonneg srcs.flatten
    rw [flatMap_cons, map_append, flatten_cons, hseg.records]
    refine (sameTotals_buildRecords (by omega)
      fun e he => hp e ?_).append (ih (by omega) fun e he => hp e ?_)
    · exact mem_append.2 (.inl he)
    · exact mem_append.2 (.inr he)

end Totals

/-! ### The two ways to collect rows -/

section Collect

variable {p q : UsageEvent → Bool} {rows rows' src src' : List UsageEvent} {s : State}

/-- The rows of one group that match the plan. -/
def inGroup (plan : QueryPlan) (k : List String) (e : UsageEvent) : Bool := groupKey plan e =
    k && matchesPlan plan e

/-- They are rows that match. -/
theorem filter_inGroup (l : List UsageEvent) (k : List String) :
    l.filter (inGroup plan k) = (l.filter (matchesPlan plan)).filter fun e => groupKey plan e = k := by
  rw [filter_filter]
  rfl

/-- The same totals in every group are the same groups with the same sums, if they fit. -/
theorem sameSums_of_totals (h : ∀ k, SameTotals (inGroup plan k) rows src)
    (habs : absQuantity src < 2 ^ 127) :
    SameSums (groupKey plan) (rows.filter (matchesPlan plan)) (src.filter (matchesPlan plan)) := by
  constructor
  · intro k
    rw [← filter_inGroup, ← filter_inGroup]
    exact (h k).none
  · intro k
    have hle := absQuantity_sublist (filter_sublist (p := inGroup plan k) (l := src))
    have habs' := (h k).abs
    rw [← filter_inGroup, ← filter_inGroup]
    refine Subtype.ext ?_
    rw [addQuantities_val, addQuantities_val, (h k).sum]
    · simpa using hle.trans_lt habs
    · simpa using (habs'.trans hle).trans_lt habs

/-- The rollup segments of a manifest with the records their files give. -/
def Disk.rollups (X : Extern) (d : Disk) (m : Manifest) :
    List (SegmentMeta × List HourlyRollupRecord) :=
  m.rollupSegments.map fun seg => (seg, d.rollupRecords X seg)

/-- What is known of a rollup segment that was made from events below the watermark. -/
theorem RollupOf.record {seg : SegmentMeta × List HourlyRollupRecord} (h : RollupOf X buckets seg src)
    (hpos : ∀ e ∈ src, 0 < (e.timestampMs : ℤ)) (hr : r ∈ seg.2) :
    r.key.hourStartMs = seg.1.minTimestampMs ∧
      ((rollupRecordToEvent X r).timestampMs : ℤ) = seg.1.minTimestampMs ∧
      X.bucketForAccount (rollupRecordToEvent X r).accountId buckets = seg.1.bucket := by
  rw [h.records] at hr
  obtain ⟨e, he, hkey⟩ := (mem_keys_buildRecords X).1 (mem_map_of_mem hr)
  have hhour := h.hour e he
  refine ⟨?_, ?_, ?_⟩
  · rw [← hkey, ← hhour]
    rfl
  · rw [timestamp_record (hpos e he) hkey.symm, hhour]
  · rw [← h.bucket e he, rollupRecordToEvent, ← hkey]
    rfl

/-- A record that matches the plan is in its range, and its segment is not skipped. -/
theorem RollupOf.not_skipped {seg : SegmentMeta × List HourlyRollupRecord}
    (h : RollupOf X buckets seg src) (hpos : ∀ e ∈ src, 0 < (e.timestampMs : ℤ)) {wm : ℤ}
    (hbelow : seg.1.minTimestampMs < wm) (hr : r ∈ seg.2)
    (hplan : matchesPlan plan (rollupRecordToEvent X r) = true) :
    (plan.fromMs : ℤ) ≤ r.key.hourStartMs ∧ r.key.hourStartMs < min (plan.toMs : ℤ) wm ∧
      seg.1.minTimestampMs < min (plan.toMs : ℤ) wm ∧ (plan.fromMs : ℤ) ≤ seg.1.maxTimestampMs ∧
      (plan.accountId.all fun account => seg.1.bucket = X.bucketForAccount account buckets) = true := by
  obtain ⟨hstart, hts, hbucket⟩ := h.record hpos hr
  have hmax := h.maxTs
  simp only [matchesPlan, inRange, Bool.and_eq_true, decide_eq_true_eq] at hplan
  obtain ⟨⟨⟨hfrom, hto⟩, haccount⟩, -⟩ := hplan
  rw [hts] at hfrom hto
  rw [HOUR_MS] at hmax
  refine ⟨by omega, by omega, by omega, by omega, ?_⟩
  cases hacc : plan.accountId with
  | none => rfl
  | some account =>
    rw [hacc] at haccount
    have heq : (rollupRecordToEvent X r).accountId = account := by simpa using haccount
    simpa [← heq] using hbucket.symm

/-- **Skipping rollup segments and records loses nothing.** -/
theorem filter_collectRollups
    (h : List.Forall₂ (RollupOf X s.mem.manifest.buckets) (s.disk.rollups X s.mem.manifest) srcs)
    (hpos : ∀ e ∈ srcs.flatten, 0 < (e.timestampMs : ℤ))
    (hbelow : ∀ m ∈ s.mem.manifest.rollupSegments, m.minTimestampMs < s.mem.manifest.hourlyRollupMs) :
    (collectRollups X s plan).filter (matchesPlan plan) =
      (((s.disk.rollups X s.mem.manifest).flatMap (·.2)).map (rollupRecordToEvent X)).filter
        (matchesPlan plan) := by
  rw [Disk.rollups, flatMap_map]
  refine filter_flatMap_skip s.mem.manifest.rollupSegments (s.disk.rollupRecords X)
    (fun seg => (seg.minTimestampMs < min (plan.toMs : ℤ) s.mem.manifest.hourlyRollupMs &&
        (plan.fromMs : ℤ) ≤ seg.maxTimestampMs) &&
      plan.accountId.all fun account => seg.bucket = X.bucketForAccount account s.mem.manifest.buckets)
    (fun _ r => !(r.key.hourStartMs < (plan.fromMs : ℤ) ||
      min (plan.toMs : ℤ) s.mem.manifest.hourlyRollupMs ≤ r.key.hourStartMs))
    (rollupRecordToEvent X) (matchesPlan plan) ?_
  intro m hm r hr hplan
  obtain ⟨src, hsrc, hof⟩ := (forall₂_exists h).1 (m, s.disk.rollupRecords X m) (mem_map_of_mem hm)
  have hposm : ∀ e ∈ src, 0 < (e.timestampMs : ℤ) := fun e he => hpos e (mem_flatten.2 ⟨src, hsrc, he⟩)
  obtain ⟨hfrom, hupper, hmin, hmax, haccount⟩ := hof.not_skipped hposm (hbelow m hm) hr hplan
  constructor
  · rw [haccount, Bool.and_true, Bool.and_eq_true, decide_eq_true_eq, decide_eq_true_eq]
    exact ⟨hmin, hmax⟩
  · rw [Bool.not_eq_true', Bool.or_eq_false_iff, decide_eq_false_iff_not, decide_eq_false_iff_not]
    exact ⟨not_lt.2 hfrom, not_le.2 hupper⟩

/-- All raw events, of the segments and of the memtable. -/
def State.visible (s : State) : List UsageEvent := s.disk.rawEvents s.mem.manifest ++
    s.mem.memtable.events

/-- A raw query finds the visible events that match. -/
theorem filter_rawEvents
    (hok : ∀ m ∈ s.mem.manifest.rawSegments, SegmentSound X s.mem.manifest.buckets (m, s.disk.rows m)) :
    (collectRawEvents X s plan plan.fromMs plan.toMs).filter (matchesPlan plan) =
      s.visible.filter (matchesPlan plan) := by
  rw [filter_collectRawEvents hok]
  refine filter_congr fun e _ => ?_
  rw [matchesPlan, Bool.and_assoc, ← Bool.and_assoc, Bool.and_self]

/-- The raw tail is what is visible at or above the watermark. -/
theorem filter_rawTail
    (hok : ∀ m ∈ s.mem.manifest.rawSegments, SegmentSound X s.mem.manifest.buckets
      (m, s.disk.rows m)) (wm : ℤ) :
    (if wm < plan.toMs then collectRawEvents X s plan (max plan.fromMs wm) plan.toMs
      else []).filter (matchesPlan plan) =
      (s.visible.filter fun e => wm ≤ e.timestampMs).filter (matchesPlan plan) := by
  rw [filter_filter]
  split
  · rw [filter_collectRawEvents hok]
    refine filter_congr fun e _ => ?_
    by_cases hmatch : matchesPlan plan e
    · have hin : inRange plan.fromMs plan.toMs e := by
        simp only [matchesPlan, Bool.and_eq_true] at hmatch
        exact hmatch.1.1
      rw [Bool.eq_iff_iff]
      simp only [inRange, Bool.and_eq_true, decide_eq_true_eq] at hin ⊢
      rw [max_le_iff]
      tauto
    · rw [Bool.not_eq_true] at hmatch
      rw [hmatch, Bool.and_false, Bool.false_and]
  · rename_i hto
    symm
    rw [filter_nil, filter_eq_nil_iff]
    intro e _ hin
    simp only [matchesPlan, inRange, Bool.and_eq_true, decide_eq_true_eq] at hin
    omega

section Sources

variable {s : State} {srcs : List (List UsageEvent)}
  (hof : List.Forall₂ (RollupOf X s.mem.manifest.buckets) (s.disk.rollups X s.mem.manifest) srcs)
  (hsrc : srcs.flatten.Perm ((s.disk.rawEvents s.mem.manifest).filter
    fun e => e.timestampMs < s.mem.manifest.hourlyRollupMs))
  (hmem : ∀ e ∈ s.mem.memtable.events, s.mem.manifest.hourlyRollupMs ≤ e.timestampMs)

include hsrc hmem in
/-- What is visible splits at the watermark: below it there is what the rollup segments were made
from, when these are the raw events there and the memtable has none. -/
theorem perm_sources_visible :
    (srcs.flatten ++ s.visible.filter
      fun e => s.mem.manifest.hourlyRollupMs ≤ e.timestampMs).Perm s.visible := by
  set wm := s.mem.manifest.hourlyRollupMs with hwm
  have hvisible : (s.visible.filter fun e => e.timestampMs < wm) =
      (s.disk.rawEvents s.mem.manifest).filter fun e => e.timestampMs < wm := by
    have hnone : (s.mem.memtable.events.filter fun e => e.timestampMs < wm) = [] := by
      rw [filter_eq_nil_iff]
      intro e he hlt
      have := hmem e he
      rw [decide_eq_true_eq] at hlt
      omega
    rw [State.visible, filter_append, hnone, append_nil]
  refine (List.Perm.append_right _ (hvisible ▸ hsrc)).trans ?_
  have hsplit := filter_append_perm (fun e : UsageEvent => decide (e.timestampMs < wm)) s.visible
  simpa only [← decide_not, not_lt] using hsplit

include hof hsrc hmem in
/-- **The records have the totals of the events they were made from**, in every group of a plan
that rollups can answer. -/
theorem sameTotals_sources (hplan : plan.Hourly)
    (hpos : ∀ e ∈ s.disk.rawEvents s.mem.manifest, 0 < (e.timestampMs : ℤ))
    (hdims : ∀ e ∈ s.disk.rawEvents s.mem.manifest, plan.ReadsFields → DimsRoundTrip X e)
    (habs : absQuantity s.visible < 2 ^ 127) (k : List String) :
    SameTotals (inGroup plan k) (((s.disk.rollups X s.mem.manifest).flatMap (·.2)).map
      (rollupRecordToEvent X))
      srcs.flatten := by
  have hraw : ∀ e ∈ srcs.flatten, e ∈ s.disk.rawEvents s.mem.manifest := fun e he =>
    (mem_filter.1 (hsrc.subset he)).1
  have hle : absQuantity srcs.flatten ≤ absQuantity s.visible := by
    rw [← absQuantity_perm (perm_sources_visible hsrc hmem), absQuantity_append]
    exact le_add_of_nonneg_right (absQuantity_nonneg _)
  refine sameTotals_rollups hof (hle.trans_lt habs) fun e he r hkey => ?_
  rw [inGroup, inGroup, groupKey_record hplan (hpos e (hraw e he)) (hdims e (hraw e he)) hkey,
    matchesPlan_record hplan (hpos e (hraw e he)) (hdims e (hraw e he)) hkey]

end Sources

/-- **Rollups below the watermark and raw data above it have the groups and the sums of raw
data alone**, in a state whose rollup segments were made from the raw events below the
watermark and whose memtable has none of these. -/
theorem sameSums_rollups (hplan : plan.Hourly)
    (hok : ∀ m ∈ s.mem.manifest.rawSegments, SegmentSound X s.mem.manifest.buckets (m, s.disk.rows m))
    (hof : List.Forall₂ (RollupOf X s.mem.manifest.buckets) (s.disk.rollups X s.mem.manifest) srcs)
    (hsrc : srcs.flatten.Perm ((s.disk.rawEvents s.mem.manifest).filter
      fun e => (e.timestampMs : ℤ) < s.mem.manifest.hourlyRollupMs))
    (hbelow : ∀ m ∈ s.mem.manifest.rollupSegments, m.minTimestampMs < s.mem.manifest.hourlyRollupMs)
    (hmem : ∀ e ∈ s.mem.memtable.events, s.mem.manifest.hourlyRollupMs ≤ (e.timestampMs : ℤ))
    (hpos : ∀ e ∈ s.disk.rawEvents s.mem.manifest, 0 < (e.timestampMs : ℤ))
    (hdims : ∀ e ∈ s.disk.rawEvents s.mem.manifest, plan.ReadsFields → DimsRoundTrip X e)
    (habs : absQuantity s.visible < 2 ^ 127) :
    SameSums (groupKey plan) ((collectRollupThenRawTail X s plan).filter (matchesPlan plan))
      ((collectRawEvents X s plan plan.fromMs plan.toMs).filter (matchesPlan plan)) := by
  have hsources : ∀ e ∈ srcs.flatten, 0 < (e.timestampMs : ℤ) := fun e he =>
    hpos e (mem_filter.1 (hsrc.subset he)).1
  have hrows : (collectRollupThenRawTail X s plan).filter (matchesPlan plan) =
      ((((s.disk.rollups X s.mem.manifest).flatMap (·.2)).map (rollupRecordToEvent X)) ++
        s.visible.filter fun e => s.mem.manifest.hourlyRollupMs ≤ (e.timestampMs : ℤ)).filter
          (matchesPlan plan) := by
    rw [collectRollupThenRawTail, filter_append, filter_append,
      filter_collectRollups hof hsources hbelow, filter_rawTail hok]
  rw [hrows, filter_rawEvents hok]
  refine sameSums_of_totals (fun k => ?_) habs
  exact ((sameTotals_sources hof hsrc hmem hplan hpos hdims habs k).append (SameTotals.refl _ _)).perm
    (perm_sources_visible hsrc hmem)

end Collect

end UsageDb
