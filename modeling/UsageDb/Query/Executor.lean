import UsageDb.Runtime.State
import Mathlib.Data.List.Lex

/-!
# Queries

`src/query/plan.rs` and `src/query/executor.rs`: a plan is answered from the raw segments
and the memtable, or from the rollup segments up to the watermark and the raw data above
it. Segments that cannot hold a matching row are skipped by their metadata; what is left
is filtered again row by row and aggregated.

The general results are that skipping loses nothing (`filter_collectRawEvents`) and that
the answer depends on the collected rows only through the sums of their groups
(`aggregate_congr`).
-/

namespace UsageDb

open Lib List

/-- `QuerySource`. -/
inductive QuerySource where
  /-- Raw segments and the memtable. -/
  | rawEvents
  /-- Rollup segments, and raw data above the watermark. -/
  | rollupHourly
  deriving DecidableEq, Repr

/-- `QueryFilter`: the field has one of the values. -/
structure QueryFilter where
  field : String
  values : List String
  deriving DecidableEq

/-- `AggregationFunction`. -/
inductive AggregationFunction where
  /-- The sum of the quantities. -/
  | sum
  /-- The number of rows. -/
  | count
  deriving DecidableEq, Repr

/-- `QueryPlan`, without the `limit` that the executor does not read. -/
structure QueryPlan where
  source : QuerySource
  accountId : Option String
  fromMs : I64
  toMs : I64
  filters : List QueryFilter
  groupBy : List String
  metrics : AList fun _ : String => AggregationFunction

/-- The JSON values of an aggregated row. -/
inductive Value where
  | string (s : String)
  | number (n : ℕ)
  deriving DecidableEq

/-- A row of an answer. -/
inductive Row where
  /-- The JSON of an event. -/
  | event (e : UsageEvent)
  /-- What is returned for an event whose quantity JSON numbers cannot hold. -/
  | null
  /-- An object, its fields in the order of their names. -/
  | object (fields : List (String × Value))
  deriving DecidableEq

/-- The name of an event kind. -/
def EventKind.name : EventKind → String
  | .usage => "Usage"
  | .correction => "Correction"
  | .retraction => "Retraction"

/-- The value of a field that a filter compares. -/
def filterValue (field : String) (e : UsageEvent) : Option String :=
  match field with
  | "account_id" => some e.accountId
  | "subscription_id" => e.subscriptionId
  | "product_id" => some e.productId
  | "meter_id" => some e.meterId
  | "model_id" => e.modelId
  | "source" => some e.source
  | "unit" => some e.unit
  | "kind" => some e.kind.name
  | other => e.dimensions.get other

/-- Whether an event passes a filter. -/
def QueryFilter.accepts (f : QueryFilter) (e : UsageEvent) : Bool :=
  match filterValue f.field e with
  | some actual => f.values.any (· = actual)
  | none => false

/-- The half-open range of a scan. -/
def inRange (fromMs toMs : ℤ) (e : UsageEvent) : Bool := fromMs ≤ e.timestampMs && e.timestampMs < toMs

/-- `matches_plan`. -/
def matchesPlan (plan : QueryPlan) (e : UsageEvent) : Bool :=
  inRange plan.fromMs plan.toMs e && plan.accountId.all (fun a => e.accountId = a) &&
    plan.filters.all fun f => f.accepts e

/-- `group_key_value`. -/
def groupKeyValue (field : String) (e : UsageEvent) : String :=
  match field with
  | "account_id" => e.accountId
  | "subscription_id" => e.subscriptionId.getD ""
  | "product_id" => e.productId
  | "meter_id" => e.meterId
  | "model_id" => e.modelId.getD ""
  | "source" => e.source
  | "unit" => e.unit
  | "hour_start_ms" => toString ((e.timestampMs : ℤ).tdiv 3600000 * 3600000)
  | "day" => toString ((e.timestampMs : ℤ).tdiv 86400000 * 86400000)
  | "kind" => e.kind.name
  | other => (e.dimensions.get other).getD ""

/-! ### Aggregation -/

/-- What is kept for a group. -/
structure Agg where
  quantitySum : I128
  count : ℕ
  deriving DecidableEq

/-- A row is added to its group. -/
def Agg.add (a : Agg) (e : UsageEvent) : Agg := ⟨SInt.satAdd a.quantitySum e.quantity, a.count + 1⟩

/-- The key of a row's group. -/
def groupKey (plan : QueryPlan) (e : UsageEvent) : List String := plan.groupBy.map (groupKeyValue · e)

/-- The value of a metric. -/
def AggregationFunction.value (a : Agg) : AggregationFunction → Value
  | .sum => .string (toString (a.quantitySum : ℤ))
  | .count => .number a.count

/-- The row of a group. -/
def groupRow (plan : QueryPlan) (keyValues : List String) (a : Agg) : Row :=
  let keys := (plan.groupBy.zip keyValues).foldl (fun m x => AList.insert x.1 (Value.string x.2) m) ∅
  .object (sortedEntries (plan.metrics.entries.foldl (fun m x => m.insert x.1 (x.2.value a)) keys))

/-- `serde_json::to_value` of an event: `serde_json` has no number for a quantity outside
`i64::MIN..=u64::MAX`. -/
def eventRow (e : UsageEvent) : Row :=
  if -2 ^ 63 ≤ (e.quantity : ℤ) ∧ (e.quantity : ℤ) < 2 ^ 64 then .event e else .null

/-- The groups of the rows that match, by key. -/
def planGroups (plan : QueryPlan) (events : List UsageEvent) : List (List String × Agg) :=
  sortedEntries (groupFold (groupKey plan) (fun _ => ⟨0, 0⟩) Agg.add (events.filter (matchesPlan plan)))

/-- `aggregate`. -/
def aggregate (plan : QueryPlan) (events : List UsageEvent) : List Row :=
  if plan.groupBy.isEmpty && plan.metrics.entries.isEmpty then
    (events.filter (matchesPlan plan)).map eventRow
  else
    let results := (planGroups plan events).map fun g => groupRow plan g.1 g.2
    -- nothing matched and nothing is grouped: one row of zeros
    if plan.groupBy.isEmpty && !plan.metrics.entries.isEmpty && results.isEmpty then
      [groupRow plan [] ⟨0, 0⟩]
    else results

/-! ### Collection -/

section

variable (X : Extern)

/-- `filter_intersects`. -/
def filterIntersects (filters : List QueryFilter) (field : String) (ids : Finset String) : Bool :=
  let values := (filters.filter fun f => f.field = field).flatMap (·.values)
  values.isEmpty || values.any (· ∈ ids)

/-- `segment_overlaps_plan`. -/
def segmentOverlapsPlan (s : SegmentMeta) (plan : QueryPlan) (fromMs toMs : ℤ) (bucketCount : ℕ) :
    Bool :=
  (s.minTimestampMs < toMs && fromMs ≤ s.maxTimestampMs) &&
  (plan.accountId.all fun account =>
    s.bucket = X.bucketForAccount account bucketCount &&
      match s.minAccountId, s.maxAccountId with
      | some min, some max => !(account < min || max < account)
      | _, _ => true) &&
  filterIntersects plan.filters "product_id" s.productIds &&
  filterIntersects plan.filters "meter_id" s.meterIds &&
  filterIntersects plan.filters "model_id" s.modelIds

/-- `collect_raw_events`. -/
def collectRawEvents (s : State) (plan : QueryPlan) (fromMs toMs : ℤ) : List UsageEvent :=
  let m := s.mem.manifest
  ((m.rawSegments.filter fun seg => segmentOverlapsPlan X seg plan fromMs toMs m.buckets).flatMap
    fun seg => (s.disk.rows seg).filter (inRange fromMs toMs)) ++
    s.mem.memtable.events.filter (inRange fromMs toMs)

/-- `RollupSegmentReader::open`: no records when the file is missing or fails its checksum. -/
def Disk.rollupRecords (d : Disk) (m : SegmentMeta) : List HourlyRollupRecord :=
  match d.rseg m.segmentId with
  | some records => if X.rollupChecksum records = m.checksum then records else []
  | none => []

/-- `rollup_record_to_event`. -/
def rollupRecordToEvent (r : HourlyRollupRecord) : UsageEvent :=
  { eventId := "rollup_" ++ toString r.key.hourStartMs
    kind := .usage
    correctionRef := none
    accountId := r.key.accountId
    subscriptionId := r.key.subscriptionId
    productId := r.key.productId
    meterId := r.key.meterId
    timestampMs := SInt.wrap 63 r.key.hourStartMs
    quantity := r.quantitySum
    unit := r.key.unit
    source := r.key.source
    modelId := r.key.modelId
    dimensions := (X.dimsOfJson r.key.dimensionsCanonical).getD .new
    ingestedAtMs := r.lastEventMs }

/-- The part of `collect_rollup_then_raw_tail` that reads rollup segments. -/
def collectRollups (s : State) (plan : QueryPlan) : List UsageEvent :=
  let m := s.mem.manifest
  let rollupUpper := min (plan.toMs : ℤ) m.hourlyRollupMs
  let segs := m.rollupSegments.filter fun seg =>
    (seg.minTimestampMs < rollupUpper && (plan.fromMs : ℤ) ≤ seg.maxTimestampMs) &&
      plan.accountId.all fun account => seg.bucket = X.bucketForAccount account m.buckets
  segs.flatMap fun seg =>
    ((s.disk.rollupRecords X seg).filter fun r =>
      !(r.key.hourStartMs < (plan.fromMs : ℤ) || rollupUpper ≤ r.key.hourStartMs)).map
        (rollupRecordToEvent X)

/-- `collect_rollup_then_raw_tail`. -/
def collectRollupThenRawTail (s : State) (plan : QueryPlan) : List UsageEvent :=
  let watermark := s.mem.manifest.hourlyRollupMs
  collectRollups X s plan ++
    if watermark < (plan.toMs : ℤ) then collectRawEvents X s plan
      (max (plan.fromMs : ℤ) watermark) plan.toMs
    else []

/-- `collect_events`. -/
def collectEvents (s : State) (plan : QueryPlan) : List UsageEvent :=
  match plan.source with
  | .rawEvents => collectRawEvents X s plan plan.fromMs plan.toMs
  | .rollupHourly => collectRollupThenRawTail X s plan

/-- `execute_plan`. -/
def executePlan (s : State) (plan : QueryPlan) : List Row := aggregate plan (collectEvents X s plan)

end

/-! ### What an answer depends on -/

section Sums

variable {plan : QueryPlan} {l l' : List UsageEvent}

/-- Two lists of rows have the same groups, with the same sums. -/
structure SameSums (key : UsageEvent → List String) (l l' : List UsageEvent) : Prop where
  /-- The same groups. -/
  groups : ∀ k, (l.filter fun e => key e = k) = [] ↔ (l'.filter fun e => key e = k) = []
  /-- The same sums. -/
  sums : ∀ k, RollupBuilder.addQuantities 0 (l.filter fun e => key e = k) =
    RollupBuilder.addQuantities 0 (l'.filter fun e => key e = k)

/-- The metrics of a plan are sums only. -/
def QueryPlan.SumsOnly (plan : QueryPlan) : Prop := ∀ x ∈ plan.metrics.entries,
    x.2 = AggregationFunction.sum

instance (plan : QueryPlan) : Decidable plan.SumsOnly :=
  List.decidableBAll (fun x : Sigma fun _ : String => AggregationFunction => x.2 = .sum)
    plan.metrics.entries

theorem quantitySum_foldl_add (l : List UsageEvent) (a : Agg) :
    (l.foldl Agg.add a).quantitySum = RollupBuilder.addQuantities a.quantitySum l := by
  unfold RollupBuilder.addQuantities
  induction l generalizing a with
  | nil => rfl
  | cons e l ih =>
    rw [foldl_cons, ih]
    rfl

/-- A row of sums does not say how many rows were added up. -/
theorem groupRow_congr (hsum : plan.SumsOnly) (keyValues : List String) {a b : Agg}
    (h : a.quantitySum = b.quantitySum) : groupRow plan keyValues a = groupRow plan keyValues b := by
  have hvalue : ∀ x ∈ plan.metrics.entries, x.2.value a = x.2.value b := by
    intro x hx
    rw [hsum x hx, AggregationFunction.value, AggregationFunction.value, h]
  unfold groupRow
  have hfold : ∀ keys : AList fun _ : String => Value,
      plan.metrics.entries.foldl (fun m x => m.insert x.1 (x.2.value a)) keys =
        plan.metrics.entries.foldl (fun m x => m.insert x.1 (x.2.value b)) keys :=
    fun keys => foldl_ext _ _ _ fun m x hx => by rw [hvalue x hx]
  simp only [hfold]

/-- The rows of the groups, from their sums. -/
theorem map_planGroups (hsum : plan.SumsOnly) (l : List UsageEvent) :
    (planGroups plan l).map (fun g => groupRow plan g.1 g.2) =
      (sortedEntries (groupFold (groupKey plan)
        (fun _ => (0 : I128)) (fun q e => SInt.satAdd q e.quantity)
        (l.filter (matchesPlan plan)))).map fun g => groupRow plan g.1 ⟨g.2, 0⟩ := by
  rw [planGroups, sortedEntries_groupFold, sortedEntries_groupFold, map_map, map_map]
  refine map_congr_left fun g _ => ?_
  exact groupRow_congr hsum g.1 (quantitySum_foldl_add g.2 ⟨0, 0⟩)

/-- **The answer to a plan of sums depends on the rows only through the sums of their
groups.** -/
theorem aggregate_congr (hsum : plan.SumsOnly) (hne : plan.groupBy ≠ [] ∨ plan.metrics.entries ≠ [])
    (h : SameSums (groupKey plan) (l.filter (matchesPlan plan)) (l'.filter (matchesPlan plan))) :
    aggregate plan l = aggregate plan l' := by
  have hrows : (planGroups plan l).map (fun g => groupRow plan g.1 g.2) =
      (planGroups plan l').map fun g => groupRow plan g.1 g.2 := by
    rw [map_planGroups hsum, map_planGroups hsum]
    congr 1
    refine sortedEntries_congr fun k => ?_
    rw [lookup_groupFold, lookup_groupFold]
    have hgroup := h.groups k
    have hsums := h.sums k
    unfold RollupBuilder.addQuantities at hsums
    cases hl : (l.filter (matchesPlan plan)).filter fun e => groupKey plan e = k with
    | nil => rw [hgroup.1 hl]
    | cons e es =>
      cases hl' : (l'.filter (matchesPlan plan)).filter fun e => groupKey plan e = k with
      | nil => rw [hgroup.2 hl'] at hl; cases hl
      | cons e' es' =>
        rw [hl, hl'] at hsums
        exact congrArg some hsums
  have hguard : (plan.groupBy.isEmpty && plan.metrics.entries.isEmpty) = false := by
    rcases hne with hne | hne <;> simp [hne]
  unfold aggregate
  simp only [hguard, hrows, Bool.false_eq_true, if_false]

/-- **A plan that does not group** is answered with one row. -/
theorem aggregate_ungrouped (hgroup : plan.groupBy = []) (hmetrics : plan.metrics.entries ≠ [])
    (l : List UsageEvent) :
    aggregate plan l = [groupRow plan [] ((l.filter (matchesPlan plan)).foldl Agg.add ⟨0, 0⟩)] := by
  have hkey : ∀ e ∈ l.filter (matchesPlan plan), groupKey plan e = [] :=
    fun e _ => by rw [groupKey, hgroup, map_nil]
  have hgroups : planGroups plan l = (groups (groupKey plan) (l.filter (matchesPlan plan))).map fun g =>
      (g.1, g.2.foldl Agg.add ⟨0, 0⟩) := sortedEntries_groupFold _ _
  rw [groups_of_const hkey] at hgroups
  by_cases hnil : l.filter (matchesPlan plan) = []
  · rw [if_pos hnil] at hgroups
    simp [aggregate, hgroup, hmetrics, hgroups, hnil]
  · rw [if_neg hnil] at hgroups
    simp [aggregate, hgroup, hmetrics, hgroups]

end Sums

/-! ### Skipping segments loses nothing -/

section Prune

variable {X : Extern} {plan : QueryPlan} {e : UsageEvent}

/-- Skipping parts, and rows of the others, that cannot have the property `q`. -/
theorem filter_flatMap_skip {α β γ : Type} (parts : List α) (f : α → List β) (keep : α → Bool)
    (keepRow : α → β → Bool) (toRow : β → γ) (q : γ → Bool)
    (h : ∀ a ∈ parts, ∀ b ∈ f a, q (toRow b) → keep a ∧ keepRow a b) :
    ((parts.filter keep).flatMap fun a => ((f a).filter (keepRow a)).map toRow).filter q =
      ((parts.flatMap f).map toRow).filter q := by
  induction parts with
  | nil => rfl
  | cons a parts ih =>
    have ih := ih fun a' ha' => h a' (by simp [ha'])
    have hrow := h a (by simp)
    rw [flatMap_cons, map_append, filter_append, ← ih, filter_cons]
    split
    · rw [flatMap_cons, filter_append]
      congr 1
      rw [filter_map, filter_map, filter_filter]
      congr 1
      refine filter_congr fun b hb => ?_
      cases hq : q (toRow b) with
      | false => simp [hq]
      | true => simp [hq, (hrow b hb hq).2]
    · rename_i hkeep
      -- a part that is skipped has nothing to lose
      have hnone : ((f a).map toRow).filter q = [] := by
        rw [filter_eq_nil_iff]
        intro x hx hq
        obtain ⟨b, hb, rfl⟩ := mem_map.1 hx
        exact hkeep (hrow b hb hq).1
      rw [hnone, nil_append]

/-- If an event passes every filter on a field, and the segment's set has the event's value
for the field, the segment is not skipped because of the field. -/
theorem filterIntersects_of_accepts {filters : List QueryFilter} {field v : String}
    {ids : Finset String} (hf : ∀ f ∈ filters, f.accepts e) (hv : filterValue field e = none ∨
      filterValue field e = some v ∧ v ∈ ids) :
    filterIntersects filters field ids := by
  rw [filterIntersects]
  cases hfs : filters.filter fun f => f.field = field with
  | nil => simp
  | cons f fs =>
    have hmem : f ∈ filters ∧ f.field = field := by
      have : f ∈ filters.filter fun f => f.field = field := by simp [hfs]
      simpa using this
    have hacc := hf f hmem.1
    rw [QueryFilter.accepts, hmem.2] at hacc
    rcases hv with hv | ⟨hv, hids⟩
    · rw [hv] at hacc
      cases hacc
    · rw [hv] at hacc
      simp only [any_eq_true, decide_eq_true_eq, exists_eq_right] at hacc
      simp only [Bool.or_eq_true, any_eq_true, decide_eq_true_eq]
      exact .inr ⟨v, by simp [hacc], hids⟩

/-- A segment with a row that matches the plan in the range is not skipped. -/
theorem segmentOverlapsPlan_of_mem {rows : List UsageEvent} {buckets : ℕ} {m : SegmentMeta}
    {checksum : BitVec 64}
    (hmeta : m = buildSegmentMeta m.segmentId rows m.bucket checksum) (he : e ∈ rows)
    (hbucket : X.bucketForAccount e.accountId buckets = m.bucket) (hplan : matchesPlan plan e)
    {fromMs toMs : ℤ}
    (hr : inRange fromMs toMs e) : segmentOverlapsPlan X m plan fromMs toMs buckets := by
  simp only [matchesPlan, Bool.and_eq_true, all_eq_true] at hplan
  obtain ⟨⟨-, hacc⟩, hfilters⟩ := hplan
  simp only [inRange, Bool.and_eq_true, decide_eq_true_eq] at hr
  have hmin : m.minTimestampMs ≤ e.timestampMs := by
    rw [hmeta]
    exact minTimestampMs_le _ _ _ he
  have hmax : e.timestampMs ≤ m.maxTimestampMs := by
    rw [hmeta]
    exact le_maxTimestampMs _ _ _ he
  have hproduct : e.productId ∈ m.productIds := by
    rw [hmeta]
    exact mem_toFinset.2 (mem_map_of_mem he)
  have hmeter : e.meterId ∈ m.meterIds := by
    rw [hmeta]
    exact mem_toFinset.2 (mem_map_of_mem he)
  have hmodel : ∀ v, e.modelId = some v → v ∈ m.modelIds := by
    intro v hv
    rw [hmeta]
    exact mem_toFinset.2 (mem_filterMap.2 ⟨e, he, hv⟩)
  have hminAcc : ∀ a, m.minAccountId = some a → a ≤ e.accountId := by
    intro a ha
    rw [hmeta] at ha
    exact minAccountId_le _ _ _ ha he
  have hmaxAcc : ∀ a, m.maxAccountId = some a → e.accountId ≤ a := by
    intro a ha
    rw [hmeta] at ha
    exact le_maxAccountId _ _ _ ha he
  have hacc' : plan.accountId.all (fun account =>
      m.bucket = X.bucketForAccount account buckets &&
        match m.minAccountId, m.maxAccountId with
        | some min, some max => !(account < min || max < account)
        | _, _ => true) := by
    cases ha : plan.accountId with
    | none => rfl
    | some a =>
      obtain rfl : e.accountId = a := by simpa [ha] using hacc
      simp only [Option.all_some, hbucket, decide_true, Bool.true_and]
      split
      · rename_i min max h1 h2
        rw [decide_eq_false (not_lt.2 (hminAcc _ h1)), decide_eq_false (not_lt.2 (hmaxAcc _ h2))]
        rfl
      · rfl
  have hmodelIds : filterIntersects plan.filters "model_id" m.modelIds := by
    cases hv : e.modelId with
    | none => exact filterIntersects_of_accepts (v := "") hfilters (.inl hv)
    | some v => exact filterIntersects_of_accepts hfilters (.inr ⟨hv, hmodel v hv⟩)
  rw [segmentOverlapsPlan, hacc', filterIntersects_of_accepts hfilters (.inr ⟨rfl, hproduct⟩),
    filterIntersects_of_accepts hfilters (.inr ⟨rfl, hmeter⟩), hmodelIds]
  simp only [Bool.and_true, Bool.and_eq_true, decide_eq_true_eq]
  exact ⟨by omega, by omega⟩

/-- **Skipping loses nothing**: of the rows in the range, the raw scan finds all that match
the plan. -/
theorem filter_collectRawEvents {s : State} {fromMs toMs : ℤ}
    (hok : ∀ m ∈ s.mem.manifest.rawSegments, SegmentSound X s.mem.manifest.buckets (m, s.disk.rows m)) :
    (collectRawEvents X s plan fromMs toMs).filter (matchesPlan plan) =
      (s.disk.rawEvents s.mem.manifest ++ s.mem.memtable.events).filter
        fun e => inRange fromMs toMs e && matchesPlan plan e := by
  have hseg : ∀ m ∈ s.mem.manifest.rawSegments, ∀ e ∈ s.disk.rows m,
      (inRange fromMs toMs e && matchesPlan plan e) →
        segmentOverlapsPlan X m plan fromMs toMs s.mem.manifest.buckets ∧ inRange fromMs toMs e := by
    intro m hm e he hmatch
    rw [Bool.and_eq_true] at hmatch
    exact ⟨segmentOverlapsPlan_of_mem (hok m hm).metadata he ((hok m hm).bucket e he) hmatch.2
      hmatch.1, hmatch.1⟩
  have hscan := filter_flatMap_skip s.mem.manifest.rawSegments s.disk.rows
    (fun m => segmentOverlapsPlan X m plan fromMs toMs s.mem.manifest.buckets)
      (fun _ => inRange fromMs toMs) id
    (fun e => inRange fromMs toMs e && matchesPlan plan e) hseg
  simp only [map_id] at hscan
  -- all rows that are collected are in the range
  have hrange : (collectRawEvents X s plan fromMs toMs).filter (matchesPlan plan) =
      (collectRawEvents X s plan fromMs toMs).filter
          fun e => inRange fromMs toMs e && matchesPlan plan e := by
    refine filter_congr fun e he => ?_
    have hin : inRange fromMs toMs e := by
      rcases mem_append.1 he with he | he
      · obtain ⟨m, -, he⟩ := mem_flatMap.1 he
        exact (mem_filter.1 he).2
      · exact (mem_filter.1 he).2
    rw [hin, Bool.true_and]
  rw [hrange, collectRawEvents, Disk.rawEvents, filter_append, filter_append, ← hscan, filter_filter]
  congr 1
  refine filter_congr fun e _ => ?_
  cases inRange fromMs toMs e <;> simp

end Prune

end UsageDb
