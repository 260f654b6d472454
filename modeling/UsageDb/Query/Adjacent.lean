import UsageDb.Query.RollupRaw
import UsageDb.Rollup.Reference

/-!
# Adjacent ranges

A query over `[a, b)` and one over `[b, c)` come to the query over `[a, c)`, group by group,
wherever `b` is: inside an hour, at the edge of a segment or at the watermark.

The range of a plan is read in four places: to skip segments, to filter records, to cut the raw
tail off at the watermark, and again for every row. `rowsOf` is what is left when all of them are
taken away: the rows that a source offers to every plan of one account, which do not depend on
the range. A query finds those of them that match (`filter_collectEvents`), and these split at `b`
(`perm_inGroup_split`).
-/

namespace UsageDb

open Lib RollupBuilder List

variable {X : Extern} {s : State} {plan : QueryPlan}

/-- The plan over another range. -/
def QueryPlan.over (plan : QueryPlan) (fromMs toMs : I64) : QueryPlan := { plan with fromMs, toMs }

/-- A group of an answer, empty when there is none of the key. -/
def QueryPlan.groupOf (X : Extern) (s : State) (plan : QueryPlan) (key : List String) : Agg :=
  ((planGroups plan (collectEvents X s plan)).lookup key).getD ⟨0, 0⟩

/-- A rollup segment of one hour. -/
structure RollupHour (X : Extern) (d : Disk) (m : SegmentMeta) : Prop where
  /-- It covers an hour … -/
  maxTs : m.maxTimestampMs = m.minTimestampMs + HOUR_MS - 1
  /-- … that a clock can show. -/
  fits : InRange 63 m.minTimestampMs
  records : ∀ r ∈ d.rollupRecords X m, r.key.hourStartMs = m.minTimestampMs

/-! ### What a query finds -/

/-- The rollup rows for an account, below the watermark. -/
def rollupRows (X : Extern) (s : State) (account : Option String) : List UsageEvent :=
  let m := s.mem.manifest
  (((m.rollupSegments.filter fun seg =>
    account.all fun account => seg.bucket = X.bucketForAccount account m.buckets).flatMap fun seg =>
      (s.disk.rollupRecords X seg).filter
        fun r => r.key.hourStartMs < m.hourlyRollupMs)).map (rollupRecordToEvent X)

/-- The rows that a source offers for an account. -/
def rowsOf (X : Extern) (s : State) (source : QuerySource) (account : Option String) :
    List UsageEvent :=
  match source with
  | .rawEvents => s.visible
  | .rollupHourly => rollupRows X s account ++
      s.visible.filter fun e => s.mem.manifest.hourlyRollupMs ≤ e.timestampMs

/-- Neither a segment nor a record that matches is skipped. -/
theorem filter_collectRollups_rows (hroll : ∀ m ∈ s.mem.manifest.rollupSegments,
    RollupHour X s.disk m) :
    (collectRollups X s plan).filter (matchesPlan plan) =
      (rollupRows X s plan.accountId).filter (matchesPlan plan) := by
  set wm := s.mem.manifest.hourlyRollupMs with hwm
  set parts := s.mem.manifest.rollupSegments.filter fun seg =>
    plan.accountId.all fun account =>
      seg.bucket = X.bucketForAccount account s.mem.manifest.buckets with hparts
  have hcollect : collectRollups X s plan =
      (parts.filter fun seg => seg.minTimestampMs < min (plan.toMs : ℤ) wm && (plan.fromMs : ℤ) ≤
        seg.maxTimestampMs).flatMap
        fun seg =>
            (((s.disk.rollupRecords X seg).filter fun r => r.key.hourStartMs < wm).filter fun r =>
          (plan.fromMs : ℤ) ≤ r.key.hourStartMs && r.key.hourStartMs < (plan.toMs : ℤ)).map
              (rollupRecordToEvent X) := by
    simp only [collectRollups, hparts, filter_filter, ← hwm]
    refine flatMap_congr fun seg _ => ?_
    congr 1
    refine filter_congr fun r _ => ?_
    rw [Bool.eq_iff_iff]
    simp only [Bool.not_eq_true', Bool.or_eq_false_iff, decide_eq_false_iff_not, not_lt,
      not_le, lt_min_iff, Bool.and_eq_true, decide_eq_true_eq]
    tauto
  rw [hcollect,
    filter_flatMap_skip parts
      (fun seg => (s.disk.rollupRecords X seg).filter fun r => r.key.hourStartMs < wm)]
  · rfl
  · intro seg hseg r hr hmatch
    have hhour := hroll seg (mem_of_mem_filter hseg)
    obtain ⟨hr, hlt⟩ := mem_filter.1 hr
    have hstart := hhour.records r hr
    have hts : ((rollupRecordToEvent X r).timestampMs : ℤ) = seg.minTimestampMs := by
      rw [rollupRecordToEvent, hstart]
      exact SInt.wrap_of_inRange hhour.fits
    simp only [matchesPlan, inRange, Bool.and_eq_true, decide_eq_true_eq, hts] at hmatch
    have hmax := hhour.maxTs
    simp only [Bool.and_eq_true, decide_eq_true_eq, lt_min_iff, HOUR_MS] at hlt hmax ⊢
    omega

/-- **A query finds the rows of its source that match**, wherever the range begins and ends. -/
theorem filter_collectEvents
    (hraw : ∀ m ∈ s.mem.manifest.rawSegments, SegmentSound X s.mem.manifest.buckets (m, s.disk.rows m))
    (hroll : ∀ m ∈ s.mem.manifest.rollupSegments, RollupHour X s.disk m) :
    (collectEvents X s plan).filter (matchesPlan plan) =
      (rowsOf X s plan.source plan.accountId).filter (matchesPlan plan) := by
  rw [collectEvents]
  cases plan.source with
  | rawEvents => exact filter_rawEvents hraw
  | rollupHourly =>
    show (collectRollups X s plan ++ _).filter _ = (rollupRows X s plan.accountId ++ _).filter _
    rw [filter_append, filter_append, filter_collectRollups_rows hroll, filter_rawTail hraw]

/-! ### The rows of a group -/

theorem count_foldl_add (l : List UsageEvent) (a : Agg) : (l.foldl Agg.add a).count = a.count +
    l.length := by
  induction l generalizing a with
  | nil => rfl
  | cons e l ih =>
    rw [foldl_cons, ih, length_cons]
    show a.count + 1 + l.length = _
    omega

/-- A sum that stays in range is exact. -/
theorem quantitySum_foldl_exact {l : List UsageEvent} (h : absQuantity l < 2 ^ 127) :
    ((l.foldl Agg.add ⟨0, 0⟩).quantitySum : ℤ) = sumQuantity l := by
  rw [quantitySum_foldl_add, addQuantities_val]
  · simp
  · simpa using h

/-- A group is made of the rows that match and have its key. -/
theorem groupOf_eq (X : Extern) (s : State) (plan : QueryPlan) (key : List String) :
    plan.groupOf X s key =
      ((collectEvents X s plan).filter (inGroup plan key)).foldl Agg.add ⟨0, 0⟩ := by
  rw [QueryPlan.groupOf, planGroups, sortedEntries_groupFold, lookup_groups, ← filter_inGroup]
  split
  · rename_i hnil
    rw [hnil]
    rfl
  · rfl

/-- The rows of the groups. -/
theorem mem_groupRows {row : Row} :
    row ∈ (planGroups plan (collectEvents X s plan)).map (fun g => groupRow plan g.1 g.2) ↔
      ∃ key, row = groupRow plan key (plan.groupOf X s key) ∧
      (collectEvents X s plan).filter (inGroup plan key) ≠ [] := by
  simp only [planGroups, sortedEntries_groupFold, map_map, mem_map, groupOf_eq, filter_inGroup]
  constructor
  · rintro ⟨⟨key, g⟩, hg, rfl⟩
    obtain ⟨rfl, hne⟩ := mem_groups.1 hg
    exact ⟨key, rfl, hne⟩
  · rintro ⟨key, rfl, hne⟩
    exact ⟨(key, _), mem_groups.2 ⟨rfl, hne⟩, rfl⟩

/-- The rows of an answer are its groups; without grouping there is one row, of zeros when nothing
matches. -/
theorem mem_executePlan (hagg : plan.groupBy ≠ [] ∨ plan.metrics.entries ≠ []) {row : Row} :
    row ∈ executePlan X s plan ↔ ∃ key, row = groupRow plan key (plan.groupOf X s key) ∧
      ((collectEvents X s plan).filter (inGroup plan key) ≠ [] ∨ (plan.groupBy = [] ∧ key = [])) := by
  have hguard : (plan.groupBy.isEmpty && plan.metrics.entries.isEmpty) = false := by
    rcases hagg with hagg | hagg <;> simp [hagg]
  rw [executePlan, aggregate, hguard]
  simp only [Bool.false_eq_true, if_false]
  by_cases hby : plan.groupBy = []
  · -- the only key is the empty one
    have hkey : ∀ key, (collectEvents X s plan).filter (inGroup plan key) ≠ [] → key = [] := by
      intro key hne
      obtain ⟨e, he⟩ := exists_mem_of_ne_nil _ hne
      have hin := (mem_filter.1 he).2
      rw [inGroup, Bool.and_eq_true, decide_eq_true_eq, groupKey, hby] at hin
      exact hin.1.symm
    have hone : (∃ key, row = groupRow plan key (plan.groupOf X s key) ∧
        ((collectEvents X s plan).filter (inGroup plan key) ≠ [] ∨ (plan.groupBy = [] ∧ key = []))) ↔
        row = groupRow plan [] (plan.groupOf X s []) := by
      constructor
      · rintro ⟨key, hrow, h⟩
        rwa [h.elim (hkey key) And.right] at hrow
      · exact fun hrow => ⟨[], hrow, .inr ⟨hby, rfl⟩⟩
    rw [hone]
    split
    · rename_i hzero
      have hnil : (collectEvents X s plan).filter (inGroup plan []) = [] := by
        by_contra hne
        have hmem := mem_groupRows.2 ⟨[], rfl, hne⟩
        simp only [Bool.and_eq_true, List.isEmpty_iff] at hzero
        rw [hzero.2] at hmem
        cases hmem
      rw [List.mem_singleton, groupOf_eq, hnil]
      rfl
    · rename_i hsome
      rw [mem_groupRows]
      constructor
      · rintro ⟨key, hrow, hne⟩
        rwa [hkey key hne] at hrow
      · refine fun hrow => ⟨[], hrow, fun hnil => hsome ?_⟩
        have hnone :
            (planGroups plan (collectEvents X s plan)).map
                (fun g => groupRow plan g.1 g.2) = [] := by
          refine eq_nil_iff_forall_not_mem.2 fun row hmem => ?_
          obtain ⟨key, -, hne⟩ := mem_groupRows.1 hmem
          exact hne (hkey key hne ▸ hnil)
        simp [hby, hnone, hagg.resolve_left (· hby)]
  · rw [if_neg (by simp [hby]), mem_groupRows]
    simp [hby]

/-! ### Splitting a range -/

/-- The rows of a group in a range are those before and those after a time in it. -/
theorem perm_inGroup_split (plan : QueryPlan) (rows : List UsageEvent) (key : List String)
    {a b c : I64} (hab : a ≤ b) (hbc : b ≤ c) :
    (rows.filter (inGroup (plan.over a c) key)).Perm
      (rows.filter (inGroup (plan.over a b) key) ++ rows.filter (inGroup (plan.over b c) key)) := by
  have hsplit := filter_append_perm (fun e : UsageEvent => decide (e.timestampMs < b))
    (rows.filter (inGroup (plan.over a c) key))
  have hbefore :
      ((rows.filter (inGroup (plan.over a c) key)).filter fun e => decide (e.timestampMs < b)) =
      rows.filter (inGroup (plan.over a b) key) := by
    rw [filter_filter]
    refine filter_congr fun e _ => ?_
    rw [Bool.eq_iff_iff]
    simp only [inGroup, matchesPlan, inRange, QueryPlan.over, Bool.and_eq_true, decide_eq_true_eq,
      Subtype.coe_le_coe, Subtype.coe_lt_coe]
    have hto : e.timestampMs < b → e.timestampMs < c := fun h => h.trans_le hbc
    tauto
  have hafter :
      ((rows.filter (inGroup (plan.over a c) key)).filter fun e => !decide (e.timestampMs < b)) =
      rows.filter (inGroup (plan.over b c) key) := by
    rw [filter_filter]
    refine filter_congr fun e _ => ?_
    rw [Bool.eq_iff_iff]
    simp only [inGroup, matchesPlan, inRange, QueryPlan.over, Bool.and_eq_true, decide_eq_true_eq,
      Subtype.coe_le_coe, Subtype.coe_lt_coe, Bool.not_eq_true', decide_eq_false_iff_not, not_lt]
    have hfrom : b ≤ e.timestampMs → a ≤ e.timestampMs := fun h => hab.trans h
    tauto
  rw [hbefore, hafter] at hsplit
  exact hsplit.symm

/-- The rows of a group over a range. -/
theorem filter_inGroup_collectEvents
    (hraw : ∀ m ∈ s.mem.manifest.rawSegments, SegmentSound X s.mem.manifest.buckets (m, s.disk.rows m))
    (hroll : ∀ m ∈ s.mem.manifest.rollupSegments, RollupHour X s.disk m) (a b : I64)
    (key : List String) :
    (collectEvents X s (plan.over a b)).filter (inGroup (plan.over a b) key) =
      (rowsOf X s plan.source plan.accountId).filter (inGroup (plan.over a b) key) := by
  rw [filter_inGroup, filter_inGroup, filter_collectEvents hraw hroll]
  rfl

/-- **Adjacent ranges add up.** In a state with raw metadata that was computed from the rows and
rollup segments of an hour each, for every plan, whichever its source, account, filters and
grouping, and all `a ≤ b ≤ c`: the counts of a group over `[a, b)` and `[b, c)` add up to the
count over `[a, c)`, and so do the sums, if the absolute quantities of the group fit. -/
theorem adjacent_ranges_add_up (X : Extern) (s : State)
    (hraw : ∀ m ∈ s.mem.manifest.rawSegments, SegmentSound X s.mem.manifest.buckets (m, s.disk.rows m))
    (hroll : ∀ m ∈ s.mem.manifest.rollupSegments, RollupHour X s.disk m) (plan : QueryPlan)
    {a b c : I64} (hab : a ≤ b) (hbc : b ≤ c) (key : List String) :
    ((plan.over a b).groupOf X s key).count + ((plan.over b c).groupOf X s key).count =
      ((plan.over a c).groupOf X s key).count ∧
    (absQuantity ((collectEvents X s (plan.over a c)).filter (inGroup (plan.over a c) key)) < 2 ^ 127 →
      (((plan.over a b).groupOf X s key).quantitySum : ℤ) +
        ((plan.over b c).groupOf X s key).quantitySum =
        ((plan.over a c).groupOf X s key).quantitySum) := by
  simp only [groupOf_eq, filter_inGroup_collectEvents hraw hroll]
  have hperm := perm_inGroup_split plan (rowsOf X s plan.source plan.accountId) key hab hbc
  generalize (rowsOf X s plan.source plan.accountId).filter (inGroup (plan.over a b) key) =
    before at hperm ⊢
  generalize (rowsOf X s plan.source plan.accountId).filter (inGroup (plan.over b c) key) =
    after at hperm ⊢
  generalize (rowsOf X s plan.source plan.accountId).filter (inGroup (plan.over a c) key) =
    whole at hperm ⊢
  constructor
  · rw [count_foldl_add, count_foldl_add, count_foldl_add, hperm.length_eq, length_append]
    simp only [Nat.zero_add]
  · intro hfit
    have habs := absQuantity_perm hperm
    rw [absQuantity_append] at habs
    have hbefore := absQuantity_nonneg before
    have hafter := absQuantity_nonneg after
    rw [quantitySum_foldl_exact (by omega), quantitySum_foldl_exact (by omega),
      quantitySum_foldl_exact hfit, sumQuantity_perm hperm]
    simp [sumQuantity]

/-- Two events have been flushed and their hour rolled up; two more are in the memtable. -/
def rolledState : State :=
  let rolled := (tick .sample sampleConfig 10900000 (taggedHourUuid 'r') true flushedState).1.state
    flushedState
  (handleIngest .sample sampleConfig sampleClock
    [sampleEvent "c" "acme" 10800001 4, sampleEvent "d" "acme" 10800002 8] rolled).1.state rolled

/-- The sums and counts of accounts. -/
def sampleSumsPlan (source : QuerySource) : QueryPlan :=
  ⟨source, none, SInt.wrap 63 0, SInt.wrap 63 0, [], ["account_id"],
    (AList.singleton "n" AggregationFunction.count).insert "q" .sum⟩

/-- Ranges that meet inside the hour that has been rolled up, and between two events of the
memtable. -/
theorem adjacent_ranges_add_up_of_rollup :
    let sum :=
  fun source a b => (((sampleSumsPlan source).over (SInt.wrap 63 a) (SInt.wrap 63 b)).groupOf
      .sample rolledState ["acme"]).quantitySum
    rolledState.mem.manifest.rollupSegments.length = 2 ∧
    (sum .rollupHourly 0 10000000 : ℤ) + sum .rollupHourly 10000000 10800002 =
      sum .rollupHourly 0 10800002 ∧
    (sum .rollupHourly 0 10800002 : ℤ) + sum .rollupHourly 10800002 20000000 =
      sum .rollupHourly 0 20000000 ∧
    (sum .rollupHourly 0 20000000 : ℤ) = 14 := by
  intro sum
  have hraw : ∀ m ∈ rolledState.mem.manifest.rawSegments,
      SegmentSound .sample rolledState.mem.manifest.buckets (m, rolledState.disk.rows m) := by
    have hmeta : ∀ m ∈ rolledState.mem.manifest.rawSegments,
      m = buildSegmentMeta m.segmentId (rolledState.disk.rows m)
      m.bucket (Extern.sample.segmentChecksum (rolledState.disk.rows m)) := by decide +kernel
    have hbucket : ∀ m ∈ rolledState.mem.manifest.rawSegments, ∀ e ∈ rolledState.disk.rows m,
      Extern.sample.bucketForAccount e.accountId rolledState.mem.manifest.buckets =
        m.bucket := by decide +kernel
    exact fun m hm => ⟨hmeta m hm, hbucket m hm⟩
  have hroll : ∀ m ∈ rolledState.mem.manifest.rollupSegments,
      RollupHour .sample rolledState.disk m := by
    have htimes : ∀ m ∈ rolledState.mem.manifest.rollupSegments,
      m.maxTimestampMs = m.minTimestampMs + HOUR_MS - 1 ∧
        InRange 63 m.minTimestampMs := by decide +kernel
    have hrecords : ∀ m ∈ rolledState.mem.manifest.rollupSegments,
      ∀ r ∈ rolledState.disk.rollupRecords .sample m,
      r.key.hourStartMs = m.minTimestampMs := by decide +kernel
    exact fun m hm => ⟨(htimes m hm).1, (htimes m hm).2, hrecords m hm⟩
  refine ⟨by decide +kernel, ?_, ?_, ?_⟩
  · exact (adjacent_ranges_add_up .sample rolledState hraw hroll (sampleSumsPlan .rollupHourly)
      (by decide +kernel) (by decide +kernel) ["acme"]).2 (by decide +kernel)
  · exact (adjacent_ranges_add_up .sample rolledState hraw hroll (sampleSumsPlan .rollupHourly)
      (by decide +kernel) (by decide +kernel) ["acme"]).2 (by decide +kernel)
  · simp only [sum, groupOf_eq]
    decide +kernel

end UsageDb
