import Mathlib.Data.List.Flatten
import UsageDb.Compact.Merge
import UsageDb.Query.Adjacent
import UsageDb.Runtime.Files
import UsageDb.Runtime.Sidecars

/-!
# A compaction and the queries

The rows of a merged segment are sorted, have different ids, and are those of the inputs
(`sort_and_dedupe`). Whether a query sees them is another matter: they are written again, and a file
holds only so much (`FitsFile`). When the merged rows fit, every raw plan that groups or counts has
the answer it had before the swap; when they do not, the swap is committed nevertheless, the inputs
are no longer listed, and the rows are gone from every answer (`compaction_keeps_every_event`).

The state before and after is seen through the files (`State.onFiles`).
-/

namespace UsageDb

open Lib RollupBuilder List

variable {C : SegmentLibs} {X : Extern} {s : State} {files : String → Option Bytes}
    {plan : CompactionPlan}

/-! ### Answers and the order of rows -/

section Order

variable {q : QueryPlan} {l l' : List UsageEvent}

/-- A sum that stays in range and a count do not depend on the order. -/
theorem foldl_add_perm (h : l.Perm l') (habs : absQuantity l < 2 ^ 127) :
    l.foldl Agg.add ⟨0, 0⟩ = l'.foldl Agg.add ⟨0, 0⟩ := by
  have hsum : (l.foldl Agg.add ⟨0, 0⟩).quantitySum = (l'.foldl Agg.add ⟨0, 0⟩).quantitySum := by
    apply Subtype.ext
    rw [quantitySum_foldl_exact habs, quantitySum_foldl_exact (absQuantity_perm h ▸ habs),
      sumQuantity_perm h]
  have hcount : (l.foldl Agg.add ⟨0, 0⟩).count = (l'.foldl Agg.add ⟨0, 0⟩).count := by
    rw [count_foldl_add, count_foldl_add, h.length_eq]
  exact congrArg₂ Agg.mk hsum hcount

/-- **An answer with sums and counts does not depend on the order of the rows.** -/
theorem aggregate_perm (hne : q.groupBy ≠ [] ∨ q.metrics.entries ≠ [])
    (h : (l.filter (matchesPlan q)).Perm (l'.filter (matchesPlan q)))
    (habs : absQuantity (l.filter (matchesPlan q)) < 2 ^ 127) : aggregate q l = aggregate q l' := by
  have hgroups : planGroups q l = planGroups q l' := by
    refine sortedEntries_congr fun k => ?_
    rw [lookup_groupFold, lookup_groupFold]
    have hk := h.filter fun e => decide (groupKey q e = k)
    have hsub := absQuantity_sublist
      (filter_sublist (l := l.filter (matchesPlan q)) (p := fun e => decide (groupKey q e = k)))
    have hfold := foldl_add_perm hk (hsub.trans_lt habs)
    cases hl : (l.filter (matchesPlan q)).filter fun e => decide (groupKey q e = k) with
    | nil =>
      rw [hl] at hk
      rw [hk.nil_eq]
    | cons e es =>
      cases hl' : (l'.filter (matchesPlan q)).filter fun e => decide (groupKey q e = k) with
      | nil =>
        rw [hl, hl'] at hk
        exact absurd hk.eq_nil (cons_ne_nil _ _)
      | cons e' es' =>
        rw [hl, hl'] at hfold
        exact congrArg some hfold
  have hguard : (q.groupBy.isEmpty && q.metrics.entries.isEmpty) = false := by
    rcases hne with hne | hne <;> simp [hne]
  unfold aggregate
  simp only [hguard, hgroups, Bool.false_eq_true, if_false]

end Order

/-! ### What a raw query collects -/

section Collect

variable {d d' : Disk} {q : QueryPlan} {buckets : ℕ} {segs segs' : List SegmentMeta}

/-- The matching rows that a raw query collects from some segments. -/
def matchesOf (X : Extern) (d : Disk) (q : QueryPlan) (buckets : ℕ) (segs : List SegmentMeta) :
    List UsageEvent :=
  ((segs.filter fun m => segmentOverlapsPlan X m q q.fromMs q.toMs buckets).flatMap fun m =>
    (d.rows m).filter (inRange q.fromMs q.toMs)).filter (matchesPlan q)

theorem matchesOf_append :
    matchesOf X d q buckets (segs ++ segs') = matchesOf X d q buckets segs ++
      matchesOf X d q buckets segs' := by
  rw [matchesOf, filter_append, flatMap_append, filter_append]
  rfl

theorem matchesOf_perm (h : segs.Perm segs') :
    (matchesOf X d q buckets segs).Perm (matchesOf X d q buckets segs') :=
  (((h.filter _).flatMap_right _)).filter _

theorem matchesOf_congr (h : ∀ m ∈ segs, d.rows m = d'.rows m) :
    matchesOf X d q buckets segs = matchesOf X d' q buckets segs := by
  rw [matchesOf, matchesOf]
  congr 1
  refine flatMap_congr fun m hm => ?_
  rw [h m (mem_of_mem_filter hm)]

/-- Of segments with sound metadata all matching rows are collected. -/
theorem matchesOf_sound (h : ∀ m ∈ segs, SegmentSound X buckets (m, d.rows m)) :
    matchesOf X d q buckets segs = (segs.flatMap d.rows).filter (matchesPlan q) := by
  have hskip :=
    filter_flatMap_skip segs d.rows (fun m => segmentOverlapsPlan X m q q.fromMs q.toMs buckets)
    (fun _ => inRange q.fromMs q.toMs) id (matchesPlan q) ?_
  · simp only [map_id] at hskip
    exact hskip
  · intro m hm e he hmatch
    have hrange : inRange q.fromMs q.toMs e := by
      rw [id, matchesPlan, Bool.and_eq_true, Bool.and_eq_true] at hmatch
      exact hmatch.1.1
    exact ⟨segmentOverlapsPlan_of_mem (h m hm).metadata he ((h m hm).bucket e he) hmatch hrange, hrange⟩

/-- The matching rows of a raw query are those of the segments and those of the memtable. -/
theorem filter_rawQuery (hq : q.source = .rawEvents) :
    (collectEvents X s q).filter (matchesPlan q) = matchesOf X s.disk q s.mem.manifest.buckets
      s.mem.manifest.rawSegments ++
      (s.mem.memtable.events.filter (inRange q.fromMs q.toMs)).filter (matchesPlan q) := by
  rw [collectEvents, hq]
  exact filter_append ..

/-- They are among the visible events. -/
theorem absQuantity_collectEvents (hq : q.source = .rawEvents) :
    absQuantity ((collectEvents X s q).filter (matchesPlan q)) ≤ absQuantity s.visible := by
  refine absQuantity_sublist (filter_sublist.trans ?_)
  rw [collectEvents, hq]
  refine List.Sublist.append ?_ filter_sublist
  exact (filter_sublist.flatMap _).trans (List.Sublist.flatMap_right _ fun _ _ => filter_sublist)

end Collect

/-! ### The swap -/

section Swap

variable (C X) {q : QueryPlan} {e : UsageEvent}

/-- The files after a plan: the output is written beside the inputs. -/
def filesAfter (files : String → Option Bytes) (uuid : ℕ → String) (plan : CompactionPlan) :
    String → Option Bytes :=
  match readSegments C X files plan.segmentIds with
  | .error _ => files
  | .ok events =>
    match finish C X ((sortAndDedupe events).foldl Columns.writeEvent .new) with
    | .error _ => files
    | .ok (file, _) => Function.update files (compactedSegmentId (uuid plan.bucket)) (some file)

/-- The state after a plan whose save succeeds, as a scan of the files sees it. -/
def afterPlan (files : String → Option Bytes) (uuid : ℕ → String) (now : ℤ) (plan : CompactionPlan)
    (s : State) : State :=
  ((runOnePlanOn C X files uuid true now plan s).1.state s).onFiles C X (filesAfter C X files uuid plan)

/-- The inputs of a plan can be read, their rows are `events`, and they are segments of one bucket.
The name of the output is new. -/
structure ReadableInputs (files : String → Option Bytes) (uuid : ℕ → String)
    (plan : CompactionPlan) (s : State) (events : List UsageEvent) : Prop where
  /-- The inputs are read. -/
  read : readSegments C X files plan.segmentIds = .ok events
  /-- No two segments have one name. -/
  ids : s.mem.manifest.rawIds.Nodup
  /-- The inputs are of the bucket. -/
  bucket : ∀ m ∈ s.mem.manifest.rawSegments, m.segmentId ∈ plan.segmentIds → m.bucket = plan.bucket
  /-- Their metadata is that of their rows. -/
  sound : ∀ m ∈ s.mem.manifest.rawSegments, m.segmentId ∈ plan.segmentIds →
    SegmentSound X s.mem.manifest.buckets (m, (s.onFiles C X files).disk.rows m)
  /-- The name of the output. -/
  fresh : compactedSegmentId (uuid plan.bucket) ∉ s.mem.manifest.rawIds

variable {C X} {uuid : ℕ → String} {now : ℤ} {events : List UsageEvent}

/-- The metadata of the output. -/
def outputMeta (X : Extern) (uuid : ℕ → String) (plan : CompactionPlan) (events : List UsageEvent) :
    SegmentMeta :=
  buildSegmentMeta (compactedSegmentId (uuid plan.bucket)) (sortAndDedupe events) plan.bucket
    (X.segmentChecksum (sortAndDedupe events))

/-- **The state after a committed plan.** The inputs are no longer listed, the output is, and a scan
of the output gives the rows that were written if they fit, and nothing otherwise. -/
theorem afterPlan_spec (hC : C.Lawful) (hT : C.Truncates)
    (hread : readSegments C X files plan.segmentIds = .ok events)
    (hdone : (runOnePlanOn C X files uuid true now plan s).2 = some true) :
    s.mem.manifest.stillPresent plan ∧
      (afterPlan C X files uuid now plan s).mem =
        { s.mem with manifest := (s.mem.manifest.swap plan (outputMeta X uuid plan events)
          now).saved } ∧
      (∀ m, m.segmentId ≠ compactedSegmentId (uuid plan.bucket) →
        (afterPlan C X files uuid now plan s).disk.rows m = (s.onFiles C X files).disk.rows m) ∧
      (FitsFile C (sortAndDedupe events) →
        (afterPlan C X files uuid now plan s).disk.rows (outputMeta X uuid plan events) =
          sortAndDedupe events) ∧
      (¬ FitsFile C (sortAndDedupe events) →
        (afterPlan C X files uuid now plan s).disk.rows (outputMeta X uuid plan events) = []) := by
  obtain ⟨⟨file, n, checksum⟩, hfinish⟩ := exists_finish hC X (sortAndDedupe events)
  have hfiles : filesAfter C X files uuid plan =
      Function.update files (compactedSegmentId (uuid plan.bucket)) (some file) := by
    rw [filesAfter, hread]
    dsimp only
    rw [hfinish]
  have hnew : compactedSegment X (s.onFiles C X files).disk uuid plan =
      (outputMeta X uuid plan events, sortAndDedupe events) := by
    have hsame : (s.onFiles C X files).disk.readSegments plan.segmentIds = events :=
      readSegments_onFiles hread s.disk
    rw [compactedSegment, hsame]
    rfl
  have hrows : ∀ m, (afterPlan C X files uuid now plan s).disk.rows m =
      ((filesAfter C X files uuid plan m.segmentId).map
          fun file => (scanSegment C X file).toOption.getD []).getD [] :=
    fun m => rfl
  have hscan := scanSegment_of_finish (X := X) hC hT hfinish
  have houtput : (afterPlan C X files uuid now plan s).disk.rows (outputMeta X uuid plan events) =
      (scanSegment C X file).toOption.getD [] := by
    rw [hrows, hfiles]
    show ((Function.update files _ _ (compactedSegmentId (uuid plan.bucket))).map _).getD [] = _
    rw [Function.update_self]
    rfl
  have hplan : s.mem.manifest.stillPresent plan ∧ (afterPlan C X files uuid now plan s).mem =
      { s.mem with manifest := (s.mem.manifest.swap plan (outputMeta X uuid plan events)
          now).saved } := by
    show _ ∧ (runOnePlanOn C X files uuid true now plan s).1.mem = _
    rw [runOnePlanOn, hread] at hdone ⊢
    dsimp only at hdone ⊢
    by_cases hempty : (sortAndDedupe events).isEmpty
    · rw [if_pos hempty] at hdone
      cases hdone
    · rw [if_neg hempty, hfinish] at hdone ⊢
      dsimp only at hdone ⊢
      rw [runOnePlan, hnew] at hdone ⊢
      dsimp only at hdone ⊢
      rw [if_neg hempty] at hdone ⊢
      by_cases hpresent : (s.onFiles C X files).mem.manifest.stillPresent plan
      · rw [if_pos hpresent]
        exact ⟨hpresent, rfl⟩
      · rw [if_neg hpresent] at hdone
        cases hdone
  refine ⟨hplan.1, hplan.2, fun m hm => ?_, fun hfit => ?_, fun hlong => ?_⟩
  · rw [hrows, hfiles, Function.update_of_ne hm]
    rfl
  · rw [houtput, hscan.1 hfit]
    rfl
  · obtain ⟨err, herr⟩ := hscan.2 hlong
    rw [houtput, herr]
    rfl

/-- The rows of a sum that match before a committed plan: those of the segments that stay, of the
inputs, and of the memtable. -/
theorem perm_before (hin : ReadableInputs C X files uuid plan s events)
    (hpresent : s.mem.manifest.stillPresent plan) (hq : q.source = .rawEvents) :
    ((collectEvents X (s.onFiles C X files) q).filter (matchesPlan q)).Perm
      (matchesOf X (s.onFiles C X files).disk q s.mem.manifest.buckets
          (s.mem.manifest.rawSegments.filter fun m => m.segmentId ∉ plan.segmentIds) ++
        events.filter (matchesPlan q) ++
        (s.mem.memtable.events.filter (inRange q.fromMs q.toMs)).filter (matchesPlan q)) := by
  rw [filter_rawQuery hq]
  refine List.Perm.append_right _ ?_
  have hsplit : ((s.mem.manifest.rawSegments.filter fun m => m.segmentId ∉ plan.segmentIds) ++
      s.mem.manifest.rawSegments.filter fun m => m.segmentId ∈ plan.segmentIds).Perm
        s.mem.manifest.rawSegments := by
    have hboth := filter_append_perm (fun m : SegmentMeta => decide (m.segmentId ∈ plan.segmentIds))
      s.mem.manifest.rawSegments
    simpa using perm_append_comm.trans hboth
  refine (matchesOf_perm hsplit).symm.trans ?_
  rw [matchesOf_append]
  refine List.Perm.append_left _ ?_
  have hsound := matchesOf_sound (q := q) fun m hm =>
    hin.sound m (mem_of_mem_filter hm) (of_decide_eq_true (mem_filter.1 hm).2)
  refine (List.Perm.of_eq hsound).trans ?_
  have hrows := perm_readSegments (d := (s.onFiles C X files).disk) hin.ids hpresent
  rw [show (s.onFiles C X files).disk.readSegments plan.segmentIds =
    events from readSegments_onFiles hin.read s.disk] at hrows
  exact hrows.symm.filter _

/-- The output has sound metadata, for the rows that were written. -/
theorem sound_output (hin : ReadableInputs C X files uuid plan s events)
    (hpresent : s.mem.manifest.stillPresent plan) :
    SegmentSound X s.mem.manifest.buckets (outputMeta X uuid plan events, sortAndDedupe events) := by
  refine ⟨rfl, fun e he => ?_⟩
  have hrows := perm_readSegments (d := (s.onFiles C X files).disk) hin.ids hpresent
  rw [show (s.onFiles C X files).disk.readSegments plan.segmentIds =
    events from readSegments_onFiles hin.read s.disk] at hrows
  obtain ⟨m, hm, hrow⟩ := mem_flatMap.1 (hrows.mem_iff.1 (mem_of_mem_sortAndDedupe he))
  obtain ⟨hm, hid⟩ := mem_filter.1 hm
  rw [decide_eq_true_eq] at hid
  exact ((hin.sound m hm hid).bucket e hrow).trans (hin.bucket m hm hid)

/-- The rows that match after it: the output in place of the inputs, if it can be read. -/
theorem filter_after (hC : C.Lawful) (hT : C.Truncates)
    (hin : ReadableInputs C X files uuid plan s events)
    (hdone : (runOnePlanOn C X files uuid true now plan s).2 = some true) (hq : q.source = .rawEvents) :
    ∃ output, (FitsFile C (sortAndDedupe events) → output = sortAndDedupe events) ∧
      (¬ FitsFile C (sortAndDedupe events) → output = []) ∧
      (collectEvents X (afterPlan C X files uuid now plan s) q).filter (matchesPlan q) =
        matchesOf X (s.onFiles C X files).disk q s.mem.manifest.buckets
            (s.mem.manifest.rawSegments.filter fun m => m.segmentId ∉ plan.segmentIds) ++
          output.filter (matchesPlan q) ++
          (s.mem.memtable.events.filter (inRange q.fromMs q.toMs)).filter (matchesPlan q) := by
  obtain ⟨hpresent, hmem, hkept, hfits, hlong⟩ := afterPlan_spec hC hT hin.read hdone
  refine ⟨_, hfits, hlong, ?_⟩
  rw [filter_rawQuery hq, hmem]
  congr 1
  show matchesOf X _ q s.mem.manifest.buckets
    ((s.mem.manifest.rawSegments.filter fun m => m.segmentId ∉ plan.segmentIds) ++
    [outputMeta X uuid plan events]) = _
  rw [matchesOf_append]
  congr 1
  · refine matchesOf_congr fun m hm => hkept m fun heq => hin.fresh ?_
    rw [← heq]
    exact mem_map_of_mem (mem_of_mem_filter hm)
  · by_cases hfit : FitsFile C (sortAndDedupe events)
    · rw [matchesOf_sound, flatMap_singleton]
      intro m hm
      rw [mem_singleton.1 hm, hfits hfit]
      exact sound_output hin hpresent
    · -- Nothing is read, whether the segment is looked at or not.
      rw [hlong hfit, matchesOf, filter_nil, filter_eq_nil_iff]
      intro e he
      obtain ⟨m, hm, he⟩ := mem_flatMap.1 he
      rw [mem_singleton.1 (mem_of_mem_filter hm), hlong hfit] at he
      cases he

/-- **Rows that fit are seen by every plan.** -/
theorem executePlan_after_of_fits (hC : C.Lawful) (hT : C.Truncates)
    (hin : ReadableInputs C X files uuid plan s events)
    (hdone : (runOnePlanOn C X files uuid true now plan s).2 = some true)
    (hids : (events.map (·.eventId)).Nodup)
    (habs : absQuantity (s.onFiles C X files).visible < 2 ^ 127) (hq : q.source = .rawEvents)
    (hne : q.groupBy ≠ [] ∨ q.metrics.entries ≠ [])
    (hfit : FitsFile C (sortAndDedupe events) ∨ events.filter (matchesPlan q) = []) :
    executePlan X (afterPlan C X files uuid now plan s) q = executePlan X (s.onFiles C X files) q := by
  obtain ⟨hpresent, -⟩ := afterPlan_spec hC hT hin.read hdone
  obtain ⟨output, hfits, hlong, hafter⟩ := filter_after hC hT hin hdone hq
  have hbefore := perm_before hin hpresent hq
  have houtput : (output.filter (matchesPlan q)).Perm (events.filter (matchesPlan q)) := by
    have hmerged := (sortAndDedupe_perm hids).filter (matchesPlan q)
    by_cases hfile : FitsFile C (sortAndDedupe events)
    · rw [hfits hfile]
      exact hmerged
    · rw [hlong hfile, hfit.resolve_left hfile]
      exact .refl _
  have hperm : ((collectEvents X (s.onFiles C X files) q).filter (matchesPlan q)).Perm
      ((collectEvents X (afterPlan C X files uuid now plan s) q).filter (matchesPlan q)) := by
    rw [hafter]
    exact hbefore.trans ((houtput.symm.append_left _).append_right _)
  exact (aggregate_perm hne hperm ((absQuantity_collectEvents hq).trans_lt habs)).symm

theorem inRange_min : InRange 63 (-2 ^ 63) := by decide

theorem inRange_max : InRange 63 (2 ^ 63 - 1) := by decide

/-- A plan that counts the events of all times but the last. -/
def countAll : QueryPlan where
  source := .rawEvents
  accountId := none
  fromMs := ⟨-2 ^ 63, inRange_min⟩
  toMs := ⟨2 ^ 63 - 1, inRange_max⟩
  filters := []
  groupBy := []
  metrics := AList.singleton "events" .count

theorem executePlan_countAll (t : State) :
    executePlan X t countAll =
      [.object [("events", .number ((collectEvents X t countAll).filter
        (matchesPlan countAll)).length)]] := by
  rw [executePlan, aggregate_ungrouped rfl (cons_ne_nil _ _)]
  show [Row.object [("events",
    .number (((collectEvents X t countAll).filter (matchesPlan countAll)).foldl Agg.add ⟨0,
      0⟩).count)]] = _
  rw [count_foldl_add, Nat.zero_add]

/-- No plan comes to the last millisecond. -/
theorem matchesPlan_of_last (q : QueryPlan) (he : (e.timestampMs : ℤ) = 2 ^ 63 - 1) :
    matchesPlan q e = false := by
  have hto : (q.toMs : ℤ) < 2 ^ 63 := q.toMs.2.2
  have hrange : inRange q.fromMs q.toMs e = false := by
    rw [inRange, Bool.and_eq_false_iff]
    exact Or.inr (decide_eq_false (by omega))
  rw [matchesPlan, hrange, Bool.false_and, Bool.false_and]

/-- Every other event is counted. -/
theorem matchesPlan_countAll (he : (e.timestampMs : ℤ) ≠ 2 ^ 63 - 1) :
    matchesPlan countAll e = true := by
  obtain ⟨hmin, hmax⟩ := e.timestampMs.2
  have hbefore : (e.timestampMs : ℤ) < 2 ^ 63 - 1 := by omega
  have hrange : inRange countAll.fromMs countAll.toMs e := by
    rw [inRange, Bool.and_eq_true]
    exact ⟨decide_eq_true hmin, decide_eq_true hbefore⟩
  rw [matchesPlan, hrange]
  rfl

/-- **Rows that do not fit are not counted.** -/
theorem executePlan_after_of_long (hC : C.Lawful) (hT : C.Truncates)
    (hin : ReadableInputs C X files uuid plan s events)
    (hdone : (runOnePlanOn C X files uuid true now plan s).2 = some true)
    (hlong : ¬ FitsFile C (sortAndDedupe events)) (he : e ∈ events)
    (hts : (e.timestampMs : ℤ) ≠ 2 ^ 63 - 1) :
    executePlan X (afterPlan C X files uuid now plan s) countAll ≠
      executePlan X (s.onFiles C X files) countAll := by
  obtain ⟨hpresent, -⟩ := afterPlan_spec hC hT hin.read hdone
  obtain ⟨output, -, hnone, hafter⟩ := filter_after hC hT hin hdone (q := countAll) rfl
  have hbefore := (perm_before hin hpresent (q := countAll) rfl).length_eq
  have hsome : 0 < (events.filter (matchesPlan countAll)).length :=
    length_pos_of_mem (mem_filter.2 ⟨he, matchesPlan_countAll hts⟩)
  intro hsame
  rw [executePlan_countAll, executePlan_countAll, hafter, hbefore, hnone hlong] at hsame
  simp only [List.cons.injEq, Row.object.injEq, Prod.mk.injEq, Value.number.injEq,
    length_append, filter_nil, length_nil, and_true, true_and] at hsame
  omega

end Swap

/-- **Compaction and events.** Rows that are merged are sorted; their ids are different, one for
each id of the inputs, and no others; a payload whose id has no other is among them. When the ids of
the inputs are different, nothing is added or dropped, and a committed swap of sound inputs is
invisible to every raw plan of groups, sums and counts exactly if the rows fit in one file again, or
no plan could see them anyway. -/
theorem compaction_keeps_every_event (hC : C.Lawful) (hT : C.Truncates) (X : Extern)
    (events : List UsageEvent) :
    let merged := sortAndDedupe events
    (merged.Pairwise fun a b => a.sortKey ≤ b.sortKey) ∧ (merged.map (·.eventId)).Nodup ∧
    (∀ e ∈ events, ∃ r ∈ merged, r.eventId = e.eventId) ∧ (∀ r ∈ merged, r ∈ events) ∧
    (∀ e ∈ events, (∀ e' ∈ events, e'.eventId = e.eventId → e'.payload = e.payload) →
      ∃ r ∈ merged, r.payload = e.payload) ∧
    ((events.map (·.eventId)).Nodup → merged.Perm events ∧
      ∀ files uuid now plan s, ReadableInputs C X files uuid plan s events →
        (runOnePlanOn C X files uuid true now plan s).2 = some true →
        absQuantity (s.onFiles C X files).visible < 2 ^ 127 →
        ((∀ q : QueryPlan, q.source = .rawEvents → q.groupBy ≠ [] ∨ q.metrics.entries ≠ [] →
            executePlan X (afterPlan C X files uuid now plan s) q =
              executePlan X (s.onFiles C X files) q) ↔
          FitsFile C (sortEventsCanonical events) ∨ ∀ e ∈ events, (e.timestampMs : ℤ) =
              2 ^ 63 - 1)) := by
  refine ⟨pairwise_sortAndDedupe events, sortAndDedupe_ids_nodup events,
    fun e he => exists_mem_sortAndDedupe he,
    fun r hr => mem_of_mem_sortAndDedupe hr, fun e he hone => payload_mem_sortAndDedupe he hone,
    fun hids => ⟨sortAndDedupe_perm hids, ?_⟩⟩
  intro files uuid now plan s hin hdone habs
  have hsorted : sortAndDedupe events = sortEventsCanonical events :=
    retainFirst_eq_self (((sortEventsCanonical_perm events).map _).nodup_iff.2 hids)
      fun _ _ => not_mem_nil
  rw [← hsorted]
  constructor
  · intro hsame
    by_contra hneither
    rw [not_or] at hneither
    push Not at hneither
    obtain ⟨hlong, e, he, hts⟩ := hneither
    exact executePlan_after_of_long hC hT hin hdone hlong he hts
      (hsame countAll rfl (.inr (cons_ne_nil _ _)))
  · intro hfit q hq hne
    refine executePlan_after_of_fits hC hT hin hdone hids habs hq hne (hfit.imp_right fun hlast => ?_)
    rw [filter_eq_nil_iff]
    intro e he
    rw [matchesPlan_of_last q (hlast e he)]
    exact Bool.false_ne_true

/-! ### Two segments that are merged -/

/-- A store of two raw segments; it has one bucket. -/
def twoInputs (X : Extern) (a b : List UsageEvent) : State :=
  ⟨.empty, {
    manifest := {
      rawSegments := [buildSegmentMeta "raw_a" a 0 (X.segmentChecksum a),
        buildSegmentMeta "raw_b" b 0 (X.segmentChecksum b)] }
    dedupe := .new 10
    memtable := ⟨[], 0, none⟩
    activeId := 1
    queue := [] }⟩

/-- Their files. -/
def twoFiles (a b : Bytes) (id : String) : Option Bytes :=
  if id = "raw_a" then some a else if id = "raw_b" then some b else none

/-- Segments that fit in their files can be merged, and the merge is committed. -/
theorem exists_twoInputs (hC : C.Lawful) (X : Extern) (now : ℤ) {a b : List UsageEvent}
    (ha : FitsFile C a) (hb : FitsFile C b)
    (hne : a ≠ []) :
      ∃ files, ReadableInputs C X files (fun _ => "m") mergeBoth (twoInputs X a b) (a ++ b) ∧
      ((twoInputs X a b).onFiles C X files).visible = a ++ b ∧
      (runOnePlanOn C X files (fun _ => "m") true now mergeBoth (twoInputs X a b)).2 = some true := by
  obtain ⟨fileA, -, -, -, hreadA⟩ := exists_readSegment hC X ha.1 ha.2
  obtain ⟨fileB, -, -, -, hreadB⟩ := exists_readSegment hC X hb.1 hb.2
  have hread : readSegments C X (twoFiles fileA fileB) mergeBoth.segmentIds = .ok (a ++ b) := by
    have hlast : readSegments C X (twoFiles fileA fileB) ["raw_b"] = .ok (b ++ []) :=
      except_bind_eq_ok.2 ⟨b, hreadB, rfl⟩
    rw [append_nil] at hlast
    exact except_bind_eq_ok.2 ⟨a, hreadA, except_bind_eq_ok.2 ⟨b, hlast, rfl⟩⟩
  have hrows : ∀ {m : SegmentMeta} {id : String} {file : Bytes} {rows : List UsageEvent},
      m.segmentId = id → twoFiles fileA fileB id = some file → scanSegment C X file = .ok rows →
      ((twoInputs X a b).onFiles C X (twoFiles fileA fileB)).disk.rows m = rows := by
    rintro m _ file rows rfl hfile hscan
    show ((twoFiles fileA fileB m.segmentId).map
      fun file => (scanSegment C X file).toOption.getD []).getD [] = rows
    rw [hfile, Option.map_some, hscan]
    rfl
  have hrowsA := fun (m : SegmentMeta) (hm : m.segmentId = "raw_a") =>
    hrows hm rfl (scanSegment_of_readSegment hreadA)
  have hrowsB := fun (m : SegmentMeta) (hm : m.segmentId = "raw_b") =>
    hrows hm rfl (scanSegment_of_readSegment hreadB)
  have hbucket : ∀ e : UsageEvent,
      X.bucketForAccount e.accountId (twoInputs X a b).mem.manifest.buckets = 0 :=
    fun e => Nat.mod_one _
  have hids : (twoInputs X a b).mem.manifest.rawIds = ["raw_a", "raw_b"] := rfl
  refine ⟨twoFiles fileA fileB, ⟨hread, by rw [hids]; decide, ?_, ?_, by rw [hids]; decide⟩, ?_, ?_⟩
  · intro m hm _
    rcases mem_cons.1 hm with rfl | hm
    · rfl
    · rw [mem_singleton.1 hm]
      rfl
  · intro m hm _
    rcases mem_cons.1 hm with rfl | hm
    · rw [hrowsA _ rfl]
      exact ⟨rfl, fun e _ => hbucket e⟩
    · rw [mem_singleton.1 hm, hrowsB _ rfl]
      exact ⟨rfl, fun e _ => hbucket e⟩
  · show (_ ++ (_ ++ [])) ++ [] = a ++ b
    rw [hrowsA _ rfl, hrowsB _ rfl, append_nil, append_nil]
  · obtain ⟨out, hout⟩ := exists_finish hC X (sortAndDedupe (a ++ b))
    obtain ⟨e, he⟩ := exists_mem_of_ne_nil a hne
    obtain ⟨r, hr, -⟩ := exists_mem_sortAndDedupe (mem_append_left b he)
    have hsome : ¬ (sortAndDedupe (a ++ b)).isEmpty := by
      rw [List.isEmpty_iff]
      exact ne_nil_of_mem hr
    have hsame : ((twoInputs X a b).onFiles C X (twoFiles fileA fileB)).disk.readSegments
        mergeBoth.segmentIds = a ++ b :=
      readSegments_onFiles hread _
    have hpresent : ((twoInputs X a b).onFiles C X (twoFiles fileA fileB)).mem.manifest.stillPresent
      mergeBoth := rfl
    rw [runOnePlanOn, hread]
    dsimp only
    rw [if_neg hsome, hout]
    rw [runOnePlan, compactedSegment, hsame]
    rw [if_neg hsome, if_pos hpresent]
    rfl

theorem compaction_keeps_every_event_of_two :
    let s := twoInputs .sample [numberedEvent 0] [numberedEvent 1]
    ∃ files,
      (runOnePlanOn .stored .sample files (fun _ => "m") true 9000000 mergeBoth s).2 = some true ∧
      ∀ q : QueryPlan, q.source = .rawEvents → q.groupBy ≠ [] ∨ q.metrics.entries ≠ [] →
        executePlan .sample (afterPlan .stored .sample files (fun _ => "m") 9000000 mergeBoth s) q =
          executePlan .sample (s.onFiles .stored .sample files) q := by
  intro s
  have hfits (rows : List UsageEvent) (hrows : rows.length < 2 ^ 32)
      (hcols : ∀ x ∈ rawChunks .stored (.ofEvents rows), x.2.2.length + 64 < 2 ^ 32) :
      FitsFile .stored rows := ⟨hrows, columnsFit_stored hcols⟩
  obtain ⟨files, hin, hvisible, hdone⟩ := exists_twoInputs SegmentLibs.lawful_stored .sample 9000000
    (hfits [numberedEvent 0] (by decide) (by decide +kernel))
      (hfits [numberedEvent 1] (by decide) (by decide +kernel))
    (cons_ne_nil _ _)
  refine ⟨files, hdone, ?_⟩
  obtain ⟨-, -, -, -, -, hsame⟩ := compaction_keeps_every_event SegmentLibs.lawful_stored
    SegmentLibs.truncates_stored .sample
    ([numberedEvent 0] ++ [numberedEvent 1])
  refine ((hsame (by decide)).2 files (fun _ => "m") 9000000 mergeBoth s hin hdone ?_).2 (Or.inl ?_)
  · rw [hvisible]
    decide +kernel
  · exact hfits _ (by decide +kernel) (by decide +kernel)

/-! ### Two segments that cannot be merged -/

theorem length_utf8_toString {i : ℕ} (h : i < 10 ^ 9) : (utf8 (toString i)).length ≤ 9 := by
  have hdigits (cs : List Char) (hcs : ∀ c ∈ cs, c.isDigit) : String.utf8Len cs = cs.length := by
    induction cs with
    | nil => rfl
    | cons c cs ih =>
      rw [forall_mem_cons] at hcs
      have hsize : c.utf8Size = 1 := by
        have hle := hcs.1
        simp only [Char.isDigit, Bool.and_eq_true, decide_eq_true_eq] at hle
        exact Char.utf8Size_eq_one_iff.2 (UInt32.le_trans hle.2 (by decide))
      simp [hsize, ih hcs.2]
  show (Nat.repr i).utf8ByteSize ≤ 9
  rw [Nat.repr_eq_ofList_toDigits, String.utf8ByteSize_ofList,
    hdigits _ fun c => isDigit_of_mem_toDigits]
  exact (Nat.length_toDigits_le_iff (by decide) (by decide)).2 h

/-- A short text takes few bytes. -/
theorem length_textPrinter_le {s : String} (h : (utf8 s).length ≤ 9) :
    (textPrinter.print s).length ≤ 13 := by
  have hle : (textPrinter.print s).length ≤ (utf8 s).length.log2 + 1 + (utf8 s).length * 1 :=
    Printer.length_print_list_le fun _ _ => le_rfl
  have hlog := Printer.log2_lt_of_lt_pow (n := (utf8 s).length) (k := 4) (by omega) (by decide)
  omega

/-- Rows of these events fit in a file, if they are not more than 3 · 2²⁶. -/
theorem fitsFile_numbered {rows : List UsageEvent}
    (h : ∀ e ∈ rows, ∃ i < 10 ^ 9, e = numberedEvent i) (hlen : rows.length ≤ 3 * 2 ^ 26) :
    FitsFile .stored rows := by
  -- the lists of values of a column, by what each of them takes
  have hlist {α : Type} (P : Printer α) (l : List α) (k : ℕ) (hl : l.length ≤ rows.length)
      (hP : ∀ a ∈ l, (P.print a).length ≤ k) :
      (P.list.print l).length ≤ 32 + rows.length * k := by
    have hle := Printer.length_print_list_le hP
    have hmul := Nat.mul_le_mul_right k hl
    have hlog := Printer.log2_lt_of_lt_pow (n := l.length) (k := 32) (by omega) (by decide)
    omega
  have hmap {α : Type} (P : Printer α) (f : UsageEvent → α)
      (hP : ∀ i < 10 ^ 9, (P.print (f (numberedEvent i))).length ≤ 13) :
      (P.list.print (rows.map f)).length ≤ 64 + rows.length * 17 := by
    refine (hlist P _ 13 (length_map _).le fun a ha => ?_).trans (by omega)
    obtain ⟨e, he, rfl⟩ := mem_map.1 ha
    obtain ⟨i, hi, rfl⟩ := h e he
    exact hP i hi
  have htime (f : UsageEvent → I64) :
      (bytesOf (encodeDeltaI64 .stored (rows.map f))).length ≤ 64 + rows.length * 17 :=
    (hlist _ _ 8 ((length_deltas _ _ _).trans (length_map _)).le
      fun _ _ => (length_leBytes _ _).le).trans (by omega)
  have hdict (f : UsageEvent → String) (text : String) (hf : ∀ i, f (numberedEvent i) = text)
      (htext : (utf8 text).length ≤ 9) :
      (bytesOf (encodeDictStrings .stored (rows.map f))).length ≤ 64 + rows.length * 17 := by
    have hsub := Dict.values_sublist UInt32.ofNat (rows.map f)
    have hvalues := hlist textPrinter _ 13 (hsub.length_le.trans_eq (length_map _)) fun s hs => by
      obtain ⟨e, he, rfl⟩ := mem_map.1 (hsub.subset hs)
      obtain ⟨i, -, rfl⟩ := h e he
      exact length_textPrinter_le ((hf i).symm ▸ htext)
    have hindices := hlist u32Printer (Dict.indexAll UInt32.ofNat (rows.map f)).2 4
      ((length_mapAccum _ _ _).trans (length_map _)).le fun _ _ => (length_leBytes _ _).le
    refine (length_append.trans_le (Nat.add_le_add hvalues hindices)).trans ?_
    omega
  have hoption (f : UsageEvent → Option String) (hf : ∀ i, f (numberedEvent i) = none) :
      (bytesOf (encodeDictOptionStrings .stored (rows.map f))).length ≤ 64 + rows.length * 17 := by
    have hnone : rows.map f = List.replicate rows.length none := by
      refine eq_replicate_iff.2 ⟨length_map _, fun x hx => ?_⟩
      obtain ⟨e, he, rfl⟩ := mem_map.1 hx
      obtain ⟨i, -, rfl⟩ := h e he
      exact hf i
    have hindices := hlist u32Printer.option (List.replicate rows.length none) 1
      length_replicate.le fun a ha => by rw [eq_of_mem_replicate ha]; rfl
    rw [hnone, encodeDictOptionStrings, Dict.indexAllOption_none]
    refine (length_append.trans_le (Nat.add_le_add le_rfl hindices)).trans ?_
    show 1 + _ ≤ _
    omega
  have hkinds := hlist (bytePrinter.pair u32Printer)
    ((runs (2 ^ 32 - 1) (rows.map fun e => encodeKind e.kind)).map fun r => (r.1, UInt32.ofNat r.2)) 5
    ((length_map _).trans_le ((length_runs_le _ _).trans_eq (length_map _)))
    fun _ _ => le_rfl
  have hquantity := length_quantities fun e he => (h e he).imp fun _ => And.right
  -- so every column takes seventeen bytes a row at most
  have hcolumns : ∀ x ∈ rawChunks .stored (.ofEvents rows), x.2.2.length ≤ 64 + rows.length * 17 := by
    simp only [rawChunks, columnChunks, map_cons, map_nil, forall_mem_cons]
    exact ⟨hmap textPrinter (·.eventId) fun i hi => length_textPrinter_le (length_utf8_toString hi),
      hkinds.trans (by omega), hmap refPrinter.option (·.correctionRef) fun _ _ => (by decide : 1 ≤ 13),
      hdict (·.accountId) "a" (fun _ => rfl) (by decide), hoption (·.subscriptionId) fun _ => rfl,
      hdict (·.productId) "p" (fun _ => rfl) (by decide),
      hdict (·.meterId) "m" (fun _ => rfl) (by decide), htime (·.timestampMs),
      hquantity.le.trans (by omega), hdict (·.unit) "u" (fun _ => rfl) (by decide),
      hdict (·.source) "s" (fun _ => rfl) (by decide), hoption (·.modelId) fun _ => rfl,
      hmap dimensionsPrinter (·.dimensions)
        fun _ _ => (by decide : 1 ≤ 13), htime (·.ingestedAtMs), forall_mem_nil _⟩
  exact ⟨by omega, columnsFit_stored fun x hx =>
    (Nat.add_le_add_right (hcolumns x hx) 64).trans_lt (by omega)⟩

theorem append_numberedEvents (n : ℕ) :
    numberedEvents 0 n ++ numberedEvents n n = numberedEvents 0 (n + n) := by
  rw [numberedEvents, numberedEvents, ← map_append, numberedEvents, ← range'_append_1,
    Nat.zero_add]

theorem nodup_numberedEvents (start n : ℕ) : ((numberedEvents start n).map (·.eventId)).Nodup := by
  rw [numberedEvents, map_map]
  refine (nodup_range' ..).map fun i j hij => padded_injective 0 ?_
  rw [padded_zero, padded_zero]
  exact congrArg String.toList hij

theorem absQuantity_numberedEvents_le (l : List ℕ) :
    absQuantity (l.map numberedEvent) ≤ l.length * 2 ^ 98 := by
  induction l with
  | nil => decide
  | cons i l ih =>
    obtain ⟨hlo, hhi⟩ := quantity_numberedEvent i
    rw [map_cons, absQuantity_cons, abs_of_nonneg (by omega), length_cons]
    push_cast
    omega

/-- **A merge that nobody can read.** Two segments of 3 · 2²⁶ events each, of different ids, with
quantities that take fifteen bytes and do not compress, can be read. The plan that merges them is
committed: before it the store has 3 · 2²⁷ events, and after it none. -/
theorem merged_rows_not_counted :
    let a := numberedEvents 0 (3 * 2 ^ 26)
    let b := numberedEvents (3 * 2 ^ 26) (3 * 2 ^ 26)
    let s := twoInputs .sample a b
    ∃ files, ReadableInputs .stored .sample files (fun _ => "m") mergeBoth s (a ++ b) ∧
      ((a ++ b).map (·.eventId)).Nodup ∧
      (runOnePlanOn .stored .sample files (fun _ => "m") true 9000000 mergeBoth s).2 = some true ∧
      absQuantity (s.onFiles .stored .sample files).visible < 2 ^ 127 ∧
      executePlan .sample (s.onFiles .stored .sample files) countAll =
        [.object [("events", .number (3 * 2 ^ 27))]] ∧
      executePlan .sample (afterPlan .stored .sample files (fun _ => "m") 9000000 mergeBoth s)
        countAll = [.object [("events", .number 0)]] := by
  -- The number stays a variable: nothing is to be computed with it.
  obtain ⟨n, hn⟩ : ∃ n, n = 3 * 2 ^ 26 := ⟨_, rfl⟩
  rw [← hn]
  intro a b s
  have hlength (start k : ℕ) : (numberedEvents start k).length = k := by simp [numberedEvents]
  have hsmall (start : ℕ) (hstart : start ≤ n) : FitsFile .stored (numberedEvents start n) := by
    refine fitsFile_numbered (fun e he => ?_) (by rw [hlength]; omega)
    obtain ⟨i, hi, rfl⟩ := mem_map.1 he
    obtain ⟨-, hlt⟩ := mem_range'_1.1 hi
    exact ⟨i, by omega, rfl⟩
  obtain ⟨files, hin, hvisible, hdone⟩ := exists_twoInputs SegmentLibs.lawful_stored .sample 9000000
    (hsmall 0 (by omega)) (hsmall n le_rfl)
    (ne_nil_of_length_pos (by rw [hlength]; omega))
  have happend : a ++ b = numberedEvents 0 (n + n) := append_numberedEvents n
  have hids : ((a ++ b).map (·.eventId)).Nodup := happend ▸ nodup_numberedEvents 0 (n + n)
  have hlong : ¬ FitsFile .stored (sortAndDedupe (a ++ b)) := by
    intro hfit
    have hperm := sortAndDedupe_perm hids
    refine not_columnsFit_numbered (fun e he => ?_) ?_ hfit.2
    · have hmem := hperm.mem_iff.1 he
      rw [happend] at hmem
      obtain ⟨i, -, rfl⟩ := mem_map.1 hmem
      exact ⟨i, rfl⟩
    · rw [hperm.length_eq, happend, hlength]
      omega
  obtain ⟨hpresent, -⟩ := afterPlan_spec SegmentLibs.lawful_stored SegmentLibs.truncates_stored
    hin.read hdone
  obtain ⟨output, -, hnone, hafter⟩ := filter_after SegmentLibs.lawful_stored
    SegmentLibs.truncates_stored hin hdone (q := countAll) rfl
  have hbefore := perm_before hin hpresent (q := countAll) rfl
  have hkept : s.mem.manifest.rawSegments.filter (fun m => m.segmentId ∉ mergeBoth.segmentIds) = [] :=
    rfl
  have hall : (a ++ b).filter (matchesPlan countAll) = a ++ b := by
    rw [filter_eq_self, happend]
    intro e he
    obtain ⟨i, -, rfl⟩ := mem_map.1 he
    exact matchesPlan_countAll (show (7200000 : ℤ) ≠ 2 ^ 63 - 1 by decide)
  rw [hkept, hall] at hbefore
  rw [hkept, hnone hlong] at hafter
  refine ⟨files, hin, hids, hdone, ?_, ?_, ?_⟩
  · rw [hvisible, append_numberedEvents]
    refine (absQuantity_numberedEvents_le _).trans_lt ?_
    rw [length_range']
    push_cast
    omega
  · rw [executePlan_countAll, hbefore.length_eq]
    show [Row.object [("events", .number ((a ++ b) ++ []).length)]] = _
    rw [append_nil, happend, hlength, show n + n = 3 * 2 ^ 27 by omega]
  · rw [executePlan_countAll, hafter]
    rfl

end UsageDb
