import UsageDb.Runtime.State

/-!
# Compaction

`src/compact/planner.rs` and `src/compact/worker.rs`. A tick first sweeps: replacements
older than the grace window lose their old files and their record. Then each bucket with
more than `max_small_segments` raw segments has them merged into one, sorted and with
repeated event ids dropped; the manifest is switched over and the replacement recorded.

The planner goes through the buckets in the order of a `HashMap`; here they come in
ascending order.
-/

namespace UsageDb

open Lib List

variable {l : List UsageEvent}

/-- `CompactionPlan`. -/
structure CompactionPlan where
  bucket : ℕ
  segmentIds : List String
  deriving DecidableEq

/-- `plan_compaction`. -/
def planCompaction (maxSmallSegments : ℕ) (segments : List SegmentMeta) : List CompactionPlan :=
  ((groups (·.bucket) segments).filter fun g => maxSmallSegments < g.2.length).map fun g =>
    ⟨g.1, g.2.map (·.segmentId)⟩

/-- `read_segments`: missing files are passed over. -/
def Disk.readSegments (d : Disk) (segmentIds : List String) : List UsageEvent :=
  segmentIds.flatMap fun id => (d.seg id).getD []

/-- `retain(|e| seen.insert(e.event_id))`: the first event of each id stays. -/
def retainFirst : List UsageEvent → List String → List UsageEvent
  | [], _ => []
  | e :: es, seen => if e.eventId ∈ seen then retainFirst es seen else e :: retainFirst es
      (e.eventId :: seen)

/-- `sort_and_dedupe`. -/
def sortAndDedupe (events : List UsageEvent) : List UsageEvent :=
  retainFirst (sortEventsCanonical events) []

/-- The name of a merged segment. -/
def compactedSegmentId (uuid : String) : String := "compacted_" ++ uuid

/-- The merge result of a plan: metadata and rows of the new segment. -/
def compactedSegment (X : Extern) (d : Disk) (uuid : ℕ → String) (plan : CompactionPlan) :
    SegmentMeta × List UsageEvent :=
  let deduped := sortAndDedupe (d.readSegments plan.segmentIds)
  (buildSegmentMeta (compactedSegmentId (uuid plan.bucket)) deduped plan.bucket
    (X.segmentChecksum deduped), deduped)

/-- Whether all inputs of a plan are still listed: their number is compared. -/
def Manifest.stillPresent (m : Manifest) (plan : CompactionPlan) : Bool :=
  (m.rawSegments.filter fun s => s.segmentId ∈ plan.segmentIds).length = plan.segmentIds.length

/-- The manifest with the inputs of a plan replaced by its output. -/
def Manifest.swap (m : Manifest) (plan : CompactionPlan) (new : SegmentMeta) (now : ℤ) : Manifest :=
  { m with
    rawSegments := (m.rawSegments.filter fun s => s.segmentId ∉ plan.segmentIds) ++ [new]
    compactedReplacements := m.compactedReplacements ++ [⟨plan.segmentIds, [new.segmentId], now⟩] }

/-- `run_one_plan`: what it does, and whether it committed; `none` for the error of a failed
save, after which the output is deleted and the manifest in memory keeps the swap. -/
def runOnePlan (X : Extern) (uuid : ℕ → String) (saveOk : Bool) (now : ℤ)
    (plan : CompactionPlan) (s : State) :
    Outcome × Option Bool :=
  let new := compactedSegment X s.disk uuid plan
  if new.2.isEmpty then (.skip s, some false)
  else
    let write := [.segWrite new.1.segmentId new.2, .idxWrite new.1.segmentId (new.2.map (indexEntry X))]
    if s.mem.manifest.stillPresent plan then
      let m := s.mem.manifest.swap plan new.1 now
      if saveOk then (⟨write ++ [.manifestSave m.saved], { s.mem with manifest := m.saved }⟩, some true)
      else (⟨write ++ [.segRemove new.1.segmentId], { s.mem with manifest := m }⟩, none)
    else (⟨write ++ [.segRemove new.1.segmentId], s.mem⟩, some false)

/-- The replacements a sweep at `now` finalizes. -/
def Manifest.toFinalize (m : Manifest) (graceMs now : ℤ) : List ReplacementRecord :=
  m.compactedReplacements.filter fun r => r.committedAtMs ≠ 0 && r.committedAtMs ≤ now - graceMs

/-- The manifest without the records of a sweep, compared by their time and old segments. -/
def Manifest.dropReplacements (m : Manifest) (done : List ReplacementRecord) : Manifest :=
  { m with
    compactedReplacements := m.compactedReplacements.filter fun r =>
      !(done.any fun r' => r'.committedAtMs = r.committedAtMs && r'.oldSegments = r.oldSegments) }

/-- Deleting the old files of a sweep; a file that is gone already is passed over. -/
def sweepEffects (d : Disk) (done : List ReplacementRecord) : List Effect :=
  ((done.flatMap (·.oldSegments)).filter fun id => (d.seg id).isSome).map .segRemove

/-- `sweep_pending_deletions`: what it does and how many replacements it finalized; `none`
for the error of a failed save. -/
def sweepPendingDeletions (graceMs now : ℤ) (saveOk : Bool) (s : State) : Outcome × Option ℕ :=
  let done := s.mem.manifest.toFinalize graceMs now
  if done.isEmpty then (.skip s, some 0)
  else
    let m := s.mem.manifest.dropReplacements done
    if saveOk then
      (⟨sweepEffects s.disk done ++ [.manifestSave m.saved], { s.mem with manifest := m.saved }⟩,
        some done.length)
    else (⟨sweepEffects s.disk done, { s.mem with manifest := m }⟩, none)

/-- The plans of a tick, one after another; a failed one does not stop the rest. -/
def runPlans (X : Extern) (uuid : ℕ → String) (saveOk : ℕ → Bool) (now : ℤ) : List CompactionPlan →
    State → Outcome
  | [], s => .skip s
  | plan :: plans, s =>
    (runOnePlan X uuid (saveOk plan.bucket) now plan s).1.andThen s (runPlans X uuid saveOk now plans)

/-- `CompactionWorker::tick`: `saveOk` of `none` is the sweep's save, of a bucket that of its
plan. -/
def compactionTick (X : Extern) (cfg : Config) (now : ℤ) (uuid : ℕ → String) (saveOk : Option ℕ → Bool)
    (s : State) : Outcome :=
  match sweepPendingDeletions cfg.compactionGraceMs now (saveOk none) s with
  | (o, none) => o
  | (o, some _) => o.andThen s fun s =>
    runPlans X uuid (fun b => saveOk (some b)) now
      (planCompaction cfg.compactionMaxSmallSegments s.mem.manifest.rawSegments) s

/-- When the saves succeed, a tick is the sweep and then the plans. -/
theorem compactionTick_of_saves (X : Extern) (cfg : Config) (now : ℤ) (uuid : ℕ → String) (s : State) :
    compactionTick X cfg now uuid (fun _ => true) s =
      (sweepPendingDeletions cfg.compactionGraceMs now true s).1.andThen s fun s =>
        runPlans X uuid
          (fun _ => true) now (planCompaction cfg.compactionMaxSmallSegments
            s.mem.manifest.rawSegments) s := by
  rw [compactionTick, sweepPendingDeletions]
  by_cases hdone : (s.mem.manifest.toFinalize cfg.compactionGraceMs now).isEmpty
  · rw [if_pos hdone]
  · rw [if_neg hdone, if_pos rfl]

/-! ### The merge keeps what it reads -/

theorem retainFirst_sublist (l : List UsageEvent) (seen : List String) :
    (retainFirst l seen).Sublist l := by
  induction l generalizing seen with
  | nil => exact .slnil
  | cons e l ih =>
    rw [retainFirst]
    split
    · exact (ih seen).cons e
    · exact (ih _).cons_cons e

/-- Nothing is dropped when the ids are different. -/
theorem retainFirst_eq_self (hl : (l.map (·.eventId)).Nodup) {seen : List String}
    (hs : ∀ e ∈ l, e.eventId ∉ seen) : retainFirst l seen = l := by
  induction l generalizing seen with
  | nil => rfl
  | cons e l ih =>
    rw [map_cons, nodup_cons] at hl
    rw [retainFirst, if_neg (hs e (by simp)), ih hl.2]
    intro e' he' hmem
    rcases mem_cons.1 hmem with heq | hmem
    · exact hl.1 (heq ▸ mem_map_of_mem he')
    · exact hs e' (by simp [he']) hmem

/-- The merge of events with different ids has the same events. -/
theorem sortAndDedupe_perm (hl : (l.map (·.eventId)).Nodup) :
    (sortAndDedupe l).Perm l := by
  have hperm := sortEventsCanonical_perm l
  rw [sortAndDedupe, retainFirst_eq_self ((hperm.map _).nodup_iff.2 hl) (by simp)]
  exact hperm

theorem mem_of_mem_sortAndDedupe {e : UsageEvent} (he : e ∈ sortAndDedupe l) : e ∈ l :=
  (sortEventsCanonical_perm l).mem_iff.1 ((retainFirst_sublist _ _).subset he)

/-- A plan is about listed segments of its bucket, and not about none. -/
theorem mem_planCompaction {max : ℕ} {segs : List SegmentMeta} {plan : CompactionPlan}
    (h : plan ∈ planCompaction max segs) :
    plan.segmentIds = (segs.filter fun s => s.bucket = plan.bucket).map (·.segmentId) ∧
      plan.segmentIds ≠ [] := by
  rw [planCompaction, mem_map] at h
  obtain ⟨g, hg, rfl⟩ := h
  obtain ⟨hval, hne⟩ := mem_groups.1 (mem_of_mem_filter hg)
  exact ⟨by rw [hval], by simpa using hne⟩

/-- Different plans are about different buckets. -/
theorem planCompaction_buckets_nodup (max : ℕ) (segs : List SegmentMeta) :
    ((planCompaction max segs).map (·.bucket)).Nodup := by
  rw [planCompaction, map_map]
  exact ((filter_sublist (l := groups (·.bucket) segs)).map _).nodup groups_nodup

end UsageDb
