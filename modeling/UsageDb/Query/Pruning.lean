import UsageDb.Query.Executor
import UsageDb.Runtime.Preserve

/-!
# Skipping segments never changes an answer

A query skips the raw segments whose metadata says that no row can match: by the times, the
bucket and the bounds of the accounts, and the sets of products, meters and models
(`segment_overlaps_plan`). `not_matches_of_skipped` is what the metadata that
`build_segment_meta` computes is good for, whatever the rows and the plan are, and
`pruning_exact` draws the consequence for every state the database can be in, running or after
crashes: the answer is that of a scan of all raw segments.
-/

namespace UsageDb

open Lib

variable {X : Extern} {cfg : Config}

/-- `collect_raw_events` without skipping. -/
def scanRawEvents (s : State) (fromMs toMs : ℤ) : List UsageEvent :=
  (s.mem.manifest.rawSegments.flatMap fun seg => (s.disk.rows seg).filter (inRange fromMs toMs)) ++
    s.mem.memtable.events.filter (inRange fromMs toMs)

theorem scanRawEvents_eq (s : State) (fromMs toMs : ℤ) :
    scanRawEvents s fromMs toMs =
      (s.disk.rawEvents s.mem.manifest ++ s.mem.memtable.events).filter (inRange fromMs toMs) := by
  rw [scanRawEvents, List.filter_append, Disk.rawEvents, List.filter_flatMap]

/-- No row of a segment that is skipped is in the range and matches the plan. -/
theorem not_matches_of_skipped {buckets bucket : ℕ} {events : List UsageEvent} {id : String}
    {checksum : BitVec 64}
    {plan : QueryPlan} {fromMs toMs : ℤ} (hbucket : ∀ e ∈ events, X.bucketForAccount e.accountId
      buckets = bucket)
    (hskip : segmentOverlapsPlan X (buildSegmentMeta id events bucket checksum) plan fromMs toMs
      buckets = false)
    {e : UsageEvent} (he : e ∈ events) : ¬ (inRange fromMs toMs e ∧ matchesPlan plan e) := by
  rintro ⟨hrange, hmatch⟩
  have hkept := segmentOverlapsPlan_of_mem (m := buildSegmentMeta id events bucket checksum) rfl he
    (hbucket e he) hmatch
    hrange
  rw [hskip] at hkept
  cases hkept

/-- The answer depends on the collected rows only through those that match. -/
theorem aggregate_of_filter_eq {plan : QueryPlan} {l l' : List UsageEvent}
    (h : l.filter (matchesPlan plan) = l'.filter (matchesPlan plan)) :
      aggregate plan l = aggregate plan l' := by
  rw [aggregate, aggregate, planGroups, planGroups, h]

/-- The same answer, when the listed segments are in order. -/
theorem aggregate_collectRawEvents {s : State} (hok : DiskOk X cfg s.disk) (hm : MemOk s)
    (plan : QueryPlan) (fromMs toMs : ℤ) :
    aggregate plan (collectRawEvents X s plan fromMs toMs) =
      aggregate plan (scanRawEvents s fromMs toMs) := by
  refine aggregate_of_filter_eq ?_
  rw [filter_collectRawEvents
    fun m hmem => (hok.listed hm m hmem).sound, scanRawEvents_eq, List.filter_filter]
  exact List.filter_congr fun e _ => Bool.and_comm _ _

/-- **Skipping never changes an answer.** When a segment of events of one bucket is skipped,
whatever their times and the plan are, none of them is in the range and matches the plan; and in
every state that a run of flushes, compactions, the other operations, crashes and restarts leads
to, every plan has the answer that a scan of all raw segments gives. -/
theorem pruning_exact (X : Extern) (cfg : Config) :
    (∀ (buckets bucket : ℕ) (events : List UsageEvent) (id : String) (checksum : BitVec 64)
      (plan : QueryPlan)
      (fromMs toMs : ℤ), (∀ e ∈ events, X.bucketForAccount e.accountId buckets = bucket) →
      segmentOverlapsPlan X (buildSegmentMeta id events bucket checksum) plan fromMs toMs buckets =
        false →
      ∀ e ∈ events, ¬ (inRange fromMs toMs e ∧ matchesPlan plan e)) ∧
    ∀ (ls : List Label) (s : State) (plan : QueryPlan) (fromMs toMs : ℤ),
      Run (Step X cfg) (.down .empty) ls (.up s) →
      aggregate plan (collectRawEvents X s plan fromMs toMs) =
        aggregate plan (scanRawEvents s fromMs toMs) := by
  refine ⟨fun _ _ _ _ _ _ _ _ hbucket hskip e he => not_matches_of_skipped hbucket hskip he, ?_⟩
  intro ls s plan fromMs toMs hrun
  obtain ⟨c, hd, hm⟩ := sysOk_of_run hrun
  exact aggregate_collectRawEvents hd.1 hm plan fromMs toMs

/-- A plan for one account. -/
def sampleAccountPlan (account : String) : QueryPlan :=
  ⟨.rawEvents, some account, SInt.wrap 63 0, SInt.wrap 63 10800000, [], [],
    AList.singleton "quantity" .sum⟩

/-- Two events of different buckets are flushed; the plan for one account skips the other's
segment, and is answered as by a scan of both. -/
theorem pruning_exact_of_two_segments :
    (∀ e ∈ [sampleEvent "b" "bolt" 3700000 7], ¬ (inRange 0 10800000 e ∧
      matchesPlan (sampleAccountPlan "acme") e)) ∧
    ∃ s ls, Run (Step .sample sampleConfig) (.down .empty) ls (.up s) ∧
      s.mem.manifest.rawSegments.length = 2 ∧
      (s.mem.manifest.rawSegments.filter fun seg =>
        segmentOverlapsPlan .sample seg (sampleAccountPlan "acme") 0 10800000
          s.mem.manifest.buckets).length = 1 ∧
      aggregate (sampleAccountPlan "acme")
        (collectRawEvents .sample s (sampleAccountPlan "acme") 0 10800000) =
        aggregate (sampleAccountPlan "acme") (scanRawEvents s 0 10800000) := by
  have hexact := pruning_exact .sample sampleConfig
  refine ⟨hexact.1 2 0 _ "raw_x" 0 _ 0 10800000 (by decide +kernel) (by decide +kernel), ?_⟩
  have hstart : Run (Step .sample sampleConfig) (.down .empty) [.restart 8000000 fun _ => 8000000] _ :=
    Run.single (.restart 8000000 fun _ => 8000000)
  have hlast := ((hstart.snoc (.run (show Op.Fresh _ (.ingest sampleClock
    [sampleEvent "a" "acme" 3700000 5, sampleEvent "b" "bolt" 3700000 7]) from trivial))).snoc
      (.run (show Op.Fresh _ .drain from trivial))).snoc
        (.run (show Op.Fresh _ (.flush sampleUuid fun _ => 9000000) from
          ⟨fun n => ((unused_restart_empty _ _ _ _ _).onLog (onLog_ingest _ _ _)).onLog
            (onLog_drainIf _ _), sampleUuid_injective⟩))
  exact ⟨_, _, hlast, by decide +kernel, by decide +kernel, hexact.2 _ _ _ _ _ hlast⟩

end UsageDb
