import UsageDb.Concurrent.Visibility
import UsageDb.Rollup.Coverage

/-!
# Rollup queries beside the workers

A query over rollups reads the watermark and the list of rollup segments together, then their
files; it takes the lock again for the list of raw segments, reads those, and reads the memtable
last (`collect_rollup_then_raw_tail`). In between the rollup worker may move the watermark and
compactions may replace raw segments, so that the two lists are of different manifests.

`rollup_query_snapshot` says that this does no harm. The query splits at the watermark that it has
read, whatever the watermark is later, and a compaction leaves the collection of raw events as it
is. So the answer is that of the raw events where the query started, as long as nothing is
accepted, flushed or swept meanwhile.

That is so for sums that fit: sums saturate, and then they depend on how the events are put
together (`saturated_rollup_sum`).
-/

namespace UsageDb

open Lib RollupBuilder List

variable {o : Observed}

/-! ### The steps of a query -/

/-- Where a query over rollups is. -/
inductive RollupPhase where
  /-- It has these rollup segments left to read. -/
  | rollups (todo : List SegmentMeta)
  /-- It has these raw segments left to read, and the memtable. -/
  | raw (todo : List String)
  /-- It is over. -/
  | finished
  deriving DecidableEq

/-- A query over rollups. -/
structure RollupQuery where
  plan : QueryPlan
  /-- `watermark`, as it was read with the list of rollup segments. -/
  watermark : ℤ
  /-- Where it is. -/
  phase : RollupPhase
  /-- What it has from rollup records. -/
  rolled : List UsageEvent
  /-- What it has from raw data. -/
  tail : List UsageEvent

namespace RollupQuery

variable (X : Extern)

/-- The watermark and the rollup segments are read. -/
def start (plan : QueryPlan) (m : Manifest) : RollupQuery where
  plan := plan
  watermark := m.hourlyRollupMs
  phase := .rollups (m.rollupSegments.filter fun seg =>
    (seg.minTimestampMs < min (plan.toMs : ℤ) m.hourlyRollupMs && (plan.fromMs : ℤ) ≤
      seg.maxTimestampMs) &&
      plan.accountId.all fun account => seg.bucket = X.bucketForAccount account m.buckets)
  rolled := []
  tail := []

/-- `tail_from`. -/
def tailFrom (q : RollupQuery) : ℤ := max q.plan.fromMs q.watermark

/-- What it collects of a rollup segment. -/
def recordsOf (q : RollupQuery) (d : Disk) (seg : SegmentMeta) : List UsageEvent :=
  ((d.rollupRecords X seg).filter fun r =>
    !(r.key.hourStartMs < (q.plan.fromMs : ℤ) || min (q.plan.toMs : ℤ) q.watermark ≤
      r.key.hourStartMs)).map
    (rollupRecordToEvent X)

/-- The next step: a rollup segment is read; after the last one the raw segments are listed, if
the plan reaches above the watermark; each of them is read, and the memtable at the end. A missing
file is passed over. -/
def next (s : State) (q : RollupQuery) : Option RollupQuery :=
  match q.phase with
  | .rollups (seg :: todo) => some
      { q with phase := .rollups todo, rolled := q.rolled ++ q.recordsOf X s.disk seg }
  | .rollups [] =>
    if q.watermark < (q.plan.toMs : ℤ) then
      some { q with
        phase := .raw ((s.mem.manifest.rawSegments.filter fun seg =>
          segmentOverlapsPlan X seg q.plan q.tailFrom q.plan.toMs s.mem.manifest.buckets).map
            (·.segmentId)) }
    else some { q with phase := .finished }
  | .raw (id :: todo) =>
    some { q with
      phase := .raw todo
      tail := q.tail ++ ((s.disk.seg id).getD []).filter (inRange q.tailFrom q.plan.toMs) }
  | .raw [] =>
    some { q with
      phase := .finished
      tail := q.tail ++ s.mem.memtable.events.filter (inRange q.tailFrom q.plan.toMs) }
  | .finished => none

/-- The answer. -/
def answer (q : RollupQuery) : List Row := aggregate q.plan (q.rolled ++ q.tail)

end RollupQuery

/-- The server with one query. -/
structure Observed where
  workers : Workers
  /-- What has happened. -/
  journal : Journal
  query : RollupQuery

/-- What happens next. -/
inductive ObservedAction where
  /-- One of the other parties takes a step. -/
  | work (l : Work)
  /-- The query does. -/
  | query

/-- Whether a step is in the background: no request's critical section, no drain or commit of a
flush, and no deletion of the file of a merged segment. -/
def Workers.background (w : Workers) (l : Work) : Bool :=
  (w.sweeps l).isNone &&
    match l with
    | .act (.ingest _ _ _) => false
    | .act .tickDrain => false
    | .act .commit => false
    | _ => true

/-- A step of the query, or one in the background. -/
inductive ObservedStep (X : Extern) (cfg : Config) : Observed → ObservedAction → Observed → Prop where
  /-- A step in the background. The names that are drawn are new. -/
  | work {w w' : Workers} {j j' : Journal} {q : RollupQuery}
      {l : Work} : WorkersStep X cfg (w, j) l (w', j') →
      (∀ a, l = .act a → a.Fresh w.machine) → w.background l →
      ObservedStep X cfg ⟨w, j, q⟩ (.work l) ⟨w', j', q⟩
  /-- A step of the query. -/
  | query {w : Workers} {j : Journal} {q q' : RollupQuery} : q.next X w.machine.state = some q' →
      ObservedStep X cfg ⟨w, j, q⟩ .query ⟨w, j, q'⟩

/-- **The rollups cover the events below the watermark**: the rollup segments are of hours below
it, their files are there, they were made from the raw events below it, each of which is in one of
them, and the memtable has nothing below it. -/
structure State.RollupsCover (X : Extern) (s : State) : Prop where
  files : ∀ seg ∈ s.mem.manifest.rollupSegments, s.disk.rseg seg.segmentId ≠ none
  /-- What they were made from. -/
  sources : ∃ srcs, List.Forall₂ (RollupOf X s.mem.manifest.buckets)
    (s.disk.rollups X s.mem.manifest) srcs ∧
    srcs.flatten.Perm ((s.disk.rawEvents s.mem.manifest).filter
      fun e => (e.timestampMs : ℤ) < s.mem.manifest.hourlyRollupMs)
  /-- The hours. -/
  below : ∀ m ∈ s.mem.manifest.rollupSegments, m.minTimestampMs < s.mem.manifest.hourlyRollupMs
  memtable : ∀ e ∈ s.mem.memtable.events, s.mem.manifest.hourlyRollupMs ≤ (e.timestampMs : ℤ)

variable {X : Extern} {cfg : Config}

/-! ### What happens in the background -/

section Background

variable {w w' : Workers} {j : Journal} {l : Work}

/-- The raw segments that are listed are sound. -/
theorem RawOk.sound_of_listed {s : State} (h : RawOk X s j) :
    ∀ m ∈ s.mem.manifest.rawSegments, SegmentSound X s.mem.manifest.buckets (m, s.disk.rows m) := by
  intro m hm
  obtain ⟨rows, hrows⟩ := h.listed m hm
  rw [h.rows_of_listed hm, Journal.rowsOf_of_mem h.nodup hrows]
  exact h.sound _ hrows

/-- A step of another party writes rollup files only in a scan, under the names that it draws. -/
theorem Workers.Ok.rseg_act (h : w.Ok X j) {a : Action} {m' : Machine}
    (hnext : w.machine.next X cfg a = some m')
    (hfresh : a.Fresh w.machine) {id : String} (hfile : w.machine.state.disk.rseg id ≠ none) :
    m'.state.disk.rseg id = w.machine.state.disk.rseg id := by
  obtain ⟨o, hdoes, hstate⟩ := Machine.does hnext
  rw [hstate]
  cases hdoes with
  | log hlog => exact congrFun (Disk.applyAll_onLog hlog.effects _).2.2 id
  | write hwriting ho =>
    have hlists := h.flusher
    rw [FlushPhase.Lists, hwriting] at hlists
    obtain ⟨seg, -, rfl | rfl⟩ := mem_segmentEffects (hlists.2.only _ mem_cons_self)
    · rw [ho]
      rfl
    · rw [ho]
      rfl
  | commit _ ho =>
    rw [ho]
    rfl
  | scan ho =>
    obtain ⟨r, hr, hother, -⟩ := rollupEffects_applyAll w.machine.state.disk
      (newRollups X w.machine.state.disk _ _ _ _)
    rw [ho]
    show (w.machine.state.disk.applyAll _).rseg id = _
    rw [hr]
    refine hother id fun hmem => ?_
    -- a name that is drawn is not that of a file
    obtain ⟨seg, hseg, rfl⟩ := mem_map.1 hmem
    obtain ⟨hour, b, hname⟩ := segmentId_newRollups hseg
    rw [hname] at hfile
    exact hfile (hfresh.1 hour b)
  | tickCommit _ ho =>
    rw [ho]
    rfl

/-- A compaction does not touch rollup files. -/
theorem Workers.Ok.rseg_compaction (h : w.Ok X j) {i : ℕ} {uuid : String}
    (hnext : w.next X cfg (.compaction i uuid) = some w') :
    w'.machine.state.disk.rseg = w.machine.state.disk.rseg := by
  obtain ⟨t, l, r, -, hticks, rfl⟩ := Workers.next_compaction hnext
  have ht := h.ticks t (by simp [hticks])
  cases t with
  | sweeping now done todo =>
    cases todo with
    | nil => rfl
    | cons id todo =>
      show (w.machine.state.disk.applyAll (if (w.machine.state.disk.seg id).isSome
        then [.segRemove id] else [])).rseg = _
      split <;> rfl
  | planning now => rfl
  | running now plans => cases plans <;> rfl
  | reading now plan plans todo got => cases todo <;> rfl
  | writing now plan plans seg todo =>
    cases todo with
    | nil =>
      simp only [CompactionPhase.next]
      split <;> rfl
    | cons x todo =>
      obtain ⟨seg', -, rfl | rfl⟩ := mem_segmentEffects (ht.2.1.only x mem_cons_self)
      · rfl
      · rfl

/-- **What a step in the background leaves as it is**: the collection of raw events, the memtable,
and the rollup files that are there. -/
theorem WorkersStep.background {j' : Journal} (h : w.Ok X j)
    (hstep : WorkersStep X cfg (w, j) l (w', j'))
    (hfresh : ∀ a, l = .act a → a.Fresh w.machine) (hback : w.background l = true)
    (hdistinct : ((w.machine.state.disk.rawEvents w.machine.state.mem.manifest).map
      (·.eventId)).Nodup) :
    (w'.machine.state.disk.rawEvents w'.machine.state.mem.manifest).Perm
        (w.machine.state.disk.rawEvents w.machine.state.mem.manifest) ∧
      w'.machine.state.mem.memtable.events = w.machine.state.mem.memtable.events ∧
      ∀ id, w.machine.state.disk.rseg id ≠ none →
        w'.machine.state.disk.rseg id = w.machine.state.disk.rseg id := by
  have hok' := hstep.ok h
  obtain ⟨-, hnext, hjournal⟩ := hstep
  dsimp only at hnext hjournal hok'
  subst hjournal
  cases l with
  | act a =>
    obtain ⟨m', hm, rfl⟩ := Option.map_eq_some_iff.1 hnext
    refine ⟨?_, ?_, fun id hid => h.rseg_act hm (hfresh a rfl) hid⟩
    · have hraw := Machine.rawStep hm
      cases hraw with
      | same hquiet hsame _ =>
        rw [record_of_quiet hquiet] at hok'
        exact List.Perm.of_eq (h.raw.rawEvents_of_same hok'.raw rfl hsame.raw)
      | take _ hsame _ => exact List.Perm.of_eq (h.raw.rawEvents_of_same hok'.raw rfl hsame.raw)
      | write _ _ hstate =>
        refine List.Perm.of_eq (h.raw.rawEvents_of_same hok'.raw rfl ?_)
        rw [hstate]
      | commit => cases hback
    · cases Machine.moveStep hm with
      | insert _ _ hmem _ _ =>
        have hnone : a.accepts X w.machine = [] := by
          cases a with
          | ingest => cases hback
          | _ => rfl
        rw [hmem, hnone, append_nil]
      | drain _ hdrains _ _ _ _ =>
        cases a with
        | ingest => cases hback
        | tickDrain => cases hback
        | _ => cases hdrains
      | take _ hmem _ _ => exact hmem
      | commit => cases hback
  | compactionStart now =>
    cases hnext
    exact ⟨List.Perm.refl _, rfl, fun _ _ => rfl⟩
  | compaction i uuid =>
    obtain ⟨-, hmem, -, -, hraw⟩ := Workers.compaction_cases (j := j) hnext
    refine ⟨?_, by rw [hmem], fun id _ => congrFun (h.rseg_compaction hnext) id⟩
    rcases hraw with ⟨hrecord, hraw⟩ | ⟨now, plan, plans, seg, ht, hpresent, hrecord, hraw⟩
    · rw [hrecord] at hok'
      exact List.Perm.of_eq (h.raw.rawEvents_of_same hok'.raw rfl hraw)
    · rw [hrecord] at hok'
      obtain ⟨-, -, hrows⟩ := h.ticks _ ht
      exact h.raw.rawEvents_of_swap hok'.raw rfl hpresent hraw
        (hrows (planListed_of_stillPresent h.raw.ids hpresent)) hdistinct

end Background

/-! ### What holds of a query -/

/-- The rollup segments that are left to read. -/
def RollupPhase.rollupsLeft : RollupPhase → List SegmentMeta
  | .rollups todo => todo
  | _ => []

/-- What a query has still to collect from these raw segments and the memtable. -/
def RollupQuery.left (s : State) (j : Journal) (q : RollupQuery) (todo : List String) :
    List UsageEvent :=
  (todo.flatMap j.rowsOf ++ s.mem.memtable.events).filter (inRange q.tailFrom q.plan.toMs)

/-- The matching events at or above the watermark, where the query started. -/
def RollupQuery.above (s₀ : State) (q : RollupQuery) : List UsageEvent :=
  (s₀.visible.filter fun e => q.watermark ≤ (e.timestampMs : ℤ)).filter (matchesPlan q.plan)

/-- The raw data of a query that started in `s₀` is complete, with what it has still to collect. -/
def RollupQuery.TailOk (s₀ s : State) (j : Journal) (q : RollupQuery) : Prop :=
  match q.phase with
  | .rollups _ => q.tail = []
  | .raw todo => (∀ id ∈ todo, id ∈ segmentIds j.published ∧ s.disk.seg id = some (j.rowsOf id)) ∧
      ((q.tail ++ q.left s j todo).filter (matchesPlan q.plan)).Perm (q.above s₀)
  | .finished => (q.tail.filter (matchesPlan q.plan)).Perm (q.above s₀)

/-- What holds beside a query that started in `s₀`. -/
structure Observed.Ok (X : Extern) (s₀ : State) (plan : QueryPlan) (o : Observed) : Prop where
  /-- The workers are in order. -/
  workers : o.workers.Ok X o.journal
  /-- There are the same raw events. -/
  raw : (o.workers.machine.state.disk.rawEvents o.workers.machine.state.mem.manifest).Perm
    (s₀.disk.rawEvents s₀.mem.manifest)
  /-- The memtable is the same. -/
  memtable : o.workers.machine.state.mem.memtable.events = s₀.mem.memtable.events
  /-- The rollup files are. -/
  rollups : ∀ id, s₀.disk.rseg id ≠ none → o.workers.machine.state.disk.rseg id = s₀.disk.rseg id
  /-- The plan is that of the start. -/
  samePlan : o.query.plan = plan
  /-- So is the watermark. -/
  watermark : o.query.watermark = s₀.mem.manifest.hourlyRollupMs
  /-- It reads rollup segments of the start. -/
  listed : ∀ seg ∈ o.query.phase.rollupsLeft, seg ∈ s₀.mem.manifest.rollupSegments
  /-- It has found, or will find, the records of the start. -/
  rolled : o.query.rolled ++ o.query.phase.rollupsLeft.flatMap (o.query.recordsOf X s₀.disk) =
    collectRollups X s₀ plan
  /-- It has found, or will find, the raw data above the watermark. -/
  tail : o.query.TailOk s₀ o.workers.machine.state o.journal

section Query

variable {s₀ : State} {plan : QueryPlan} {w w' : Workers} {j j' : Journal} {q q' : RollupQuery}

theorem Observed.ok_start (h : w.Ok X j) (plan : QueryPlan) :
    Observed.Ok X w.machine.state plan ⟨w, j, .start X plan w.machine.state.mem.manifest⟩ :=
  ⟨h, List.Perm.refl _, rfl, fun _ _ => rfl, rfl, rfl, fun _ hseg => mem_of_mem_filter hseg, rfl, rfl⟩

/-- A step in the background leaves what a query has to collect as it is. -/
theorem RollupQuery.TailOk.work (h : q.TailOk s₀ w.machine.state j) (hok : w.Ok X j) {l : Work}
    (hnext : w.next X cfg l = some w') (hback : w.background l = true)
    (hmem : w'.machine.state.mem.memtable.events = w.machine.state.mem.memtable.events) :
    q.TailOk s₀ w'.machine.state (w.record X j l) := by
  rw [RollupQuery.TailOk] at h ⊢
  split at h
  · exact h
  · obtain ⟨hfiles, hperm⟩ := h
    have hgrows := (Workers.record_grows (X := X) (w := w) (j := j) l).1
    have hrows := fun id hid => Journal.rowsOf_of_known hgrows (hfiles id hid).1
    refine ⟨fun id hid => ⟨?_, ?_⟩, ?_⟩
    · obtain ⟨new, hpub⟩ := hgrows
      rw [hpub, segmentIds_append]
      exact mem_append_left _ (hfiles id hid).1
    · rw [hrows id hid, ← (hfiles id hid).2]
      rcases hok.file_stays hnext (hfiles id hid).1 with hsame | hsweep
      · exact hsame
      · simp [Workers.background, hsweep] at hback
    · rw [RollupQuery.left, flatMap_congr hrows, hmem]
      exact hperm
  · exact h

/-- The records of a rollup segment of the start. -/
theorem Observed.Ok.recordsOf (h : o.Ok X s₀ plan)
    (hfiles : ∀ seg ∈ s₀.mem.manifest.rollupSegments, s₀.disk.rseg seg.segmentId ≠ none)
    {seg : SegmentMeta} (hseg : seg ∈ o.query.phase.rollupsLeft) :
    o.query.recordsOf X o.workers.machine.state.disk seg = o.query.recordsOf X s₀.disk seg := by
  rw [RollupQuery.recordsOf, Disk.rollupRecords, h.rollups _ (hfiles seg (h.listed seg hseg)),
    RollupQuery.recordsOf, Disk.rollupRecords]

/-- The raw data that is left to collect when the raw segments are listed. -/
theorem RollupQuery.left_eq (hraw : RawOk X w.machine.state j) (q : RollupQuery) :
    q.left w.machine.state j ((w.machine.state.mem.manifest.rawSegments.filter fun seg =>
        segmentOverlapsPlan X seg q.plan q.tailFrom q.plan.toMs
          w.machine.state.mem.manifest.buckets).map (·.segmentId)) =
      collectRawEvents X w.machine.state q.plan q.tailFrom q.plan.toMs := by
  rw [RollupQuery.left, collectRawEvents, filter_append, flatMap_map, filter_flatMap]
  congr 1
  refine flatMap_congr fun seg hseg => ?_
  rw [hraw.rows_of_listed (mem_of_mem_filter hseg)]

/-- **Every step of the query** keeps what holds of it. -/
theorem Observed.Ok.query (h : Observed.Ok X s₀ plan ⟨w, j, q⟩)
    (hfiles : ∀ seg ∈ s₀.mem.manifest.rollupSegments, s₀.disk.rseg seg.segmentId ≠ none)
    (hnext : q.next X w.machine.state = some q') : Observed.Ok X s₀ plan ⟨w, j, q'⟩ := by
  have hvisible : w.machine.state.visible.Perm s₀.visible := h.raw.append (List.Perm.of_eq h.memtable)
  have htail := h.tail
  have hlisted := h.listed
  have hrolled := h.rolled
  have hrecords :
      ∀ seg ∈ q.phase.rollupsLeft, q.recordsOf X w.machine.state.disk seg =
          q.recordsOf X s₀.disk seg :=
    fun _ => h.recordsOf hfiles
  obtain ⟨hworkers, hraw, hmem, hrseg, hplan, hwm, -, -, -⟩ := h
  dsimp only at *
  rw [RollupQuery.next] at hnext
  rw [RollupQuery.TailOk] at htail
  split at hnext
  · rename_i seg todo hphase
    cases hnext
    rw [hphase] at htail hlisted hrolled hrecords
    refine ⟨hworkers, hraw, hmem,
      hrseg, hplan, hwm, fun seg' hseg' => hlisted seg' (mem_cons_of_mem _ hseg'), ?_, htail⟩
    rw [← hrolled]
    rw [hrecords seg mem_cons_self, append_assoc]
    rfl
  · rename_i hphase
    rw [hphase] at htail hrolled
    split at hnext
    · rename_i hlt
      cases hnext
      refine ⟨hworkers, hraw, hmem, hrseg, hplan, hwm,
        fun _ hseg => absurd hseg not_mem_nil, hrolled, fun id hid => ?_, ?_⟩
      · obtain ⟨seg, hseg, rfl⟩ := mem_map.1 hid
        obtain ⟨rows, hrows⟩ := hworkers.raw.listed seg (mem_of_mem_filter hseg)
        refine ⟨mem_segmentIds hrows, ?_⟩
        rw [Journal.rowsOf_of_mem hworkers.raw.nodup hrows]
        exact hworkers.raw.file_of_listed hrows (mem_map_of_mem (mem_of_mem_filter hseg))
      · show ((q.tail ++ q.left w.machine.state j _).filter (matchesPlan q.plan)).Perm (q.above s₀)
        have hcollect := @filter_rawTail X q.plan _ hworkers.raw.sound_of_listed q.watermark
        rw [if_pos hlt] at hcollect
        rw [htail, nil_append, q.left_eq hworkers.raw]
        exact (List.Perm.of_eq hcollect).trans ((hvisible.filter _).filter _)
    · rename_i hge
      cases hnext
      refine ⟨hworkers, hraw, hmem, hrseg, hplan, hwm,
        fun _ hseg => absurd hseg not_mem_nil, hrolled, ?_⟩
      have hcollect := @filter_rawTail X q.plan _ hworkers.raw.sound_of_listed q.watermark
      rw [if_neg hge] at hcollect
      rw [htail]
      exact (List.Perm.of_eq hcollect).trans ((hvisible.filter _).filter _)
  · rename_i id todo hphase
    cases hnext
    rw [hphase] at htail hrolled
    obtain ⟨hknown, hperm⟩ := htail
    refine ⟨hworkers, hraw, hmem, hrseg, hplan, hwm, fun _ hseg => absurd hseg not_mem_nil, hrolled,
      fun id' hid' => hknown id' (mem_cons_of_mem _ hid'), ?_⟩
    refine (List.Perm.of_eq ?_).trans hperm
    rw [(hknown id mem_cons_self).2]
    simp only [RollupQuery.left, RollupQuery.tailFrom, Option.getD_some, flatMap_cons, filter_append,
      append_assoc]
  · rename_i hphase
    cases hnext
    rw [hphase] at htail hrolled
    refine ⟨hworkers, hraw, hmem, hrseg, hplan, hwm, fun _ hseg => absurd hseg not_mem_nil, hrolled, ?_⟩
    refine (List.Perm.of_eq ?_).trans htail.2
    simp only [RollupQuery.left, RollupQuery.tailFrom, flatMap_nil, nil_append]
  · cases hnext

/-- **Every step** keeps what holds of the query and beside it. -/
theorem ObservedStep.ok {o' : Observed} {l : ObservedAction} (h : o.Ok X s₀ plan)
    (hfiles : ∀ seg ∈ s₀.mem.manifest.rollupSegments, s₀.disk.rseg seg.segmentId ≠ none)
    (hids : ((s₀.disk.rawEvents s₀.mem.manifest).map (·.eventId)).Nodup)
    (hstep : ObservedStep X cfg o l o') :
    o'.Ok X s₀ plan := by
  cases hstep with
  | query hnext => exact h.query hfiles hnext
  | work hwork hfresh hback =>
    have hok' := hwork.ok h.workers
    obtain ⟨hraw, hmem, hrseg⟩ :=
      hwork.background h.workers hfresh hback ((h.raw.map _).nodup_iff.2 hids)
    obtain ⟨-, hnext, hjournal⟩ := hwork
    dsimp only at hnext hjournal hok'
    subst hjournal
    refine ⟨hok', hraw.trans h.raw, hmem.trans h.memtable,
      fun id hid => ?_, h.samePlan, h.watermark, h.listed, h.rolled,
      h.tail.work h.workers hnext hback hmem⟩
    have hsame := h.rollups id hid
    exact (hrseg id (hsame ▸ hid)).trans hsame

end Query

/-- **A rollup query answers from a snapshot.** Beside any steps of the rollup worker and of
compactions, with nothing accepted, flushed or swept meanwhile, a plan of sums over full hours that
does not ask for the kind is answered as it is from the raw events where the query started, if the
rollups cover the events below the watermark there, ids are different and quantities have a sum
that fits. What the records stand for and what is found in raw data are together the matching
events, each of them once. -/
theorem rollup_query_snapshot {w : Workers} {j : Journal} {plan : QueryPlan} {ls : List ObservedAction}
    (hok : w.Ok X j) (hcover : w.machine.state.RollupsCover X)
    (hids : ((w.machine.state.disk.rawEvents w.machine.state.mem.manifest).map (·.eventId)).Nodup)
    (hpos : ∀ e ∈ w.machine.state.disk.rawEvents w.machine.state.mem.manifest, 0 < (e.timestampMs : ℤ))
    (hdims : ∀ e ∈ w.machine.state.disk.rawEvents w.machine.state.mem.manifest, DimsRoundTrip X e)
    (habs : absQuantity w.machine.state.visible < 2 ^ 127)
    (hplan : plan.Hourly) (hsum : plan.SumsOnly) (hne : plan.groupBy ≠ [] ∨ plan.metrics.entries ≠ [])
    (hrun : Run (ObservedStep X cfg) ⟨w, j, .start X plan w.machine.state.mem.manifest⟩ ls o)
    (hfinished : o.query.phase = .finished) :
    o.query.answer = executePlan X w.machine.state { plan with source := .rawEvents } ∧
      ∃ below, (∀ k, SameTotals (inGroup plan k) o.query.rolled below) ∧
        ((below ++ o.query.tail).filter (matchesPlan plan)).Perm (w.machine.state.visible.filter
            (matchesPlan plan)) := by
  have hend : o.Ok X w.machine.state plan :=
    hrun.invariant (I := fun o => o.Ok X w.machine.state plan)
      (fun _ _ _ h hstep => hstep.ok h hcover.files hids)
      (Observed.ok_start hok plan)
  obtain ⟨srcs, hof, hsrc⟩ := hcover.sources
  have hsources : ∀ e ∈ srcs.flatten, 0 < (e.timestampMs : ℤ) := fun e he =>
    hpos e (mem_filter.1 (hsrc.subset he)).1
  have htail := hend.tail
  have hrolled : o.query.rolled ++ [] = collectRollups X w.machine.state plan := by
    have hrolled := hend.rolled
    rwa [hfinished] at hrolled
  rw [append_nil] at hrolled
  rw [RollupQuery.TailOk, hfinished, RollupQuery.above, hend.samePlan, hend.watermark] at htail
  have hbelow : ∀ k, SameTotals (inGroup plan k) o.query.rolled srcs.flatten := by
    intro k
    refine (sameTotals_sources hof hsrc hcover.memtable hplan hpos
      (fun e he _ => hdims e he) habs k).congr ?_
    rw [filter_inGroup, filter_inGroup, hrolled, filter_collectRollups hof hsources hcover.below]
  have habove : ∀ k, SameTotals (inGroup plan k) o.query.tail (w.machine.state.visible.filter fun e =>
      w.machine.state.mem.manifest.hourlyRollupMs ≤ (e.timestampMs : ℤ)) := by
    intro k
    refine (SameTotals.refl _ _).congr ?_
    rw [filter_inGroup, filter_inGroup]
    exact htail.filter _
  have hsplit := perm_sources_visible hsrc hcover.memtable
  refine ⟨?_, srcs.flatten, hbelow, ?_⟩
  · show aggregate o.query.plan (o.query.rolled ++ o.query.tail) =
      aggregate plan (collectRawEvents X w.machine.state plan plan.fromMs plan.toMs)
    rw [hend.samePlan]
    refine aggregate_congr hsum hne ?_
    rw [filter_rawEvents hok.raw.sound_of_listed]
    exact sameSums_of_totals (fun k => ((hbelow k).append (habove k)).perm hsplit) habs
  · refine List.Perm.trans ?_ (hsplit.filter (matchesPlan plan))
    rw [filter_append, filter_append]
    exact List.Perm.append_left _ htail

/-! ### Two queries -/

instance (buckets : ℕ) (seg : SegmentMeta × List HourlyRollupRecord) (src : List UsageEvent) :
    Decidable (RollupOf X buckets seg src) :=
  decidable_of_iff (seg.2 = buildRecords X src ∧ X.rollupChecksum seg.2 = seg.1.checksum ∧
      (∀ e ∈ src, e.hourMs = seg.1.minTimestampMs) ∧
        seg.1.maxTimestampMs = seg.1.minTimestampMs + HOUR_MS - 1 ∧
      ∀ e ∈ src, X.bucketForAccount e.accountId buckets = seg.1.bucket)
    ⟨fun ⟨hrecords, hchecksum, hhour, hmax, hbucket⟩ => ⟨hrecords, hchecksum, hhour, hmax, hbucket⟩,
      fun h => ⟨h.records, h.checksum, h.hour, h.maxTs, h.bucket⟩⟩

/-- A check that the rollups cover the events below the watermark: each segment has the records of
the raw events of its hour and bucket. -/
def State.checkCover (X : Extern) (s : State) : Bool :=
  let m := s.mem.manifest
  let srcs := m.rollupSegments.map fun seg => (s.disk.rawEvents m).filter fun e =>
    e.hourMs = seg.minTimestampMs && X.bucketForAccount e.accountId m.buckets = seg.bucket
  (∀ seg ∈ m.rollupSegments, s.disk.rseg seg.segmentId ≠ none) ∧
    List.Forall₂ (RollupOf X m.buckets) (s.disk.rollups X m) srcs ∧
    srcs.flatten.Perm ((s.disk.rawEvents m).filter fun e => e.timestampMs < m.hourlyRollupMs) ∧
    (∀ seg ∈ m.rollupSegments, seg.minTimestampMs < m.hourlyRollupMs) ∧
    ∀ e ∈ s.mem.memtable.events, m.hourlyRollupMs ≤ e.timestampMs

theorem State.rollupsCover_of_check {s : State} (h : s.checkCover X) : s.RollupsCover X := by
  obtain ⟨hfiles, hof, hperm, hbelow, hmem⟩ := of_decide_eq_true h
  exact ⟨hfiles, ⟨_, hof, hperm⟩, hbelow, hmem⟩

/-- The steps of the concrete runs: they draw no names but those of compactions. -/
def ObservedAction.plain : ObservedAction → Bool
  | .work (.act .tickCommit) => true
  | .work (.compactionStart _) => true
  | .work (.compaction _ _) => true
  | .query => true
  | _ => false

/-- A step of the query, or one that is checked to be in the background. -/
def Observed.checkedNext (X : Extern) (cfg : Config) (o : Observed) : ObservedAction → Option Observed
  | .work l =>
    if l.checkFresh o.workers o.journal && o.workers.background l then
      (o.workers.next X cfg l).map fun w => ⟨w, o.workers.record X o.journal l, o.query⟩
    else none
  | .query => (o.query.next X o.workers.machine.state).map fun q => { o with query := q }

theorem Observed.run_checkedNext {ls : List ObservedAction} (hplain : ∀ l ∈ ls,
    l.plain = true) {o' : Observed}
    (h : runAll (Observed.checkedNext X cfg) o ls = some o') : Run (ObservedStep X cfg) o ls o' := by
  refine Run.of_runAll (fun l hl o o' hnext => ?_) h
  have hl := hplain l hl
  cases l with
  | query =>
    obtain ⟨q, hq, rfl⟩ := Option.map_eq_some_iff.1 hnext
    exact .query hq
  | work l =>
    rw [Observed.checkedNext] at hnext
    split at hnext
    · rename_i hcheck
      rw [Bool.and_eq_true] at hcheck
      obtain ⟨w, hw, rfl⟩ := Option.map_eq_some_iff.1 hnext
      refine .work ⟨Work.fresh_of_check ?_ hcheck.1, hw, rfl⟩ (fun a ha => ?_) hcheck.2
      · cases l with
        | act a => cases a <;> trivial
        | _ => trivial
      · subst ha
        cases a <;> trivial
    · cases hnext

/-- A request whose batch is flushed to one segment, under a name with this letter. -/
def flushEvents (events : List UsageEvent) (c : Char) : List Work :=
  [.ingest 9000000 sampleClock events, .send 0, .respond 0, .take (taggedUuid c), .write, .write,
    .commit, .delete, .delete].map .act

/-- A tick of the rollup worker, up to its commit; the names of its segments have this letter. -/
def scanUntil (now : ℤ) (c : Char) : List Work :=
  [.tickStart now, .tickActive, .tickAge, .tickTarget,
    .tickScan fun h b => taggedUuid c ((h / HOUR_MS).toNat + b)].map .act

/-- Two segments of the first hour are rolled up; a third is of the second hour, which a tick has
scanned and is about to commit. -/
def beforeQuery : List Work :=
  flushEvents [sampleEvent "a" "acme" 3700000 5] 'p' ++
    flushEvents [sampleEvent "b" "acme" 3800000 7] 'q' ++
    scanUntil 7260000 'k' ++ [.act .tickCommit] ++ flushEvents [sampleEvent "c" "acme" 7300000 2] 'r' ++
    scanUntil 10860000 'l'

/-- While a query runs, the second tick commits and the three segments are merged. -/
def duringQuery : List ObservedAction :=
  [.query, .work (.act .tickCommit), .work (.compactionStart 9000000)] ++
    (["", "", "", "", "", "m", "", "",
      ""].map fun uuid => .work (.compaction 0 uuid)) ++ [.query, .query, .query]

/-- The plan over both hours, from rollups. -/
def sampleRollupSum : QueryPlan := { sampleSum with source := .rollupHourly }

theorem sampleRollupSum_hourly : sampleRollupSum.Hourly := by
  have hsum : sampleSum.Hourly := samplePlan_hourly _
  exact ⟨hsum.fromMs, hsum.toMs, hsum.filters, hsum.groupBy⟩

/-- What is checked of the state in which a query starts. -/
def Workers.checkStart (X : Extern) (w : Workers) : Bool :=
  let rows := w.machine.state.disk.rawEvents w.machine.state.mem.manifest
  w.machine.state.checkCover X ∧ (rows.map (·.eventId)).Nodup ∧
    ∀ e ∈ rows, 0 < (e.timestampMs : ℤ) ∧ X.dimsOfJson (X.dimsToJson e.dimensions) = some e.dimensions

/-- The second tick commits and the segments are merged while the query runs; it answers from its
start. -/
theorem rollup_query_snapshot_of_merge :
    ∃ w j o, Run (WorkersStep .sample tinyConfig)
        (.start .sample tinyConfig 8000000 fun _ => 8000000, .empty) beforeQuery (w, j) ∧
      Run (ObservedStep .sample tinyConfig)
        ⟨w, j, .start .sample sampleRollupSum w.machine.state.mem.manifest⟩ duringQuery o ∧
      w.machine.state.mem.manifest.hourlyRollupMs = 7200000 ∧
      o.workers.machine.state.mem.manifest.hourlyRollupMs = 10800000 ∧
      o.workers.machine.state.mem.manifest.rawIds = ["compacted_m"] ∧
      executePlan .sample w.machine.state { sampleRollupSum with source := .rawEvents } =
        [.object [("quantity", .string "14")]] ∧
      o.query.answer =
          executePlan .sample w.machine.state { sampleRollupSum with source := .rawEvents } := by
  have heval : (runAll (Workers.checkedNext .sample tinyConfig)
      (.start .sample tinyConfig 8000000 fun _ => 8000000, .empty) beforeQuery).any (fun b =>
        b.1.checkStart .sample ∧ absQuantity b.1.machine.state.visible < 2 ^ 127 ∧
        b.1.machine.state.mem.manifest.hourlyRollupMs = 7200000 ∧
        executePlan .sample b.1.machine.state { sampleRollupSum with source := .rawEvents } =
          [.object [("quantity", .string "14")]] ∧
        (runAll (Observed.checkedNext .sample tinyConfig)
          ⟨b.1, b.2, .start .sample sampleRollupSum b.1.machine.state.mem.manifest⟩
          duringQuery).any fun o =>
            o.query.phase = .finished ∧ o.workers.machine.state.mem.manifest.hourlyRollupMs = 10800000 ∧
            o.workers.machine.state.mem.manifest.rawIds = ["compacted_m"]) = true := by decide +kernel
  obtain ⟨⟨w, j⟩, hall, hview⟩ := (Option.any_eq_true _ _).1 heval
  obtain ⟨hstart, habs, hwm, hraw, hquery⟩ := of_decide_eq_true hview
  obtain ⟨o, hquery, hend⟩ := (Option.any_eq_true _ _).1 hquery
  obtain ⟨hfinished, hwm', hids'⟩ := of_decide_eq_true hend
  obtain ⟨hcover, hids, hrows⟩ := of_decide_eq_true hstart
  have hdraws : ∀ l ∈ beforeQuery, l.DrawsTagged := by
    simp [beforeQuery, flushEvents, scanUntil, Work.DrawsTagged]
  have hbefore := Workers.run_checkedNext hdraws hall
  have hok : w.Ok .sample j := hbefore.invariant (I := fun b => b.1.Ok .sample b.2)
    (fun _ _ _ h hstep => hstep.ok h) (Workers.ok_start _ _ _ _)
  have hrun := Observed.run_checkedNext (by decide) hquery
  exact ⟨w, j, o, hbefore, hrun, hwm, hwm', hids', hraw,
    (rollup_query_snapshot hok (State.rollupsCover_of_check hcover) hids (fun e he => (hrows e he).1)
      (fun e he => (hrows e he).2) habs sampleRollupSum_hourly (by decide)
        (Or.inr (by decide)) hrun hfinished).1⟩

/-- A segment with an event of the first hour and two of the second, which is rolled up. The
quantities are as large as they can be, the last one negative. -/
def largeQuantities : List Work :=
  flushEvents [sampleEvent "a" "acme" 3700000 (2 ^ 127 - 1),
    sampleEvent "b" "acme" 7300000 (2 ^ 127 - 1),
    sampleEvent "c" "acme" 7400000 (-2 ^ 127 + 1)] 'p' ++ scanUntil 10860000 'k' ++ [.act .tickCommit]

/-- **Sums that saturate depend on how the events are put together.** The raw sum saturates at the
second event, and the third takes it to 0; the rollup of the second hour is 0, and the first is
left. -/
theorem saturated_rollup_sum :
    ∃ w j o, Run (WorkersStep .sample tinyConfig)
        (.start .sample tinyConfig 8000000 fun _ => 8000000, .empty) largeQuantities (w, j) ∧
      w.machine.state.RollupsCover .sample ∧
      ((w.machine.state.disk.rawEvents w.machine.state.mem.manifest).map (·.eventId)).Nodup ∧
      sampleRollupSum.Hourly ∧ sampleRollupSum.SumsOnly ∧ sampleRollupSum.metrics.entries ≠ [] ∧
      Run (ObservedStep .sample tinyConfig)
        ⟨w, j, .start .sample sampleRollupSum w.machine.state.mem.manifest⟩
          (List.replicate 3 .query) o ∧
      o.query.phase = .finished ∧
      o.query.answer ≠
        executePlan .sample w.machine.state { sampleRollupSum with source := .rawEvents } := by
  have heval : (runAll (Workers.checkedNext .sample tinyConfig)
      (.start .sample tinyConfig 8000000 fun _ => 8000000, .empty) largeQuantities).any (fun b =>
        b.1.checkStart .sample ∧
        (runAll (Observed.checkedNext .sample tinyConfig)
          ⟨b.1, b.2, .start .sample sampleRollupSum b.1.machine.state.mem.manifest⟩
            (List.replicate 3 .query)).any
            fun o => o.query.phase = .finished ∧
              o.query.answer ≠ executePlan .sample
                b.1.machine.state { sampleRollupSum with source := .rawEvents }) =
      true := by decide +kernel
  obtain ⟨⟨w, j⟩, hall, hview⟩ := (Option.any_eq_true _ _).1 heval
  obtain ⟨hstart, hquery⟩ := of_decide_eq_true hview
  obtain ⟨o, hquery, hend⟩ := (Option.any_eq_true _ _).1 hquery
  obtain ⟨hfinished, hne⟩ := of_decide_eq_true hend
  obtain ⟨hcover, hids, -⟩ := of_decide_eq_true hstart
  have hdraws : ∀ l ∈ largeQuantities, l.DrawsTagged := by
    simp [largeQuantities, flushEvents, scanUntil, Work.DrawsTagged]
  exact ⟨w, j, o, Workers.run_checkedNext hdraws hall, State.rollupsCover_of_check hcover, hids,
    sampleRollupSum_hourly,
    by decide, by decide, Observed.run_checkedNext (by decide) hquery, hfinished, hne⟩

end UsageDb
