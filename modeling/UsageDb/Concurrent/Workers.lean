import UsageDb.Concurrent.Durability
import UsageDb.Runtime.Frame

/-!
# Compaction beside the other parties

`Concurrent.Machine` has the requests, the flusher and the rollup worker. Here any number of
compaction ticks run beside them, cut at the places where they hold no lock.

A **tick** reads the replacements whose grace period is over and deletes their old files one by
one; under the manifest's lock it drops the records and saves. It reads the manifest and makes
its plans. For each plan it reads the input files one by one, merges them, and writes the output
file and its sidecar; under the lock it looks whether all inputs are still listed, and switches
the manifest over and saves, or else deletes the output again.

The *journal* is bookkeeping that no party reads: the accepted events, every raw segment that was
ever listed with its rows, those the flusher is about to list, the names of those that a flush has
listed, and the inputs of the compactions that were committed.
-/

namespace UsageDb

open Lib

variable {a : Action}

/-- Where a compaction tick is. -/
inductive CompactionPhase where
  /-- It deletes the old files of the replacements `done`; `todo` is left to delete. -/
  | sweeping (now : ℤ) (done : List ReplacementRecord) (todo : List String)
  /-- It has swept. -/
  | planning (now : ℤ)
  /-- It has these plans to run. -/
  | running (now : ℤ) (plans : List CompactionPlan)
  /-- It has read `got` and has the inputs `todo` left to read. -/
  | reading (now : ℤ) (plan : CompactionPlan) (plans : List CompactionPlan) (todo : List String)
      (got : List UsageEvent)
  /-- It writes the output; `todo` is left to write. -/
  | writing (now : ℤ) (plan : CompactionPlan) (plans : List CompactionPlan) (seg : Segment)
      (todo : List Effect)

namespace CompactionPhase

/-- The segment that is being written. -/
def output : CompactionPhase → List Segment
  | .writing _ _ _ seg _ => [seg]
  | _ => []

/-- A tick starts: the replacements to finalize are read. -/
def start (cfg : Config) (now : ℤ) (m : Manifest) : CompactionPhase :=
  let done := m.toFinalize cfg.compactionGraceMs now
  if done.isEmpty then .planning now else .sweeping now done (done.flatMap (·.oldSegments))

/-- The merge of what was read, under a new name. -/
def merge (X : Extern) (uuid : String) (plan : CompactionPlan) (got : List UsageEvent) : Segment :=
  let deduped := sortAndDedupe got
  (buildSegmentMeta (compactedSegmentId uuid) deduped plan.bucket (X.segmentChecksum deduped), deduped)

/-- The next step of a tick: what it does, and where the tick is then; `none` when it is over.
The name is used when an output is begun. -/
def next (X : Extern) (cfg : Config) (uuid : String) (s : State) : CompactionPhase →
    Outcome × Option CompactionPhase
  | .sweeping now done (id :: todo) =>
    (⟨if (s.disk.seg id).isSome then [.segRemove id] else [], s.mem⟩, some (.sweeping now done todo))
  | .sweeping now done [] =>
    let m := (s.mem.manifest.dropReplacements done).saved
    (⟨[.manifestSave m], { s.mem with manifest := m }⟩, some (.planning now))
  | .planning now =>
    (.skip s, some (.running now (planCompaction cfg.compactionMaxSmallSegments
      s.mem.manifest.rawSegments)))
  | .running _ [] => (.skip s, none)
  | .running now (plan :: plans) => (.skip s, some (.reading now plan plans plan.segmentIds []))
  | .reading now plan plans (id :: todo) got =>
    (.skip s, some (.reading now plan plans todo (got ++ (s.disk.seg id).getD [])))
  | .reading now plan plans [] got =>
    let seg := merge X uuid plan got
    (.skip s, some (if seg.2.isEmpty then .running now plans else .writing now plan plans seg
      (segmentEffects X [seg])))
  | .writing now plan plans seg (x :: todo) => (⟨[x], s.mem⟩, some (.writing now plan plans seg todo))
  | .writing now plan plans seg [] =>
    if s.mem.manifest.stillPresent plan then
      let m := (s.mem.manifest.swap plan seg.1 now).saved
      (⟨[.manifestSave m], { s.mem with manifest := m }⟩, some (.running now plans))
    else (⟨[.segRemove seg.1.segmentId], s.mem⟩, some (.running now plans))

end CompactionPhase

/-- The server with the compaction ticks that run. -/
structure Workers where
  /-- Requests, the flusher and the rollup worker, and the shared state. -/
  machine : Machine
  ticks : List CompactionPhase

/-- What happens next. -/
inductive Work where
  /-- One of the other parties takes a step. -/
  | act (a : Action)
  /-- A compaction tick starts. -/
  | compactionStart (now : ℤ)
  /-- The `i`-th tick takes a step; this is the name it draws if it needs one. -/
  | compaction (i : ℕ) (uuid : String)

/-- What has happened. -/
structure Journal where
  /-- The events that were accepted. -/
  book : Multiset UsageEvent
  /-- The raw segments that were ever listed. -/
  published : List Segment
  /-- The segments the flusher is writing. -/
  flushing : List Segment
  /-- The names of the segments that a flush has listed. -/
  flushed : List String
  /-- The inputs of the compactions that were committed. -/
  merged : List (List String)

/-- The segments of the next message to the flusher. -/
def Machine.toFlush (X : Extern) (uuid : ℕ → String) (m : Machine) : List Segment :=
  m.state.mem.queue.head?.elim []
    fun msg => flushSegments X uuid m.state.mem.manifest.buckets msg.events

namespace Workers

variable (X : Extern) (cfg : Config)

/-- The server as it has just started on an empty disk. -/
def start (now : ℤ) (clk : ℕ → ℤ) : Workers := ⟨.start X cfg now clk .empty [], []⟩

/-- One step. -/
def next (w : Workers) : Work → Option Workers
  | .act a => (w.machine.next X cfg a).map fun m => { w with machine := m }
  | .compactionStart now =>
    some { w with ticks := w.ticks ++ [.start cfg now w.machine.state.mem.manifest] }
  | .compaction i uuid =>
    w.ticks[i]?.map fun t =>
      let r := t.next X cfg uuid w.machine.state
      { machine := w.machine.after r.1
        ticks := match r.2 with
          | some t' => w.ticks.set i t'
          | none => w.ticks.eraseIdx i }

/-- What a step adds to the journal. -/
def record (w : Workers) (j : Journal) : Work → Journal
  | .act (.take uuid) => { j with flushing := w.machine.toFlush X uuid }
  | .act .commit =>
    { j with
      published := j.published ++ j.flushing
      flushing := []
      flushed := j.flushed ++ j.flushing.map (·.1.segmentId) }
  | .act a => { j with book := j.book + ↑(a.accepts X w.machine) }
  | .compaction i _ =>
    match w.ticks[i]? with
    | some (.writing _ plan _ seg []) =>
      if w.machine.state.mem.manifest.stillPresent plan then
        { j with published := j.published ++ [seg], merged := j.merged ++ [plan.segmentIds] }
      else j
    | _ => j
  | .compactionStart _ => j

/-- The segments that are being written. -/
def pending (w : Workers) (j : Journal) : List Segment := j.flushing ++ w.ticks.flatMap (·.output)

/-- The names that are in use or were. -/
def names (w : Workers) (j : Journal) : List String := (j.published ++ w.pending j).map (·.1.segmentId)

end Workers

/-- The names that are drawn are new. -/
def Work.Fresh (w : Workers) (j : Journal) : Work → Prop
  | .act (.take uuid) => (∀ b, rawSegmentId (uuid b) ∉ w.names j) ∧ Function.Injective uuid
  | .compaction _ uuid => compactedSegmentId uuid ∉ w.names j
  | _ => True

/-- The journal at the start. -/
def Journal.empty : Journal := ⟨0, [], [], [], []⟩

/-- A step, with the journal. -/
structure WorkersStep (X : Extern) (cfg : Config) (a : Workers × Journal) (l : Work)
    (b : Workers × Journal) : Prop where
  /-- The names are new. -/
  fresh : l.Fresh a.1 a.2
  /-- The step is taken. -/
  next : a.1.next X cfg l = some b.1
  /-- It is written down. -/
  journal : b.2 = a.1.record X a.2 l

/-! ### What the other parties do to the shared state -/

/-- What a step of another party does to the disk and the shared memory. -/
inductive Machine.Does (X : Extern) (m : Machine) (o : Outcome) : Action → Prop where
  /-- It leaves the manifest alone, and works at most on the log. -/
  | log {a : Action} : o.OnLog m.state → Does X m o a
  /-- The flusher writes a file. -/
  | write {msg : FlushMessage} {metas : List SegmentMeta} {x : Effect} {todo : List Effect} :
      m.flusher = .writing msg metas (x :: todo) → o = ⟨[x], m.state.mem⟩ → Does X m o .write
  /-- The flusher lists its segments. -/
  | commit {msg : FlushMessage} {metas : List SegmentMeta} {manifest : Manifest} :
      manifest = (m.state.mem.manifest.commitFlush metas msg.sealedWalId).saved →
      o = ⟨[.manifestSave manifest], { m.state.mem with manifest }⟩ → Does X m o .commit
  /-- Rollup segments are written. -/
  | scan {uuid : ℤ → ℕ → String} {snap : TickSnapshot} {target : ℤ} :
      o = ⟨rollupEffects (newRollups X m.state.disk snap uuid snap.start target), m.state.mem⟩ →
      Does X m o (.tickScan uuid)
  /-- They are listed. -/
  | tickCommit {segs : List SegmentMeta} {target : ℤ} {manifest : Manifest} :
      manifest = (m.state.mem.manifest.commitRollup segs target).saved →
      o = ⟨[.manifestSave manifest], { m.state.mem with manifest }⟩ → Does X m o .tickCommit

section Does

variable {X : Extern} {cfg : Config} {m m' : Machine}

theorem Mem.drainIf_manifest (mem : Mem) (cond : Bool) : (mem.drainIf cond).mem.manifest =
    mem.manifest := by
  unfold Mem.drainIf
  split <;> rfl

/-- A step that leaves disk and manifest alone. -/
theorem Machine.does_of_same (hdisk : m'.state.disk = m.state.disk)
    (hmanifest : m'.state.mem.manifest = m.state.mem.manifest) : ∃ o, m.Does X o a ∧
      m'.state = o.state m.state := by
  refine ⟨⟨[], m'.state.mem⟩, .log ⟨hmanifest, fun x hx => by cases hx⟩, ?_⟩
  rw [Outcome.state, Disk.applyAll_nil, ← hdisk]

/-- Every step of another party is one of these. -/
theorem Machine.does (h : m.next X cfg a = some m') : ∃ o, m.Does X o a ∧
    m'.state = o.state m.state := by
  cases Machine.next_cases h with
  | @ingest _ clk events =>
    exact ⟨(ingestCriticalSection X cfg clk m.state
      (classifiedEvents X m.state.mem.manifest.closedPeriods clk.now events)).1,
      .log ⟨Mem.drainIf_manifest _ _, (onLog_ingest m.state clk events).effects⟩, rfl⟩
  | write hwriting => exact ⟨_, .write hwriting rfl, rfl⟩
  | commit _ hmanifest => exact ⟨_, .commit hmanifest rfl, rfl⟩
  | @delete id => exact ⟨⟨[.walDelete id], m.state.mem⟩, .log ⟨rfl, by simp [Effect.OnLog]⟩, rfl⟩
  | tickDrain =>
    have hlog := onLog_drainIf m.state (!m.state.mem.memtable.events.isEmpty)
    exact ⟨⟨(forceDrain m.state).effects, (forceDrain m.state).mem⟩, .log ⟨Mem.drainIf_manifest _ _,
      hlog.effects⟩, rfl⟩
  | tickScan _ hsegs =>
    subst hsegs
    exact ⟨_, .scan rfl, rfl⟩
  | tickCommit _ hmanifest => exact ⟨_, .tickCommit hmanifest rfl, rfl⟩
  | _ => exact Machine.does_of_same rfl rfl

end Does

/-! ### What the other parties do to raw segments -/

/-- The raw segments are the same. -/
structure Machine.SameRaw (m m' : Machine) : Prop where
  /-- The files. -/
  seg : m'.state.disk.seg = m.state.disk.seg
  /-- The list. -/
  raw : m'.state.mem.manifest.rawSegments = m.state.mem.manifest.rawSegments
  replaced : m'.state.mem.manifest.compactedReplacements = m.state.mem.manifest.compactedReplacements
  /-- The number of buckets. -/
  bucketCount : m'.state.mem.manifest.bucketCount = m.state.mem.manifest.bucketCount

/-- The metadata that the flusher is going to list, and what it has left to write. -/
def FlushPhase.work : FlushPhase → Option (List SegmentMeta × List Effect)
  | .writing _ metas todo => some (metas, todo)
  | _ => none

/-- The steps that leave the work of the flusher alone, or do one more part of it. -/
def Action.quiet : Action → Bool
  | .take _ => false
  | .commit => false
  | _ => true

/-- What a step of another party does to raw segments. -/
inductive Machine.RawStep (X : Extern) (m m' : Machine) : Action → Prop where
  /-- Nothing. -/
  | same {a : Action} : a.quiet → m.SameRaw m' → m'.flusher.work = m.flusher.work → RawStep X m m' a
  /-- The flusher takes a message. -/
  | take {uuid : ℕ → String} : m.flusher.work = none → m.SameRaw m' →
      (m.toFlush X uuid = [] ∧ m'.flusher.work = none ∨
        m'.flusher.work = some ((m.toFlush X uuid).map (·.1), segmentEffects X (m.toFlush X uuid))) →
      RawStep X m m' (.take uuid)
  /-- The flusher writes a file. -/
  | write {metas : List SegmentMeta} {x : Effect} {todo : List Effect} :
      m.flusher.work = some (metas, x :: todo) →
      m'.flusher.work = some (metas, todo) → m'.state = ⟨m.state.disk.apply x, m.state.mem⟩ →
        RawStep X m m' .write
  | commit {metas : List SegmentMeta} : m.flusher.work = some (metas, []) → m'.flusher.work = none →
      m'.state.disk.seg = m.state.disk.seg →
      m'.state.mem.manifest.rawSegments = m.state.mem.manifest.rawSegments ++ metas →
      m'.state.mem.manifest.compactedReplacements = m.state.mem.manifest.compactedReplacements →
      m'.state.mem.manifest.bucketCount = m.state.mem.manifest.bucketCount → RawStep X m m' .commit

section RawStep

variable {X : Extern} {cfg : Config} {m m' : Machine}

/-- Work on the log leaves raw segments alone. -/
theorem Machine.SameRaw.onLog {o : Outcome} (ho : o.OnLog m.state) (hdisk :
    m'.state.disk = (o.state m.state).disk)
    (hman : m'.state.mem.manifest = m.state.mem.manifest) : m.SameRaw m' := by
  obtain ⟨hseg, -⟩ := Disk.applyAll_onLog ho.effects m.state.disk
  exact ⟨by rw [hdisk]; exact hseg, by rw [hman], by rw [hman], by rw [hman]⟩

theorem Machine.toFlush_of_queue {uuid : ℕ → String} {msg : FlushMessage} {rest : List FlushMessage}
    (h : m.state.mem.queue = msg :: rest) :
    m.toFlush X uuid = flushSegments X uuid m.state.mem.manifest.buckets msg.events := by
  rw [Machine.toFlush, h]
  rfl

/-- Every step of another party is one of these. -/
theorem Machine.rawStep (h : m.next X cfg a = some m') : m.RawStep X m' a := by
  cases Machine.next_cases h with
  | @ingest _ clk events =>
    refine .same rfl ?_ rfl
    exact Machine.SameRaw.onLog (onLog_ingest m.state clk events) rfl (Mem.drainIf_manifest _ _)
  | take hidle hqueue hflusher =>
    have hwork : m.flusher.work = none := by rw [hidle]; rfl
    obtain ⟨hempty, rfl⟩ | rfl := hflusher
    · refine .take hwork ⟨rfl, rfl, rfl, rfl⟩ (.inl ⟨?_, rfl⟩)
      rw [Machine.toFlush_of_queue hqueue, hempty]
      rfl
    · refine .take hwork ⟨rfl, rfl, rfl, rfl⟩ (.inr ?_)
      rw [Machine.toFlush_of_queue hqueue]
      rfl
  | write hwriting => exact .write (by rw [hwriting]; rfl) rfl rfl
  | commit hwriting hmanifest =>
    subst hmanifest
    exact .commit (by rw [hwriting]; rfl) rfl rfl rfl rfl rfl
  | delete hdeleting | deleted hdeleting
      => exact .same rfl ⟨rfl, rfl, rfl, rfl⟩ (by rw [hdeleting]; rfl)
  | tickDrain =>
    have hlog := onLog_drainIf m.state (!m.state.mem.memtable.events.isEmpty)
    exact .same rfl (Machine.SameRaw.onLog hlog rfl (Mem.drainIf_manifest _ _)) rfl
  | tickScan => exact .same rfl ⟨(rollupEffects_files _ _).1, rfl, rfl, rfl⟩ rfl
  | tickCommit _ hmanifest =>
    subst hmanifest
    exact .same rfl ⟨rfl, rfl, rfl, rfl⟩ rfl
  | _ => exact .same rfl ⟨rfl, rfl, rfl, rfl⟩ rfl

end RawStep

end UsageDb
