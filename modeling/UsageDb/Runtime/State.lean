import UsageDb.Ingest.Dedupe
import UsageDb.Ingest.Memtable
import UsageDb.Ingest.Wal
import UsageDb.Rollup.Builder
import UsageDb.Storage.Manifest

/-!
# The state of the database

`src/runtime/state.rs` and `src/runtime/config.rs`, and the disk under them.

A file is modelled by what reading it back gives: a log file by its events, a raw
segment by its rows, a sidecar by its entries, a rollup segment by its records.
(That the columnar format gives the rows back is proved in `Storage.SegmentRoundTrip`,
and that the log's lines give the events back in `Ingest.WalFile`.)

Every change an operation makes to the disk is an `Effect`, one durable step. An
operation yields the effects it makes, in order, and the memory it leaves; a crash cuts
the list of effects at any place and loses the memory.
-/

namespace UsageDb

open Lib

/-- `Config`, the fields the modelled operations read. -/
structure Config where
  maxMemtableSizeBytes : ℕ
  dedupeCapacity : ℕ
  defaultBucketCount : ℕ
  rollupSafetyLagMs : ℤ
  compactionGraceMs : ℤ
  compactionMaxSmallSegments : ℕ
  memtableMaxAgeMs : ℤ

/-- A configuration for concrete runs. -/
def sampleConfig : Config where
  maxMemtableSizeBytes := 100000
  dedupeCapacity := 100
  defaultBucketCount := 2
  rollupSafetyLagMs := 60000
  compactionGraceMs := 0
  compactionMaxSmallSegments := 2
  memtableMaxAgeMs := 600000

/-- `FlushMessage`: a drained memtable and the log file that was sealed with it. -/
structure FlushMessage where
  events : List UsageEvent
  sealedWalId : ℕ
  deriving DecidableEq

/-- One row of a sidecar: `(event_id_hash, payload_hash, ingested_at_ms)`. -/
abbrev IndexEntry := EventHash × EventHash × I64

/-- The row of a sidecar for an event. -/
def indexEntry (X : Extern) (e : UsageEvent) : IndexEntry :=
  (X.idHash e, X.payloadHash e, e.ingestedAtMs)

/-- The files of the database. -/
structure Disk where
  /-- The log. -/
  wal : WalDir (List UsageEvent)
  /-- `<id>.seg`. -/
  seg : String → Option (List UsageEvent)
  /-- `<id>.idx`. -/
  idx : String → Option (List IndexEntry)
  /-- `<id>.rseg`. -/
  rseg : String → Option (List HourlyRollupRecord)
  /-- What `Manifest::load` returns. -/
  manifest : Option Manifest

/-- A disk with nothing on it. -/
def Disk.empty : Disk := ⟨[], fun _ => none, fun _ => none, fun _ => none, none⟩

/-- A durable step. -/
inductive Effect where
  /-- `append_batch` and the sync after it. -/
  | walAppend (id : ℕ) (events : List UsageEvent)
  /-- A log file is opened for appending. -/
  | walCreate (id : ℕ)
  /-- A log file is deleted. -/
  | walDelete (id : ℕ)
  /-- A raw segment is written. -/
  | segWrite (id : String) (rows : List UsageEvent)
  /-- A raw segment is deleted. -/
  | segRemove (id : String)
  /-- A sidecar is written. -/
  | idxWrite (id : String) (entries : List IndexEntry)
  /-- A rollup segment is written. -/
  | rsegWrite (id : String) (records : List HourlyRollupRecord)
  /-- A rollup segment is deleted. -/
  | rsegRemove (id : String)
  /-- `Manifest::save` has succeeded. -/
  | manifestSave (m : Manifest)

/-- What a step does to the disk. -/
def Disk.apply (d : Disk) : Effect → Disk
  | .walAppend id events => { d with wal := d.wal.modify id (· ++ events) }
  | .walCreate id => { d with wal := d.wal.create id [] }
  | .walDelete id => { d with wal := d.wal.filter fun f => f.1 ≠ id }
  | .segWrite id rows => { d with seg := Function.update d.seg id (some rows) }
  | .segRemove id => { d with seg := Function.update d.seg id none }
  | .idxWrite id entries => { d with idx := Function.update d.idx id (some entries) }
  | .rsegWrite id records => { d with rseg := Function.update d.rseg id (some records) }
  | .rsegRemove id => { d with rseg := Function.update d.rseg id none }
  | .manifestSave m => { d with manifest := some m }

/-- The disk after the effects, in order. -/
def Disk.applyAll (d : Disk) (es : List Effect) : Disk := es.foldl Disk.apply d

@[simp] theorem Disk.applyAll_nil (d : Disk) : d.applyAll [] = d := rfl

@[simp] theorem Disk.applyAll_cons (d : Disk) (x : Effect) (es : List Effect) :
    d.applyAll (x :: es) = (d.apply x).applyAll es := rfl

@[simp] theorem Disk.applyAll_append (d : Disk) (es es' : List Effect) :
    d.applyAll (es ++ es') = (d.applyAll es).applyAll es' := List.foldl_append

/-- The memory of the process: `AppStateInner`, with the channel to the flusher. -/
structure Mem where
  manifest : Manifest
  dedupe : HotDedupe
  memtable : Memtable
  /-- `wal.active_id`. -/
  activeId : ℕ
  /-- The messages sent to the flusher and not yet taken by it. -/
  queue : List FlushMessage

/-- The database while it runs. -/
structure State where
  disk : Disk
  /-- The memory. -/
  mem : Mem

/-- What an operation does: its durable steps in order, and the memory it leaves. -/
structure Outcome where
  /-- The steps. -/
  effects : List Effect
  /-- The memory at the end. -/
  mem : Mem

/-- The state after the operation has run to its end. -/
def Outcome.state (o : Outcome) (s : State) : State := ⟨s.disk.applyAll o.effects, o.mem⟩

/-- An operation that changes nothing. -/
def Outcome.skip (s : State) : Outcome := ⟨[], s.mem⟩

/-- One operation after another. -/
def Outcome.andThen (o : Outcome) (s : State) (next : State → Outcome) : Outcome :=
  ⟨o.effects ++ (next (o.state s)).effects, (next (o.state s)).mem⟩

@[simp] theorem Outcome.skip_state (s : State) : (Outcome.skip s).state s = s := rfl

@[simp] theorem Outcome.andThen_state (o : Outcome) (s : State) (next : State → Outcome) :
    (o.andThen s next).state s = (next (o.state s)).state (o.state s) := by
  simp [Outcome.state, Outcome.andThen]

/-! ### What the disk holds -/

/-- The rows of a raw segment, none when its file is missing. -/
def Disk.rows (d : Disk) (m : SegmentMeta) : List UsageEvent := (d.seg m.segmentId).getD []

/-- A raw segment: its metadata and its rows. -/
abbrev Segment := SegmentMeta × List UsageEvent

/-- The metadata is that of the rows, which are of the segment's bucket. -/
structure SegmentSound (X : Extern) (buckets : ℕ) (seg : Segment) : Prop where
  metadata : seg.1 = buildSegmentMeta seg.1.segmentId seg.2 seg.1.bucket (X.segmentChecksum seg.2)
  bucket : ∀ e ∈ seg.2, X.bucketForAccount e.accountId buckets = seg.1.bucket

/-- What holds of every raw segment a manifest lists: its file is there, its metadata was
computed from the rows, all rows are of its bucket, and its sidecar, if there is one, has
the hashes of the rows. -/
structure SegmentOk (X : Extern) (d : Disk) (buckets : ℕ) (m : SegmentMeta) : Prop where
  /-- The file exists. -/
  file : d.seg m.segmentId = some (d.rows m)
  metadata : m = buildSegmentMeta m.segmentId (d.rows m) m.bucket (X.segmentChecksum (d.rows m))
  /-- The rows are of the segment's bucket. -/
  bucket : ∀ e ∈ d.rows m, X.bucketForAccount e.accountId buckets = m.bucket
  /-- The rows have passed validation. -/
  positive : ∀ e ∈ d.rows m, 0 < (e.timestampMs : ℤ)
  /-- The sidecar belongs to the rows. -/
  sidecar : ∀ entries, d.idx m.segmentId = some entries → entries = (d.rows m).map (indexEntry X)

theorem SegmentOk.sound {X : Extern} {d : Disk} {buckets : ℕ} {m : SegmentMeta}
    (h : SegmentOk X d buckets m) :
    SegmentSound X buckets (m, d.rows m) := ⟨h.metadata, h.bucket⟩

/-- The rows of the raw segments of a manifest. -/
def Disk.rawEvents (d : Disk) (m : Manifest) : List UsageEvent := m.rawSegments.flatMap d.rows

/-- The events of the log files above the seal of a manifest. -/
def Disk.walEvents (d : Disk) (sealed : ℕ) : List UsageEvent := (d.wal.after sealed).flatMap (·.2)

end UsageDb
