import UsageDb.Runtime.State

/-!
# The flusher

`src/ingest/flusher.rs`: a message is split by bucket, each bucket is written as one
sorted segment with its sidecar, the manifest is saved with the new segments and the
seal, and the log files up to the seal are deleted.

Which writes succeed is an argument (`FlushIo`), so one definition serves the runs
without I/O errors and the statements about failed flushes. The random part of a
segment's name is an argument too.
-/

namespace UsageDb

open Lib List

/-- Which steps of a flush succeed. -/
structure FlushIo where
  /-- `write_bucket` of this bucket. -/
  writeOk : ℕ → Bool
  /-- `write_dedupe_index` of this bucket; its failure is not fatal. -/
  indexOk : ℕ → Bool
  /-- `Manifest::save`. -/
  saveOk : Bool

/-- Every step succeeds. -/
def FlushIo.ok : FlushIo := ⟨fun _ => true, fun _ => true, true⟩

/-- Why a flush failed. -/
inductive FlushReason where
  /-- The segment of this bucket could not be written. -/
  | writeBucket (bucket : ℕ)
  /-- The manifest could not be saved. -/
  | manifestSave
  deriving DecidableEq

/-- `FlushFailure`: the events to put back into the memtable, and why. -/
structure FlushFailure where
  events : List UsageEvent
  reason : FlushReason
  deriving DecidableEq

section

variable (X : Extern)

/-- The events of a message by bucket, in the order of the buckets (`by_bucket`). -/
def byBucket (buckets : ℕ) (events : List UsageEvent) : List (ℕ × List UsageEvent) :=
  groups (fun e => X.bucketForAccount e.accountId buckets) events

/-- The name of a flushed segment. -/
def rawSegmentId (uuid : String) : String := "raw_" ++ uuid

/-- What `write_bucket` makes of a bucket's events: the metadata and the rows of its
segment. -/
def bucketSegment (uuid : ℕ → String) (bucket : ℕ) (events : List UsageEvent) :
    SegmentMeta × List UsageEvent :=
  let sorted := sortEventsCanonical events
  (buildSegmentMeta (rawSegmentId (uuid bucket)) sorted bucket (X.segmentChecksum sorted), sorted)

/-- The durable steps of `write_bucket`: the segment, then its sidecar if that succeeds. -/
def bucketEffects (io : FlushIo) (bucket : ℕ) (seg : SegmentMeta × List UsageEvent) : List Effect :=
  .segWrite seg.1.segmentId seg.2 ::
    (if io.indexOk bucket then [.idxWrite seg.1.segmentId (seg.2.map (indexEntry X))] else [])

/-- `rollback_partial`: the segments written so far are deleted (their sidecars are not). -/
def rollbackPartial (metas : List SegmentMeta) : List Effect :=
  metas.map fun m => .segRemove m.segmentId

/-- The bucket loop of `attempt_flush`: `metas` and `effects` are what the buckets before
have left. A bucket that cannot be written ends the loop: the segments before it are
rolled back, and what is handed back is this bucket's events and those of the buckets not
yet reached. -/
def writeBuckets (io : FlushIo) (uuid : ℕ → String) :
    List (ℕ × List UsageEvent) → List SegmentMeta → List Effect →
      Except (FlushFailure × List Effect) (List SegmentMeta × List Effect)
  | [], metas, effects => .ok (metas, effects)
  | (bucket, events) :: rest, metas, effects =>
    if io.writeOk bucket then
      let seg := bucketSegment X uuid bucket events
      writeBuckets io uuid rest (metas ++ [seg.1]) (effects ++ bucketEffects X io bucket seg)
    else
      .error (⟨events ++ rest.flatMap (·.2), .writeBucket bucket⟩, effects ++ rollbackPartial metas)

/-- The manifest as the flush commits it: the new segments, and the seal moved up. -/
def Manifest.commitFlush (m : Manifest) (metas : List SegmentMeta) (sealedWalId : ℕ) : Manifest :=
  { m with
    rawSegments := m.rawSegments ++ metas
    lastSealedWalId := if m.lastSealedWalId < sealedWalId then sealedWalId else m.lastSealedWalId }

/-- `delete_files_through`, one file after another. -/
def deleteThroughEffects (dir : WalDir (List UsageEvent)) (upToId : ℕ) : List Effect :=
  (dir.ids.filter fun id => id ≤ upToId).map .walDelete

/-- `attempt_flush`. When the save fails the new segments are deleted, no event is handed
back, and the manifest in memory keeps what the flush had put into it. -/
def attemptFlush (io : FlushIo) (uuid : ℕ → String) (s : State) (msg : FlushMessage) :
    Outcome × Option FlushFailure :=
  match writeBuckets X io uuid (byBucket X s.mem.manifest.buckets msg.events) [] [] with
  | .error (failure, effects) => (⟨effects, s.mem⟩, some failure)
  | .ok (metas, effects) =>
    let m := s.mem.manifest.commitFlush metas msg.sealedWalId
    if io.saveOk then
      (⟨effects ++ .manifestSave m.saved :: deleteThroughEffects s.disk.wal msg.sealedWalId,
        { s.mem with manifest := m.saved }⟩, none)
    else
      (⟨effects ++ rollbackPartial metas, { s.mem with manifest := m }⟩, some ⟨[], .manifestSave⟩)

/-- `handle_message`: the events a failed flush hands back go into the memtable again. -/
def handleMessage (io : FlushIo) (uuid : ℕ → String) (clk : ℕ → ℤ) (s : State) (msg : FlushMessage) :
    Outcome :=
  if msg.events.isEmpty then .skip s
  else match attemptFlush X io uuid s msg with
    | (o, none) => o
    | (o, some failure) =>
      ⟨o.effects, { o.mem with memtable := o.mem.memtable.insertAll X failure.events clk }⟩

end

/-! ### A flush without errors -/

section Ok

variable {X : Extern}

/-- The segments a message is written as. -/
def flushSegments (X : Extern) (uuid : ℕ → String) (buckets : ℕ) (events : List UsageEvent) :
    List (SegmentMeta × List UsageEvent) :=
  (byBucket X buckets events).map fun b => bucketSegment X uuid b.1 b.2

/-- Writing segments with their sidecars, one after another. -/
def segmentEffects (X : Extern) (segs : List (SegmentMeta × List UsageEvent)) : List Effect :=
  segs.flatMap fun seg =>
    [.segWrite seg.1.segmentId seg.2, .idxWrite seg.1.segmentId (seg.2.map (indexEntry X))]

theorem writeBuckets_ok (uuid : ℕ → String) (bs : List (ℕ × List UsageEvent)) (metas : List SegmentMeta)
    (effects : List Effect) :
    writeBuckets X .ok uuid bs metas effects =
      .ok (metas ++ (bs.map fun b => bucketSegment X uuid b.1 b.2).map (·.1),
        effects ++ segmentEffects X (bs.map fun b => bucketSegment X uuid b.1 b.2)) := by
  induction bs generalizing metas effects with
  | nil => simp [writeBuckets, segmentEffects]
  | cons b bs ih =>
    obtain ⟨bucket, events⟩ := b
    rw [writeBuckets, if_pos (by rfl), ih]
    simp [segmentEffects, bucketEffects, FlushIo.ok]

/-- What a flush without errors does: it writes the segments, saves, and deletes the log
through the seal. -/
theorem attemptFlush_ok (uuid : ℕ → String) (s : State) (msg : FlushMessage) :
    attemptFlush X .ok uuid s msg =
      (⟨segmentEffects X (flushSegments X uuid s.mem.manifest.buckets msg.events) ++
          .manifestSave (s.mem.manifest.commitFlush
            ((flushSegments X uuid s.mem.manifest.buckets msg.events).map (·.1))
              msg.sealedWalId).saved ::
          deleteThroughEffects s.disk.wal msg.sealedWalId,
        { s.mem with
          manifest := (s.mem.manifest.commitFlush
            ((flushSegments X uuid s.mem.manifest.buckets msg.events).map (·.1))
              msg.sealedWalId).saved }⟩,
        none) := by
  rw [attemptFlush, writeBuckets_ok]
  simp [flushSegments, FlushIo.ok]

/-- The rows of the segments are the message's events, rearranged. -/
theorem flushSegments_perm (uuid : ℕ → String) (buckets : ℕ) (events : List UsageEvent) :
    ((flushSegments X uuid buckets events).flatMap (·.2)).Perm events := by
  rw [flushSegments, flatMap_map]
  refine List.Perm.trans ?_ (perm_groups (fun e => X.bucketForAccount e.accountId buckets) _)
  exact List.Perm.flatMap_left _ fun b _ => sortEventsCanonical_perm b.2

theorem rawSegmentId_injective : Function.Injective rawSegmentId := by
  intro a b h
  simpa [rawSegmentId] using h

/-- The segments of a message have different names. -/
theorem flushSegments_nodup {uuid : ℕ → String} (huuid : Function.Injective uuid) (buckets : ℕ)
    (events : List UsageEvent) :
      ((flushSegments X uuid buckets events).map fun seg => seg.1.segmentId).Nodup := by
  have hids : (flushSegments X uuid buckets events).map (fun seg => seg.1.segmentId) =
      ((byBucket X buckets events).map (·.1)).map fun b => rawSegmentId (uuid b) := by
    rw [flushSegments, map_map, map_map]
    rfl
  rw [hids]
  exact groups_nodup.map (rawSegmentId_injective.comp huuid)

/-- Files whose names are not among those written stay as they are. -/
theorem segmentEffects_other (d : Disk) (segs : List (SegmentMeta × List UsageEvent)) {id : String}
    (hid : id ∉ segs.map fun seg => seg.1.segmentId) :
    (d.applyAll (segmentEffects X segs)).seg id = d.seg id ∧
      (d.applyAll (segmentEffects X segs)).idx id = d.idx id := by
  induction segs generalizing d with
  | nil => exact ⟨rfl, rfl⟩
  | cons seg segs ih =>
    simp only [map_cons, mem_cons, not_or] at hid
    simp only [segmentEffects, flatMap_cons, Disk.applyAll_append] at ih ⊢
    obtain ⟨hseg, hidx⟩ := ih (d.applyAll [.segWrite seg.1.segmentId seg.2,
      .idxWrite seg.1.segmentId (seg.2.map (indexEntry X))]) hid.2
    exact ⟨hseg.trans (Function.update_of_ne hid.1 _ _), hidx.trans (Function.update_of_ne hid.1 _ _)⟩

/-- Each segment is there once all have been written. -/
theorem segmentEffects_mem (d : Disk) {segs : List (SegmentMeta × List UsageEvent)}
    (hnodup : (segs.map fun seg => seg.1.segmentId).Nodup) {seg : SegmentMeta × List UsageEvent}
    (hseg : seg ∈ segs) :
    (d.applyAll (segmentEffects X segs)).seg seg.1.segmentId = some seg.2 ∧
      (d.applyAll (segmentEffects X segs)).idx seg.1.segmentId = some (seg.2.map (indexEntry X)) := by
  induction segs generalizing d with
  | nil => cases hseg
  | cons x segs ih =>
    rw [map_cons, nodup_cons] at hnodup
    have hcons : segmentEffects X (x :: segs) = [.segWrite x.1.segmentId x.2,
        .idxWrite x.1.segmentId (x.2.map (indexEntry X))] ++ segmentEffects X segs := rfl
    rw [hcons, Disk.applyAll_append]
    rcases mem_cons.1 hseg with rfl | hmem
    · obtain ⟨h1, h2⟩ := segmentEffects_other (X := X) (d.applyAll [.segWrite seg.1.segmentId seg.2,
        .idxWrite seg.1.segmentId (seg.2.map (indexEntry X))]) segs hnodup.1
      rw [h1, h2]
      exact ⟨Function.update_self _ _ _, Function.update_self _ _ _⟩
    · exact ih _ hnodup.2 hmem

theorem deleteThroughEffects_applyAll (d : Disk) (upTo : ℕ) :
    d.applyAll (deleteThroughEffects d.wal upTo) = { d with wal := d.wal.deleteFilesThrough upTo } := by
  have hgen : ∀ (ids : List ℕ) (d : Disk),
      d.applyAll (ids.map .walDelete) = { d with wal := d.wal.filter fun f => f.1 ∉ ids } := by
    intro ids
    induction ids with
    | nil => intro d; simp
    | cons i ids ih =>
      intro d
      rw [map_cons, Disk.applyAll_cons, ih]
      simp only [Disk.apply, filter_filter]
      congr 1
      refine filter_congr fun f _ => ?_
      simp [Bool.and_comm]
  rw [deleteThroughEffects, hgen, WalDir.deleteFilesThrough]
  congr 1
  refine filter_congr fun f hf => ?_
  have : f.1 ∈ d.wal.ids := mem_map_of_mem hf
  simp [this]

end Ok

end UsageDb
