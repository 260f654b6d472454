import UsageDb.Ingest.Ingest
import Mathlib.Algebra.Ring.Divisibility.Basic
import Mathlib.Tactic.Ring

/-!
# The rollup worker

`src/rollup/worker.rs`: a tick rolls up the hours from the watermark to a target and moves
the watermark there; `rebuild_rollups` takes rollups back.

The target is bounded three times: by the clock with a safety lag, by the oldest event of
the memtable, and by not running at all while a drained batch has not been committed. The
three are read under different locks at different moments, so each is a definition of its
own here (`TickSnapshot`, `TickSnapshot.inFlight`, `targetHour`) and `tick` puts them
together for one state.

`scanOf_newRollups` is the specification of the scan: the segments it makes are the rollups
of lists of events that together are the raw events from the watermark to the target.
-/

namespace UsageDb

open Lib List

variable {target : ℤ} {e : UsageEvent} {seg : SegmentMeta × List HourlyRollupRecord}

/-- `HOUR_MS`. -/
def HOUR_MS : ℤ := 3600000

/-- `(t / HOUR_MS) * HOUR_MS`. -/
def floorHour (t : ℤ) : ℤ := t.tdiv HOUR_MS * HOUR_MS

/-- What a tick reads of the manifest at its start. -/
structure TickSnapshot where
  /-- `current_watermark`. -/
  watermark : ℤ
  rawSegments : List SegmentMeta
  rollupSegments : List SegmentMeta
  /-- `bucket_count`. -/
  buckets : ℕ
  lastSealedWalId : ℕ

/-- The snapshot. -/
def Manifest.tickSnapshot (m : Manifest) : TickSnapshot :=
  ⟨m.hourlyRollupMs, m.rawSegments, m.rollupSegments, m.buckets, m.lastSealedWalId⟩

/-- `RollupTickStats`. -/
structure RollupTickStats where
  segmentsWritten : ℕ
  watermarkMs : ℤ
  hoursProcessed : ℕ
  forcedFlush : Bool
  skippedForInFlight : Bool
  deriving DecidableEq

namespace TickSnapshot

/-- Safety bound (b): a sealed log file is not committed yet. -/
def inFlight (snap : TickSnapshot) (activeWalId : ℕ) : Bool := snap.lastSealedWalId + 1 < activeWalId

/-- The watermark to start from: in a new database, where the data begins. -/
def start (snap : TickSnapshot) : ℤ :=
  if snap.watermark = 0 ∧ ¬ snap.rawSegments.isEmpty then
    floorHour ((snap.rawSegments.map (·.minTimestampMs)).min?.getD 0)
  else snap.watermark

/-- `already_rolled`. -/
def alreadyRolled (snap : TickSnapshot) (hour : ℤ) (bucket : ℕ) : Bool :=
  snap.rollupSegments.any fun s => s.minTimestampMs = hour && s.bucket = bucket

end TickSnapshot

/-- The memtable is too old. -/
def needsForceDrain (cfg : Config) (now : ℤ) (m : Memtable) : Bool :=
  match m.oldestInsertAtMs with
  | some at_ => cfg.memtableMaxAgeMs ≤ now - at_
  | none => false

/-- Safety bounds (a) and (c): the hour before which a tick may roll up. -/
def targetHour (cfg : Config) (now : ℤ) (memtableMinTs : Option ℤ) : ℤ :=
  let timeTarget := floorHour (now - cfg.rollupSafetyLagMs)
  match memtableMinTs with
  | some ts => min timeTarget (floorHour ts)
  | none => timeTarget

/-- The hours of the loop `while hour < target { …; hour += HOUR_MS }`. -/
def hoursFrom (start target : ℤ) : List ℤ :=
  (List.range ((target - start + HOUR_MS - 1) / HOUR_MS).toNat).map
    fun i : ℕ => start + (i : ℤ) * HOUR_MS

/-- What a tick keeps for a bucket of an hour. -/
structure HourBucket where
  /-- The builder of `by_bucket`. -/
  builder : AList fun _ : HourlyRollupKey => HourlyRollupRecord
  /-- The segment ids of `inputs_by_bucket`, an ordered set. -/
  inputs : List String

section

variable (X : Extern)

/-- A row goes into the builder of its bucket, its segment among the inputs. -/
def HourBucket.add (h : HourBucket) (row : String × UsageEvent) : HourBucket :=
  { builder := RollupBuilder.processEvent X h.builder row.2
    inputs := if row.1 ∈ h.inputs then h.inputs else h.inputs.orderedInsert (· ≤ ·) row.1 }

/-- The rows of an hour that are not rolled up yet, each with the id of its segment. -/
def hourRows (d : Disk) (snap : TickSnapshot) (hour : ℤ) : List (String × UsageEvent) :=
  let hourEnd := hour + HOUR_MS
  let segs := snap.rawSegments.filter fun s => !(s.maxTimestampMs < hour || hourEnd ≤ s.minTimestampMs)
  segs.flatMap fun s =>
    ((d.rows s).filter fun e =>
      !(e.timestampMs < hour || hourEnd ≤ e.timestampMs) &&
        !snap.alreadyRolled hour (X.bucketForAccount e.accountId snap.buckets)).map
          fun e => (s.segmentId, e)

/-- The name of a rollup segment. -/
def rollupSegmentId (uuid : String) : String := "rollup_" ++ uuid

/-- `build_rollup_segment_meta`. -/
def buildRollupSegmentMeta (segmentId : String) (records : List HourlyRollupRecord) (bucket : ℕ)
    (checksum : BitVec 64) (minTs maxTs : ℤ) (rowCount : ℕ) (inputSegmentIds : List String) :
      SegmentMeta :=
  { segmentId
    kind := .rollup
    minTimestampMs := minTs
    maxTimestampMs := maxTs
    bucket
    rowCount
    minAccountId := records.foldl (fun m r => bound (· < ·) m r.key.accountId) none
    maxAccountId := records.foldl (fun m r => bound (· > ·) m r.key.accountId) none
    productIds := (records.map (·.key.productId)).toFinset
    meterIds := (records.map (·.key.meterId)).toFinset
    modelIds := (records.filterMap (·.key.modelId)).toFinset
    quantitySum := some (records.foldl (fun q r => SInt.satAdd q r.quantitySum) 0)
    checksum
    inputSegmentIds }

/-- `write_rollup_segment`: the metadata and the records of a new segment. -/
def rollupSegment (uuid : ℤ → ℕ → String) (hour : ℤ) (bucket : ℕ) (h : HourBucket) :
    SegmentMeta × List HourlyRollupRecord :=
  let records := RollupBuilder.finalize h.builder
  (buildRollupSegmentMeta (rollupSegmentId (uuid hour bucket)) records bucket
    (X.rollupChecksum records) hour (hour + HOUR_MS - 1) records.length h.inputs, records)

/-- The rollup segments of an hour: one for each bucket that has records. -/
def hourRollups (d : Disk) (snap : TickSnapshot) (uuid : ℤ → ℕ → String) (hour : ℤ) :
    List (SegmentMeta × List HourlyRollupRecord) :=
  let byBucket := sortedEntries (groupFold
    (fun row : String × UsageEvent => X.bucketForAccount row.2.accountId snap.buckets)
    (fun _ => ⟨∅, []⟩) (HourBucket.add X) (hourRows X d snap hour))
  (byBucket.map fun b => rollupSegment X uuid hour b.1 b.2).filter fun seg => !seg.2.isEmpty

/-- The rollup segments of the hours from `start` to `target`. -/
def newRollups (d : Disk) (snap : TickSnapshot) (uuid : ℤ → ℕ → String) (start target : ℤ) :
    List (SegmentMeta × List HourlyRollupRecord) :=
  (hoursFrom start target).flatMap (hourRollups X d snap uuid)

/-- The manifest as a tick commits it. -/
def Manifest.commitRollup (m : Manifest) (metas : List SegmentMeta) (target : ℤ) : Manifest :=
  { m with rollupSegments := m.rollupSegments ++ metas, hourlyRollupMs := target }

/-- Writing the new rollup segments. -/
def rollupEffects (segs : List (SegmentMeta × List HourlyRollupRecord)) : List Effect :=
  segs.map fun seg => .rsegWrite seg.1.segmentId seg.2

/-- The end of a tick: the segments are written and committed with the new watermark. When
the save fails the files are deleted, and the manifest in memory keeps the change. -/
def commitTick (saveOk : Bool) (s : State) (segs : List (SegmentMeta × List HourlyRollupRecord))
    (target : ℤ) : Outcome :=
  let m := s.mem.manifest.commitRollup (segs.map (·.1)) target
  if saveOk then ⟨rollupEffects segs ++ [.manifestSave m.saved], { s.mem with manifest := m.saved }⟩
  else ⟨rollupEffects segs ++
    segs.map fun seg => .rsegRemove seg.1.segmentId, { s.mem with manifest := m }⟩

/-- `tick`, run in one go: what it does and what it returns, `none` for the error of a
failed save. -/
def tick (cfg : Config) (now : ℤ) (uuid : ℤ → ℕ → String) (saveOk : Bool) (s : State) :
    Outcome × Option RollupTickStats :=
  let snap := s.mem.manifest.tickSnapshot
  if snap.inFlight s.mem.activeId then (.skip s, some ⟨0, snap.watermark, 0, false, true⟩)
  else if needsForceDrain cfg now s.mem.memtable then
    (forceDrainMemtable s, some ⟨0, snap.watermark, 0, true, false⟩)
  else
    let target := targetHour cfg now s.mem.memtable.minEventTimestampMs
    if target ≤ snap.start then (.skip s, some ⟨0, snap.start, 0, false, false⟩)
    else
      let segs := newRollups X s.disk snap uuid snap.start target
      (commitTick saveOk s segs target,
        if saveOk then some ⟨segs.length, target, (hoursFrom snap.start target).length, false,
          false⟩ else none)

/-- The manifest as `rebuild_rollups` leaves it. -/
def Manifest.rebuild (m : Manifest) (fromMs toMs : ℤ) : Manifest :=
  { m with
    rollupSegments :=
      m.rollupSegments.filter fun s => !(s.minTimestampMs < toMs && fromMs ≤ s.maxTimestampMs)
    hourlyRollupMs := if fromMs < m.hourlyRollupMs then fromMs else m.hourlyRollupMs }

/-- `rebuild_rollups`: what it does, and how many segments it dropped. -/
def rebuildRollups (fromMs toMs : ℤ) (saveOk : Bool) (s : State) : Outcome × Option ℕ :=
  let m := s.mem.manifest.rebuild fromMs toMs
  if saveOk then
    (⟨[.manifestSave m.saved], { s.mem with manifest := m.saved }⟩,
      some (s.mem.manifest.rollupSegments.length - m.rollupSegments.length))
  else (⟨[], { s.mem with manifest := m }⟩, none)

end

/-- What a tick comes to: nothing, a drain, or, when no batch is in flight, the rollups of the
hours from the start to the target. -/
theorem tick_cases (X : Extern) (cfg : Config) (now : ℤ) (uuid : ℤ → ℕ → String) (s : State) :
    (tick X cfg now uuid true s).1 = .skip s ∨ (tick X cfg now uuid true s).1 = forceDrainMemtable s ∨
      ∃ target, target = targetHour cfg now s.mem.memtable.minEventTimestampMs ∧
        s.mem.manifest.tickSnapshot.inFlight s.mem.activeId = false ∧
        s.mem.manifest.tickSnapshot.start < target ∧
        (tick X cfg now uuid true s).1 = commitTick true s
          (newRollups X s.disk s.mem.manifest.tickSnapshot uuid s.mem.manifest.tickSnapshot.start
            target) target := by
  rw [tick]
  split
  · exact .inl rfl
  · rename_i hflight
    split
    · exact .inr (.inl rfl)
    · dsimp only
      split
      · exact .inl rfl
      · rename_i htarget
        exact .inr (.inr ⟨_, rfl, Bool.not_eq_true _ ▸ hflight, not_le.1 htarget, rfl⟩)

/-- What holds of all that a tick can come to. -/
theorem tick_rule {R : Outcome → Prop} {X : Extern} {cfg : Config} {now : ℤ}
    {uuid : ℤ → ℕ → String} {s : State}
    (hskip : R (.skip s)) (hdrain : R (forceDrainMemtable s))
    (hcommit : ∀ start target,
      R (commitTick true s (newRollups X s.disk s.mem.manifest.tickSnapshot uuid start
        target) target)) :
    R (tick X cfg now uuid true s).1 := by
  rcases tick_cases X cfg now uuid s with heq | heq | ⟨target, -, -, -, heq⟩ <;> rw [heq]
  exacts [hskip, hdrain, hcommit _ target]

/-! ### Hours -/

theorem floorHour_le {t : ℤ} (h : 0 ≤ t) : floorHour t ≤ t := by
  rw [floorHour, HOUR_MS, Int.tdiv_eq_ediv_of_nonneg h]
  omega

theorem floorHour_dvd (t : ℤ) : HOUR_MS ∣ floorHour t := Dvd.intro_left _ rfl

theorem floorHour_nonneg {t : ℤ} (h : 0 ≤ t) : 0 ≤ floorHour t := by
  rw [floorHour, HOUR_MS, Int.tdiv_eq_ediv_of_nonneg h]
  omega

theorem floorHour_mono {t t' : ℤ} (h : t ≤ t') : floorHour t ≤ floorHour t' := by
  have hle : t.tdiv HOUR_MS ≤ t'.tdiv HOUR_MS := Int.tdiv_le_tdiv (by decide) h
  exact mul_le_mul_of_nonneg_right hle (by decide)

theorem mem_hoursFrom_iff {start h : ℤ} :
    h ∈ hoursFrom start target ↔ HOUR_MS ∣ h - start ∧ start ≤ h ∧ h < target := by
  simp only [hoursFrom, mem_map, mem_range, HOUR_MS]
  constructor
  · rintro ⟨i, hi, rfl⟩
    exact ⟨⟨i, by ring⟩, by omega, by omega⟩
  · rintro ⟨⟨c, hc⟩, h1, h2⟩
    exact ⟨c.toNat, by omega, by omega⟩

/-- Between aligned bounds, the hours are the aligned times in the range, each once. -/
theorem mem_hoursFrom {start h : ℤ} (hs : HOUR_MS ∣ start) :
    h ∈ hoursFrom start target ↔ HOUR_MS ∣ h ∧ start ≤ h ∧ h < target := by
  rw [mem_hoursFrom_iff, dvd_sub_left hs]

theorem hoursFrom_nodup (start target : ℤ) : (hoursFrom start target).Nodup := by
  refine List.Nodup.map ?_ nodup_range
  intro i j h
  simp only [HOUR_MS] at h
  omega

/-! ### What the scan makes -/

/-- A rollup segment that was made from the events `src`: they are of one hour and one
bucket, and the records are theirs. -/
structure RollupOf (X : Extern) (buckets : ℕ) (seg : SegmentMeta × List HourlyRollupRecord)
    (src : List UsageEvent) : Prop where
  /-- The records are those of the events. -/
  records : seg.2 = RollupBuilder.buildRecords X src
  /-- The checksum in the manifest is the file's. -/
  checksum : X.rollupChecksum seg.2 = seg.1.checksum
  /-- The events are of the segment's hour. -/
  hour : ∀ e ∈ src, e.hourMs = seg.1.minTimestampMs
  /-- The segment covers its hour. -/
  maxTs : seg.1.maxTimestampMs = seg.1.minTimestampMs + HOUR_MS - 1
  /-- The events are of the segment's bucket. -/
  bucket : ∀ e ∈ src, X.bucketForAccount e.accountId buckets = seg.1.bucket

/-- A rollup segment that was made from the events `src`: they are of one bucket and in the hour
that begins at the segment's minimum, which need not be a full hour. -/
structure RollupOfWindow (X : Extern) (buckets : ℕ) (seg : SegmentMeta × List HourlyRollupRecord)
    (src : List UsageEvent) : Prop where
  /-- The records are those of the events. -/
  records : seg.2 = RollupBuilder.buildRecords X src
  /-- The checksum in the manifest is the file's. -/
  checksum : X.rollupChecksum seg.2 = seg.1.checksum
  /-- The events are in the hour. -/
  window : ∀ e ∈ src, seg.1.minTimestampMs ≤ e.timestampMs ∧
    e.timestampMs < seg.1.minTimestampMs + HOUR_MS
  /-- The segment covers it. -/
  maxTs : seg.1.maxTimestampMs = seg.1.minTimestampMs + HOUR_MS - 1
  /-- The events are of the segment's bucket. -/
  bucket : ∀ e ∈ src, X.bucketForAccount e.accountId buckets = seg.1.bucket

/-- Where the loop over hours from `start` to `target` ends. -/
def scanEnd (start target : ℤ) : ℤ := start + (target - start + HOUR_MS - 1) / HOUR_MS * HOUR_MS

/-- The hour of that loop in which a time is. -/
def windowStart (start t : ℤ) : ℤ := start + (t - start) / HOUR_MS * HOUR_MS

theorem hourMs_eq_iff (hpos : 0 < (e.timestampMs : ℤ)) {h : ℤ} (hh : HOUR_MS ∣ h) :
    e.hourMs = h ↔ h ≤ e.timestampMs ∧ (e.timestampMs : ℤ) < h + HOUR_MS := by
  obtain ⟨a, rfl⟩ := hh
  rw [UsageEvent.hourMs, HOUR_MS, Int.tdiv_eq_ediv_of_nonneg hpos.le]
  omega

theorem RollupOfWindow.rollupOf {X : Extern} {buckets : ℕ}
    {src : List UsageEvent} (h : RollupOfWindow X buckets seg src) (hh : HOUR_MS ∣ seg.1.minTimestampMs)
    (hpos : ∀ e ∈ src, 0 < (e.timestampMs : ℤ)) : RollupOf X buckets seg src :=
  ⟨h.records, h.checksum,
    fun e he => (hourMs_eq_iff (hpos e he) hh).2 (h.window e he), h.maxTs, h.bucket⟩

/-- Between full hours, the loop ends at the target and its hours are those of the clock. -/
theorem scanEnd_of_dvd {start : ℤ} (hs : HOUR_MS ∣ start) (ht : HOUR_MS ∣ target) :
    scanEnd start target = target := by
  obtain ⟨a, rfl⟩ := hs
  obtain ⟨b, rfl⟩ := ht
  simp only [scanEnd, HOUR_MS]
  omega

theorem windowStart_of_dvd {start : ℤ} (hs : HOUR_MS ∣ start) (hpos : 0 < (e.timestampMs : ℤ)) :
    windowStart start e.timestampMs = e.hourMs := by
  obtain ⟨a, rfl⟩ := hs
  rw [windowStart, UsageEvent.hourMs, HOUR_MS, Int.tdiv_eq_ediv_of_nonneg hpos.le]
  omega

/-- The bounds of a raw segment are right, which is all a tick reads of its metadata. -/
structure TimesOk (d : Disk) (m : SegmentMeta) : Prop where
  /-- No row is outside them, … -/
  bounds : ∀ e ∈ d.rows m, m.minTimestampMs ≤ e.timestampMs ∧ e.timestampMs ≤ m.maxTimestampMs
  /-- … and they are not before the epoch. -/
  nonneg : 0 ≤ m.minTimestampMs

theorem SegmentOk.times {X : Extern} {d : Disk} {buckets : ℕ} {m : SegmentMeta}
    (h : SegmentOk X d buckets m) :
    TimesOk d m := by
  refine ⟨fun e he => ?_, ?_⟩
  · rw [h.metadata]
    exact ⟨minTimestampMs_le _ _ _ he, le_maxTimestampMs _ _ _ he⟩
  · rw [h.metadata]
    exact minTimestampMs_nonneg _ _ _ h.positive

section Scan

variable {X : Extern} {d : Disk} {snap : TickSnapshot} {uuid : ℤ → ℕ → String} {id : String}

theorem foldl_add_builder (rows : List (String × UsageEvent)) (h : HourBucket) :
    (rows.foldl (HourBucket.add X) h).builder =
      (rows.map (·.2)).foldl (RollupBuilder.processEvent X) h.builder := by
  induction rows generalizing h with
  | nil => rfl
  | cons r rows ih => rw [foldl_cons, ih]; rfl

/-- The inputs of a bucket are the segments of its rows. -/
theorem mem_foldl_add_inputs {rows : List (String × UsageEvent)} {h : HourBucket} :
    id ∈ (rows.foldl (HourBucket.add X) h).inputs ↔ id ∈ h.inputs ∨ ∃ row ∈ rows, row.1 = id := by
  induction rows generalizing h with
  | nil => simp
  | cons row rows ih =>
    have hadd : id ∈ (h.add X row).inputs ↔ row.1 = id ∨ id ∈ h.inputs := by
      rw [HourBucket.add]
      split
      · rename_i hmem
        exact ⟨.inr, fun hid => hid.elim (fun heq => heq ▸ hmem) fun hold => hold⟩
      · rw [mem_orderedInsert, eq_comm]
    rw [foldl_cons, ih, hadd, exists_mem_cons_iff]
    tauto

/-- No segment is among them twice. -/
theorem nodup_foldl_add_inputs {rows : List (String × UsageEvent)} {h : HourBucket}
    (hnodup : h.inputs.Nodup) :
    (rows.foldl (HourBucket.add X) h).inputs.Nodup := by
  induction rows generalizing h with
  | nil => exact hnodup
  | cons row rows ih =>
    rw [foldl_cons]
    refine ih ?_
    rw [HourBucket.add]
    split
    · exact hnodup
    · rename_i hnew
      exact (perm_orderedInsert _ _ _).nodup_iff.2 (nodup_cons.2 ⟨hnew, hnodup⟩)

/-- The sources of an hour's segments: its rows by bucket. -/
def hourSources (X : Extern) (d : Disk) (snap : TickSnapshot) (hour : ℤ) : List (List UsageEvent) :=
  (groups (fun row : String × UsageEvent => X.bucketForAccount row.2.accountId snap.buckets)
    (hourRows X d snap hour)).map fun g => g.2.map (·.2)

theorem buildRecords_ne_nil {l : List UsageEvent} (h : l ≠ []) :
    RollupBuilder.buildRecords X l ≠ [] := by
  obtain ⟨e, l', rfl⟩ := exists_cons_of_ne_nil h
  intro hnil
  have := (RollupBuilder.mem_keys_buildRecords X (l := e :: l')).2 ⟨e, by simp, rfl⟩
  rw [hnil] at this
  simp at this

/-- No bucket of an hour is left out: one segment for each group of rows. -/
theorem hourRollups_eq (hour : ℤ) :
    hourRollups X d snap uuid hour =
      (groups (fun row : String × UsageEvent => X.bucketForAccount row.2.accountId snap.buckets)
        (hourRows X d snap hour)).map fun g =>
          rollupSegment X uuid hour g.1 (g.2.foldl (HourBucket.add X) ⟨∅, []⟩) := by
  rw [hourRollups, sortedEntries_groupFold, map_map, filter_eq_self.2]
  · rfl
  · intro seg hseg
    obtain ⟨g, hg, rfl⟩ := mem_map.1 hseg
    have hne : g.2.map (·.2) ≠ [] := by simpa using (mem_groups.1 hg).2
    have hrec := buildRecords_ne_nil (X := X) hne
    rw [RollupBuilder.buildRecords] at hrec
    simpa [rollupSegment, foldl_add_builder] using hrec

/-- The rows of an hour are the raw events of the hour whose buckets have not been rolled up. -/
theorem map_hourRows (hour : ℤ) (hok : ∀ m ∈ snap.rawSegments, TimesOk d m) :
    (hourRows X d snap hour).map (·.2) = (snap.rawSegments.flatMap d.rows).filter fun e =>
      (hour ≤ e.timestampMs && e.timestampMs < hour + HOUR_MS) &&
        !snap.alreadyRolled hour (X.bucketForAccount e.accountId snap.buckets) := by
  simp only [hourRows, map_flatMap, map_map, Function.comp_def, map_id', filter_flatMap]
  generalize hrolled : snap.alreadyRolled hour = rolled
  generalize snap.rawSegments = segs at hok
  induction segs with
  | nil => rfl
  | cons m ms ih =>
    have ih := ih fun m' hm' => hok m' (by simp [hm'])
    have hm := hok m (by simp)
    rw [filter_cons, flatMap_cons]
    split
    · rw [flatMap_cons, ih]
      congr 1
      refine filter_congr fun e _ => ?_
      rw [Bool.eq_iff_iff]
      simp
    · rename_i hskip
      -- a segment is skipped only if its bounds, hence its rows, are outside the hour
      have hnone : (d.rows m).filter (fun e => (decide (hour ≤ e.timestampMs) &&
          decide (e.timestampMs < hour + HOUR_MS)) &&
            !rolled (X.bucketForAccount e.accountId snap.buckets)) = [] := by
        rw [filter_eq_nil_iff]
        intro e he hin
        obtain ⟨hmin, hmax⟩ := hm.bounds e he
        simp only [Bool.and_eq_true, decide_eq_true_eq] at hin
        simp only [Bool.not_eq_true', Bool.or_eq_false_iff, decide_eq_false_iff_not, not_and, not_lt,
          not_le] at hskip
        have := hskip (by omega)
        omega
      rw [hnone, ih, nil_append]

/-- The segments of an hour are the rollups of its sources, which are the raw events of the hour
whose buckets have not been rolled up. -/
theorem hourRollups_windows (uuid : ℤ → ℕ → String) {hour : ℤ}
    (hok : ∀ m ∈ snap.rawSegments, SegmentOk X d snap.buckets m) :
    List.Forall₂ (RollupOfWindow X snap.buckets) (hourRollups X d snap uuid hour)
      (hourSources X d snap hour) ∧
      (hourSources X d snap hour).flatten.Perm ((snap.rawSegments.flatMap d.rows).filter fun e =>
        (hour ≤ e.timestampMs && e.timestampMs < hour + HOUR_MS) &&
          !snap.alreadyRolled hour (X.bucketForAccount e.accountId snap.buckets)) := by
  have hrows := map_hourRows (X := X) hour fun m hm => (hok m hm).times
  constructor
  · rw [hourRollups_eq, hourSources, List.forall₂_map_left_iff, List.forall₂_map_right_iff,
      List.forall₂_same]
    rintro ⟨b, g⟩ hg
    obtain ⟨rfl, hne⟩ := mem_groups.1 hg
    have hmem : ∀ e ∈ ((hourRows X d snap hour).filter fun row =>
        X.bucketForAccount row.2.accountId snap.buckets = b).map (·.2),
          (hour ≤ e.timestampMs ∧ e.timestampMs < hour + HOUR_MS) ∧
            X.bucketForAccount e.accountId snap.buckets = b := by
      intro e he
      obtain ⟨row, hrow, rfl⟩ := mem_map.1 he
      rw [mem_filter, decide_eq_true_eq] at hrow
      have hin : row.2 ∈ (hourRows X d snap hour).map (·.2) := mem_map_of_mem hrow.1
      rw [hrows, mem_filter, Bool.and_eq_true, Bool.and_eq_true, decide_eq_true_eq,
        decide_eq_true_eq] at hin
      exact ⟨hin.2.1, hrow.2⟩
    constructor
    · simp only [rollupSegment, foldl_add_builder]
      rfl
    · rfl
    · exact fun e he => (hmem e he).1
    · rfl
    · exact fun e he => (hmem e he).2
  · rw [← hrows, hourSources, ← flatMap_def, ← map_flatMap]
    exact (perm_groups _ _).map _

/-- **What the scan makes**: the new segments are the rollups of lists of events that together are
the raw events of the hours scanned, where the hour and bucket have not been rolled up. -/
theorem newRollups_windows (uuid : ℤ → ℕ → String) (start target : ℤ)
    (hok : ∀ m ∈ snap.rawSegments, SegmentOk X d snap.buckets m) :
    ∃ srcs, List.Forall₂ (RollupOfWindow X snap.buckets) (newRollups X d snap uuid start target) srcs ∧
      srcs.flatten.Perm ((snap.rawSegments.flatMap d.rows).filter fun e =>
        (start ≤ e.timestampMs && e.timestampMs < scanEnd start target) &&
          !snap.alreadyRolled (windowStart start e.timestampMs)
            (X.bucketForAccount e.accountId snap.buckets)) := by
  refine ⟨(hoursFrom start target).flatMap (hourSources X d snap), ?_, ?_⟩
  · rw [newRollups]
    generalize hoursFrom start target = hours
    induction hours with
    | nil => exact .nil
    | cons h hours ih =>
      rw [flatMap_cons, flatMap_cons]
      exact rel_append (hourRollups_windows uuid hok).1 ih
  · have hhour : ∀ h ∈ hoursFrom start target, ((hourSources X d snap h).flatten).Perm
        (((snap.rawSegments.flatMap d.rows).filter fun e =>
          (start ≤ e.timestampMs && e.timestampMs < scanEnd start target) &&
            !snap.alreadyRolled (windowStart start e.timestampMs)
              (X.bucketForAccount e.accountId snap.buckets)).filter
              fun e => windowStart start e.timestampMs = h) := by
      intro h hh
      obtain ⟨⟨c, hc⟩, hle, hlt⟩ := mem_hoursFrom_iff.1 hh
      refine (hourRollups_windows uuid hok).2.trans (List.Perm.of_eq ?_)
      rw [filter_filter]
      refine filter_congr fun e _ => ?_
      -- the times of the hour are those the loop counts to it, and all are before its end
      have hiff : (h ≤ e.timestampMs ∧ e.timestampMs < h + HOUR_MS) ↔
          (start ≤ e.timestampMs ∧ e.timestampMs < scanEnd start target) ∧
            windowStart start e.timestampMs = h := by
        simp only [scanEnd, windowStart, HOUR_MS] at hc ⊢
        omega
      rw [Bool.eq_iff_iff]
      simp only [Bool.and_eq_true, decide_eq_true_eq]
      constructor
      · rintro ⟨hin, hnot⟩
        obtain ⟨hscan, hwin⟩ := hiff.1 hin
        exact ⟨hwin, hscan, by rw [hwin]; exact hnot⟩
      · rintro ⟨hwin, hscan, hnot⟩
        rw [hwin] at hnot
        exact ⟨hiff.2 ⟨hscan, hwin⟩, hnot⟩
    have hcov : ∀ e ∈ (snap.rawSegments.flatMap d.rows).filter (fun e =>
        (start ≤ e.timestampMs && e.timestampMs < scanEnd start target) &&
          !snap.alreadyRolled (windowStart start e.timestampMs)
            (X.bucketForAccount e.accountId snap.buckets)),
        windowStart start e.timestampMs ∈ hoursFrom start target := by
      intro e he
      rw [mem_filter, Bool.and_eq_true, Bool.and_eq_true, decide_eq_true_eq, decide_eq_true_eq] at he
      obtain ⟨-, ⟨hle, hlt⟩, -⟩ := he
      rw [mem_hoursFrom_iff]
      simp only [scanEnd, windowStart, HOUR_MS] at hlt ⊢
      exact ⟨⟨(e.timestampMs - start) / 3600000, by ring⟩, by omega, by omega⟩
    have hflat : ((hoursFrom start target).flatMap (hourSources X d snap)).flatten =
        (hoursFrom start target).flatMap fun h => (hourSources X d snap h).flatten := by
      simp only [← flatMap_id, flatMap_assoc]
    rw [hflat]
    exact (List.Perm.flatMap_left _ hhour).trans
      (perm_flatMap_filter (fun e : UsageEvent => windowStart start e.timestampMs)
        (hoursFrom_nodup _ _) hcov).symm

/-- A new segment is of one of the hours scanned. -/
theorem minTimestampMs_newRollups {start : ℤ}
    (hseg : seg ∈ newRollups X d snap uuid start target) :
      seg.1.minTimestampMs ∈ hoursFrom start target := by
  obtain ⟨hour, hhour, hseg⟩ := mem_flatMap.1 hseg
  rw [hourRollups_eq] at hseg
  obtain ⟨g, -, rfl⟩ := mem_map.1 hseg
  exact hhour

/-- The inputs of a segment of an hour are the raw segments that have a row of its bucket in it. -/
theorem mem_inputSegmentIds {hour : ℤ}
    (hseg : seg ∈ hourRollups X d snap uuid hour) :
    id ∈ seg.1.inputSegmentIds ↔ ∃ row ∈ hourRows X d snap hour,
      X.bucketForAccount row.2.accountId snap.buckets = seg.1.bucket ∧ row.1 = id := by
  rw [hourRollups_eq] at hseg
  obtain ⟨⟨b, g⟩, hg, rfl⟩ := mem_map.1 hseg
  obtain ⟨rfl, -⟩ := mem_groups.1 hg
  show id ∈ (List.foldl (HourBucket.add X) ⟨∅, []⟩ _).inputs ↔ _
  rw [mem_foldl_add_inputs]
  simp [rollupSegment, buildRollupSegmentMeta, and_assoc]

/-- They are listed. -/
theorem inputs_newRollups {start : ℤ}
    (hseg : seg ∈ newRollups X d snap uuid start target) (hid : id ∈ seg.1.inputSegmentIds) :
    ∃ m ∈ snap.rawSegments, m.segmentId = id := by
  obtain ⟨hour, -, hseg⟩ := mem_flatMap.1 hseg
  obtain ⟨row, hrow, -, rfl⟩ := (mem_inputSegmentIds hseg).1 hid
  obtain ⟨m, hm, hrow⟩ := mem_flatMap.1 hrow
  obtain ⟨e, -, rfl⟩ := mem_map.1 hrow
  exact ⟨m, mem_of_mem_filter hm, rfl⟩

/-- Between full hours, when all that has been rolled up is before the start, the new segments are
the rollups of the raw events from `start` to `target`. -/
theorem newRollups_sources (uuid : ℤ → ℕ → String) {start : ℤ} (hs : HOUR_MS ∣ start)
    (ht : HOUR_MS ∣ target) (hok : ∀ m ∈ snap.rawSegments, SegmentOk X d snap.buckets m)
    (hroll : ∀ s ∈ snap.rollupSegments, s.minTimestampMs < start) :
    ∃ srcs, List.Forall₂ (RollupOf X snap.buckets) (newRollups X d snap uuid start target) srcs ∧
      srcs.flatten.Perm ((snap.rawSegments.flatMap d.rows).filter fun e =>
        start ≤ e.timestampMs && e.timestampMs < target) := by
  obtain ⟨srcs, hof, hperm⟩ := newRollups_windows uuid start target hok
  have hpos : ∀ e ∈ snap.rawSegments.flatMap d.rows, 0 < e.timestampMs := by
    intro e he
    obtain ⟨m, hm, he⟩ := mem_flatMap.1 he
    exact (hok m hm).positive e he
  refine ⟨srcs, ?_, hperm.trans (List.Perm.of_eq (filter_congr fun e he => ?_))⟩
  · refine List.forall₂_iff_zip.2 ⟨hof.length_eq, fun {seg src} hzip => ?_⟩
    obtain ⟨hseg, hsrc⟩ := of_mem_zip hzip
    refine (List.forall₂_zip hof hzip).rollupOf ((mem_hoursFrom hs).1 (minTimestampMs_newRollups
      hseg)).1 fun e he => ?_
    exact hpos e (mem_of_mem_filter (hperm.subset (mem_flatten_of_mem hsrc he)))
  · rw [scanEnd_of_dvd hs ht, windowStart_of_dvd hs (hpos e he)]
    by_cases hle : start ≤ e.timestampMs
    · have hstart : start ≤ e.hourMs := by
        rw [← windowStart_of_dvd hs (hpos e he)]
        simp only [windowStart, HOUR_MS]
        omega
      have hnot : snap.alreadyRolled e.hourMs (X.bucketForAccount e.accountId snap.buckets) =
          false := by
        simp only [TickSnapshot.alreadyRolled, any_eq_false, Bool.and_eq_true,
          decide_eq_true_eq, not_and]
        exact fun s hs heq => absurd (hroll s hs) (by omega)
      rw [hnot, Bool.not_false, Bool.and_true]
    · simp [hle]

theorem rollupSegmentId_injective : Function.Injective rollupSegmentId := by
  intro a b h
  simpa [rollupSegmentId] using h

/-- A new segment has one of the names drawn. -/
theorem segmentId_newRollups {start : ℤ}
    (hseg : seg ∈ newRollups X d snap uuid start target) :
    ∃ h b, seg.1.segmentId = rollupSegmentId (uuid h b) := by
  obtain ⟨hour, -, hseg⟩ := mem_flatMap.1 hseg
  rw [hourRollups_eq] at hseg
  obtain ⟨g, -, rfl⟩ := mem_map.1 hseg
  exact ⟨hour, g.1, rfl⟩

/-- The new segments have different names. -/
theorem newRollups_nodup (huuid : ∀ h b h' b', uuid h b = uuid h' b' → h = h' ∧ b = b')
    (start target : ℤ) :
    ((newRollups X d snap uuid start target).map fun seg => seg.1.segmentId).Nodup := by
  have hnames : ∀ hour, (hourRollups X d snap uuid hour).map (fun seg => seg.1.segmentId) =
      ((groups (fun row : String × UsageEvent => X.bucketForAccount row.2.accountId snap.buckets)
        (hourRows X d snap hour)).map (·.1)).map fun b => rollupSegmentId (uuid hour b) := by
    intro hour
    rw [hourRollups_eq, map_map, map_map]
    rfl
  rw [newRollups, map_flatMap, nodup_flatMap]
  constructor
  · intro hour _
    rw [hnames]
    refine groups_nodup.map fun b b' hb => ?_
    exact (huuid _ _ _ _ (rollupSegmentId_injective hb)).2
  · refine (hoursFrom_nodup start target).imp fun {hour hour'} hne => ?_
    intro id hid hid'
    dsimp only at hid hid'
    rw [hnames] at hid hid'
    obtain ⟨b, -, rfl⟩ := mem_map.1 hid
    obtain ⟨b', -, hb⟩ := mem_map.1 hid'
    exact hne (huuid _ _ _ _ (rollupSegmentId_injective hb)).1.symm

/-- Writing rollup segments changes their files and nothing else. -/
theorem rollupEffects_applyAll (d : Disk) (segs : List (SegmentMeta × List HourlyRollupRecord)) :
    ∃ r, d.applyAll (rollupEffects segs) = { d with rseg := r } ∧
      (∀ id, id ∉ segs.map (fun seg => seg.1.segmentId) → r id = d.rseg id) ∧
      ((segs.map fun seg => seg.1.segmentId).Nodup → ∀ seg ∈ segs, r seg.1.segmentId = some seg.2) := by
  induction segs generalizing d with
  | nil => exact ⟨d.rseg, rfl, fun _ _ => rfl, fun _ seg hseg => by cases hseg⟩
  | cons x segs ih =>
    obtain ⟨r, hr, hother, hmem⟩ := ih (d.apply (.rsegWrite x.1.segmentId x.2))
    refine ⟨r, hr, fun id hid => ?_, fun hnodup seg hseg => ?_⟩
    · rw [map_cons, mem_cons, not_or] at hid
      exact (hother id hid.2).trans (Function.update_of_ne hid.1 _ _)
    · rw [map_cons, nodup_cons] at hnodup
      rcases mem_cons.1 hseg with rfl | hseg
      · exact (hother _ hnodup.1).trans (Function.update_self _ _ _)
      · exact hmem hnodup.2 seg hseg

end Scan

/-! ### The bounds -/

theorem targetHour_dvd (cfg : Config) (now : ℤ) (ts : Option ℤ) : HOUR_MS ∣ targetHour cfg now ts := by
  unfold targetHour
  cases ts with
  | none => exact floorHour_dvd _
  | some ts =>
    dsimp only
    rcases min_choice (floorHour (now - cfg.rollupSafetyLagMs)) (floorHour ts) with h | h
    · rw [h]
      exact floorHour_dvd _
    · rw [h]
      exact floorHour_dvd _

/-- The target is not above an event of the memtable. -/
theorem targetHour_le (cfg : Config) (now : ℤ) {m : Memtable} (he : e ∈ m.events)
    (hpos : ∀ e ∈ m.events, 0 < (e.timestampMs : ℤ)) :
    targetHour cfg now m.minEventTimestampMs ≤ e.timestampMs := by
  cases hmin : m.minEventTimestampMs with
  | none =>
    rw [Memtable.minEventTimestampMs_eq_none hmin] at he
    cases he
  | some ts =>
    obtain ⟨e', he', rfl⟩ := mem_map.1 (List.min?_mem hmin)
    have hfloor := floorHour_le (hpos e' he').le
    have hle := Memtable.le_of_minEventTimestampMs hmin he
    exact (min_le_right _ _).trans (hfloor.trans hle)

/-- Where a tick starts: a full hour, at the watermark or where the raw events above it begin. -/
theorem start_bounds {d : Disk} {snap : TickSnapshot} (haligned : HOUR_MS ∣ snap.watermark)
    (hok : ∀ m ∈ snap.rawSegments, TimesOk d m) :
    HOUR_MS ∣ snap.start ∧ snap.watermark ≤ snap.start ∧
      ∀ e ∈ snap.rawSegments.flatMap d.rows, snap.watermark ≤ e.timestampMs →
      snap.start ≤ e.timestampMs := by
  unfold TickSnapshot.start
  split
  · rename_i hnew
    obtain ⟨hzero, hne⟩ := hnew
    obtain ⟨t, ht⟩ : ∃ t, (snap.rawSegments.map (·.minTimestampMs)).min? = some t := by
      cases hmin : (snap.rawSegments.map (·.minTimestampMs)).min? with
      | none =>
        have hnil : snap.rawSegments = [] := by simpa using hmin
        simp [hnil] at hne
      | some t => exact ⟨t, rfl⟩
    obtain ⟨m, hm, rfl⟩ := mem_map.1 (List.min?_mem ht)
    have hnonneg : 0 ≤ m.minTimestampMs := (hok m hm).nonneg
    rw [ht, Option.getD_some]
    refine ⟨floorHour_dvd _, hzero ▸ floorHour_nonneg hnonneg, fun e he _ => ?_⟩
    obtain ⟨m', hm', he⟩ := mem_flatMap.1 he
    have hmin : m.minTimestampMs ≤ m'.minTimestampMs := (le_min?_iff ht).1 le_rfl _ (mem_map_of_mem hm')
    have hrow : m'.minTimestampMs ≤ e.timestampMs := ((hok m' hm').bounds e he).1
    exact (floorHour_le hnonneg).trans (hmin.trans hrow)
  · exact ⟨haligned, le_rfl, fun _ _ h => h⟩

/-- What a scan from a snapshot to a target makes: the rollups of the raw events from the
watermark to the target. -/
structure ScanOf (X : Extern) (d : Disk) (snap : TickSnapshot) (uuid : ℤ → ℕ → String) (target : ℤ)
    (segs : List (SegmentMeta × List HourlyRollupRecord)) : Prop where
  /-- The segments are rollups of these events. -/
  sources : ∃ srcs, List.Forall₂ (RollupOf X snap.buckets) segs srcs ∧
    srcs.flatten.Perm ((snap.rawSegments.flatMap d.rows).filter fun e =>
      snap.watermark ≤ e.timestampMs && e.timestampMs < target)
  /-- They are of hours below the target. -/
  below : ∀ seg ∈ segs, seg.1.minTimestampMs < target
  /-- They have names that were drawn, … -/
  names : ∀ seg ∈ segs, ∃ h b, seg.1.segmentId = rollupSegmentId (uuid h b)
  /-- … and different ones. -/
  nodup : (segs.map fun seg => seg.1.segmentId).Nodup

/-- **A scan makes the rollups of the raw events from the watermark on**, when all that has
been rolled up is below the watermark. -/
theorem scanOf_newRollups {X : Extern} {d : Disk} {snap : TickSnapshot} {uuid : ℤ → ℕ → String}
    (hwm : HOUR_MS ∣ snap.watermark) (ht : HOUR_MS ∣ target)
    (hok : ∀ m ∈ snap.rawSegments, SegmentOk X d snap.buckets m)
    (hroll : ∀ m ∈ snap.rollupSegments, m.minTimestampMs < snap.watermark)
    (huuid : ∀ h b h' b', uuid h b = uuid h' b' → h = h' ∧ b = b') :
    ScanOf X d snap uuid target (newRollups X d snap uuid snap.start target) := by
  obtain ⟨hdvd, hle, hraw⟩ := start_bounds hwm fun m hm => (hok m hm).times
  obtain ⟨srcs, hof, hperm⟩ := newRollups_sources uuid hdvd ht hok fun m hm => (hroll m hm).trans_le hle
  refine ⟨⟨srcs, hof, hperm.trans (List.Perm.of_eq ?_)⟩, fun seg hseg => ?_, fun seg hseg => ?_, ?_⟩
  · refine filter_congr fun e he => ?_
    have hstart := hraw e he
    rw [Bool.eq_iff_iff]
    simp only [Bool.and_eq_true, decide_eq_true_eq]
    constructor
    · rintro ⟨h1, h2⟩
      exact ⟨hle.trans h1, h2⟩
    · rintro ⟨h1, h2⟩
      exact ⟨hstart h1, h2⟩
  · exact ((mem_hoursFrom hdvd).1 (minTimestampMs_newRollups hseg)).2.2
  · exact segmentId_newRollups hseg
  · exact newRollups_nodup huuid _ _

end UsageDb
