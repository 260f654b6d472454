import UsageDb.Compact.Worker
import UsageDb.Rollup.Reference
import UsageDb.Storage.SegmentLimits

/-!
# Raw segments as files

The disk of the model has the rows of each raw segment. Here it has files, and each reader does with
one what it does: the workers stop with an error when a file cannot be opened or a row cannot be
read (`readSegment`), a query takes the rows up to there (`scanSegment`), and all of them pass over
a file that is missing. `State.onFiles` is the state as the readers see it; `tickOn` and
`runOnePlanOn` are the rollup tick and a compaction plan over files.

A file that is there and cannot be read stops both workers (`undecodable_input_blocks`): the tick
leaves the manifest as it is, and so does the plan. A file that is missing need not: its hours can
be rolled up without it, and a plan can replace it together with the other inputs
(`missing_input_is_passed_over`). -/

namespace UsageDb

open Lib List

/-! ### Readers -/

/-- `while let Some(event) = reader.read_next()?`; `n` bounds its turns. -/
def RawSegmentReader.readAll : ℕ → RawSegmentReader → Except SegmentError (List UsageEvent)
  | 0, _ => .ok []
  | n + 1, r => do
    let (e, r') ← r.readNext
    match e with
    | none => return []
    | some e => return e :: (← readAll n r')

section Readers

variable (C : SegmentLibs) (X : Extern)

/-- A worker reads a segment file: its reader has a row for every turn but the last. -/
def readSegment (file : Bytes) : Except SegmentError (List UsageEvent) := do
  let r ← RawSegmentReader.new C X file
  r.readAll (r.rowCount + 1)

/-- `read_segments`. -/
def readSegments (files : String → Option Bytes) : List String → Except SegmentError (List UsageEvent)
  | [] => .ok []
  | id :: ids =>
    match files id with
    | none => readSegments files ids
    | some file => do
      let events ← readSegment C X file
      return events ++ (← readSegments files ids)

/-- A file can be read, if it is there. -/
def readable (files : String → Option Bytes) (id : String) : Bool :=
  (files id).all fun file => (readSegment C X file).toOption.isSome

/-- The disk as a scan of its files sees it. -/
def Disk.onFiles (files : String → Option Bytes) (d : Disk) : Disk :=
  { d with seg := fun id => (files id).map fun file => (scanSegment C X file).toOption.getD [] }

/-- The state as a scan of the files sees it. -/
def State.onFiles (files : String → Option Bytes) (s : State) : State :=
  ⟨s.disk.onFiles C X files, s.mem⟩

/-- The tick over files: `io` says what else goes wrong. -/
def tickOn (files : String → Option Bytes) (cfg : Config) (now : ℤ) (uuid : ℤ → ℕ → String)
    (io : TickIo) (s : State) :
    Outcome × Option RollupTickStats :=
  tryTick X cfg now uuid
    { io with readOk := fun hour id => io.readOk hour id && readable C X files id }
      (s.onFiles C X files)

/-- `run_one_plan` over files; `none` for an error. -/
def runOnePlanOn (files : String → Option Bytes) (uuid : ℕ → String) (saveOk : Bool) (now : ℤ)
    (plan : CompactionPlan) (s : State) : Outcome × Option Bool :=
  match readSegments C X files plan.segmentIds with
  | .error _ => (.skip s, none)
  | .ok events =>
    let deduped := sortAndDedupe events
    if deduped.isEmpty then (.skip s, some false)
    else match finish C X (deduped.foldl Columns.writeEvent .new) with
      | .error _ => (.skip s, none)
      | .ok _ => runOnePlan X uuid saveOk now plan (s.onFiles C X files)

end Readers

section

variable {C : SegmentLibs} {X : Extern} {files : String → Option Bytes}

/-- What a worker reads is what a scan gives. -/
theorem scanSegment_of_readSegment {file : Bytes} {rows : List UsageEvent}
    (h : readSegment C X file = .ok rows) :
    scanSegment C X file = .ok rows := by
  have hrows : ∀ n (r : RawSegmentReader) rows, r.readAll n = .ok rows → r.readRows n = rows := by
    intro n
    induction n with
    | zero =>
      intro r rows h
      exact Except.ok.inj h
    | succ n ih =>
      intro r rows h
      obtain ⟨⟨e, r'⟩, hnext, h⟩ := except_bind_eq_ok.1 h
      rw [RawSegmentReader.readRows, hnext]
      cases e with
      | none => exact Except.ok.inj h
      | some e =>
        obtain ⟨rest, hrest, h⟩ := except_bind_eq_ok.1 h
        cases h
        exact congrArg _ (ih _ _ hrest)
  obtain ⟨r, hnew, h⟩ := except_bind_eq_ok.1 h
  rw [scanSegment, hnew]
  exact congrArg Except.ok (hrows _ _ _ h)

/-- Turns enough read what the reader yields. -/
theorem readAll_of_yields {r : RawSegmentReader} {es : List UsageEvent} (h : r.Yields es) {n : ℕ}
    (hn : es.length < n) :
    r.readAll n = .ok es := by
  induction h generalizing n with
  | done hdone =>
    obtain ⟨n, rfl⟩ := Nat.exists_eq_succ_of_ne_zero (by omega : n ≠ 0)
    rw [RawSegmentReader.readAll, hdone]
    rfl
  | next hnext _ ih =>
    rw [length_cons] at hn
    obtain ⟨n, rfl⟩ := Nat.exists_eq_succ_of_ne_zero (by omega : n ≠ 0)
    have hrest := ih (show _ < n by omega)
    exact except_bind_eq_ok.2 ⟨_, hnext, except_bind_eq_ok.2 ⟨_, hrest, rfl⟩⟩

/-- **A segment whose columns fit is written and read back by the workers.** -/
theorem exists_readSegment (hC : C.Lawful) (X : Extern) {rows : List UsageEvent}
    (hrows : rows.length < 2 ^ 32) (hfit : ColumnsFit C rows) : ∃ file n checksum,
      finish C X (rows.foldl Columns.writeEvent .new) = .ok (file, n, checksum) ∧
      readSegment C X file = .ok rows := by
  choose z hz hunz using hC.zstd
  rw [foldl_writeEvent]
  refine ⟨_, _, _, finish_ofEvents hC hrows hz, ?_⟩
  rw [readSegment, new_of_columnsFit hC hrows hunz ((columnsFit_iff hC hz).1 hfit)]
  exact readAll_of_yields (yields_ofEvents rows (Nat.zero_le _)) (Nat.lt_succ_self _)

/-- What the compaction reads is what is on the disk that a scan sees. -/
theorem readSegments_onFiles {ids : List String} {events : List UsageEvent}
    (h : readSegments C X files ids = .ok events)
    (d : Disk) : (d.onFiles C X files).readSegments ids = events := by
  induction ids generalizing events with
  | nil => exact Except.ok.inj h
  | cons id ids ih =>
    rw [readSegments] at h
    show ((files id).map _).getD [] ++ (d.onFiles C X files).readSegments ids = events
    cases hfile : files id with
    | none =>
      rw [hfile] at h
      exact ih h
    | some file =>
      rw [hfile] at h
      obtain ⟨rows, hread, h⟩ := except_bind_eq_ok.1 h
      obtain ⟨rest, hrest, h⟩ := except_bind_eq_ok.1 h
      cases h
      rw [ih hrest, Option.map_some, scanSegment_of_readSegment hread]
      rfl

/-- One file that cannot be read is an error for all. -/
theorem readSegments_error {ids : List String} {id : String} (hid : id ∈ ids) {file : Bytes}
    (hfile : files id = some file)
    {err : SegmentError} (hbad : readSegment C X file = .error err) :
      ∃ err, readSegments C X files ids = .error err := by
  cases hread : readSegments C X files ids with
  | error err => exact ⟨err, rfl⟩
  | ok events =>
    exfalso
    induction ids generalizing events with
    | nil => cases hid
    | cons id' ids ih =>
      rw [readSegments] at hread
      rcases mem_cons.1 hid with rfl | hid
      · rw [hfile] at hread
        obtain ⟨_, hok, -⟩ := except_bind_eq_ok.1 hread
        rw [hbad] at hok
        cases hok
      · split at hread
        · exact ih hid _ hread
        · obtain ⟨_, -, hread⟩ := except_bind_eq_ok.1 hread
          obtain ⟨_, hread, -⟩ := except_bind_eq_ok.1 hread
          exact ih hid _ hread

/-! ### A file that cannot be read -/

/-- A scan fails when the files of one of its hours cannot be read. -/
theorem scanHours_eq_false {io : TickIo} {d : Disk} {snap : TickSnapshot} {uuid : ℤ → ℕ → String}
    {hours : List ℤ} {hour : ℤ}
    (hhour : hour ∈ hours) (hreads : io.readsHour d snap hour = false) :
      (scanHours X io d snap uuid hours).2 = false := by
  induction hours with
  | nil => cases hhour
  | cons first hours ih =>
    rw [scanHours]
    rcases mem_cons.1 hhour with rfl | hhour
    · have hfail : (scanHour X io d snap uuid hour).2 = false := by
        rw [scanHour, hreads]
        rfl
      simp only [hfail, Bool.false_eq_true, if_false]
    · split_ifs with hnow
      · exact ih hhour
      · exact Bool.not_eq_true _ ▸ hnow

/-- Then the tick leaves the manifest as it is. -/
theorem manifest_tryTick_of_failed_scan {cfg : Config} {now : ℤ} {uuid : ℤ → ℕ → String}
    {io : TickIo} {s : State}
    (h : (scanHours X io s.disk s.mem.manifest.tickSnapshot uuid
      (hoursFrom s.mem.manifest.tickSnapshot.start
      (targetHour cfg now s.mem.memtable.minEventTimestampMs))).2 = false) :
    (tryTick X cfg now uuid io s).1.mem.manifest = s.mem.manifest ∧
      ∀ saved, .manifestSave saved ∉ (tryTick X cfg now uuid io s).1.effects := by
  unfold tryTick
  simp only [h, Bool.false_eq_true, if_false]
  split
  · exact ⟨rfl, fun _ => not_mem_nil⟩
  · split
    · exact ⟨(manifest_tryDrain io s).2.1, (manifest_tryDrain io s).1⟩
    · split
      · exact ⟨rfl, fun _ => not_mem_nil⟩
      · refine ⟨rfl, fun saved hsaved => ?_⟩
        obtain ⟨seg, -, hseg⟩ := mem_map.1 hsaved
        cases hseg

/-- An hour from the watermark on that a listed segment overlaps is one that a tick comes to: a new
database starts where its data begins. -/
theorem hour_mem_hoursFrom {snap : TickSnapshot} {m : SegmentMeta} (hm : m ∈ snap.rawSegments)
    {i : ℕ} {target : ℤ}
    (hlt : snap.watermark + i * HOUR_MS < target) (hover : m.minTimestampMs < snap.watermark +
      i * HOUR_MS + HOUR_MS) :
    snap.watermark + i * HOUR_MS ∈ hoursFrom snap.start target := by
  rw [mem_hoursFrom_iff, TickSnapshot.start]
  split_ifs with hnew
  · rw [hnew.1, zero_add] at hover hlt ⊢
    obtain ⟨t, ht⟩ : ∃ t, (snap.rawSegments.map (·.minTimestampMs)).min? = some t := by
      cases hmin : (snap.rawSegments.map (·.minTimestampMs)).min? with
      | some t => exact ⟨t, rfl⟩
      | none =>
        rw [List.min?_eq_none_iff] at hmin
        rw [map_eq_nil_iff.1 hmin] at hm
        cases hm
    have hle : t ≤ m.minTimestampMs := (List.min?_eq_some_iff.1 ht).2 _ (mem_map_of_mem hm)
    rw [ht, Option.getD_some, floorHour]
    refine ⟨⟨i - t.tdiv HOUR_MS, by ring⟩, ?_, hlt⟩
    -- Division rounds towards zero: a time before 1970 starts no later than 1970.
    have hdiv : t.tdiv HOUR_MS ≤ i := by
      rcases le_or_gt 0 t with hpos | hneg
      · rw [Int.tdiv_eq_ediv_of_nonneg hpos]
        simp only [HOUR_MS] at hover ⊢
        omega
      · have hpos : 0 ≤ (-t).tdiv HOUR_MS := Int.tdiv_nonneg (by omega) (by decide)
        rw [Int.neg_tdiv] at hpos
        omega
    exact mul_le_mul_of_nonneg_right hdiv (by decide)
  · refine ⟨⟨i, by ring⟩, ?_, hlt⟩
    simp only [HOUR_MS]
    omega

end

/-- **What cannot be read is not passed over.** A listed raw segment has a file, and the file cannot
be read. Then a tick that comes to one of its hours leaves the manifest as it is, in memory and on
disk, and a plan with the segment among its inputs does nothing. -/
theorem undecodable_input_blocks (C : SegmentLibs) (X : Extern) (cfg : Config) (files : String →
    Option Bytes) (s : State)
    (m : SegmentMeta) (hm : m ∈ s.mem.manifest.rawSegments) (file : Bytes)
    (hfile : files m.segmentId = some file)
    (err : SegmentError) (hbad : readSegment C X file = .error err) :
    (∀ now uuid io (i : ℕ),
      let hour := s.mem.manifest.hourlyRollupMs + i * HOUR_MS
      hour < targetHour cfg now s.mem.memtable.minEventTimestampMs → hour ≤ m.maxTimestampMs →
        m.minTimestampMs < hour + HOUR_MS →
        let r := tickOn C X files cfg now uuid io s
        r.1.mem.manifest = s.mem.manifest ∧ ∀ saved, .manifestSave saved ∉ r.1.effects) ∧
    ∀ uuid saveOk now plan, m.segmentId ∈ plan.segmentIds →
      runOnePlanOn C X files uuid saveOk now plan s = (.skip s, none) := by
  constructor
  · intro now uuid io i hour hlt hmax hmin r
    refine manifest_tryTick_of_failed_scan (scanHours_eq_false (hour_mem_hoursFrom hm hlt hmin) ?_)
    -- The file is there, and it cannot be read.
    have hthere : ((s.onFiles C X files).disk.seg m.segmentId).isNone = false := by
      show ((files m.segmentId).map _).isNone = false
      rw [hfile]
      rfl
    have hunreadable : readable C X files m.segmentId = false := by
      rw [readable, hfile, Option.all_some, hbad]
      rfl
    rw [TickIo.readsHour, all_eq_false]
    refine ⟨m, mem_filter.2 ⟨hm, ?_⟩, ?_⟩
    · simp only [Bool.not_eq_true', Bool.or_eq_false_iff, decide_eq_false_iff_not, not_lt, not_le]
      exact ⟨hmax, hmin⟩
    · simp only [hthere, hunreadable, Bool.and_false, Bool.or_false, Bool.false_eq_true,
        not_false_eq_true]
  · intro uuid saveOk now plan hplan
    obtain ⟨err', herr⟩ := readSegments_error hplan hfile hbad
    rw [runOnePlanOn, herr]

/-! ### A file that is missing -/

/-- Nothing else goes wrong. -/
def soundIo : TickIo := ⟨fun _ _ => true, fun _ _ => true, none, true, true⟩

theorem undecodable_input_blocks_of_empty_files :
    (∃ m ∈ flushedState.mem.manifest.rawSegments, 7200000 ≤ m.maxTimestampMs ∧
      m.minTimestampMs < 10800000) ∧
      (tickOn .sample .sample
        (fun _ => some []) sampleConfig 10900000 (taggedHourUuid 'r') soundIo
          flushedState).1.mem.manifest =
        flushedState.mem.manifest ∧
      ∀ m ∈ flushedState.mem.manifest.rawSegments,
        runOnePlanOn .sample .sample
          (fun _ => some []) (taggedUuid 'm') true 10900000 ⟨m.bucket, [m.segmentId]⟩ flushedState =
          (.skip flushedState, none) := by
  have hthere : ∃ m ∈ flushedState.mem.manifest.rawSegments, 7200000 ≤ m.maxTimestampMs ∧
      m.minTimestampMs < 10800000 := by
    decide +kernel
  have hbad : readSegment .sample .sample [] = .error .tooSmall := rfl
  refine ⟨hthere, ?_, fun m hm => ?_⟩
  · obtain ⟨m, hm, hmax, hmin⟩ := hthere
    have htick :=
      (undecodable_input_blocks .sample .sample sampleConfig
        (fun _ => some []) flushedState m hm [] rfl _ hbad).1
      10900000 (taggedHourUuid 'r') soundIo 2
    have hhour : flushedState.mem.manifest.hourlyRollupMs + ((2 : ℕ) : ℤ) * HOUR_MS =
      7200000 := by decide +kernel
    rw [hhour] at htick
    exact (htick (by decide +kernel) hmax hmin).1
  · exact (undecodable_input_blocks .sample .sample sampleConfig
      (fun _ => some []) flushedState m hm [] rfl _ hbad).2
      _ _ _ _ (mem_singleton_self _)

/-- A store with two raw segments of one bucket. -/
def twoSegments : State :=
  ⟨.empty, {
    manifest := {
      rawSegments := [buildSegmentMeta "raw_a" [sampleEvent "c" "acme" 7200000 1] 0 0,
        buildSegmentMeta "raw_b" segmentEvents 0 0] }
    dedupe := .new 10
    memtable := ⟨[], 0, none⟩
    activeId := 1
    queue := [] }⟩

/-- Only one of the files is there. -/
def onlySecond (file : Bytes) (id : String) : Option Bytes := if id = "raw_b" then some file else none

/-- Both segments are merged. -/
def mergeBoth : CompactionPlan := ⟨0, ["raw_a", "raw_b"]⟩

/-- **What is missing is passed over.** One of two listed segments has no file. The tick moves the
watermark past its hour, and the plan that has both among its inputs is committed: the segment is no
longer listed, and its event is gone. -/
theorem missing_input_is_passed_over :
    ∃ files : String → Option Bytes, files "raw_a" = none ∧
      (∃ m ∈ twoSegments.mem.manifest.rawSegments, m.segmentId = "raw_a" ∧ 7200000 ≤ m.maxTimestampMs ∧
        m.minTimestampMs < 10800000) ∧
      (tickOn .sample .sample files sampleConfig 10900000 (taggedHourUuid 'r') soundIo
        twoSegments).1.mem.manifest.hourlyRollupMs =
        10800000 ∧
      (runOnePlanOn .sample .sample files (taggedUuid 'm') true 10900000 mergeBoth twoSegments).2 =
        some true ∧
      "raw_a" ∉ (runOnePlanOn .sample .sample files (taggedUuid 'm') true 10900000 mergeBoth
        twoSegments).1.mem.manifest.rawIds := by
  obtain ⟨file, -, -, -, hread⟩ :=
    exists_readSegment SegmentLibs.lawful_sample .sample (by decide : segmentEvents.length < 2 ^ 32)
      columnsFit_segmentEvents
  have hstate : twoSegments.onFiles .sample .sample (onlySecond file) =
      ⟨{ Disk.empty with seg := fun id => if id = "raw_b" then some segmentEvents else none },
          twoSegments.mem⟩ := by
    have hseg :
        (fun id => (onlySecond file id).map fun file =>
          (scanSegment .sample .sample file).toOption.getD []) =
        fun id => if id = "raw_b" then some segmentEvents else none := by
      funext id
      rw [onlySecond]
      split_ifs
      · rw [Option.map_some, scanSegment_of_readSegment hread]
        rfl
      · rfl
    rw [State.onFiles, Disk.onFiles, hseg]
    rfl
  have hio :
      { soundIo with readOk := fun hour id =>
        soundIo.readOk hour id && readable .sample .sample (onlySecond file) id } =
      soundIo := by
    have hok :
        (fun (hour : ℤ) id => soundIo.readOk hour id && readable .sample .sample (onlySecond file) id) =
          fun _ _ => true := by
      funext hour id
      rw [readable, onlySecond]
      split_ifs
      · rw [Option.all_some, hread]
        rfl
      · rfl
    rw [hok]
    rfl
  have hplan : readSegments .sample .sample (onlySecond file) mergeBoth.segmentIds =
      .ok (segmentEvents ++ []) := by
    show (do let events ← readSegment .sample .sample file; return events ++ (← Except.ok [])) = _
    rw [hread]
    rfl
  refine ⟨onlySecond file, rfl, by decide +kernel, ?_, ?_⟩
  · rw [tickOn, hio, hstate]
    decide +kernel
  · obtain ⟨out, hout⟩ := exists_finish SegmentLibs.lawful_sample .sample
      (sortAndDedupe (segmentEvents ++ []))
    have hne : (sortAndDedupe (segmentEvents ++ [])).isEmpty = false := by decide +kernel
    rw [runOnePlanOn, hplan]
    simp only [hne, Bool.false_eq_true, if_false, hout]
    rw [hstate]
    decide +kernel

end UsageDb
