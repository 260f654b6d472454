import UsageDb.Rollup.Worker
import UsageDb.Runtime.FailedRotate
import Mathlib.Data.List.TakeWhile

/-!
# A tick against the reference aggregation

What a tick commits is compared with a query over the raw events: for every hour from the
watermark to the target and every bucket that has not been rolled up in it, one segment if the
bucket has events in the hour and none if not, with the events grouped by key
(`RollupBuilder.Aggregates`) and the raw segments they came from.

A tick can fail on the way: a raw segment cannot be read, a rollup file cannot be written, or the
drain of an old memtable fails. `tryTick` is the tick with its I/O (`TickIo`); it goes through
the hours one after another and stops at the first error. When nothing fails it is `tick`
(`tryTick_of_ok`).
-/

namespace UsageDb

open Lib List

variable {X : Extern} {cfg : Config} {d : Disk} {snap : TickSnapshot} {uuid : ℤ → ℕ → String}
  {s : State} {hour target : ℤ}

/-- The raw events of a bucket in an hour. -/
def hourEvents (X : Extern) (d : Disk) (snap : TickSnapshot) (hour : ℤ) (bucket : ℕ) :
    List UsageEvent :=
  (snap.rawSegments.flatMap d.rows).filter fun e =>
    (hour ≤ e.timestampMs && e.timestampMs < hour + HOUR_MS) &&
      X.bucketForAccount e.accountId snap.buckets = bucket

/-! ### The segments of an hour -/

/-- The rows of an hour that go into a bucket are its events, when it has not been rolled up. -/
theorem map_hourRows_bucket {bucket : ℕ} (hok : ∀ m ∈ snap.rawSegments, TimesOk d m)
    (hnew : snap.alreadyRolled hour bucket = false) :
    ((hourRows X d snap hour).filter
      fun row => X.bucketForAccount row.2.accountId snap.buckets = bucket).map (·.2) =
      hourEvents X d snap hour bucket := by
  have hfilter : ((hourRows X d snap hour).filter fun row =>
      X.bucketForAccount row.2.accountId snap.buckets = bucket).map (·.2) =
        ((hourRows X d snap hour).map (·.2)).filter
            fun e => X.bucketForAccount e.accountId snap.buckets = bucket := by
    rw [filter_map]
    rfl
  rw [hfilter, map_hourRows hour hok, filter_filter, hourEvents]
  refine filter_congr fun e _ => ?_
  by_cases hb : X.bucketForAccount e.accountId snap.buckets = bucket
  · simp [hb, hnew]
  · simp [hb]

/-- A row of an hour is an event of its raw segment in the hour. -/
theorem mem_hourRows {row : String × UsageEvent} (hok : ∀ m ∈ snap.rawSegments, TimesOk d m) :
    row ∈ hourRows X d snap hour ↔ (∃ m ∈ snap.rawSegments, m.segmentId = row.1 ∧ row.2 ∈ d.rows m) ∧
      (hour ≤ row.2.timestampMs ∧ row.2.timestampMs < hour + HOUR_MS) ∧
        snap.alreadyRolled hour (X.bucketForAccount row.2.accountId snap.buckets) = false := by
  obtain ⟨id, e⟩ := row
  simp only [hourRows, mem_flatMap, mem_map, mem_filter, Prod.mk.injEq, Bool.and_eq_true,
    Bool.not_eq_true', Bool.or_eq_false_iff, decide_eq_false_iff_not, not_lt, not_le]
  constructor
  · rintro ⟨m, ⟨hm, -⟩, e', ⟨he, htimes, hnew⟩, rfl, rfl⟩
    exact ⟨⟨m, hm, rfl, he⟩, htimes, hnew⟩
  · rintro ⟨⟨m, hm, rfl, he⟩, htimes, hnew⟩
    obtain ⟨hmin, hmax⟩ := (hok m hm).bounds e he
    exact ⟨m, ⟨hm, by omega, by omega⟩, e, ⟨he, htimes, hnew⟩, rfl, rfl⟩

/-- What a segment says of a bucket of an hour. -/
structure HourSegment (X : Extern) (d : Disk) (snap : TickSnapshot) (hour : ℤ) (bucket : ℕ)
    (seg : SegmentMeta × List HourlyRollupRecord) : Prop where
  /-- Its records are the bucket's events in the hour, grouped by key. -/
  records : RollupBuilder.Aggregates X (hourEvents X d snap hour bucket) seg.2
  /-- Its inputs are the raw segments with such an event, … -/
  inputs : ∀ id, id ∈ seg.1.inputSegmentIds ↔ ∃ m ∈ snap.rawSegments, m.segmentId = id ∧
    ∃ e ∈ d.rows m, (hour ≤ e.timestampMs ∧ e.timestampMs < hour + HOUR_MS) ∧
      X.bucketForAccount e.accountId snap.buckets = bucket
  /-- … each once. -/
  nodup : seg.1.inputSegmentIds.Nodup

theorem absQuantity_hourEvents (hour : ℤ) (bucket : ℕ) :
    RollupBuilder.absQuantity (hourEvents X d snap hour bucket) ≤
      RollupBuilder.absQuantity (snap.rawSegments.flatMap d.rows) :=
  RollupBuilder.absQuantity_sublist filter_sublist

/-- **The segment of a bucket in an hour**: there is one if the bucket has events, and it says what
they come to. -/
theorem filter_hourRollups {bucket : ℕ} (hok : ∀ m ∈ snap.rawSegments, TimesOk d m)
    (hfit : RollupBuilder.absQuantity (snap.rawSegments.flatMap d.rows) < 2 ^ 127)
    (hnew : snap.alreadyRolled hour bucket = false) :
    (hourEvents X d snap hour bucket = [] →
      ((hourRollups X d snap uuid hour).filter fun seg => seg.1.bucket = bucket) = []) ∧
    (hourEvents X d snap hour bucket ≠ [] → ∃ seg,
      ((hourRollups X d snap uuid hour).filter fun seg => seg.1.bucket = bucket) = [seg] ∧
        HourSegment X d snap hour bucket seg) := by
  have hrows := map_hourRows_bucket (X := X) hok hnew
  have hnil :
      ((hourRows X d snap hour).filter
        fun row => X.bucketForAccount row.2.accountId snap.buckets = bucket) = [] ↔
      hourEvents X d snap hour bucket = [] := by
    rw [← hrows, map_eq_nil_iff]
  have hsegs : ((hourRollups X d snap uuid hour).filter fun seg => seg.1.bucket = bucket) =
      ((groups (fun row : String × UsageEvent => X.bucketForAccount row.2.accountId snap.buckets)
        (hourRows X d snap hour)).filter fun g => g.1 = bucket).map fun g =>
          rollupSegment X uuid hour g.1 (g.2.foldl (HourBucket.add X) ⟨∅, []⟩) := by
    rw [hourRollups_eq, filter_map]
    rfl
  rw [filter_groups] at hsegs
  constructor
  · intro hempty
    rw [hsegs, if_pos (hnil.2 hempty)]
    rfl
  · intro hne
    rw [if_neg fun h => hne (hnil.1 h)] at hsegs
    have hmem :
        ∀ seg, ((hourRollups X d snap uuid hour).filter fun seg => seg.1.bucket = bucket) = [seg] →
        seg ∈ hourRollups X d snap uuid hour :=
          fun seg h => mem_of_mem_filter (h ▸ mem_singleton_self seg)
    refine ⟨_, hsegs, ?_, fun id => ?_, nodup_foldl_add_inputs nodup_nil⟩
    · have hrec :=
        RollupBuilder.aggregates_buildRecords X
          ((absQuantity_hourEvents (X := X) hour bucket).trans_lt hfit)
      rw [← hrows] at hrec ⊢
      simp only [rollupSegment, foldl_add_builder]
      exact hrec
    · rw [mem_inputSegmentIds (hmem _ hsegs)]
      constructor
      · rintro ⟨row, hrow, hb, rfl⟩
        obtain ⟨⟨m, hm, hid, he⟩, htimes, -⟩ := (mem_hourRows hok).1 hrow
        exact ⟨m, hm, hid, row.2, he, htimes, hb⟩
      · rintro ⟨m, hm, rfl, e, he, htimes, hb⟩
        refine ⟨(m.segmentId, e), (mem_hourRows hok).2 ⟨⟨m, hm, rfl, he⟩, htimes, ?_⟩, hb, rfl⟩
        rw [hb]
        exact hnew

/-! ### The segments of a tick -/

theorem minTimestampMs_hourRollups {seg : SegmentMeta × List HourlyRollupRecord}
    (hseg : seg ∈ hourRollups X d snap uuid hour) : seg.1.minTimestampMs = hour := by
  rw [hourRollups_eq] at hseg
  obtain ⟨g, -, rfl⟩ := mem_map.1 hseg
  rfl

/-- The segments a scan makes for a bucket of an hour are those the hour makes for it. -/
theorem filter_newRollups {start : ℤ} (bucket : ℕ) (hhour : hour ∈ hoursFrom start target) :
    ((newRollups X d snap uuid start target).filter
      fun seg => seg.1.minTimestampMs = hour && seg.1.bucket = bucket) =
      (hourRollups X d snap uuid hour).filter fun seg => seg.1.bucket = bucket := by
  obtain ⟨xs, ys, hsplit⟩ := append_of_mem hhour
  have hnodup := hoursFrom_nodup start target
  rw [hsplit, nodup_middle, nodup_cons] at hnodup
  have hother : ∀ hours : List ℤ, (∀ h ∈ hours, h ∈ xs ++ ys) →
      (hours.flatMap (hourRollups X d snap uuid)).filter
      (fun seg => decide (seg.1.minTimestampMs = hour) && decide (seg.1.bucket = bucket)) = [] := by
    intro hours hsub
    rw [filter_eq_nil_iff]
    intro seg hseg hpred
    obtain ⟨h, hh, hseg⟩ := mem_flatMap.1 hseg
    rw [Bool.and_eq_true, decide_eq_true_eq, minTimestampMs_hourRollups hseg] at hpred
    exact hnodup.1 (hpred.1 ▸ hsub h hh)
  have hself : (hourRollups X d snap uuid hour).filter
      (fun seg => decide (seg.1.minTimestampMs = hour) && decide (seg.1.bucket = bucket)) =
        (hourRollups X d snap uuid hour).filter fun seg => seg.1.bucket = bucket := by
    refine filter_congr fun seg hseg => ?_
    rw [minTimestampMs_hourRollups hseg, decide_eq_true rfl, Bool.true_and]
  rw [newRollups, hsplit, flatMap_append, flatMap_cons, filter_append, filter_append, hself,
    hother xs fun h hh => mem_append_left _ hh, hother ys fun h hh => mem_append_right _ hh, nil_append,
    append_nil]

/-- A bucket that has been rolled up in an hour is not rolled up again. -/
theorem alreadyRolled_newRollups {start : ℤ} {seg : SegmentMeta × List HourlyRollupRecord}
    (hok : ∀ m ∈ snap.rawSegments, TimesOk d m) (hseg : seg ∈ newRollups X d snap uuid start target) :
    snap.alreadyRolled seg.1.minTimestampMs seg.1.bucket = false := by
  obtain ⟨hour, -, hseg⟩ := mem_flatMap.1 hseg
  rw [hourRollups_eq] at hseg
  obtain ⟨⟨b, g⟩, hg, rfl⟩ := mem_map.1 hseg
  obtain ⟨rfl, hne⟩ := mem_groups.1 hg
  obtain ⟨row, hrow⟩ := exists_mem_of_ne_nil _ hne
  obtain ⟨hrow, hb⟩ := mem_filter.1 hrow
  have hnew := ((mem_hourRows hok).1 hrow).2.2
  rwa [of_decide_eq_true hb] at hnew

/-- What a tick that commits the manifest `m`, with the new segments `new`, has done. -/
structure ReferenceTick (X : Extern) (s : State) (m : Manifest)
    (new : List (SegmentMeta × List HourlyRollupRecord)) :
    Prop where
  /-- The new watermark is a full hour, … -/
  aligned : HOUR_MS ∣ m.hourlyRollupMs
  /-- … above the old one, … -/
  above : s.mem.manifest.hourlyRollupMs < m.hourlyRollupMs
  /-- … and no event of the memtable is in an hour below it. -/
  memtable : ∀ e ∈ s.mem.memtable.events, m.hourlyRollupMs ≤ e.hourMs
  /-- The new segments are listed after the others. -/
  listed : m.rollupSegments = s.mem.manifest.rollupSegments ++ new.map (·.1)
  /-- They are of hours between the watermarks and of buckets not rolled up in them. -/
  range : ∀ seg ∈ new, (HOUR_MS ∣ seg.1.minTimestampMs ∧
    s.mem.manifest.hourlyRollupMs ≤ seg.1.minTimestampMs ∧
    seg.1.minTimestampMs < m.hourlyRollupMs) ∧
      s.mem.manifest.tickSnapshot.alreadyRolled seg.1.minTimestampMs seg.1.bucket = false
  /-- A bucket that has no event in such an hour has no segment, … -/
  none_ : ∀ hour bucket, HOUR_MS ∣ hour → s.mem.manifest.hourlyRollupMs ≤ hour →
    hour < m.hourlyRollupMs → s.mem.manifest.tickSnapshot.alreadyRolled hour bucket = false →
    hourEvents X s.disk s.mem.manifest.tickSnapshot hour bucket = [] →
      (new.filter fun seg => seg.1.minTimestampMs = hour && seg.1.bucket = bucket) = []
  /-- … and one that has has exactly one. -/
  one : ∀ hour bucket, HOUR_MS ∣ hour → s.mem.manifest.hourlyRollupMs ≤ hour → hour < m.hourlyRollupMs →
    s.mem.manifest.tickSnapshot.alreadyRolled hour bucket = false →
    hourEvents X s.disk s.mem.manifest.tickSnapshot hour bucket ≠ [] →
      ∃ seg, (new.filter fun seg => seg.1.minTimestampMs = hour && seg.1.bucket = bucket) = [seg] ∧
        HourSegment X s.disk s.mem.manifest.tickSnapshot hour bucket seg

/-- The target is not above the hour of an event of the memtable. -/
theorem targetHour_le_hourMs (cfg : Config) (now : ℤ) {m : Memtable}
    {e : UsageEvent} (he : e ∈ m.events) :
    targetHour cfg now m.minEventTimestampMs ≤ e.hourMs := by
  cases hmin : m.minEventTimestampMs with
  | none =>
    rw [Memtable.minEventTimestampMs_eq_none hmin] at he
    cases he
  | some ts => exact (min_le_right _ _).trans (floorHour_mono
      (Memtable.le_of_minEventTimestampMs hmin he))

/-- Before the start of a scan there are no events from the watermark on. -/
theorem hourEvents_below_start (bucket : ℕ) (haligned : HOUR_MS ∣ snap.watermark)
    (hok : ∀ m ∈ snap.rawSegments, TimesOk d m) (hhour : HOUR_MS ∣ hour) (hle : snap.watermark ≤ hour)
    (hlt : hour < snap.start) : hourEvents X d snap hour bucket = [] := by
  obtain ⟨hdvd, -, hraw⟩ := start_bounds haligned hok
  rw [hourEvents, filter_eq_nil_iff]
  intro e he hin
  simp only [Bool.and_eq_true, decide_eq_true_eq] at hin
  have hstart := hraw e he (hle.trans hin.1.1)
  obtain ⟨a, rfl⟩ := hhour
  obtain ⟨b, hb⟩ := hdvd
  rw [hb] at hlt hstart
  simp only [HOUR_MS] at hlt hstart hin
  omega

/-- **A tick commits the reference aggregation.** -/
theorem referenceTick_commit {now : ℤ} (haligned : HOUR_MS ∣ s.mem.manifest.hourlyRollupMs)
    (hok : ∀ m ∈ s.mem.manifest.rawSegments, TimesOk s.disk m)
    (hfit : RollupBuilder.absQuantity (s.disk.rawEvents s.mem.manifest) < 2 ^ 127)
    (htarget : s.mem.manifest.tickSnapshot.start < targetHour cfg now
      s.mem.memtable.minEventTimestampMs) :
    let target := targetHour cfg now s.mem.memtable.minEventTimestampMs
    let new := newRollups X s.disk s.mem.manifest.tickSnapshot uuid
      s.mem.manifest.tickSnapshot.start target
    ReferenceTick X s (s.mem.manifest.commitRollup (new.map (·.1)) target).saved new := by
  intro target new
  have hdvd : HOUR_MS ∣ target := targetHour_dvd _ _ _
  have hfit :
    RollupBuilder.absQuantity (s.mem.manifest.tickSnapshot.rawSegments.flatMap s.disk.rows) <
      2 ^ 127 := hfit
  have haligned : HOUR_MS ∣ s.mem.manifest.tickSnapshot.watermark := haligned
  obtain ⟨hstart, hwm, -⟩ := start_bounds haligned hok
  have hfilter : ∀ hour bucket, HOUR_MS ∣ hour → s.mem.manifest.tickSnapshot.start ≤ hour →
      hour < target → (new.filter fun seg => seg.1.minTimestampMs = hour && seg.1.bucket = bucket) =
        (hourRollups X s.disk s.mem.manifest.tickSnapshot uuid hour).filter
            fun seg => seg.1.bucket = bucket :=
    fun hour bucket hhour hle hlt =>
      filter_newRollups bucket ((mem_hoursFrom hstart).2 ⟨hhour, hle, hlt⟩)
  refine ⟨hdvd, hwm.trans_lt htarget,
    fun e he => targetHour_le_hourMs cfg now he, rfl, fun seg hseg => ?_,
    fun hour bucket hhour hle hlt hnew hnil => ?_, fun hour bucket hhour hle hlt hnew hne => ?_⟩
  · obtain ⟨h1, h2, h3⟩ := (mem_hoursFrom hstart).1 (minTimestampMs_newRollups hseg)
    exact ⟨⟨h1, hwm.trans h2, h3⟩, alreadyRolled_newRollups hok hseg⟩
  · by_cases hin : s.mem.manifest.tickSnapshot.start ≤ hour
    · rw [hfilter hour bucket hhour hin hlt]
      exact (filter_hourRollups hok hfit hnew).1 hnil
    · rw [filter_eq_nil_iff]
      intro seg hseg hpred
      rw [Bool.and_eq_true, decide_eq_true_eq] at hpred
      have hge := ((mem_hoursFrom hstart).1 (minTimestampMs_newRollups hseg)).2.1
      exact hin (hpred.1 ▸ hge)
  · have hin : s.mem.manifest.tickSnapshot.start ≤ hour := by
      by_contra hlow
      exact hne (hourEvents_below_start bucket haligned hok hhour hle (not_le.1 hlow))
    rw [hfilter hour bucket hhour hin hlt]
    exact (filter_hourRollups hok hfit hnew).2 hne

/-! ### A tick with its I/O -/

/-- What goes wrong in a tick, if anything. -/
structure TickIo where
  /-- Whether a raw segment can be read for an hour. -/
  readOk : ℤ → String → Bool
  /-- Whether the rollup file of an hour and bucket can be written. -/
  writeOk : ℤ → ℕ → Bool
  /-- Where the rotation of a forced drain fails. -/
  rotate : Option RotateStep
  /-- Whether the drained batch can be sent. -/
  sendOk : Bool
  /-- Whether the manifest can be saved. -/
  saveOk : Bool

/-- Nothing goes wrong before the save. -/
structure TickIo.Ok (io : TickIo) : Prop where
  /-- Reads, … -/
  read : ∀ hour id, io.readOk hour id
  /-- … writes, … -/
  write : ∀ hour bucket, io.writeOk hour bucket
  /-- … the rotation … -/
  rotate : io.rotate = none
  /-- … and the send work. -/
  send : io.sendOk

section TryTick

variable (X : Extern) (cfg : Config)

/-- The raw segments of an hour whose files are there can be read. -/
def TickIo.readsHour (io : TickIo) (d : Disk) (snap : TickSnapshot) (hour : ℤ) : Bool :=
  (snap.rawSegments.filter fun m => !(m.maxTimestampMs < hour || hour + HOUR_MS ≤ m.minTimestampMs)).all
    fun m => (d.seg m.segmentId).isNone || io.readOk hour m.segmentId

/-- One hour of the loop: the segments that are written, and whether all are. -/
def scanHour (io : TickIo) (d : Disk) (snap : TickSnapshot) (uuid : ℤ → ℕ → String) (hour : ℤ) :
    List (SegmentMeta × List HourlyRollupRecord) × Bool :=
  if io.readsHour d snap hour then
    let segs := hourRollups X d snap uuid hour
    (segs.takeWhile fun seg => io.writeOk hour seg.1.bucket,
      segs.all fun seg => io.writeOk hour seg.1.bucket)
  else ([], false)

/-- The loop: it stops at the first hour that fails. -/
def scanHours (io : TickIo) (d : Disk) (snap : TickSnapshot) (uuid : ℤ → ℕ → String) :
    List ℤ → List (SegmentMeta × List HourlyRollupRecord) × Bool
  | [] => ([], true)
  | hour :: hours =>
    let now := scanHour X io d snap uuid hour
    if now.2 then
      let rest := scanHours io d snap uuid hours
      (now.1 ++ rest.1, rest.2)
    else now

/-- `force_drain_memtable`, and whether it succeeds: what is drained is lost when the rotation or
the send fails. -/
def tryDrain (io : TickIo) (s : State) : Outcome × Bool :=
  if s.mem.memtable.events.isEmpty then (.skip s, true)
  else match io.rotate with
    | some at_ => (⟨[], (Node.failDrain ⟨s, s.mem.activeId, []⟩ at_).state.mem⟩, false)
    | none => if io.sendOk then (forceDrainMemtable s, true) else (⟨(forceDrain s).effects,
        (forceDrain s).mem⟩, false)

/-- `tick` with its I/O: what it does and what it returns, `none` for an error. -/
def tryTick (now : ℤ) (uuid : ℤ → ℕ → String) (io : TickIo) (s : State) :
    Outcome × Option RollupTickStats :=
  let snap := s.mem.manifest.tickSnapshot
  if snap.inFlight s.mem.activeId then (.skip s, some ⟨0, snap.watermark, 0, false, true⟩)
  else if needsForceDrain cfg now s.mem.memtable then
    let r := tryDrain io s
    (r.1, if r.2 then some ⟨0, snap.watermark, 0, true, false⟩ else none)
  else
    let target := targetHour cfg now s.mem.memtable.minEventTimestampMs
    if target ≤ snap.start then (.skip s, some ⟨0, snap.start, 0, false, false⟩)
    else
      let r := scanHours X io s.disk snap uuid (hoursFrom snap.start target)
      if r.2 then
        (commitTick io.saveOk s r.1 target,
          if io.saveOk then some ⟨r.1.length, target, (hoursFrom snap.start target).length, false,
            false⟩ else none)
      else (⟨rollupEffects r.1, s.mem⟩, none)

end TryTick

variable {io : TickIo} {now : ℤ}

/-- A scan that comes to its end has made the segments of all hours. -/
theorem scanHours_eq {hours : List ℤ} (h : (scanHours X io d snap uuid hours).2) :
    (scanHours X io d snap uuid hours).1 = hours.flatMap (hourRollups X d snap uuid) := by
  induction hours with
  | nil => rfl
  | cons hour hours ih =>
    rw [scanHours] at h ⊢
    dsimp only at h ⊢
    by_cases hnow : (scanHour X io d snap uuid hour).2
    · rw [if_pos hnow] at h ⊢
      have hself : (scanHour X io d snap uuid hour).1 = hourRollups X d snap uuid hour := by
        rw [scanHour] at hnow ⊢
        split at hnow
        · rename_i hreads
          rw [if_pos hreads]
          exact takeWhile_eq_self_iff.2 (all_eq_true.1 hnow)
        · cases hnow
      rw [flatMap_cons, ih h, hself]
    · rw [if_neg hnow] at h
      exact absurd h hnow

/-- It does when nothing goes wrong. -/
theorem scanHours_of_ok (hio : io.Ok) (hours : List ℤ) : (scanHours X io d snap uuid hours).2 := by
  induction hours with
  | nil => rfl
  | cons hour hours ih =>
    have hnow : (scanHour X io d snap uuid hour).2 := by
      have hreads : io.readsHour d snap hour := by
        simp [TickIo.readsHour, hio.read]
      rw [scanHour, if_pos hreads]
      simp [hio.write]
    rw [scanHours]
    rw [if_pos hnow]
    exact ih

/-- **When nothing goes wrong it is the tick.** -/
theorem tryTick_of_ok (hio : io.Ok) : tryTick X cfg now uuid io s =
    tick X cfg now uuid io.saveOk s := by
  have hdrain : tryDrain io s = (forceDrainMemtable s, true) := by
    rw [tryDrain]
    split
    · rename_i hempty
      rw [forceDrainMemtable, forceDrain, hempty]
      rfl
    · rw [hio.rotate]
      rw [if_pos hio.send]
  have hscan : ∀ hours, (scanHours X io s.disk s.mem.manifest.tickSnapshot uuid hours).2 :=
    scanHours_of_ok hio
  simp only [tryTick, tick, hdrain, hscan, if_true, scanHours_eq (hscan _)]
  rfl

/-- What a tick comes to: nothing, a drain, a commit of the rollups from the start to the target,
or some of their files when the scan fails. -/
theorem tryTick_cases (X : Extern) (cfg : Config) (now : ℤ) (uuid : ℤ → ℕ → String)
    (io : TickIo) (s : State) :
    (∃ stats, tryTick X cfg now uuid io s = (.skip s, some stats) ∧ stats.forcedFlush = false ∧
      ∀ uuid' io', (tryTick X cfg now uuid' io' s).1 = .skip s) ∨
    (needsForceDrain cfg now s.mem.memtable ∧ ∃ stats, tryTick X cfg now uuid io s =
      ((tryDrain io s).1, if (tryDrain io s).2 then some stats else none) ∧ stats.forcedFlush) ∨
    needsForceDrain cfg now s.mem.memtable = false ∧
      ((∃ target, target = targetHour cfg now s.mem.memtable.minEventTimestampMs ∧
        s.mem.manifest.tickSnapshot.inFlight s.mem.activeId = false ∧
        s.mem.manifest.tickSnapshot.start < target ∧
        ∃ stats, tryTick X cfg now uuid io s = (commitTick io.saveOk s
          (newRollups X s.disk s.mem.manifest.tickSnapshot uuid s.mem.manifest.tickSnapshot.start
            target) target, if io.saveOk then some stats else none)) ∨
      ∃ segs, tryTick X cfg now uuid io s = (⟨rollupEffects segs, s.mem⟩, none)) := by
  by_cases hflight : s.mem.manifest.tickSnapshot.inFlight s.mem.activeId
  · have htick : ∀ uuid io, tryTick X cfg now uuid io s =
        (.skip s, some ⟨0, s.mem.manifest.hourlyRollupMs, 0, false, true⟩) := by
      intro uuid io
      rw [tryTick, if_pos hflight]
      rfl
    exact .inl ⟨_, htick uuid io, rfl, fun uuid' io' => by rw [htick]⟩
  by_cases hdrain : needsForceDrain cfg now s.mem.memtable
  · refine .inr (.inl ⟨hdrain, ⟨0, s.mem.manifest.hourlyRollupMs, 0, true, false⟩, ?_, rfl⟩)
    rw [tryTick, if_neg hflight, if_pos hdrain]
    rfl
  by_cases htarget : targetHour cfg now s.mem.memtable.minEventTimestampMs ≤
    s.mem.manifest.tickSnapshot.start
  · have htick : ∀ uuid io, tryTick X cfg now uuid io s =
        (.skip s, some ⟨0, s.mem.manifest.tickSnapshot.start, 0, false, false⟩) := by
      intro uuid io
      rw [tryTick, if_neg hflight, if_neg hdrain]
      exact if_pos htarget
    exact .inl ⟨_, htick uuid io, rfl, fun uuid' io' => by rw [htick]⟩
  refine .inr (.inr ⟨Bool.not_eq_true _ ▸ hdrain, ?_⟩)
  by_cases hscan : (scanHours X io s.disk s.mem.manifest.tickSnapshot uuid (hoursFrom
      s.mem.manifest.tickSnapshot.start (targetHour cfg now s.mem.memtable.minEventTimestampMs))).2
  · refine .inl ⟨_, rfl, Bool.not_eq_true _ ▸ hflight, not_le.1 htarget, ?_⟩
    simp only [tryTick, if_neg hflight, if_neg hdrain, if_neg htarget, if_pos hscan, scanHours_eq hscan]
    exact ⟨_, rfl⟩
  · refine .inr ?_
    simp only [tryTick, if_neg hflight, if_neg hdrain, if_neg htarget, if_neg hscan]
    exact ⟨_, rfl⟩

/-- A drain saves nothing and changes nothing in the manifest. -/
theorem manifest_tryDrain (io : TickIo) (s : State) :
    (∀ m, .manifestSave m ∉ (tryDrain io s).1.effects) ∧ (tryDrain io s).1.mem.manifest =
      s.mem.manifest ∧ ((tryDrain io s).1.state s).disk.manifest = s.disk.manifest := by
  have hdrain : (∀ m, .manifestSave m ∉ (forceDrain s).effects) ∧ (forceDrain s).mem.manifest =
      s.mem.manifest ∧ (s.disk.applyAll (forceDrain s).effects).manifest = s.disk.manifest := by
    rw [forceDrain, Mem.drainIf]
    split
    · refine ⟨fun m hm => ?_, rfl, rfl⟩
      cases mem_singleton.1 hm
    · exact ⟨fun m => not_mem_nil, rfl, rfl⟩
  have hsent : (forceDrainMemtable s).mem.manifest = (forceDrain s).mem.manifest := by
    rw [forceDrainMemtable, Drained.sent]
    cases (forceDrain s).msg <;> rfl
  rw [tryDrain]
  split
  · exact ⟨fun m => not_mem_nil, rfl, rfl⟩
  · split
    · exact ⟨fun m => not_mem_nil, rfl, rfl⟩
    · split
      · exact ⟨hdrain.1, hsent.trans hdrain.2.1, hdrain.2.2⟩
      · exact hdrain

/-- After a drain that succeeds a batch is in flight, or there was nothing to drain: a tick does
nothing. -/
theorem tryTick_after_drain (hdrained : (tryDrain io s).2) (hseal : s.mem.manifest.lastSealedWalId <
    s.mem.activeId)
    (hneeds : needsForceDrain cfg now s.mem.memtable) (uuid' : ℤ → ℕ → String) (io' : TickIo) :
    (tryTick X cfg now uuid' io' ((tryDrain io s).1.state s)).1 =
      .skip ((tryDrain io s).1.state s) := by
  by_cases hempty : s.mem.memtable.events.isEmpty
  · have hskip : ∀ io, tryDrain io s = (.skip s, true) := fun io => by rw [tryDrain, if_pos hempty]
    rw [hskip, Outcome.skip_state]
    rcases tryTick_cases X cfg now uuid' io' s with ⟨_, htick, -⟩ | ⟨-, _, htick, -⟩ | ⟨hneeds', -⟩
    · rw [htick]
    · rw [htick, hskip]
    · rw [hneeds] at hneeds'
      cases hneeds'
  · have hdrain : (tryDrain io s).1.state s = (forceDrainMemtable s).state s := by
      rw [tryDrain, if_neg hempty] at hdrained ⊢
      split at hdrained
      · cases hdrained
      · split at hdrained
        · rename_i hsend
          rw [if_pos hsend]
        · cases hdrained
    have hcond : (!s.mem.memtable.events.isEmpty) := by simpa using hempty
    have hflight :
        ((tryDrain io s).1.state s).mem.manifest.tickSnapshot.inFlight ((tryDrain io s).1.state
          s).mem.activeId =
        true := by
      rw [hdrain, forceDrainMemtable, forceDrain, hcond]
      exact decide_eq_true (Nat.add_lt_add_right hseal 1)
    rw [tryTick, if_pos hflight]

/-- After a commit the target has been reached. -/
theorem tryTick_after_commit (htarget : target = targetHour cfg now s.mem.memtable.minEventTimestampMs)
    (hok : ∀ m ∈ s.mem.manifest.rawSegments, TimesOk s.disk m)
    (hflight : s.mem.manifest.tickSnapshot.inFlight s.mem.activeId = false)
    (hneeds : needsForceDrain cfg now s.mem.memtable = false)
    (segs : List (SegmentMeta × List HourlyRollupRecord)) (uuid' : ℤ → ℕ → String) (io' : TickIo) :
    let s' := (commitTick true s segs target).state s
    (tryTick X cfg now uuid' io' s').1 = .skip s' := by
  subst htarget
  intro s'
  have hflight' : ¬ s'.mem.manifest.tickSnapshot.inFlight s'.mem.activeId :=
    Bool.not_eq_true _ ▸ hflight
  have hneeds' : ¬ needsForceDrain cfg now s'.mem.memtable := Bool.not_eq_true _ ▸ hneeds
  have hstart : targetHour cfg now s'.mem.memtable.minEventTimestampMs ≤
      s'.mem.manifest.tickSnapshot.start := by
    have hdvd : HOUR_MS ∣ s'.mem.manifest.tickSnapshot.watermark := targetHour_dvd _ _ _
    exact (start_bounds hdvd hok).2.1
  rw [tryTick, if_neg hflight', if_neg hneeds']
  rw [if_pos hstart]

/-- **A tick is the reference aggregation.** From any state with a full hour as watermark, sound
times in the metadata and quantities that fit, whatever the clock says and whatever goes wrong: a
manifest that a tick commits is the reference's, and it is the one in memory and on disk, with
the files of the new segments written; a second tick at the same clock value does nothing; a tick
that fails before the save leaves the manifest as it was, in memory and on disk. -/
theorem tick_is_reference_aggregation (X : Extern) (haligned : HOUR_MS ∣ s.mem.manifest.hourlyRollupMs)
    (hok : ∀ m ∈ s.mem.manifest.rawSegments, TimesOk s.disk m)
    (hfit : RollupBuilder.absQuantity (s.disk.rawEvents s.mem.manifest) < 2 ^ 127)
    (cfg : Config) (now : ℤ) (uuid : ℤ → ℕ → String) (io : TickIo) :
    let r := tryTick X cfg now uuid io s
    (∀ m, .manifestSave m ∈ r.1.effects → ∃ new, ReferenceTick X s m new ∧
      (r.1.state s).mem.manifest = m ∧ (r.1.state s).disk.manifest = some m ∧
      ((∀ h b h' b', uuid h b = uuid h' b' → h = h' ∧ b = b') →
        ∀ seg ∈ new, (r.1.state s).disk.rseg seg.1.segmentId = some seg.2)) ∧
    (∀ stats, r.2 = some stats → (stats.forcedFlush → s.mem.manifest.lastSealedWalId < s.mem.activeId) →
      ∀ uuid' io', (tryTick X cfg now uuid' io' (r.1.state s)).1 = .skip (r.1.state s)) ∧
    (r.2 = none → io.saveOk →
      (r.1.state s).mem.manifest = s.mem.manifest ∧ (r.1.state s).disk.manifest = s.disk.manifest) := by
  intro r
  -- writing rollup files is no save and leaves the manifest
  have hsave : ∀ segs m, .manifestSave m ∉ rollupEffects segs := by
    intro segs m hm
    obtain ⟨seg, -, hm⟩ := mem_map.1 hm
    cases hm
  have hfiles : ∀ segs, (s.disk.applyAll (rollupEffects segs)).manifest = s.disk.manifest := by
    intro segs
    obtain ⟨_, hr, -⟩ := rollupEffects_applyAll s.disk segs
    rw [hr]
  rcases tryTick_cases X cfg now uuid io s with ⟨stats, hr, -, hagain⟩ | ⟨hneeds, stats, hr, hforced⟩ |
    ⟨hneeds, ⟨target, htarget, hflight, hlt, stats, hr⟩ | ⟨segs, hr⟩⟩
  · rw [show r = _ from hr]
    refine ⟨fun m hm => absurd hm not_mem_nil, fun _ _ _ uuid' io' => hagain uuid' io', fun hnone => ?_⟩
    cases hnone
  · rw [show r = _ from hr]
    refine ⟨fun m hm => ?_, fun stats' hstats hseal uuid' io' =>
      ?_, fun _ _ => (manifest_tryDrain io s).2⟩
    · exact absurd hm ((manifest_tryDrain io s).1 m)
    · split at hstats
      · rename_i hdrained
        rw [Option.some.injEq] at hstats
        exact tryTick_after_drain hdrained (hseal (hstats ▸ hforced)) hneeds uuid' io'
      · cases hstats
  · subst htarget
    rw [show r = _ from hr]
    cases hok' : io.saveOk with
    | false =>
      refine ⟨fun m hm => ?_, fun _ hstats => (nomatch hstats), fun _ h => (nomatch h)⟩
      rcases mem_append.1 hm with hm | hm
      · exact absurd hm (hsave _ m)
      · obtain ⟨seg, -, hm⟩ := mem_map.1 hm
        cases hm
    | true =>
      refine ⟨fun m hm => ?_, fun _ _ _ uuid' io' =>
        tryTick_after_commit rfl hok hflight hneeds _ uuid' io', fun hnone => (nomatch hnone)⟩
      obtain rfl : m = _ := by
        rcases mem_append.1 hm with hm | hm
        · exact absurd hm (hsave _ m)
        · exact Effect.manifestSave.inj (mem_singleton.1 hm)
      refine ⟨_, referenceTick_commit haligned hok hfit hlt, rfl, ?_, fun huuid seg hseg => ?_⟩
      · show (s.disk.applyAll (rollupEffects _ ++ [_])).manifest = _
        rw [Disk.applyAll_append]
        rfl
      · obtain ⟨_, hfile, -, hmem⟩ :=
          rollupEffects_applyAll s.disk (newRollups X s.disk s.mem.manifest.tickSnapshot uuid
          s.mem.manifest.tickSnapshot.start (targetHour cfg now s.mem.memtable.minEventTimestampMs))
        show (s.disk.applyAll (rollupEffects _ ++ [_])).rseg _ = _
        rw [Disk.applyAll_append, hfile]
        exact hmem (newRollups_nodup huuid _ _) seg hseg
  · rw [show r = _ from hr]
    exact ⟨fun m hm => absurd hm (hsave segs m), fun _ hstats =>
      (nomatch hstats), fun _ _ => ⟨rfl, hfiles segs⟩⟩

/-- A state with one raw segment for each of two buckets. -/
def flushedState : State :=
  (flushNext .sample evenUuid (fun _ => 9000000) drainedState).state drainedState

theorem times_flushedState : ∀ m ∈ flushedState.mem.manifest.rawSegments,
    TimesOk flushedState.disk m := by
  have hall : (flushedState.mem.manifest.rawSegments.all fun m => decide (0 ≤ m.minTimestampMs) &&
      (flushedState.disk.rows m).all fun e => decide (m.minTimestampMs ≤ e.timestampMs) &&
        decide (e.timestampMs ≤ m.maxTimestampMs)) := by decide +kernel
  intro m hm
  have hone := all_eq_true.1 hall m hm
  rw [Bool.and_eq_true, decide_eq_true_eq, all_eq_true] at hone
  refine ⟨fun e he => ?_, hone.1⟩
  have hrow := hone.2 e he
  rwa [Bool.and_eq_true, decide_eq_true_eq, decide_eq_true_eq] at hrow

/-- The effect saves a manifest with this watermark and this number of rollup segments. -/
def savesRollups (watermark : ℤ) (count : ℕ) : Effect → Bool
  | .manifestSave m => m.hourlyRollupMs = watermark && m.rollupSegments.length = count
  | _ => false

/-- The hour of the two segments is rolled up when nothing goes wrong, and is not when a raw
segment cannot be read. -/
theorem tick_is_reference_aggregation_of_two_buckets :
    (∃ m new, ReferenceTick .sample flushedState m new ∧ m.hourlyRollupMs = 10800000 ∧
      m.rollupSegments.length = 2) ∧
    let failed := tryTick .sample sampleConfig 10900000 (taggedHourUuid 'r')
      ⟨fun _ _ => false, fun _ _ => true, none, true, true⟩ flushedState
    failed.2 = none ∧ (failed.1.state flushedState).mem.manifest = flushedState.mem.manifest := by
  have haligned : HOUR_MS ∣ flushedState.mem.manifest.hourlyRollupMs := by decide +kernel
  have hfit : RollupBuilder.absQuantity (flushedState.disk.rawEvents flushedState.mem.manifest) <
    2 ^ 127 := by decide +kernel
  have htick := tick_is_reference_aggregation .sample haligned times_flushedState hfit
    sampleConfig 10900000
    (taggedHourUuid 'r')
  constructor
  · let io : TickIo := ⟨fun _ _ => true, fun _ _ => true, none, true, true⟩
    have hsaves :
        ((tryTick .sample sampleConfig 10900000 (taggedHourUuid 'r') io flushedState).1.effects.any
        (savesRollups 10800000 2)) := by decide +kernel
    obtain ⟨x, hx, hm⟩ := any_eq_true.1 hsaves
    cases x with
    | manifestSave m =>
      obtain ⟨new, href, -⟩ := (htick io).1 m hx
      rw [savesRollups, Bool.and_eq_true, decide_eq_true_eq, decide_eq_true_eq] at hm
      exact ⟨m, new, href, hm⟩
    | _ => cases hm
  · intro failed
    have hnone : failed.2 = none := by decide +kernel
    exact ⟨hnone, ((htick _).2.2 hnone rfl).1⟩

end UsageDb
