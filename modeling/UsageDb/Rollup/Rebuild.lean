import Mathlib.Algebra.Order.BigOperators.Group.List
import UsageDb.Rollup.Coverage

/-!
# Rebuilding rollups

`rebuild_rollups` drops the rollup segments that overlap a range of times and moves the watermark
back to the beginning of the range; the next tick is to fill the gap. A tick counts its hours from
the watermark on, and skips an hour and bucket that have a segment already. Both fit together when
the range begins at a full hour. When it does not, the tick's hours are not those of the segments
that were kept: it skips none of them, it does not go back to the beginning of the hour whose
segment was dropped, and it goes beyond its target.

A state is *exact* (`State.Exact`) if the records of its rollup segments were made from the raw
events below the watermark, each used once. A segment that a tick has made is of one bucket and of
an hour that begins where the tick counted to, at a full hour or inside one (`State.ByWindow`).
`rebuild_exact_iff` says for which ranges a rebuild and a tick lead from such a state to an exact
one, and then on to exact ones: it is enough that the segments which are kept and the tick's hours
have every event below the target once, and nothing else (`State.Restores`). When the segments are
of full hours, these are the ranges that begin at a full hour or not below the watermark, and those
that have no `Misplaced` event, and with all others the rollups are not exact.
-/

namespace UsageDb

open Lib List

variable {l : List UsageEvent} {p q r : UsageEvent → Bool} {e : UsageEvent} {target : ℤ}
    {segs : List (SegmentMeta × List HourlyRollupRecord)}

/-! ### Exact rollups -/

/-- The rollup segments of a state with their records. -/
def State.rollups (X : Extern) (s : State) : List (SegmentMeta × List HourlyRollupRecord) :=
  s.disk.rollups X s.mem.manifest

/-- The raw events of a state. -/
def State.rawEvents (s : State) : List UsageEvent := s.disk.rawEvents s.mem.manifest

/-- The records of the segments were made from these events, each used once. -/
def MadeFrom (X : Extern) (segs : List (SegmentMeta × List HourlyRollupRecord))
    (events : List UsageEvent) : Prop :=
  MadeBy (fun seg src => seg.2 = RollupBuilder.buildRecords X src) segs events

/-- Every raw event below the watermark is in exactly one record of the rollup segments, and
nothing else is in a record. -/
def State.Exact (X : Extern) (s : State) : Prop :=
  MadeFrom X (s.rollups X) (s.rawEvents.filter fun e => e.timestampMs < s.mem.manifest.hourlyRollupMs)

/-- The same, where each segment is of one bucket and of an hour from any beginning. -/
def State.ByWindow (X : Extern) (s : State) : Prop :=
  MadeBy (RollupOfWindow X s.mem.manifest.buckets) (s.rollups X)
    (s.rawEvents.filter fun e => e.timestampMs < s.mem.manifest.hourlyRollupMs)

theorem State.ByWindow.exact {X : Extern} {s : State} (h : s.ByWindow X) : s.Exact X :=
  h.imp fun _ _ hseg _ => hseg.records

/-- How many events are in the records of an hour. -/
def hourCount (h : ℤ) (records : List HourlyRollupRecord) : ℕ :=
  ((records.filter fun r => r.key.hourStartMs = h).map (·.eventCount)).sum

section MadeFrom

variable {X : Extern} {segs : List (SegmentMeta × List HourlyRollupRecord)} {l : List UsageEvent}

theorem eventCount_foldl_absorb (r : HourlyRollupRecord) (group : List UsageEvent) :
    (group.foldl RollupBuilder.absorb r).eventCount = r.eventCount + group.length := by
  induction group generalizing r with
  | nil => rfl
  | cons e group ih =>
    rw [foldl_cons, ih, length_cons]
    simp only [RollupBuilder.absorb]
    omega

/-- The count of a record is that of its events. -/
theorem eventCount_of_recordOf {r : HourlyRollupRecord} {group : List UsageEvent}
    (h : RollupBuilder.RecordOf X r group) :
    r.eventCount = group.length := by
  obtain ⟨hfold, -⟩ := h
  cases group with
  | nil => cases hfold
  | cons e group =>
    rw [foldGroup, Option.some.injEq] at hfold
    rw [← hfold, eventCount_foldl_absorb]
    simp [RollupBuilder.emptyRecord]

/-- The records of a list count its events of each hour. -/
theorem hourCount_buildRecords (h : ℤ) (l : List UsageEvent) :
    hourCount h (RollupBuilder.buildRecords X l) = (l.filter fun e => e.hourMs = h).length := by
  obtain ⟨groups, hof, hperm⟩ := RollupBuilder.exists_groups_buildRecords X l
  rw [← (hperm.filter _).length_eq]
  -- record by record: the events of a record are all of its hour
  clear hperm
  generalize RollupBuilder.buildRecords X l = records at hof
  induction hof with
  | nil => rfl
  | @cons r group records groups hr _ ih =>
    have hgroup :
        (group.filter fun e => e.hourMs = h).length = if r.key.hourStartMs =
            h then r.eventCount else 0 := by
      have hkey : ∀ e ∈ group, e.hourMs = r.key.hourStartMs := fun e he => by rw [← hr.2 e he]; rfl
      split
      · rename_i heq
        rw [eventCount_of_recordOf hr, filter_eq_self.2 fun e he => by simp [hkey e he, heq]]
      · rename_i hne
        rw [filter_eq_nil_iff.2 fun e he => by simp [hkey e he, hne]]
        rfl
    rw [flatten_cons, filter_append, length_append, hgroup, ← ih, hourCount, filter_cons]
    split
    · rename_i heq
      rw [if_pos (of_decide_eq_true heq), map_cons, sum_cons]
      rfl
    · rename_i hne
      rw [if_neg (by simpa using hne), Nat.zero_add]
      rfl

/-- Segments that were made from events count those of each hour. -/
theorem MadeFrom.hourCount_eq (hm : MadeFrom X segs l) (h : ℤ) :
    (segs.map fun seg => hourCount h seg.2).sum = (l.filter fun e => e.hourMs = h).length := by
  obtain ⟨srcs, hof, hperm⟩ := hm
  rw [← (hperm.filter _).length_eq]
  clear hperm
  induction hof with
  | nil => rfl
  | @cons seg src segs srcs hseg _ ih =>
    rw [map_cons, sum_cons, ih, hseg, hourCount_buildRecords, flatten_cons, filter_append,
      length_append]

end MadeFrom

/-! ### A tick when nothing is on the move -/

/-- The memtable is empty, no batch is on its way, and the raw segments are in order. -/
structure State.Resting (X : Extern) (s : State) : Prop where
  memtable : s.mem.memtable = .new
  /-- Every sealed log file is committed. -/
  committed : s.mem.manifest.tickSnapshot.inFlight s.mem.activeId = false
  segments : ∀ m ∈ s.mem.manifest.rawSegments, SegmentOk X s.disk s.mem.manifest.buckets m

/-- The time target of a tick. -/
def timeTarget (cfg : Config) (now : ℤ) : ℤ := floorHour (now - cfg.rollupSafetyLagMs)

/-- Where a tick starts. -/
def State.tickStart (s : State) : ℤ := s.mem.manifest.tickSnapshot.start

/-- The state after a tick. -/
def State.ticked (X : Extern) (cfg : Config) (s : State) (l : ℤ × (ℤ → ℕ → String)) : State :=
  (tick X cfg l.1 l.2 true s).1.state s

/-- The state after a rebuild. -/
def State.rebuilt (s : State) (fromMs toMs : ℤ) : State := (rebuildRollups fromMs toMs true s).1.state s

/-- Whether a tick to `target` counts an event: it is in the hours of the tick, and its hour and
bucket have not been rolled up. -/
def State.counts (X : Extern) (s : State) (target : ℤ) (e : UsageEvent) : Bool :=
  (s.tickStart ≤ e.timestampMs && e.timestampMs < scanEnd s.tickStart target) &&
    !s.mem.manifest.tickSnapshot.alreadyRolled (windowStart s.tickStart e.timestampMs)
      (X.bucketForAccount e.accountId s.mem.manifest.buckets)

/-- A tick that rolls up the hours to `target`. -/
structure Scans (X : Extern) (s : State) (target : ℤ) (s' : State) : Prop where
  /-- Nothing is on the move after it. -/
  resting : s'.Resting X
  /-- The raw events are as before. -/
  raw : s'.rawEvents = s.rawEvents
  /-- The number of buckets too. -/
  buckets : s'.mem.manifest.buckets = s.mem.manifest.buckets
  watermark : s'.mem.manifest.hourlyRollupMs = target
  /-- New segments are listed, … -/
  segments : ∀ m ∈ s'.mem.manifest.rollupSegments,
    m ∈ s.mem.manifest.rollupSegments ∨ m.minTimestampMs ∈ hoursFrom s.tickStart target
  /-- … made from the events that the tick counts. -/
  rollups : ∃ new, s'.rollups X = s.rollups X ++ new ∧
    MadeBy (RollupOfWindow X s.mem.manifest.buckets) new (s.rawEvents.filter (s.counts X target))

section Tick

variable {X : Extern} {s : State}

theorem State.Resting.positive (h : s.Resting X) : ∀ e ∈ s.rawEvents, 0 < (e.timestampMs : ℤ) := by
  intro e he
  obtain ⟨m, hm, he⟩ := mem_flatMap.1 he
  exact (h.segments m hm).positive e he

/-- The commit of a scan. -/
theorem State.Resting.commit (h : s.Resting X) {now : ℤ} {uuid : ℤ → ℕ → String}
    (hfresh : (Op.rollupTick now uuid).Fresh s) (target : ℤ) :
    Scans X s target ((commitTick true s
      (newRollups X s.disk s.mem.manifest.tickSnapshot uuid s.tickStart target) target).state s) := by
  have hmade : MadeBy (RollupOfWindow X s.mem.manifest.buckets)
      (newRollups X s.disk s.mem.manifest.tickSnapshot uuid s.tickStart target)
      (s.rawEvents.filter (s.counts X target)) := 
    @newRollups_windows X s.disk s.mem.manifest.tickSnapshot uuid s.tickStart target h.segments
  have hnames : ((newRollups X s.disk s.mem.manifest.tickSnapshot uuid s.tickStart target).map
      fun seg => seg.1.segmentId).Nodup := newRollups_nodup hfresh.2 s.tickStart target
  have hnew : ∀ seg ∈ newRollups X s.disk s.mem.manifest.tickSnapshot uuid s.tickStart target,
      seg.1.minTimestampMs ∈ hoursFrom s.tickStart target ∧
        (∃ h b, seg.1.segmentId = rollupSegmentId (uuid h b)) :=
    fun seg hseg => ⟨minTimestampMs_newRollups hseg, segmentId_newRollups hseg⟩
  generalize newRollups X s.disk s.mem.manifest.tickSnapshot uuid s.tickStart target = segs at *
  obtain ⟨r, hr, hother, hfiles⟩ := rollupEffects_applyAll s.disk segs
  have hstate : (commitTick true s segs target).state s =
      ⟨Disk.apply { s.disk with rseg := r }
        (.manifestSave (s.mem.manifest.commitRollup (segs.map (·.1)) target).saved),
        { s.mem with manifest := (s.mem.manifest.commitRollup (segs.map (·.1)) target).saved }⟩ := by
    rw [← hr]
    exact congrArg (fun d => State.mk d _) (Disk.applyAll_append s.disk (rollupEffects segs) _)
  rw [hstate]
  refine ⟨⟨h.memtable, h.committed, fun m hm => ?_⟩, rfl, rfl, rfl, fun m hm => ?_, segs, ?_, hmade⟩
  · exact ⟨(h.segments m hm).file, (h.segments m hm).metadata, (h.segments m hm).bucket,
      (h.segments m hm).positive, (h.segments m hm).sidecar⟩
  · rcases mem_append.1 hm with hm | hm
    · exact .inl hm
    · obtain ⟨seg, hseg, rfl⟩ := mem_map.1 hm
      exact .inr (hnew seg hseg).1
  · rw [State.rollups, Disk.rollups, Manifest.saved_rollupSegments, Manifest.commitRollup,
      map_append, map_map]
    congr 1
    · refine map_congr_left fun m hm => ?_
      have hkept : r m.segmentId = s.disk.rseg m.segmentId := hother _ fun hid => by
        obtain ⟨seg, hseg, hid⟩ := mem_map.1 hid
        obtain ⟨-, hour, b, hname⟩ := hnew seg hseg
        refine (hfresh.1 hour b).manifest (.inr (.inl ⟨m, hm, ?_⟩))
        rw [← hname, hid]
      simp only [Disk.rollupRecords, Disk.apply, hkept]
    · refine (map_congr_left fun seg hseg => ?_).trans (map_id segs)
      obtain ⟨src, hsrc, -⟩ := hmade.exists_src hseg
      simp only [Function.comp, Disk.rollupRecords, Disk.apply, hfiles hnames seg hseg,
        hsrc.checksum, if_true]
      rfl

/-- **A tick, when nothing is on the move**: it does nothing, or it scans. -/
theorem State.Resting.ticked (h : s.Resting X) (cfg : Config) {now : ℤ} {uuid : ℤ → ℕ → String}
    (hfresh : (Op.rollupTick now uuid).Fresh s) :
    timeTarget cfg now ≤ s.tickStart ∧ s.ticked X cfg (now, uuid) = s ∨
      s.tickStart < timeTarget cfg now ∧
      Scans X s (timeTarget cfg now) (s.ticked X cfg (now, uuid)) := by
  have hdrain : needsForceDrain cfg now s.mem.memtable = false := by rw [h.memtable]; rfl
  have htarget : targetHour cfg now s.mem.memtable.minEventTimestampMs =
    timeTarget cfg now := by rw [h.memtable]; rfl
  rw [State.ticked, tick, h.committed, hdrain, htarget]
  by_cases hle : timeTarget cfg now ≤ s.tickStart
  · refine .inl ⟨hle, ?_⟩
    simp only [Bool.false_eq_true, if_false, State.tickStart] at hle ⊢
    rw [if_pos hle]
    rfl
  · refine .inr ⟨not_le.1 hle, ?_⟩
    have hcommit := h.commit hfresh (timeTarget cfg now)
    simp only [Bool.false_eq_true, if_false, State.tickStart] at hle hcommit ⊢
    rw [if_neg hle]
    exact hcommit

end Tick

/-! ### From tick to tick -/

/-- No segment stands for the full hour and the bucket of an event from `watermark` on. -/
def State.Unskipped (X : Extern) (s : State) (watermark : ℤ) : Prop :=
  ∀ e ∈ s.rawEvents, watermark ≤ e.timestampMs → ∀ m ∈ s.mem.manifest.rollupSegments,
    m.minTimestampMs = e.hourMs → m.bucket ≠ X.bucketForAccount e.accountId s.mem.manifest.buckets

/-- The rollups are exact, and a tick will find the events from the watermark on. -/
structure State.Continues (X : Extern) (s : State) : Prop where
  /-- Nothing is on the move. -/
  resting : s.Resting X
  /-- The watermark is a full hour. -/
  aligned : HOUR_MS ∣ s.mem.manifest.hourlyRollupMs
  /-- No event above it would be skipped. -/
  unskipped : s.Unskipped X s.mem.manifest.hourlyRollupMs
  /-- The rollups are exact. -/
  windows : s.ByWindow X

/-- The state after a tick that draws new names. -/
def TickStep (X : Extern) (cfg : Config) (s : State) (l : ℤ × (ℤ → ℕ → String)) (s' : State) : Prop :=
  (Op.rollupTick l.1 l.2).Fresh s ∧ s' = s.ticked X cfg l

section Continues

variable {X : Extern} {cfg : Config} {s s' : State}

/-- Two lists of events that have nothing in common. -/
theorem filter_append_filter_perm
    (h : ∀ e ∈ l, ¬ (p e ∧ q e) ∧ (r e ↔ p e ∨ q e)) :
    (l.filter p ++ l.filter q).Perm (l.filter r) := by
  induction l with
  | nil => exact .nil
  | cons e l ih =>
    have hrest := ih fun e' he' => h e' (mem_cons_of_mem _ he')
    obtain ⟨hnot, hiff⟩ := h e mem_cons_self
    rw [filter_cons, filter_cons, filter_cons]
    by_cases hp : p e
    · rw [if_pos hp, if_neg fun hq => hnot ⟨hp, hq⟩, if_pos (hiff.2 (.inl hp))]
      exact hrest.cons e
    · by_cases hq : q e
      · rw [if_neg hp, if_pos hq, if_pos (hiff.2 (.inr hq))]
        exact perm_middle.trans (hrest.cons e)
      · rw [if_neg hp, if_neg hq, if_neg fun hr => (hiff.1 hr).elim hp hq]
        exact hrest

theorem dvd_hourMs (e : UsageEvent) : HOUR_MS ∣ e.hourMs := floorHour_dvd _

theorem hourMs_bounds (hpos : 0 < (e.timestampMs : ℤ)) :
    e.hourMs ≤ e.timestampMs ∧ (e.timestampMs : ℤ) < e.hourMs + HOUR_MS :=
  (hourMs_eq_iff hpos (dvd_hourMs e)).1 rfl

theorem timeTarget_dvd (cfg : Config) (now : ℤ) : HOUR_MS ∣ timeTarget cfg now := floorHour_dvd _

theorem State.Resting.tickStart_bounds (h : s.Resting X)
    (haligned : HOUR_MS ∣ s.mem.manifest.hourlyRollupMs) :
    HOUR_MS ∣ s.tickStart ∧ s.mem.manifest.hourlyRollupMs ≤ s.tickStart ∧
      ∀ e ∈ s.rawEvents, s.mem.manifest.hourlyRollupMs ≤ e.timestampMs → s.tickStart ≤ e.timestampMs :=
  start_bounds haligned fun m hm => (h.segments m hm).times

theorem State.tickStart_of_not_dvd (h : ¬ HOUR_MS ∣ s.mem.manifest.hourlyRollupMs) :
    s.tickStart = s.mem.manifest.hourlyRollupMs := by
  rw [State.tickStart, TickSnapshot.start, if_neg]
  · rfl
  · rintro ⟨hzero, -⟩
    exact h ((show s.mem.manifest.hourlyRollupMs = 0 from hzero) ▸ dvd_zero _)

/-- What a tick from a full hour counts, by the clock. -/
theorem State.Resting.counts_iff (h : s.Resting X) (hs : HOUR_MS ∣ s.tickStart)
    (ht : HOUR_MS ∣ target) (he : e ∈ s.rawEvents) :
    s.counts X target e ↔
      (s.tickStart ≤ e.timestampMs ∧ e.timestampMs < target) ∧ ∀ m ∈ s.mem.manifest.rollupSegments,
        m.minTimestampMs = e.hourMs →
        m.bucket ≠ X.bucketForAccount e.accountId s.mem.manifest.buckets := by
  rw [State.counts, scanEnd_of_dvd hs ht, windowStart_of_dvd hs (h.positive e he)]
  simp [TickSnapshot.alreadyRolled, Manifest.tickSnapshot]

/-- **A tick adds what it counts**: if the segments that are there were made from some of the
events, and these and those it counts are the events below its target, each once, then the rollups
are exact after it, and later ticks find the events above it. -/
theorem Scans.continues (h : Scans X s target s') (hrest : s.Resting X)
    (ht : HOUR_MS ∣ target)
    (hmade : MadeBy (RollupOfWindow X s.mem.manifest.buckets) (s.rollups X) (s.rawEvents.filter p))
    (honce : ∀ e ∈ s.rawEvents, ¬ (p e ∧ s.counts X target e) ∧
      (e.timestampMs < target ↔ p e ∨ s.counts X target e))
    (hlater : s.Unskipped X target) : s'.Continues X := by
  refine ⟨h.resting, h.watermark ▸ ht, fun e he hle m hm hhour => ?_, ?_⟩
  · rw [h.raw] at he
    rw [h.watermark] at hle
    rw [h.buckets]
    rcases h.segments m hm with hm | hm
    · exact hlater e he hle m hm hhour
    · -- the hour of the event does not begin below the target
      obtain ⟨-, -, hbelow⟩ := mem_hoursFrom_iff.1 hm
      have hbounds := hourMs_bounds (hrest.positive e he)
      obtain ⟨a, ha⟩ := ht
      obtain ⟨b, hb⟩ := dvd_hourMs e
      simp only [HOUR_MS] at *
      omega
  · obtain ⟨new, hrollups, hnew⟩ := h.rollups
    rw [State.ByWindow, hrollups, h.raw, h.buckets, h.watermark]
    exact (hmade.append hnew).perm (filter_append_filter_perm fun e he => by simpa using honce e he)

/-- **A tick leads from exact rollups to exact rollups.** -/
theorem State.Continues.step (h : s.Continues X) {l : ℤ × (ℤ → ℕ → String)}
    (hstep : TickStep X cfg s l s') :
    s'.Continues X := by
  obtain ⟨hfresh, rfl⟩ := hstep
  rcases h.resting.ticked cfg hfresh with ⟨-, hskip⟩ | ⟨hlt, hscan⟩
  · rw [hskip]
    exact h
  · obtain ⟨hstart, hwm, hraw⟩ := h.resting.tickStart_bounds h.aligned
    have htarget := timeTarget_dvd cfg l.1
    refine hscan.continues h.resting htarget h.windows (fun e he => ?_) fun e he hle =>
      h.unskipped e he ((hwm.trans hlt.le).trans hle)
    have hunskipped := h.unskipped e he
    have hfrom := hraw e he
    rw [h.resting.counts_iff hstart htarget he, decide_eq_true_eq]
    constructor
    · rintro ⟨hbelow, ⟨habove, -⟩, -⟩
      exact absurd hbelow (not_lt.2 (hwm.trans habove))
    · constructor
      · intro hbelow
        by_cases hwm' : e.timestampMs < s.mem.manifest.hourlyRollupMs
        · exact .inl hwm'
        · exact .inr ⟨⟨hfrom (not_lt.1 hwm'), hbelow⟩, hunskipped (not_lt.1 hwm')⟩
      · rintro (hbelow | ⟨⟨-, hbelow⟩, -⟩)
        · exact (hbelow.trans_le hwm).trans hlt
        · exact hbelow

end Continues

/-! ### A rebuild -/

/-- The event is in the hour of a segment and of its bucket. -/
def SegmentMeta.holds (X : Extern) (buckets : ℕ) (m : SegmentMeta) (e : UsageEvent) : Bool :=
  (m.minTimestampMs ≤ e.timestampMs && e.timestampMs < m.minTimestampMs + HOUR_MS) &&
    X.bucketForAccount e.accountId buckets = m.bucket

/-- Whether a rebuild keeps the segment of an hour. -/
def keepsHour (fromMs toMs hour : ℤ) : Bool := !(hour < toMs && fromMs ≤ hour + HOUR_MS - 1)

/-- An event below the watermark that is in a segment which a rebuild keeps. -/
def State.keeps (X : Extern) (s : State) (fromMs toMs : ℤ) (e : UsageEvent) : Bool :=
  e.timestampMs < s.mem.manifest.hourlyRollupMs &&
    (s.rebuilt fromMs toMs).mem.manifest.rollupSegments.any fun m => m.holds X s.mem.manifest.buckets e

/-- Segments that an event is in are kept together or dropped together. -/
def State.Apart (X : Extern) (s : State) (fromMs toMs : ℤ) : Prop :=
  ∀ e ∈ s.rawEvents, e.timestampMs < s.mem.manifest.hourlyRollupMs →
    ∀ m ∈ s.mem.manifest.rollupSegments, ∀ m' ∈ s.mem.manifest.rollupSegments,
      m.holds X s.mem.manifest.buckets e → m'.holds X s.mem.manifest.buckets e →
        keepsHour fromMs toMs m.minTimestampMs = keepsHour fromMs toMs m'.minTimestampMs

/-- The segments that a rebuild keeps and the hours of a tick after it fit together. -/
structure State.Restores (X : Extern) (s : State) (fromMs toMs target : ℤ) : Prop where
  /-- What is kept has no event in common with what is dropped. -/
  apart : s.Apart X fromMs toMs
  /-- An event below the target is kept or counted again, not both, and no other event is. -/
  once : ∀ e ∈ s.rawEvents,
    ¬ (s.keeps X fromMs toMs e ∧ (s.rebuilt fromMs toMs).counts X target e) ∧
      (e.timestampMs < target ↔
        s.keeps X fromMs toMs e ∨ (s.rebuilt fromMs toMs).counts X target e)
  /-- The ticks to come will skip no event. -/
  later : (s.rebuilt fromMs toMs).Unskipped X target

/-- The rollups are exact, and each segment is of one hour of the clock and one bucket. -/
structure State.ByHour (X : Extern) (s : State) : Prop where
  /-- The watermark is a full hour. -/
  aligned : HOUR_MS ∣ s.mem.manifest.hourlyRollupMs
  /-- So is the beginning of every segment. -/
  hours : ∀ m ∈ s.mem.manifest.rollupSegments, HOUR_MS ∣ m.minTimestampMs
  /-- It is below the watermark. -/
  below : ∀ m ∈ s.mem.manifest.rollupSegments, m.minTimestampMs < s.mem.manifest.hourlyRollupMs
  /-- The segments were made from the raw events below it. -/
  windows : s.ByWindow X

theorem keepsHour_iff {fromMs toMs hour : ℤ} :
    keepsHour fromMs toMs hour ↔ toMs ≤ hour ∨ hour + HOUR_MS ≤ fromMs := by
  simp only [keepsHour, Bool.not_eq_true', Bool.and_eq_false_iff, decide_eq_false_iff_not]
  omega

section Rebuild

variable {X : Extern} {s : State} {fromMs toMs : ℤ} {cfg : Config} {now : ℤ} {uuid : ℤ → ℕ → String}
  {m : SegmentMeta}

theorem State.rebuilt_watermark (s : State) (fromMs toMs : ℤ) :
    (s.rebuilt fromMs toMs).mem.manifest.hourlyRollupMs =
      if fromMs < s.mem.manifest.hourlyRollupMs then fromMs else s.mem.manifest.hourlyRollupMs := rfl

theorem State.Resting.rebuilt (h : s.Resting X) (fromMs toMs : ℤ) : (s.rebuilt fromMs toMs).Resting X :=
  ⟨h.memtable, h.committed,
    fun m hm => ⟨(h.segments m hm).file, (h.segments m hm).metadata, (h.segments m hm).bucket,
    (h.segments m hm).positive, (h.segments m hm).sidecar⟩⟩

/-- The segments that are kept. -/
theorem State.rebuilt_rollups (s : State) (fromMs toMs : ℤ) :
    (s.rebuilt fromMs toMs).rollups X = (s.rollups X).filter fun seg =>
      !(seg.1.minTimestampMs < toMs && fromMs ≤ seg.1.maxTimestampMs) := by
  rw [State.rollups, Disk.rollups, State.rollups, Disk.rollups, filter_map]
  rfl

theorem RollupOfWindow.holds {buckets : ℕ} {seg : SegmentMeta × List HourlyRollupRecord}
    {src : List UsageEvent}
    (h : RollupOfWindow X buckets seg src) (he : e ∈ src) : seg.1.holds X buckets e := by
  simp [SegmentMeta.holds, h.window e he, h.bucket e he]

/-- Which segments are kept depends on where they begin. -/
theorem State.ByWindow.mem_rebuilt (h : s.ByWindow X) :
    m ∈ (s.rebuilt fromMs toMs).mem.manifest.rollupSegments ↔
      m ∈ s.mem.manifest.rollupSegments ∧ keepsHour fromMs toMs m.minTimestampMs := by
  refine mem_filter.trans (and_congr_right fun hm => ?_)
  obtain ⟨src, hsrc, -⟩ := h.exists_src (mem_map_of_mem hm)
  rw [keepsHour, ← hsrc.maxTs]

/-- Every event below the watermark is in a segment. -/
theorem State.ByWindow.exists_holds (h : s.ByWindow X) (he : e ∈ s.rawEvents)
    (hlt : e.timestampMs < s.mem.manifest.hourlyRollupMs) :
    ∃ m ∈ s.mem.manifest.rollupSegments, m.holds X s.mem.manifest.buckets e := by
  obtain ⟨seg, hseg, src, hsrc, hmem⟩ := h.exists_part (mem_filter.2 ⟨he, decide_eq_true hlt⟩)
  obtain ⟨m, hm, rfl⟩ := mem_map.1 hseg
  exact ⟨m, hm, hsrc.holds hmem⟩

theorem State.ByWindow.keeps_iff (h : s.ByWindow X) :
    s.keeps X fromMs toMs e ↔ e.timestampMs < s.mem.manifest.hourlyRollupMs ∧
      ∃ m ∈ s.mem.manifest.rollupSegments, keepsHour fromMs toMs m.minTimestampMs ∧
        m.holds X s.mem.manifest.buckets e := by
  simp only [State.keeps, Bool.and_eq_true, decide_eq_true_eq, any_eq_true, h.mem_rebuilt, and_assoc]

/-- What the kept segments were made from. -/
theorem State.ByWindow.kept (h : s.ByWindow X) (hapart : s.Apart X fromMs toMs) :
    MadeBy (RollupOfWindow X s.mem.manifest.buckets) ((s.rebuilt fromMs toMs).rollups X)
      (s.rawEvents.filter (s.keeps X fromMs toMs)) := by
  rw [State.rebuilt_rollups]
  have hbelow : (s.rawEvents.filter fun e => e.timestampMs < s.mem.manifest.hourlyRollupMs).filter
      (s.keeps X fromMs toMs) = s.rawEvents.filter (s.keeps X fromMs toMs) := by
    rw [filter_filter]
    exact filter_congr fun e _ => by simp [State.keeps, Bool.and_comm]
  rw [← hbelow]
  refine MadeBy.filter h fun seg hseg src hsrc e hmem he => ?_
  obtain ⟨m, hm, rfl⟩ := mem_map.1 hseg
  obtain ⟨hraw, hlt⟩ := mem_filter.1 he
  have hmax : (!(m.minTimestampMs < toMs && fromMs ≤ m.maxTimestampMs)) =
      keepsHour fromMs toMs m.minTimestampMs := by rw [keepsHour, ← hsrc.maxTs]
  rw [hmax, Bool.eq_iff_iff, h.keeps_iff]
  constructor
  · rintro ⟨hlt, m', hm', hkeep, hholds⟩
    rw [hapart e hraw hlt m hm m' hm' (hsrc.holds hmem) hholds, hkeep]
  · exact fun hkeep => ⟨of_decide_eq_true hlt, m, hm, hkeep, hsrc.holds hmem⟩

/-- **A rebuild and a tick that fit together make the rollups exact**, if the tick reaches the old
watermark. -/
theorem State.ByWindow.continues (h : s.ByWindow X) (hrest : s.Resting X)
    (hfresh : (Op.rollupTick now uuid).Fresh (s.rebuilt fromMs toMs))
    (htime : s.mem.manifest.hourlyRollupMs ≤ timeTarget cfg now)
    (hr : s.Restores X fromMs toMs (timeTarget cfg now)) :
    ((s.rebuilt fromMs toMs).ticked X cfg (now, uuid)).Continues X := by
  have hrest' := hrest.rebuilt fromMs toMs
  rcases hrest'.ticked cfg hfresh with ⟨hle, hskip⟩ | ⟨-, hscan⟩
  · rw [hskip]
    -- the tick finds nothing to do, so the watermark was not taken back below an event
    have hwm : (s.rebuilt fromMs toMs).mem.manifest.hourlyRollupMs ≤ s.mem.manifest.hourlyRollupMs := by
      rw [s.rebuilt_watermark]
      split <;> omega
    have hdvd : HOUR_MS ∣ (s.rebuilt fromMs toMs).mem.manifest.hourlyRollupMs := by
      by_contra hnot
      rw [State.tickStart_of_not_dvd hnot] at hle
      exact hnot (le_antisymm (hwm.trans htime) hle ▸ timeTarget_dvd cfg now)
    obtain ⟨-, -, hraw⟩ := hrest'.tickStart_bounds hdvd
    refine ⟨hrest', hdvd, fun e he hwm' => hr.later e he (hle.trans (hraw e he hwm')), ?_⟩
    refine MadeBy.perm (h.kept hr.apart) (List.Perm.of_eq (filter_congr fun e he => ?_))
    have hnone : ¬ (s.rebuilt fromMs toMs).counts X (timeTarget cfg now) e := by
      simp only [State.counts, Bool.and_eq_true, decide_eq_true_eq]
      rintro ⟨⟨hge, hend⟩, -⟩
      simp only [scanEnd, HOUR_MS] at hend
      omega
    have hkeeps := (hr.once e he).2
    have hfrom := hraw e he
    rw [Bool.eq_iff_iff, decide_eq_true_eq]
    constructor
    · intro hk
      by_contra hnot
      exact absurd (hkeeps.2 (.inl hk)) (not_lt.2 (hle.trans (hfrom (not_lt.1 hnot))))
    · exact fun hlt => (hkeeps.1 (hlt.trans_le (hwm.trans htime))).resolve_right hnone
  · exact hscan.continues hrest' (timeTarget_dvd cfg now) (h.kept hr.apart) hr.once hr.later

/-! ### Rollups by the hour -/

/-- A segment by the hour that has an event begins with the event's hour. -/
theorem State.ByHour.holds_iff (h : s.ByHour X) (hrest : s.Resting X) (he : e ∈ s.rawEvents)
    (hm : m ∈ s.mem.manifest.rollupSegments) :
    m.holds X s.mem.manifest.buckets e ↔
      m.minTimestampMs = e.hourMs ∧
      m.bucket = X.bucketForAccount e.accountId s.mem.manifest.buckets := by
  rw [eq_comm (b := e.hourMs), eq_comm (a := m.bucket),
    hourMs_eq_iff (hrest.positive e he) (h.hours m hm)]
  simp only [SegmentMeta.holds, Bool.and_eq_true, decide_eq_true_eq]

/-- An event in an hour of a segment is below the watermark. -/
theorem State.ByHour.lt_watermark (h : s.ByHour X) (hrest : s.Resting X) (he : e ∈ s.rawEvents)
    (hm : m ∈ s.mem.manifest.rollupSegments) (hhour : m.minTimestampMs = e.hourMs) :
    e.timestampMs < s.mem.manifest.hourlyRollupMs := by
  have hbelow := h.below m hm
  have hbounds := hourMs_bounds (hrest.positive e he)
  obtain ⟨a, ha⟩ := h.aligned
  obtain ⟨b, hb⟩ := dvd_hourMs e
  simp only [HOUR_MS] at *
  omega

theorem State.ByHour.keeps_eq (h : s.ByHour X) (hrest : s.Resting X) (he : e ∈ s.rawEvents) :
    s.keeps X fromMs toMs e =
      (keepsHour fromMs toMs e.hourMs && e.timestampMs < s.mem.manifest.hourlyRollupMs) := by
  rw [Bool.eq_iff_iff, h.windows.keeps_iff, Bool.and_eq_true, decide_eq_true_eq, and_comm]
  refine and_congr_left fun hlt => ⟨?_, fun hkeep => ?_⟩
  · rintro ⟨m, hm, hkeep, hholds⟩
    rwa [((h.holds_iff hrest he hm).1 hholds).1] at hkeep
  · obtain ⟨m, hm, hholds⟩ := h.windows.exists_holds he hlt
    exact ⟨m, hm, by rwa [((h.holds_iff hrest he hm).1 hholds).1], hholds⟩

theorem State.ByHour.apart (h : s.ByHour X) (hrest : s.Resting X) : s.Apart X fromMs toMs := by
  intro e he _ m hm m' hm' hholds hholds'
  rw [((h.holds_iff hrest he hm).1 hholds).1, ((h.holds_iff hrest he hm').1 hholds').1]

/-- What a rebuild needs, when the segments are by the hour. -/
theorem State.ByHour.restores_of_once (h : s.ByHour X) (hrest : s.Resting X)
    (htime : s.mem.manifest.hourlyRollupMs ≤ target)
    (honce : ∀ e ∈ s.rawEvents,
      ¬ (s.keeps X fromMs toMs e ∧ (s.rebuilt fromMs toMs).counts X target e) ∧
        (e.timestampMs < target ↔
          s.keeps X fromMs toMs e ∨ (s.rebuilt fromMs toMs).counts X target e)) :
    s.Restores X fromMs toMs target := by
  refine ⟨h.apart hrest, honce, fun e he hle m hm hhour => ?_⟩
  exact absurd (h.lt_watermark hrest he (h.windows.mem_rebuilt.1 hm).1 hhour)
    (not_lt.2 (htime.trans hle))

/-- A rebuild that leaves the watermark at a full hour. -/
theorem State.ByHour.restores_aligned (h : s.ByHour X) (hrest : s.Resting X)
    (haligned : HOUR_MS ∣ fromMs ∨ s.mem.manifest.hourlyRollupMs ≤ fromMs)
    (htime : s.mem.manifest.hourlyRollupMs ≤ timeTarget cfg now) :
    s.Restores X fromMs toMs (timeTarget cfg now) := by
  have hrest' := hrest.rebuilt fromMs toMs
  have hwatermark := s.rebuilt_watermark fromMs toMs
  have hdvd : HOUR_MS ∣ (s.rebuilt fromMs toMs).mem.manifest.hourlyRollupMs := by
    rw [hwatermark]
    split
    · exact haligned.resolve_right (by omega)
    · exact h.aligned
  obtain ⟨hstart, -, hraw⟩ := hrest'.tickStart_bounds hdvd
  refine h.restores_of_once hrest htime fun e he => ?_
  -- the tick skips the hours and buckets that are kept
  have hcounts : (s.rebuilt fromMs toMs).counts X (timeTarget cfg now) e ↔
      ((s.rebuilt fromMs toMs).tickStart ≤ e.timestampMs ∧ e.timestampMs < timeTarget cfg now) ∧
        ¬ s.keeps X fromMs toMs e := by
    refine (hrest'.counts_iff hstart (timeTarget_dvd cfg now) he).trans (and_congr_right fun _ => ?_)
    rw [h.windows.keeps_iff]
    constructor
    · rintro hnone ⟨-, m, hm, hkeep, hholds⟩
      obtain ⟨hhour, hbucket⟩ := (h.holds_iff hrest he hm).1 hholds
      exact hnone m (h.windows.mem_rebuilt.2 ⟨hm, hkeep⟩) hhour hbucket
    · intro hnone m hm hhour hbucket
      obtain ⟨hm, hkeep⟩ := h.windows.mem_rebuilt.1 hm
      exact hnone ⟨h.lt_watermark hrest he hm hhour, m, hm, hkeep,
        (h.holds_iff hrest he hm).2 ⟨hhour, hbucket⟩⟩
  -- what is below the new watermark has been kept
  have hbelow : e.timestampMs < (s.rebuilt fromMs toMs).mem.manifest.hourlyRollupMs →
      s.keeps X fromMs toMs e := by
    intro hlt
    have hbounds := hourMs_bounds (hrest.positive e he)
    obtain ⟨a, ha⟩ := hdvd
    obtain ⟨b, hb⟩ := dvd_hourMs e
    rw [hwatermark] at ha hlt
    rw [h.keeps_eq hrest he, Bool.and_eq_true, keepsHour_iff, decide_eq_true_eq]
    simp only [HOUR_MS] at *
    split at hlt <;> omega
  have hold : s.keeps X fromMs toMs e → e.timestampMs < s.mem.manifest.hourlyRollupMs :=
    fun hk => (h.windows.keeps_iff.1 hk).1
  have hfrom := hraw e he
  rw [hcounts]
  refine ⟨fun hboth => hboth.2.2 hboth.1, fun hlt => ?_, ?_⟩
  · by_cases hk : s.keeps X fromMs toMs e
    · exact .inl hk
    · exact .inr ⟨⟨hfrom (not_lt.1 fun hlt => hk (hbelow hlt)), hlt⟩, hk⟩
  · rintro (hk | ⟨⟨-, hlt⟩, -⟩)
    · exact (hold hk).trans_le htime
    · exact hlt

/-! ### A rebuild that begins inside an hour -/

/-- An event that is misplaced when a range begins inside an hour: it is in that hour, whose segment
was dropped, and before the range, where the tick does not look; its hour has its segment still, and
the tick, whose hours are other ones, does not see it; or it is beyond the target, in the last hour
of the tick. -/
def Misplaced (fromMs toMs watermark target : ℤ) (e : UsageEvent) : Prop :=
  (fromMs / HOUR_MS * HOUR_MS ≤ e.timestampMs ∧ e.timestampMs < fromMs) ∨
    (toMs ≤ e.hourMs ∧ e.timestampMs < watermark) ∨
    target ≤ e.timestampMs ∧ e.timestampMs < target + fromMs % HOUR_MS

/-- The tick after such a rebuild counts the events from the beginning of the range on, up to the
end of an hour it counts from there. -/
theorem State.ByHour.counts_within (h : s.ByHour X) (hwithin : ¬ HOUR_MS ∣ fromMs)
    (hlt : fromMs < s.mem.manifest.hourlyRollupMs) (e : UsageEvent) :
    (s.rebuilt fromMs toMs).counts X (timeTarget cfg now) e =
      (fromMs ≤ e.timestampMs && e.timestampMs < timeTarget cfg now + fromMs % HOUR_MS) := by
  have hwm : (s.rebuilt fromMs toMs).mem.manifest.hourlyRollupMs =
    fromMs := by rw [s.rebuilt_watermark, if_pos hlt]
  have hstart : (s.rebuilt fromMs toMs).tickStart = fromMs := by
    rw [State.tickStart_of_not_dvd (hwm.symm ▸ hwithin), hwm]
  -- no hour of the tick is one of a segment
  have hnot :
      (s.rebuilt fromMs toMs).mem.manifest.tickSnapshot.alreadyRolled
        (windowStart fromMs e.timestampMs)
      (X.bucketForAccount e.accountId (s.rebuilt fromMs toMs).mem.manifest.buckets) = false := by
    rw [TickSnapshot.alreadyRolled, any_eq_false]
    intro m hm heq
    have hhour := h.hours m (mem_filter.1 hm).1
    rw [Bool.and_eq_true, decide_eq_true_eq, decide_eq_true_eq] at heq
    rw [heq.1, windowStart] at hhour
    exact hwithin ((Int.dvd_add_left (Dvd.intro_left _ rfl)).1 hhour)
  have hend : scanEnd fromMs (timeTarget cfg now) = timeTarget cfg now + fromMs % HOUR_MS := by
    obtain ⟨a, ha⟩ := timeTarget_dvd cfg now
    simp only [scanEnd, HOUR_MS] at *
    omega
  rw [State.counts, hstart, hnot, hend, Bool.not_false, Bool.and_true]

/-- With no misplaced event, the tick fits the segments that are kept. -/
theorem State.ByHour.restores_within (h : s.ByHour X) (hrest : s.Resting X)
    (hwithin : ¬ HOUR_MS ∣ fromMs) (hlt : fromMs < s.mem.manifest.hourlyRollupMs)
    (htime : s.mem.manifest.hourlyRollupMs ≤ timeTarget cfg now)
    (hnone : ∀ e ∈ s.rawEvents, ¬ Misplaced fromMs toMs s.mem.manifest.hourlyRollupMs
      (timeTarget cfg now) e) :
    s.Restores X fromMs toMs (timeTarget cfg now) := by
  refine h.restores_of_once hrest htime fun e he => ?_
  have hbounds := hourMs_bounds (hrest.positive e he)
  have hnot := hnone e he
  obtain ⟨a, ha⟩ := dvd_hourMs e
  obtain ⟨b, hb⟩ := h.aligned
  obtain ⟨c, hc⟩ := timeTarget_dvd cfg now
  rw [h.counts_within hwithin hlt, h.keeps_eq hrest he]
  simp only [Bool.and_eq_true, keepsHour_iff, decide_eq_true_eq]
  simp only [Misplaced, HOUR_MS] at *
  omega

/-- Records that were made from two parts of a list and from a third part: if no event of an hour is
more often in the two parts than in the third, or none is less often, all are equally often in
both. -/
theorem MadeFrom.toNat_eq (hm : MadeFrom X segs (l.filter p ++ l.filter q))
    (hm' : MadeFrom X segs (l.filter r)) (he : e ∈ l)
    (hle : (∀ e' ∈ l, e'.hourMs = e.hourMs → (p e').toNat + (q e').toNat ≤ (r e').toNat) ∨
      ∀ e' ∈ l, e'.hourMs = e.hourMs → (r e').toNat ≤ (p e').toNat + (q e').toNat) :
    (p e).toNat + (q e).toNat = (r e).toNat := by
  have hlength : ∀ (p : UsageEvent → Bool) (l : List UsageEvent),
      (l.map fun e => (p e).toNat).sum = (l.filter p).length := by
    intro p l
    rw [← countP_eq_length_filter]
    induction l with
    | nil => rfl
    | cons e l ih => cases hp : p e <;> simp [hp, ih, Nat.add_comm]
  have hsum :
      ((l.filter fun e' => e'.hourMs = e.hourMs).map fun e' => (p e').toNat + (q e').toNat).sum =
      ((l.filter fun e' => e'.hourMs = e.hourMs).map fun e' => (r e').toNat).sum := by
    rw [sum_map_add, hlength, hlength, hlength, filter_filter, filter_filter, filter_filter]
    have heq := (hm.hourCount_eq e.hourMs).symm.trans (hm'.hourCount_eq e.hourMs)
    rw [filter_append, length_append, filter_filter, filter_filter, filter_filter] at heq
    simpa only [Bool.and_comm] using heq
  have hmem : e ∈ l.filter fun e' => e'.hourMs = e.hourMs := mem_filter.2 ⟨he, decide_eq_true rfl⟩
  have hof : ∀ e' ∈ l.filter fun e' => e'.hourMs = e.hourMs, e' ∈ l ∧ e'.hourMs = e.hourMs :=
    fun e' he' => ⟨(mem_filter.1 he').1, of_decide_eq_true (mem_filter.1 he').2⟩
  by_contra hne
  rcases hle with hle | hle
  · exact absurd hsum (ne_of_lt (sum_lt_sum _ _ (fun e' he' => hle e' (hof e' he').1 (hof e' he').2)
      ⟨e, hmem, lt_of_le_of_ne (hle e he rfl) hne⟩))
  · exact absurd hsum (ne_of_gt (sum_lt_sum _ _ (fun e' he' => hle e' (hof e' he').1 (hof e' he').2)
      ⟨e, hmem, lt_of_le_of_ne (hle e he rfl) (Ne.symm hne)⟩))

/-- If no event of its hour is in the first part, and the second is in the third, then so is the
third in the second. -/
theorem MadeFrom.not_missing (hm : MadeFrom X segs (l.filter p ++ l.filter q))
    (hm' : MadeFrom X segs (l.filter r)) (he : e ∈ l)
    (hhour : ∀ e' ∈ l, e'.hourMs = e.hourMs → ¬ p e' ∧ (q e' → r e')) (hr : r e) :
    q e := by
  have hcount := hm.toNat_eq hm' he (.inl fun e' he' heq => by
    obtain ⟨hp, hqr⟩ := hhour e' he' heq
    cases hq : q e' <;> simp_all)
  obtain ⟨hp, -⟩ := hhour e he rfl
  cases hq : q e <;> simp_all

/-- If the events of its hour that are in the third part are in the second, then nothing of it is in
the first, and the second is in the third. -/
theorem MadeFrom.not_extra (hm : MadeFrom X segs (l.filter p ++ l.filter q))
    (hm' : MadeFrom X segs (l.filter r)) (he : e ∈ l) (hhour : ∀ e' ∈ l, e'.hourMs = e.hourMs →
      r e' → q e') :
    (q e → r e) ∧ (r e → ¬ p e) := by
  have hcount := hm.toNat_eq hm' he (.inr fun e' he' heq => by
    have hrq := hhour e' he' heq
    cases hr : r e' <;> simp_all)
  have hrq := hhour e he rfl
  cases hr : r e <;> simp_all

/-- **With a misplaced event the rollups are not exact after the tick.** -/
theorem State.ByHour.not_exact_of_misplaced (h : s.ByHour X) (hrest : s.Resting X)
    (hfresh : (Op.rollupTick now uuid).Fresh (s.rebuilt fromMs toMs)) (hto : fromMs < toMs)
    (hwithin : ¬ HOUR_MS ∣ fromMs) (hlt : fromMs < s.mem.manifest.hourlyRollupMs)
    (htime : s.mem.manifest.hourlyRollupMs ≤ timeTarget cfg now) (he : e ∈ s.rawEvents)
    (hmis : Misplaced fromMs toMs s.mem.manifest.hourlyRollupMs (timeTarget cfg now) e) :
    ¬ ((s.rebuilt fromMs toMs).ticked X cfg (now, uuid)).Exact X := by
  intro hexact
  have hscan := (((hrest.rebuilt fromMs toMs).ticked cfg hfresh).resolve_left fun hskip => by
    have hwm := s.rebuilt_watermark fromMs toMs
    rw [if_pos hlt] at hwm
    rw [State.tickStart_of_not_dvd (hwm.symm ▸ hwithin), hwm] at hskip
    omega).2
  have hmade : MadeFrom X (((s.rebuilt fromMs toMs).ticked X cfg (now, uuid)).rollups X)
      ((s.rawEvents.filter fun e =>
          keepsHour fromMs toMs e.hourMs && e.timestampMs < s.mem.manifest.hourlyRollupMs) ++
        s.rawEvents.filter fun e =>
          fromMs ≤ e.timestampMs && (e.timestampMs : ℤ) < timeTarget cfg now + fromMs % HOUR_MS) := by
    obtain ⟨new, hrollups, hnew⟩ := hscan.rollups
    rw [hrollups, ← filter_congr fun e he => h.keeps_eq hrest he,
      ← filter_congr fun e _ => h.counts_within hwithin hlt e]
    exact ((h.windows.kept (h.apart hrest)).append hnew).imp fun _ _ hseg _ => hseg.records
  rw [State.Exact, hscan.raw, hscan.watermark] at hexact
  obtain ⟨a, ha⟩ := dvd_hourMs e
  obtain ⟨b, hb⟩ := h.aligned
  obtain ⟨c, hc⟩ := timeTarget_dvd cfg now
  have hbounds := hourMs_bounds (hrest.positive e he)
  rcases hmis with hlost | hmore
  · -- the other events of its hour are counted from the beginning of the range on, and only there
    have hseen := hmade.not_missing hexact he fun e' he' hhour => by
      have hbounds' := hourMs_bounds (hrest.positive e' he')
      simp only [Bool.and_eq_true, keepsHour_iff, decide_eq_true_eq]
      simp only [HOUR_MS] at *
      omega
    simp only [Bool.and_eq_true, decide_eq_true_eq] at hseen
    omega
  · have honce := hmade.not_extra hexact he fun e' he' hhour => by
      have hbounds' := hourMs_bounds (hrest.positive e' he')
      simp only [Bool.and_eq_true, decide_eq_true_eq]
      simp only [HOUR_MS] at *
      omega
    simp only [Bool.and_eq_true, keepsHour_iff, decide_eq_true_eq] at honce
    simp only [HOUR_MS] at *
    omega

/-- **When a rebuild restores the rollups.** In a state at rest whose rollups are exact and of one
bucket and hour each, a rebuild and a tick that reaches the old watermark, and every tick after it,
leave exact rollups if the segments that are kept and the tick's hours fit together. If the segments
are of full hours, they do so precisely if the range begins at a full hour, or not below the
watermark, or misplaces no event. -/
theorem rebuild_exact_iff (hrest : s.Resting X) (h : s.ByWindow X) (hto : fromMs < toMs)
    (hfresh : (Op.rollupTick now uuid).Fresh (s.rebuilt fromMs toMs))
    (htime : s.mem.manifest.hourlyRollupMs ≤ timeTarget cfg now) :
    (s.Restores X fromMs toMs (timeTarget cfg now) → ∀ ls s',
      Run (TickStep X cfg) ((s.rebuilt fromMs toMs).ticked X cfg (now, uuid)) ls s' →
        s'.Exact X ∧ s'.ByWindow X) ∧
    (s.ByHour X →
      ((∀ ls s', Run (TickStep X cfg) ((s.rebuilt fromMs toMs).ticked X cfg (now, uuid)) ls s' →
        s'.Exact X) ↔ HOUR_MS ∣ fromMs ∨ s.mem.manifest.hourlyRollupMs ≤ fromMs ∨
          ∀ e ∈ s.rawEvents, ¬ Misplaced fromMs toMs s.mem.manifest.hourlyRollupMs
            (timeTarget cfg now) e)) := by
  have hall : s.Restores X fromMs toMs (timeTarget cfg now) → ∀ ls s',
      Run (TickStep X cfg) ((s.rebuilt fromMs toMs).ticked X cfg (now, uuid)) ls s' → s'.Continues X :=
    fun hr ls s' hrun =>
      hrun.invariant (fun _ _ _ hs hstep => hs.step hstep) (h.continues hrest hfresh htime hr)
  refine ⟨fun hr ls s' hrun => ⟨(hall hr ls s' hrun).windows.exact, (hall hr ls s' hrun).windows⟩,
    fun hhour => ?_⟩
  constructor
  · intro hexact
    by_contra hnot
    push Not at hnot
    obtain ⟨hwithin, hlt, e, he, hmis⟩ := hnot
    exact hhour.not_exact_of_misplaced hrest hfresh hto hwithin hlt htime he hmis (hexact [] _ (.nil _))
  · intro hrange ls s' hrun
    refine (hall ?_ ls s' hrun).windows.exact
    by_cases haligned : HOUR_MS ∣ fromMs ∨ s.mem.manifest.hourlyRollupMs ≤ fromMs
    · exact hhour.restores_aligned hrest haligned htime
    · obtain ⟨hwithin, hle⟩ := not_or.1 haligned
      exact hhour.restores_within hrest hwithin (not_le.1 hle) htime
        ((hrange.resolve_left hwithin).resolve_left hle)

end Rebuild

/-! ### A rebuild after one rollup -/

section Sample

variable {X : Extern} {cfg : Config} {s : State} {id : String}

/-- After a run, the rollups are by the hour if the segments begin at full hours. -/
theorem RollupOk.byHour (h : RollupOk X s.disk) (hm : MemOk s) (hrest : s.Resting X)
    (hours : ∀ m ∈ s.mem.manifest.rollupSegments, HOUR_MS ∣ m.minTimestampMs) : s.ByHour X := by
  obtain ⟨haligned, -, hsources, hbelow, -⟩ := h
  rw [hm.loadManifest] at haligned hsources hbelow
  refine ⟨haligned, hours, hbelow, MadeBy.imp hsources fun seg src hseg hraw => ?_⟩
  refine ⟨hseg.records, hseg.checksum, fun e he => ?_, hseg.maxTs, hseg.bucket⟩
  rw [← hseg.hour e he]
  exact hourMs_bounds (hrest.positive e (mem_filter.1 (hraw e he)).1)

theorem unused_rebuilt (h : s.Unused id) (fromMs toMs : ℤ) : (s.rebuilt fromMs toMs).Unused id := by
  refine h.avoids (fun x hx => ?_) ?_
  · rw [mem_singleton.1 hx]
    trivial
  · rintro (hraw | ⟨m, hm, hid⟩ | hpending)
    · exact Or.inl hraw
    · exact Or.inr (Or.inl ⟨m, (mem_filter.1 hm).1, hid⟩)
    · exact Or.inr (Or.inr hpending)

end Sample

/-- One event was rolled up: the state is at rest, its rollups are by the hour, and other names are
new after every rebuild. -/
theorem exists_rolledUp :
    ∃ s, Run (Step .sample sampleConfig) (.down .empty) (rolledUpRun.map (·.2)) (.up s) ∧
      s.Resting .sample ∧ s.ByHour .sample ∧ s.mem.manifest.hourlyRollupMs = 7200000 ∧
      (∀ fromMs toMs, (Op.rollupTick 7260000 (taggedHourUuid 'z')).Fresh (s.rebuilt fromMs toMs)) ∧
      (∀ e ∈ s.rawEvents, (e.timestampMs : ℤ) = 3700000 ∧ e.hourMs = 3600000) ∧ s.rawEvents ≠ [] := by
  have hls : Lettered rolledUpRun := ⟨by simp [rolledUpRun, Label.DrawsTagged, Op.DrawsTagged],
    by decide⟩
  obtain ⟨s, c, hrun, hids, hmem, hcommitted, hwm, hhours, htimes, hne⟩ :=
    exists_book_of_tags .sample sampleConfig hls (by simp [rolledUpRun, Label.Completed])
      (P := fun s c => (c.map (·.eventId)).Nodup ∧ s.mem.memtable = .new ∧
        s.mem.manifest.tickSnapshot.inFlight s.mem.activeId = false ∧
        s.mem.manifest.hourlyRollupMs = 7200000 ∧
        (∀ m ∈ s.mem.manifest.rollupSegments, HOUR_MS ∣ m.minTimestampMs) ∧
        (∀ e ∈ s.rawEvents, (e.timestampMs : ℤ) = 3700000 ∧ e.hourMs = 3600000) ∧
        s.rawEvents ≠ []) (by decide +kernel)
  obtain ⟨⟨hd, hm⟩, hroll⟩ := book_run hrun
  have hsegments := hd.1.segments
  rw [hm.loadManifest] at hsegments
  have hrest : s.Resting .sample := ⟨hmem, hcommitted, hsegments⟩
  have hup := hrun.map Prod.fst fun _ _ _ h => h.step
  have hfresh : (Op.rollupTick 7260000 (taggedHourUuid 'z')).Fresh s :=
    fresh_of_tags hls (by decide) hup rfl
  exact ⟨s, hup, hrest, (hroll hids).byHour hm hrest hhours, hwm,
    fun fromMs toMs => ⟨fun h b => unused_rebuilt (hfresh.1 h b) fromMs toMs, hfresh.2⟩, htimes, hne⟩

/-- The time its tick reaches. -/
theorem timeTarget_sample : timeTarget sampleConfig 7260000 = 7200000 := by decide

/-- A rebuild of the full hour, and one from inside the hour, before its event. -/
theorem rebuild_exact_iff_of_full_hour :
    ∃ s, Run (Step .sample sampleConfig) (.down .empty) (rolledUpRun.map (·.2)) (.up s) ∧
      s.Resting .sample ∧ s.ByHour .sample ∧
      (∀ fromMs toMs, (Op.rollupTick 7260000 (taggedHourUuid 'z')).Fresh (s.rebuilt fromMs toMs)) ∧
      s.mem.manifest.hourlyRollupMs ≤ timeTarget sampleConfig 7260000 ∧
      (∀ ls s', Run (TickStep .sample sampleConfig)
        ((s.rebuilt 3600000 7200000).ticked .sample sampleConfig (7260000, taggedHourUuid 'z')) ls s' →
          s'.Exact .sample) ∧
      ∀ ls s', Run (TickStep .sample sampleConfig)
        ((s.rebuilt 3650000 7200000).ticked .sample sampleConfig (7260000, taggedHourUuid 'z')) ls s' →
          s'.Exact .sample ∧ s'.ByWindow .sample := by
  obtain ⟨s, hrun, hrest, hhour, hwm, hfresh, htimes, -⟩ := exists_rolledUp
  have htime : s.mem.manifest.hourlyRollupMs ≤ timeTarget sampleConfig 7260000 := by
    rw [hwm, timeTarget_sample]
  refine ⟨s, hrun, hrest, hhour, hfresh, htime,
    ((rebuild_exact_iff hrest hhour.windows (by decide) (hfresh _ _) htime).2 hhour).2
      (Or.inl (by decide)),
    (rebuild_exact_iff hrest hhour.windows (by decide) (hfresh _ _) htime).1
      (hhour.restores_within hrest (by decide) (by rw [hwm]; decide) htime fun e he => ?_)⟩
  rw [Misplaced, hwm, timeTarget_sample, (htimes e he).1, (htimes e he).2]
  decide

/-- A rebuild of the second half of the hour: the event in the first half is lost from the
rollups. -/
theorem rebuild_of_half_hour_not_exact :
    ∃ s, Run (Step .sample sampleConfig) (.down .empty) (rolledUpRun.map (·.2)) (.up s) ∧
      s.Resting .sample ∧ s.ByHour .sample ∧ s.Exact .sample ∧
      (Op.rollupTick 7260000 (taggedHourUuid 'z')).Fresh (s.rebuilt 5400000 7200000) ∧
      s.mem.manifest.hourlyRollupMs ≤ timeTarget sampleConfig 7260000 ∧
      ¬ ((s.rebuilt 5400000 7200000).ticked .sample sampleConfig
        (7260000, taggedHourUuid 'z')).Exact .sample := by
  obtain ⟨s, hrun, hrest, hhour, hwm, hfresh, htimes, hne⟩ := exists_rolledUp
  have htime : s.mem.manifest.hourlyRollupMs ≤ timeTarget sampleConfig 7260000 := by
    rw [hwm, timeTarget_sample]
  obtain ⟨e, he⟩ := exists_mem_of_ne_nil _ hne
  refine ⟨s, hrun, hrest, hhour, hhour.windows.exact, hfresh _ _, htime,
    hhour.not_exact_of_misplaced hrest (hfresh _ _) (by decide) (by decide)
      (by rw [hwm]; decide) htime he (Or.inl ?_)⟩
  rw [(htimes e he).1]
  decide

end UsageDb
