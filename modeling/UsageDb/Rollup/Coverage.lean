import UsageDb.Query.RollupRaw
import UsageDb.Runtime.Names
import Mathlib.Algebra.BigOperators.Group.Multiset.Basic

/-!
# What the rollups cover

The watermark promises that every event below it has been rolled up. `RollupOk` is that
promise for a disk: the rollup segments of the manifest were made from lists of events which
together are the raw events below the watermark, each once, and no event of the log is below
it.

An operation that leaves the rollups alone keeps the promise if what it adds to the disk is
not below the watermark (`RollupOk.keep`); a tick moves the watermark and keeps it
(`RollupOk.tick`). Under it, a plan of sums gets the same answer from rollups as from raw data
(`RollupOk.executePlan_eq`), and `rollup_answers_eq_raw` says so for every state that a
sequence of operations can reach.
-/

namespace UsageDb

open Lib List

variable {X : Extern} {cfg : Config} {d d' : Disk} {s : State}
  {plan : QueryPlan} {c : Multiset UsageEvent}

/-- The rollups are those of the raw events below the watermark. -/
structure RollupOk (X : Extern) (d : Disk) : Prop where
  /-- The watermark is a full hour. -/
  aligned : HOUR_MS ∣ d.loadManifest.hourlyRollupMs
  /-- It is not negative. -/
  nonneg : 0 ≤ d.loadManifest.hourlyRollupMs
  /-- The segments were made from the raw events below it. -/
  sources : ∃ srcs, List.Forall₂ (RollupOf X d.loadManifest.buckets) (d.rollups X d.loadManifest) srcs ∧
    srcs.flatten.Perm ((d.rawEvents d.loadManifest).filter
      fun e => e.timestampMs < d.loadManifest.hourlyRollupMs)
  /-- The segments are of hours below it. -/
  below : ∀ m ∈ d.loadManifest.rollupSegments, m.minTimestampMs < d.loadManifest.hourlyRollupMs
  /-- The log has no event below it. -/
  above : ∀ e ∈ d.walEvents d.loadManifest.lastSealedWalId,
    d.loadManifest.hourlyRollupMs ≤ e.timestampMs

/-- The part of a manifest that says what has been rolled up. -/
def Manifest.rolled (m : Manifest) : List SegmentMeta × ℤ × ℕ :=
  (m.rollupSegments, m.hourlyRollupMs, m.buckets)

theorem Manifest.rolled_eq_iff {m : Manifest} {segs : List SegmentMeta} {watermark : ℤ} {buckets : ℕ} :
    m.rolled = (segs, watermark, buckets) ↔ m.rollupSegments = segs ∧ m.hourlyRollupMs = watermark ∧
      m.buckets = buckets := by
  simp only [Manifest.rolled, Prod.mk.injEq]

/-- A disk with nothing on it. -/
theorem rollupOk_empty : RollupOk X .empty := by
  refine ⟨⟨0, rfl⟩, le_rfl, ⟨[], List.Forall₂.nil, List.Perm.refl _⟩, ?_, ?_⟩
  · intro m hm
    cases hm
  · intro e he
    cases he

/-! ### Operations that leave the rollups alone -/

theorem rollups_congr {m : Manifest} (h : ∀ seg ∈ m.rollupSegments, d'.rseg seg.segmentId =
    d.rseg seg.segmentId) :
    d'.rollups X m = d.rollups X m := by
  refine map_congr_left fun seg hseg => ?_
  rw [Disk.rollupRecords, h seg hseg, Disk.rollupRecords]

/-- When the log has nothing below the watermark, what the disk holds below it is raw. -/
theorem filter_content {wm : ℤ} (habove : ∀ e ∈ d.walEvents d.loadManifest.lastSealedWalId, wm ≤
    e.timestampMs) :
    d.content.filter (fun e => e.timestampMs < wm) =
      ↑((d.rawEvents d.loadManifest).filter fun e => e.timestampMs < wm) := by
  have hnone :
      ((d.walEvents d.loadManifest.lastSealedWalId).filter fun e => e.timestampMs < wm) = [] := by
    rw [filter_eq_nil_iff]
    intro e he hlt
    have := habove e he
    rw [decide_eq_true_eq] at hlt
    omega
  rw [Disk.content, Multiset.filter_coe, filter_append, hnone, append_nil]

/-- **Rollups that are left alone stay those of the raw events below the watermark**, if
what is added is not below it. -/
theorem RollupOk.keep (h : RollupOk X d) (new : Multiset UsageEvent)
    (hsegs : d'.loadManifest.rollupSegments = d.loadManifest.rollupSegments)
    (hwm : d'.loadManifest.hourlyRollupMs = d.loadManifest.hourlyRollupMs)
    (hbuckets : d.loadManifest.rollupSegments = [] ∨ d'.loadManifest.buckets = d.loadManifest.buckets)
    (hrseg : ∀ seg ∈ d.loadManifest.rollupSegments, d'.rseg seg.segmentId = d.rseg seg.segmentId)
    (hcontent : d'.content = d.content + new)
    (hnew : ∀ e ∈ new, d.loadManifest.hourlyRollupMs ≤ e.timestampMs)
    (habove : ∀ e ∈ d'.walEvents d'.loadManifest.lastSealedWalId,
      e ∈ d.walEvents d.loadManifest.lastSealedWalId ∨ e ∈ new) : RollupOk X d' := by
  have habove' : ∀ e ∈ d'.walEvents d'.loadManifest.lastSealedWalId,
      d.loadManifest.hourlyRollupMs ≤ e.timestampMs :=
        fun e he => (habove e he).elim (h.above e) (hnew e)
  have hsame : d'.rollups X d.loadManifest = d.rollups X d.loadManifest := rollups_congr hrseg
  have hrolls : d'.rollups X d'.loadManifest = d.rollups X d.loadManifest := by
    rw [← hsame, Disk.rollups, Disk.rollups, hsegs]
  obtain ⟨srcs, hof, hperm⟩ := h.sources
  refine ⟨hwm ▸ h.aligned, hwm ▸ h.nonneg, ⟨srcs, ?_, hperm.trans ?_⟩, ?_, ?_⟩
  · rw [hrolls]
    rcases hbuckets with hnil | hbuckets
    · have hnone : d.rollups X d.loadManifest = [] := by rw [Disk.rollups, hnil, map_nil]
      rw [hnone] at hof ⊢
      cases hof
      exact .nil
    · rw [hbuckets]
      exact hof
  · have hzero : new.filter (fun e => e.timestampMs < d.loadManifest.hourlyRollupMs) = 0 := by
      rw [Multiset.filter_eq_nil]
      exact fun e he => not_lt.2 (hnew e he)
    have hfilter :=
      congrArg (Multiset.filter fun e => e.timestampMs < d.loadManifest.hourlyRollupMs) hcontent
    rw [Multiset.filter_add, hzero, Multiset.add_zero, filter_content habove',
      filter_content h.above] at hfilter
    rw [hwm]
    exact (Multiset.coe_eq_coe.1 hfilter).symm
  · rw [hsegs, hwm]
    exact h.below
  · rw [hwm]
    exact habove'

/-- An operation that leaves the rollups alone, for a state in order before and after it. -/
theorem RollupOk.frames {o : Outcome} {new : List UsageEvent} (h : RollupOk X s.disk)
    (ho : Frames Manifest.rolled s o)
    (hs : s.disk.wal.Sorted) (hm : MemOk s) (hs' : (o.state s).disk.wal.Sorted)
    (hm' : MemOk (o.state s)) (hcontent : (o.state s).disk.content = s.disk.content + ↑new)
    (hnew : ∀ e ∈ new, s.mem.manifest.hourlyRollupMs ≤ e.timestampMs)
    (hunsealed : ∀ e ∈ o.mem.unsealed, e ∈ s.mem.unsealed ∨ e ∈ new) : RollupOk X (o.state s).disk := by
  have heffects : ∀ x ∈ o.effects, x.Frames Manifest.rolled s.disk.loadManifest.rolled := by
    rw [hm.loadManifest]
    exact ho.effects
  obtain ⟨hman, hrseg⟩ := (frames_take heffects).all
  simp only [Manifest.rolled, Prod.mk.injEq] at hman
  refine h.keep ↑new hman.1 hman.2.1 (.inr hman.2.2)
    (fun seg _ => congrFun hrseg seg.segmentId) hcontent ?_ fun e he => ?_
  · rw [hm.loadManifest]
    exact hnew
  · rw [hm'.loadManifest] at he
    rw [hm.loadManifest, ← (hm.unsealed hs).mem_iff]
    exact hunsealed e ((hm'.unsealed hs').mem_iff.2 he)

/-! ### The tick -/

/-- **Committing the rollups of the raw events from the watermark to the target** moves the
watermark there, when their files are in place and the log has nothing below the target. -/
theorem RollupOk.commit (h : RollupOk X d) {segs : List (SegmentMeta × List HourlyRollupRecord)}
    {srcs : List (List UsageEvent)} {target : ℤ}
    (hfiles : ∀ seg ∈ segs, d.rseg seg.1.segmentId = some seg.2)
    (hof : List.Forall₂ (RollupOf X d.loadManifest.buckets) segs srcs)
    (hperm : srcs.flatten.Perm ((d.rawEvents d.loadManifest).filter fun e =>
      d.loadManifest.hourlyRollupMs ≤ e.timestampMs && e.timestampMs < target))
    (haligned : HOUR_MS ∣ target) (hle : d.loadManifest.hourlyRollupMs ≤ target)
    (hbelow : ∀ seg ∈ segs, seg.1.minTimestampMs < target)
    (habove : ∀ e ∈ d.walEvents d.loadManifest.lastSealedWalId, target ≤ e.timestampMs) :
    RollupOk X
      (d.apply (.manifestSave (d.loadManifest.commitRollup (segs.map (·.1)) target).saved)) := by
  have hload :
      (d.apply (.manifestSave (d.loadManifest.commitRollup (segs.map (·.1))
        target).saved)).loadManifest =
      (d.loadManifest.commitRollup (segs.map (·.1)) target).saved := rfl
  have hnew : segs.map (fun seg => (seg.1, d.rollupRecords X seg.1)) = segs := by
    refine (map_congr_left fun seg hseg => ?_).trans (map_id segs)
    obtain ⟨src, -, hsrc⟩ := (forall₂_exists hof).1 seg hseg
    rw [Disk.rollupRecords, hfiles seg hseg]
    simp only [hsrc.checksum, if_true]
    rfl
  have hrolls : d.rollups X (d.loadManifest.commitRollup (segs.map (·.1)) target).saved =
      d.rollups X d.loadManifest ++ segs := by
    rw [Disk.rollups, Manifest.saved_rollupSegments, Manifest.commitRollup, map_append, map_map]
    exact congrArg (d.rollups X d.loadManifest ++ ·) hnew
  obtain ⟨srcs₀, hof₀, hperm₀⟩ := h.sources
  refine ⟨haligned, h.nonneg.trans hle, ⟨srcs₀ ++ srcs, ?_, ?_⟩, ?_, habove⟩
  · rw [hload]
    exact hrolls ▸ rel_append hof₀ hof
  · rw [flatten_append]
    refine (hperm₀.append hperm).trans ?_
    -- the raw events below the target, split at the watermark
    have hsplit := filter_append_perm
      (fun e : UsageEvent => decide (e.timestampMs < d.loadManifest.hourlyRollupMs))
      ((d.rawEvents d.loadManifest).filter fun e => e.timestampMs < target)
    rw [filter_filter, filter_filter] at hsplit
    refine (List.Perm.of_eq ?_).trans hsplit
    congr 1
    · refine filter_congr fun e _ => ?_
      rw [Bool.eq_iff_iff]
      simp only [Bool.and_eq_true, decide_eq_true_eq]
      omega
    · refine filter_congr fun e _ => ?_
      rw [Bool.eq_iff_iff]
      simp only [Bool.and_eq_true, Bool.not_eq_true', decide_eq_true_eq, decide_eq_false_iff_not]
      omega
  · intro m hm
    rw [hload] at hm
    rcases mem_append.1 hm with hm | hm
    · exact (h.below m hm).trans_le hle
    · obtain ⟨seg, hseg, rfl⟩ := mem_map.1 hm
      exact hbelow seg hseg

/-- When no batch is in flight, all that is not in segments is in the memtable. -/
theorem queue_eq_nil (hm : MemOk s) (h : s.mem.manifest.tickSnapshot.inFlight s.mem.activeId = false) :
    s.mem.queue = [] := by
  rw [eq_nil_iff_forall_not_mem]
  intro msg hmsg
  obtain ⟨hlt, hlt'⟩ := hm.covers.sealed_lt hmsg
  have hle : ¬ s.mem.manifest.lastSealedWalId + 1 < s.mem.activeId := by
    rw [TickSnapshot.inFlight, decide_eq_false_iff_not] at h
    exact h
  omega

/-- **A tick keeps the promise of the watermark.** -/
theorem RollupOk.commitTick (hd : DiskOk X cfg s.disk) (hm : MemOk s) (h : RollupOk X s.disk) {now : ℤ}
    {uuid : ℤ → ℕ → String} (hfresh : (Op.rollupTick now uuid).Fresh s) {target : ℤ}
    (htarget : target = targetHour cfg now s.mem.memtable.minEventTimestampMs)
    (hflight : s.mem.manifest.tickSnapshot.inFlight s.mem.activeId = false)
    (hstart : s.mem.manifest.tickSnapshot.start < target) :
    RollupOk X ((commitTick true s
      (newRollups X s.disk s.mem.manifest.tickSnapshot uuid s.mem.manifest.tickSnapshot.start target)
      target).state s).disk := by
  have hload := hm.loadManifest
  have hok : ∀ m ∈ s.mem.manifest.tickSnapshot.rawSegments,
      SegmentOk X s.disk s.mem.manifest.tickSnapshot.buckets m :=
    hd.listed hm
  have haligned : HOUR_MS ∣ target := htarget ▸ targetHour_dvd _ _ _
  have hwm : HOUR_MS ∣ s.mem.manifest.hourlyRollupMs := hload ▸ h.aligned
  have hscan := scanOf_newRollups hwm haligned hok
    (fun m hmem => by have := h.below m (hload ▸ hmem); rwa [hload] at this) hfresh.2
  generalize newRollups X s.disk s.mem.manifest.tickSnapshot uuid s.mem.manifest.tickSnapshot.start
    target = segs at *
  obtain ⟨r, hr, hother, hnew⟩ := rollupEffects_applyAll s.disk segs
  -- the new files are not among those listed
  have hlisted : ∀ seg ∈ s.disk.loadManifest.rollupSegments, r seg.segmentId =
      s.disk.rseg seg.segmentId := by
    intro m hmem
    refine hother _ fun hid => ?_
    obtain ⟨seg, hseg, hid⟩ := mem_map.1 hid
    obtain ⟨hour, b, hname⟩ := hscan.names seg hseg
    refine (hfresh.1 hour b).manifest (.inr (.inl ⟨m, hload ▸ hmem, ?_⟩))
    rw [← hname, hid]
  have hkept : RollupOk X { s.disk with rseg := r } :=
    h.keep 0 rfl rfl (.inr rfl) hlisted (Multiset.add_zero _).symm
      (fun e he => by simp at he) fun e he => .inl he
  have hstate : ((UsageDb.commitTick true s segs target).state s).disk =
      Disk.apply { s.disk with rseg := r }
        (.manifestSave (s.disk.loadManifest.commitRollup (segs.map (·.1)) target).saved) := by
    rw [hload, ← hr]
    exact Disk.applyAll_append s.disk (rollupEffects segs) _
  rw [hstate]
  obtain ⟨srcs, hof, hperm⟩ := hscan.sources
  have hof' : List.Forall₂ (RollupOf X s.disk.loadManifest.buckets) segs srcs := hload.symm ▸ hof
  have hwal : s.mem.memtable.events.Perm (s.disk.walEvents s.disk.loadManifest.lastSealedWalId) := by
    have hunsealed := hm.unsealed hd.sorted
    rwa [queue_eq_nil hm hflight, flatMap_nil, nil_append, ← hload] at hunsealed
  refine hkept.commit (hnew hscan.nodup) hof' (hload.symm ▸ hperm) haligned ?_ hscan.below
    fun e he => ?_
  · have hle := (start_bounds hwm fun m hm => (hok m hm).times).2.1
    have hlt := hle.trans_lt hstart
    rw [← hload] at hlt
    exact hlt.le
  · have hpos : ∀ e ∈ s.mem.memtable.events, 0 < e.timestampMs := by
      intro e he
      obtain ⟨f, hf, he⟩ := mem_flatMap.1 (hwal.subset he)
      exact hd.positive f (mem_of_mem_filter hf) e he
    rw [htarget]
    exact targetHour_le cfg now (hwal.mem_iff.2 he) hpos

/-! ### Every operation -/

section Steps

variable {c : Multiset UsageEvent}

/-- All operations but the tick leave the rollups alone. -/
theorem frames_rolled (s : State) {op : Op} (hop : ∀ now uuid, op ≠ .rollupTick now uuid) :
    Frames Manifest.rolled s (op.outcome X cfg s) := by
  cases op with
  | ingest clk events => exact Frames.onLog (onLog_ingest s clk events)
  | drain => exact Frames.onLog (onLog_drainIf s _)
  | flush uuid clk => exact frames_flush (fun _ _ _ => rfl) s uuid clk
  | rollupTick now uuid => exact absurd rfl (hop now uuid)
  | compactionTick now uuid
      => exact frames_compactionTick (fun _ _ => rfl) (fun _ _ _ _ => rfl) s now uuid
  | closePeriod account year month now
      => exact frames_closePeriod (fun _ _ => rfl) s account year month now
  | reopenPeriod account year month =>
    exact frames_reopenPeriod (fun _ _ _ _ => rfl) (fun _ _ _ _ => rfl) s account year month

/-- An operation that leaves the rollups alone, when all is in order after it. -/
theorem RollupOk.frames_ok {o : Outcome} {new : List UsageEvent} (h : RollupOk X s.disk)
    (hok : SysOk X cfg DistinctIds c (.up s)) (hok' : SysOk X cfg DistinctIds (c + ↑new)
      (.up (o.state s)))
    (hframes : Frames Manifest.rolled s o)
    (htimely : ∀ e ∈ new, s.mem.manifest.hourlyRollupMs ≤ e.timestampMs)
    (hunsealed : ∀ e ∈ o.mem.unsealed, e ∈ s.mem.unsealed ∨ e ∈ new) (hc : DistinctIds (c + ↑new)) :
    RollupOk X (o.state s).disk := by
  obtain ⟨hd, hm⟩ := hok
  obtain ⟨hd', hm'⟩ := hok'
  have hcontent : (o.state s).disk.content = s.disk.content + ↑new := by rw [hd'.2 hc, hd.2 hc.left]
  exact h.frames hframes hd.1.sorted hm hd'.1.sorted hm' hcontent htimely hunsealed

/-- An operation that accepts no event below the watermark keeps the promise. -/
theorem RollupOk.run {op : Op} (hok : SysOk X cfg DistinctIds c (.up s)) (h : RollupOk X s.disk)
    (hfresh : op.Fresh s) (hc : DistinctIds (c + ↑(op.accepts X s)))
    (htimely : ∀ e ∈ op.accepts X s, s.mem.manifest.hourlyRollupMs ≤ e.timestampMs) :
    RollupOk X ((op.outcome X cfg s).state s).disk := by
  have hstep : SysOk X cfg DistinctIds (c + ↑(op.accepts X s)) (.up ((op.outcome X cfg s).state s)) :=
    hok.step DistinctIds.left (fun _ => rfl) (.run hfresh)
  have hframes : Frames Manifest.rolled s (op.outcome X cfg s) →
      RollupOk X ((op.outcome X cfg s).state s).disk :=
    fun ho => h.frames_ok hok hstep ho htimely (fun e he => unsealed_outcome s op he) hc
  by_cases hop : ∀ now uuid, op ≠ .rollupTick now uuid
  · exact hframes (frames_rolled s hop)
  · push Not at hop
    obtain ⟨now, uuid, rfl⟩ := hop
    rcases tick_cases X cfg now uuid s with hskip | hdrain | ⟨target, htarget, hflight, hstart, hcommit⟩
    · refine hframes ?_
      rw [Op.outcome, hskip]
      exact Frames.skip s
    · refine hframes ?_
      rw [Op.outcome, hdrain]
      exact Frames.onLog (onLog_drainIf s _)
    · rw [Op.outcome, hcommit]
      exact h.commitTick hok.1.1 hok.2 hfresh htarget hflight hstart

/-- A start keeps the promise. -/
theorem RollupOk.restart {D : Multiset UsageEvent → Prop} (hd : Holds X cfg D c d)
    (h : RollupOk X d) (hc : D c) (now : ℤ)
    (clk : ℕ → ℤ) : RollupOk X (d.applyAll (restart X cfg now clk d).effects) := by
  obtain ⟨hpre, hm'⟩ := restart_ok hd now clk
  have hd' : Holds X cfg D c (d.applyAll (UsageDb.restart X cfg now clk d).effects) := hpre.all
  have hframes :=
    frames_restart X cfg
      (f := fun m => (m.rollupSegments, m.hourlyRollupMs)) (fun _ _ => rfl) now clk d
  obtain ⟨hman, hrseg⟩ := (frames_take hframes.2).all
  simp only [Prod.mk.injEq] at hman
  refine h.keep 0 hman.1 hman.2 ?_
    (fun seg _ => congrFun hrseg seg.segmentId) ?_ (fun e he => by simp at he) ?_
  · -- a new database gets its buckets here, but has no rollups yet
    have hmem : (d.applyAll (UsageDb.restart X cfg now clk d).effects).loadManifest =
        (initBuckets cfg d.loadManifest).1 := by
      rw [hm'.loadManifest]
      show (initBuckets cfg (d.applyAll (recoveryEffects d)).loadManifest).1 = _
      rw [Disk.loadManifest, recoveryEffects_manifest, Disk.loadManifest]
    rcases hd.1.bucketCount with hnone | hcount
    · exact .inl (by rw [Disk.loadManifest, hnone]; rfl)
    · refine .inr ?_
      rw [hmem, initBuckets]
      split
      · rw [Manifest.buckets, Manifest.buckets, hcount]
        rfl
      · rfl
  · exact (hd'.2 hc).trans ((hd.2 hc).symm.trans (Multiset.add_zero _).symm)
  · intro e he
    refine .inl ?_
    rw [hm'.loadManifest, ← (hm'.unsealed hd'.1.sorted).mem_iff] at he
    have hd1 : Holds X cfg D c (d.applyAll (recoveryEffects d)) := hd.recoveryEffects.all
    rw [← walEvents_recoveryEffects d, ← replay_eq_walEvents hd1.1.sorted]
    have hmem : (UsageDb.restart X cfg now clk d).mem.memtable.events =
        (d.applyAll (recoveryEffects d)).replay d.loadManifest.lastSealedWalId := by
      show (Memtable.insertAll X .new ((d.applyAll (recoveryEffects d)).replay
        (d.applyAll (recoveryEffects d)).loadManifest.lastSealedWalId) clk).events = _
      rw [Memtable.insertAll_events, Disk.loadManifest, recoveryEffects_manifest]
      rfl
    rw [← hmem]
    exact he

/-- **Every completed step keeps the promise**, if what it accepts is not below the watermark. -/
theorem RollupOk.step {sys sys' : Sys} {l : Label} (hok : SysOk X cfg DistinctIds c sys)
    (h : RollupOk X sys.disk)
    (hstep : Step X cfg sys l sys') (hl : l.Completed) (hc : DistinctIds (c + ↑(sys.accepts X l)))
    (htimely : ∀ e ∈ sys.accepts X l, sys.manifest.hourlyRollupMs ≤ e.timestampMs) :
      RollupOk X sys'.disk := by
  cases hstep with
  | run hfresh => exact h.run hok hfresh hc htimely
  | cut k hfresh =>
    obtain rfl : k = 0 := hl
    exact h
  | restart now clk => exact h.restart hok hc.left now clk
  | cutRestart now clk k => exact hl.elim

end Steps

/-! ### Answers -/

/-- Rollups have the groups and the sums of raw data, in a state whose rollups keep the promise. -/
theorem RollupOk.sameSums (hok : DiskOk X cfg s.disk) (hm : MemOk s)
    (h : RollupOk X s.disk) (hcontent : s.disk.content = c) (hdims : ∀ e ∈ c, plan.ReadsFields →
      DimsRoundTrip X e)
    (habs : (c.map fun e => |(e.quantity : ℤ)|).sum < 2 ^ 127) (hplan : plan.Hourly) :
    SameSums (groupKey plan) ((collectRollupThenRawTail X s plan).filter (matchesPlan plan))
      ((collectRawEvents X s plan plan.fromMs plan.toMs).filter (matchesPlan plan)) := by
  have hload := hm.loadManifest
  have hwal := hm.unsealed hok.sorted
  subst hcontent
  have hvisible : RollupBuilder.absQuantity s.visible ≤ RollupBuilder.absQuantity
      (s.disk.rawEvents s.mem.manifest ++ s.disk.walEvents s.mem.manifest.lastSealedWalId) := by
    rw [← RollupBuilder.absQuantity_perm (hwal.append_left (s.disk.rawEvents s.mem.manifest)),
      State.visible]
    exact RollupBuilder.absQuantity_sublist ((List.Sublist.refl _).append (sublist_append_right _ _))
  rw [Disk.content, hload] at hdims habs
  obtain ⟨srcs, hof, hperm⟩ := h.sources
  have hsegs := hok.listed hm
  have hbelow := h.below
  have habove := h.above
  rw [hload] at hof hperm hbelow habove
  refine sameSums_rollups hplan (fun m hmem => (hsegs m hmem).sound) hof hperm hbelow ?_ ?_ ?_ ?_
  · intro e he
    exact habove e (hwal.subset (mem_append_right _ he))
  · intro e he
    obtain ⟨m, hmem, he⟩ := mem_flatMap.1 he
    exact (hsegs m hmem).positive e he
  · exact fun e he => hdims e (Multiset.mem_coe.2 (mem_append_left _ he))
  · refine hvisible.trans_lt ?_
    simpa [RollupBuilder.absQuantity] using habs

/-- **Rollups answer as raw data does**, in a state whose rollups keep the promise. -/
theorem RollupOk.executePlan_eq (hok : DiskOk X cfg s.disk) (hm : MemOk s)
    (h : RollupOk X s.disk) (hcontent : s.disk.content = c) (hdims : ∀ e ∈ c, DimsRoundTrip X e)
    (habs : (c.map fun e => |(e.quantity : ℤ)|).sum < 2 ^ 127) (hplan : plan.Hourly)
    (hsum : plan.SumsOnly) (hne : plan.groupBy ≠ [] ∨ plan.metrics.entries ≠ []) :
    executePlan X s { plan with source := .rollupHourly } =
      executePlan X s { plan with source := .rawEvents } := by
  -- the source of a plan only says how to collect
  show aggregate plan (collectRollupThenRawTail X s plan) =
    aggregate plan (collectRawEvents X s plan plan.fromMs plan.toMs)
  exact aggregate_congr hsum hne (h.sameSums hok hm hcontent (fun e he _ => hdims e he) habs hplan)

/-- A completed step of the system and of the book of accepted events. No accepted event is
below the watermark of the moment. -/
structure BookStep (X : Extern) (cfg : Config) (a : Sys × Multiset UsageEvent) (l : Label)
    (b : Sys × Multiset UsageEvent) : Prop where
  /-- The system takes the step. -/
  step : Step X cfg a.1 l b.1
  /-- Nothing is cut. -/
  completed : l.Completed
  /-- The book has the accepted events too. -/
  book : b.2 = a.2 + ↑(a.1.accepts X l)
  /-- They are not below the watermark. -/
  timely : ∀ e ∈ a.1.accepts X l, a.1.manifest.hourlyRollupMs ≤ e.timestampMs

theorem bookStep_of_step {sys sys' : Sys} {l : Label} (hstep : Step X cfg sys l sys')
    (hl : l.Completed) (htimely : ∀ e ∈ sys.accepts X l, sys.manifest.hourlyRollupMs ≤ e.timestampMs) :
    BookStep X cfg (sys, c) l (sys', c + ↑(sys.accepts X l)) := ⟨hstep, hl, rfl, htimely⟩

/-- What holds of a system and its book after every run. -/
theorem book_run {ls : List Label} {b : Sys × Multiset UsageEvent}
    (hrun : Run (BookStep X cfg) (.down .empty, 0) ls b) :
    SysOk X cfg DistinctIds b.2 b.1 ∧ (DistinctIds b.2 → RollupOk X b.1.disk) := by
  refine hrun.invariant
    (I := fun b => SysOk X cfg DistinctIds b.2 b.1 ∧ (DistinctIds b.2 → RollupOk X b.1.disk)) ?_
    ⟨sysOk_empty, fun _ => rollupOk_empty⟩
  rintro a l b ⟨hok, hroll⟩ hstep
  refine ⟨hstep.book ▸ hok.step DistinctIds.left (fun _ => rfl) hstep.step, fun hc => ?_⟩
  rw [hstep.book] at hc
  exact (hroll hc.left).step hok hstep.step hstep.completed hc hstep.timely

/-- **Rollup answers equal raw answers.** After every sequence of completed operations in which
no event was accepted below the watermark, with different ids and quantities whose sum fits, a
plan of sums over full hours that asks for a metric or a group, and not for the kind, is
answered from the rollups as it is from the raw events. -/
theorem rollup_answers_eq_raw {ls : List Label} {s : State}
    (hrun : Run (BookStep X cfg) (.down .empty, 0) ls (.up s, c)) (hc : DistinctIds c)
    (hdims : ∀ e ∈ c, DimsRoundTrip X e) (habs : (c.map fun e => |(e.quantity : ℤ)|).sum < 2 ^ 127)
    (hplan : plan.Hourly) (hsum : plan.SumsOnly) (hne : plan.groupBy ≠ [] ∨ plan.metrics.entries ≠ []) :
    executePlan X s { plan with source := .rollupHourly } =
      executePlan X s { plan with source := .rawEvents } := by
  obtain ⟨⟨hd, hm⟩, hroll⟩ := book_run hrun
  exact (hroll hc).executePlan_eq hd.1 hm (hd.2 hc) hdims habs hplan hsum hne

/-- A step of the system and of the book, computed. -/
def bookNext (X : Extern) (cfg : Config) (b : Sys × Multiset UsageEvent) (l : Label) :
    Option (Sys × Multiset UsageEvent) :=
  if ∀ e ∈ b.1.accepts X l, b.1.manifest.hourlyRollupMs ≤ e.timestampMs then
    (b.1.next X cfg l).map (·, b.2 + ↑(b.1.accepts X l))
  else none

/-- A run of both, computed with different letters. -/
theorem exists_book_of_tags (X : Extern) (cfg : Config) {ls : List (Char × Label)} (hls : Lettered ls)
    (hdone : ∀ l ∈ ls.map (·.2), l.Completed) {P : State → Multiset UsageEvent → Prop}
    [∀ s c, Decidable (P s c)]
    (heval : (runAll (bookNext X cfg) (.down .empty, 0) (ls.map (·.2))).any
      (fun b => b.1.UpWith (P · b.2))) :
    ∃ s c, Run (BookStep X cfg) (.down .empty, 0) (ls.map (·.2)) (.up s, c) ∧ P s c := by
  obtain ⟨⟨sys, c⟩, hall, hview⟩ := (Option.any_eq_true _ _).1 heval
  have hrun :
      Run (fun a l b => l.Completed → BookStep X cfg a l b) (.down .empty, 0) (ls.map (·.2))
          (sys, c) := by
    refine run_of_tags X cfg (v := Prod.fst)
      (fun {a l b} hnext => ?_) hls (fun _ _ id _ => unused_empty id) hall
    obtain ⟨htimely, hsome⟩ := Option.ite_none_right_eq_some.1 hnext
    obtain ⟨sys', hsys, rfl⟩ := Option.map_eq_some_iff.1 hsome
    exact ⟨hsys, fun hstep hl => ⟨hstep, hl, rfl, htimely⟩⟩
  cases sys with
  | up s => exact ⟨s, c, hrun.labels.mono fun _ l _ h => h.1 (hdone l h.2), of_decide_eq_true hview⟩
  | down d => cases hview

/-- One event is flushed and rolled up. -/
def rolledUpRun : List (Char × Label) :=
  [('s', .restart 8000000 fun _ => 8000000),
    ('i', .run (.ingest sampleClock [sampleEvent "a" "acme" 3700000 5])),
    ('d', .run .drain), ('f', .run (.flush (taggedUuid 'f') fun _ => 9000000)),
    ('r', .run (.rollupTick 7260000 (taggedHourUuid 'r')))]

/-- Another is accepted in the hour after it. -/
def sampleRollupRun : List (Char × Label) :=
  rolledUpRun ++ [('j', .run (.ingest sampleClock [sampleEvent "b" "acme" 7300000 2]))]

/-- A plan over the two hours, with these metrics. -/
def samplePlan (metrics : AList fun _ : String => AggregationFunction) : QueryPlan :=
  ⟨.rawEvents, none, SInt.wrap 63 3600000, SInt.wrap 63 10800000, [], [], metrics⟩

theorem samplePlan_hourly
    (metrics : AList fun _ : String => AggregationFunction) : (samplePlan metrics).Hourly := by
  have hfrom : ((SInt.wrap 63 3600000 : I64) : ℤ) = HOUR_MS * 1 := by decide
  have hto : ((SInt.wrap 63 10800000 : I64) : ℤ) = HOUR_MS * 3 := by decide
  refine ⟨⟨1, hfrom⟩, ⟨3, hto⟩, ?_, ?_⟩
  · intro f hf
    cases hf
  · intro hmem
    cases hmem

/-- The plan that only asks for the sum. -/
def sampleSum : QueryPlan := samplePlan (AList.singleton "quantity" .sum)

/-- The run of `sampleRollupRun`, its book, and two answers in its last state. -/
theorem exists_sampleRollupRun :
    ∃ s c, Run (BookStep .sample sampleConfig) (.down .empty, 0)
      (sampleRollupRun.map (·.2)) (.up s, c) ∧
      c.map (fun e => (e.eventId, (e.quantity : ℤ), e.dimensions)) = {("a", 5, .new), ("b", 2, .new)} ∧
      executePlan .sample s { sampleSum with source := .rawEvents } =
        [.object [("quantity", .string "7")]] ∧
      executePlan .sample s { samplePlan ∅ with source := .rollupHourly } ≠
        executePlan .sample s { samplePlan ∅ with source := .rawEvents } :=
  exists_book_of_tags .sample sampleConfig
    ⟨by simp [sampleRollupRun, rolledUpRun, Label.DrawsTagged, Op.DrawsTagged], by decide⟩
    (by simp [sampleRollupRun, rolledUpRun, Label.Completed]) (by decide +kernel)

/-- The book of that run meets all conditions. -/
theorem sampleBook_ok
    (h : c.map (fun e => (e.eventId, (e.quantity : ℤ), e.dimensions)) =
      {("a", 5, .new), ("b", 2, .new)}) :
    DistinctIds c ∧ (∀ e ∈ c, DimsRoundTrip .sample e) ∧
      (c.map fun e => |(e.quantity : ℤ)|).sum < 2 ^ 127 := by
  have hmap : ∀ {β : Type} (f : String × ℤ × SmallDimensions → β),
      c.map (fun e => f (e.eventId, (e.quantity : ℤ), e.dimensions)) =
        {f ("a", 5, .new), f ("b", 2, .new)} := by
    intro β f
    have hf := congrArg (Multiset.map f) h
    rw [Multiset.map_map] at hf
    exact hf
  refine ⟨?_, fun e he => ?_, ?_⟩
  · rw [DistinctIds, hmap fun x => x.1]
    decide
  · have hmem := Multiset.mem_map_of_mem (fun e : UsageEvent => e.dimensions) he
    rw [hmap fun x => x.2.2] at hmem
    have hdims : e.dimensions = .new := by simpa using hmem
    rw [DimsRoundTrip, hdims]
    rfl
  · rw [hmap fun x => |x.2.1|]
    decide

/-- Both sources give the sum of the two events. -/
theorem rollup_answers_eq_raw_of_two_events :
    ∃ s c, Run (BookStep .sample sampleConfig) (.down .empty, 0)
      (sampleRollupRun.map (·.2)) (.up s, c) ∧ DistinctIds c ∧ (∀ e ∈ c, DimsRoundTrip .sample e) ∧
      (c.map fun e => |(e.quantity : ℤ)|).sum < 2 ^ 127 ∧ sampleSum.Hourly ∧ sampleSum.SumsOnly ∧
      sampleSum.metrics.entries ≠ [] ∧
      executePlan .sample s { sampleSum with source := .rollupHourly } =
        [.object [("quantity", .string "7")]] := by
  obtain ⟨s, c, hrun, hbook, hraw, -⟩ := exists_sampleRollupRun
  obtain ⟨hc, hdims, habs⟩ := sampleBook_ok hbook
  have hsum : sampleSum.SumsOnly := by decide
  have hne : sampleSum.metrics.entries ≠ [] := by decide
  have heq := rollup_answers_eq_raw hrun hc hdims habs (samplePlan_hourly _) hsum (.inr hne)
  exact ⟨s, c, hrun, hc, hdims, habs, samplePlan_hourly _, hsum, hne, heq.trans hraw⟩

/-- A plan with no metric and no group is answered with the rows themselves: the raw source
returns the events, the rollups one synthetic event for an hour. -/
theorem rollup_rows_ne_raw_rows :
    ∃ s c, Run (BookStep .sample sampleConfig) (.down .empty, 0)
      (sampleRollupRun.map (·.2)) (.up s, c) ∧ DistinctIds c ∧ (∀ e ∈ c, DimsRoundTrip .sample e) ∧
      (c.map fun e => |(e.quantity : ℤ)|).sum < 2 ^ 127 ∧ (samplePlan ∅).Hourly ∧
      (samplePlan ∅).SumsOnly ∧
      executePlan .sample s { samplePlan ∅ with source := .rollupHourly } ≠
        executePlan .sample s { samplePlan ∅ with source := .rawEvents } := by
  obtain ⟨s, c, hrun, hbook, -, hne⟩ := exists_sampleRollupRun
  obtain ⟨hc, hdims, habs⟩ := sampleBook_ok hbook
  exact ⟨s, c, hrun, hc, hdims, habs, samplePlan_hourly _, by decide, hne⟩

end UsageDb
