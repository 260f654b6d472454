import UsageDb.Runtime.Names
import Mathlib.Logic.Relation

/-!
# The lineage of rollups

A rollup segment keeps the ids of the raw segments it was made from, so that an invoice line
can be traced to its events. Compaction replaces raw segments and records each replacement;
following the records, an input leads to a segment that is listed (`Manifest.Resolves`).

Three workers change the three lists involved. A flush lists new segments, a rollup tick
takes its inputs from the listed ones, a merge adds the record that links its inputs to its
output: all of them keep every input resolvable. A sweep drops records, and an input that
needs one of them is lost; `rollup_lineage_resolvable` is for sweeps that drop no such record.
-/

namespace UsageDb

open Lib List

variable {X : Extern} {cfg : Config} {m : Manifest}

namespace Manifest

/-- A replacement record says that the segment `a` was merged into `b`. -/
def Replaced (m : Manifest) (a b : String) : Prop :=
  ∃ r ∈ m.compactedReplacements, a ∈ r.oldSegments ∧ b ∈ r.newSegments

/-- The records lead from the segment to one that is listed. -/
def Resolves (m : Manifest) (id : String) : Prop := ∃ id' ∈ m.rawIds,
    Relation.ReflTransGen m.Replaced id id'

/-- Every input of every rollup segment can be traced to a listed segment. -/
def LineageOk (m : Manifest) : Prop := ∀ seg ∈ m.rollupSegments,
    ∀ id ∈ seg.inputSegmentIds, m.Resolves id

/-- The segment is an input of a rollup segment, or has taken the place of one. -/
def RolledUp (m : Manifest) (id : String) : Prop :=
  ∃ seg ∈ m.rollupSegments, ∃ input ∈ seg.inputSegmentIds, Relation.ReflTransGen m.Replaced input id

/-- A sweep at `now` drops no record of a segment that has been rolled up. -/
def SweepKeeps (m : Manifest) (graceMs now : ℤ) : Prop :=
  ∀ r ∈ m.toFinalize graceMs now, ∀ id ∈ r.oldSegments, ¬ m.RolledUp id

end Manifest

open Manifest

/-! ### What each worker does to it -/

/-- More listed segments and more records do no harm. -/
theorem Manifest.Resolves.mono {n : Manifest} {id : String} (h : m.Resolves id)
    (hids : ∀ id ∈ m.rawIds, n.Resolves id)
    (hreplaced : ∀ a b, m.Replaced a b → n.Replaced a b) : n.Resolves id := by
  obtain ⟨id', hid', hchain⟩ := h
  obtain ⟨id'', hid'', hchain'⟩ := hids id' hid'
  exact ⟨id'', hid'', (Relation.ReflTransGen.mono hreplaced _ _ hchain).trans hchain'⟩

theorem Manifest.resolves_of_mem {id : String} (h : id ∈ m.rawIds) : m.Resolves id := ⟨id, h, .refl⟩

theorem Manifest.LineageOk.mono {n : Manifest} (h : m.LineageOk)
    (hrollups : n.rollupSegments = m.rollupSegments)
    (hids : ∀ id ∈ m.rawIds, n.Resolves id) (hreplaced : ∀ a b, m.Replaced a b → n.Replaced a b) :
      n.LineageOk := by
  intro seg hseg id hid
  rw [hrollups] at hseg
  exact (h seg hseg id hid).mono hids hreplaced

/-- A flush lists more segments. -/
theorem Manifest.LineageOk.commitFlush (h : m.LineageOk) (metas : List SegmentMeta) (sealedId : ℕ) :
    (m.commitFlush metas sealedId).saved.LineageOk := by
  refine h.mono rfl (fun id hid => resolves_of_mem ?_) fun _ _ hab => hab
  rw [Manifest.saved_rawIds, Manifest.rawIds, Manifest.commitFlush, map_append]
  exact mem_append_left _ hid

/-- The inputs of new rollup segments are listed. -/
theorem Manifest.LineageOk.commitRollup (h : m.LineageOk) {metas : List SegmentMeta} (target : ℤ)
    (hmetas : ∀ seg ∈ metas, ∀ id ∈ seg.inputSegmentIds, id ∈ m.rawIds) :
    (m.commitRollup metas target).saved.LineageOk := by
  intro seg hseg id hid
  rcases mem_append.1 hseg with hseg | hseg
  · exact h seg hseg id hid
  · exact resolves_of_mem (hmetas seg hseg id hid)

/-- A merge links its inputs to its output. -/
theorem Manifest.LineageOk.swap (h : m.LineageOk) (plan : CompactionPlan)
    (new : SegmentMeta) (now : ℤ) :
    (m.swap plan new now).saved.LineageOk := by
  refine h.mono rfl (fun id hid => ?_) ?_
  · obtain ⟨seg, hseg, rfl⟩ := mem_map.1 hid
    by_cases hplan : seg.segmentId ∈ plan.segmentIds
    · refine ⟨new.segmentId, ?_, .single ⟨⟨plan.segmentIds, [new.segmentId], now⟩, ?_, hplan,
        mem_singleton_self _⟩⟩
      · exact mem_map_of_mem (mem_append_right _ (mem_singleton_self new))
      · exact mem_append_right _ (mem_singleton_self _)
    · refine resolves_of_mem (mem_map_of_mem (mem_append_left _ ?_))
      exact mem_filter.2 ⟨hseg, decide_eq_true hplan⟩
  · rintro a b ⟨r, hr, hab⟩
    exact ⟨r, mem_append_left _ hr, hab⟩

/-- A sweep drops only records that it finalizes. -/
theorem Manifest.mem_dropReplacements {graceMs now : ℤ} {r : ReplacementRecord}
    (hr : r ∈ m.compactedReplacements) (hkeep : r ∉ m.toFinalize graceMs now) :
    r ∈ (m.dropReplacements (m.toFinalize graceMs now)).compactedReplacements := by
  refine mem_filter.2 ⟨hr, ?_⟩
  rw [Bool.not_eq_true', any_eq_false]
  intro r' hr' hsame
  rw [Bool.and_eq_true, decide_eq_true_eq, decide_eq_true_eq] at hsame
  obtain ⟨-, hold⟩ := mem_filter.1 hr'
  rw [hsame.1] at hold
  exact hkeep (mem_filter.2 ⟨hr, hold⟩)

/-- A sweep that drops no record of a segment that has been rolled up keeps the lineage. -/
theorem Manifest.LineageOk.sweep (h : m.LineageOk) {graceMs now : ℤ}
    (hkeeps : m.SweepKeeps graceMs now) :
    (m.dropReplacements (m.toFinalize graceMs now)).saved.LineageOk := by
  intro seg hseg id hid
  obtain ⟨id', hid', hchain⟩ := h seg hseg id hid
  refine ⟨id', hid', ?_⟩
  clear hid'
  -- every link on the way from an input is one that the sweep keeps
  induction hchain with
  | refl => exact .refl
  | @tail a b hchain hlink ih =>
    obtain ⟨r, hr, ha, hb⟩ := hlink
    have hrolled : m.RolledUp a := ⟨seg, hseg, id, hid, hchain⟩
    have hkept : r ∉ m.toFinalize graceMs now := fun hr' => hkeeps r hr' a ha hrolled
    exact .tail ih ⟨r, mem_dropReplacements hr hkept, ha, hb⟩

/-! ### Runs -/

/-- The manifests of a system, in memory and on the disk. -/
def Sys.Manifests (P : Manifest → Prop) : Sys → Prop
  | .up s => P s.mem.manifest ∧ P s.disk.loadManifest
  | .down d => P d.loadManifest

/-- The sweep of a compaction tick, if the step is one, keeps the records of rolled up
segments. -/
def Label.SweepKeeps (cfg : Config) (sys : Sys) : Label → Prop
  | .run (.compactionTick now _) | .cut (.compactionTick now _) _ => sys.manifest.SweepKeeps
      cfg.compactionGraceMs now
  | _ => True

theorem commits_lineage {s : State} {op : Op} (h : s.mem.manifest.LineageOk)
    (hsweep : ∀ now uuid, op = .compactionTick now
      uuid → s.mem.manifest.SweepKeeps cfg.compactionGraceMs now) :
    Commits LineageOk (op.outcome X cfg s) := by
  cases op with
  | ingest clk events => exact .onLog h (onLog_ingest s clk events)
  | drain => exact .onLog h (onLog_drainIf s _)
  | flush uuid clk => exact commits_flush h clk fun msg _ => h.commitFlush _ _
  | rollupTick now uuid =>
    refine commits_tick h fun start target => h.commitRollup target fun seg hseg id hid => ?_
    obtain ⟨seg', hseg', rfl⟩ := mem_map.1 hseg
    obtain ⟨raw, hraw, rfl⟩ := inputs_newRollups hseg' hid
    exact mem_map_of_mem hraw
  | compactionTick now uuid =>
    exact commits_compactionTick
      h (h.sweep (hsweep now uuid rfl)) fun m hm d plan _ => hm.swap plan _ now
  | closePeriod account year month now
      => exact commits_closePeriod h (fun _ => h) account year month now
  | reopenPeriod account year month => exact commits_reopenPeriod h h

/-- Every step keeps the lineage, a compaction tick if its sweep does. -/
theorem Step.lineage {sys sys' : Sys} {l : Label} (h : sys.Manifests LineageOk)
    (hsweep : l.SweepKeeps cfg sys) (hstep : Step X cfg sys l sys') : sys'.Manifests LineageOk := by
  cases hstep with
  | @run s op _ =>
    have hcommits : Commits LineageOk (op.outcome X cfg s) := commits_lineage h.1 fun now uuid hop => by
      rw [hop] at hsweep
      exact hsweep
    exact ⟨hcommits.mem, (commits_take h.2 hcommits.saves).all⟩
  | @cut s op k _ =>
    have hcommits : Commits LineageOk (op.outcome X cfg s) := commits_lineage h.1 fun now uuid hop => by
      rw [hop] at hsweep
      exact hsweep
    exact commits_take h.2 hcommits.saves k
  | @restart d now clk =>
    have hcommits : Commits LineageOk (UsageDb.restart X cfg now clk d) :=
      commits_restart h (fun _ => h) now clk
    exact ⟨hcommits.mem, (commits_take h hcommits.saves).all⟩
  | @cutRestart d now clk k =>
    have hcommits : Commits LineageOk (UsageDb.restart X cfg now clk d) :=
      commits_restart h (fun _ => h) now clk
    exact commits_take h hcommits.saves k

/-- **Rollup lineage stays resolvable** in every run whose sweeps drop no record of a segment that
has been rolled up, or that has taken the place of one: every input of every rollup segment is
listed, or linked to a listed segment by replacement records. -/
theorem rollup_lineage_resolvable {ls : List Label} {sys : Sys}
    (hrun : Run (fun a l b => Step X cfg a l b ∧ l.SweepKeeps cfg a) (.down .empty) ls sys) :
      sys.manifest.LineageOk := by
  have h : sys.Manifests LineageOk := hrun.invariant (I := Sys.Manifests LineageOk)
    (fun a l b h hstep => hstep.1.lineage h hstep.2) (fun seg hseg => by cases hseg)
  cases sys with
  | up s => exact h.1
  | down d => exact h

/-! ### A lineage through two merges, and one that a sweep cuts -/

/-- A check of the condition on a sweep: it has nothing to drop, or nothing has been rolled up. -/
def Label.checkSweep (cfg : Config) (sys : Sys) : Label → Bool
  | .run (.compactionTick now _) | .cut (.compactionTick now _) _ =>
    (sys.manifest.toFinalize cfg.compactionGraceMs now).isEmpty || sys.manifest.rollupSegments.isEmpty
  | _ => true

theorem Label.sweepKeeps_of_check {sys : Sys} {l : Label} (h : l.checkSweep cfg sys) :
    l.SweepKeeps cfg sys := by
  have hkeeps : ∀ now, ((sys.manifest.toFinalize cfg.compactionGraceMs now).isEmpty ||
      sys.manifest.rollupSegments.isEmpty) → sys.manifest.SweepKeeps cfg.compactionGraceMs now := by
    intro now h r hr id _ hrolled
    rw [Bool.or_eq_true, List.isEmpty_iff, List.isEmpty_iff] at h
    rcases h with h | h
    · rw [h] at hr
      cases hr
    · obtain ⟨seg, hseg, -⟩ := hrolled
      rw [h] at hseg
      cases hseg
  cases l with
  | run op =>
    cases op with
    | compactionTick now uuid => exact hkeeps now h
    | _ => trivial
  | cut op k =>
    cases op with
    | compactionTick now uuid => exact hkeeps now h
    | _ => trivial
  | _ => trivial

/-- A request of one event, which is drained and flushed under names with the letter `q`. -/
def flushTagged (p q : Char) (id : String) : List (Char × Label) :=
  [(p, .run (.ingest sampleClock [sampleEvent id "acme" 7200000 5])),
    (q, .run (.flush (taggedUuid q) fun _ => 9000000))]

/-- Two segments are merged and the record is swept; the merged segment and a third are rolled up,
then merged; the server stops. -/
def mergedLineage : List (Char × Label) :=
  ('0', .restart 8000000 fun _ => 8000000) :: flushTagged '1' 'a' "a" ++ flushTagged '2' 'b' "b" ++
    [('m', .run (.compactionTick 9000000 (taggedUuid 'm'))),
      ('3', .run (.compactionTick 9000001 (taggedUuid '3')))] ++
    flushTagged '4' 'c' "c" ++ [('r', .run (.rollupTick 10860000 (taggedHourUuid 'r'))),
      ('n', .run (.compactionTick 10860001 (taggedUuid 'n'))), ('5', .cut .drain 0)]

/-- The two inputs of the rollup are not listed any more, and linked to the segment that is. -/
theorem rollup_lineage_of_merges :
    ∃ sys, Run (fun a l b => Step .sample tinyConfig a l b ∧ l.SweepKeeps tinyConfig a) (.down .empty)
        (mergedLineage.map (·.2)) sys ∧
      sys.manifest.rollupSegments.map (·.inputSegmentIds) = [["compacted_mx", "raw_cx"]] ∧
      sys.manifest.rawIds = ["compacted_nx"] ∧ sys.manifest.LineageOk := by
  have heval :
      (runAll (fun sys l => if l.checkSweep tinyConfig sys then sys.next .sample
        tinyConfig l else none)
      (.down .empty) (mergedLineage.map (·.2))).any (fun sys =>
        sys.manifest.rollupSegments.map (·.inputSegmentIds) = [["compacted_mx", "raw_cx"]] ∧
        sys.manifest.rawIds = ["compacted_nx"]) := by decide +kernel
  obtain ⟨sys, hall, hview⟩ := (Option.any_eq_true _ _).1 heval
  obtain ⟨hinputs, hids⟩ := of_decide_eq_true hview
  have hrun :
      Run (fun a l b => Step .sample tinyConfig a l b ∧ l.SweepKeeps tinyConfig a) (.down .empty)
      (mergedLineage.map (·.2)) sys := by
    refine run_of_tags .sample tinyConfig (v := id) (fun {a l b} hnext => ?_)
      ⟨by simp [mergedLineage, flushTagged, Label.DrawsTagged, Op.DrawsTagged], by decide⟩
      (fun _ _ id _ => unused_empty id) hall
    obtain ⟨hcheck, hnext⟩ := Option.ite_none_right_eq_some.1 hnext
    exact ⟨hnext, fun hstep => ⟨hstep, Label.sweepKeeps_of_check hcheck⟩⟩
  exact ⟨sys, hrun, hinputs, hids, rollup_lineage_resolvable hrun⟩

/-- Two segments are rolled up, merged, and the record is swept. -/
def sweptLineage : List (Char × Label) :=
  ('0', .restart 8000000 fun _ => 8000000) :: flushTagged '1' 'a' "a" ++ flushTagged '2' 'b' "b" ++
    [('r', .run (.rollupTick 10860000 (taggedHourUuid 'r'))),
      ('m', .run (.compactionTick 10860001 (taggedUuid 'm'))),
      ('3', .run (.compactionTick 10860002 (taggedUuid '3')))]

/-- The inputs of the rollup are not listed, and nothing says what became of them. -/
theorem lineage_lost_by_sweep :
    ∃ sys, Run (Step .sample tinyConfig) (.down .empty) (sweptLineage.map (·.2)) sys ∧
      ¬ sys.manifest.LineageOk := by
  have hls : Lettered sweptLineage :=
    ⟨by simp [sweptLineage, flushTagged, Label.DrawsTagged, Op.DrawsTagged], by decide⟩
  obtain ⟨sys, hrun, hinputs, hids, hrecords⟩ := exists_run_of_tags .sample tinyConfig hls
    (P := fun sys => sys.manifest.rollupSegments.map (·.inputSegmentIds) = [["raw_ax", "raw_bx"]] ∧
      sys.manifest.rawIds = ["compacted_mx"] ∧
        sys.manifest.compactedReplacements = []) (by decide +kernel)
  refine ⟨sys, hrun, fun hok => ?_⟩
  obtain ⟨seg, hseg, heq⟩ := map_eq_singleton_iff.1 hinputs
  obtain ⟨id', hid', hchain⟩ := hok seg (hseg ▸ mem_singleton_self _) "raw_ax" (by simp [heq])
  -- without records an id leads to itself only
  rcases hchain.cases_head with rfl | ⟨b, ⟨r, hr, -⟩, -⟩
  · rw [hids] at hid'
    exact absurd hid' (by decide)
  · rw [hrecords] at hr
    cases hr

end UsageDb
