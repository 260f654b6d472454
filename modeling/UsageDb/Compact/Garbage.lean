import UsageDb.Compact.Merge
import UsageDb.Rollup.Lineage

/-!
# The files compaction leaves

A merge writes one new segment and records the inputs it replaces; a later sweep deletes their
files and drops the record. So the manifest mentions every raw segment file (`.seg`): it lists it,
or has a record of it. Any other one is an orphan, which nothing reads. The files of rollups
(`.rseg`) and the sidecars (`.idx`) are not followed here.

A flush or a merge that is cut before its manifest is saved leaves orphans. Nothing else does,
and nothing removes them: recovery does not look for them, and no later step deletes an orphan
or lists it (`orphans_come_from_cuts`).

A tick merges each bucket that has more than `max_small_segments` segments into one, so the next
tick has nothing to merge; but with a limit of zero every segment is merged anew, alone, in each
tick (`compaction_settles`).
-/

namespace UsageDb

open Lib List

variable {X : Extern} {cfg : Config} {d : Disk} {s : State} {o : Outcome} {c : Multiset UsageEvent}
  {id : String} {sys : Sys} {ls : List Label} {uuid : ℕ → String}

/-! ### Orphans -/

/-- A segment file that the saved manifest does not mention. -/
def Disk.Orphan (d : Disk) (id : String) : Prop := d.seg id ≠ none ∧ ¬ d.loadManifest.mentions id

/-- An outcome that has nothing to do with an orphan leaves it one, after every durable step. -/
theorem Disk.Orphan.spares (h : d.Orphan id) (ho : Spares id o) (k : ℕ) :
    (d.applyAll (o.effects.take k)).Orphan id := by
  have havoids : ∀ x ∈ o.effects.take k, x.Avoids id := fun x hx => ho.effects x (mem_of_mem_take hx)
  exact ⟨(Disk.applyAll_avoids havoids d).1 ▸ h.1, commits_take h.2 ho.manifest.saves k⟩

/-- An operation does not draw the name of a file that is there. -/
theorem Op.Fresh.not_draws {op : Op} (h : op.Fresh s) (hid : s.disk.seg id ≠ none) : ¬ op.Draws id := by
  cases op with
  | flush => exact fun ⟨b, hb⟩ => hid (hb ▸ (h.1 b).seg)
  | compactionTick => exact fun ⟨b, hb⟩ => hid (hb ▸ (h.1 b).seg)
  | rollupTick => exact fun ⟨i, b, hb⟩ => hid (hb ▸ (h.1 i b).seg)
  | _ => exact fun hdraws => hdraws

/-- A file that is there was there before, or has been written. -/
theorem seg_applyAll {xs : List Effect} (h : (d.applyAll xs).seg id ≠ none) :
    d.seg id ≠ none ∨ ∃ rows, .segWrite id rows ∈ xs := by
  refine or_iff_not_imp_right.2 fun hnone => ?_
  induction xs generalizing d with
  | nil => exact h
  | cons x xs ih =>
    have hseg := ih h fun ⟨rows, hrows⟩ => hnone ⟨rows, mem_cons_of_mem _ hrows⟩
    cases x with
    | segWrite i rows =>
      have hne : id ≠ i := fun heq => hnone ⟨rows, heq ▸ mem_cons_self⟩
      exact fun hd => hseg ((Function.update_of_ne hne ..).trans hd)
    | segRemove i =>
      intro hd
      by_cases hne : id = i
      · exact hseg (hne ▸ Function.update_self ..)
      · exact hseg ((Function.update_of_ne hne ..).trans hd)
    | _ => exact hseg

/-! ### What an operation leaves -/

/-- The outcome leaves no orphan that was not one before. -/
def Clean (s : State) (o : Outcome) : Prop :=
  ∀ id, (o.state s).disk.seg id ≠ none → ¬ o.mem.manifest.mentions id → s.disk.seg id ≠ none ∧
    ¬ s.mem.manifest.mentions id

namespace Clean

theorem skip (s : State) : Clean s (.skip s) := fun _ hseg hman => ⟨hseg, hman⟩

theorem andThen {next : State → Outcome} (h : Clean s o)
    (hnext : Clean (o.state s) (next (o.state s))) :
    Clean s (o.andThen s next) := by
  intro id hseg hman
  rw [Outcome.andThen_state] at hseg
  obtain ⟨hseg', hman'⟩ := hnext id hseg hman
  exact h id hseg' hman'

/-- What is written is mentioned, and so is what has been mentioned, or it is gone. -/
theorem of_mentions (hwritten : ∀ id rows, .segWrite id rows ∈ o.effects →
    (o.state s).disk.seg id ≠ none →
      o.mem.manifest.mentions id)
    (hkept : ∀ id, s.mem.manifest.mentions id → (o.state s).disk.seg id ≠ none →
      o.mem.manifest.mentions id) : Clean s o := by
  intro id hseg hman
  refine ⟨?_, fun hold => hman (hkept id hold hseg)⟩
  rcases seg_applyAll hseg with hold | ⟨rows, hwrite⟩
  · exact hold
  · exact absurd (hwritten id rows hwrite hseg) hman

theorem onLog (h : o.OnLog s) : Clean s o :=
  of_mentions (fun _ _ hwrite => (h.effects _ hwrite).elim) fun _ hid _ => h.manifest ▸ hid

end Clean

theorem clean_flush (s : State) (uuid : ℕ → String) (clk : ℕ → ℤ) :
    Clean s (flushNext X uuid clk s) := by
  rcases flushNext_cases X uuid clk s with heq | ⟨msg, rest, -, ⟨-, heq⟩ | ⟨segs, m, -, rfl, heq⟩⟩
  · exact heq ▸ .skip s
  · exact heq ▸ .skip s
  rw [heq]
  refine .of_mentions (fun id rows hwrite _ => .inl ?_) fun id hid _ => hid.imp_left fun hid => ?_
  · simp only [segmentEffects, deleteThroughEffects, mem_append, mem_flatMap, mem_cons, mem_map,
      Effect.segWrite.injEq, reduceCtorEq, not_mem_nil, or_false, and_false, exists_false] at hwrite
    obtain ⟨seg, hseg, rfl, -⟩ := hwrite
    exact mem_map_of_mem (mem_append_right _ (mem_map_of_mem hseg))
  · rw [Manifest.rawIds, Manifest.saved_rawSegments, Manifest.commitFlush, map_append]
    exact mem_append_left _ hid

/-- A merge moves its inputs from the list to a record; one that is given up deletes its output. -/
theorem clean_runOnePlan (s : State) (uuid : ℕ → String) (now : ℤ) (plan : CompactionPlan) :
    Clean s (runOnePlan X uuid true now plan s).1 := by
  rw [runOnePlan]
  split
  · exact .skip s
  split
  · refine .of_mentions (fun id rows hwrite _ => .inl ?_) fun id hid _ => ?_
    · simp only [if_true, cons_append, nil_append, mem_cons, Effect.segWrite.injEq, reduceCtorEq,
        not_mem_nil, or_false] at hwrite
      rw [hwrite.1]
      exact mem_map_of_mem (mem_append_right _ mem_cons_self)
    · rcases hid with hid | hid | ⟨r, hr, hid⟩
      · obtain ⟨m, hm, rfl⟩ := mem_map.1 hid
        by_cases hin : m.segmentId ∈ plan.segmentIds
        · exact .inr (.inr ⟨_, mem_append_right _ mem_cons_self, hin⟩)
        · exact .inl (mem_map_of_mem (mem_append_left _ (mem_filter.2 ⟨hm, decide_eq_true hin⟩)))
      · exact .inr (.inl hid)
      · exact .inr (.inr ⟨r, mem_append_left _ hr, hid⟩)
  · refine .of_mentions (fun id rows hwrite hseg => absurd ?_ hseg) fun _ hid _ => hid
    simp only [cons_append, nil_append, mem_cons, Effect.segWrite.injEq, reduceCtorEq, not_mem_nil,
      or_false] at hwrite
    exact hwrite.1 ▸ Function.update_self ..

theorem seg_segRemove {ids : List String} (h : id ∈ ids ∨ d.seg id = none) :
    (d.applyAll (ids.map .segRemove)).seg id = none := by
  induction ids generalizing d with
  | nil => exact h.resolve_left not_mem_nil
  | cons i ids ih =>
    refine ih ?_
    show id ∈ ids ∨ Function.update d.seg i none id = none
    rw [Function.update_apply]
    grind

/-- A sweep deletes the files of the records it drops. -/
theorem clean_sweep (s : State) (graceMs now : ℤ) :
    Clean s (sweepPendingDeletions graceMs now true s).1 := by
  rw [sweepPendingDeletions]
  split
  · exact .skip s
  refine .of_mentions (fun id rows hwrite _ => ?_) fun id hid hseg => ?_
  · simp [sweepEffects] at hwrite
  refine hid.imp_right (Or.imp_right ?_)
  rintro ⟨r, hr, hid⟩
  refine ⟨r, Manifest.mem_dropReplacements hr fun hdone => hseg ?_, hid⟩
  rw [Outcome.state, if_pos rfl, Disk.applyAll_append]
  refine seg_segRemove (or_iff_not_imp_right.2
    fun hfile => mem_filter.2 ⟨?_, Option.isSome_iff_ne_none.2 hfile⟩)
  exact mem_flatMap.2 ⟨r, hdone, hid⟩

theorem clean_runPlans (uuid : ℕ → String) (now : ℤ) (plans : List CompactionPlan) (s : State) :
    Clean s (runPlans X uuid (fun _ => true) now plans s) := by
  induction plans generalizing s with
  | nil => exact .skip s
  | cons plan plans ih => exact (clean_runOnePlan s uuid now plan).andThen (ih _)

/-- **No operation that runs to its end leaves an orphan.** -/
theorem Op.clean (s : State) (op : Op) : Clean s (op.outcome X cfg s) := by
  cases op with
  | ingest clk events => exact .onLog (onLog_ingest s clk events)
  | drain => exact .onLog (onLog_drainIf s _)
  | flush uuid clk => exact clean_flush s uuid clk
  | rollupTick now uuid =>
    refine tick_rule (.skip s) (.onLog (onLog_drainIf s _)) fun start target =>
      .of_mentions (fun id rows hwrite _ => ?_) fun id hid _ => hid.imp_right (Or.imp_left ?_)
    · simp [commitTick, rollupEffects] at hwrite
    · rintro ⟨seg, hseg, heq⟩
      exact ⟨seg, mem_append_left _ hseg, heq⟩
  | compactionTick now uuid =>
    rw [Op.outcome, compactionTick_of_saves]
    exact (clean_sweep s _ now).andThen (clean_runPlans uuid now _ _)
  | closePeriod account year month now =>
    rw [Op.outcome, UsageDb.closePeriod]
    split
    · exact .skip s
    split
    · exact .skip s
    · exact .of_mentions (fun id rows hwrite _ => by simp at hwrite) fun _ hid _ => hid
  | reopenPeriod account year month =>
    rw [Op.outcome, UsageDb.reopenPeriod]
    split <;> exact .of_mentions (fun id rows hwrite _ => by simp at hwrite) fun _ hid _ => hid

theorem orphan_of_restart {now : ℤ} {clk : ℕ → ℤ} (k : ℕ)
    (h : (d.applyAll ((restart X cfg now clk d).effects.take k)).Orphan id) : d.Orphan id := by
  have hframes := frames_restart X cfg (f := fun m => m.mentions id) (fun _ _ => rfl) now clk d
  have hman := (frames_take hframes.2 k).1
  refine ⟨(seg_applyAll h.1).resolve_right fun ⟨rows, hwrite⟩ => ?_, fun hid => h.2 (hman ▸ hid)⟩
  have hwrite := mem_of_mem_take hwrite
  rw [restart, initBuckets] at hwrite
  split at hwrite <;> simp [recoveryEffects, deleteThroughEffects] at hwrite

/-! ### Every run -/

/-- No operation is cut under way. -/
def Label.Intact : Label → Prop
  | .cut _ k => k = 0
  | _ => True

theorem Step.orphans {sys' : Sys} {l : Label} (hok : SysOk X cfg DistinctIds c sys)
    (hstep : Step X cfg sys l sys') :
    (sys.disk.Orphan id → sys'.disk.Orphan id) ∧
      (l.Intact → sys'.disk.Orphan id → sys.disk.Orphan id) := by
  have hok' := hok.step DistinctIds.left (fun _ => rfl) hstep
  cases hstep with
  | @run s op hfresh =>
    have hload := loadManifest_eq hok.2.loaded
    constructor
    · intro h
      have hspares : Spares id (op.outcome X cfg s) := Op.spares (hload ▸ h.2) (hfresh.not_draws h.1)
      have hk := h.spares hspares (op.outcome X cfg s).effects.length
      rwa [take_length] at hk
    · rintro - ⟨hseg, hman⟩
      obtain ⟨hseg', hman'⟩ := Op.clean s op id hseg (loadManifest_eq hok'.2.loaded ▸ hman)
      exact ⟨hseg', hload ▸ hman'⟩
  | @cut s op k hfresh =>
    refine ⟨fun h => h.spares (Op.spares (loadManifest_eq hok.2.loaded ▸ h.2)
      (hfresh.not_draws h.1)) k, ?_⟩
    rintro (rfl : k = 0) h
    exact h
  | @restart d now clk =>
    have htake := take_length (l := (UsageDb.restart X cfg now clk d).effects)
    exact ⟨fun h => htake ▸ h.spares (spares_restart h.2 now clk) _, fun _ h =>
      orphan_of_restart _ (htake.symm ▸ h)⟩
  | cutRestart now clk k
      => exact ⟨fun h => h.spares (spares_restart h.2 now clk) k, fun _ h => orphan_of_restart k h⟩

theorem orphans_run {sys' : Sys} (hok : ∃ c, SysOk X cfg DistinctIds c sys)
    (hrun : Run (Step X cfg) sys ls sys') (id : String) :
    (sys.disk.Orphan id → sys'.disk.Orphan id) ∧ ((∀ l ∈ ls, l.Intact) → sys'.disk.Orphan id →
      sys.disk.Orphan id) := by
  refine (hrun.labels.invariant
    (I := fun t => (∃ c, SysOk X cfg DistinctIds c t) ∧ (sys.disk.Orphan id → t.disk.Orphan id) ∧
      ((∀ l ∈ ls, l.Intact) → t.disk.Orphan id → sys.disk.Orphan id)) ?_
    ⟨hok, fun h => h, fun _ h => h⟩).2
  rintro a l b ⟨⟨c, ha⟩, hkept, hclean⟩ ⟨hstep, hl⟩
  obtain ⟨hkept', hclean'⟩ := hstep.orphans ha
  exact ⟨⟨_, ha.step DistinctIds.left (fun _ => rfl) hstep⟩, fun h => hkept' (hkept h),
    fun hls h => hclean hls (hclean' (hls l hl) h)⟩

/-- **Orphans come from cut operations and stay.** Where no operation has been cut, the manifest
mentions every raw segment file; and whatever happens to a database, no orphan among them is deleted
or listed later, and none is added but by a cut. -/
theorem orphans_come_from_cuts (hrun : Run (Step X cfg) (.down .empty) ls sys) :
    ((∀ l ∈ ls, l.Intact) → ∀ id, sys.disk.seg id ≠ none → sys.disk.loadManifest.mentions id) ∧
      ∀ ls' sys', Run (Step X cfg) sys ls' sys' → ∀ id, (sys.disk.Orphan id → sys'.disk.Orphan id) ∧
        ((∀ l ∈ ls', l.Intact) → sys'.disk.Orphan id → sys.disk.Orphan id) := by
  refine ⟨fun hls id hseg => ?_, fun ls' sys' hrun' => orphans_run (sysOk_of_run hrun) hrun'⟩
  by_contra hnot
  exact ((orphans_run ⟨0, sysOk_empty⟩ hrun id).2 hls ⟨hseg, hnot⟩).1 rfl

/-- A request is drained, and its flush is cut after the first file. -/
def cutFlush : List (Char × Label) :=
  [('0', .restart 8000000 fun _ => 8000000),
    ('1', .run (.ingest sampleClock [sampleEvent "a" "acme" 7200000 5])),
    ('a', .cut (.flush (taggedUuid 'a') fun _ => 9000000) 1)]

/-- The file is an orphan, and still is when the server has started again. -/
theorem orphan_of_cutFlush :
    ∃ sys sys', Run (Step .sample tinyConfig) (.down .empty) (cutFlush.map (·.2)) sys ∧
      Run (Step .sample tinyConfig) sys [.restart 9500000 fun _ => 9500000] sys' ∧
      sys.disk.Orphan "raw_ax" ∧ sys'.disk.Orphan "raw_ax" := by
  have hls : Lettered cutFlush := ⟨by simp [cutFlush, Label.DrawsTagged, Op.DrawsTagged], by decide⟩
  obtain ⟨sys, hrun, hraw, hrollups, hrecords, hseg, hnext⟩ := exists_run_of_tags .sample tinyConfig hls
    (P := fun sys => sys.manifest.rawSegments = [] ∧ sys.manifest.rollupSegments = [] ∧
      sys.manifest.compactedReplacements = [] ∧ (sys.disk.seg "raw_ax").isSome ∧
      (sys.next .sample tinyConfig (.restart 9500000 fun _ => 9500000)).isSome) (by decide +kernel)
  cases sys with
  | up s => cases hnext
  | down d =>
    have horphan : d.Orphan "raw_ax" := by
      refine ⟨Option.isSome_iff_ne_none.1 hseg, ?_⟩
      rw [Sys.manifest] at hraw hrollups hrecords
      simp [Manifest.mentions, Manifest.rawIds, hraw, hrollups, hrecords]
    have hrestart :
      Run (Step .sample tinyConfig) (.down d)
        [.restart 9500000 fun _ => 9500000] _ := .single (.restart ..)
    exact ⟨_, _, hrun, hrestart, horphan,
      ((orphans_come_from_cuts hrun).2 _ _ hrestart "raw_ax").1 horphan⟩

/-! ### A tick settles -/

/-- The listed segments have rows. -/
def Manifest.Filled (m : Manifest) : Prop := ∀ seg ∈ m.rawSegments, seg.rowCount ≠ 0

theorem commits_filled_runPlans (uuid : ℕ → String) (now : ℤ) (plans : List CompactionPlan) {s : State}
    (h : s.mem.manifest.Filled) :
      Commits Manifest.Filled (runPlans X uuid (fun _ => true) now plans s) := by
  induction plans generalizing s with
  | nil => exact .skip h
  | cons plan plans ih =>
    have hplan : Commits Manifest.Filled (runOnePlan X uuid true now plan s).1 := by
      rw [runOnePlan]
      split
      · exact .skip h
      rename_i hne
      split
      · refine .save [.segWrite .., .idxWrite ..] rfl (fun seg hseg => ?_) (by simp)
        rcases mem_append.1 hseg with hseg | hseg
        · exact h seg (mem_of_mem_filter hseg)
        · rw [mem_singleton.1 hseg]
          exact fun hzero => hne (isEmpty_iff.2 (length_eq_zero_iff.1 hzero))
      · exact ⟨h, fun m hm => by simp at hm⟩
    exact hplan.andThen (ih hplan.mem)

theorem commits_filled {op : Op} (h : s.mem.manifest.Filled) : Commits Manifest.Filled (op.outcome
    X cfg s) := by
  cases op with
  | ingest clk events => exact .onLog h (onLog_ingest s clk events)
  | drain => exact .onLog h (onLog_drainIf s _)
  | flush uuid clk =>
    refine commits_flush h clk fun msg _ seg hseg => ?_
    rcases mem_append.1 hseg with hseg | hseg
    · exact h seg hseg
    · obtain ⟨_, hseg', rfl⟩ := mem_map.1 hseg
      obtain ⟨b, hb, rfl⟩ := mem_map.1 hseg'
      have hne : b.2 ≠ [] := (mem_groups.1 hb).2
      exact fun hzero =>
        hne (length_eq_zero_iff.1 ((sortEventsCanonical_perm b.2).length_eq.symm.trans hzero))
  | rollupTick now uuid => exact commits_tick h fun start target => h
  | compactionTick now uuid =>
    rw [Op.outcome, compactionTick_of_saves]
    have hsweep : Commits Manifest.Filled (sweepPendingDeletions cfg.compactionGraceMs now
      true s).1 := commits_sweep h h
    exact hsweep.andThen (commits_filled_runPlans uuid now _ hsweep.mem)
  | closePeriod account year month now
      => exact commits_closePeriod h (fun _ => h) account year month now
  | reopenPeriod account year month => exact commits_reopenPeriod h h

theorem filled_of_run (hrun : Run (Step X cfg) (.down .empty) ls sys) :
    sys.Manifests Manifest.Filled := by
  refine hrun.invariant (I := Sys.Manifests Manifest.Filled)
    (fun a l b h hstep => ?_) (forall_mem_nil _)
  cases hstep with
  | run => exact ⟨(commits_filled h.1).mem, (commits_take h.2 (commits_filled h.1).saves).all⟩
  | cut k => exact commits_take h.2 (commits_filled h.1).saves k
  | @restart d now clk =>
    have hcommits : Commits Manifest.Filled (UsageDb.restart X cfg now clk d) :=
      commits_restart h (fun _ => h) now clk
    exact ⟨hcommits.mem, (commits_take h hcommits.saves).all⟩
  | @cutRestart d now clk k =>
    have hcommits : Commits Manifest.Filled (UsageDb.restart X cfg now clk d) :=
      commits_restart h (fun _ => h) now clk
    exact commits_take h hcommits.saves k

/-- The segments of a bucket. -/
def Manifest.ofBucket (m : Manifest) (b : ℕ) : List SegmentMeta :=
  m.rawSegments.filter fun seg => seg.bucket = b

/-- A plan for all segments of a bucket is carried out: they give way to one. -/
theorem ofBucket_runOnePlan {now : ℤ} {plan : CompactionPlan} (hd : DiskOk X cfg s.disk)
    (hload : s.disk.manifest = some s.mem.manifest) (hfilled : s.mem.manifest.Filled)
    (hsegs : plan.segmentIds = (s.mem.manifest.ofBucket plan.bucket).map (·.segmentId))
    (hne : plan.segmentIds ≠ []) (b : ℕ) :
    (runOnePlan X uuid true now plan s).1.mem.manifest.ofBucket b =
      if b = plan.bucket then [(compactedSegment X s.disk uuid plan).1]
        else s.mem.manifest.ofBucket b := by
  have hmem : ∀ m ∈ s.mem.manifest.rawSegments, m.segmentId ∈ plan.segmentIds ↔
      m.bucket = plan.bucket := by
    intro m hm
    have hids : s.mem.manifest.rawIds.Nodup := loadManifest_eq hload ▸ hd.ids
    rw [hsegs]
    refine ⟨fun hid => ?_, fun hb => mem_map_of_mem (mem_filter.2 ⟨hm, decide_eq_true hb⟩)⟩
    obtain ⟨m', hm', heq⟩ := mem_map.1 hid
    rw [Manifest.ofBucket, mem_filter, decide_eq_true_eq] at hm'
    exact inj_on_of_nodup_map hids hm'.1 hm heq ▸ hm'.2
  have hpresent : s.mem.manifest.stillPresent plan := by
    rw [Manifest.stillPresent, decide_eq_true_eq,
      filter_congr fun m hm => decide_eq_decide.2 (hmem m hm), hsegs, length_map, Manifest.ofBucket]
  have hrows : (compactedSegment X s.disk uuid plan).2.isEmpty = false := by
    obtain ⟨id, hid⟩ := exists_mem_of_ne_nil _ hne
    obtain ⟨m, hm, rfl⟩ := mem_map.1 (hsegs ▸ hid)
    have hok := hd.segments m (loadManifest_eq hload ▸ mem_of_mem_filter hm)
    have hrows : s.disk.rows m ≠ [] :=
      fun hnil => hfilled m (mem_of_mem_filter hm) (by rw [hok.metadata, hnil]; rfl)
    obtain ⟨e, he⟩ := exists_mem_of_ne_nil _ hrows
    have hread : e ∈ s.disk.readSegments plan.segmentIds := mem_flatMap.2 ⟨m.segmentId, hid, he⟩
    obtain ⟨r, hr, -⟩ := exists_mem_sortAndDedupe hread
    exact isEmpty_eq_false_iff.2 (ne_nil_of_mem hr)
  have hkept : (s.mem.manifest.rawSegments.filter fun m => m.segmentId ∉ plan.segmentIds) =
      s.mem.manifest.rawSegments.filter fun m => m.bucket ≠ plan.bucket :=
    filter_congr fun m hm => decide_eq_decide.2 (not_congr (hmem m hm))
  rw [runOnePlan, hrows, if_neg Bool.false_ne_true, if_pos hpresent, if_pos rfl, Manifest.ofBucket,
    Manifest.saved_rawSegments, Manifest.swap, hkept, filter_append, filter_filter]
  by_cases hb : b = plan.bucket
  · have hnone : ∀ m ∈ s.mem.manifest.rawSegments,
        ¬(decide (m.bucket = b) && decide (m.bucket ≠ plan.bucket)) := by
      simp [hb]
    rw [filter_eq_nil_iff.2 hnone, if_pos hb, hb]
    simp [compactedSegment]
  · have hsame : ∀ m ∈ s.mem.manifest.rawSegments,
        (decide (m.bucket = b) && decide (m.bucket ≠ plan.bucket)) = decide (m.bucket = b) := by grind
    rw [filter_congr hsame, if_neg hb, Manifest.ofBucket]
    simp [compactedSegment, Ne.symm hb]

/-- When all plans have been carried out their buckets have one segment each. -/
theorem ofBucket_runPlans (huuid : Function.Injective uuid) (now : ℤ) {plans : List CompactionPlan}
    {s : State} (hnodup : (plans.map (·.bucket)).Nodup) (hd : Holds X cfg DistinctIds c s.disk)
    (hload : s.disk.manifest = some s.mem.manifest) (hfilled : s.mem.manifest.Filled)
    (hplans : ∀ plan ∈ plans, PlanOk s.mem.manifest uuid plan ∧
      s.Unused (compactedSegmentId (uuid plan.bucket)) ∧
      plan.segmentIds = (s.mem.manifest.ofBucket plan.bucket).map (·.segmentId) ∧
      plan.segmentIds ≠ []) (b : ℕ) :
    let m := (runPlans X uuid (fun _ => true) now plans s).mem.manifest
    (b ∈ plans.map (·.bucket) → (m.ofBucket b).length = 1) ∧
      (b ∉ plans.map (·.bucket) → m.ofBucket b = s.mem.manifest.ofBucket b) := by
  induction plans generalizing s with
  | nil => exact ⟨fun hb => absurd hb not_mem_nil, fun _ => rfl⟩
  | cons plan plans ih =>
    rw [map_cons, nodup_cons] at hnodup
    obtain ⟨⟨hplan, hunused, hsegs, hne⟩, hplans⟩ := forall_mem_cons.1 hplans
    have hfirst := keepsOffLog_runOnePlan now hd hload hplan hunused
    have hout : ∀ b, (runOnePlan X uuid true now plan s).1.mem.manifest.ofBucket b = _ :=
      ofBucket_runOnePlan hd.1 hload hfilled hsegs hne
    have hrest := ih hnodup.2 hfirst.disk hfirst.loaded (commits_filled_runPlans uuid now [plan]
        hfilled).mem fun p hp => by
      obtain ⟨hplan', hunused', hsegs', hne'⟩ := hplans p hp
      have hb : p.bucket ≠ plan.bucket := fun he => hnodup.1 (he ▸ mem_map_of_mem hp)
      refine ⟨planOk_runOnePlan hplan',
        unused_runOnePlan hunused' (fun he => hb ?_) (hplan.apart _), ?_, hne'⟩
      · exact huuid (compactedSegmentId_injective he)
      · rw [Outcome.state, hout, if_neg hb]
        exact hsegs'
    rw [map_cons, mem_cons]
    refine ⟨fun hb => ?_, fun hb => ?_⟩
    · by_cases hb' : b ∈ plans.map (·.bucket)
      · exact hrest.1 hb'
      · exact congrArg List.length (((hrest.2 hb').trans (hout b)).trans
          (if_pos (hb.resolve_right hb')))
    · rw [not_or] at hb
      exact ((hrest.2 hb.2).trans (hout b)).trans (if_neg hb.1)

/-- A record is younger than the grace period, or is one of the kind a sweep passes over. -/
def Manifest.Swept (graceMs now : ℤ) (m : Manifest) : Prop :=
  ∀ r ∈ m.compactedReplacements, r.committedAtMs = 0 ∨ now - graceMs < r.committedAtMs ∨
    r.committedAtMs = now

theorem swept_sweep (s : State) (graceMs now : ℤ) :
    (sweepPendingDeletions graceMs now true s).1.mem.manifest.Swept graceMs now := by
  have hyoung : ∀ r ∈ s.mem.manifest.compactedReplacements, r ∉ s.mem.manifest.toFinalize graceMs now →
      r.committedAtMs = 0 ∨ now - graceMs < r.committedAtMs ∨ r.committedAtMs = now := by
    intro r hr hnot
    by_contra hold
    push Not at hold
    exact hnot (mem_filter.2 ⟨hr, by simp [hold]⟩)
  rw [sweepPendingDeletions]
  split
  · rename_i hnone
    exact fun r hr => hyoung r hr (by rw [isEmpty_iff.1 hnone]; exact not_mem_nil)
  · intro r hr
    obtain ⟨hr, hkept⟩ := mem_filter.1 hr
    refine hyoung r hr fun hdone => ?_
    rw [Bool.not_eq_true', any_eq_false] at hkept
    exact hkept r hdone (by simp)

/-- A bucket for which there is no plan has no more segments than the limit. -/
theorem length_ofBucket_le {m : Manifest} {limit b : ℕ}
    (h : b ∉ (planCompaction limit m.rawSegments).map (·.bucket)) :
    (m.ofBucket b).length ≤ limit := by
  by_contra hlt
  have hgroup : (b, m.ofBucket b) ∈ groups (·.bucket) m.rawSegments :=
    mem_groups.2 ⟨rfl, fun hnil => hlt (by simp [hnil])⟩
  refine h (mem_map.2 ⟨_, mem_map_of_mem (mem_filter.2 ⟨hgroup, ?_⟩), rfl⟩)
  exact decide_eq_true (not_le.1 hlt)

/-- **A tick settles.** After a compaction tick no bucket has more segments than the limit, or than
one, and no record is left whose grace period was over. With a limit of at least one the next
tick has nothing to merge; with a limit of zero it merges every bucket that has a segment. -/
theorem compaction_settles {now : ℤ}
    (hrun : Run (Step X cfg) (.down .empty) ls (.up s))
    (hfresh : (Op.compactionTick now uuid).Fresh s) :
    let m := ((Op.compactionTick now uuid).outcome X cfg s).mem.manifest
    (∀ b, (m.ofBucket b).length ≤ max 1 cfg.compactionMaxSmallSegments) ∧
      m.Swept cfg.compactionGraceMs now ∧
      (planCompaction cfg.compactionMaxSmallSegments m.rawSegments = [] ↔
        m.rawSegments = [] ∨ cfg.compactionMaxSmallSegments ≠ 0) := by
  obtain ⟨c, hd, hm⟩ := sysOk_of_run hrun
  have hsweep := keepsOffLog_sweep hd hm.loaded cfg.compactionGraceMs now
  have hfilled : Commits Manifest.Filled (sweepPendingDeletions cfg.compactionGraceMs now true s).1 :=
    commits_sweep (filled_of_run hrun).1 (filled_of_run hrun).1
  rw [Op.outcome, compactionTick_of_saves, Outcome.andThen]
  intro m
  have hcount : ∀ b, (m.ofBucket b).length ≤ max 1 cfg.compactionMaxSmallSegments := by
    intro b
    have hplans :=
      ofBucket_runPlans hfresh.2 now (planCompaction_buckets_nodup cfg.compactionMaxSmallSegments
        _) hsweep.disk
      hsweep.loaded hfilled.mem
        (fun plan hplan => ⟨planOk_of_mem hplan (loadManifest_eq hsweep.loaded ▸ hsweep.disk.1.ids)
        fun b => unused_sweep (hfresh.1 b), unused_sweep (hfresh.1 _), mem_planCompaction hplan⟩) b
    by_cases hb : b ∈ (planCompaction cfg.compactionMaxSmallSegments
        (sweepPendingDeletions cfg.compactionGraceMs now true s).1.mem.manifest.rawSegments).map
          (·.bucket)
    · exact (hplans.1 hb).le.trans (le_max_left _ _)
    · exact (congrArg List.length (hplans.2 hb)).le.trans ((length_ofBucket_le hb).trans
        (le_max_right _ _))
  have hswept : m.Swept cfg.compactionGraceMs now := by
    refine (commits_runPlans (s := (sweepPendingDeletions cfg.compactionGraceMs now true s).1.state s)
      (swept_sweep s cfg.compactionGraceMs now) fun n hn d plan _ r hr => ?_).mem
    rcases mem_append.1 hr with hr | hr
    · exact hn r hr
    · exact .inr (.inr (by rw [mem_singleton.1 hr]))
  refine ⟨hcount, hswept, ⟨fun hnone => ?_, fun h => ?_⟩⟩
  · by_contra hnot
    rw [not_or, not_not] at hnot
    obtain ⟨seg, hseg⟩ := exists_mem_of_ne_nil _ hnot.1
    have hle := length_ofBucket_le (b := seg.bucket) (map_eq_nil_iff.2 hnone ▸ not_mem_nil)
    rw [hnot.2, Nat.le_zero, length_eq_zero_iff] at hle
    have hmem : seg ∈ m.ofBucket seg.bucket := mem_filter.2 ⟨hseg, decide_eq_true rfl⟩
    exact not_mem_nil (hle ▸ hmem)
  · rw [planCompaction, map_eq_nil_iff, filter_eq_nil_iff]
    rintro ⟨b, segs⟩ hgroup
    obtain ⟨rfl, hne⟩ := mem_groups.1 hgroup
    rcases h with h | h
    · exact absurd (by rw [h]; rfl) hne
    · have hle := hcount b
      rw [max_eq_right (Nat.one_le_iff_ne_zero.2 h), Manifest.ofBucket] at hle
      simpa using hle

/-- Three segments of a bucket become one. -/
theorem compaction_settles_of_three :
    ∃ s, Run (Step .sample forgetfulConfig) (.down .empty)
        ((threeFlushes (sampleEvent "c" "acme" 7200000 7)).map (·.2)) (.up s) ∧
      (Op.compactionTick 9000000 (taggedUuid 'm')).Fresh s ∧ (s.mem.manifest.ofBucket 1).length = 3 ∧
      (((Op.compactionTick 9000000 (taggedUuid 'm')).outcome .sample forgetfulConfig
        s).mem.manifest.ofBucket 1).length ≤ 1 := by
  obtain ⟨s, hrun, hfresh, hthree⟩ := run_threeFlushes (sampleEvent "c" "acme" 7200000 7)
    (P := fun s => (s.mem.manifest.ofBucket 1).length = 3) (by decide +kernel)
  exact ⟨s, hrun, hfresh, hthree, (compaction_settles hrun hfresh).1 1⟩

end UsageDb
