import UsageDb.Runtime.Names

/-!
# What a merge keeps

`sort_and_dedupe` sorts the rows of a bucket's segments and keeps the first of each event id. This
is right for rows that were accepted twice. But an id can also stand for two different payloads,
when the hot cache no longer held the first one; of those the merge keeps one, and nothing says
that there was another: the rows of the inputs are no longer listed, and the sidecar of the output
is made of the rows that were kept (`conflicts_stay_visible`).
-/

namespace UsageDb

open Lib List

variable {X : Extern} {cfg : Config} {s : State} {l : List UsageEvent} {e : UsageEvent}

/-! ### Sorted, and one row for each id -/

theorem pairwise_sortEventsCanonical (events : List UsageEvent) :
    (sortEventsCanonical events).Pairwise fun a b => a.sortKey ≤ b.sortKey :=
  pairwise_insertionSort _ _

theorem not_mem_of_mem_retainFirst {seen : List String}
    (he : e ∈ retainFirst l seen) : e.eventId ∉ seen := by
  induction l generalizing seen with
  | nil => cases he
  | cons a l ih =>
    rw [retainFirst] at he
    split at he
    · exact ih he
    · rename_i hnew
      rcases mem_cons.1 he with rfl | he
      · exact hnew
      · exact fun hmem => ih he (mem_cons_of_mem _ hmem)

theorem retainFirst_ids_nodup (l : List UsageEvent) (seen : List String) :
    ((retainFirst l seen).map (·.eventId)).Nodup := by
  induction l generalizing seen with
  | nil => exact nodup_nil
  | cons a l ih =>
    rw [retainFirst]
    split
    · exact ih seen
    · refine nodup_cons.2 ⟨?_, ih _⟩
      rintro hmem
      obtain ⟨e, he, heq⟩ := mem_map.1 hmem
      exact not_mem_of_mem_retainFirst he (heq ▸ mem_cons_self)

theorem exists_mem_retainFirst {seen : List String} (he : e ∈ l)
    (hseen : e.eventId ∉ seen) : ∃ r ∈ retainFirst l seen, r.eventId = e.eventId := by
  induction l generalizing seen with
  | nil => cases he
  | cons a l ih =>
    rw [retainFirst]
    split
    · rename_i hold
      rcases mem_cons.1 he with rfl | he
      · exact absurd hold hseen
      · exact ih he hseen
    · -- the row itself, or one of the same id before it, or one that comes later
      by_cases heq : a.eventId = e.eventId
      · exact ⟨a, mem_cons_self, heq⟩
      · have he : e ∈ l := (mem_cons.1 he).resolve_left fun h => heq (h ▸ rfl)
        have hnew : e.eventId ∉ a.eventId :: seen := by
          intro hmem
          rcases mem_cons.1 hmem with h | hmem
          · exact heq h.symm
          · exact hseen hmem
        obtain ⟨r, hr, hid⟩ := ih he hnew
        exact ⟨r, mem_cons_of_mem _ hr, hid⟩

theorem pairwise_sortAndDedupe (l : List UsageEvent) :
    (sortAndDedupe l).Pairwise fun a b => a.sortKey ≤ b.sortKey :=
  (pairwise_sortEventsCanonical l).sublist (retainFirst_sublist _ _)

theorem sortAndDedupe_ids_nodup (l : List UsageEvent) : ((sortAndDedupe l).map (·.eventId)).Nodup :=
  retainFirst_ids_nodup _ _

theorem exists_mem_sortAndDedupe (he : e ∈ l) :
    ∃ r ∈ sortAndDedupe l, r.eventId = e.eventId :=
  exists_mem_retainFirst ((sortEventsCanonical_perm l).mem_iff.2 he) not_mem_nil

/-- Rows of the output with one id are one row. -/
theorem eq_of_mem_sortAndDedupe {r r' : UsageEvent} (hr : r ∈ sortAndDedupe l)
    (hr' : r' ∈ sortAndDedupe l) (hid : r.eventId = r'.eventId) : r = r' :=
  inj_on_of_nodup_map (sortAndDedupe_ids_nodup l) hr hr' hid

/-- A payload whose id has no other is kept. -/
theorem payload_mem_sortAndDedupe (he : e ∈ l)
    (hone : ∀ e' ∈ l, e'.eventId = e.eventId → e'.payload = e.payload) :
    ∃ r ∈ sortAndDedupe l, r.payload = e.payload := by
  obtain ⟨r, hr, hid⟩ := exists_mem_sortAndDedupe he
  exact ⟨r, hr, hone r (mem_of_mem_sortAndDedupe hr) hid⟩

/-! ### Two payloads of one id -/

/-- An id was sent with different payloads. -/
def Conflict (e e' : UsageEvent) : Prop := e.eventId = e'.eventId ∧ e.payload ≠ e'.payload

instance (e e' : UsageEvent) : Decidable (Conflict e e') := inferInstanceAs (Decidable (_ ∧ _))

/-- A row of a raw segment that the manifest lists has the payload. -/
def State.KeepsPayload (s : State) (e : UsageEvent) : Prop :=
  ∃ r ∈ s.disk.rawEvents s.mem.manifest, r.payload = e.payload

/-- A sidecar of such a segment has its hashes. -/
def State.RecordsPayload (X : Extern) (s : State) (e : UsageEvent) : Prop :=
  ∃ m ∈ s.mem.manifest.rawSegments, ∃ x ∈ (s.disk.idx m.segmentId).getD [], x.1 = X.idHash e ∧
    x.2.1 = X.payloadHash e

/-- One can still see that the id was sent with both payloads: in the rows, or in the sidecars. -/
def State.ConflictVisible (X : Extern) (s : State) (e e' : UsageEvent) : Prop :=
  s.KeepsPayload e ∧ s.KeepsPayload e' ∨ s.RecordsPayload X e ∧ s.RecordsPayload X e'

instance (s : State) (e : UsageEvent) : Decidable (s.KeepsPayload e) :=
  inferInstanceAs (Decidable (∃ r ∈ s.disk.rawEvents s.mem.manifest, r.payload = e.payload))

instance (X : Extern) (s : State) (e : UsageEvent) : Decidable (s.RecordsPayload X e) :=
  inferInstanceAs (Decidable (∃ m ∈ s.mem.manifest.rawSegments, ∃ x ∈ (s.disk.idx m.segmentId).getD [],
    x.1 = X.idHash e ∧ x.2.1 = X.payloadHash e))

instance (X : Extern) (s : State) (e e' : UsageEvent) : Decidable (s.ConflictVisible X e e') :=
  inferInstanceAs (Decidable (_ ∨ _))

section Plan

variable {plan : CompactionPlan} {uuid : ℕ → String} {now : ℤ}

/-- The state after a plan is committed. -/
def committed (X : Extern) (uuid : ℕ → String) (now : ℤ) (plan : CompactionPlan) (s : State) : State :=
  (runOnePlan X uuid true now plan s).1.state s

theorem runOnePlan_committed (h : (runOnePlan X uuid true now plan s).2 = some true) :
    s.mem.manifest.stillPresent plan ∧
      let new := compactedSegment X s.disk uuid plan
      committed X uuid now plan s = ⟨(s.disk.applyAll [.segWrite new.1.segmentId new.2,
        .idxWrite new.1.segmentId (new.2.map (indexEntry X))]).apply
          (.manifestSave (s.mem.manifest.swap plan new.1 now).saved),
        { s.mem with manifest := (s.mem.manifest.swap plan new.1 now).saved }⟩ := by
  unfold committed
  unfold runOnePlan at h ⊢
  dsimp only at h ⊢
  split at h
  · cases h
  · rename_i hne
    split at h
    · rename_i hpresent
      refine ⟨hpresent, ?_⟩
      rw [if_neg hne, if_pos hpresent, if_pos rfl]
      rfl
    · cases h

section Committed

variable {max : ℕ} (hok : DiskOk X cfg s.disk) (hload : s.disk.manifest = some s.mem.manifest)
  (hplan : plan ∈ planCompaction max s.mem.manifest.rawSegments)
    (hunused : ∀ b, s.Unused (compactedSegmentId (uuid b)))
  (hcommit : (runOnePlan X uuid true now plan s).2 = some true)

include hload hunused hcommit in
/-- The rows that are listed then. -/
theorem rawEvents_committed :
    (committed X uuid now plan s).disk.rawEvents (committed X uuid now plan s).mem.manifest =
      (s.mem.manifest.rawSegments.filter fun s => s.segmentId ∉ plan.segmentIds).flatMap s.disk.rows ++
        sortAndDedupe (s.disk.readSegments plan.segmentIds) := by
  rw [(runOnePlan_committed hcommit).2]
  exact rawEvents_swap hload (hunused _)

include hok hload hplan hunused hcommit in
theorem diskOk_committed : DiskOk X cfg (committed X uuid now plan s).disk ∧
    (committed X uuid now plan s).disk.loadManifest = (committed X uuid now plan s).mem.manifest := by
  obtain ⟨hpresent, hafter⟩ := runOnePlan_committed hcommit
  have hids : s.mem.manifest.rawIds.Nodup := loadManifest_eq hload ▸ hok.ids
  rw [hafter]
  exact ⟨(Holds.swap ⟨hok,
    fun _ => rfl⟩ hload (planOk_of_mem hplan hids hunused) (hunused _) hpresent).1, rfl⟩

include hok hload hplan in
/-- The segments that stay are of other buckets. -/
theorem bucket_ne_of_kept
    (he : e ∈ (s.mem.manifest.rawSegments.filter
      fun s => s.segmentId ∉ plan.segmentIds).flatMap s.disk.rows) :
    X.bucketForAccount e.accountId s.mem.manifest.buckets ≠ plan.bucket := by
  intro hbucket
  obtain ⟨m, hm, he⟩ := mem_flatMap.1 he
  rw [mem_filter, decide_eq_true_eq, (mem_planCompaction hplan).1] at hm
  have hseg := hok.segments m (loadManifest_eq hload ▸ hm.1)
  rw [loadManifest_eq hload] at hseg
  have hof : m.bucket = plan.bucket := (hseg.bucket e he).symm.trans hbucket
  exact hm.2 (mem_map_of_mem (mem_filter.2 ⟨hm.1, decide_eq_true hof⟩))

include hok hload hplan in
/-- What is merged is of the plan's bucket, and listed. -/
theorem listed_of_mem_readSegments (hpresent : s.mem.manifest.stillPresent plan)
    (he : e ∈ s.disk.readSegments plan.segmentIds) : e ∈ s.disk.rawEvents s.mem.manifest ∧
      X.bucketForAccount e.accountId s.mem.manifest.buckets = plan.bucket := by
  have hload' := loadManifest_eq hload
  have hids : s.mem.manifest.rawIds.Nodup := hload' ▸ hok.ids
  obtain ⟨m, hm, he⟩ := mem_flatMap.1 ((perm_readSegments hids hpresent).mem_iff.1 he)
  obtain ⟨hm, hid⟩ := mem_filter.1 hm
  rw [decide_eq_true_eq, (mem_planCompaction hplan).1] at hid
  obtain ⟨m', hm', heq⟩ := mem_map.1 hid
  obtain ⟨hm', hbucket⟩ := mem_filter.1 hm'
  obtain rfl := inj_on_of_nodup_map hids hm' hm heq
  have hseg := hok.segments m' (hload' ▸ hm)
  rw [hload'] at hseg
  exact ⟨mem_flatMap.2 ⟨m', hm, he⟩, (hseg.bucket e he).trans (of_decide_eq_true hbucket)⟩

include hok hload hplan hunused hcommit in
/-- A payload of the inputs that is still listed is in the output. -/
theorem KeepsPayload.output (he : e ∈ s.disk.readSegments plan.segmentIds)
    (hkeeps : (committed X uuid now plan s).KeepsPayload e) :
    ∃ r ∈ sortAndDedupe (s.disk.readSegments plan.segmentIds), r.payload = e.payload := by
  obtain ⟨r, hr, hpayload⟩ := hkeeps
  rw [rawEvents_committed hload hunused hcommit, mem_append] at hr
  rcases hr with hr | hr
  · have haccount : r.payload.accountId = e.payload.accountId := by rw [hpayload]
    obtain ⟨-, hbucket⟩ := listed_of_mem_readSegments hok hload hplan
      (runOnePlan_committed hcommit).1 he
    exact absurd (haccount ▸ hbucket) (bucket_ne_of_kept hok hload hplan hr)
  · exact ⟨r, hr, hpayload⟩

include hok hload hplan hunused hcommit in
/-- A payload of the inputs that a sidecar has is listed. -/
theorem RecordsPayload.keeps (hinj : X.HashesInjective {e | e ∈ s.disk.rawEvents s.mem.manifest})
    (he : e ∈ s.disk.readSegments plan.segmentIds)
    (hrecords : (committed X uuid now plan s).RecordsPayload X e) :
    (committed X uuid now plan s).KeepsPayload e := by
  obtain ⟨m, hm, x, hx, -, hhash⟩ := hrecords
  have hpresent := (runOnePlan_committed hcommit).1
  obtain ⟨hok', hload'⟩ := diskOk_committed hok hload hplan hunused hcommit
  obtain ⟨r, hr, rfl⟩ : ∃ r ∈ (committed X uuid now plan s).disk.rows m, indexEntry X r = x := by
    cases hidx : (committed X uuid now plan s).disk.idx m.segmentId with
    | none =>
      rw [hidx] at hx
      cases hx
    | some entries =>
      rw [hidx, Option.getD_some, (hok'.segments m (hload' ▸ hm)).sidecar entries hidx] at hx
      exact mem_map.1 hx
  have hlisted :
      r ∈ (committed X uuid now plan s).disk.rawEvents (committed X uuid now plan s).mem.manifest :=
    mem_flatMap.2 ⟨m, hm, hr⟩
  -- it was listed before, too
  have hbefore : r ∈ s.disk.rawEvents s.mem.manifest := by
    rw [rawEvents_committed hload hunused hcommit, mem_append] at hlisted
    rcases hlisted with hkept | hout
    · obtain ⟨m, hm, hr⟩ := mem_flatMap.1 hkept
      exact mem_flatMap.2 ⟨m, mem_of_mem_filter hm, hr⟩
    · exact (listed_of_mem_readSegments hok hload hplan hpresent (mem_of_mem_sortAndDedupe hout)).1
  exact ⟨r, hlisted,
    hinj.payload r hbefore e (listed_of_mem_readSegments hok hload hplan hpresent he).1 hhash⟩

include hok hload hplan hunused hcommit in
/-- **Conflicts and the merge.** When a plan is committed, two payloads of one id among its inputs
can both still be seen afterwards if, and only if, there are no such two. -/
theorem conflicts_stay_visible (hinj : X.HashesInjective {e | e ∈ s.disk.rawEvents s.mem.manifest}) :
    (∀ e ∈ s.disk.readSegments plan.segmentIds, ∀ e' ∈ s.disk.readSegments plan.segmentIds,
      Conflict e e' → (committed X uuid now plan s).ConflictVisible X e e') ↔
    ∀ e ∈ s.disk.readSegments plan.segmentIds, ∀ e' ∈ s.disk.readSegments plan.segmentIds,
      ¬ Conflict e e' := by
  refine ⟨fun h e he e' he' hconflict => ?_, fun h e he e' he' hconflict =>
    absurd hconflict (h e he e' he')⟩
  have hkeeps : (committed X uuid now plan s).KeepsPayload e ∧
      (committed X uuid now plan s).KeepsPayload e' := by
    rcases h e he e' he' hconflict with hboth | ⟨hrec, hrec'⟩
    · exact hboth
    · exact ⟨RecordsPayload.keeps hok hload hplan hunused hcommit hinj he hrec,
        RecordsPayload.keeps hok hload hplan hunused hcommit hinj he' hrec'⟩
  obtain ⟨r, hr, hpayload⟩ := KeepsPayload.output hok hload hplan hunused hcommit he hkeeps.1
  obtain ⟨r', hr', hpayload'⟩ := KeepsPayload.output hok hload hplan hunused hcommit he' hkeeps.2
  -- one row of the output would have both payloads
  have hid : r.eventId = r'.eventId := by
    rw [← r.payload_eventId, hpayload, ← r'.payload_eventId, hpayload']
    exact hconflict.1
  have hsame := eq_of_mem_sortAndDedupe hr hr' hid
  exact hconflict.2 (hpayload.symm.trans ((congrArg UsageEvent.payload hsame).trans hpayload'))

end Committed

end Plan

/-! ### A conflict that is merged away -/

/-- The cache has room for one id. -/
def forgetfulConfig : Config := { tinyConfig with dedupeCapacity := 1 }

/-- Three requests of one event each, flushed one by one; the first and the last have one id. -/
def threeFlushes (last : UsageEvent) : List (Char × Label) :=
  ('0', .restart 8000000 fun _ => 8000000) ::
    ([('1', 'a', sampleEvent "a" "acme" 7200000 5), ('2', 'b', sampleEvent "b" "acme" 7200000 1),
      ('3', 'c', last)].flatMap fun x =>
        [(x.1, .run (.ingest sampleClock [x.2.2])),
          (x.2.1, .run (.flush (taggedUuid x.2.1) fun _ => 9000000))])

/-- The plan for their segments. -/
def threeInputs : CompactionPlan := ⟨1, ["raw_ax", "raw_bx", "raw_cx"]⟩

/-- The state after `threeFlushes`. -/
theorem run_threeFlushes (last : UsageEvent) {P : State → Prop} [DecidablePred P]
    (heval : (runAll (Sys.next .sample forgetfulConfig) (.down .empty)
      ((threeFlushes last).map (·.2))).any (Sys.UpWith P ·)) :
    ∃ s, Run (Step .sample forgetfulConfig) (.down .empty) ((threeFlushes last).map (·.2)) (.up s) ∧
      (Op.compactionTick 9000000 (taggedUuid 'm')).Fresh s ∧ P s := by
  have hls : Lettered (threeFlushes last) :=
    ⟨by simp [threeFlushes, Label.DrawsTagged, Op.DrawsTagged], by simp [threeFlushes]⟩
  obtain ⟨s, hrun, hP⟩ := exists_up_of_tags _ _ hls heval
  exact ⟨s, hrun, fresh_of_tags hls (by simp [threeFlushes]) hrun rfl, hP⟩

/-- The last request repeats the first event: its payload is kept. -/
theorem conflicts_stay_visible_of_repeated :
    ∃ s, Run (Step .sample forgetfulConfig) (.down .empty)
        ((threeFlushes (sampleEvent "a" "acme" 7200000 5)).map (·.2)) (.up s) ∧
      (∀ e ∈ s.disk.readSegments threeInputs.segmentIds,
        ∀ e' ∈ s.disk.readSegments threeInputs.segmentIds, Conflict e e' →
        (committed .sample (taggedUuid 'm') 9000000 threeInputs s).ConflictVisible .sample e e') := by
  obtain ⟨s, hrun, hfresh, hplan, hcommit, hinj, hno⟩ :=
    run_threeFlushes (sampleEvent "a" "acme" 7200000 5)
    (P := fun s => threeInputs ∈ planCompaction 1 s.mem.manifest.rawSegments ∧
      (runOnePlan .sample (taggedUuid 'm') true 9000000 threeInputs s).2 = some true ∧
      (∀ e ∈ s.disk.rawEvents s.mem.manifest, ∀ e' ∈ s.disk.rawEvents s.mem.manifest,
        (Extern.sample.idHash e = Extern.sample.idHash e' → e.eventId = e'.eventId) ∧
          (Extern.sample.payloadHash e = Extern.sample.payloadHash e' → e.payload = e'.payload)) ∧
      ∀ e ∈ s.disk.readSegments threeInputs.segmentIds,
        ∀ e' ∈ s.disk.readSegments threeInputs.segmentIds, ¬ Conflict e e')
    (by decide +kernel)
  obtain ⟨c, hd, hm⟩ := sysOk_of_run hrun
  exact ⟨s, hrun, (conflicts_stay_visible hd.1 hm.loaded hplan hfresh.1 hcommit
    ⟨fun e he e' he' => (hinj e he e' he').1, fun e he e' he' => (hinj e he e' he').2⟩).2 hno⟩

/-- The last request has another quantity under the first id: after the merge one of the two
quantities is gone, from the rows and from the sidecars. -/
theorem conflict_is_merged_away :
    ∃ s, Run (Step .sample forgetfulConfig) (.down .empty)
        ((threeFlushes (sampleEvent "a" "acme" 7200000 7)).map (·.2)) (.up s) ∧
      (Op.compactionTick 9000000 (taggedUuid 'm')).Fresh s ∧
      threeInputs ∈ planCompaction 1 s.mem.manifest.rawSegments ∧
      (runOnePlan .sample (taggedUuid 'm') true 9000000 threeInputs s).2 = some true ∧
      ∃ e ∈ s.disk.readSegments threeInputs.segmentIds,
        ∃ e' ∈ s.disk.readSegments threeInputs.segmentIds, Conflict e e' ∧
        ¬ (committed .sample (taggedUuid 'm') 9000000 threeInputs s).ConflictVisible .sample e e' :=
  run_threeFlushes _ (by decide +kernel)

end UsageDb
