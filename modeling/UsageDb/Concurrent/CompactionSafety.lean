import UsageDb.Concurrent.Workers
import UsageDb.Runtime.Names
import Mathlib.Algebra.Order.Group.Multiset
import Mathlib.Tactic.Abel

/-!
# Compaction under interleaving

The plans of a compaction tick come from a snapshot of the manifest, its inputs may be replaced
and swept by another tick before they are read, and flushes are committed in between. What makes
it safe is the look at the manifest under the lock, and that names are never drawn twice: a
segment that has left the list does not come back, so inputs that are still listed when the
output is committed have been listed all the time.

`compaction_safe` says what this gives in every state of every interleaving: the listed segments
are different and have their files, none of them is in a replacement record, and what a flush has
listed is listed still, or it is an input of exactly one committed compaction. The invariant also
has what the merged rows are (`CompactionPhase.Ok`), for inputs that are still listed.
-/

namespace UsageDb

open Lib List

variable {X : Extern} {cfg : Config}
  {seg : Segment} {j : Journal} {id : String} {plan : CompactionPlan} {now : ℤ}
    {t : CompactionPhase} {l : Work} {a b : Workers × Journal}

/-! ### Segments that are listed or were -/

/-- The segments of a message are sound. -/
theorem flushSegments_sound {uuid : ℕ → String} {buckets : ℕ} {events : List UsageEvent}
    (h : seg ∈ flushSegments X uuid buckets events) : SegmentSound X buckets seg := by
  obtain ⟨⟨b, evs⟩, hb, rfl⟩ := mem_map.1 h
  refine ⟨rfl, fun e he => ?_⟩
  have hmem : e ∈ evs := (sortEventsCanonical_perm evs).mem_iff.1 he
  obtain ⟨hevs, -⟩ := mem_groups.1 hb
  rw [hevs, mem_filter, decide_eq_true_eq] at hmem
  exact hmem.2

/-- The names of some segments. -/
def segmentIds (segs : List Segment) : List String := segs.map (·.1.segmentId)

theorem mem_segmentIds {segs : List Segment} (h : seg ∈ segs) : seg.1.segmentId ∈ segmentIds segs :=
  mem_map_of_mem h

theorem segmentIds_append (segs segs' : List Segment) :
    segmentIds (segs ++ segs') = segmentIds segs ++ segmentIds segs' := map_append

/-- The rows of a segment that was listed. -/
def Journal.rowsOf (j : Journal) (id : String) : List UsageEvent :=
  ((j.published.find? fun seg => seg.1.segmentId = id).map (·.2)).getD []

theorem Journal.rowsOf_of_mem (hnodup : (segmentIds j.published).Nodup)
    (h : seg ∈ j.published) : j.rowsOf seg.1.segmentId = seg.2 := by
  cases hfind : j.published.find? fun s => s.1.segmentId = seg.1.segmentId with
  | none => exact absurd (List.find?_eq_none.1 hfind seg h) (by simp)
  | some seg' =>
    have hid : seg'.1.segmentId = seg.1.segmentId := by simpa using List.find?_some hfind
    have hsame : seg' = seg := inj_on_of_nodup_map hnodup (mem_of_find?_eq_some hfind) h hid
    rw [Journal.rowsOf, hfind, hsame]
    rfl

theorem Journal.rowsOf_of_known {j' : Journal} (h : ∃ new, j'.published = j.published ++ new)
    (hid : id ∈ segmentIds j.published) : j'.rowsOf id = j.rowsOf id := by
  obtain ⟨new, hnew⟩ := h
  have hsome : (j.published.find? fun seg => seg.1.segmentId = id).isSome := by
    obtain ⟨seg, hseg, rfl⟩ := mem_map.1 hid
    rw [List.find?_isSome]
    exact ⟨seg, hseg, by simp⟩
  rw [Journal.rowsOf, Journal.rowsOf, hnew, List.find?_append, Option.or_of_isSome hsome]

/-- The raw segments of the state agree with the journal. -/
structure RawOk (X : Extern) (s : State) (j : Journal) : Prop where
  /-- All segments that were listed are sound, … -/
  sound : ∀ seg ∈ j.published, SegmentSound X s.mem.manifest.buckets seg
  /-- … and have different names. -/
  nodup : (segmentIds j.published).Nodup
  /-- A file has its rows, as long as it is there, and it is there as long as it is listed. -/
  files : ∀ seg ∈ j.published, s.disk.seg seg.1.segmentId = some seg.2 ∨
    s.disk.seg seg.1.segmentId = none ∧ seg.1.segmentId ∉ s.mem.manifest.rawIds
  /-- What is listed was listed. -/
  listed : ∀ m ∈ s.mem.manifest.rawSegments, ∃ rows, (m, rows) ∈ j.published
  /-- Each name is listed once. -/
  ids : s.mem.manifest.rawIds.Nodup
  /-- What was merged is not listed, … -/
  retired : ∀ id ∈ j.merged.flatten, id ∉ s.mem.manifest.rawIds
  /-- … was merged once, … -/
  once : j.merged.flatten.Nodup
  /-- … and had been listed. -/
  known : ∀ id ∈ j.merged.flatten, id ∈ segmentIds j.published
  /-- What was listed and not merged is listed. -/
  kept : ∀ seg ∈ j.published, seg.1.segmentId ∈ s.mem.manifest.rawIds ∨
    seg.1.segmentId ∈ j.merged.flatten
  /-- Replacement records are about what was merged. -/
  replaced : ∀ r ∈ s.mem.manifest.compactedReplacements, ∀ id ∈ r.oldSegments, id ∈ j.merged.flatten
  /-- What a flush has listed was listed. -/
  flushed : ∀ id ∈ j.flushed, id ∈ segmentIds j.published

section Raw

variable {s s' : State} {j j' : Journal}

theorem RawOk.known_of_listed (h : RawOk X s j) (hid : id ∈ s.mem.manifest.rawIds) :
    id ∈ segmentIds j.published := by
  obtain ⟨m, hm, rfl⟩ := mem_map.1 hid
  obtain ⟨rows, hrows⟩ := h.listed m hm
  exact mem_segmentIds hrows

/-- The file of a listed segment has its rows. -/
theorem RawOk.file_of_listed (h : RawOk X s j) (hseg : seg ∈ j.published)
    (hid : seg.1.segmentId ∈ s.mem.manifest.rawIds) : s.disk.seg seg.1.segmentId = some seg.2 :=
  (h.files seg hseg).resolve_right fun hgone => hgone.2 hid

/-- A step that changes no list: files that are not listed may go, and records may be dropped. -/
theorem RawOk.same (h : RawOk X s j) (hraw : s'.mem.manifest.rawSegments = s.mem.manifest.rawSegments)
    (hb : s'.mem.manifest.bucketCount = s.mem.manifest.bucketCount)
    (hrep : ∀ r ∈ s'.mem.manifest.compactedReplacements, r ∈ s.mem.manifest.compactedReplacements)
    (hfiles : ∀ seg ∈ j.published, s'.disk.seg seg.1.segmentId = s.disk.seg seg.1.segmentId ∨
      s'.disk.seg seg.1.segmentId = none ∧ seg.1.segmentId ∉ s.mem.manifest.rawIds)
    (hpub : j'.published = j.published) (hmerged : j'.merged = j.merged)
    (hflushed : j'.flushed = j.flushed) :
    RawOk X s' j' := by
  have hids : s'.mem.manifest.rawIds = s.mem.manifest.rawIds := by
    rw [Manifest.rawIds, hraw, Manifest.rawIds]
  have hbuckets : s'.mem.manifest.buckets = s.mem.manifest.buckets := by
    rw [Manifest.buckets, hb, Manifest.buckets]
  constructor
  · rw [hpub, hbuckets]; exact h.sound
  · rw [hpub]; exact h.nodup
  · rw [hpub, hids]
    intro seg hseg
    rcases hfiles seg hseg with hsame | hgone
    · rw [hsame]
      exact h.files seg hseg
    · exact .inr hgone
  · rw [hpub, hraw]; exact h.listed
  · rw [hids]; exact h.ids
  · rw [hmerged, hids]; exact h.retired
  · rw [hmerged]; exact h.once
  · rw [hmerged, hpub]; exact h.known
  · rw [hpub, hids, hmerged]; exact h.kept
  · rw [hmerged]; exact fun r hr => h.replaced r (hrep r hr)
  · rw [hflushed, hpub]; exact h.flushed

/-- Listed segments are merged, and new ones listed. -/
theorem RawOk.replace (h : RawOk X s j) {gone : List String} {new : List Segment}
    (hpub : j'.published = j.published ++ new)
    (hraw : s'.mem.manifest.rawSegments =
      s.mem.manifest.rawSegments.filter (·.segmentId ∉ gone) ++ new.map (·.1))
    (hb : s'.mem.manifest.bucketCount = s.mem.manifest.bucketCount)
    (hrep : ∀ r ∈ s'.mem.manifest.compactedReplacements,
      r ∈ s.mem.manifest.compactedReplacements ∨ r.oldSegments = gone)
    (hseg : s'.disk.seg = s.disk.seg) (hgone : gone.Nodup)
    (hlisted : ∀ id ∈ gone, id ∈ s.mem.manifest.rawIds)
    (hnew : (segmentIds (j.published ++ new)).Nodup)
    (hsound : ∀ seg ∈ new, SegmentSound X s.mem.manifest.buckets seg)
    (hfiles : ∀ seg ∈ new, s.disk.seg seg.1.segmentId = some seg.2)
    (hmerged : j'.merged.flatten = j.merged.flatten ++ gone)
    (hflushed : ∀ id ∈ j'.flushed, id ∈ j.flushed ∨ id ∈ segmentIds new) : RawOk X s' j' := by
  have hids : s'.mem.manifest.rawIds = s.mem.manifest.rawIds.filter (· ∉ gone) ++ segmentIds new := by
    rw [Manifest.rawIds, hraw, map_append, map_map, Manifest.rawIds, filter_map]
    rfl
  have hbuckets : s'.mem.manifest.buckets = s.mem.manifest.buckets := by
    rw [Manifest.buckets, hb, Manifest.buckets]
  have hmem : ∀ {id}, id ∈ s'.mem.manifest.rawIds ↔
      (id ∈ s.mem.manifest.rawIds ∧ id ∉ gone) ∨ id ∈ segmentIds new := by
    simp [hids]
  have hknown : ∀ id ∈ j'.merged.flatten, id ∈ segmentIds j.published := by
    intro id hid
    rw [hmerged] at hid
    exact (mem_append.1 hid).elim (h.known id) fun hid => h.known_of_listed (hlisted id hid)
  have hpubIds := hnew
  rw [segmentIds_append, nodup_append'] at hnew
  obtain ⟨-, hnodup, hapart⟩ := hnew
  constructor
  · rw [hpub, hbuckets]
    exact fun seg hseg => (mem_append.1 hseg).elim (h.sound seg) (hsound seg)
  · rwa [hpub]
  · rw [hpub, hseg]
    intro seg hin
    rcases mem_append.1 hin with hin | hin
    · refine (h.files seg hin).imp_right fun hno => ⟨hno.1, fun hid => ?_⟩
      exact (hmem.1 hid).elim (fun hid => hno.2 hid.1) (hapart (mem_segmentIds hin))
    · exact .inl (hfiles seg hin)
  · rw [hpub, hraw]
    intro m hm
    rcases mem_append.1 hm with hm | hm
    · obtain ⟨rows, hrows⟩ := h.listed m (mem_of_mem_filter hm)
      exact ⟨rows, mem_append_left _ hrows⟩
    · obtain ⟨seg, hin, rfl⟩ := mem_map.1 hm
      exact ⟨seg.2, mem_append_right _ hin⟩
  · rw [hids]
    refine nodup_append'.2 ⟨h.ids.filter _, hnodup, fun id hid hid' => ?_⟩
    exact hapart (h.known_of_listed (mem_of_mem_filter hid)) hid'
  · intro id hid hin
    rcases hmem.1 hin with ⟨hin, hout⟩ | hin
    · rw [hmerged] at hid
      exact (mem_append.1 hid).elim (fun hid => h.retired id hid hin) hout
    · exact hapart (hknown id hid) hin
  · rw [hmerged]
    exact nodup_append'.2 ⟨h.once, hgone, fun id hid hid' => h.retired id hid (hlisted id hid')⟩
  · rw [hpub, segmentIds_append]
    exact fun id hid => mem_append_left _ (hknown id hid)
  · rw [hpub, hmerged]
    intro seg hin
    rw [hmem, mem_append]
    rcases mem_append.1 hin with hin | hin
    · have hkept := h.kept seg hin
      tauto
    · exact .inl (.inr (mem_segmentIds hin))
  · rw [hmerged]
    intro r hr id hid
    rcases hrep r hr with hr | hr
    · exact mem_append_left _ (h.replaced r hr id hid)
    · exact mem_append_right _ (hr ▸ hid)
  · rw [hpub, segmentIds_append]
    exact fun id hid => mem_append.2 ((hflushed id hid).imp_left (h.flushed id))

end Raw

/-! ### Parties that write segments -/

/-- A party is writing segments: each file is there or is left to write. -/
structure Writes (X : Extern) (d : Disk) (segs : List Segment) (todo : List Effect) : Prop where
  /-- Nothing else is written. -/
  only : ∀ x ∈ todo, x ∈ segmentEffects X segs
  files : ∀ seg ∈ segs, d.seg seg.1.segmentId = some seg.2 ∨ .segWrite seg.1.segmentId seg.2 ∈ todo

section Writing

variable {d d' : Disk} {segs : List Segment} {todo : List Effect} {x : Effect}

theorem mem_segmentEffects {x : Effect} (h : x ∈ segmentEffects X segs) : ∃ seg ∈ segs,
    x = .segWrite seg.1.segmentId seg.2 ∨ x = .idxWrite seg.1.segmentId (seg.2.map (indexEntry X)) := by
  obtain ⟨seg, hseg, hx⟩ := mem_flatMap.1 h
  exact ⟨seg, hseg, by simpa using hx⟩

/-- At the beginning all is left to write. -/
theorem Writes.start (X : Extern) (d : Disk) (segs : List Segment) :
    Writes X d segs (segmentEffects X segs) :=
  ⟨fun _ hx => hx, fun seg hseg => .inr (mem_flatMap.2 ⟨seg, hseg, by simp⟩)⟩

/-- At the end all files are there. -/
theorem Writes.done (h : Writes X d segs []) : ∀ seg ∈ segs, d.seg seg.1.segmentId = some seg.2 :=
  fun seg hseg =>
  (h.files seg hseg).resolve_right fun hmem => by cases hmem

/-- A party does not mind what happens to other files. -/
theorem Writes.congr (h : Writes X d segs todo) (hsame : ∀ id ∈ segmentIds segs, d'.seg id = d.seg id) :
    Writes X d' segs todo := by
  refine ⟨h.only, fun seg hseg => ?_⟩
  rw [hsame _ (mem_segmentIds hseg)]
  exact h.files seg hseg

/-- Writing touches the files of these segments only. -/
theorem seg_apply_of_not_mem (hx : x ∈ segmentEffects X segs) (hid : id ∉ segmentIds segs) :
    (d.apply x).seg id = d.seg id := by
  obtain ⟨seg, hseg, rfl | rfl⟩ := mem_segmentEffects hx
  · exact Function.update_of_ne (fun heq => hid (by rw [heq]; exact mem_segmentIds hseg)) _ _
  · rfl

/-- The next file is written. -/
theorem Writes.step (hnodup : (segmentIds segs).Nodup) (h : Writes X d segs (x :: todo)) :
    Writes X (d.apply x) segs todo := by
  refine ⟨fun y hy => h.only y (mem_cons_of_mem _ hy), fun seg hseg => ?_⟩
  obtain ⟨seg', hseg', rfl | rfl⟩ := mem_segmentEffects (h.only x mem_cons_self)
  · by_cases hid : seg.1.segmentId = seg'.1.segmentId
    · obtain rfl : seg = seg' := inj_on_of_nodup_map hnodup hseg hseg' hid
      exact .inl (Function.update_self _ _ _)
    · rcases h.files seg hseg with hfile | hmem
      · exact .inl ((Function.update_of_ne hid _ _).trans hfile)
      · rcases mem_cons.1 hmem with heq | hmem
        · exact absurd (Effect.segWrite.inj heq).1 hid
        · exact .inr hmem
  · rcases h.files seg hseg with hfile | hmem
    · exact .inl hfile
    · rcases mem_cons.1 hmem with heq | hmem
      · cases heq
      · exact .inr hmem

end Writing

/-! ### The parties -/

/-- The inputs of a plan were listed, in its bucket. -/
def PlanKnown (j : Journal) (plan : CompactionPlan) : Prop :=
  ∀ id ∈ plan.segmentIds, ∃ seg ∈ j.published, seg.1.segmentId = id ∧ seg.1.bucket = plan.bucket

/-- They are listed. -/
def PlanListed (m : Manifest) (plan : CompactionPlan) : Prop := ∀ id ∈ plan.segmentIds, id ∈ m.rawIds

/-- What holds of a compaction tick. -/
def CompactionPhase.Ok (X : Extern) (s : State) (j : Journal) : CompactionPhase → Prop
  | .sweeping _ _ todo => ∀ id ∈ todo, id ∈ j.merged.flatten
  | .planning _ => True
  | .running _ plans => ∀ p ∈ plans, PlanKnown j p
  | .reading _ plan plans todo got => (∀ p ∈ plan :: plans, PlanKnown j p) ∧
      (∀ e ∈ got, ∃ seg ∈ j.published, seg.1.bucket = plan.bucket ∧ e ∈ seg.2) ∧
      ∃ read, plan.segmentIds = read ++ todo ∧
        (PlanListed s.mem.manifest plan → got = read.flatMap j.rowsOf)
  | .writing _ plan plans seg todo => (∀ p ∈ plan :: plans, PlanKnown j p) ∧
      Writes X s.disk [seg] todo ∧
      (PlanListed s.mem.manifest plan → seg.2 = sortAndDedupe (plan.segmentIds.flatMap j.rowsOf))

/-- What holds of the flusher: it has files left to write, or nothing to list. -/
def FlushPhase.Lists (X : Extern) (d : Disk) (flushing : List Segment) (p : FlushPhase) : Prop :=
  match p.work with
  | some (metas, todo) => metas = flushing.map (·.1) ∧ Writes X d flushing todo
  | none => flushing = []

/-- The flusher does not mind what happens to other files. -/
theorem FlushPhase.Lists.congr {d d' : Disk} {flushing : List Segment} {p p' : FlushPhase}
    (h : p.Lists X d flushing)
    (hwork : p'.work = p.work) (hsame : ∀ id ∈ segmentIds flushing, d'.seg id = d.seg id) :
      p'.Lists X d' flushing := by
  rw [FlushPhase.Lists] at h ⊢
  rw [hwork]
  split at h
  · exact ⟨h.1, h.2.congr hsame⟩
  · exact h

/-- Segments that were listed stay in the journal, and do not come back to the list. -/
structure Progress (s : State) (j : Journal) (s' : State) (j' : Journal) : Prop where
  /-- The journal grows. -/
  published : ∃ new, j'.published = j.published ++ new
  /-- What was merged was merged. -/
  merged : ∀ id ∈ j.merged.flatten, id ∈ j'.merged.flatten
  /-- What is listed was listed before, or is new. -/
  listed : ∀ id ∈ segmentIds j.published, id ∈ s'.mem.manifest.rawIds → id ∈ s.mem.manifest.rawIds

section Progress

variable {s s' : State} {j j' : Journal}

theorem Progress.of_same (hpub : j'.published = j.published) (hmerged : j'.merged = j.merged)
    (hraw : s'.mem.manifest.rawSegments = s.mem.manifest.rawSegments) : Progress s j s' j' := by
  refine ⟨⟨[], by rw [hpub, append_nil]⟩, by rw [hmerged]; exact fun _ h => h, fun id _ hid => ?_⟩
  rwa [Manifest.rawIds, hraw] at hid

theorem Progress.planKnown (h : Progress s j s' j') (hplan : PlanKnown j plan) :
    PlanKnown j' plan := by
  obtain ⟨new, hnew⟩ := h.published
  intro id hid
  obtain ⟨seg, hseg, hrest⟩ := hplan id hid
  exact ⟨seg, by rw [hnew]; exact mem_append_left _ hseg, hrest⟩

theorem Progress.planListed (h : Progress s j s' j') (hplan : PlanKnown j plan)
    (hlisted : PlanListed s'.mem.manifest plan) : PlanListed s.mem.manifest plan := by
  intro id hid
  obtain ⟨seg, hseg, rfl, -⟩ := hplan id hid
  exact h.listed _ (mem_segmentIds hseg) (hlisted _ hid)

/-- The rows of what was listed stay the same. -/
theorem Progress.rowsOf (h : Progress s j s' j') (hplan : PlanKnown j plan)
    (hid : id ∈ plan.segmentIds) : j'.rowsOf id = j.rowsOf id := by
  obtain ⟨seg, hseg, rfl, -⟩ := hplan id hid
  exact Journal.rowsOf_of_known h.published (mem_segmentIds hseg)

/-- A tick does not mind what the others do, if they leave its output alone. -/
theorem CompactionPhase.Ok.mono (ht : t.Ok X s j) (h : Progress s j s' j')
    (hout : ∀ id ∈ segmentIds t.output, s'.disk.seg id = s.disk.seg id) : t.Ok X s' j' := by
  cases t with
  | sweeping now done todo => exact fun id hid => h.merged id (ht id hid)
  | planning now => trivial
  | running now plans => exact fun p hp => h.planKnown (ht p hp)
  | reading now plan plans todo got =>
    obtain ⟨hplans, hgot, read, hread, hrows⟩ := ht
    have hplan := hplans plan mem_cons_self
    refine ⟨fun p hp => h.planKnown (hplans p hp), fun e he => ?_, read, hread, fun hlisted => ?_⟩
    · obtain ⟨seg, hseg, hrest⟩ := hgot e he
      obtain ⟨new, hnew⟩ := h.published
      exact ⟨seg, by rw [hnew]; exact mem_append_left _ hseg, hrest⟩
    · rw [hrows (h.planListed hplan hlisted)]
      refine flatMap_congr fun id hid => (h.rowsOf hplan ?_).symm
      rw [hread]
      exact mem_append_left _ hid
  | writing now plan plans seg todo =>
    obtain ⟨hplans, hwrites, hrows⟩ := ht
    have hplan := hplans plan mem_cons_self
    refine ⟨fun p hp => h.planKnown (hplans p hp), hwrites.congr hout, fun hlisted => ?_⟩
    rw [hrows (h.planListed hplan hlisted)]
    congr 1
    exact flatMap_congr fun id hid => (h.rowsOf hplan hid).symm

end Progress

/-- **The server with its compaction ticks is in order.** -/
structure Workers.Ok (X : Extern) (w : Workers) (j : Journal) : Prop where
  /-- The raw segments are. -/
  raw : RawOk X w.machine.state j
  /-- No name was drawn twice. -/
  names : (w.names j).Nodup
  /-- The segments under way are sound. -/
  pending : ∀ seg ∈ w.pending j, SegmentSound X w.machine.state.mem.manifest.buckets seg
  /-- The flusher is in order. -/
  flusher : w.machine.flusher.Lists X w.machine.state.disk j.flushing
  ticks : ∀ t ∈ w.ticks, t.Ok X w.machine.state j

/-! ### Steps of the other parties -/

section Steps

variable {w w' : Workers} {j j' : Journal} {m' : Machine} {o : Option CompactionPhase}

/-- The names of what was listed, of what the flusher writes, and of the outputs of the ticks. -/
theorem Workers.Ok.apart (h : w.Ok X j) :
    (segmentIds (j.published ++ j.flushing)).Nodup ∧
      (∀ id ∈ segmentIds j.published, id ∉ segmentIds (w.pending j)) ∧
      (∀ id ∈ segmentIds j.flushing, id ∉ segmentIds (w.ticks.flatMap (·.output))) := by
  have hnodup : (segmentIds (j.published ++ (j.flushing ++ w.ticks.flatMap (·.output)))).Nodup :=
    h.names
  refine ⟨?_, ?_, ?_⟩
  · rw [← append_assoc, segmentIds_append, nodup_append'] at hnodup
    exact hnodup.1
  · rw [segmentIds_append, nodup_append'] at hnodup
    exact fun id hid hid' => hnodup.2.2 hid hid'
  · rw [segmentIds_append, segmentIds_append, nodup_append', nodup_append'] at hnodup
    exact fun id hid hid' => hnodup.2.1.2.2 hid hid'

theorem mem_output (ht : t ∈ w.ticks) (hid : id ∈ segmentIds t.output) :
    id ∈ segmentIds (w.ticks.flatMap (·.output)) := by
  obtain ⟨seg, hseg, rfl⟩ := mem_map.1 hid
  exact mem_segmentIds (mem_flatMap.2 ⟨t, ht, hseg⟩)

theorem record_of_quiet {a : Action} (ha : a.quiet) :
    w.record X j (.act a) = { j with book := j.book + ↑(a.accepts X w.machine) } := by
  cases a with
  | take uuid => cases ha
  | commit => cases ha
  | _ => rfl

theorem SegmentSound.buckets {m m' : Manifest} (hb : m'.bucketCount = m.bucketCount)
    (h : SegmentSound X m.buckets seg) : SegmentSound X m'.buckets seg := by
  have hbuckets : m'.buckets = m.buckets := by rw [Manifest.buckets, hb, Manifest.buckets]
  rw [hbuckets]
  exact h

/-- The flusher takes a message. -/
theorem Workers.Ok.take (h : w.Ok X j) {uuid : ℕ → String}
    (hfresh : (Work.act (.take uuid)).Fresh w j) (hnone : w.machine.flusher.work = none)
    (hsame : w.machine.SameRaw m') (hwork : w.machine.toFlush X uuid = [] ∧ m'.flusher.work = none ∨
      m'.flusher.work =
        some ((w.machine.toFlush X uuid).map (·.1), segmentEffects X (w.machine.toFlush X uuid))) :
    Workers.Ok X { w with machine := m' } { j with flushing := w.machine.toFlush X uuid } := by
  obtain ⟨hnew, hinj⟩ := hfresh
  have hflusher := h.flusher
  rw [FlushPhase.Lists, hnone] at hflusher
  have hpending : w.pending j = w.ticks.flatMap (·.output) := by
    rw [Workers.pending, show j.flushing = [] from hflusher, nil_append]
  have hname : ∀ seg ∈ w.machine.toFlush X uuid, (∃ b, seg.1.segmentId = rawSegmentId (uuid b)) ∧
      SegmentSound X w.machine.state.mem.manifest.buckets seg := by
    intro seg hseg
    rw [Machine.toFlush] at hseg
    cases hhead : w.machine.state.mem.queue.head? with
    | none =>
      rw [hhead] at hseg
      cases hseg
    | some msg =>
      rw [hhead] at hseg
      obtain ⟨b, -, rfl⟩ := mem_map.1 hseg
      exact ⟨⟨b.1, rfl⟩, flushSegments_sound hseg⟩
  have hnodup : (segmentIds (w.machine.toFlush X uuid)).Nodup := by
    rw [Machine.toFlush]
    cases w.machine.state.mem.queue.head? with
    | none => exact nodup_nil
    | some msg => exact flushSegments_nodup hinj _ _
  refine ⟨?_, ?_, ?_, ?_, ?_⟩
  · exact h.raw.same hsame.raw hsame.bucketCount (by rw [hsame.replaced]; exact fun r hr => hr)
      (fun seg _ => .inl (by rw [hsame.seg])) rfl rfl rfl
  · show (segmentIds (j.published ++ (w.machine.toFlush X uuid ++ w.ticks.flatMap (·.output)))).Nodup
    have hold : (segmentIds (j.published ++ w.ticks.flatMap (·.output))).Nodup := hpending ▸ h.names
    have hperm :
        (segmentIds (j.published ++ (w.machine.toFlush X uuid ++ w.ticks.flatMap (·.output)))).Perm
        (segmentIds (w.machine.toFlush X uuid) ++ segmentIds (j.published ++ w.ticks.flatMap
            (·.output))) := by
      rw [← segmentIds_append]
      exact List.Perm.map _ (perm_append_comm_assoc _ _ _)
    rw [hperm.nodup_iff, nodup_append']
    refine ⟨hnodup, hold, fun id hid hid' => ?_⟩
    obtain ⟨seg, hseg, rfl⟩ := mem_map.1 hid
    obtain ⟨⟨b, hb⟩, -⟩ := hname seg hseg
    refine hnew b ?_
    rw [← hb, Workers.names, hpending]
    exact hid'
  · intro seg hseg
    refine SegmentSound.buckets hsame.bucketCount ?_
    rcases mem_append.1 hseg with hseg | hseg
    · exact (hname seg hseg).2
    · exact h.pending seg (mem_append_right _ hseg)
  · rcases hwork with ⟨hnil, hwork⟩ | hwork
    · rw [FlushPhase.Lists, hwork]
      exact hnil
    · rw [FlushPhase.Lists, hwork]
      exact ⟨rfl, Writes.start X _ _⟩
  · intro t ht
    refine (h.ticks t ht).mono (.of_same rfl rfl hsame.raw) fun id _ => ?_
    rw [hsame.seg]

/-- The flusher writes a file. -/
theorem Workers.Ok.write (h : w.Ok X j) {metas : List SegmentMeta} {x : Effect} {todo : List Effect}
    (hwork : w.machine.flusher.work = some (metas, x :: todo))
    (hwork' : m'.flusher.work = some (metas, todo))
    (hstate : m'.state = ⟨w.machine.state.disk.apply x, w.machine.state.mem⟩)
    (hpub : j'.published = j.published)
    (hmerged : j'.merged = j.merged) (hflushed : j'.flushed = j.flushed)
    (hflushing : j'.flushing = j.flushing) :
    Workers.Ok X { w with machine := m' } j' := by
  obtain ⟨hnodup, hpubApart, hflushApart⟩ := h.apart
  have hflusher := h.flusher
  rw [FlushPhase.Lists, hwork] at hflusher
  obtain ⟨hmetas, hwrites⟩ := hflusher
  have hx := hwrites.only x mem_cons_self
  have hother : ∀ id, id ∉ segmentIds j.flushing →
      m'.state.disk.seg id = w.machine.state.disk.seg id := by
    intro id hid
    rw [hstate]
    exact seg_apply_of_not_mem hx hid
  have hmem : m'.state.mem = w.machine.state.mem := by rw [hstate]
  refine ⟨?_, ?_, ?_, ?_, ?_⟩
  · refine h.raw.same (by rw [hmem]) (by rw [hmem])
      (by rw [hmem]; exact fun r hr => hr) (fun seg hseg => ?_) hpub hmerged
      hflushed
    refine .inl (hother _ fun hid => hpubApart _ (mem_segmentIds hseg) ?_)
    rw [Workers.pending, segmentIds_append]
    exact mem_append_left _ hid
  · rw [Workers.names, Workers.pending, hpub, hflushing]
    exact h.names
  · rw [Workers.pending, hflushing, hmem]
    exact h.pending
  · rw [FlushPhase.Lists, hwork', hflushing, hstate]
    refine ⟨hmetas, hwrites.step ?_⟩
    rw [segmentIds_append, nodup_append'] at hnodup
    exact hnodup.2.1
  · intro t ht
    refine (h.ticks t ht).mono (.of_same hpub hmerged (by rw [hmem]))
      fun id hid => hother id fun hid' => ?_
    exact hflushApart id hid' (mem_output ht hid)

/-- The flusher lists its segments. -/
theorem Workers.Ok.commit (h : w.Ok X j) {metas : List SegmentMeta}
    (hwork : w.machine.flusher.work = some (metas, [])) (hwork' : m'.flusher.work = none)
    (hseg : m'.state.disk.seg = w.machine.state.disk.seg)
    (hraw : m'.state.mem.manifest.rawSegments = w.machine.state.mem.manifest.rawSegments ++ metas)
    (hrep : m'.state.mem.manifest.compactedReplacements =
      w.machine.state.mem.manifest.compactedReplacements)
    (hb : m'.state.mem.manifest.bucketCount = w.machine.state.mem.manifest.bucketCount) :
    Workers.Ok X { w with machine := m' } (w.record X j (.act .commit)) := by
  obtain ⟨hnodup, hpubApart, -⟩ := h.apart
  have hflusher := h.flusher
  rw [FlushPhase.Lists, hwork] at hflusher
  obtain ⟨rfl, hwrites⟩ := hflusher
  have hids : m'.state.mem.manifest.rawIds = w.machine.state.mem.manifest.rawIds ++
      segmentIds j.flushing := by
    rw [Manifest.rawIds, hraw, map_append, map_map]
    rfl
  refine ⟨?_, ?_, ?_, ?_, ?_⟩
  · exact h.raw.replace rfl (by simpa using hraw) hb (by rw [hrep]; exact fun _ => .inl) hseg
      nodup_nil (by simp) hnodup (fun seg hmem => h.pending seg (mem_append_left _ hmem))
      hwrites.done (append_nil _).symm fun _ => mem_append.1
  · show (segmentIds (j.published ++ j.flushing ++ w.ticks.flatMap (·.output))).Nodup
    rw [append_assoc]
    exact h.names
  · intro seg hmem
    exact (h.pending seg (mem_append_right _ hmem)).buckets hb
  · rw [FlushPhase.Lists, hwork']
    rfl
  · intro t ht
    refine (h.ticks t ht).mono ⟨⟨j.flushing, rfl⟩,
      fun id hid => hid, fun id hid hlisted => ?_⟩ fun id _ => by rw [hseg]
    rw [hids] at hlisted
    refine (mem_append.1 hlisted).resolve_right fun hid' => hpubApart id hid ?_
    rw [Workers.pending, segmentIds_append]
    exact mem_append_left _ hid'

/-- **A step of another party keeps all in order.** -/
theorem Workers.Ok.act (h : w.Ok X j) {a : Action} (hfresh : (Work.act a).Fresh w j)
    (hnext : w.machine.next X cfg a = some m') :
      Workers.Ok X { w with machine := m' } (w.record X j (.act a)) := by
  cases Machine.rawStep hnext with
  | same hquiet hsame hwork =>
    rw [record_of_quiet hquiet]
    refine ⟨?_, h.names,
      fun seg hseg => (h.pending seg hseg).buckets hsame.bucketCount, ?_, fun t ht => ?_⟩
    · exact h.raw.same hsame.raw hsame.bucketCount (by rw [hsame.replaced]; exact fun r hr => hr)
        (fun seg _ => .inl (by rw [hsame.seg])) rfl rfl rfl
    · exact h.flusher.congr hwork fun id _ => by rw [hsame.seg]
    · exact (h.ticks t ht).mono (.of_same rfl rfl hsame.raw) fun id _ => by rw [hsame.seg]
  | take hnone hsame hwork => exact h.take hfresh hnone hsame hwork
  | write hwork hwork' hstate =>
    rw [record_of_quiet rfl]
    exact h.write hwork hwork' hstate rfl rfl rfl rfl
  | commit hwork hwork' hseg hraw hrep hb => exact h.commit hwork hwork' hseg hraw hrep hb

/-! ### Steps of compaction -/

/-- A tick starts. -/
theorem Workers.Ok.compactionStart (h : w.Ok X j) (now : ℤ) :
    Workers.Ok X { w with ticks := w.ticks ++ [.start cfg now w.machine.state.mem.manifest] } j := by
  have hstart : (CompactionPhase.start cfg now w.machine.state.mem.manifest).output = [] := by
    rw [CompactionPhase.start]
    split <;> rfl
  have hpending :
      Workers.pending { w with ticks := w.ticks ++ [.start cfg now w.machine.state.mem.manifest] } j =
      w.pending j := by
    simp [Workers.pending, hstart]
  refine ⟨h.raw, ?_, ?_, h.flusher, fun t ht => ?_⟩
  · rw [Workers.names, hpending]
    exact h.names
  · rw [hpending]
    exact h.pending
  · rcases mem_append.1 ht with ht | ht
    · exact h.ticks t ht
    · rw [mem_singleton.1 ht, CompactionPhase.start]
      split
      · trivial
      · intro id hid
        obtain ⟨r, hr, hid⟩ := mem_flatMap.1 hid
        exact h.raw.replaced r (mem_of_mem_filter hr) id hid

/-- The ticks around the one that takes a step. -/
theorem ticks_split {ticks : List CompactionPhase} {i : ℕ} (h : ticks[i]? = some t) :
    ∃ l r, ticks = l ++ t :: r ∧ ∀ o : Option CompactionPhase, (match o with
      | some t' => ticks.set i t'
      | none => ticks.eraseIdx i) = l ++ (o.toList ++ r) := by
  obtain ⟨hi, rfl⟩ := List.getElem?_eq_some_iff.1 h
  refine ⟨ticks.take i, ticks.drop (i + 1), ?_, fun o => ?_⟩
  · rw [getElem_cons_drop, take_append_drop]
  · cases o with
    | none => exact eraseIdx_eq_take_drop_succ ticks i
    | some t' => exact set_eq_take_append_cons_drop.trans (if_pos hi)

/-- The names, those of one tick first. -/
theorem names_perm {l r : List CompactionPhase} (hticks : w.ticks = l ++ (o.toList ++ r)) :
    (w.names j).Perm (segmentIds (o.toList.flatMap (·.output)) ++
      segmentIds (j.published ++ (j.flushing ++ (l ++ r).flatMap (·.output)))) := by
  rw [← segmentIds_append, Workers.names, Workers.pending, hticks]
  refine List.Perm.map _ ?_
  rw [← Multiset.coe_eq_coe]
  simp only [flatMap_append, ← Multiset.coe_add]
  abel

/-- What is to be shown of a step of a tick. -/
theorem Workers.Ok.tick (h : w.Ok X j) {l r : List CompactionPhase}
    (hticks : w.ticks = l ++ t :: r) (hticks' : w'.ticks = l ++ (o.toList ++ r))
    (hflusher : w'.machine.flusher = w.machine.flusher) (hraw : RawOk X w'.machine.state j')
    (hprogress : Progress w.machine.state j w'.machine.state j') (hflushing : j'.flushing = j.flushing)
    (hb : w'.machine.state.mem.manifest.bucketCount = w.machine.state.mem.manifest.bucketCount)
    (hfiles : ∀ id ∈ segmentIds (j.flushing ++ (l ++ r).flatMap (·.output)),
      w'.machine.state.disk.seg id = w.machine.state.disk.seg id)
    (hnames : (segmentIds (o.toList.flatMap (·.output)) ++
      segmentIds (j'.published ++ (j'.flushing ++ (l ++ r).flatMap (·.output)))).Nodup)
    (hsound : ∀ seg ∈ o.toList.flatMap (·.output), SegmentSound X
      w.machine.state.mem.manifest.buckets seg)
    (ht : ∀ t' ∈ o, t'.Ok X w'.machine.state j') : w'.Ok X j' := by
  have hothers : ∀ t' ∈ l ++ r, t' ∈ w.ticks := by
    intro t' ht'
    rw [hticks]
    rcases mem_append.1 ht' with ht' | ht'
    · exact mem_append_left _ ht'
    · exact mem_append_right _ (mem_cons_of_mem _ ht')
  refine ⟨hraw, (names_perm hticks').nodup_iff.2 hnames, fun seg hseg => ?_, ?_, fun t' ht' => ?_⟩
  · refine SegmentSound.buckets hb ?_
    rw [Workers.pending, hflushing] at hseg
    rcases mem_append.1 hseg with hseg | hseg
    · exact h.pending seg (mem_append_left _ hseg)
    · obtain ⟨t', ht', hseg⟩ := mem_flatMap.1 hseg
      rw [hticks', mem_append, mem_append] at ht'
      by_cases ho : t' ∈ o.toList
      · exact hsound seg (mem_flatMap.2 ⟨t', ho, hseg⟩)
      · refine h.pending seg (mem_append_right _ (mem_flatMap.2 ⟨t', hothers t' ?_, hseg⟩))
        exact mem_append.2 (ht'.imp_right fun ht' => ht'.resolve_left ho)
  · rw [hflushing]
    refine h.flusher.congr (by rw [hflusher]) fun id hid => hfiles id ?_
    rw [segmentIds_append]
    exact mem_append_left _ hid
  · rw [hticks', mem_append, mem_append] at ht'
    by_cases ho : t' ∈ o.toList
    · exact ht t' (Option.mem_toList.1 ho)
    · have hmem : t' ∈ l ++ r := mem_append.2 (ht'.imp_right fun ht' => ht'.resolve_left ho)
      refine (h.ticks t' (hothers t' hmem)).mono hprogress fun id hid => hfiles id ?_
      obtain ⟨seg, hseg, rfl⟩ := mem_map.1 hid
      exact mem_segmentIds (mem_append_right _ (mem_flatMap.2 ⟨t', hmem, hseg⟩))

section Tick

variable {l r : List CompactionPhase} {t : CompactionPhase} {uuid : String}

/-- The output of a tick is under no other name. -/
theorem Workers.Ok.output_apart (h : w.Ok X j) (hticks : w.ticks = l ++ t :: r) :
    (segmentIds t.output ++ segmentIds (j.published ++
      (j.flushing ++ (l ++ r).flatMap (·.output)))).Nodup := by
  have hperm := names_perm (w := w) (j := j) (o := some t) hticks
  have hnodup := hperm.nodup_iff.1 h.names
  simpa using hnodup

/-- A step of a tick that lists nothing: it touches files of its own and of merged segments, and
may drop records. -/
theorem Workers.Ok.tick_quiet (h : w.Ok X j) (hticks : w.ticks = l ++ t :: r)
    (hticks' : w'.ticks = l ++ (o.toList ++ r)) (hflusher : w'.machine.flusher = w.machine.flusher)
    (hraw : w'.machine.state.mem.manifest.rawSegments = w.machine.state.mem.manifest.rawSegments)
    (hb : w'.machine.state.mem.manifest.bucketCount = w.machine.state.mem.manifest.bucketCount)
    (hrep : ∀ rec ∈ w'.machine.state.mem.manifest.compactedReplacements,
      rec ∈ w.machine.state.mem.manifest.compactedReplacements)
    (hfiles : ∀ id, w'.machine.state.disk.seg id = w.machine.state.disk.seg id ∨
      id ∈ segmentIds t.output ∨ w'.machine.state.disk.seg id = none ∧ id ∈ j.merged.flatten)
    (hout : (o.toList.flatMap (·.output)).Sublist t.output)
    (ht : ∀ t' ∈ o, t'.Ok X w'.machine.state j) : w'.Ok X j := by
  have hnodup := h.output_apart hticks
  have hapart := (nodup_append'.1 hnodup).2.2
  rw [segmentIds_append] at hapart
  obtain ⟨-, hpending, -⟩ := h.apart
  have htick : t ∈ w.ticks := by simp [hticks]
  refine h.tick hticks hticks' hflusher ?_ (.of_same rfl rfl hraw) rfl hb ?_ ?_ ?_ ht
  · refine h.raw.same hraw hb hrep (fun seg hseg => ?_) rfl rfl rfl
    have hid := mem_segmentIds hseg
    rcases hfiles seg.1.segmentId with hsame | hown | hgone
    · exact .inl hsame
    · exact absurd (mem_append_left _ hid) (hapart hown)
    · exact .inr ⟨hgone.1, h.raw.retired _ hgone.2⟩
  · intro id hid
    rcases hfiles id with hsame | hown | hgone
    · exact hsame
    · exact absurd (mem_append_right _ hid) (hapart hown)
    · refine absurd ?_ (hpending id (h.raw.known id hgone.2))
      rw [segmentIds_append] at hid
      rw [Workers.pending, segmentIds_append]
      refine (mem_append.1 hid).elim (mem_append_left _) fun hid => mem_append_right _ ?_
      obtain ⟨seg, hseg, rfl⟩ := mem_map.1 hid
      obtain ⟨t', ht', hseg⟩ := mem_flatMap.1 hseg
      refine mem_output (t := t') ?_ (mem_segmentIds hseg)
      rw [hticks]
      simp only [mem_append, mem_cons] at ht' ⊢
      tauto
  · exact hnodup.sublist ((hout.map _).append (List.Sublist.refl _))
  · intro seg hseg
    refine h.pending seg (mem_append_right _ (mem_flatMap.2 ⟨t, htick, hout.subset hseg⟩))

/-- A step of a tick that only looks. -/
theorem Workers.Ok.tick_look (h : w.Ok X j) (hticks : w.ticks = l ++ t :: r)
    (hout : (o.toList.flatMap (·.output)).Sublist t.output) (ht : ∀ t' ∈ o, t'.Ok X w.machine.state j) :
    Workers.Ok X ⟨w.machine.after (.skip w.machine.state), l ++ (o.toList ++ r)⟩ j :=
  h.tick_quiet hticks rfl rfl rfl rfl (fun _ hr => hr) (fun _ => .inl rfl) hout ht

/-- The plans of a tick are about listed segments. -/
theorem RawOk.planKnown {s : State} (h : RawOk X s j) {max : ℕ}
    (hplan : plan ∈ planCompaction max s.mem.manifest.rawSegments) : PlanKnown j plan := by
  obtain ⟨hids, -⟩ := mem_planCompaction hplan
  intro id hid
  rw [hids] at hid
  obtain ⟨m, hm, rfl⟩ := mem_map.1 hid
  rw [mem_filter, decide_eq_true_eq] at hm
  obtain ⟨rows, hrows⟩ := h.listed m hm.1
  exact ⟨(m, rows), hrows, rfl, hm.2⟩

/-- An input is read: its rows, or nothing when it has been swept. -/
theorem RawOk.read {s : State} (h : RawOk X s j) (hplan : PlanKnown j plan)
    (hid : id ∈ plan.segmentIds) :
    (∀ e ∈ (s.disk.seg id).getD [], ∃ seg ∈ j.published, seg.1.bucket = plan.bucket ∧ e ∈ seg.2) ∧
      (id ∈ s.mem.manifest.rawIds → (s.disk.seg id).getD [] = j.rowsOf id) := by
  obtain ⟨seg, hseg, rfl, hbucket⟩ := hplan id hid
  refine ⟨fun e he => ?_, fun hlisted => ?_⟩
  · rcases h.files seg hseg with hfile | ⟨hgone, -⟩
    · rw [hfile] at he
      exact ⟨seg, hseg, hbucket, he⟩
    · rw [hgone] at he
      cases he
  · rw [h.file_of_listed hseg hlisted, Journal.rowsOf_of_mem h.nodup hseg]
    rfl

/-- The merge of what was read is sound. -/
theorem RawOk.merge_sound {s : State} (h : RawOk X s j) {got : List UsageEvent}
    (hgot : ∀ e ∈ got, ∃ seg ∈ j.published, seg.1.bucket = plan.bucket ∧ e ∈ seg.2) :
    SegmentSound X s.mem.manifest.buckets (CompactionPhase.merge X uuid plan got) := by
  refine ⟨rfl, fun e he => ?_⟩
  obtain ⟨seg, hseg, hbucket, hmem⟩ := hgot e (mem_of_mem_sortAndDedupe he)
  exact ((h.sound seg hseg).bucket e hmem).trans hbucket

/-- The commit of a merge. -/
theorem Workers.Ok.tick_commit (h : w.Ok X j) {plans : List CompactionPlan}
    (hticks : w.ticks = l ++ .writing now plan plans seg [] :: r)
    (hpresent : w.machine.state.mem.manifest.stillPresent plan) :
    Workers.Ok X
      ⟨w.machine.after ⟨[.manifestSave (w.machine.state.mem.manifest.swap plan seg.1 now).saved],
        { w.machine.state.mem with manifest := (w.machine.state.mem.manifest.swap plan seg.1
          now).saved }⟩,
      l ++ ((some (.running now plans) : Option CompactionPhase).toList ++ r)⟩
      { j with published := j.published ++ [seg], merged := j.merged ++ [plan.segmentIds] } := by
  have htick : CompactionPhase.writing now plan plans seg [] ∈ w.ticks := by simp [hticks]
  obtain ⟨hplans, hwrites, -⟩ := h.ticks _ htick
  have hnodup := h.output_apart hticks
  have hapart := (nodup_append'.1 hnodup).2.2
  rw [segmentIds_append] at hapart
  have hnew : seg.1.segmentId ∉ segmentIds j.published := fun hid =>
    hapart (mem_singleton_self _) (mem_append_left _ hid)
  have hsound := h.pending seg (mem_append_right _ (mem_flatMap.2 ⟨_, htick, mem_singleton_self _⟩))
  have hprogress : Progress w.machine.state j
      (w.machine.after ⟨[.manifestSave (w.machine.state.mem.manifest.swap plan seg.1 now).saved],
        { w.machine.state.mem with manifest := (w.machine.state.mem.manifest.swap plan seg.1
          now).saved }⟩).state
      { j with published := j.published ++ [seg], merged := j.merged ++ [plan.segmentIds] } := by
    refine ⟨⟨[seg], rfl⟩, fun id hid => ?_, fun id hid hlisted => ?_⟩
    · rw [flatten_append]
      exact mem_append_left _ hid
    · obtain ⟨m, hm, rfl⟩ := mem_map.1 hlisted
      rcases mem_append.1 hm with hm | hm
      · exact mem_map_of_mem (mem_of_mem_filter hm)
      · rw [mem_singleton.1 hm] at hid
        exact absurd hid hnew
  refine h.tick hticks rfl rfl ?_ hprogress rfl rfl
    (fun id _ => rfl) ?_ (fun seg hseg => by cases hseg) ?_
  · have hperm := perm_of_stillPresent h.raw.ids hpresent
    refine h.raw.replace rfl rfl rfl
      (fun r hr => ?_) rfl (hperm.nodup_iff.1 (h.raw.ids.sublist (filter_sublist.map _)))
      (fun id hid => (filter_sublist.map _).subset (hperm.mem_iff.2 hid)) ?_ (forall_mem_singleton.2
        hsound) hwrites.done
      (by rw [flatten_append, flatten_singleton]) fun _ => .inl
    · exact (mem_append.1 hr).imp_right fun hr => by rw [mem_singleton.1 hr]
    · rw [segmentIds_append]
      exact nodup_append_comm.2 (nodup_cons.2 ⟨hnew, h.raw.nodup⟩)
  · refine (List.Perm.nodup_iff ?_).1 hnodup
    rw [← segmentIds_append, ← segmentIds_append]
    refine List.Perm.map _ ?_
    show ([seg] ++ (j.published ++ (j.flushing ++ (l ++ r).flatMap (·.output)))).Perm
      ([] ++ (j.published ++ [seg] ++ (j.flushing ++ (l ++ r).flatMap (·.output))))
    rw [← Multiset.coe_eq_coe]
    simp only [nil_append, ← Multiset.coe_add]
    abel
  · intro t' ht'
    cases ht'
    exact fun p hp => hprogress.planKnown (hplans p (mem_cons_of_mem _ hp))

/-- The output is begun, under a new name. -/
theorem Workers.Ok.tick_begin (h : w.Ok X j) {plans : List CompactionPlan}
    {got : List UsageEvent} (hticks : w.ticks = l ++ .reading now plan plans [] got :: r)
    (hfresh : compactedSegmentId uuid ∉ w.names j) :
    Workers.Ok X ⟨w.machine.after (.skip w.machine.state),
      l ++ ((some (.writing now plan plans (CompactionPhase.merge X uuid plan got)
        (segmentEffects X [CompactionPhase.merge X uuid plan got])) : Option
          CompactionPhase).toList ++ r)⟩ j := by
  have htick : CompactionPhase.reading now plan plans [] got ∈ w.ticks := by simp [hticks]
  obtain ⟨hplans, hgot, read, hread, hrows⟩ := h.ticks _ htick
  rw [append_nil] at hread
  have hperm := names_perm (w := w) (j := j) (o := some (.reading now plan plans [] got)) hticks
  refine h.tick hticks rfl rfl h.raw (.of_same rfl rfl rfl) rfl rfl (fun id _ => rfl) ?_ ?_ ?_
  · refine nodup_cons.2 ⟨fun hid => hfresh (hperm.mem_iff.2 hid), hperm.nodup_iff.1 h.names⟩
  · intro seg hseg
    obtain rfl := mem_singleton.1 hseg
    exact h.raw.merge_sound hgot
  · intro t' ht'
    cases ht'
    refine ⟨hplans, Writes.start X _ _, fun hlisted => ?_⟩
    rw [hread, ← hrows hlisted]
    rfl

/-- A step of a tick, with the ticks around it. -/
theorem Workers.next_compaction {i : ℕ} (hnext : w.next X cfg (.compaction i uuid) = some w') :
    ∃ t l r, w.ticks[i]? = some t ∧ w.ticks = l ++ t :: r ∧
      w' = ⟨w.machine.after (t.next X cfg uuid w.machine.state).1,
        l ++ ((t.next X cfg uuid w.machine.state).2.toList ++ r)⟩ := by
  obtain ⟨t, ht, rfl⟩ := Option.map_eq_some_iff.1 hnext
  obtain ⟨l, r, hticks, hset⟩ := ticks_split ht
  exact ⟨t, l, r, ht, hticks, congrArg (Workers.mk _) (hset _)⟩

/-- A swept file is gone, and no other. -/
theorem seg_sweep (s : State) (id id' : String) :
    ((Outcome.mk (if (s.disk.seg id).isSome then [.segRemove id] else []) s.mem).state s).disk.seg
      id' = s.disk.seg id' ∨
      ((Outcome.mk (if (s.disk.seg id).isSome then [.segRemove id] else []) s.mem).state
        s).disk.seg id' = none ∧ id' = id := by
  by_cases hfile : (s.disk.seg id).isSome
  · rw [if_pos hfile]
    by_cases hid : id' = id
    · exact .inr ⟨by rw [hid]; exact Function.update_self _ _ _, hid⟩
    · exact .inl (Function.update_of_ne hid _ _)
  · exact .inl (by rw [if_neg hfile]; rfl)

/-- **A step of a compaction tick keeps all in order.** -/
theorem Workers.Ok.compaction (h : w.Ok X j) {i : ℕ} (hfresh : compactedSegmentId uuid ∉ w.names j)
    (hnext : w.next X cfg (.compaction i uuid) = some w') :
      w'.Ok X (w.record X j (.compaction i uuid)) := by
  obtain ⟨t, l, r, ht, hticks, rfl⟩ := Workers.next_compaction hnext
  have hok := h.ticks t (by simp [hticks])
  rw [Workers.record, ht]
  cases t with
  | sweeping now done todo =>
    cases todo with
    | nil =>
      refine h.tick_quiet (o := some (.planning now)) hticks rfl rfl rfl rfl
        (fun _ hr => mem_of_mem_filter hr)
        (fun _ => .inl rfl) (.refl _) fun t' ht' => ?_
      cases ht'
      trivial
    | cons id todo =>
      refine h.tick_quiet (o := some (.sweeping now done todo)) hticks rfl rfl rfl rfl
        (fun _ hr => hr) (fun id' => ?_)
        (.refl _) fun t' ht' => ?_
      · rcases seg_sweep w.machine.state id id' with hsame | ⟨hgone, rfl⟩
        · exact .inl hsame
        · exact .inr (.inr ⟨hgone, hok id' mem_cons_self⟩)
      · cases ht'
        exact fun id' hid' => hok id' (mem_cons_of_mem _ hid')
  | planning now =>
    refine h.tick_look (o := some (.running now _)) hticks (.refl _) fun t' ht' => ?_
    cases ht'
    exact fun p hp => h.raw.planKnown hp
  | running now plans =>
    cases plans with
    | nil => exact h.tick_look (o := none) hticks (.refl _) fun t' ht' => by cases ht'
    | cons plan plans =>
      refine h.tick_look (o := some (.reading now plan plans plan.segmentIds [])) hticks (.refl _)
        fun t' ht' => ?_
      cases ht'
      exact ⟨hok, fun e he => absurd he not_mem_nil, [], rfl, fun _ => rfl⟩
  | reading now plan plans todo got =>
    obtain ⟨hplans, hgot, read, hread, hrows⟩ := hok
    cases todo with
    | nil =>
      by_cases hempty : (CompactionPhase.merge X uuid plan got).2.isEmpty
      · simp only [CompactionPhase.next, if_pos hempty]
        refine h.tick_look (o := some (.running now plans)) hticks (.refl _) fun t' ht' => ?_
        cases ht'
        exact fun p hp => hplans p (mem_cons_of_mem _ hp)
      · simp only [CompactionPhase.next, if_neg hempty]
        exact h.tick_begin hticks hfresh
    | cons id todo =>
      obtain ⟨hevents, hfile⟩ := h.raw.read (hplans plan mem_cons_self)
        (show id ∈ plan.segmentIds by simp [hread])
      refine h.tick_look (o := some (.reading now plan plans todo _)) hticks (.refl _) fun t' ht' => ?_
      cases ht'
      refine ⟨hplans, fun e he => ?_, read ++ [id], by simp [hread], fun hlisted => ?_⟩
      · exact (mem_append.1 he).elim (hgot e) (hevents e)
      · rw [hrows hlisted, hfile (hlisted id (by simp [hread])), flatMap_append, flatMap_singleton]
  | writing now plan plans seg todo =>
    obtain ⟨hplans, hwrites, hrows⟩ := hok
    cases todo with
    | nil =>
      by_cases hpresent : w.machine.state.mem.manifest.stillPresent plan
      · simp only [CompactionPhase.next, if_pos hpresent]
        exact h.tick_commit hticks hpresent
      · simp only [CompactionPhase.next, if_neg hpresent]
        refine h.tick_quiet (o := some (.running now plans)) hticks rfl rfl rfl rfl
          (fun _ hr => hr) (fun id => ?_)
          (nil_sublist _) fun t' ht' => ?_
        · by_cases hid : id = seg.1.segmentId
          · exact .inr (.inl (by rw [hid]; exact mem_singleton_self _))
          · exact .inl (Function.update_of_ne hid _ _)
        · cases ht'
          exact fun p hp => hplans p (mem_cons_of_mem _ hp)
    | cons x todo =>
      have hx := hwrites.only x mem_cons_self
      refine h.tick_quiet (o := some (.writing now plan plans seg todo)) hticks rfl rfl rfl rfl
        (fun _ hr => hr)
        (fun id => ?_) (.refl _) fun t' ht' => ?_
      · by_cases hid : id ∈ segmentIds [seg]
        · exact .inr (.inl hid)
        · exact .inl (seg_apply_of_not_mem hx hid)
      · cases ht'
        exact ⟨hplans, hwrites.step (nodup_singleton _), hrows⟩

end Tick

/-- The journal grows. -/
theorem Workers.record_grows (l : Work) : (∃ new, (w.record X j l).published = j.published ++ new) ∧
    (∃ new, (w.record X j l).book = j.book + new) ∧ ∃ new, (w.record X j l).merged =
      j.merged ++ new := by
  have hpub : ∃ new, j.published = j.published ++ new := ⟨[], (append_nil _).symm⟩
  have hbook : ∃ new, j.book = j.book + new := ⟨0, (Multiset.add_zero _).symm⟩
  have hmerged : ∃ new, j.merged = j.merged ++ new := ⟨[], (append_nil _).symm⟩
  cases l with
  | act a =>
    cases a with
    | take uuid => exact ⟨hpub, hbook, hmerged⟩
    | commit => exact ⟨⟨j.flushing, rfl⟩, hbook, hmerged⟩
    | _ => exact ⟨hpub, ⟨_, rfl⟩, hmerged⟩
  | compactionStart now => exact ⟨hpub, hbook, hmerged⟩
  | compaction i uuid =>
    rw [Workers.record]
    split
    · split
      · exact ⟨⟨_, rfl⟩, hbook, ⟨_, rfl⟩⟩
      · exact ⟨hpub, hbook, hmerged⟩
    · exact ⟨hpub, hbook, hmerged⟩

/-- The file that a step sweeps. -/
def Workers.sweeps (w : Workers) : Work → Option String
  | .compaction i _ =>
    match w.ticks[i]? with
    | some (.sweeping _ _ (id :: _)) => some id
    | _ => none
  | _ => none

/-- The file of a segment that was listed stays as it is, unless it is swept. -/
theorem Workers.Ok.file_stays (h : w.Ok X j) (hnext : w.next X cfg l = some w')
    (hid : id ∈ segmentIds j.published) :
    w'.machine.state.disk.seg id = w.machine.state.disk.seg id ∨ w.sweeps l = some id := by
  obtain ⟨-, hapart, -⟩ := h.apart
  cases l with
  | act a =>
    refine .inl ?_
    obtain ⟨m', hm, rfl⟩ := Option.map_eq_some_iff.1 hnext
    cases Machine.rawStep hm with
    | same _ hsame _ => exact congrFun hsame.seg id
    | take _ hsame _ => exact congrFun hsame.seg id
    | commit _ _ hseg _ _ _ => exact congrFun hseg id
    | write hwork _ hstate =>
      have hflusher := h.flusher
      rw [FlushPhase.Lists, hwork] at hflusher
      rw [hstate]
      refine seg_apply_of_not_mem (hflusher.2.only _ mem_cons_self) fun hmem => hapart id hid ?_
      rw [Workers.pending, segmentIds_append]
      exact mem_append_left _ hmem
  | compactionStart now =>
    cases hnext
    exact .inl rfl
  | compaction i uuid =>
    obtain ⟨t, l, r, ht, hticks, rfl⟩ := Workers.next_compaction hnext
    have hok := h.ticks t (by simp [hticks])
    -- the segment is not the output of the tick
    have hown : id ∉ segmentIds t.output := fun hmem => hapart id hid (by
      rw [Workers.pending, segmentIds_append]
      exact mem_append_right _ (mem_output (by simp [hticks]) hmem))
    rw [Workers.sweeps, ht]
    cases t with
    | sweeping now done todo =>
      cases todo with
      | nil => exact .inl rfl
      | cons id' todo =>
        rcases seg_sweep w.machine.state id' id with hsame | ⟨-, rfl⟩
        · exact .inl hsame
        · exact .inr rfl
    | planning now => exact .inl rfl
    | running now plans => cases plans <;> exact .inl rfl
    | reading now plan plans todo got => cases todo <;> exact .inl rfl
    | writing now plan plans seg todo =>
      refine .inl ?_
      cases todo with
      | nil =>
        rw [CompactionPhase.next]
        split
        · rfl
        · exact Function.update_of_ne (fun heq => hown (by rw [heq]; exact mem_singleton_self _)) _ _
      | cons x todo => exact seg_apply_of_not_mem (hok.2.1.only x mem_cons_self) hown

end Steps

/-! ### Every run -/

theorem WorkersStep.ok (h : a.1.Ok X a.2) (hstep : WorkersStep X cfg a l b) :
    b.1.Ok X b.2 := by
  obtain ⟨w, j⟩ := a
  obtain ⟨w', j'⟩ := b
  obtain ⟨hfresh, hnext, rfl⟩ := hstep
  dsimp only at *
  cases l with
  | act a =>
    obtain ⟨m', hm, rfl⟩ := Option.map_eq_some_iff.1 hnext
    exact h.act hfresh hm
  | compactionStart now =>
    cases hnext
    exact h.compactionStart now
  | compaction i uuid => exact h.compaction hfresh hnext

/-- At the start there is no segment. -/
theorem Workers.ok_start (X : Extern) (cfg : Config) (now : ℤ) (clk : ℕ → ℤ) :
    (Workers.start X cfg now clk).Ok X .empty := by
  have hraw : (Workers.start X cfg now clk).machine.state.mem.manifest.rawSegments = [] :=
    (frames_restart X cfg (f := Manifest.rawSegments) (fun _ _ => rfl) now clk .empty).1
  have hrep : (Workers.start X cfg now clk).machine.state.mem.manifest.compactedReplacements = [] :=
    (frames_restart X cfg (f := Manifest.compactedReplacements) (fun _ _ => rfl) now clk .empty).1
  have hticks : (Workers.start X cfg now clk).ticks = [] := rfl
  refine ⟨⟨?_, ?_, ?_, ?_, ?_, ?_, ?_, ?_, ?_, ?_, ?_⟩, nodup_nil, ?_, rfl, ?_⟩ <;>
    simp [Journal.empty, segmentIds, hraw, hrep, hticks, Manifest.rawIds, Workers.pending]

/-- A name in lists that have nothing in common is in one of them. -/
theorem countP_mem_of_nodup_flatten {α : Type} [DecidableEq α] {ls : List (List α)}
    (h : ls.flatten.Nodup) (a : α) :
    ls.countP (a ∈ ·) = ls.flatten.count a := by
  induction ls with
  | nil => rfl
  | cons l ls ih =>
    rw [flatten_cons, nodup_append'] at h
    rw [countP_cons, flatten_cons, count_append, ih h.2.1, h.1.count, add_comm]
    simp only [decide_eq_true_eq]

/-- **Compaction is safe under every interleaving.** In every state that a run reaches, the listed
raw segments have different names and their files are there; none of them is in a replacement
record, or is about to be swept; and a segment that a flush has listed is listed still and an
input of no committed compaction, or it is not listed and an input of exactly one. -/
theorem compaction_safe {clk : ℕ → ℤ} {ls : List Work} {w : Workers}
    (hrun : Run (WorkersStep X cfg) (.start X cfg now clk, .empty) ls (w, j)) :
    let s := w.machine.state
    s.mem.manifest.rawIds.Nodup ∧ (∀ id ∈ s.mem.manifest.rawIds, (s.disk.seg id).isSome) ∧
      (∀ r ∈ s.mem.manifest.compactedReplacements, ∀ id ∈ r.oldSegments, id ∉ s.mem.manifest.rawIds) ∧
      (∀ now done todo, CompactionPhase.sweeping now done todo ∈ w.ticks →
        ∀ id ∈ todo, id ∉ s.mem.manifest.rawIds) ∧
      ∀ id ∈ j.flushed, (id ∈ s.mem.manifest.rawIds ∧ j.merged.countP (id ∈ ·) = 0) ∨
        (id ∉ s.mem.manifest.rawIds ∧ j.merged.countP (id ∈ ·) = 1) := by
  have hok : w.Ok X j := hrun.invariant (I := fun b => b.1.Ok X b.2) (fun _ _ _ h hstep => hstep.ok h)
    (Workers.ok_start X cfg now clk)
  refine ⟨hok.raw.ids,
    fun id hid => ?_, fun r hr id hid => ?_, fun now done todo ht id hid => ?_, fun id hid => ?_⟩
  · obtain ⟨seg, hseg, rfl⟩ := mem_map.1 (hok.raw.known_of_listed hid)
    rw [hok.raw.file_of_listed hseg hid]
    rfl
  · exact hok.raw.retired id (hok.raw.replaced r hr id hid)
  · exact hok.raw.retired id (hok.ticks _ ht id hid)
  · rw [countP_mem_of_nodup_flatten hok.raw.once]
    by_cases hmerged : id ∈ j.merged.flatten
    · exact .inr ⟨hok.raw.retired id hmerged, count_eq_one_of_mem hok.raw.once hmerged⟩
    · obtain ⟨seg, hseg, rfl⟩ := mem_map.1 (hok.raw.flushed id hid)
      exact .inl ⟨(hok.raw.kept seg hseg).resolve_right hmerged, count_eq_zero.2 hmerged⟩

/-! ### A run with a compaction and a sweep -/

/-- The flusher draws names that begin with a letter; no scan is made. -/
def Work.DrawsTagged : Work → Prop
  | .act (.take uuid) => ∃ c, uuid = taggedUuid c
  | _ => True

/-- A check that the names are new: no name of a raw segment begins with that letter. -/
def Work.checkFresh (w : Workers) (j : Journal) : Work → Bool
  | .act (.take uuid) => (w.names j).all fun id => id.toList[4]? ≠ (uuid 0).toList[0]?
  | .compaction _ uuid => compactedSegmentId uuid ∉ w.names j
  | _ => true

theorem Work.fresh_of_check {w : Workers} (hdraws : l.DrawsTagged)
    (hcheck : l.checkFresh w j) : l.Fresh w j := by
  cases l with
  | act a =>
    cases a with
    | take uuid =>
      obtain ⟨c, rfl⟩ := hdraws
      refine ⟨fun b hb => ?_, fun n m h => ?_⟩
      · have hne := all_eq_true.1 hcheck _ hb
        simp [rawSegmentId, taggedUuid] at hne
      · exact taggedUuid_injective c h
    | _ => trivial
  | compactionStart now => trivial
  | compaction i uuid =>
    have hnew : compactedSegmentId uuid ∉ w.names j := of_decide_eq_true hcheck
    exact hnew

/-- A step whose names are checked to be new. -/
def Workers.checkedNext (X : Extern) (cfg : Config) (a : Workers × Journal) (l : Work) :
    Option (Workers × Journal) :=
  if l.checkFresh a.1 a.2 then (a.1.next X cfg l).map fun w => (w, a.1.record X a.2 l) else none

theorem Workers.step_of_checkedNext (hdraws : l.DrawsTagged)
    (h : Workers.checkedNext X cfg a l = some b) : WorkersStep X cfg a l b := by
  rw [Workers.checkedNext] at h
  split at h
  · rename_i hcheck
    obtain ⟨w', hnext, rfl⟩ := Option.map_eq_some_iff.1 h
    exact ⟨Work.fresh_of_check hdraws hcheck, hnext, rfl⟩
  · cases h

theorem Workers.run_checkedNext {ls : List Work} (hdraws : ∀ l ∈ ls, l.DrawsTagged)
    (h : runAll (Workers.checkedNext X cfg) a ls = some b) : Run (WorkersStep X cfg) a ls b := by
  refine Run.of_runAll (fun l hl a b hnext => ?_) h
  exact Workers.step_of_checkedNext (hdraws l hl) hnext

/-- A request of one event, whose batch is flushed under names with this letter. -/
def flushOne (id : String) (c : Char) : List Work :=
  [.ingest 9000000 sampleClock [sampleEvent id "acme" 7200000 5], .send 0, .respond 0,
    .take (taggedUuid c), .write, .write, .commit, .delete, .delete].map .act

/-- Two flushes, a tick that merges their segments while a third is flushed, and a tick that
sweeps the inputs. -/
def mergeAndSweep : List Work :=
  flushOne "a" 'p' ++ flushOne "b" 'q' ++ [.compactionStart 9000000] ++
    List.replicate 3 (.compaction 0 "") ++
    flushOne "c" 'r' ++ [.compaction 0 "", .compaction 0 "m"] ++ List.replicate 4 (.compaction 0 "") ++
    [.compactionStart 9000000] ++ List.replicate 3 (.compaction 0 "")

/-- The first two segments have been merged and their files are gone; the third is listed. -/
theorem compaction_safe_of_merge :
    ∃ w j, Run (WorkersStep .sample tinyConfig)
        (.start .sample tinyConfig 8000000 fun _ => 8000000, .empty) mergeAndSweep (w, j) ∧
      j.flushed = ["raw_px", "raw_qx", "raw_rx"] ∧ j.merged = [["raw_px", "raw_qx"]] ∧
      w.machine.state.mem.manifest.rawIds = ["raw_rx", "compacted_m"] ∧
      w.machine.state.disk.seg "raw_px" = none ∧
      ∀ id ∈ j.flushed, (id ∈ w.machine.state.mem.manifest.rawIds ∧ j.merged.countP (id ∈ ·) = 0) ∨
        (id ∉ w.machine.state.mem.manifest.rawIds ∧ j.merged.countP (id ∈ ·) = 1) := by
  have heval : (runAll (Workers.checkedNext .sample tinyConfig)
      (.start .sample tinyConfig 8000000 fun _ => 8000000, .empty) mergeAndSweep).any (fun b =>
        b.2.flushed = ["raw_px", "raw_qx", "raw_rx"] ∧ b.2.merged = [["raw_px", "raw_qx"]] ∧
        b.1.machine.state.mem.manifest.rawIds = ["raw_rx", "compacted_m"] ∧
        b.1.machine.state.disk.seg "raw_px" = none) := by decide +kernel
  obtain ⟨⟨w, j⟩, hall, hview⟩ := (Option.any_eq_true _ _).1 heval
  obtain ⟨hflushed, hmerged, hids, hgone⟩ := of_decide_eq_true hview
  have hdraws : ∀ l ∈ mergeAndSweep, l.DrawsTagged := by
    simp [mergeAndSweep, flushOne, Work.DrawsTagged]
  have hrun := Workers.run_checkedNext hdraws hall
  obtain ⟨-, -, -, -, hsafe⟩ := compaction_safe hrun
  exact ⟨w, j, hrun, hflushed, hmerged, hids, hgone, hsafe⟩

end UsageDb
