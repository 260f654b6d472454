import UsageDb.Concurrent.Accounting

/-!
# The grace window of a replaced segment

A compaction that is committed takes its inputs off the list of raw segments; a query that has
read the list before still opens their files. A later tick deletes the files when the time in the
replacement record is a grace window ago. That time is the one at which the tick of the compaction
started, and the commit comes after its plans have been read, merged and written.

Here the run of `Concurrent.Workers` has a clock. Every step is made at a time, times never go
back, and a tick that starts is given the time of that step. `reader_grace` says that files are
kept for the whole window after a commit if every commit is made at the time at which its tick
started. If a commit is made later the window is shorter by that much (`Timed.Ok.deleted`).
-/

namespace UsageDb

open Lib List

variable {id : String} {w : Workers}

/-- The server with a clock. -/
structure Timed where
  /-- The parties. -/
  workers : Workers
  /-- What has happened. -/
  journal : Journal
  /-- The time of the last step. -/
  clock : ℤ
  /-- The segments that were taken off the list, with the time. No party reads this. -/
  removed : List (String × ℤ)

namespace Timed

/-- The shared state. -/
def state (a : Timed) : State := a.workers.machine.state

/-- The server as it has just started on an empty disk. -/
def start (X : Extern) (cfg : Config) (now : ℤ) (clk : ℕ → ℤ) : Timed :=
  ⟨.start X cfg now clk, .empty, now, []⟩

/-- A step is not late if it does not commit a compaction, or does so no more than `slack` after
the tick has started. -/
def Punctual (slack : ℤ) (a : Timed) (l : ℤ × Work) : Prop :=
  ∀ i uuid now plan plans seg, l.2 = .compaction i uuid →
    a.workers.ticks[i]? = some (.writing now plan plans seg []) →
    a.state.mem.manifest.stillPresent plan → l.1 ≤ now + slack

end Timed

/-- The segments that are on one list and not on another, with a time. -/
def removedBetween (m m' : Manifest) (t : ℤ) : List (String × ℤ) :=
  (m.rawIds.filter (· ∉ m'.rawIds)).map (·, t)

/-- A step at a time. -/
structure TimedStep (X : Extern) (cfg : Config) (a : Timed) (l : ℤ × Work) (b : Timed) : Prop where
  /-- The step is taken. -/
  step : WorkersStep X cfg (a.workers, a.journal) l.2 (b.workers, b.journal)
  /-- Time does not go back. -/
  forward : a.clock ≤ l.1
  /-- A tick is given the time at which it starts. -/
  now : ∀ t, l.2 = .compactionStart t → t = l.1
  /-- The clock is at the time of the step. -/
  clock : b.clock = l.1
  /-- What is taken off the list is written down. -/
  removed : b.removed = a.removed ++ removedBetween a.state.mem.manifest b.state.mem.manifest l.1

/-- What is left to sweep has been off the list for the window, up to `slack`. -/
def CompactionPhase.Waited (cfg : Config) (slack : ℤ) (a : Timed) : CompactionPhase → Prop
  | .sweeping now _ todo => now ≤ a.clock ∧
      ∀ id ∈ todo, ∀ c, (id, c) ∈ a.removed → c + cfg.compactionGraceMs ≤ now + slack
  | _ => True

/-- What holds in every run whose commits are not late. -/
structure Timed.Ok (X : Extern) (cfg : Config) (slack : ℤ) (a : Timed) : Prop where
  /-- The parties are in order. -/
  workers : a.workers.Ok X a.journal
  /-- What was taken off the list was merged. -/
  merged : ∀ x ∈ a.removed, x.1 ∈ a.journal.merged.flatten
  /-- Its record has the time, up to `slack`. -/
  records : ∀ r ∈ a.state.mem.manifest.compactedReplacements, ∀ id ∈ r.oldSegments, ∀ c,
    (id, c) ∈ a.removed → c ≤ r.committedAtMs + slack
  /-- What is swept has waited. -/
  ticks : ∀ t ∈ a.workers.ticks, t.Waited cfg slack a

variable {X : Extern} {cfg : Config} {slack : ℤ} {a b : Timed} {l : ℤ × Work}

/-- A segment that was merged is not taken off the list again. -/
theorem Timed.Ok.removed_of_merged (h : a.Ok X cfg slack) (hstep : TimedStep X cfg a l b) {c : ℤ}
    (hid : id ∈ a.journal.merged.flatten) (hc : (id, c) ∈ b.removed) : (id, c) ∈ a.removed := by
  rw [hstep.removed] at hc
  refine (mem_append.1 hc).resolve_right fun hnew => ?_
  obtain ⟨id', hid', heq⟩ := mem_map.1 hnew
  cases heq
  exact h.workers.raw.retired _ hid (mem_of_mem_filter hid')

/-- What a step does to the replacement records. -/
theorem Workers.replacements_cases {w' : Workers} {l : Work} (hnext : w.next X cfg l = some w') :
    (∀ r ∈ w'.machine.state.mem.manifest.compactedReplacements,
        r ∈ w.machine.state.mem.manifest.compactedReplacements) ∨
      ∃ i uuid now plan plans seg, l = .compaction i uuid ∧
      w.ticks[i]? = some (.writing now plan plans seg []) ∧
        w.machine.state.mem.manifest.stillPresent plan ∧
        w'.machine.state.mem.manifest.compactedReplacements =
          w.machine.state.mem.manifest.compactedReplacements ++
            [⟨plan.segmentIds, [seg.1.segmentId], now⟩] := by
  cases l with
  | act a =>
    obtain ⟨m', hm, rfl⟩ := Option.map_eq_some_iff.1 hnext
    refine .inl fun r hr => ?_
    cases Machine.rawStep hm with
    | same _ hsame _ => exact hsame.replaced ▸ hr
    | take _ hsame _ => exact hsame.replaced ▸ hr
    | commit _ _ _ _ hrep _ => exact hrep ▸ hr
    | write _ _ hstate =>
      rw [hstate] at hr
      exact hr
  | compactionStart now =>
    cases hnext
    exact .inl fun r hr => hr
  | compaction i uuid =>
    obtain ⟨t, l, r, ht, -, rfl⟩ := Workers.next_compaction hnext
    cases t with
    | sweeping now done todo =>
      cases todo with
      | nil => exact .inl fun r hr => mem_of_mem_filter hr
      | cons id todo => exact .inl fun r hr => hr
    | planning now => exact .inl fun r hr => hr
    | running now plans => cases plans <;> exact .inl fun r hr => hr
    | reading now plan plans todo got => cases todo <;> exact .inl fun r hr => hr
    | writing now plan plans seg todo =>
      cases todo with
      | nil =>
        by_cases hpresent : w.machine.state.mem.manifest.stillPresent plan
        · refine .inr ⟨i, uuid, now, plan, plans, seg, rfl, ht, hpresent, ?_⟩
          simp only [CompactionPhase.next, if_pos hpresent]
          rfl
        · refine .inl fun r hr => ?_
          simp only [CompactionPhase.next, if_neg hpresent] at hr
          exact hr
      | cons x todo => exact .inl fun r hr => hr

/-- A tick that sweeps has swept before. -/
theorem CompactionPhase.sweeping_of_next {t : CompactionPhase} {uuid : String} {s : State} {now : ℤ}
    {done : List ReplacementRecord} {todo : List String}
    (h : (t.next X cfg uuid s).2 = some (.sweeping now done todo)) :
    ∃ todo', t = .sweeping now done todo' ∧ ∀ id ∈ todo, id ∈ todo' := by
  cases t with
  | sweeping now' done' todo' =>
    cases todo' with
    | nil => cases h
    | cons id todo' =>
      obtain ⟨rfl, rfl, rfl⟩ := CompactionPhase.sweeping.inj (Option.some.inj h)
      exact ⟨_, rfl, fun id' hid' => mem_cons_of_mem _ hid'⟩
  | planning now => cases h
  | running now plans => cases plans <;> cases h
  | reading now plan plans todo got =>
    cases todo with
    | nil =>
      simp only [CompactionPhase.next] at h
      split at h <;> cases h
    | cons id todo => cases h
  | writing now plan plans seg todo =>
    cases todo with
    | nil =>
      simp only [CompactionPhase.next] at h
      split at h <;> cases h
    | cons x todo => cases h

/-- Where a tick that sweeps comes from. -/
theorem Workers.sweeping_cases {w' : Workers} {l : Work} (hnext : w.next X cfg l = some w') {now : ℤ}
    {done : List ReplacementRecord} {todo : List String} (ht : .sweeping now done todo ∈ w'.ticks) :
    (∃ todo', .sweeping now done todo' ∈ w.ticks ∧ ∀ id ∈ todo, id ∈ todo') ∨
      l = .compactionStart now ∧ todo = done.flatMap (·.oldSegments) ∧
        done = w.machine.state.mem.manifest.toFinalize cfg.compactionGraceMs now := by
  cases l with
  | act a =>
    obtain ⟨m', -, rfl⟩ := Option.map_eq_some_iff.1 hnext
    exact .inl ⟨todo, ht, fun id hid => hid⟩
  | compactionStart t =>
    cases hnext
    rcases mem_append.1 ht with ht | ht
    · exact .inl ⟨todo, ht, fun id hid => hid⟩
    · rw [mem_singleton, CompactionPhase.start] at ht
      split at ht
      · cases ht
      · cases ht
        exact .inr ⟨rfl, rfl, rfl⟩
  | compaction i uuid =>
    obtain ⟨t, l, r, -, hticks, rfl⟩ := Workers.next_compaction hnext
    rcases mem_append.1 ht with hl | hrest
    · exact .inl ⟨todo, by simp [hticks, hl], fun id hid => hid⟩
    rcases mem_append.1 hrest with hnew | hr
    · obtain ⟨todo', rfl, hsub⟩ := CompactionPhase.sweeping_of_next (Option.mem_toList.1 hnew)
      exact .inl ⟨todo', by simp [hticks], hsub⟩
    · exact .inl ⟨todo, by simp [hticks, hr], fun id hid => hid⟩

theorem Workers.sweeping_of_sweeps {l : Work} (h : w.sweeps l = some id) :
    ∃ now done todo, .sweeping now done (id :: todo) ∈ w.ticks := by
  cases l with
  | act a => cases h
  | compactionStart now => cases h
  | compaction i uuid =>
    rw [Workers.sweeps] at h
    split at h
    · rename_i now done id' todo ht
      cases h
      exact ⟨now, done, todo, mem_of_getElem? ht⟩
    · cases h

/-- **A step keeps it, if it does not commit late.** -/
theorem Timed.Ok.step (h : a.Ok X cfg slack) (hstep : TimedStep X cfg a l b)
    (hpunctual : a.Punctual slack l) :
    b.Ok X cfg slack := by
  have hok' : b.workers.Ok X b.journal := hstep.step.ok h.workers
  have hjournal : b.journal = a.workers.record X a.journal l.2 := hstep.step.journal
  have hmerged : ∀ id ∈ a.journal.merged.flatten, id ∈ b.journal.merged.flatten := by
    intro id hid
    obtain ⟨-, -, new, hnew⟩ := Workers.record_grows (X := X) (w := a.workers) (j := a.journal) l.2
    rw [hjournal, hnew, flatten_append]
    exact mem_append_left _ hid
  refine ⟨hok', fun x hx => ?_, fun r hr id hid c hc => ?_, fun t ht => ?_⟩
  · rw [hstep.removed] at hx
    rcases mem_append.1 hx with hold | hnew
    · exact hmerged x.1 (h.merged x hold)
    · obtain ⟨id, hid, rfl⟩ := mem_map.1 hnew
      obtain ⟨hlisted, hgone⟩ := mem_filter.1 hid
      -- it was listed, so it is on the list still or was merged
      obtain ⟨⟨new, hnew⟩, -⟩ := Workers.record_grows (X := X) (w := a.workers) (j := a.journal) l.2
      obtain ⟨seg, hseg, hname⟩ := mem_map.1 (h.workers.raw.known_of_listed hlisted)
      have hkept := hok'.raw.kept seg (by rw [hjournal, hnew]; exact mem_append_left _ hseg)
      rw [hname] at hkept
      exact hkept.resolve_left (of_decide_eq_true hgone)
  · rcases Workers.replacements_cases hstep.step.next with hsub | ⟨i, uuid, now, plan, plans, seg,
      hl, ht, hpresent, hrep⟩
    · have hr := hsub r hr
      exact h.records r hr id hid c (h.removed_of_merged hstep (h.workers.raw.replaced r hr id hid) hc)
    · rw [Timed.state, hrep] at hr
      rcases mem_append.1 hr with hr | hr
      · exact h.records r hr id hid c (h.removed_of_merged hstep (h.workers.raw.replaced r
          hr id hid) hc)
      · rw [mem_singleton.1 hr] at hid ⊢
        rw [hstep.removed] at hc
        rcases mem_append.1 hc with hold | hnew
        · have hlisted := planListed_of_stillPresent h.workers.raw.ids hpresent id hid
          exact absurd hlisted (h.workers.raw.retired id (h.merged _ hold))
        · obtain ⟨id', -, heq⟩ := mem_map.1 hnew
          cases heq
          exact hpunctual i uuid now plan plans seg hl ht hpresent
  · cases t with
    | sweeping now done todo =>
      rcases Workers.sweeping_cases hstep.step.next ht with ⟨todo', ht', hsub⟩ | ⟨hl, rfl, rfl⟩
      · obtain ⟨hnow, hwaited⟩ := h.ticks _ ht'
        refine ⟨hnow.trans (hstep.forward.trans hstep.clock.ge), fun id hid c hc => ?_⟩
        exact hwaited id (hsub id hid) c (h.removed_of_merged hstep (h.workers.ticks _ ht' id
          (hsub id hid)) hc)
      · obtain rfl := hstep.now now hl
        refine ⟨hstep.clock.ge, fun id hid c hc => ?_⟩
        obtain ⟨r, hr, hid⟩ := mem_flatMap.1 hid
        obtain ⟨hrecord, hage⟩ := mem_filter.1 hr
        have hold := h.removed_of_merged hstep (h.workers.raw.replaced r hrecord id hid) hc
        have hc := h.records r hrecord id hid c hold
        simp only [Bool.and_eq_true, decide_eq_true_eq] at hage
        omega
    | planning | running | reading | writing => trivial

/-- **A file is deleted when the window is over**, up to `slack`. -/
theorem Timed.Ok.deleted (h : a.Ok X cfg slack) (hstep : TimedStep X cfg a l b) {c : ℤ}
    (hremoved : (id, c) ∈ a.removed) (hthere : (a.state.disk.seg id).isSome)
    (hgone : b.state.disk.seg id = none) :
    c + cfg.compactionGraceMs ≤ l.1 + slack := by
  have hknown := h.workers.raw.known id (h.merged _ hremoved)
  rcases h.workers.file_stays hstep.step.next hknown with hsame | hsweep
  · rw [← Timed.state, ← Timed.state, hgone] at hsame
    rw [← hsame] at hthere
    cases hthere
  · obtain ⟨now, done, todo, ht⟩ := Workers.sweeping_of_sweeps hsweep
    obtain ⟨hnow, hwaited⟩ := h.ticks _ ht
    have hc := hwaited id mem_cons_self c hremoved
    have hforward := hstep.forward
    omega

theorem Timed.ok_start (X : Extern) (cfg : Config) (slack now : ℤ) (clk : ℕ → ℤ) :
    (Timed.start X cfg now clk).Ok X cfg slack := by
  refine ⟨Workers.ok_start X cfg now clk,
    fun x hx => absurd hx not_mem_nil, fun r _ id _ c hc => ?_, fun t ht => ?_⟩
  · exact absurd hc not_mem_nil
  · exact absurd ht not_mem_nil

/-- **Reader grace.** In every run in which every compaction is committed at the time at which its
tick started, a file whose segment was taken off the list at time `c` is deleted only at `c +
grace_ms` or later. -/
theorem reader_grace {now : ℤ} {clk : ℕ → ℤ} {ls : List (ℤ × Work)}
    (hrun : Run (fun a l b => TimedStep X cfg a l b ∧ a.Punctual 0 l) (.start X cfg now clk) ls a)
    (hstep : TimedStep X cfg a l b) {c : ℤ} (hremoved : (id, c) ∈ a.removed)
    (hthere : (a.state.disk.seg id).isSome) (hgone : b.state.disk.seg id = none) :
    c + cfg.compactionGraceMs ≤ l.1 := by
  have hok : a.Ok X cfg 0 :=
    hrun.invariant (fun _ _ _ h hstep => h.step hstep.1 hstep.2) (Timed.ok_start X cfg 0 now clk)
  have hdeleted := hok.deleted hstep hremoved hthere hgone
  omega

/-! ### A merge and a sweep, on the clock -/

/-- A check that a tick is given the time at which it starts. -/
def Work.checkTime (t : ℤ) : Work → Bool
  | .compactionStart t' => t' = t
  | _ => true

/-- A step at a time, with checks. -/
def Timed.checkedNext (X : Extern) (cfg : Config) (a : Timed) (l : ℤ × Work) : Option Timed :=
  if a.clock ≤ l.1 && l.2.checkTime l.1 then
    (Workers.checkedNext X cfg (a.workers, a.journal) l.2).map fun b =>
      ⟨b.1, b.2, l.1,
        a.removed ++ removedBetween a.state.mem.manifest b.1.machine.state.mem.manifest l.1⟩
  else none

theorem Timed.step_of_checkedNext (hdraws : l.2.DrawsTagged)
    (h : Timed.checkedNext X cfg a l = some b) :
    TimedStep X cfg a l b := by
  rw [Timed.checkedNext] at h
  split at h
  · rename_i hcheck
    obtain ⟨c, hnext, rfl⟩ := Option.map_eq_some_iff.1 h
    rw [Bool.and_eq_true, decide_eq_true_eq] at hcheck
    refine ⟨Workers.step_of_checkedNext hdraws hnext, hcheck.1, fun t ht => ?_, rfl, rfl⟩
    have htimely := hcheck.2
    rw [ht] at htimely
    exact of_decide_eq_true htimely
  · cases h

/-- A check that a commit is not late. -/
def Timed.checkPunctual (slack : ℤ) (a : Timed) (l : ℤ × Work) : Bool :=
  match l.2 with
  | .compaction i _ =>
    match a.workers.ticks[i]? with
    | some (.writing now plan _ _ []) => !a.state.mem.manifest.stillPresent plan || l.1 ≤ now + slack
    | _ => true
  | _ => true

theorem Timed.punctual_of_check (h : a.checkPunctual slack l) : a.Punctual slack l := by
  intro i uuid now plan plans seg hl ht hpresent
  rw [Timed.checkPunctual, hl] at h
  simp only [ht, hpresent, Bool.not_true, Bool.false_or, decide_eq_true_eq] at h
  exact h

/-- A grace window of 100 ms. -/
def graceConfig : Config := { tinyConfig with compactionGraceMs := 100 }

/-- Two flushes and a tick that merges their segments, at time 9000000 but for its commit; and a
tick that starts later. -/
def timedMerge (commitAt sweepAt : ℤ) : List (ℤ × Work) :=
  let before : List Work := flushOne "a" 'p' ++ flushOne "b" 'q' ++ [.compactionStart 9000000] ++
    List.replicate 4 (.compaction 0 "") ++ .compaction 0 "m" :: List.replicate 2 (.compaction 0 "")
  before.map (9000000, ·) ++ [(commitAt, .compaction 0 ""), (commitAt, .compaction 0 ""),
    (sweepAt, .compactionStart sweepAt)]

/-- A tick that merges is run, with a check of its steps, and a file is gone after the next one. -/
theorem exists_timedMerge (commitAt : ℤ) {f : Timed → ℤ × Work → Bool} {P : Timed → ℤ × Work → Prop}
    (hP : ∀ a l, f a l → P a l)
    (heval : (runAll (fun a l => if f a l then Timed.checkedNext .sample graceConfig a l else none)
      (.start .sample graceConfig 8000000 fun _ => 8000000) (timedMerge commitAt 9000100)).any (fun a =>
        ("raw_px", commitAt) ∈ a.removed ∧ (a.state.disk.seg "raw_px").isSome ∧
          (Timed.checkedNext .sample graceConfig a (9000100, .compaction 0 "")).any fun b =>
            b.state.disk.seg "raw_px" = none)) :
    ∃ a b, Run (fun a l b => TimedStep .sample graceConfig a l b ∧ P a l)
        (.start .sample graceConfig 8000000 fun _ => 8000000) (timedMerge commitAt 9000100) a ∧
      TimedStep .sample graceConfig a (9000100, .compaction 0 "") b ∧ ("raw_px", commitAt) ∈ a.removed ∧
      (a.state.disk.seg "raw_px").isSome ∧ b.state.disk.seg "raw_px" = none := by
  obtain ⟨a, hall, hview⟩ := (Option.any_eq_true _ _).1 heval
  obtain ⟨hremoved, hthere, hnext⟩ := of_decide_eq_true hview
  obtain ⟨b, hb, hgone⟩ := (Option.any_eq_true _ _).1 hnext
  have hdraws : ∀ l ∈ timedMerge commitAt 9000100, l.2.DrawsTagged := by
    simp [timedMerge, flushOne, Work.DrawsTagged]
  refine ⟨a, b, Run.of_runAll (fun l hl a b hnext => ?_) hall,
    Timed.step_of_checkedNext (l := (9000100, .compaction 0 "")) trivial hb, hremoved, hthere,
      of_decide_eq_true hgone⟩
  split at hnext
  · exact ⟨Timed.step_of_checkedNext (hdraws l hl) hnext, hP a l ‹_›⟩
  · cases hnext

/-- The commit is on time, and the file is deleted when the window is over. -/
theorem reader_grace_of_commit_on_time :
    ∃ a b, Run (fun a l b => TimedStep .sample graceConfig a l b ∧ a.Punctual 0 l)
        (.start .sample graceConfig 8000000 fun _ => 8000000) (timedMerge 9000000 9000100) a ∧
      TimedStep .sample graceConfig a (9000100, .compaction 0 "") b ∧ ("raw_px", 9000000) ∈ a.removed ∧
      (a.state.disk.seg "raw_px").isSome ∧ b.state.disk.seg "raw_px" = none ∧
      9000000 + graceConfig.compactionGraceMs ≤ 9000100 := by
  obtain ⟨a, b, hrun, hstep, hremoved, hthere, hgone⟩ :=
    exists_timedMerge 9000000 (f := Timed.checkPunctual 0)
    (fun _ _ => Timed.punctual_of_check) (by decide +kernel)
  exact ⟨a, b, hrun, hstep, hremoved, hthere, hgone, reader_grace hrun hstep hremoved hthere hgone⟩

/-- The commit is 50 ms late, and the file is deleted 50 ms after it. -/
theorem file_deleted_within_grace :
    ∃ a b, Run (TimedStep .sample graceConfig) (.start .sample graceConfig 8000000 fun _ => 8000000)
        (timedMerge 9000050 9000100) a ∧
      TimedStep .sample graceConfig a (9000100, .compaction 0 "") b ∧ ("raw_px", 9000050) ∈ a.removed ∧
      (a.state.disk.seg "raw_px").isSome ∧ b.state.disk.seg "raw_px" = none ∧
      ¬ 9000050 + graceConfig.compactionGraceMs ≤ 9000100 := by
  obtain ⟨a, b, hrun, hstep, hremoved, hthere, hgone⟩ :=
    exists_timedMerge 9000050 (f := fun _ _ => true)
    (P := fun _ _ => True) (fun _ _ _ => trivial) (by decide +kernel)
  exact ⟨a, b, hrun.mono fun _ _ _ h => h.1, hstep, hremoved, hthere, hgone, by decide⟩

end UsageDb
