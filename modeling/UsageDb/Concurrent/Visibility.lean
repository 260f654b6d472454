import UsageDb.Concurrent.Accounting
import UsageDb.Query.Pruning

/-!
# What a query sees

A query over raw events reads the manifest, then the files of the segments it lists, then the
memtable, and holds no lock in between (`collect_raw_events`). An event that has been drained from
the memtable and not yet been listed is in neither: `acked_event_not_collected` is a query that
misses an event whose acceptance was answered before it started.

`acked_collected_once` says when that does not happen. The events that are *due* to a query are
those answered before its start that match the plan. They are collected exactly once if, at its
start, none of them is in a batch under way, and if until its end the memtable is not drained of
one of them and no file with one of them is swept before the query has read it.
-/

namespace UsageDb

open Lib List

variable {e : UsageEvent}

/-- A query over raw events. -/
structure RawQuery where
  plan : QueryPlan
  /-- The events that had been answered when it started and match the plan; it does not read
  them. -/
  due : List UsageEvent
  /-- The segments that are left to read. -/
  todo : List String
  /-- What it has collected. -/
  got : List UsageEvent
  /-- Whether it has read the memtable. -/
  finished : Bool

namespace RawQuery

/-- The manifest is read. -/
def start (X : Extern) (plan : QueryPlan) (m : Machine) : RawQuery where
  plan := plan
  due := m.acked.filter (matchesPlan plan)
  todo := (m.state.mem.manifest.rawSegments.filter fun seg =>
    segmentOverlapsPlan X seg plan plan.fromMs plan.toMs m.state.mem.manifest.buckets).map (·.segmentId)
  got := []
  finished := false

/-- The next file is read; a missing one is passed over. After the last one, the memtable is. -/
def next (s : State) (q : RawQuery) : Option RawQuery :=
  if q.finished then none
  else
    some (match q.todo with
      | id :: todo =>
        { q with
          todo := todo
          got := q.got ++ ((s.disk.seg id).getD []).filter (inRange q.plan.fromMs q.plan.toMs) }
      | [] =>
        { q with
          got := q.got ++ s.mem.memtable.events.filter (inRange q.plan.fromMs q.plan.toMs)
          finished := true })

end RawQuery

/-- The server with queries. -/
structure Readers where
  /-- All other parties. -/
  workers : Workers
  /-- The queries, those that are over too. -/
  queries : List RawQuery

/-- What happens next. -/
inductive ReadAction where
  /-- One of the other parties takes a step. -/
  | work (l : Work)
  | queryStart (plan : QueryPlan)
  /-- The `i`-th query takes a step. -/
  | query (i : ℕ)

namespace Readers

variable (X : Extern) (cfg : Config)

/-- One step. -/
def next (r : Readers) : ReadAction → Option Readers
  | .work l => (r.workers.next X cfg l).map fun w => { r with workers := w }
  | .queryStart plan => some { r with queries := r.queries ++ [.start X plan r.workers.machine] }
  | .query i => (r.queries[i]?.bind fun q => q.next r.workers.machine.state).map fun q =>
      { r with queries := r.queries.set i q }

/-- What a step adds to the journal. -/
def record (r : Readers) (j : Journal) : ReadAction → Journal
  | .work l => r.workers.record X j l
  | _ => j

end Readers

/-- A step, with the journal. -/
structure ReadersStep (X : Extern) (cfg : Config) (a : Readers × Journal) (l : ReadAction)
    (b : Readers × Journal) :
    Prop where
  /-- The names are new. -/
  fresh : ∀ l', l = .work l' → l'.Fresh a.1.workers a.2
  /-- The step is taken. -/
  next : a.1.next X cfg l = some b.1
  /-- It is written down. -/
  journal : b.2 = a.1.record X a.2 l

/-- Whether a step drains the memtable. -/
def Workers.drains (X : Extern) (cfg : Config) (w : Workers) : Work → Bool
  | .act a => a.drains X cfg w.machine
  | _ => false

/-- A step leaves what is due to a query in its reach: it is not drained from the memtable, and
not swept with a file that is left to read. -/
structure RawQuery.SparedBy (X : Extern) (cfg : Config) (w : Workers) (q : RawQuery) (l : Work) :
    Prop where
  memtable : w.drains X cfg l → ∀ e ∈ q.due, e ∉ w.machine.state.mem.memtable.events
  files : ∀ id ∈ w.sweeps l, id ∈ q.todo → ∀ e ∈ q.due, e ∉ (w.machine.state.disk.seg id).getD []

/-- Nothing that is due to a query is under way when it starts, and as long as it runs all steps
leave it in reach. -/
def Readers.Spares (X : Extern) (cfg : Config) (r : Readers) : ReadAction → Prop
  | .work l => ∀ q ∈ r.queries, q.finished = false → q.SparedBy X cfg r.workers l
  | .queryStart plan => ∀ e ∈ r.workers.machine.acked, matchesPlan plan e →
      e ∉ r.workers.machine.inFlight
  | .query _ => True

variable {X : Extern} {cfg : Config}

/-! ### What the other parties leave alone -/

section Steps

variable {w w' : Workers} {j : Journal}

theorem DistinctIds.nodup {c : Multiset UsageEvent} (h : DistinctIds c) : c.Nodup :=
  Multiset.Nodup.of_map _ h

theorem DistinctIds.not_mem_right {c c' : Multiset UsageEvent} (h : DistinctIds (c + c')) (he : e ∈ c) :
    e ∉ c' :=
  fun he' => Multiset.disjoint_left.1 (Multiset.nodup_add.1 h.nodup).2.2 he he'

/-- An event that was accepted stays in the memtable, unless it is drained. -/
theorem Workers.memtable_stays {l : Work} (hnext : w.next X cfg l = some w') (he : e ∈ j.book)
    (hc : DistinctIds (w.record X j l).book)
    (hdrain : w.drains X cfg l → e ∉ w.machine.state.mem.memtable.events) :
    w'.machine.state.mem.memtable.events.count e = w.machine.state.mem.memtable.events.count e := by
  cases l with
  | act a =>
    obtain ⟨m', hm, rfl⟩ := Option.map_eq_some_iff.1 hnext
    cases Machine.moveStep hm with
    | insert hquiet _ hmem _ _ =>
      rw [record_of_quiet hquiet] at hc
      rw [hmem, count_append, count_eq_zero_of_not_mem (hc.not_mem_right he), Nat.add_zero]
    | drain _ hdrains _ hmem _ _ =>
      rw [hmem, count_nil, count_eq_zero_of_not_mem (hdrain hdrains)]
    | take _ hmem _ _ => rw [hmem]
    | commit _ hmem _ _ => rw [hmem]
  | compactionStart now =>
    cases hnext
    rfl
  | compaction i uuid =>
    obtain ⟨-, hmem, -⟩ := Workers.compaction_cases (j := j) hnext
    rw [hmem]

end Steps

/-! ### Queries -/

/-- How often a query is still to find an event. -/
def RawQuery.left (s : State) (j : Journal) (q : RawQuery) (e : UsageEvent) : ℕ :=
  if q.finished then 0 else (q.todo.flatMap j.rowsOf).count e + s.mem.memtable.events.count e

/-- What holds of a query. -/
structure RawQuery.Ok (s : State) (j : Journal) (q : RawQuery) : Prop where
  /-- What is due to it was accepted and matches its plan. -/
  due : ∀ e ∈ q.due, e ∈ j.book ∧ matchesPlan q.plan e
  /-- It reads segments that were listed. -/
  known : ∀ id ∈ q.todo, id ∈ segmentIds j.published
  /-- The files with events that are due to it are there. -/
  files : q.finished = false → ∀ id ∈ q.todo, ∀ e ∈ q.due, e ∈ j.rowsOf id →
    s.disk.seg id = some (j.rowsOf id)
  /-- It has found, or will find, each of them once. -/
  once : ∀ e ∈ q.due, q.got.count e + q.left s j e = 1

section Queries

variable {w w' : Workers} {j : Journal} {q q' : RawQuery}

/-- Skipping segments without an event does not change how often it is found. -/
theorem count_flatMap_filter {α : Type} {l : List α} {f : α → List UsageEvent} {p : α → Bool}
    (h : ∀ x ∈ l, e ∈ f x → p x) : ((l.filter p).flatMap f).count e = (l.flatMap f).count e := by
  induction l with
  | nil => rfl
  | cons x l ih =>
    have hrest := ih fun y hy => h y (mem_cons_of_mem _ hy)
    rw [flatMap_cons, count_append, ← hrest]
    cases hx : p x with
    | true => rw [filter_cons_of_pos hx, flatMap_cons, count_append]
    | false =>
      have hnot : e ∉ f x := fun hmem => by simp [h x mem_cons_self hmem] at hx
      rw [filter_cons_of_neg (by simp [hx]), count_eq_zero_of_not_mem hnot, Nat.zero_add]

/-- A query starts when nothing that is due to it is under way. -/
theorem RawQuery.ok_start (hok : w.Ok X j) (hcounted : w.Counted j) (hc : DistinctIds j.book)
    {plan : QueryPlan}
    (hspares : ∀ e ∈ w.machine.acked, matchesPlan plan e → e ∉ w.machine.inFlight) :
    (RawQuery.start X plan w.machine).Ok w.machine.state j := by
  have hdue : ∀ e ∈ w.machine.acked, e ∈ j.book := fun e he => hcounted.told e (mem_append_left _ he)
  have hlisted : ∀ id ∈ (RawQuery.start X plan w.machine).todo,
      id ∈ w.machine.state.mem.manifest.rawIds := fun id hid =>
    (filter_sublist.map _).subset hid
  refine ⟨fun e he => ?_, fun id hid => hok.raw.known_of_listed (hlisted id hid),
    fun _ id hid e _ _ => ?_, fun e he => ?_⟩
  · obtain ⟨hacked, hplan⟩ := mem_filter.1 he
    exact ⟨hdue e hacked, hplan⟩
  · obtain ⟨seg, hseg, rfl⟩ := mem_map.1 (hok.raw.known_of_listed (hlisted id hid))
    rw [Journal.rowsOf_of_mem hok.raw.nodup hseg]
    exact hok.raw.file_of_listed hseg (hlisted _ hid)
  · obtain ⟨hacked, hplan⟩ := mem_filter.1 he
    have hrange : inRange plan.fromMs plan.toMs e := by
      rw [matchesPlan, Bool.and_eq_true, Bool.and_eq_true] at hplan
      exact hplan.1.1
    -- of the listed segments, those without the event may be skipped
    have hskip : ((RawQuery.start X plan w.machine).todo.flatMap j.rowsOf).count e =
        (w.machine.state.disk.rawEvents w.machine.state.mem.manifest).count e := by
      rw [hok.raw.rawEvents_eq, Manifest.rawIds, RawQuery.start, flatMap_map, flatMap_map]
      refine count_flatMap_filter fun m hm hmem => ?_
      obtain ⟨rows, hrows⟩ := hok.raw.listed m hm
      have hsound := hok.raw.sound _ hrows
      rw [Journal.rowsOf_of_mem hok.raw.nodup hrows] at hmem
      exact segmentOverlapsPlan_of_mem hsound.metadata hmem (hsound.bucket e hmem) hplan hrange
    have hone : w.machine.everywhere.count e = 1 := by
      rw [hcounted.book hc]
      exact Multiset.count_eq_one_of_mem hc.nodup (hdue e hacked)
    rw [Machine.everywhere, Multiset.count_add, Multiset.count_add,
      Multiset.count_eq_zero_of_notMem (hspares e hacked hplan),
      Multiset.coe_count, Multiset.coe_count, Nat.zero_add] at hone
    rw [RawQuery.left, hskip]
    exact (Nat.zero_add _).trans hone

/-- Another party takes a step. -/
theorem RawQuery.Ok.work (h : q.Ok w.machine.state j) (hok : w.Ok X j) {l : Work}
    (hnext : w.next X cfg l = some w')
    (hc : DistinctIds (w.record X j l).book) (hspared : q.finished = false → q.SparedBy X cfg w l) :
    q.Ok w'.machine.state (w.record X j l) := by
  obtain ⟨⟨new, hpub⟩, ⟨more, hbook⟩, -⟩ := Workers.record_grows (X := X) (w := w) (j := j) l
  have hrows : ∀ id ∈ q.todo, (w.record X j l).rowsOf id = j.rowsOf id := fun id hid =>
    Journal.rowsOf_of_known ⟨new, hpub⟩ (h.known id hid)
  refine ⟨fun e he => ?_, fun id hid => ?_, fun hrunning id hid e he hmem => ?_, fun e he => ?_⟩
  · rw [hbook]
    exact ⟨Multiset.mem_add.2 (.inl (h.due e he).1), (h.due e he).2⟩
  · rw [hpub, segmentIds_append]
    exact mem_append_left _ (h.known id hid)
  · rw [hrows id hid] at hmem ⊢
    have hfile := h.files hrunning id hid e he hmem
    rcases hok.file_stays hnext (h.known id hid) with hsame | hsweep
    · rw [hsame]
      exact hfile
    · have hnot := (hspared hrunning).files id hsweep hid e he
      rw [hfile] at hnot
      exact absurd hmem hnot
  · rw [← h.once e he, RawQuery.left, RawQuery.left, flatMap_congr hrows]
    cases hfinished : q.finished with
    | true => rfl
    | false => rw [Workers.memtable_stays hnext (h.due e he).1 hc fun hdrain =>
      (hspared hfinished).memtable hdrain e he]

/-- The query takes a step. -/
theorem RawQuery.Ok.next {s : State} (h : q.Ok s j) (hraw : RawOk X s j)
    (hnext : q.next s = some q') : q'.Ok s j := by
  rw [RawQuery.next] at hnext
  split at hnext
  · cases hnext
  · rename_i hrunning
    rw [Bool.not_eq_true] at hrunning
    have hcount : ∀ {rows : List UsageEvent}, ∀ e ∈ q.due,
        (rows.filter (inRange q.plan.fromMs q.plan.toMs)).count e = rows.count e := by
      intro rows e he
      have hplan := (h.due e he).2
      rw [matchesPlan, Bool.and_eq_true, Bool.and_eq_true] at hplan
      exact count_filter hplan.1.1
    cases htodo : q.todo with
    | nil =>
      rw [htodo] at hnext
      cases hnext
      refine ⟨h.due, fun id hid => absurd hid not_mem_nil, fun hfalse => absurd hfalse (by simp),
        fun e he => ?_⟩
      have hone := h.once e he
      rw [RawQuery.left, hrunning, htodo] at hone
      rw [RawQuery.left, count_append, hcount e he]
      simpa using hone
    | cons id todo =>
      rw [htodo] at hnext
      cases hnext
      have hsub : ∀ id' ∈ todo, id' ∈ q.todo := fun id' hid' => by
        rw [htodo]
        exact mem_cons_of_mem _ hid'
      have hmem : id ∈ q.todo := by
        rw [htodo]
        exact mem_cons_self
      refine ⟨h.due, fun id' hid' => h.known id' (hsub id' hid'),
        fun _ id' hid' => h.files hrunning id' (hsub id' hid'), fun e he => ?_⟩
      have hfile : ((s.disk.seg id).getD []).count e = (j.rowsOf id).count e := by
        by_cases hin : e ∈ j.rowsOf id
        · rw [h.files hrunning id hmem e he hin]
          rfl
        · obtain ⟨seg, hseg, rfl⟩ := mem_map.1 (h.known id hmem)
          rw [Journal.rowsOf_of_mem hraw.nodup hseg] at hin ⊢
          rcases hraw.files seg hseg with hfile | hgone
          · rw [hfile]
            rfl
          · rw [hgone.1, count_eq_zero_of_not_mem hin]
            rfl
      have hone := h.once e he
      rw [RawQuery.left, hrunning, htodo, flatMap_cons, count_append] at hone
      simp only [RawQuery.left, hrunning, count_append, hcount e he, hfile]
      simpa [Nat.add_assoc] using hone

end Queries

/-! ### Every run -/

/-- The server as it has just started on an empty disk. -/
def Readers.start (X : Extern) (cfg : Config) (now : ℤ) (clk : ℕ → ℤ) : Readers :=
  ⟨.start X cfg now clk, []⟩

/-- The server with its queries is in order. -/
structure Readers.Ok (X : Extern) (r : Readers) (j : Journal) : Prop where
  /-- The other parties are. -/
  workers : r.workers.Ok X j
  /-- No event is lost or doubled. -/
  counted : r.workers.Counted j
  /-- The queries are, if no id was accepted twice. -/
  queries : DistinctIds j.book → ∀ q ∈ r.queries, q.Ok r.workers.machine.state j

theorem ReadersStep.ok {a b : Readers × Journal} {l : ReadAction} (h : a.1.Ok X a.2)
    (hstep : ReadersStep X cfg a l b) (hspares : a.1.Spares X cfg l) : b.1.Ok X b.2 := by
  obtain ⟨r, j⟩ := a
  obtain ⟨r', j'⟩ := b
  obtain ⟨hfresh, hnext, rfl⟩ := hstep
  dsimp only at *
  cases l with
  | work l =>
    obtain ⟨w', hw, rfl⟩ := Option.map_eq_some_iff.1 hnext
    have hworkers : WorkersStep X cfg (r.workers, j) l (w', r.workers.record X j l) :=
      ⟨hfresh l rfl, hw, rfl⟩
    refine ⟨hworkers.ok h.workers, hworkers.counted h.workers h.counted, fun hc q hq => ?_⟩
    obtain ⟨more, hbook⟩ := (Workers.record_grows (X := X) (w := r.workers) (j := j) l).2.1
    have hc' : DistinctIds j.book := (hbook ▸ hc : DistinctIds (j.book + more)).left
    exact (h.queries hc' q hq).work h.workers hw hc (hspares q hq)
  | queryStart plan =>
    cases hnext
    refine ⟨h.workers, h.counted, fun hc q hq => ?_⟩
    rcases mem_append.1 hq with hq | hq
    · exact h.queries hc q hq
    · rw [mem_singleton.1 hq]
      exact RawQuery.ok_start h.workers h.counted hc hspares
  | query i =>
    obtain ⟨q', hq', rfl⟩ := Option.map_eq_some_iff.1 hnext
    obtain ⟨q, hq, hstep⟩ := Option.bind_eq_some_iff.1 hq'
    refine ⟨h.workers, h.counted, fun hc p hp => ?_⟩
    rcases mem_or_eq_of_mem_set hp with hp | rfl
    · exact h.queries hc p hp
    · exact (h.queries hc q (mem_of_getElem? hq)).next h.workers.raw hstep

/-- **What is due to a query is collected once**, in every run whose steps leave it in reach. -/
theorem acked_collected_once {now : ℤ} {clk : ℕ → ℤ} {ls : List ReadAction} {r : Readers} {j : Journal}
    (hrun : Run (fun a l b => ReadersStep X cfg a l b ∧
      a.1.Spares X cfg l) (.start X cfg now clk, .empty) ls (r, j))
    (hc : DistinctIds j.book) {q : RawQuery} (hq : q ∈ r.queries) (hfinished : q.finished) :
    ∀ e ∈ q.due, q.got.count e = 1 := by
  have hok : r.Ok X j :=
    hrun.invariant (I := fun b => b.1.Ok X b.2) (fun _ _ _ h hstep => hstep.1.ok h hstep.2)
    ⟨Workers.ok_start X cfg now clk, Workers.counted_start X cfg now clk, fun _ q hq => by cases hq⟩
  intro e he
  have hone := (hok.queries hc q hq).once e he
  rw [RawQuery.left, hfinished] at hone
  exact hone

/-! ### A query that finds all, and one that does not -/

/-- The flusher draws names that begin with a letter. -/
def ReadAction.DrawsTagged : ReadAction → Prop
  | .work l => l.DrawsTagged
  | _ => True

/-- A check that names are new. -/
def ReadAction.checkFresh (r : Readers) (j : Journal) : ReadAction → Bool
  | .work l => l.checkFresh r.workers j
  | _ => true

/-- A check that a step spares what is due to queries: while one runs nothing is drained or swept,
and when one starts nothing is under way. -/
def Readers.checkSpares (X : Extern) (cfg : Config) (r : Readers) : ReadAction → Bool
  | .work l
      => (r.queries.all fun q => q.finished) || !(r.workers.drains X cfg l) &&
        (r.workers.sweeps l).isNone
  | .queryStart _ => r.workers.machine.underWay.isEmpty
  | .query _ => true

theorem Readers.spares_of_check {r : Readers} {l : ReadAction} (h : r.checkSpares X cfg l) :
    r.Spares X cfg l := by
  cases l with
  | work l =>
    intro q hq hrunning
    rw [Readers.checkSpares, Bool.or_eq_true, Bool.and_eq_true] at h
    rcases h with h | ⟨hdrain, hsweep⟩
    · simp [all_eq_true.1 h q hq] at hrunning
    · refine ⟨fun hdrains => ?_, fun id hid => ?_⟩
      · simp [hdrains] at hdrain
      · rw [Option.isNone_iff_eq_none.1 hsweep] at hid
        cases hid
  | queryStart plan =>
    intro e _ _ hmem
    rw [Machine.inFlight, isEmpty_iff.1 h] at hmem
    cases hmem
  | query i => trivial

/-- A step whose names are checked to be new, and that passes another check. -/
def Readers.checkedNext (X : Extern) (cfg : Config) (ok : Readers → ReadAction → Bool)
    (a : Readers × Journal) (l : ReadAction) : Option (Readers × Journal) :=
  if l.checkFresh a.1 a.2 && ok a.1 l then (a.1.next X cfg l).map
    fun r => (r, a.1.record X a.2 l) else none

theorem Readers.run_checkedNext {ok : Readers → ReadAction → Bool} {P : Readers → ReadAction → Prop}
    (hok : ∀ r l, ok r l → P r l) {ls : List ReadAction} (hdraws : ∀ l ∈ ls, l.DrawsTagged)
    {a b : Readers × Journal} (h : runAll (Readers.checkedNext X cfg ok) a ls = some b) :
    Run (fun a l b => ReadersStep X cfg a l b ∧ P a.1 l) a ls b := by
  refine Run.of_runAll (fun l hl a b hnext => ?_) h
  rw [Readers.checkedNext] at hnext
  split at hnext
  · rename_i hcheck
    rw [Bool.and_eq_true] at hcheck
    obtain ⟨r, hr, rfl⟩ := Option.map_eq_some_iff.1 hnext
    refine ⟨⟨fun l' hl' => ?_, hr, rfl⟩, hok _ _ hcheck.2⟩
    subst hl'
    exact Work.fresh_of_check (hdraws _ hl) hcheck.1
  · cases hnext

/-- A memtable that is drained from the second event on, and one segment of a bucket is merged. -/
def mergingConfig : Config := { smallConfig with compactionMaxSmallSegments := 0 }

/-- Two events are flushed and a third is in the memtable when a query starts; before it reads the
segment, that is merged into another one. -/
def mergeUnderQuery : List ReadAction :=
  ([.ingest 9000000 sampleClock [sampleEvent "a" "acme" 7200000 5], .respond 0,
    .ingest 9000000 sampleClock [sampleEvent "b" "acme" 7200000 5], .send 0, .respond 0,
      .take (taggedUuid 'p'), .write, .write,
    .commit, .delete, .delete, .ingest 9000000 sampleClock [sampleEvent "c" "acme" 7200000 5],
      .respond 0].map
      fun a => .work (.act a)) ++
  [.queryStart (sampleAccountPlan "acme"), .work (.compactionStart 9000000)] ++
  (["", "", "", "m", "", "", ""].map fun uuid => .work (.compaction 0 uuid)) ++ [.query 0, .query 0]

/-- All three events are found, once. -/
theorem acked_collected_once_of_merge :
    ∃ r j q,
      Run (fun a l b => ReadersStep .sample mergingConfig a l b ∧
        a.1.Spares .sample mergingConfig l)
        (.start .sample mergingConfig 8000000 fun _ => 8000000, .empty) mergeUnderQuery (r, j) ∧
      DistinctIds j.book ∧ r.queries = [q] ∧ q.finished ∧ q.due.map (·.eventId) = ["a", "b", "c"] ∧
      r.workers.machine.state.mem.manifest.rawIds = ["compacted_m"] ∧
      ∀ e ∈ q.due, q.got.count e = 1 := by
  have heval :
      (runAll (Readers.checkedNext .sample mergingConfig (Readers.checkSpares .sample
        mergingConfig))
      (.start .sample mergingConfig 8000000 fun _ => 8000000, .empty) mergeUnderQuery).any (fun b =>
        b.2.book.map (·.eventId) = {"a", "b", "c"} ∧
        b.1.queries.map (fun q => (q.finished, q.due.map (·.eventId))) = [(true, ["a", "b", "c"])] ∧
        b.1.workers.machine.state.mem.manifest.rawIds = ["compacted_m"]) := by decide +kernel
  obtain ⟨⟨r, j⟩, hall, hview⟩ := (Option.any_eq_true _ _).1 heval
  obtain ⟨hbook, hqueries, hids⟩ := of_decide_eq_true hview
  have hdraws : ∀ l ∈ mergeUnderQuery, l.DrawsTagged := by
    simp [mergeUnderQuery, ReadAction.DrawsTagged, Work.DrawsTagged]
  have hrun := Readers.run_checkedNext (fun _ _ h => Readers.spares_of_check h) hdraws hall
  have hc : DistinctIds j.book := by
    rw [DistinctIds, hbook]
    decide
  obtain ⟨q, hq, heq⟩ := map_eq_singleton_iff.1 hqueries
  simp only [Prod.mk.injEq] at heq
  have hmem : q ∈ r.queries := by
    rw [hq]
    exact mem_singleton_self q
  exact ⟨r, j, q, hrun, hc, hq, heq.1, heq.2, hids, acked_collected_once hrun hc hmem heq.1⟩

/-- A request is drained at once and answered; its batch is on its way when a query is made. -/
def queryUnderFlush : List ReadAction :=
  ([.ingest 9000000 sampleClock [sampleEvent "a" "acme" 7200000 5], .send 0,
    .respond 0].map fun a => .work (.act a)) ++ [.queryStart (sampleAccountPlan "acme"), .query 0]

/-- **An acknowledged event that a query does not find.** It has been drained from the memtable
and is not in a segment yet. -/
theorem acked_event_not_collected :
    ∃ r j q e, Run (ReadersStep .sample tinyConfig)
        (.start .sample tinyConfig 8000000 fun _ => 8000000, .empty) queryUnderFlush (r, j) ∧
      DistinctIds j.book ∧ q ∈ r.queries ∧ q.finished ∧ e ∈ q.due ∧ q.got.count e = 0 := by
  have heval : (runAll (Readers.checkedNext .sample tinyConfig fun _ _ => true)
      (.start .sample tinyConfig 8000000 fun _ => 8000000, .empty) queryUnderFlush).any (fun b =>
        b.2.book.map (·.eventId) = {"a"} ∧
        b.1.queries.map
            (fun q => (q.finished, q.due.map (·.eventId), q.got)) = [(true, ["a"], [])]) := by
    decide +kernel
  obtain ⟨⟨r, j⟩, hall, hview⟩ := (Option.any_eq_true _ _).1 heval
  obtain ⟨hbook, hqueries⟩ := of_decide_eq_true hview
  have hdraws : ∀ l ∈ queryUnderFlush, l.DrawsTagged := by
    simp [queryUnderFlush, ReadAction.DrawsTagged, Work.DrawsTagged]
  have hrun := Readers.run_checkedNext (P := fun _ _ => True) (fun _ _ _ => trivial) hdraws hall
  have hc : DistinctIds j.book := by
    rw [DistinctIds, hbook]
    exact Multiset.nodup_singleton _
  obtain ⟨q, hq, heq⟩ := map_eq_singleton_iff.1 hqueries
  simp only [Prod.mk.injEq] at heq
  obtain ⟨e, hdue, -⟩ := map_eq_singleton_iff.1 heq.2.1
  refine ⟨r, j, q, e, hrun.mono fun _ _ _ h => h.1, hc, ?_, heq.1, ?_, ?_⟩
  · rw [hq]
    exact mem_singleton_self q
  · rw [hdue]
    exact mem_singleton_self e
  · rw [heq.2.2]
    rfl

end UsageDb
