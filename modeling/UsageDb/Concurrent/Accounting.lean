import UsageDb.Concurrent.CompactionSafety

/-!
# Where the accepted events are

While the parties of `Concurrent.Workers` run, an accepted event moves: from the memtable into a
batch that is held, sent, and taken by the flusher, from there into a raw segment, and from one
raw segment into another when segments are merged. `Workers.Counted` says that no event is lost or
doubled on the way: the rows of the listed segments, the batches under way and the memtable have
together exactly the accepted events, provided that no id was accepted twice.

The rows of a segment are those it was written with (`Journal.rowsOf`). As merging drops rows
with a repeated id, the count is right only for different ids.
-/

namespace UsageDb

open Lib List

variable {X : Extern} {cfg : Config} {a : Action}

/-! ### What the other parties do to events -/

/-- The events of the batches under way. -/
def Machine.inFlight (m : Machine) : Multiset UsageEvent := ↑(m.underWay.flatMap (·.events))

/-- The events of the requests, answered or not. -/
def Machine.told (m : Machine) : List UsageEvent := m.acked ++ m.requests.flatMap (·.2)

/-- Whether a step drains the memtable. -/
def Action.drains (X : Extern) (cfg : Config) (m : Machine) : Action → Bool
  | .ingest _ clk events => (ingestCriticalSection X cfg clk m.state
      (classifiedEvents X m.state.mem.manifest.closedPeriods clk.now events)).2.1.isSome
  | .tickDrain => true
  | _ => false

/-- What a step of another party does to the events that are not in segments. -/
inductive Machine.MoveStep (X : Extern) (cfg : Config) (m m' : Machine) : Action → Prop where
  /-- What is accepted is put into the memtable. -/
  | insert {a : Action} : a.quiet → m'.inFlight = m.inFlight →
      m'.state.mem.memtable.events = m.state.mem.memtable.events ++ a.accepts X m →
      m'.flusher.current = m.flusher.current → (∀ e ∈ m'.told, e ∈ m.told ∨ e ∈ a.accepts X m) →
        MoveStep X cfg m m' a
  /-- And the memtable is drained. -/
  | drain {a : Action} : a.quiet → a.drains X cfg m →
      m'.inFlight = m.inFlight + ↑(m.state.mem.memtable.events ++ a.accepts X m) →
      m'.state.mem.memtable.events = [] → m'.flusher.current = m.flusher.current →
      (∀ e ∈ m'.told, e ∈ m.told ∨ e ∈ a.accepts X m) → MoveStep X cfg m m' a
  /-- The flusher takes a batch. -/
  | take {uuid : ℕ → String} : m'.inFlight = m.inFlight →
      m'.state.mem.memtable.events = m.state.mem.memtable.events →
      (↑(m'.flusher.current.flatMap (·.events)) : Multiset UsageEvent) =
        ↑((m.toFlush X uuid).flatMap (·.2)) →
      m'.told = m.told → MoveStep X cfg m m' (.take uuid)
  /-- It has listed the segments of its batch. -/
  | commit : m.inFlight = ↑(m.flusher.current.flatMap (·.events)) + m'.inFlight →
      m'.state.mem.memtable.events = m.state.mem.memtable.events → m'.flusher.current = [] →
        m'.told = m.told →
      MoveStep X cfg m m' .commit

section MoveStep

variable {m m' : Machine}

theorem Machine.inFlight_eq (m : Machine) :
    m.inFlight = ↑(m.flusher.current.flatMap (·.events)) + (↑(m.state.mem.queue.flatMap (·.events)) +
      ↑(m.held.flatMap (·.2.events))) := by
  rw [Machine.inFlight, Machine.underWay, flatMap_append, flatMap_append, flatMap_map,
    ← Multiset.coe_add, ← Multiset.coe_add]

/-- A drain hands all events of the memtable over, or does nothing. -/
theorem Mem.drainIf_cases (mem : Mem) (cond : Bool) :
    (mem.drainIf cond).msg = none ∧ (mem.drainIf cond).mem.memtable.events = mem.memtable.events ∨
      ∃ id, (mem.drainIf cond).msg = some ⟨mem.memtable.events, id⟩ ∧
      (mem.drainIf cond).mem.memtable.events = [] := by
  cases cond with
  | false => exact .inl ⟨rfl, rfl⟩
  | true => exact .inr ⟨_, rfl, rfl⟩

/-- A party drains, and holds the batch. -/
theorem Machine.MoveStep.of_drain (mem : Mem) {cond : Bool} {party : Party} (hquiet : a.quiet)
    (hdrains : (mem.drainIf cond).msg.isSome → a.drains X cfg m)
    (hmem : mem.memtable.events = m.state.mem.memtable.events ++ a.accepts X m)
    (hqueue : mem.queue = m.state.mem.queue) (hmem' : m'.state.mem = (mem.drainIf cond).mem)
    (hheld : m'.held = m.held ++ ((mem.drainIf cond).msg.map fun msg => (party, msg)).toList)
    (hflusher : m'.flusher = m.flusher) (htold : ∀ e ∈ m'.told, e ∈ m.told ∨ e ∈ a.accepts X m) :
    m.MoveStep X cfg m' a := by
  have hinFlight : m'.inFlight = m.inFlight +
      ↑((((mem.drainIf cond).msg.map fun msg => (party, msg)).toList).flatMap (·.2.events)) := by
    rw [Machine.inFlight_eq, Machine.inFlight_eq, hflusher, hmem', hheld, Mem.drainIf_queue, hqueue,
      flatMap_append, ← Multiset.coe_add]
    abel
  rcases Mem.drainIf_cases mem cond with ⟨hnone, hevents⟩ | ⟨id, hsome, hevents⟩
  · refine .insert hquiet ?_ (by rw [hmem', hevents, hmem]) (by rw [hflusher]) htold
    rw [hinFlight, hnone]
    exact Multiset.add_zero _
  · refine .drain hquiet (hdrains (by rw [hsome]; rfl)) ?_ (by rw [hmem', hevents])
      (by rw [hflusher]) htold
    rw [hinFlight, hsome, ← hmem]
    simp

/-- A step that moves nothing. -/
theorem Machine.MoveStep.still (hquiet : a.quiet) (haccepts : a.accepts X m = [])
    (hqueue : m'.state.mem.queue = m.state.mem.queue)
    (hmem : m'.state.mem.memtable = m.state.mem.memtable)
    (hheld : m'.held = m.held) (hflusher : m'.flusher.current = m.flusher.current)
    (htold : ∀ e ∈ m'.told, e ∈ m.told) : m.MoveStep X cfg m' a := by
  refine .insert hquiet ?_ (by rw [hmem, haccepts, append_nil]) hflusher fun e he => .inl (htold e he)
  rw [Machine.inFlight_eq, Machine.inFlight_eq, hflusher, hqueue, hheld]

/-- Every step of another party is one of these. -/
theorem Machine.moveStep (h : m.next X cfg a = some m') : m.MoveStep X cfg m' a := by
  cases Machine.next_cases h with
  | @ingest _ clk events =>
    refine .of_drain (m.state.mem.accept X clk (classifyBatch m.state.mem.dedupe
      (classifiedEvents X m.state.mem.manifest.closedPeriods clk.now events)).newEvents) rfl
        (fun hsome => hsome)
      (by simp [Mem.accept, Action.accepts, Op.accepts]) rfl rfl rfl rfl fun e he => ?_
    simp only [Machine.told, Machine.ingest, Machine.after, flatMap_append, mem_append] at he
    rcases he with he | he | he
    · exact .inl (mem_append_left _ he)
    · exact .inl (mem_append_right _ he)
    · rw [flatMap_singleton] at he
      exact .inr he
  | @send i x hx =>
    refine .insert rfl ?_ (append_nil _).symm rfl fun e he => .inl he
    obtain ⟨hi, rfl⟩ := List.getElem?_eq_some_iff.1 hx
    have hheld : (↑(m.held.flatMap (·.2.events)) : Multiset UsageEvent) =
        ↑(m.held[i].2.events) + ↑((m.held.eraseIdx i).flatMap (·.2.events)) := by
      rw [Multiset.coe_add, Multiset.coe_eq_coe]
      exact (getElem_cons_eraseIdx_perm hi).symm.flatMap_right _
    rw [Machine.inFlight_eq, Machine.inFlight_eq, hheld]
    simp only [Mem.send, flatMap_append, flatMap_singleton, ← Multiset.coe_add]
    abel
  | respond hreq =>
    refine .still rfl rfl rfl rfl rfl rfl fun e he => ?_
    simp only [Machine.told, mem_append, mem_flatMap, or_assoc] at he ⊢
    rcases he with he | he | ⟨r, hr, he⟩
    · exact .inl he
    · exact .inr ⟨_, mem_of_getElem? hreq, he⟩
    · exact .inr ⟨r, mem_of_mem_eraseIdx hr, he⟩
  | @take uuid msg rest flusher hidle hqueue hflusher =>
    have hcurrent : m.flusher.current = [] := by rw [hidle]; rfl
    have hperm := flushSegments_perm (X := X) uuid m.state.mem.manifest.buckets msg.events
    have hrows : (↑((m.toFlush X uuid).flatMap (·.2)) : Multiset UsageEvent) = ↑msg.events := by
      rw [Machine.toFlush_of_queue hqueue]
      exact Multiset.coe_eq_coe.2 hperm
    obtain ⟨hempty, rfl⟩ | rfl := hflusher
    · refine .take ?_ rfl ?_ rfl
      · rw [Machine.inFlight_eq, Machine.inFlight_eq, hqueue, flatMap_cons, hempty, hcurrent]
        rfl
      · rw [hrows, hempty]
        rfl
    · refine .take ?_ rfl ?_ rfl
      · rw [Machine.inFlight_eq, Machine.inFlight_eq, hqueue, hcurrent]
        simp only [FlushPhase.current, flatMap_cons, flatMap_nil, append_nil, ← Multiset.coe_add,
          Multiset.coe_nil, Multiset.zero_add]
        abel
      · rw [hrows]
        simp [FlushPhase.current]
  | write hwriting | delete hwriting | deleted hwriting =>
    exact .still rfl rfl rfl rfl rfl (by rw [hwriting]; rfl) fun e he => he
  | commit _ hmanifest =>
    subst hmanifest
    refine .commit ?_ rfl rfl rfl
    rw [Machine.inFlight_eq, Machine.inFlight_eq]
    simp only [FlushPhase.current, Machine.after, Outcome.state, flatMap_nil, Multiset.coe_nil,
      Multiset.zero_add]
  | tickDrain =>
    exact .of_drain m.state.mem rfl
      (fun _ => rfl) (append_nil _).symm rfl rfl rfl rfl fun e he => .inl he
  | _ => exact .still rfl rfl rfl rfl rfl rfl fun e he => he

end MoveStep

/-! ### The count -/

/-- The events in listed segments, under way and in the memtable. -/
def Machine.everywhere (m : Machine) : Multiset UsageEvent :=
  ↑(m.state.disk.rawEvents m.state.mem.manifest) + (m.inFlight + ↑m.state.mem.memtable.events)

/-- **No accepted event is lost or doubled.** -/
structure Workers.Counted (w : Workers) (j : Journal) : Prop where
  /-- The flusher writes the events it has taken. -/
  flushing : (↑(w.machine.flusher.current.flatMap (·.events)) : Multiset UsageEvent) =
    ↑(j.flushing.flatMap (·.2))
  /-- What clients are told was accepted. -/
  told : ∀ e ∈ w.machine.told, e ∈ j.book
  /-- If no id was accepted twice, all accepted events are there, once. -/
  book : DistinctIds j.book → w.machine.everywhere = j.book

section Counted

variable {w w' : Workers} {j j' : Journal} {s : State}

/-- The rows of a listed segment. -/
theorem RawOk.rows_of_listed (h : RawOk X s j) {m : SegmentMeta} (hm : m ∈ s.mem.manifest.rawSegments) :
    s.disk.rows m = j.rowsOf m.segmentId := by
  obtain ⟨rows, hrows⟩ := h.listed m hm
  rw [Journal.rowsOf_of_mem h.nodup hrows, Disk.rows, h.file_of_listed hrows (mem_map_of_mem hm)]
  rfl

/-- The rows of the listed segments, by the journal. -/
theorem RawOk.rawEvents_eq (h : RawOk X s j) :
    s.disk.rawEvents s.mem.manifest = s.mem.manifest.rawIds.flatMap j.rowsOf := by
  rw [Disk.rawEvents, Manifest.rawIds, flatMap_map]
  exact flatMap_congr fun m hm => h.rows_of_listed hm

/-- Nothing is listed or dropped. -/
theorem RawOk.rawEvents_of_same {s' : State} (h : RawOk X s j) (h' : RawOk X s' j')
    (hpub : j'.published = j.published)
    (hraw : s'.mem.manifest.rawSegments = s.mem.manifest.rawSegments) :
    s'.disk.rawEvents s'.mem.manifest = s.disk.rawEvents s.mem.manifest := by
  rw [h.rawEvents_eq, h'.rawEvents_eq, Manifest.rawIds, hraw, ← Manifest.rawIds]
  refine flatMap_congr fun id _ => ?_
  rw [Journal.rowsOf, hpub, Journal.rowsOf]

/-- New segments are listed. -/
theorem RawOk.rawEvents_of_publish {s' : State} (h : RawOk X s j) (h' : RawOk X s' j')
    {new : List Segment} (hpub : j'.published = j.published ++ new)
    (hraw : s'.mem.manifest.rawSegments = s.mem.manifest.rawSegments ++ new.map (·.1)) :
    s'.disk.rawEvents s'.mem.manifest = s.disk.rawEvents s.mem.manifest ++ new.flatMap (·.2) := by
  have hids : s'.mem.manifest.rawIds = s.mem.manifest.rawIds ++ segmentIds new := by
    rw [Manifest.rawIds, hraw, map_append, map_map]
    rfl
  rw [h.rawEvents_eq, h'.rawEvents_eq, hids, flatMap_append, segmentIds, flatMap_map]
  congr 1
  · exact flatMap_congr fun id hid => Journal.rowsOf_of_known ⟨new, hpub⟩ (h.known_of_listed hid)
  · exact flatMap_congr fun seg hseg =>
      Journal.rowsOf_of_mem h'.nodup (by rw [hpub]; exact mem_append_right _ hseg)

/-- Inputs are replaced by their merge; with different ids, it has the same rows. -/
theorem RawOk.rawEvents_of_swap {s' : State} (h : RawOk X s j) (h' : RawOk X s' j')
    {plan : CompactionPlan} {seg : Segment} {now : ℤ} (hpub : j'.published = j.published ++ [seg])
    (hpresent : s.mem.manifest.stillPresent plan)
    (hraw : s'.mem.manifest.rawSegments = (s.mem.manifest.swap plan seg.1 now).rawSegments)
    (hrows : seg.2 = sortAndDedupe (plan.segmentIds.flatMap j.rowsOf))
    (hdistinct : ((s.disk.rawEvents s.mem.manifest).map (·.eventId)).Nodup) :
    (s'.disk.rawEvents s'.mem.manifest).Perm (s.disk.rawEvents s.mem.manifest) := by
  have hperm := perm_of_stillPresent h.ids hpresent
  have hread : s.disk.readSegments plan.segmentIds = plan.segmentIds.flatMap j.rowsOf := by
    refine flatMap_congr fun id hid => ?_
    obtain ⟨m, hm, rfl⟩ := mem_map.1 (hperm.mem_iff.2 hid)
    exact h.rows_of_listed (mem_of_mem_filter hm)
  have hseg : s'.disk.rows seg.1 = sortAndDedupe (s.disk.readSegments plan.segmentIds) := by
    have hlisted : seg.1 ∈ s'.mem.manifest.rawSegments := by
      rw [hraw]
      exact mem_append_right _ (mem_singleton_self _)
    rw [h'.rows_of_listed hlisted, Journal.rowsOf_of_mem h'.nodup (by simp [hpub]), hread, ← hrows]
  refine List.Perm.trans (List.Perm.of_eq ?_) (perm_compacted h.ids hpresent hdistinct)
  rw [Disk.rawEvents, hraw, Manifest.swap, flatMap_append, flatMap_singleton, hseg]
  congr 1
  refine flatMap_congr fun m hm => ?_
  have hold := mem_of_mem_filter hm
  have hnew : m ∈ s'.mem.manifest.rawSegments := by
    rw [hraw]
    exact mem_append_left _ hm
  rw [h.rows_of_listed hold, h'.rows_of_listed hnew]
  exact Journal.rowsOf_of_known ⟨[seg], hpub⟩ (h.known_of_listed (mem_map_of_mem hold))

theorem Machine.RawStep.raw_of_quiet {m m' : Machine} (h : m.RawStep X m' a) (ha : a.quiet) :
    m'.state.mem.manifest.rawSegments = m.state.mem.manifest.rawSegments := by
  cases h with
  | same _ hsame _ => exact hsame.raw
  | take => cases ha
  | write _ _ hstate => rw [hstate]
  | commit => cases ha

/-- A step of another party keeps the count. -/
theorem Workers.Counted.act (h : w.Counted j) (hok : w.Ok X j) {m' : Machine}
    (hok' : Workers.Ok X { w with machine := m' } (w.record X j (.act a)))
    (hnext : w.machine.next X cfg a = some m') :
    Workers.Counted { w with machine := m' } (w.record X j (.act a)) := by
  have hraw := Machine.rawStep hnext
  cases Machine.moveStep hnext with
  | insert hquiet hflight hmem hcurrent htold =>
    rw [record_of_quiet hquiet] at hok' ⊢
    have hrows := hok.raw.rawEvents_of_same hok'.raw rfl (hraw.raw_of_quiet hquiet)
    refine ⟨hcurrent ▸ h.flushing, fun e he => ?_, fun hc => ?_⟩
    · exact Multiset.mem_add.2 ((htold e he).imp (h.told e) Multiset.mem_coe.2)
    · show m'.everywhere = j.book + _
      rw [← h.book hc.left, Machine.everywhere, Machine.everywhere, hrows, hflight, hmem,
        ← Multiset.coe_add]
      abel
  | drain hquiet _ hflight hmem hcurrent htold =>
    rw [record_of_quiet hquiet] at hok' ⊢
    have hrows := hok.raw.rawEvents_of_same hok'.raw rfl (hraw.raw_of_quiet hquiet)
    refine ⟨hcurrent ▸ h.flushing, fun e he => ?_, fun hc => ?_⟩
    · exact Multiset.mem_add.2 ((htold e he).imp (h.told e) Multiset.mem_coe.2)
    · show m'.everywhere = j.book + _
      rw [← h.book hc.left, Machine.everywhere, Machine.everywhere, hrows, hflight, hmem,
        ← Multiset.coe_add, Multiset.coe_nil]
      abel
  | take hflight hmem hcurrent htold =>
    cases hraw with
    | same hquiet => cases hquiet
    | take _ hsame _ =>
      have hrows := hok.raw.rawEvents_of_same hok'.raw rfl hsame.raw
      refine ⟨hcurrent, fun e he => h.told e (htold ▸ he), fun hc => ?_⟩
      show m'.everywhere = j.book
      rw [← h.book hc, Machine.everywhere, Machine.everywhere, hrows, hflight, hmem]
  | commit hflight hmem hcurrent htold =>
    cases hraw with
    | same hquiet => cases hquiet
    | commit hwork hwork' hseg hraw hrep hb =>
      have hmetas := hok.flusher
      rw [FlushPhase.Lists, hwork] at hmetas
      obtain ⟨rfl, -⟩ := hmetas
      have hrows := hok.raw.rawEvents_of_publish hok'.raw rfl hraw
      refine ⟨by rw [hcurrent]; rfl, fun e he => h.told e (htold ▸ he), fun hc => ?_⟩
      show m'.everywhere = j.book
      rw [← h.book hc, Machine.everywhere, Machine.everywhere, hrows, hflight, hmem,
        ← Multiset.coe_add, h.flushing]
      abel

/-- A step of a tick moves nothing but rows of segments: it lists nothing, or commits its merge. -/
theorem Workers.compaction_cases {i : ℕ} {uuid : String}
    (hnext : w.next X cfg (.compaction i uuid) = some w') :
    w'.machine.inFlight = w.machine.inFlight ∧
      w'.machine.state.mem.memtable = w.machine.state.mem.memtable ∧
      w'.machine.flusher = w.machine.flusher ∧ w'.machine.told = w.machine.told ∧
      (w.record X j (.compaction i uuid) = j ∧
          w'.machine.state.mem.manifest.rawSegments = w.machine.state.mem.manifest.rawSegments ∨
        ∃ now plan plans seg, .writing now plan plans seg [] ∈ w.ticks ∧
          w.machine.state.mem.manifest.stillPresent plan ∧
          w.record X j (.compaction i uuid) =
            { j with published := j.published ++ [seg], merged := j.merged ++ [plan.segmentIds] } ∧
          w'.machine.state.mem.manifest.rawSegments =
              (w.machine.state.mem.manifest.swap plan seg.1 now).rawSegments) := by
  obtain ⟨t, l, r, ht, hticks, rfl⟩ := Workers.next_compaction hnext
  have hlook : ∀ {o : Outcome}, o.mem.queue = w.machine.state.mem.queue →
      (w.machine.after o).inFlight = w.machine.inFlight := by
    intro o ho
    rw [Machine.inFlight_eq, Machine.inFlight_eq]
    simp only [Machine.after, Outcome.state, ho]
  rw [Workers.record, ht]
  cases t with
  | sweeping now done todo => cases todo <;> exact ⟨hlook rfl, rfl, rfl, rfl, .inl ⟨rfl, rfl⟩⟩
  | planning now => exact ⟨hlook rfl, rfl, rfl, rfl, .inl ⟨rfl, rfl⟩⟩
  | running now plans => cases plans <;> exact ⟨hlook rfl, rfl, rfl, rfl, .inl ⟨rfl, rfl⟩⟩
  | reading now plan plans todo got => cases todo <;> exact ⟨hlook rfl, rfl, rfl, rfl, .inl ⟨rfl, rfl⟩⟩
  | writing now plan plans seg todo =>
    cases todo with
    | nil =>
      by_cases hpresent : w.machine.state.mem.manifest.stillPresent plan
      · simp only [CompactionPhase.next, if_pos hpresent]
        exact ⟨hlook rfl, rfl, rfl, rfl, .inr ⟨now, plan, plans, seg, by simp [hticks],
          hpresent, rfl, rfl⟩⟩
      · simp only [CompactionPhase.next, if_neg hpresent]
        exact ⟨hlook rfl, rfl, rfl, rfl, .inl ⟨trivial, rfl⟩⟩
    | cons x todo => exact ⟨hlook rfl, rfl, rfl, rfl, .inl ⟨rfl, rfl⟩⟩

/-- The inputs of a plan that is still present are listed. -/
theorem planListed_of_stillPresent {m : Manifest} (hids : m.rawIds.Nodup) {plan : CompactionPlan}
    (h : m.stillPresent plan) : PlanListed m plan := fun _ hid =>
  (filter_sublist.map _).subset ((perm_of_stillPresent hids h).mem_iff.2 hid)

/-- A step of a tick keeps the count. -/
theorem Workers.Counted.compaction (h : w.Counted j) (hok : w.Ok X j) {i : ℕ} {uuid : String}
    (hok' : w'.Ok X (w.record X j (.compaction i uuid)))
    (hnext : w.next X cfg (.compaction i uuid) = some w') :
    w'.Counted (w.record X j (.compaction i uuid)) := by
  obtain ⟨hflight, hmem, hflusher, htold, ⟨hrecord, hraw⟩ | ⟨now, plan, plans, seg, ht, hpresent,
      hrecord, hraw⟩⟩ :=
    Workers.compaction_cases (j := j) hnext
  · rw [hrecord] at hok' ⊢
    refine ⟨hflusher ▸ h.flushing, fun e he => h.told e (htold ▸ he), fun hc => ?_⟩
    rw [← h.book hc, Machine.everywhere, Machine.everywhere,
      hok.raw.rawEvents_of_same hok'.raw rfl hraw, hflight, hmem]
  · rw [hrecord] at hok' ⊢
    obtain ⟨-, -, hrows⟩ := hok.ticks _ ht
    refine ⟨hflusher ▸ h.flushing, fun e he => h.told e (htold ▸ he), fun hc => ?_⟩
    have hbook := h.book hc
    have hdistinct :
        ((w.machine.state.disk.rawEvents w.machine.state.mem.manifest).map (·.eventId)).Nodup := by
      have hc' : DistinctIds w.machine.everywhere := hbook ▸ hc
      exact Multiset.coe_nodup.1 hc'.left
    have hperm := hok.raw.rawEvents_of_swap hok'.raw rfl hpresent hraw
      (hrows (planListed_of_stillPresent hok.raw.ids hpresent)) hdistinct
    show w'.machine.everywhere = j.book
    rw [← hbook, Machine.everywhere, Machine.everywhere, Multiset.coe_eq_coe.2 hperm, hflight, hmem]

/-- **Every step keeps the count.** -/
theorem WorkersStep.counted {a b : Workers × Journal} {l : Work} (hok : a.1.Ok X a.2)
    (h : a.1.Counted a.2) (hstep : WorkersStep X cfg a l b) : b.1.Counted b.2 := by
  have hok' := hstep.ok hok
  obtain ⟨w, j⟩ := a
  obtain ⟨w', j'⟩ := b
  obtain ⟨hfresh, hnext, rfl⟩ := hstep
  dsimp only at *
  cases l with
  | act a =>
    obtain ⟨m', hm, rfl⟩ := Option.map_eq_some_iff.1 hnext
    exact h.act hok hok' hm
  | compactionStart now =>
    cases hnext
    exact ⟨h.flushing, h.told, h.book⟩
  | compaction i uuid => exact h.compaction hok hok' hnext

theorem Workers.counted_start (X : Extern) (cfg : Config) (now : ℤ) (clk : ℕ → ℤ) :
    (Workers.start X cfg now clk).Counted .empty := by
  have hmem : (Workers.start X cfg now clk).machine.state.mem.memtable.events = [] := rfl
  have hraw : (Workers.start X cfg now clk).machine.state.mem.manifest.rawSegments = [] :=
    (frames_restart X cfg (f := Manifest.rawSegments) (fun _ _ => rfl) now clk .empty).1
  refine ⟨rfl, fun e he => absurd he not_mem_nil, fun _ => ?_⟩
  rw [Machine.everywhere, Disk.rawEvents, hraw, hmem]
  rfl

end Counted

end UsageDb
