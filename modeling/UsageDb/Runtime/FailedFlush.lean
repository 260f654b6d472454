import UsageDb.Runtime.Fault

/-!
# A flush that fails

`attempt_flush` writes the buckets of a message one after another. When one cannot be written
it deletes the segments written before, and hands back the events of this bucket and of those
after it. The events of the buckets before it are handed back to nobody: their segments are
gone and they are not in the memtable again. `has_handleMessage_iff` says exactly which events
of a message are still there when `handle_message` returns.

The log file that such an event was accepted into is still there, so nothing is lost for good
until the next flush that succeeds: it seals everything up to its own log file, and deletes it.
`SysOk.failedFlush` leads to the converse: in a run in which every failed flush hands back all
events of its message, with no other message waiting, every accepted event stays in a listed
segment or in a log file above the seal.
-/

namespace UsageDb

open Lib List

variable {X : Extern} {cfg : Config} {s : State} {e : UsageEvent} {events : List UsageEvent}

/-! ### What the bucket loop does -/

section Loop

variable {io : FlushIo} {uuid : ℕ → String}

/-- The buckets before the first that cannot be written. -/
def FlushIo.written (io : FlushIo) (bs : List (ℕ × List UsageEvent)) : List (ℕ × List UsageEvent) :=
  bs.takeWhile fun b => io.writeOk b.1

/-- The first bucket that cannot be written, and those after it. -/
def FlushIo.unwritten (io : FlushIo) (bs : List (ℕ × List UsageEvent)) : List (ℕ × List UsageEvent) :=
  bs.dropWhile fun b => io.writeOk b.1

/-- The segments of some buckets. -/
def bucketMetas (X : Extern) (uuid : ℕ → String) (bs : List (ℕ × List UsageEvent)) : List SegmentMeta :=
  bs.map fun b => (bucketSegment X uuid b.1 b.2).1

/-- The steps that write some buckets. -/
def bucketsEffects (X : Extern) (io : FlushIo) (uuid : ℕ → String)
    (bs : List (ℕ × List UsageEvent)) : List Effect :=
  bs.flatMap fun b => bucketEffects X io b.1 (bucketSegment X uuid b.1 b.2)

/-- The loop writes buckets up to the first that fails; then it takes back what it has written
and hands back the rest. -/
theorem writeBuckets_eq (bs : List (ℕ × List UsageEvent)) (metas : List SegmentMeta)
    (effects : List Effect) :
    writeBuckets X io uuid bs metas effects =
      match io.unwritten bs with
      | [] => .ok (metas ++ bucketMetas X uuid bs, effects ++ bucketsEffects X io uuid bs)
      | b :: rest => .error (⟨(b :: rest).flatMap (·.2), .writeBucket b.1⟩,
          effects ++ bucketsEffects X io uuid (io.written bs) ++
            rollbackPartial (metas ++ bucketMetas X uuid (io.written bs))) := by
  induction bs generalizing metas effects with
  | nil => simp [writeBuckets, FlushIo.unwritten, bucketMetas, bucketsEffects]
  | cons b bs ih =>
    obtain ⟨bucket, events⟩ := b
    rw [writeBuckets]
    by_cases hok : io.writeOk bucket
    · rw [if_pos hok, ih]
      simp only [FlushIo.unwritten, FlushIo.written, dropWhile_cons, takeWhile_cons, hok, if_true]
      split <;> simp [bucketMetas, bucketsEffects]
    · rw [if_neg hok]
      simp only [FlushIo.unwritten, FlushIo.written, dropWhile_cons, takeWhile_cons, hok]
      simp [bucketMetas, bucketsEffects]

theorem written_append (io : FlushIo) (bs : List (ℕ × List UsageEvent)) :
    io.written bs ++ io.unwritten bs = bs :=
  takeWhile_append_dropWhile

/-- The names of the segments of some buckets. -/
theorem map_bucketMetas (bs : List (ℕ × List UsageEvent)) :
    (bucketMetas X uuid bs).map (·.segmentId) = (bs.map (·.1)).map fun b => rawSegmentId (uuid b) := by
  rw [bucketMetas, map_map, map_map]
  rfl

/-- What writing some buckets does to the segment files. -/
theorem bucketsEffects_seg (d : Disk) (bs : List (ℕ × List UsageEvent)) :
    (∀ id ∉ (bucketMetas X uuid bs).map (·.segmentId),
        (d.applyAll (bucketsEffects X io uuid bs)).seg id = d.seg id) ∧
      (((bucketMetas X uuid bs).map (·.segmentId)).Nodup → ∀ b ∈ bs,
        (d.applyAll (bucketsEffects X io uuid bs)).seg (rawSegmentId (uuid b.1)) =
          some (sortEventsCanonical b.2)) := by
  induction bs generalizing d with
  | nil => exact ⟨fun _ _ => rfl, fun _ b hb => by cases hb⟩
  | cons x bs ih =>
    have hcons : bucketsEffects X io uuid (x :: bs) =
        bucketEffects X io x.1 (bucketSegment X uuid x.1 x.2) ++ bucketsEffects X io uuid bs := rfl
    have hwrite : (d.applyAll (bucketEffects X io x.1 (bucketSegment X uuid x.1 x.2))).seg =
        Function.update d.seg (rawSegmentId (uuid x.1)) (some (sortEventsCanonical x.2)) := by
      rw [bucketEffects]
      split <;> rfl
    obtain ⟨hother, hmem⟩ := ih (d.applyAll (bucketEffects X io x.1 (bucketSegment X uuid x.1 x.2)))
    rw [hcons, Disk.applyAll_append]
    refine ⟨fun id hid => ?_, fun hnodup b hb => ?_⟩
    · have hid' : id ≠ rawSegmentId (uuid x.1) ∧ id ∉ (bucketMetas X uuid bs).map (·.segmentId) := by
        simpa [bucketMetas, bucketSegment] using hid
      rw [hother id hid'.2, hwrite, Function.update_of_ne hid'.1]
    · have hnodup' : rawSegmentId (uuid x.1) ∉ (bucketMetas X uuid bs).map (·.segmentId) ∧
          ((bucketMetas X uuid bs).map (·.segmentId)).Nodup := nodup_cons.1 hnodup
      rcases mem_cons.1 hb with rfl | hb
      · rw [hother _ hnodup'.1, hwrite, Function.update_self]
      · exact hmem hnodup'.2 b hb

/-- Taking segments back deletes their files and nothing else. -/
theorem rollbackPartial_seg (d : Disk) (metas : List SegmentMeta) :
    ((d.applyAll (rollbackPartial metas)).seg =
      fun id => if id ∈ metas.map (·.segmentId) then none else d.seg id) := by
  induction metas generalizing d with
  | nil => rfl
  | cons m metas ih =>
    have hcons : d.applyAll (rollbackPartial (m :: metas)) =
        (d.apply (.segRemove m.segmentId)).applyAll (rollbackPartial metas) := rfl
    rw [hcons, ih]
    funext id
    by_cases hid : id = m.segmentId
    · simp [Disk.apply, hid]
    · simp [Disk.apply, hid]

end Loop

/-! ### Which events are still there -/

/-- The event is in the memtable, or in a raw segment that is listed and whose file exists. -/
def State.Has (s : State) (e : UsageEvent) : Prop :=
  e ∈ s.mem.memtable.events ∨ ∃ m ∈ s.mem.manifest.rawSegments, ∃ rows, s.disk.seg m.segmentId =
    some rows ∧ e ∈ rows

theorem State.has_iff :
    s.Has e ↔ e ∈ s.mem.memtable.events ∨ e ∈ s.disk.rawEvents s.mem.manifest := by
  rw [State.Has, Disk.rawEvents, mem_flatMap]
  refine or_congr_right (exists_congr fun m => and_congr_right fun _ => ?_)
  rw [Disk.rows]
  cases s.disk.seg m.segmentId with
  | none => simp
  | some rows => simp

instance (e : UsageEvent) : Decidable (s.Has e) := decidable_of_iff _ State.has_iff.symm

/-- The events that a flush neither commits nor hands back: those of the buckets before the
first that cannot be written, or all when the save fails. -/
def flushLost (X : Extern) (io : FlushIo) (buckets : ℕ) (events : List UsageEvent) : List UsageEvent :=
  match io.unwritten (byBucket X buckets events) with
  | [] => if io.saveOk then [] else events
  | _ :: _ => (io.written (byBucket X buckets events)).flatMap (·.2)

section Has

variable {io : FlushIo} {uuid : ℕ → String} {msg : FlushMessage}

theorem mem_byBucket_flatMap (X : Extern) (buckets : ℕ) :
    e ∈ (byBucket X buckets events).flatMap (·.2) ↔ e ∈ events :=
  (perm_groups (fun e : UsageEvent => X.bucketForAccount e.accountId buckets) events).mem_iff

/-- An event is in one bucket only. -/
theorem not_mem_unwritten {buckets : ℕ}
    (hw : e ∈ (io.written (byBucket X buckets events)).flatMap (·.2)) :
    e ∉ (io.unwritten (byBucket X buckets events)).flatMap (·.2) := by
  intro hu
  obtain ⟨b, hb, he⟩ := mem_flatMap.1 hw
  obtain ⟨b', hb', he'⟩ := mem_flatMap.1 hu
  have hsplit := written_append io (byBucket X buckets events)
  have hkey : ∀ b ∈ byBucket X buckets events, e ∈ b.2 →
      X.bucketForAccount e.accountId buckets = b.1 := by
    intro b hb he
    rw [(mem_groups.1 hb).1, mem_filter, decide_eq_true_eq] at he
    exact he.2
  have hnodup : ((byBucket X buckets events).map (·.1)).Nodup := groups_nodup
  rw [← hsplit, map_append] at hnodup
  refine disjoint_of_nodup_append hnodup (mem_map_of_mem hb) ?_
  rw [← hkey b (hsplit ▸ mem_append_left _ hb) he, hkey b' (hsplit ▸ mem_append_right _ hb') he']
  exact mem_map_of_mem hb'

/-- Files of other names do not matter for the segments listed before. -/
theorem hasListed_congr {d d' : Disk} {segs : List SegmentMeta}
    (h : ∀ m ∈ segs, d'.seg m.segmentId = d.seg m.segmentId) :
    (∃ m ∈ segs, ∃ rows, d'.seg m.segmentId = some rows ∧ e ∈ rows) ↔
      ∃ m ∈ segs, ∃ rows, d.seg m.segmentId = some rows ∧ e ∈ rows := by
  refine exists_congr fun m => and_congr_right fun hm => ?_
  rw [h m hm]

/-- Segments that are written and taken back leave all other files alone. -/
theorem rolledBack_avoids {id : String} (hne : ∀ b, id ≠ rawSegmentId (uuid b))
    (bs : List (ℕ × List UsageEvent)) :
    ∀ x ∈ bucketsEffects X io uuid bs ++ rollbackPartial (bucketMetas X uuid bs), x.Avoids id := by
  intro x hx
  rcases mem_append.1 hx with hx | hx
  · obtain ⟨b, -, hx⟩ := mem_flatMap.1 hx
    rcases mem_cons.1 hx with rfl | hx
    · exact (hne b.1).symm
    · by_cases hidx : io.indexOk b.1
      · rw [if_pos hidx] at hx
        rw [mem_singleton.1 hx]
        exact (hne b.1).symm
      · rw [if_neg hidx] at hx
        cases hx
  · obtain ⟨m, hm, rfl⟩ := mem_map.1 hx
    obtain ⟨b, -, rfl⟩ := mem_map.1 hm
    exact (hne b.1).symm

/-- New names are not those of listed segments. -/
theorem seg_rolledBack (X : Extern) (io : FlushIo) (hnew : NewNames s.mem.manifest uuid)
    (bs : List (ℕ × List UsageEvent)) :
    ∀ m ∈ s.mem.manifest.rawSegments, (s.disk.applyAll (bucketsEffects X io uuid bs ++
      rollbackPartial (bucketMetas X uuid bs))).seg m.segmentId = s.disk.seg m.segmentId := by
  intro m hm
  have hne : ∀ b, m.segmentId ≠ rawSegmentId (uuid b) :=
    fun b hid => hnew.unlisted b (hid ▸ mem_map_of_mem hm)
  exact (Disk.applyAll_avoids (rolledBack_avoids hne bs) s.disk).1

/-- A bucket could not be written. -/
theorem handleMessage_unwritten (clk : ℕ → ℤ) {b : ℕ × List UsageEvent}
    {rest : List (ℕ × List UsageEvent)}
    (hun : io.unwritten (byBucket X s.mem.manifest.buckets msg.events) = b :: rest) :
    handleMessage X io uuid clk s msg =
      ⟨bucketsEffects X io uuid (io.written (byBucket X s.mem.manifest.buckets msg.events)) ++
          rollbackPartial
            (bucketMetas X uuid (io.written (byBucket X s.mem.manifest.buckets msg.events))),
        { s.mem with memtable := s.mem.memtable.insertAll X ((b :: rest).flatMap (·.2)) clk }⟩ := by
  have hne : msg.events ≠ [] := by
    intro hnil
    rw [hnil] at hun
    cases hun
  rw [handleMessage, if_neg (by simpa using hne), attemptFlush, writeBuckets_eq, hun]
  rfl

/-- All buckets were written, and the manifest was saved or not. -/
theorem handleMessage_written (clk : ℕ → ℤ) (hne : msg.events ≠ [])
    (hun : io.unwritten (byBucket X s.mem.manifest.buckets msg.events) = []) :
    handleMessage X io uuid clk s msg =
      let metas := bucketMetas X uuid (byBucket X s.mem.manifest.buckets msg.events)
      let effects := bucketsEffects X io uuid (byBucket X s.mem.manifest.buckets msg.events)
      let m := s.mem.manifest.commitFlush metas msg.sealedWalId
      if io.saveOk then
        ⟨effects ++ .manifestSave m.saved :: deleteThroughEffects s.disk.wal msg.sealedWalId,
          { s.mem with manifest := m.saved }⟩
      else ⟨effects ++ rollbackPartial metas, { s.mem with manifest := m }⟩ := by
  rw [handleMessage, if_neg (by simpa using hne), attemptFlush, writeBuckets_eq, hun]
  dsimp only [nil_append]
  split
  · rename_i o heq
    by_cases hsave : io.saveOk
    · rw [if_pos hsave] at heq ⊢
      exact (Prod.mk.inj heq).1.symm
    · rw [if_neg hsave] at heq
      cases (Prod.mk.inj heq).2
  · rename_i o failure heq
    by_cases hsave : io.saveOk
    · rw [if_pos hsave] at heq
      cases (Prod.mk.inj heq).2
    · rw [if_neg hsave] at heq ⊢
      obtain ⟨rfl, hfail⟩ := Prod.mk.inj heq
      cases hfail
      rfl

/-- A bucket could not be written: what was there is there, and what is handed back. -/
theorem has_of_unwritten (hnew : NewNames s.mem.manifest uuid) (clk : ℕ → ℤ) {b : ℕ × List UsageEvent}
    {rest : List (ℕ × List UsageEvent)}
    (hun : io.unwritten (byBucket X s.mem.manifest.buckets msg.events) = b :: rest) (e : UsageEvent) :
    ((handleMessage X io uuid clk s msg).state s).Has e ↔ s.Has e ∨ e ∈ (b :: rest).flatMap (·.2) := by
  rw [handleMessage_unwritten clk hun]
  generalize io.written (byBucket X s.mem.manifest.buckets msg.events) = bs
  have hseg := seg_rolledBack X io hnew bs
  rw [State.Has, State.Has, Outcome.state]
  rw [hasListed_congr hseg, Memtable.insertAll_events, mem_append, or_right_comm]

/-- The manifest could not be saved: nothing has come to what was there. -/
theorem has_of_unsaved (hnew : NewNames s.mem.manifest uuid) (clk : ℕ → ℤ) (hne : msg.events ≠ [])
    (hun : io.unwritten (byBucket X s.mem.manifest.buckets msg.events) = []) (hsave : io.saveOk = false)
    (e : UsageEvent) : ((handleMessage X io uuid clk s msg).state s).Has e ↔ s.Has e := by
  rw [handleMessage_written clk hne hun]
  rw [if_neg (by simp [hsave])]
  generalize byBucket X s.mem.manifest.buckets msg.events = bs
  have hseg := seg_rolledBack X io hnew bs
  have hgone : ∀ m ∈ bucketMetas X uuid bs, (s.disk.applyAll (bucketsEffects X io uuid bs ++
      rollbackPartial (bucketMetas X uuid bs))).seg m.segmentId = none := by
    intro m hm
    rw [Disk.applyAll_append, rollbackPartial_seg]
    dsimp only
    rw [if_pos (mem_map_of_mem hm)]
  rw [State.Has, State.Has, Outcome.state]
  rw [← hasListed_congr hseg]
  refine or_congr_right ⟨?_, ?_⟩
  · rintro ⟨m, hm, rows, hrows, he⟩
    rcases mem_append.1 hm with hm | hm
    · exact ⟨m, hm, rows, hrows, he⟩
    · rw [hgone m hm] at hrows
      cases hrows
  · rintro ⟨m, hm, rows, hrows, he⟩
    exact ⟨m, mem_append_left _ hm, rows, hrows, he⟩

/-- All went well: the message's events are in the new segments. -/
theorem has_of_saved (hnew : NewNames s.mem.manifest uuid) (clk : ℕ → ℤ) (hne : msg.events ≠ [])
    (hun : io.unwritten (byBucket X s.mem.manifest.buckets msg.events) = []) (hsave : io.saveOk)
    (he : e ∈ msg.events) : ((handleMessage X io uuid clk s msg).state s).Has e := by
  rw [handleMessage_written clk hne hun]
  rw [if_pos hsave]
  have hnodup :
      ((bucketMetas X uuid (byBucket X s.mem.manifest.buckets msg.events)).map
          (·.segmentId)).Nodup := by
    rw [map_bucketMetas]
    exact groups_nodup.map (rawSegmentId_injective.comp hnew.injective)
  obtain ⟨b, hb, heb⟩ := mem_flatMap.1 ((mem_byBucket_flatMap X s.mem.manifest.buckets).2 he)
  refine .inr ⟨(bucketSegment X uuid b.1 b.2).1, mem_append_right _ (mem_map_of_mem hb),
    sortEventsCanonical b.2, ?_, (sortEventsCanonical_perm b.2).mem_iff.2 heb⟩
  have hlog : ∀ x ∈ deleteThroughEffects s.disk.wal msg.sealedWalId, x.OnLog := by
    intro x hx
    obtain ⟨id, -, rfl⟩ := mem_map.1 hx
    trivial
  rw [Outcome.state, Disk.applyAll_append, Disk.applyAll_cons, (Disk.applyAll_onLog hlog _).1]
  exact (bucketsEffects_seg s.disk _).2 hnodup b hb

/-- **Which events of a message are there when `handle_message` returns**: all of them, exactly
when those that were neither committed nor handed back had been there before. -/
theorem has_handleMessage_iff (hnew : NewNames s.mem.manifest uuid) (clk : ℕ → ℤ) :
    (∀ e ∈ msg.events, ((handleMessage X io uuid clk s msg).state s).Has e) ↔
      ∀ e ∈ flushLost X io s.mem.manifest.buckets msg.events, s.Has e := by
  by_cases hne : msg.events = []
  · have hnil : flushLost X io s.mem.manifest.buckets [] = [] := by
      rw [flushLost]
      exact ite_self _
    rw [hne, hnil]
    simp
  rw [flushLost]
  cases hun : io.unwritten (byBucket X s.mem.manifest.buckets msg.events) with
  | cons b rest =>
    have hsplit := written_append io (byBucket X s.mem.manifest.buckets msg.events)
    constructor
    · intro hall e he
      have hmem : e ∈ msg.events := by
        rw [← mem_byBucket_flatMap X s.mem.manifest.buckets, ← hsplit, flatMap_append]
        exact mem_append_left _ he
      refine ((has_of_unwritten hnew clk hun e).1 (hall e hmem)).resolve_right ?_
      rw [← hun]
      exact not_mem_unwritten he
    · intro hlost e he
      rw [has_of_unwritten hnew clk hun]
      rw [← mem_byBucket_flatMap X s.mem.manifest.buckets, ← hsplit, flatMap_append, hun] at he
      rcases mem_append.1 he with he | he
      · exact .inl (hlost e he)
      · exact .inr he
  | nil =>
    by_cases hsave : io.saveOk
    · have hall : ∀ e ∈ msg.events, ((handleMessage X io uuid clk s msg).state s).Has e :=
        fun e he => has_of_saved hnew clk hne hun hsave he
      simpa [hsave] using hall
    · rw [Bool.not_eq_true] at hsave
      simp only [hsave, has_of_unsaved hnew clk hne hun hsave, Bool.false_eq_true, if_false]

end Has

/-! ### Runs with failed flushes -/

/-- How a flush fails, with the names it draws and its readings of the clock. -/
structure FlushFault where
  /-- Which buckets can be written. -/
  io : FlushIo
  /-- The names. -/
  uuid : ℕ → String
  /-- The clock. -/
  clk : ℕ → ℤ

/-- The flusher takes the next message, and cannot write all of its buckets. -/
def FailedFlush (X : Extern) (s : State) (f : FlushFault) (s' : State) : Prop :=
  ∃ msg rest, s.mem.queue = msg :: rest ∧ (Op.flush f.uuid f.clk).Fresh s ∧
    f.io.unwritten (byBucket X s.mem.manifest.buckets msg.events) ≠ [] ∧
    s' = (handleMessage X f.io f.uuid f.clk ⟨s.disk, { s.mem with queue := rest }⟩ msg).state s

/-- A flush that fails hands back all events of its message, and no other message waits. -/
def GivesAllBack (X : Extern) (s : State) (f : FlushFault) : Prop :=
  ∃ msg, s.mem.queue = [msg] ∧ flushLost X f.io s.mem.manifest.buckets msg.events = []

section Runs

variable {D : Multiset UsageEvent → Prop} {c : Multiset UsageEvent} {io : FlushIo} {uuid : ℕ → String}
  {msg : FlushMessage}

/-- A failed flush that loses nothing has written nothing. -/
theorem written_eq_nil {buckets : ℕ} (hun : io.unwritten (byBucket X buckets events) ≠ [])
    (hlost : flushLost X io buckets events = []) : io.written (byBucket X buckets events) = [] := by
  rw [flushLost] at hlost
  cases hcases : io.unwritten (byBucket X buckets events) with
  | nil => exact absurd hcases hun
  | cons b rest =>
    rw [hcases] at hlost
    rw [eq_nil_iff_forall_not_mem]
    intro b' hb'
    have hmem : b' ∈ byBucket X buckets events := ( takeWhile_prefix _).subset hb'
    exact (mem_groups.1 hmem).2 (flatMap_eq_nil_iff.1 hlost b' hb')

/-- **A failed flush that hands everything back keeps the state in order**: the disk is as it
was, and the memtable has the events of the message again. -/
theorem SysOk.failedFlush (h : SysOk X cfg D c (.up s)) (clk : ℕ → ℤ) (hq : s.mem.queue = [msg])
    (hun : io.unwritten (byBucket X s.mem.manifest.buckets msg.events) ≠ [])
    (hlost : flushLost X io s.mem.manifest.buckets msg.events = []) :
    SysOk X
      cfg D c (.up ((handleMessage X io uuid clk ⟨s.disk,
        { s.mem with queue := [] }⟩ msg).state s)) := by
  obtain ⟨hd, hm⟩ := h
  have hnone := written_eq_nil hun hlost
  have hall : io.unwritten (byBucket X s.mem.manifest.buckets msg.events) =
      byBucket X s.mem.manifest.buckets msg.events := by
    have hsplit := written_append io (byBucket X s.mem.manifest.buckets msg.events)
    rwa [hnone, nil_append] at hsplit
  obtain ⟨b, rest, hcons⟩ := exists_cons_of_ne_nil hun
  have hback : ((b :: rest).flatMap (·.2)).Perm msg.events := by
    rw [← hcons, hall]
    exact perm_groups _ _
  have heq : handleMessage X io uuid clk ⟨s.disk, { s.mem with queue := [] }⟩ msg =
      ⟨[], { s.mem with queue := [], memtable := s.mem.memtable.insertAll X ((b ::
          rest).flatMap (·.2)) clk }⟩ := by
    rw [handleMessage_unwritten (s := ⟨s.disk, { s.mem with queue := [] }⟩) clk hcons]
    rw [hnone]
    rfl
  rw [heq]
  have hcov := hm.covers
  rw [hq] at hcov
  obtain ⟨hlt, hmsg, hlt', hmem⟩ := hcov
  have hperm : (s.mem.memtable.insertAll X ((b :: rest).flatMap (·.2)) clk).events.Perm
      (s.disk.wal.slice s.mem.manifest.lastSealedWalId s.mem.activeId) := by
    rw [Memtable.insertAll_events, WalDir.slice_append hd.1.sorted hlt.le hlt'.le]
    exact perm_append_comm.trans ((hback.trans hmsg).append hmem)
  exact ⟨hd, hm.loaded, hm.active, hm.last, hlt.trans hlt', hperm⟩

theorem keepsOrder_failedFlush :
    KeepsOrder X cfg fun s f s' => FailedFlush X s f s' ∧ GivesAllBack X s f := by
  rintro D c s f s' ⟨⟨msg, rest, hq, -, hun, rfl⟩, msg', hq', hlost⟩ h
  obtain ⟨rfl, rfl⟩ := List.cons.inj (hq.symm.trans hq')
  exact h.failedFlush f.clk hq hun hlost

end Runs

/-- **What a failed flush keeps.** When `handle_message` returns, every event of the message is
in the memtable or in a listed segment whose file exists, exactly when the events that were
neither committed nor handed back had been there before. In every run in which each failed
flush hands back all events of its message, with no other message waiting, every accepted
event is in a listed segment or in a log file above the seal, in every state; so the log files
that a later flush deletes are not missed. (Compaction drops events that repeat an id, so with
it the ids have to be different.) -/
theorem failed_flush_keeps_events (X : Extern) (cfg : Config) :
    (∀ (s : State) (msg : FlushMessage) (io : FlushIo) (uuid : ℕ → String) (clk : ℕ →
      ℤ), NewNames s.mem.manifest uuid →
      ((∀ e ∈ msg.events, ((handleMessage X io uuid clk s msg).state s).Has e) ↔
        ∀ e ∈ flushLost X io s.mem.manifest.buckets msg.events, s.Has e)) ∧
    ∀ (ls : List (FaultLabel FlushFault)) (sys : Sys) (c : Multiset UsageEvent),
      Run (FaultStep X cfg
        fun s f s' => FailedFlush X s f s' ∧ GivesAllBack X s f) (.down .empty, 0) ls (sys, c) →
      ((∀ l ∈ ls, ¬ l.Compacts) ∨ DistinctIds c) → ∀ e ∈ c, sys.disk.Durable e := by
  refine ⟨fun s msg io uuid clk hnew => has_handleMessage_iff hnew clk, fun ls sys c hrun hids => ?_⟩
  exact (durable_of_faultRun keepsOrder_failedFlush hrun hids).2

/-! ### Two failures -/

/-- All can be written but one bucket. -/
def FlushIo.failsAt (bucket : ℕ) : FlushIo := { FlushIo.ok with writeOk := fun b => b ≠ bucket }

/-- The first names, and others for a later flush. -/
def evenUuid (n : ℕ) : String := sampleUuid (2 * n)

/-- See `evenUuid`. -/
def oddUuid (n : ℕ) : String := sampleUuid (2 * n + 1)

theorem evenUuid_injective : Function.Injective evenUuid :=
  sampleUuid_injective.comp fun n m h => by simpa using h

theorem oddUuid_injective : Function.Injective oddUuid :=
  sampleUuid_injective.comp fun n m h => by simpa using h

theorem oddUuid_ne_evenUuid (n m : ℕ) : rawSegmentId (oddUuid n) ≠ rawSegmentId (evenUuid m) := by
  intro h
  have := sampleUuid_injective (rawSegmentId_injective h)
  omega

/-- A name that a failed flush does not draw stays unused. -/
theorem unused_failedFlush {io : FlushIo} {uuid : ℕ → String} {msg : FlushMessage} {id : String}
    (h : s.Unused id)
    (hne : ∀ b, id ≠ rawSegmentId (uuid b)) (clk : ℕ → ℤ) (rest : List FlushMessage)
    (hun : io.unwritten (byBucket X s.mem.manifest.buckets msg.events) ≠ []) :
    ((handleMessage X io uuid clk ⟨s.disk, { s.mem with queue := rest }⟩ msg).state s).Unused id := by
  obtain ⟨b, rest', hcons⟩ := exists_cons_of_ne_nil hun
  rw [handleMessage_unwritten (s := ⟨s.disk, { s.mem with queue := rest }⟩) clk hcons]
  exact h.avoids (rolledBack_avoids hne _) fun hmem => hmem

/-- The first bucket fails: both events go into the memtable again, and the next flush commits
them. -/
theorem failed_flush_keeps_events_of_first_bucket :
    let f : FlushFault := ⟨.failsAt 0, evenUuid, fun _ => 9000000⟩
    let ls := twoBuckets ++ [.fault f] ++ [.sound (.run .drain)] ++
      [.sound (.run (.flush oddUuid fun _ => 9000000))]
    NewNames drainedState.mem.manifest evenUuid ∧
      (∀ e ∈ drainedMessage.events, ((handleMessage .sample f.io f.uuid f.clk drainedState
        drainedMessage).state drainedState).Has e) ∧
      ∃ s c, Run (FaultStep .sample sampleConfig fun s f s' => FailedFlush .sample s f s' ∧
          GivesAllBack .sample s f) (.down .empty, 0) ls (.up s, c) ∧
        c.card = 2 ∧ (∀ l ∈ ls, ¬ l.Compacts) ∧ ∀ e ∈ c, s.disk.Durable e := by
  intro f ls
  have hnew : NewNames drainedState.mem.manifest evenUuid :=
    newNames_of_unused (fun _ => unused_drainedState _) evenUuid_injective
  have hlost : flushLost .sample f.io drainedState.mem.manifest.buckets drainedMessage.events = [] := by
    decide +kernel
  have hun :
      f.io.unwritten (byBucket .sample drainedState.mem.manifest.buckets drainedMessage.events) ≠
          [] := by
    decide +kernel
  obtain ⟨c, hrun, rfl⟩ :=
    run_twoBuckets fun s f s' => FailedFlush .sample s f s' ∧ GivesAllBack .sample s f
  have hfail := hrun.snoc (.fault (f := f) ⟨⟨_, _, queue_drainedState, ⟨fun n => unused_drainedState _,
    evenUuid_injective⟩, hun, rfl⟩, drainedMessage, queue_drainedState, hlost⟩)
  have hdrain := hfail.snoc (.sound (.run (show Op.Fresh _ .drain from trivial)))
  have hflush := hdrain.snoc (.sound (.run (show Op.Fresh _ (.flush oddUuid fun _ => 9000000) from
    ⟨fun n => (unused_failedFlush (unused_drainedState _) (oddUuid_ne_evenUuid n) _ _ hun).onLog
      (onLog_drainIf _ _), oddUuid_injective⟩)))
  have hcomp : ∀ l ∈ ls, ¬ l.Compacts := by
    simp [ls, twoBuckets, FaultLabel.Compacts, Label.Compacts, Op.Compacts]
  obtain ⟨hhas, hruns⟩ := failed_flush_keeps_events .sample sampleConfig
  have hback : ∀ e ∈ flushLost .sample f.io drainedState.mem.manifest.buckets drainedMessage.events,
      drainedState.Has e := by
    rw [hlost]
    exact fun e he => by cases he
  have hbook := hruns _ _ _ hflush (.inl hcomp)
  exact ⟨hnew, (hhas _ _ _ _ _ hnew).2 hback, _, _, hflush, by decide +kernel, hcomp, hbook⟩

/-- **The first bucket is lost when the second fails.** The segment of `bolt`'s event is
written and taken back, and only `acme`'s event goes into the memtable again. The next flush
that succeeds seals the log file of both and deletes it: `bolt`'s event, which was accepted,
is nowhere any more. -/
theorem failed_flush_loses_event :
    let failed := twoBuckets ++ [.fault ⟨.failsAt 1, evenUuid, fun _ => 9000000⟩]
    let later := failed ++ [.sound (.run .drain)] ++ [.sound (.run (.flush oddUuid fun _ => 9000000))]
    let e := (sampleEvent "a" "bolt" 7200000 5).stamp sampleClock.now
    (∃ s c, Run (FaultStep .sample sampleConfig (FailedFlush .sample)) (.down .empty, 0)
        failed (.up s, c) ∧ e ∈ c ∧ ¬ s.Has e) ∧
      ∃ s c, Run (FaultStep .sample sampleConfig (FailedFlush .sample))
        (.down .empty, 0) later (.up s, c) ∧ e ∈ c ∧ ¬ s.Has e ∧ ¬ s.disk.Durable e := by
  intro failed later e
  obtain ⟨c, hrun, rfl⟩ := run_twoBuckets (FailedFlush .sample)
  have hun : (FlushIo.failsAt 1).unwritten (byBucket .sample drainedState.mem.manifest.buckets
      drainedMessage.events) ≠ [] := by decide +kernel
  have hfail := hrun.snoc (.fault (f := ⟨.failsAt 1, evenUuid, fun _ => 9000000⟩)
    ⟨_, _, queue_drainedState, ⟨fun n => unused_drainedState _, evenUuid_injective⟩, hun, rfl⟩)
  have hdrain := hfail.snoc (.sound (.run (show Op.Fresh _ .drain from trivial)))
  have hflush := hdrain.snoc (.sound (.run (show Op.Fresh _ (.flush oddUuid fun _ => 9000000) from
    ⟨fun n => (unused_failedFlush (unused_drainedState _) (oddUuid_ne_evenUuid n) _ _ hun).onLog
      (onLog_drainIf _ _), oddUuid_injective⟩)))
  refine ⟨⟨_, _, hfail, ?_, ?_⟩, _, _, hflush, ?_, ?_, ?_⟩
  · decide +kernel
  · decide +kernel
  · decide +kernel
  · decide +kernel
  · rw [Disk.durable_iff]
    decide +kernel

end UsageDb
