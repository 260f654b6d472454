import UsageDb.Runtime.Invariant

/-!
# Every operation keeps the state in order

One section for each operation: what its durable steps do to the disk, one by one, and
that the memory agrees with the disk at its end. `SysOk.step` at the end puts them
together for the system.
-/

namespace UsageDb

open Lib List

variable {X : Extern} {cfg : Config} {D : Multiset UsageEvent → Prop} {c : Multiset UsageEvent}
    {d : Disk} {s : State}
  {id buckets : ℕ} {m : Manifest}

/-! ### Ingest and drain -/

theorem DistinctIds.left {c c' : Multiset UsageEvent} (h : DistinctIds (c + c')) : DistinctIds c := by
  rw [DistinctIds, Multiset.map_add] at h
  exact Multiset.nodup_of_le (Multiset.le_add_right _ _) h

/-- A new log file after all others. -/
theorem Holds.walCreate (h : Holds X cfg D c d) (hid : ∀ i ∈ d.wal.ids, i < id) :
    Holds X cfg D c (d.apply (.walCreate id)) := by
  have hwal : d.apply (.walCreate id) = { d with wal := d.wal ++ [(id, [])] } := by
    simp only [Disk.apply, WalDir.create_of_forall_lt hid]
  rw [hwal]
  refine ⟨⟨h.1.sorted.append_singleton hid [], ?_, fun s hs => ?_, h.1.ids, h.1.replaced,
    h.1.bucketCount⟩, fun hc => ?_⟩
  · intro f hf e he
    rcases mem_append.1 hf with hf | hf
    · exact h.1.positive f hf e he
    · rw [mem_singleton.1 hf] at he
      cases he
  · exact (h.1.segments s hs).congr rfl rfl
  · rw [← h.2 hc, Disk.content, Disk.content, Disk.walEvents, Disk.walEvents, WalDir.after,
      filter_append, flatMap_append]
    have hnone : (([(id, [])] : WalDir (List UsageEvent)).filter fun f =>
        d.loadManifest.lastSealedWalId < f.1).flatMap (·.2) = [] := by
      by_cases hlt : d.loadManifest.lastSealedWalId < id <;> simp [hlt]
    exact congrArg (fun l => (↑(d.rawEvents d.loadManifest ++
      ((d.wal.after d.loadManifest.lastSealedWalId).flatMap (·.2) ++ l)) : Multiset UsageEvent)) hnone
      |>.trans (by rw [append_nil])

/-- An append to the last file, which is above the seal. -/
theorem Holds.walAppend {new : List UsageEvent} (hD : D (c + ↑new) → D c) (h : Holds X cfg D c d)
    (hid : id ∈ d.wal.ids)
    (hlast : ∀ i ∈ d.wal.ids, i ≤ id) (hseal : d.loadManifest.lastSealedWalId < id)
    (hpos : ∀ e ∈ new, 0 < (e.timestampMs : ℤ)) :
      Holds X cfg D (c + ↑new) (d.apply (.walAppend id new)) := by
  refine ⟨⟨h.1.sorted.modify id (· ++ new), ?_,
    fun s hs => ?_, h.1.ids, h.1.replaced, h.1.bucketCount⟩, fun hc => ?_⟩
  · intro f hf e he
    obtain ⟨g, hg, rfl⟩ := mem_map.1 hf
    split at he
    · rcases mem_append.1 he with he | he
      · exact h.1.positive g hg e he
      · exact hpos e he
    · exact h.1.positive g hg e he
  · exact (h.1.segments s hs).congr rfl rfl
  · have hslice : (d.apply (.walAppend id new)).walEvents d.loadManifest.lastSealedWalId =
        d.walEvents d.loadManifest.lastSealedWalId ++ new := by
      have hlast' : ∀ i ∈ (d.apply (.walAppend id new)).wal.ids, i ≤ id := by
        simp only [Disk.apply, WalDir.ids_modify]
        exact hlast
      rw [Disk.walEvents, Disk.walEvents, WalDir.flatMap_after hlast, WalDir.flatMap_after hlast']
      exact WalDir.slice_modify_last h.1.sorted hid hlast hseal new
    rw [← h.2 (hD hc), Disk.content, Disk.content, Multiset.coe_add, append_assoc, ← hslice]
    rfl

/-- Draining the memtable, rotating the log and sending the batch. -/
theorem keeps_drain (hd : Holds X cfg D c s.disk) (hm : MemOk s) :
    Keeps X cfg D c s s.mem.drainAndRotate.sent := by
  have hlt : ∀ i ∈ s.disk.wal.ids, i < s.mem.activeId + 1 :=
    fun i hi => Nat.lt_succ_of_le (hm.last i hi)
  have hwal : (s.disk.apply (.walCreate (s.mem.activeId + 1))).wal = s.disk.wal ++
      [(s.mem.activeId + 1, [])] :=
    WalDir.create_of_forall_lt hlt _
  have hids : (s.disk.apply (.walCreate (s.mem.activeId + 1))).wal.ids =
      s.disk.wal.ids ++ [s.mem.activeId + 1] := by
    rw [hwal, WalDir.ids_append]
    rfl
  refine ⟨EveryPrefix.cons hd (EveryPrefix.nil (hd.walCreate hlt)), ?_⟩
  constructor
  · exact hm.loaded
  · have : s.mem.activeId + 1 ∈ s.disk.wal.ids ++ [s.mem.activeId + 1] := by simp
    rw [← hids] at this
    exact this
  · intro i hi
    rcases mem_append.1 (hids ▸ hi) with hi | hi
    · exact (hlt i hi).le
    · exact (mem_singleton.1 hi).le
  · have hcov := hm.covers.drain hm.last le_rfl
    rw [← hwal] at hcov
    exact hcov

theorem keeps_drainIf (hd : Holds X cfg D c s.disk) (hm : MemOk s) (cond : Bool) :
    Keeps X cfg D c s (s.mem.drainIf cond).sent := by
  rw [Mem.drainIf]
  split
  · exact keeps_drain hd hm
  · exact Keeps.skip hd hm

/-- The new events are accepted, then the memtable is drained if there is too much in it. -/
def acceptAndDrain (X : Extern) (cfg : Config) (clk : IngestClock) (new : List Classified)
    (s : State) : Outcome :=
  (⟨appendEffects s.mem.activeId (new.map (·.event)), s.mem.accept X clk new⟩ : Outcome).andThen s
      fun s' =>
    (s'.mem.drainIf (cfg.maxMemtableSizeBytes < s'.mem.memtable.approxSizeBytes)).sent

/-- This is what a request does. -/
theorem handleIngest_eq (clk : IngestClock) (events : List UsageEvent) (s : State) :
    (handleIngest X cfg clk events s).1 = acceptAndDrain X cfg clk (classifyBatch s.mem.dedupe
      (classifiedEvents X s.mem.manifest.closedPeriods clk.now events)).newEvents s := rfl

/-- Drains and requests only work on the log. -/
theorem onLog_drainIf (s : State) (cond : Bool) : (s.mem.drainIf cond).sent.OnLog s := by
  unfold Mem.drainIf
  split
  · refine ⟨rfl, fun x hx => ?_⟩
    rw [mem_singleton.1 hx]
    trivial
  · exact ⟨rfl, fun x hx => by cases hx⟩

theorem onLog_acceptAndDrain (s : State) (clk : IngestClock) (new : List Classified) :
    (acceptAndDrain X cfg clk new s).OnLog s := by
  refine Outcome.OnLog.andThen ⟨rfl, fun x hx => ?_⟩ (onLog_drainIf _ _)
  rw [appendEffects] at hx
  split at hx
  · cases hx
  · rw [mem_singleton.1 hx]
    trivial

theorem onLog_ingest (s : State) (clk : IngestClock) (events : List UsageEvent) :
    (handleIngest X cfg clk events s).1.OnLog s := onLog_acceptAndDrain s clk _

/-- What a request accepts has passed validation. -/
theorem accepts_positive (op : Op) {e : UsageEvent} (he : e ∈ op.accepts X s) :
    0 < (e.timestampMs : ℤ) := by
  cases op with
  | ingest clk events =>
    obtain ⟨c, hc, rfl⟩ := mem_map.1 he
    obtain ⟨e', -, hadm, rfl⟩ := mem_newEvents hc
    rw [admits, Bool.and_eq_true, decide_eq_true_eq] at hadm
    exact hadm.1.timestamp_pos
  | _ => cases he

/-- Accepting new events: the append and what follows it in memory. -/
theorem accept_ok {new : List Classified} (hD : D (c + ↑(new.map (·.event))) → D c)
    (hd : Holds X cfg D c s.disk) (hm : MemOk s) (clk : IngestClock)
    (hpos : ∀ e ∈ new.map (·.event), 0 < (e.timestampMs : ℤ)) :
    Holds X cfg D (c + ↑(new.map (·.event)))
      (s.disk.applyAll (appendEffects s.mem.activeId (new.map (·.event)))) ∧
      MemOk ⟨s.disk.applyAll (appendEffects s.mem.activeId (new.map (·.event))),
        s.mem.accept X clk new⟩ := by
  have hseal : s.disk.loadManifest.lastSealedWalId < s.mem.activeId :=
    hm.loadManifest ▸ hm.covers.lt_active
  have hcov := hm.covers.append hd.1.sorted hm.active hm.last (new.map (·.event))
  rw [appendEffects]
  split
  · rename_i hnil
    have hnil : new.map (·.event) = [] := by simpa using hnil
    have hsame : c + ↑(new.map (·.event)) = c := by simp [hnil]
    rw [hsame]
    refine ⟨hd, ⟨hm.loaded, hm.active, hm.last, ?_⟩⟩
    simpa [Mem.accept, hnil] using hm.covers
  · refine ⟨Holds.walAppend hD hd hm.active hm.last hseal hpos, ⟨hm.loaded, ?_, ?_, ?_⟩⟩
    · simpa [Disk.apply, Mem.accept] using hm.active
    · simpa [Disk.apply, Mem.accept] using hm.last
    · simpa [Disk.apply, Mem.accept] using hcov

/-- An append cut by a crash: nothing, or all of it and some of what follows. -/
theorem Holds.append_prefix (h : Holds X cfg D c d) {new : List UsageEvent} {rest : List Effect}
    (hrest : EveryPrefix Disk.apply (Holds X cfg D (c + ↑new)) (d.applyAll (appendEffects id new))
      rest) (k : ℕ) :
    Holds X cfg D (if k = 0 then c else c + ↑new)
      (d.applyAll ((appendEffects id new ++ rest).take k)) := by
  cases new with
  | nil =>
    have hk : Holds X cfg D (c + ↑([] : List UsageEvent)) (d.applyAll (rest.take k)) := hrest k
    simpa [appendEffects] using hk
  | cons e new =>
    cases k with
    | zero => simpa using h
    | succ k => exact hrest k

/-- **Accepting keeps the state in order**: cut before the append it changes nothing, after
it the new events are there. -/
theorem acceptAndDrain_ok {new : List Classified} (hD : D (c + ↑(new.map (·.event))) → D c)
    (hd : Holds X cfg D c s.disk) (hm : MemOk s) (clk : IngestClock)
    (hpos : ∀ e ∈ new.map (·.event), 0 < (e.timestampMs : ℤ)) :
    (∀ k, Holds X cfg D (if k = 0 then c else c + ↑(new.map (·.event)))
        (s.disk.applyAll ((acceptAndDrain X cfg clk new s).effects.take k))) ∧
      Holds X cfg D (c + ↑(new.map (·.event))) ((acceptAndDrain X cfg clk new s).state s).disk ∧
      MemOk ((acceptAndDrain X cfg clk new s).state s) := by
  obtain ⟨hd', hm'⟩ := accept_ok hD hd hm clk hpos
  have hrest := keeps_drainIf hd' hm'
    (cfg.maxMemtableSizeBytes < (s.mem.accept X clk new).memtable.approxSizeBytes)
  rw [acceptAndDrain, Outcome.andThen_state]
  refine ⟨fun k => ?_, hrest.prefixes.all, hrest.mem⟩
  exact hd.append_prefix hrest.prefixes k

/-- So does a request. -/
theorem ingest_ok (hD : ∀ {c c'}, D (c + c') → D c) (hd : Holds X cfg D c s.disk) (hm : MemOk s)
    (clk : IngestClock) (events : List UsageEvent) :
    (∀ k, Holds X cfg D (if k = 0 then c else c + ↑((Op.ingest clk events).accepts X s))
        (s.disk.applyAll ((handleIngest X cfg clk events s).1.effects.take k))) ∧
      Holds X cfg D (c + ↑((Op.ingest clk events).accepts X s))
        ((handleIngest X cfg clk events s).1.state s).disk ∧
      MemOk ((handleIngest X cfg clk events s).1.state s) :=
  acceptAndDrain_ok hD hd hm clk fun _ he => accepts_positive (.ingest clk events) he

/-! ### Flush -/

/-- A segment that has just been written, with its sidecar, is in order. -/
theorem segmentOk_written {m : SegmentMeta} {rows : List UsageEvent}
    (hseg : d.seg m.segmentId = some rows) (hidx : d.idx m.segmentId = some (rows.map (indexEntry X)))
    (hmeta : m = buildSegmentMeta m.segmentId rows m.bucket (X.segmentChecksum rows))
    (hbucket : ∀ e ∈ rows, X.bucketForAccount e.accountId buckets = m.bucket)
    (hpos : ∀ e ∈ rows, 0 < (e.timestampMs : ℤ)) : SegmentOk X d buckets m := by
  have hrows : d.rows m = rows := by rw [Disk.rows, hseg]; rfl
  constructor
  · rw [hrows, hseg]
  · rw [hrows]; exact hmeta
  · rw [hrows]; exact hbucket
  · rw [hrows]; exact hpos
  · intro entries hentries
    rw [hrows]
    exact Option.some.inj (hentries.symm.trans hidx)

theorem slice_positive (hd : DiskOk X cfg d) {lo hi : ℕ} {e : UsageEvent} (he : e ∈ d.wal.slice lo hi) :
    0 < (e.timestampMs : ℤ) := by
  obtain ⟨f, hf, he⟩ := mem_flatMap.1 he
  exact hd.positive f (mem_of_mem_filter hf) e he

theorem State.Unused.notListed {id : String} (h : s.Unused id)
    (hload : s.disk.manifest = some s.mem.manifest) :
    id ∉ s.disk.loadManifest.rawIds := by
  rw [loadManifest_eq hload]
  exact fun hmem => h.manifest (.inl hmem)

/-- A segment with an unused name is not listed. -/
theorem State.Unused.unlisted {id : String} {r : List UsageEvent} (h : s.Unused id)
    (hload : s.disk.manifest = some s.mem.manifest) :
    ∀ x ∈ [.segWrite id r, .idxWrite id (r.map (indexEntry X))],
      Effect.Unlisted s.disk.loadManifest.rawIds x := by
  intro x hx
  simp only [mem_cons, not_mem_nil, or_false] at hx
  rcases hx with rfl | rfl <;> exact h.notListed hload

section Flush

variable {uuid : ℕ → String} {msg : FlushMessage} {rest : List FlushMessage}

/-- The steps that write the segments of a message. -/
theorem flush_unlisted (hm : MemOk s) (hnew : NewNames s.mem.manifest uuid) (events : List UsageEvent) :
    ∀ x ∈ segmentEffects X (flushSegments X uuid s.mem.manifest.buckets events),
      x.Unlisted s.disk.loadManifest.rawIds := by
  intro x hx
  obtain ⟨seg, hseg, hx⟩ := mem_flatMap.1 hx
  obtain ⟨b, -, rfl⟩ := mem_map.1 hseg
  have hnot := hnew.unlisted b.1
  rw [← hm.loadManifest] at hnot
  simp only [mem_cons, not_mem_nil, or_false] at hx
  rcases hx with rfl | rfl
  · exact hnot
  · exact hnot

/-- The files of these segments are there, with their sidecars. -/
def FilesOk (X : Extern) (d : Disk) (segs : List (SegmentMeta × List UsageEvent)) : Prop :=
  ∀ seg ∈ segs, d.seg seg.1.segmentId = some seg.2 ∧
    d.idx seg.1.segmentId = some (seg.2.map (indexEntry X))

theorem filesOk_segmentEffects (d : Disk) (huuid : Function.Injective uuid) (buckets : ℕ)
    (events : List UsageEvent) :
    FilesOk X (d.applyAll (segmentEffects X (flushSegments X uuid buckets events)))
      (flushSegments X uuid buckets events) :=
  fun _ hseg => segmentEffects_mem d (flushSegments_nodup huuid buckets events) hseg

/-- The segments of a message are in order once written. -/
theorem flushSegments_ok (hpos : ∀ e ∈ msg.events, 0 < (e.timestampMs : ℤ))
    (hfiles : FilesOk X d (flushSegments X uuid buckets msg.events)) {m : SegmentMeta}
    (hmem : m ∈ (flushSegments X uuid buckets msg.events).map (·.1)) : SegmentOk X d buckets m := by
  obtain ⟨seg, hseg, rfl⟩ := mem_map.1 hmem
  obtain ⟨hfile, hidx⟩ := hfiles seg hseg
  obtain ⟨⟨b, evs⟩, hb, rfl⟩ := mem_map.1 hseg
  obtain ⟨hevs, -⟩ := mem_groups.1 hb
  have hrow : ∀ e ∈ (bucketSegment X uuid b evs).2, e ∈ msg.events ∧
      X.bucketForAccount e.accountId buckets = b := by
    intro e he
    have he : e ∈ evs := (sortEventsCanonical_perm evs).mem_iff.1 he
    rw [hevs, mem_filter, decide_eq_true_eq] at he
    exact he
  exact segmentOk_written hfile hidx rfl (fun e he => (hrow e he).2) fun e he => hpos e (hrow e he).1

/-- What the segments hold after the commit of a flush: what was flushed is added. -/
theorem rawEvents_flush {events : List UsageEvent} (sealedId : ℕ)
    (hfiles : FilesOk X d (flushSegments X uuid buckets events)) :
    (d.rawEvents (m.commitFlush ((flushSegments X uuid buckets events).map (·.1)) sealedId)).Perm
      (d.rawEvents m ++ events) := by
  rw [Disk.rawEvents, Manifest.commitFlush, flatMap_append, flatMap_map]
  refine List.Perm.append_left _ (List.Perm.trans (List.Perm.of_eq ?_) (flushSegments_perm (X := X)
    uuid buckets events))
  refine flatMap_congr fun seg hseg => ?_
  rw [Disk.rows, (hfiles seg hseg).1]
  rfl

/-- The commit of a flush, once its files are there: the segments are listed, the seal moves
up, and what the disk holds is the same. -/
theorem Holds.commitFlush (hd : Holds X cfg D c s.disk) (hm : MemOk s) (hq : s.mem.queue = msg :: rest)
    (hnew : NewNames s.mem.manifest uuid)
    (hfiles : FilesOk X s.disk (flushSegments X uuid s.mem.manifest.buckets msg.events)) :
    Holds X cfg D c (s.disk.apply (.manifestSave (s.mem.manifest.commitFlush
        ((flushSegments X uuid s.mem.manifest.buckets msg.events).map (·.1))
          msg.sealedWalId).saved)) := by
  have hcov := hm.covers
  rw [hq] at hcov
  obtain ⟨hlt, hev, hcov⟩ := hcov
  have hpos : ∀ e ∈ msg.events, 0 < e.timestampMs := fun e he => slice_positive hd.1 (hev.subset he)
  have hload := hm.loadManifest
  have hname : ∀ id ∈ (flushSegments X uuid s.mem.manifest.buckets msg.events).map
      (fun seg => seg.1.segmentId), ∃ b, id = rawSegmentId (uuid b) := by
    intro id hid
    obtain ⟨seg, hseg, rfl⟩ := mem_map.1 hid
    obtain ⟨b, -, rfl⟩ := mem_map.1 hseg
    exact ⟨b.1, rfl⟩
  have hids : (s.mem.manifest.commitFlush
      ((flushSegments X uuid s.mem.manifest.buckets msg.events).map (·.1)) msg.sealedWalId).rawIds =
        s.mem.manifest.rawIds ++ (flushSegments X uuid s.mem.manifest.buckets msg.events).map
          fun seg => seg.1.segmentId := by
    simp [Manifest.rawIds, Manifest.commitFlush]
  refine hd.save ?_ ?_ ?_ ?_ ?_
  · intro m hmem
    rcases mem_append.1 hmem with hold | hmem
    · have hok := hd.1.segments m (hload ▸ hold)
      rw [hload] at hok
      exact hok
    · exact flushSegments_ok hpos hfiles hmem
  · rw [Manifest.saved_rawIds, hids]
    refine List.Nodup.append (hload ▸ hd.1.ids) (flushSegments_nodup hnew.injective _ _)
      fun id hold hid => ?_
    obtain ⟨b, rfl⟩ := hname id hid
    exact hnew.unlisted b hold
  · intro r hr id hid
    rw [Manifest.saved_rawIds, hids, mem_append, not_or]
    constructor
    · have hrep := hd.1.replaced r (hload ▸ hr) id hid
      rwa [hload] at hrep
    · intro hmem
      obtain ⟨b, rfl⟩ := hname id hmem
      exact hnew.unreplaced b r hr hid
  · exact (hload ▸ hd.1.bucketCount).resolve_left (by simp [hm.loaded])
  · intro hc
    have hseal : (s.mem.manifest.commitFlush
        ((flushSegments X uuid s.mem.manifest.buckets msg.events).map (·.1))
          msg.sealedWalId).saved.lastSealedWalId =
          msg.sealedWalId := by simp [Manifest.commitFlush, hlt]
    have hwal : (s.disk.walEvents s.mem.manifest.lastSealedWalId).Perm
        (msg.events ++ s.disk.walEvents msg.sealedWalId) := by
      rw [Disk.walEvents, Disk.walEvents, WalDir.flatMap_after hm.last, WalDir.flatMap_after hm.last,
        WalDir.slice_append hd.1.sorted hlt.le hcov.lt_active.le]
      exact hev.symm.append_right _
    rw [hseal, ← hd.2 hc, Disk.content, hload, Multiset.coe_eq_coe]
    refine ((rawEvents_flush msg.sealedWalId hfiles).append_right _).trans ?_
    rw [append_assoc]
    exact (hwal.append_left _).symm

/-- The memory after the commit, the message taken off the queue. -/
theorem MemOk.commitFlush (hm : MemOk s) (hq : s.mem.queue = msg :: rest) (metas : List SegmentMeta) :
    MemOk ⟨s.disk.apply (.manifestSave (s.mem.manifest.commitFlush metas msg.sealedWalId).saved),
      { s.mem with manifest := (s.mem.manifest.commitFlush metas
        msg.sealedWalId).saved, queue := rest }⟩ := by
  have hcov := hm.covers
  rw [hq] at hcov
  refine ⟨rfl, hm.active, hm.last, ?_⟩
  have hseal : (s.mem.manifest.commitFlush metas msg.sealedWalId).saved.lastSealedWalId =
      msg.sealedWalId := by
    simp [Manifest.commitFlush, hcov.1]
  show Covers s.disk.wal s.mem.activeId
    (s.mem.manifest.commitFlush metas msg.sealedWalId).saved.lastSealedWalId rest s.mem.memtable.events
  rw [hseal]
  exact hcov.2.2

/-- The memory does not mind that a sealed log file is deleted. -/
theorem MemOk.walDelete (hm : MemOk s) (hid : id ≤ s.mem.manifest.lastSealedWalId) :
    MemOk ⟨s.disk.apply (.walDelete id), s.mem⟩ := by
  have hids : (s.disk.apply (.walDelete id)).wal.ids = s.disk.wal.ids.filter fun i => decide (i ≠ id) :=
    WalDir.ids_filter fun i => decide (i ≠ id)
  have hne : s.mem.activeId ≠ id := (hid.trans_lt hm.covers.lt_active).ne'
  refine ⟨hm.loaded, ?_, ?_, hm.covers.delete hid⟩
  · rw [hids, mem_filter, decide_eq_true_eq]
    exact ⟨hm.active, hne⟩
  · intro i hi
    rw [hids, mem_filter] at hi
    exact hm.last i hi.1

/-- **The flusher keeps the state in order**, whatever step it is cut after. -/
theorem keeps_flush (hd : Holds X cfg D c s.disk) (hm : MemOk s) (clk : ℕ → ℤ)
    (hfresh : (Op.flush uuid clk).Fresh s) : Keeps X cfg D c s (flushNext X uuid clk s) := by
  have hnew := newNames_of_unused hfresh.1 hfresh.2
  rcases flushNext_cases X uuid clk s with hskip | ⟨msg, rest, hq, ⟨hempty, hdrop⟩ | ⟨segs, m,
    rfl, rfl, hflush⟩⟩
  · rw [hskip]
    exact Keeps.skip hd hm
  · have hcov := hm.covers
    rw [hq] at hcov
    rw [hdrop]
    exact ⟨EveryPrefix.nil hd, ⟨hm.loaded, hm.active, hm.last, hcov.drop_empty hd.1.sorted hempty⟩⟩
  · have hcov := hm.covers
    rw [hq] at hcov
    rw [hflush]
    have hunl := flush_unlisted (X := X) hm hnew msg.events
    have hag := agree_applyAll hunl
    have hm1 : MemOk ⟨s.disk.applyAll (segmentEffects X
        (flushSegments X uuid s.mem.manifest.buckets msg.events)), s.mem⟩ :=
      ⟨hag.manifest.trans hm.loaded, hag.wal ▸ hm.active, hag.wal ▸ hm.last, hag.wal ▸ hm.covers⟩
    have hd2 := (hd.agree hag).commitFlush hm1 hq hnew (filesOk_segmentEffects _ hnew.injective _ _)
    have hm2 := hm1.commitFlush hq ((flushSegments X uuid s.mem.manifest.buckets msg.events).map (·.1))
    -- the deletions keep both, one by one
    have hseal : msg.sealedWalId ≤ (s.mem.manifest.commitFlush
        ((flushSegments X uuid s.mem.manifest.buckets msg.events).map (·.1))
            msg.sealedWalId).saved.lastSealedWalId := by
      simp [Manifest.commitFlush, hcov.1]
    have hdel := hd2.deleteThrough s.disk.wal (show msg.sealedWalId ≤ _ from hseal)
    refine ⟨(hd.unlisted hunl).append (EveryPrefix.cons (hd.agree hag) hdel), ?_⟩
    have hmdel : EveryPrefix Disk.apply
        (fun t => MemOk ⟨t, _⟩) _ (deleteThroughEffects s.disk.wal msg.sealedWalId) :=
      EveryPrefix.of_forall hm2 fun t x hx ht => by
        obtain ⟨id, hid, rfl⟩ := mem_map.1 hx
        have hle : id ≤ msg.sealedWalId := by simpa using (mem_filter.1 hid).2
        exact ht.walDelete (hle.trans hseal)
    rw [Outcome.state, Disk.applyAll_append]
    exact hmdel.all

end Flush

/-! ### Operations that leave the raw segments alone -/

/-- Unlisted files are written or deleted. -/
theorem keepsOffLog_unlisted (hd : Holds X cfg D c s.disk) (hload : s.disk.manifest =
    some s.mem.manifest)
    {xs : List Effect} (hxs : ∀ x ∈ xs, x.Unlisted s.disk.loadManifest.rawIds) :
      KeepsOffLog X cfg D c s ⟨xs, s.mem⟩ := by
  have hag := agree_applyAll hxs
  exact ⟨hd.unlisted hxs, hag.manifest.trans hload, rfl, hag.wal, rfl⟩

/-- Unlisted files are written or deleted, then a manifest with the same seal is saved. -/
theorem keepsOffLog_save (hd : Holds X cfg D c s.disk) {xs : List Effect}
    (hxs : ∀ x ∈ xs, x.Unlisted s.disk.loadManifest.rawIds)
    (hsave : Holds X cfg D c ((s.disk.applyAll xs).apply (.manifestSave m)))
    (hseal : m.lastSealedWalId = s.mem.manifest.lastSealedWalId) :
    KeepsOffLog X cfg D c s ⟨xs ++ [.manifestSave m], { s.mem with manifest := m }⟩ := by
  have hag := agree_applyAll hxs
  have hend : s.disk.applyAll (xs ++ [.manifestSave m]) =
      (s.disk.applyAll xs).apply (.manifestSave m) := by
    rw [Disk.applyAll_append]
    rfl
  refine ⟨(hd.unlisted hxs).append (EveryPrefix.cons (hd.agree hag) (EveryPrefix.nil hsave)), ?_,
    hseal, ?_, rfl⟩
  · rw [Outcome.state, hend]
    rfl
  · rw [Outcome.state, hend]
    exact hag.wal

/-- The same, for a manifest with the same raw segments. -/
theorem keepsOffLog_saveSame (xs : List Effect) (hd : Holds X cfg D c s.disk)
    (hload : s.disk.manifest = some s.mem.manifest)
    (hxs : ∀ x ∈ xs, x.Unlisted s.disk.loadManifest.rawIds)
    (hraw : m.rawSegments = s.mem.manifest.rawSegments)
    (hseal : m.lastSealedWalId = s.mem.manifest.lastSealedWalId)
    (hb : m.bucketCount = s.mem.manifest.bucketCount)
    (hrep : ∀ r ∈ m.compactedReplacements, r ∈ s.mem.manifest.compactedReplacements) :
    KeepsOffLog X cfg D c s ⟨xs ++ [.manifestSave m], { s.mem with manifest := m }⟩ := by
  have hag := agree_applyAll hxs
  exact keepsOffLog_save hd hxs
    ((hd.agree hag).save_same (hag.manifest.trans hload) hraw hseal hb hrep) hseal

/-- The end of a rollup tick. -/
theorem keepsOffLog_commitTick (hd : Holds X cfg D c s.disk)
    (hload : s.disk.manifest = some s.mem.manifest)
    (segs : List (SegmentMeta × List HourlyRollupRecord)) (target : ℤ) :
    KeepsOffLog X cfg D c s (commitTick true s segs target) := by
  refine keepsOffLog_saveSame _ hd hload (fun x hx => ?_) rfl rfl rfl fun r hr => hr
  obtain ⟨seg, -, rfl⟩ := mem_map.1 hx
  trivial

/-- **A rollup tick keeps the state in order.** -/
theorem keeps_tick (hd : Holds X cfg D c s.disk) (hm : MemOk s) (now : ℤ) (uuid : ℤ → ℕ → String) :
    Keeps X cfg D c s (tick X cfg now uuid true s).1 :=
  tick_rule (.skip hd hm) (keeps_drainIf hd hm _) fun _ target =>
    (keepsOffLog_commitTick hd hm.loaded _ target).keeps hm

theorem keepsOffLog_closePeriod (hd : Holds X cfg D c s.disk)
    (hload : s.disk.manifest = some s.mem.manifest) (account : String) (year month : ℕ) (now : ℤ) :
    KeepsOffLog X cfg D c s (closePeriod X account year month now true s).1 := by
  rw [closePeriod]
  split
  · exact .skip hd hload
  split
  · exact .skip hd hload
  · exact keepsOffLog_saveSame [] hd hload (by simp) rfl rfl rfl fun r hr => hr

theorem keepsOffLog_reopenPeriod (hd : Holds X cfg D c s.disk)
    (hload : s.disk.manifest = some s.mem.manifest)
    (account : String) (year month : ℕ) :
      KeepsOffLog X cfg D c s (reopenPeriod account year month true s).1 := by
  rw [reopenPeriod]
  split
  · exact keepsOffLog_saveSame [] hd hload (by simp) rfl rfl rfl fun r hr => hr
  · rename_i hlen
    -- nothing was removed, so the list is the same
    have hsame : s.mem.manifest.reopen account year month = s.mem.manifest := by
      have hsub : (s.mem.manifest.closedPeriods.filter fun p => ¬ p.IsFor account year month).Sublist
          s.mem.manifest.closedPeriods := filter_sublist
      rw [Manifest.reopen, hsub.eq_of_length_le (not_lt.1 hlen)]
    rw [hsame]
    exact .skip hd hload

/-! ### Compaction -/

/-- The files that a sweep deletes are not listed. -/
theorem unlisted_sweepEffects (hd : Holds X cfg D c s.disk)
    (hload : s.disk.manifest = some s.mem.manifest) {graceMs now : ℤ} :
    ∀ x ∈ sweepEffects s.disk (s.mem.manifest.toFinalize graceMs now),
      x.Unlisted s.disk.loadManifest.rawIds := by
  intro x hx
  obtain ⟨id, hid, rfl⟩ := mem_map.1 hx
  obtain ⟨r, hr, hid⟩ := mem_flatMap.1 (mem_of_mem_filter hid)
  have hr : r ∈ s.disk.loadManifest.compactedReplacements := by
    rw [loadManifest_eq hload]
    exact mem_of_mem_filter hr
  exact hd.1.replaced r hr id hid

theorem keepsOffLog_sweep (hd : Holds X cfg D c s.disk)
    (hload : s.disk.manifest = some s.mem.manifest) (graceMs now : ℤ) :
    KeepsOffLog X cfg D c s (sweepPendingDeletions graceMs now true s).1 := by
  rw [sweepPendingDeletions]
  split
  · exact .skip hd hload
  · exact keepsOffLog_saveSame _ hd hload (unlisted_sweepEffects hd hload) rfl rfl rfl fun r hr =>
      mem_of_mem_filter hr

/-- The sweep only deletes segments that the manifest mentions. -/
theorem unused_sweep {id : String} {graceMs now : ℤ} (h : s.Unused id) :
    ((sweepPendingDeletions graceMs now true s).1.state s).Unused id := by
  rw [sweepPendingDeletions]
  split
  · exact h
  · rw [if_pos rfl]
    refine h.avoids (fun x hx => ?_) ?_
    · rcases mem_append.1 hx with hx | hx
      · obtain ⟨i, hi, rfl⟩ := mem_map.1 hx
        obtain ⟨r, hr, hi⟩ := mem_flatMap.1 (mem_of_mem_filter hi)
        rintro rfl
        exact h.manifest (.inr (.inr ⟨r, mem_of_mem_filter hr, hi⟩))
      · rw [mem_singleton.1 hx]
        trivial
    · rintro (hmem | hmem | ⟨r, hr, hmem⟩)
      · exact .inl hmem
      · exact .inr (.inl hmem)
      · exact .inr (.inr ⟨r, mem_of_mem_filter hr, hmem⟩)

section Compaction

variable {uuid : ℕ → String} {plan : CompactionPlan} {now : ℤ}

/-- What a plan is about: those of its segments that are listed are of its bucket, and none
has a name that is still to be given. -/
structure PlanOk (m : Manifest) (uuid : ℕ → String) (plan : CompactionPlan) : Prop where
  /-- The inputs are of one bucket. -/
  bucket : ∀ s ∈ m.rawSegments, s.segmentId ∈ plan.segmentIds → s.bucket = plan.bucket
  /-- No output is an input. -/
  apart : ∀ b, compactedSegmentId (uuid b) ∉ plan.segmentIds

/-- When all inputs are still listed, they are the plan's. -/
theorem perm_of_stillPresent (hids : m.rawIds.Nodup)
    (h : m.stillPresent plan) :
    ((m.rawSegments.filter fun s => s.segmentId ∈ plan.segmentIds).map (·.segmentId)).Perm
      plan.segmentIds := by
  have hsub : ((m.rawSegments.filter fun s => s.segmentId ∈ plan.segmentIds).map (·.segmentId)).Nodup :=
    hids.sublist (filter_sublist.map _)
  have hss : (m.rawSegments.filter fun s => s.segmentId ∈ plan.segmentIds).map (·.segmentId) ⊆
      plan.segmentIds := by
    intro id hid
    obtain ⟨s, hs, rfl⟩ := mem_map.1 hid
    simpa using (mem_filter.1 hs).2
  refine (hsub.subperm hss).perm_of_length_le ?_
  rw [length_map]
  exact (of_decide_eq_true h).ge

/-- What a plan reads is the rows of its inputs. -/
theorem perm_readSegments (hids : m.rawIds.Nodup)
    (h : m.stillPresent plan) :
    (d.readSegments plan.segmentIds).Perm
      ((m.rawSegments.filter fun s => s.segmentId ∈ plan.segmentIds).flatMap d.rows) := by
  have hperm := (perm_of_stillPresent hids h).symm
  refine (hperm.flatMap_right fun id => (d.seg id).getD []).trans (List.Perm.of_eq ?_)
  rw [flatMap_map]
  rfl

/-- The listed rows are those of the other segments and those of the inputs. -/
theorem perm_kept_readSegments (hids : m.rawIds.Nodup) (h : m.stillPresent plan) :
    ((m.rawSegments.filter fun s => s.segmentId ∉ plan.segmentIds).flatMap d.rows ++ d.readSegments
      plan.segmentIds).Perm
      (d.rawEvents m) := by
  have hsplit : ((m.rawSegments.filter fun s => s.segmentId ∈ plan.segmentIds).flatMap d.rows ++
      (m.rawSegments.filter
          fun s => s.segmentId ∉ plan.segmentIds).flatMap d.rows).Perm (d.rawEvents m) := by
    rw [← flatMap_append, Disk.rawEvents]
    refine List.Perm.flatMap_right _ ?_
    have := filter_append_perm (fun s : SegmentMeta => decide (s.segmentId ∈ plan.segmentIds))
      m.rawSegments
    simpa using this
  exact ((perm_readSegments hids h).append_left _).trans (perm_append_comm.trans hsplit)

/-- The merged rows are those of the inputs, if the ids are different. -/
theorem perm_compacted (hids : m.rawIds.Nodup)
    (h : m.stillPresent plan) (hdist : ((d.rawEvents m).map (·.eventId)).Nodup) :
    ((m.rawSegments.filter fun s => s.segmentId ∉ plan.segmentIds).flatMap d.rows ++
      sortAndDedupe (d.readSegments plan.segmentIds)).Perm (d.rawEvents m) := by
  have hsplit := perm_kept_readSegments (d := d) hids h
  have hnodup : ((d.readSegments plan.segmentIds).map (·.eventId)).Nodup := by
    have hall := (hsplit.map (·.eventId)).nodup_iff.2 hdist
    rw [map_append] at hall
    exact hall.of_append_right
  exact ((sortAndDedupe_perm hnodup).append_left _).trans hsplit

/-- The rows that are listed after a swap. -/
theorem rawEvents_swap (hloaded : s.disk.manifest = some s.mem.manifest) {new : Segment}
    (hunused : s.Unused new.1.segmentId) :
    ((s.disk.applyAll [.segWrite new.1.segmentId new.2,
      .idxWrite new.1.segmentId (new.2.map (indexEntry X))]).apply
        (.manifestSave (s.mem.manifest.swap plan new.1 now).saved)).rawEvents
          (s.mem.manifest.swap plan new.1 now).saved =
      (s.mem.manifest.rawSegments.filter
        fun s => s.segmentId ∉ plan.segmentIds).flatMap s.disk.rows ++ new.2 := by
  rw [Disk.rawEvents, Manifest.saved_rawSegments, Manifest.swap, flatMap_append, flatMap_singleton]
  congr 1
  · refine flatMap_congr fun m hmem => ?_
    have hid : m.segmentId ∈ s.disk.loadManifest.rawIds :=
      loadManifest_eq hloaded ▸ mem_map_of_mem (mem_of_mem_filter hmem)
    exact congrArg (·.getD []) ((agree_applyAll (hunused.unlisted (X := X) hloaded)).seg _ hid)
  · have hfile : (s.disk.applyAll [.segWrite new.1.segmentId new.2,
        .idxWrite new.1.segmentId (new.2.map (indexEntry X))]).seg new.1.segmentId = some new.2 :=
      Function.update_self _ _ _
    exact congrArg (·.getD []) hfile

/-- The commit of a plan. -/
theorem Holds.swap (hd : Holds X cfg DistinctIds c s.disk)
    (hloaded : s.disk.manifest = some s.mem.manifest) (hplan : PlanOk s.mem.manifest uuid plan)
    (hunused : s.Unused (compactedSegmentId (uuid plan.bucket)))
    (hpresent : s.mem.manifest.stillPresent plan) :
    let new := compactedSegment X s.disk uuid plan
    Holds X cfg DistinctIds c ((s.disk.applyAll [.segWrite new.1.segmentId new.2,
        .idxWrite new.1.segmentId (new.2.map (indexEntry X))]).apply
      (.manifestSave (s.mem.manifest.swap plan new.1 now).saved)) := by
  intro new
  have hload := loadManifest_eq hloaded
  have hids : s.mem.manifest.rawIds.Nodup := hload ▸ hd.1.ids
  have hunused : s.Unused new.1.segmentId := hunused
  have hag := agree_applyAll (hunused.unlisted (X := X) (r := new.2) hloaded)
  have hnew := hunused.manifest
  -- every merged row is a row of a listed segment of the bucket
  have hrow : ∀ e ∈ new.2, X.bucketForAccount e.accountId s.mem.manifest.buckets = plan.bucket ∧
      0 < e.timestampMs := by
    intro e he
    have he := (perm_readSegments hids hpresent).mem_iff.1 (mem_of_mem_sortAndDedupe he)
    obtain ⟨m, hmem, he⟩ := mem_flatMap.1 he
    rw [mem_filter, decide_eq_true_eq] at hmem
    have hok := hd.1.segments m (hload ▸ hmem.1)
    rw [hload] at hok
    exact ⟨(hok.bucket e he).trans (hplan.bucket m hmem.1 hmem.2), hok.positive e he⟩
  refine (hd.agree hag).save ?_ ?_ ?_ ?_ ?_
  · intro m hmem
    rcases mem_append.1 hmem with hold | hnew
    · have hold := mem_of_mem_filter hold
      have hid : m.segmentId ∈ s.disk.loadManifest.rawIds := hload ▸ mem_map_of_mem hold
      have hok := hd.1.segments m (hload ▸ hold)
      rw [hload] at hok
      exact hok.congr (hag.seg _ hid) (hag.idx _ hid)
    · rw [mem_singleton.1 hnew]
      exact segmentOk_written (Function.update_self _ _ _) (Function.update_self _ _ _) rfl
        (fun e he => (hrow e he).1) fun e he => (hrow e he).2
  · have hraw : (s.mem.manifest.swap plan new.1 now).saved.rawIds =
        (s.mem.manifest.rawSegments.filter fun s => s.segmentId ∉ plan.segmentIds).map (·.segmentId) ++
          [new.1.segmentId] := by simp [Manifest.rawIds, Manifest.swap]
    rw [hraw]
    refine List.Nodup.append (hids.sublist (filter_sublist.map _)) (nodup_singleton _) ?_
    intro id hid hid'
    rw [mem_singleton.1 hid'] at hid
    exact hnew (.inl ((filter_sublist.map _).subset hid))
  · intro r hr id hid hmem
    have hmem' : id ∈ (s.mem.manifest.rawSegments.filter fun s => s.segmentId ∉ plan.segmentIds).map
        (·.segmentId) ∨ id = new.1.segmentId := by
      simpa [Manifest.rawIds, Manifest.swap] using hmem
    rcases mem_append.1 hr with hr | hr
    · rcases hmem' with hmem' | rfl
      · exact hd.1.replaced r (hload ▸ hr) id hid
          (hload ▸ (filter_sublist.map _).subset hmem')
      · exact hnew (.inr (.inr ⟨r, hr, hid⟩))
    · rw [mem_singleton.1 hr] at hid
      rcases hmem' with hmem' | rfl
      · obtain ⟨m, hm, rfl⟩ := mem_map.1 hmem'
        simp only [mem_filter, decide_eq_true_eq] at hm
        exact hm.2 hid
      · exact hplan.apart _ hid
  · exact (hload ▸ hd.1.bucketCount).resolve_left (by simp [hloaded])
  · intro hc
    have hcontent := hd.2 hc
    rw [Disk.content, hload] at hcontent
    have hdist : ((s.disk.rawEvents s.mem.manifest).map (·.eventId)).Nodup := by
      rw [DistinctIds, ← hcontent, Multiset.map_coe, Multiset.coe_nodup, map_append] at hc
      exact hc.of_append_left
    have hperm := perm_compacted (d := s.disk) hids hpresent hdist
    rw [← hcontent, Multiset.coe_eq_coe]
    refine List.Perm.append ?_ (List.Perm.of_eq ?_)
    · exact (List.Perm.of_eq (rawEvents_swap (X := X) hloaded hunused)).trans hperm
    · rfl

theorem keepsOffLog_runOnePlan (now : ℤ) (hd : Holds X cfg DistinctIds c s.disk)
    (hload : s.disk.manifest = some s.mem.manifest) (hplan : PlanOk s.mem.manifest uuid plan)
    (hunused : s.Unused (compactedSegmentId (uuid plan.bucket))) :
    KeepsOffLog X cfg DistinctIds c s (runOnePlan X uuid true now plan s).1 := by
  have hnot := hunused.notListed hload
  rw [runOnePlan]
  split
  · exact .skip hd hload
  split
  · rename_i hpresent
    exact keepsOffLog_save hd (hunused.unlisted hload) (hd.swap hload hplan hunused hpresent) rfl
  · refine keepsOffLog_unlisted hd hload ?_
    intro x hx
    simp only [cons_append, nil_append, mem_cons, not_mem_nil, or_false] at hx
    rcases hx with rfl | rfl | rfl <;> exact hnot

/-- What one plan leaves as it was: other names are still unused. -/
theorem unused_runOnePlan {id : String} (h : s.Unused id)
    (hne : id ≠ compactedSegmentId (uuid plan.bucket))
    (hid : id ∉ plan.segmentIds) : ((runOnePlan X uuid true now plan s).1.state s).Unused id := by
  rw [runOnePlan]
  split
  · exact h
  split
  · rw [if_pos rfl]
    refine h.avoids (fun x hx => ?_) ?_
    · simp only [cons_append, nil_append, mem_cons, not_mem_nil, or_false] at hx
      rcases hx with rfl | rfl | rfl
      · exact hne.symm
      · exact hne.symm
      · trivial
    · rintro (hmem | hmem | ⟨r, hr, hmem⟩)
      · simp only [Manifest.rawIds, Manifest.saved_rawSegments, Manifest.swap, map_append, map_cons,
          map_nil, mem_append, mem_singleton] at hmem
        exact .inl
          (hmem.elim (fun hmem => (filter_sublist.map _).subset hmem) fun hmem => absurd hmem hne)
      · exact .inr (.inl hmem)
      · rcases mem_append.1 hr with hr | hr
        · exact .inr (.inr ⟨r, hr, hmem⟩)
        · rw [mem_singleton.1 hr] at hmem
          exact absurd hmem hid
  · refine h.avoids (fun x hx => ?_) fun hmem => hmem
    simp only [cons_append, nil_append, mem_cons, not_mem_nil, or_false] at hx
    rcases hx with rfl | rfl | rfl <;> exact hne.symm

/-- Other plans are as good as before. -/
theorem planOk_runOnePlan {plan' : CompactionPlan} (h : PlanOk s.mem.manifest uuid plan') :
    PlanOk ((runOnePlan X uuid true now plan s).1.state s).mem.manifest uuid plan' := by
  refine ⟨?_, h.apart⟩
  rw [runOnePlan]
  split
  · exact h.bucket
  split
  · intro m hmem hid
    rcases mem_append.1 hmem with hmem | hmem
    · exact h.bucket m (mem_of_mem_filter hmem) hid
    · rw [mem_singleton.1 hmem] at hid
      exact absurd hid (h.apart _)
  · exact h.bucket

theorem compactedSegmentId_injective : Function.Injective compactedSegmentId := by
  intro a b h
  simpa [compactedSegmentId] using h

/-- What every plan keeps, the plans of a tick keep, one after another. -/
theorem runPlans_rule {R : State → Outcome → Prop}
    (hskip : ∀ s, Holds X cfg DistinctIds c s.disk → s.disk.manifest = some s.mem.manifest →
      R s (.skip s))
    (hthen : ∀ {s o next}, R s o → R (o.state s) (next (o.state s)) → R s (o.andThen s next))
    (hplan : ∀ {s plan}, Holds X cfg DistinctIds c s.disk → s.disk.manifest = some s.mem.manifest →
      PlanOk s.mem.manifest uuid plan → s.Unused (compactedSegmentId (uuid plan.bucket)) →
      R s (runOnePlan X uuid true now plan s).1)
    (huuid : Function.Injective uuid) {plans : List CompactionPlan}
    (hnodup : (plans.map (·.bucket)).Nodup) (hd : Holds X cfg DistinctIds c s.disk)
    (hload : s.disk.manifest = some s.mem.manifest)
    (hplans : ∀ plan ∈ plans, PlanOk s.mem.manifest uuid plan)
    (hunused : ∀ plan ∈ plans, s.Unused (compactedSegmentId (uuid plan.bucket))) :
    R s (runPlans X uuid (fun _ => true) now plans s) := by
  induction plans generalizing s with
  | nil => exact hskip s hd hload
  | cons plan plans ih =>
    rw [map_cons, nodup_cons] at hnodup
    have hfirst := keepsOffLog_runOnePlan now hd hload (hplans plan (by simp)) (hunused plan (by simp))
    refine hthen (hplan hd hload (hplans plan (by simp)) (hunused plan (by simp)))
      (ih hnodup.2 hfirst.disk hfirst.loaded ?_ ?_)
    · exact fun plan' hplan' => planOk_runOnePlan (hplans plan' (by simp [hplan']))
    · intro plan' hplan'
      refine unused_runOnePlan (hunused plan' (by simp [hplan'])) ?_ ((hplans plan (by simp)).apart _)
      intro he
      have := huuid (compactedSegmentId_injective he)
      exact hnodup.1 (this ▸ mem_map_of_mem hplan')

/-- The plans of the planner are in order. -/
theorem planOk_of_mem {max : ℕ} (hplan : plan ∈ planCompaction max s.mem.manifest.rawSegments)
    (hids : s.mem.manifest.rawIds.Nodup)
    (hunused : ∀ b, s.Unused (compactedSegmentId (uuid b))) : PlanOk s.mem.manifest uuid plan := by
  obtain ⟨hsegs, -⟩ := mem_planCompaction hplan
  constructor
  · intro m hm hid
    rw [hsegs] at hid
    obtain ⟨m', hm', heq⟩ := mem_map.1 hid
    rw [mem_filter, decide_eq_true_eq] at hm'
    rw [← inj_on_of_nodup_map hids hm'.1 hm heq]
    exact hm'.2
  · intro b hid
    rw [hsegs] at hid
    obtain ⟨m, hm, heq⟩ := mem_map.1 hid
    exact (hunused b).manifest (.inl (heq ▸ mem_map_of_mem (mem_of_mem_filter hm)))

/-- **The rule for a compaction tick**: what the sweep and every plan keep, the tick keeps. -/
theorem compactionTick_rule {R : State → Outcome → Prop}
    (hskip : ∀ s, Holds X cfg DistinctIds c s.disk → s.disk.manifest = some s.mem.manifest →
      R s (.skip s))
    (hthen : ∀ {s o next}, R s o → R (o.state s) (next (o.state s)) → R s (o.andThen s next))
    (hplan : ∀ {s plan}, Holds X cfg DistinctIds c s.disk → s.disk.manifest = some s.mem.manifest →
      PlanOk s.mem.manifest uuid plan → s.Unused (compactedSegmentId (uuid plan.bucket)) →
      R s (runOnePlan X uuid true now plan s).1)
    (hfirst : R s (sweepPendingDeletions cfg.compactionGraceMs now true s).1)
    (hd : Holds X cfg DistinctIds c s.disk)
    (hload : s.disk.manifest = some s.mem.manifest) (hfresh : (Op.compactionTick now uuid).Fresh s) :
    R s (compactionTick X cfg now uuid (fun _ => true) s) := by
  obtain ⟨hunused, huuid⟩ := hfresh
  have hsweep := keepsOffLog_sweep hd hload cfg.compactionGraceMs now
  have hunused' : ∀ b, ((sweepPendingDeletions cfg.compactionGraceMs now true s).1.state s).Unused
      (compactedSegmentId (uuid b)) := fun b => unused_sweep (hunused b)
  rw [compactionTick_of_saves]
  refine hthen hfirst (runPlans_rule hskip hthen hplan huuid (planCompaction_buckets_nodup _ _)
    hsweep.disk hsweep.loaded ?_ fun plan _ => hunused' _)
  intro plan hplan
  have hnodup := hsweep.disk.1.ids
  rw [loadManifest_eq hsweep.loaded] at hnodup
  exact planOk_of_mem hplan hnodup hunused'

/-- **A compaction tick keeps the state in order**; what the disk holds stays the same as
long as the ids are different. -/
theorem keepsOffLog_compactionTick (hd : Holds X cfg DistinctIds c s.disk)
    (hload : s.disk.manifest = some s.mem.manifest) (hfresh : (Op.compactionTick now uuid).Fresh s) :
    KeepsOffLog X cfg DistinctIds c s (compactionTick X cfg now uuid (fun _ => true) s) :=
  compactionTick_rule (fun _ => .skip) .andThen (keepsOffLog_runOnePlan now)
    (keepsOffLog_sweep hd hload _ now) hd hload hfresh

end Compaction

/-! ### Restart -/

/-- `Wal::open` finds the last file above the seal, or makes the one after the seal. -/
theorem openId_cases {dir : WalDir (List UsageEvent)} (h : dir.Sorted) (sealedId : ℕ) :
    (dir.openId sealedId ∈ dir.ids ∧ ∀ id ∈ dir.ids, id ≤ dir.openId sealedId) ∨
      ∀ id ∈ dir.ids, id < dir.openId sealedId := by
  rw [WalDir.openId_eq h]
  cases hids : (dir.after sealedId).ids.getLast? with
  | none =>
    right
    intro id hid
    by_contra hle
    have hmem : id ∈ (dir.after sealedId).ids := by
      rw [WalDir.ids_after, mem_filter, decide_eq_true_eq]
      refine ⟨hid, ?_⟩
      simp only [Option.getD_none] at hle
      omega
    rw [List.getLast?_eq_none_iff.1 hids] at hmem
    cases hmem
  | some a =>
    left
    have ha := mem_of_getLast? hids
    refine ⟨?_, fun id hid => ?_⟩
    · rw [WalDir.ids_after] at ha
      exact mem_of_mem_filter ha
    · rw [Option.getD_some]
      by_cases hlt : sealedId < id
      · have hmem : id ∈ (dir.after sealedId).ids := by
          rw [WalDir.ids_after, mem_filter, decide_eq_true_eq]
          exact ⟨hid, hlt⟩
        obtain ⟨l, hl⟩ := List.getLast?_eq_some_iff.1 hids
        have hsorted : (dir.after sealedId).ids.Pairwise (· < ·) := h.after sealedId
        rw [hl, pairwise_append] at hsorted
        rw [hl, mem_append, mem_singleton] at hmem
        rcases hmem with hmem | rfl
        · exact (hsorted.2.2 id hmem a (by simp)).le
        · exact le_rfl
      · rw [WalDir.ids_after, mem_filter, decide_eq_true_eq] at ha
        omega

/-- The deletion of sealed log files at the start of recovery. -/
theorem Holds.recoveryEffects (hd : Holds X cfg D c d) :
    EveryPrefix Disk.apply (Holds X cfg D c) d (recoveryEffects d) := by
  rw [UsageDb.recoveryEffects]
  split
  · exact hd.deleteThrough _ le_rfl
  · exact EveryPrefix.nil hd

theorem recoveryEffects_manifest (d : Disk) : (d.applyAll (recoveryEffects d)).manifest =
    d.manifest := by
  rw [recoveryEffects]
  split
  · rw [deleteThroughEffects_applyAll]
  · rfl

/-- Deleting sealed log files leaves the log above the seal as it is. -/
theorem walEvents_recoveryEffects (d : Disk) :
    (d.applyAll (recoveryEffects d)).walEvents d.loadManifest.lastSealedWalId =
      d.walEvents d.loadManifest.lastSealedWalId := by
  rw [recoveryEffects]
  split
  · rw [deleteThroughEffects_applyAll, Disk.walEvents, Disk.walEvents]
    exact congrArg _
      (WalDir.after_filter (p := fun id => decide (¬ id ≤ d.loadManifest.lastSealedWalId))
      fun id hid => by simpa using hid)
  · rfl

/-- A new database gets its number of buckets. -/
theorem Holds.initBuckets (hd : Holds X cfg D c d) :
    EveryPrefix Disk.apply (Holds X cfg D c) d (initBuckets cfg d.loadManifest).2 := by
  rw [UsageDb.initBuckets]
  split
  · rename_i hzero
    refine EveryPrefix.cons hd (EveryPrefix.nil (hd.save ?_ hd.1.ids hd.1.replaced rfl hd.2))
    -- either nothing is listed yet, or the number was zero and stays so
    intro m hmem
    rcases hd.1.bucketCount with hnone | hcount
    · simp [Disk.loadManifest, hnone, Manifest.saved] at hmem
    · have hok := hd.1.segments m hmem
      rw [Manifest.buckets, hcount] at hok
      exact hok
  · exact EveryPrefix.nil hd

theorem initBuckets_wal (cfg : Config) (d : Disk) (m : Manifest) :
    (d.applyAll (initBuckets cfg m).2).wal = d.wal := by
  rw [initBuckets]
  split <;> rfl

theorem initBuckets_sealed (cfg : Config) (m : Manifest) : (initBuckets cfg m).1.lastSealedWalId =
    m.lastSealedWalId := by
  rw [initBuckets]
  split <;> rfl

/-- After that there is a saved manifest. -/
theorem initBuckets_manifest (cfg : Config) (d : Disk) :
    (d.applyAll (initBuckets cfg d.loadManifest).2).manifest =
      some (initBuckets cfg d.loadManifest).1 := by
  rw [initBuckets]
  split
  · rfl
  · rename_i hzero
    cases hman : d.manifest with
    | none => simp [Disk.loadManifest, hman] at hzero
    | some m => simp [Disk.loadManifest, hman]

/-- Opening the log for appending. -/
theorem Holds.openWal (hd : Holds X cfg D c d) (sealedId : ℕ) :
    Holds X cfg D c (d.apply (.walCreate (d.wal.openId sealedId))) ∧
      d.wal.openId sealedId ∈ (d.apply (.walCreate (d.wal.openId sealedId))).wal.ids ∧
      (∀ id ∈ (d.apply (.walCreate (d.wal.openId sealedId))).wal.ids, id ≤ d.wal.openId sealedId) ∧
      ∀ lo hi, (d.apply (.walCreate (d.wal.openId sealedId))).wal.slice lo hi = d.wal.slice lo hi := by
  rcases openId_cases hd.1.sorted sealedId with ⟨hmem, hlast⟩ | hlt
  · have hsame : d.apply (.walCreate (d.wal.openId sealedId)) = d := by
      simp only [Disk.apply, WalDir.create, if_pos hmem]
    rw [hsame]
    exact ⟨hd, hmem, hlast, fun _ _ => rfl⟩
  · have hwal : (d.apply (.walCreate (d.wal.openId sealedId))).wal = d.wal ++
        [(d.wal.openId sealedId, [])] :=
      WalDir.create_of_forall_lt hlt _
    rw [hwal, WalDir.ids_append]
    refine ⟨hd.walCreate hlt, by simp [WalDir.ids], ?_, fun lo hi => WalDir.slice_append_empty _⟩
    intro id hid
    rcases mem_append.1 hid with hid | hid
    · exact (hlt id hid).le
    · simp only [WalDir.ids, map_cons, map_nil, mem_singleton] at hid
      exact hid.le

/-- **Recovery keeps the state in order**, whatever step it is cut after. -/
theorem restart_ok (hd : Holds X cfg D c d) (now : ℤ) (clk : ℕ → ℤ) :
    EveryPrefix Disk.apply (Holds X cfg D c) d (restart X cfg now clk d).effects ∧
      MemOk ⟨d.applyAll (restart X cfg now clk d).effects, (restart X cfg now clk d).mem⟩ := by
  have hpre := hd.recoveryEffects
  have hd1 : Holds X cfg D c (d.applyAll (recoveryEffects d)) := hpre.all
  rw [restart]
  dsimp only [runStartupRecovery]
  generalize hd' : d.applyAll (recoveryEffects d) = d' at hd1
  have hd2 : Holds X cfg D c (d'.applyAll (initBuckets cfg d'.loadManifest).2) := hd1.initBuckets.all
  have hwal := initBuckets_wal cfg d' d'.loadManifest
  have hman := initBuckets_manifest cfg d'
  have hseal := initBuckets_sealed cfg d'.loadManifest
  have hinit := hd1.initBuckets
  generalize initBuckets cfg d'.loadManifest = m at hd2 hwal hman hseal hinit
  generalize hd'' : d'.applyAll m.2 = d'' at hd2 hwal hman
  obtain ⟨hd3, hact, hlast, hslice⟩ := hd2.openWal m.1.lastSealedWalId
  rw [hwal] at hd3 hact hlast hslice
  have hend :
      d.applyAll (recoveryEffects d ++ m.2 ++ [.walCreate (d'.wal.openId m.1.lastSealedWalId)]) =
      d''.apply (.walCreate (d'.wal.openId m.1.lastSealedWalId)) := by
    rw [Disk.applyAll_append, Disk.applyAll_append, hd', hd'']
    rfl
  constructor
  · refine (hpre.append ?_).append ?_
    · rw [show List.foldl Disk.apply d (recoveryEffects d) = d' from hd']
      exact hinit
    · rw [show List.foldl Disk.apply d (recoveryEffects d ++ m.2) = d'' from by
        rw [← hd'', ← hd']; exact Disk.applyAll_append _ _ _]
      exact EveryPrefix.cons hd2 (EveryPrefix.nil hd3)
  · rw [hend]
    refine ⟨hman, hact, hlast, ?_⟩
    refine ⟨WalDir.lt_openId hd1.1.sorted _, ?_⟩
    rw [hslice, Memtable.insertAll_events, Memtable.new_events, nil_append,
      replay_eq_walEvents hd1.1.sorted, Disk.walEvents, ← hseal]
    refine List.Perm.of_eq (WalDir.flatMap_after fun id hid => hlast id ?_)
    simp only [Disk.apply, hwal, WalDir.create]
    split
    · exact hid
    · rw [WalDir.ids_append]
      exact mem_append_left _ hid

/-! ### The system -/

/-- The database is in order, running or not, and holds `c` if `c` is as `D` says. -/
def SysOk (X : Extern) (cfg : Config)
    (D : Multiset UsageEvent → Prop) (c : Multiset UsageEvent) : Sys → Prop
  | .up s => Holds X cfg D c s.disk ∧ MemOk s
  | .down d => Holds X cfg D c d

/-- An operation that accepts nothing keeps the state in order. -/
theorem keeps_op (hd : Holds X cfg D c s.disk) (hm : MemOk s) {op : Op} (hfresh : op.Fresh s)
    (hcomp : op.Compacts → D = DistinctIds) (hop : ∀ clk events, op ≠ .ingest clk events) :
    Keeps X cfg D c s (op.outcome X cfg s) := by
  cases op with
  | ingest clk events => exact absurd rfl (hop clk events)
  | drain => exact keeps_drainIf hd hm _
  | flush uuid clk => exact keeps_flush hd hm clk hfresh
  | rollupTick now uuid => exact keeps_tick hd hm now uuid
  | compactionTick now uuid =>
    obtain rfl := hcomp trivial
    exact (keepsOffLog_compactionTick hd hm.loaded hfresh).keeps hm
  | closePeriod account year month now => exact (keepsOffLog_closePeriod hd
      hm.loaded account year month now).keeps hm
  | reopenPeriod account year month => exact (keepsOffLog_reopenPeriod hd
      hm.loaded account year month).keeps hm

theorem accepts_eq_nil {op : Op}
    (hop : ∀ clk events, op ≠ .ingest clk events) : op.accepts X s = [] := by
  cases op with
  | ingest clk events => exact absurd rfl (hop clk events)
  | _ => rfl

/-- **Every step of the system keeps it in order**, and what the disk holds is what it held
and what the step has accepted. -/
theorem SysOk.step {sys sys' : Sys} {l : Label} (hD : ∀ {c c'}, D (c + c') → D c)
    (hcomp : l.Compacts → D = DistinctIds)
    (h : SysOk X cfg D c sys) (hstep : Step X cfg sys l sys') :
      SysOk X cfg D (c + ↑(sys.accepts X l)) sys' := by
  have hnone : c + ↑([] : List UsageEvent) = c := by simp
  cases hstep with
  | @run s op hfresh =>
    obtain ⟨hd, hm⟩ := h
    by_cases hop : ∀ clk events, op ≠ .ingest clk events
    · have hkeep := keeps_op hd hm hfresh hcomp hop
      rw [Sys.accepts, accepts_eq_nil hop, hnone]
      exact ⟨hkeep.disk, hkeep.mem⟩
    · push Not at hop
      obtain ⟨clk, events, rfl⟩ := hop
      exact (ingest_ok hD hd hm clk events).2
  | @cut s op k hfresh =>
    obtain ⟨hd, hm⟩ := h
    by_cases hop : ∀ clk events, op ≠ .ingest clk events
    · rw [Sys.accepts, accepts_eq_nil hop, ite_self, hnone]
      exact (keeps_op hd hm hfresh hcomp hop).prefixes k
    · push Not at hop
      obtain ⟨clk, events, rfl⟩ := hop
      have hk := (ingest_ok hD hd hm clk events).1 k
      rw [Sys.accepts]
      by_cases hzero : k = 0
      · rw [if_pos hzero, hnone]
        rwa [if_pos hzero] at hk
      · rw [if_neg hzero]
        rwa [if_neg hzero] at hk
  | restart now clk =>
    obtain ⟨hpre, hmem⟩ := restart_ok h now clk
    show SysOk X cfg D (c + ↑([] : List UsageEvent)) _
    rw [hnone]
    exact ⟨hpre.all, hmem⟩
  | cutRestart now clk k =>
    show SysOk X cfg D (c + ↑([] : List UsageEvent)) _
    rw [hnone]
    exact (restart_ok h now clk).1 k

/-- An empty disk is in order. -/
theorem sysOk_empty : SysOk X cfg D 0 (.down .empty) := by
  refine ⟨⟨List.Pairwise.nil, ?_, ?_, nodup_nil, ?_, .inl rfl⟩, fun _ => rfl⟩
  · intro f hf; cases hf
  · intro m hm; cases hm
  · intro r hr; cases hr

/-- The state of every run is in order. -/
theorem sysOk_of_run {ls : List Label} {sys : Sys} (hrun : Run (Step X cfg) (.down .empty) ls sys) :
    ∃ c, SysOk X cfg DistinctIds c sys := by
  refine hrun.invariant (I := fun sys => ∃ c, SysOk X cfg DistinctIds c sys) ?_ ⟨0, sysOk_empty⟩
  rintro a l b ⟨c, hok⟩ hstep
  exact ⟨_, hok.step DistinctIds.left (fun _ => rfl) hstep⟩

end UsageDb
