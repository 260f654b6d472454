import UsageDb.Runtime.ByteLog

/-!
# A write to the log that fails

The system with the bytes of its log (`Runtime.ByteLog`): a crash leaves a part of the bytes not
yet synced, and a start reads the log from what is there.

When `append_batch`, `sync` or `flush_buffer` fails, the request returns an error and neither
the cache nor the memtable has the events, but some of the batch's bytes are in the file or in
the buffer. A client that sends the batch again is then told that its events are new, and they
are written once more: `retried_event_recovered_twice` is a run in which an event is recovered
twice. `recovered_ids_nodup` is the converse: if every failed write leaves less than the text of
its first event, no id is there twice.
-/

namespace UsageDb

open Lib List

/-! ### The system -/

/-- The database with its log's bytes, running or not. -/
inductive ByteSys where
  /-- The server runs. -/
  | up (s : State) (w : Wal)
  /-- There is only the disk, and the bytes of its log. -/
  | down (d : Disk) (dir : WalDir Bytes)

/-- What can happen. -/
inductive ByteLabel where
  /-- An operation runs to its end. -/
  | run (op : Op)
  /-- A request whose write fails, leaving `n` bytes of its batch. -/
  | failedWrite (clk : IngestClock) (events : List UsageEvent) (n : ℕ)
  /-- A crash after `k` durable steps of an operation; `j` of the bytes not yet synced are kept. -/
  | cut (op : Op) (k j : ℕ)
  /-- The server starts. -/
  | restart (now : ℤ) (clk : ℕ → ℤ)

/-- The events that a request writes. -/
def ByteSys.writes (X : Extern) : ByteSys → ByteLabel → List UsageEvent
  | .up s _, .run op => op.accepts X s
  | .up s _, .failedWrite clk events _ => (Op.ingest clk events).accepts X s
  | .up s _, .cut op _ _ => op.accepts X s
  | _, _ => []

/-- The bytes that a crash leaves, `k` steps of the operation having been made. An append that
is cut off is one whose bytes are not synced. -/
def Wal.cut (J : Serde) (w : Wal) (effects : List Effect) (k j : ℕ) : WalDir Bytes :=
  (w.applyAll J false (effects.take k)).crash j

/-- The directory after recovery has deleted the files through the seal. -/
def recoveredDir (dir : WalDir Bytes) (lastSealedId : ℕ) : WalDir Bytes :=
  if 0 < lastSealedId then dir.deleteFilesThrough lastSealedId else dir

/-- A step; `strict` is the durability mode. -/
inductive ByteStep (X : Extern) (cfg : Config) (J : Serde) (strict : Bool) : ByteSys → ByteLabel →
    ByteSys → Prop where
  /-- An operation runs to its end. -/
  | run {s : State} {w : Wal} {op : Op} : op.Fresh s →
      ByteStep X cfg J strict (.up s w) (.run op)
        (.up ((op.outcome X cfg s).state s) (w.applyAll J strict (op.outcome X cfg s).effects))
  /-- The write of a request fails: a part of its bytes is there, and nothing else has changed. -/
  | failedWrite {s : State} {w : Wal} {clk : IngestClock} {events : List UsageEvent} (n : ℕ) :
      (Op.ingest clk events).accepts X s ≠ [] →
      ByteStep X cfg J strict (.up s w) (.failedWrite clk events n)
        (.up s { w with pending := w.pending ++ (J.batch ((Op.ingest clk events).accepts X s)).take n })
  /-- A crash. -/
  | cut {s : State} {w : Wal} {op : Op} (k j : ℕ) : op.Fresh s →
      ByteStep X cfg J strict (.up s w) (.cut op k j)
        (.down ((s.disk.applyAll ((op.outcome X cfg s).effects.take k)).reread J
          (w.cut J (op.outcome X cfg s).effects k j)) (w.cut J (op.outcome X cfg s).effects k j))
  /-- The server starts. -/
  | restart {d : Disk} {dir : WalDir Bytes} (now : ℤ) (clk : ℕ → ℤ) :
      ByteStep X cfg J strict (.down d dir) (.restart now clk)
        (.up ⟨d.applyAll (UsageDb.restart X cfg now clk d).effects,
          (UsageDb.restart X cfg now clk d).mem⟩
          (Wal.opened (recoveredDir dir d.loadManifest.lastSealedWalId) d.loadManifest.lastSealedWalId))

/-! ### The conditions -/

/-- A write that fails leaves less than the text of its first event. -/
def ByteSys.BreaksOffEarly (X : Extern) (J : Serde) : ByteSys → ByteLabel → Prop
  | .up s _, .failedWrite clk events n => ∀ e ∈ ((Op.ingest clk events).accepts X s).head?,
      n < (J.bytes e).length
  | _, _ => True

/-- The cache knows the ids of a request that are on the disk. -/
def State.Remembers (X : Extern) (s : State) (events : List UsageEvent) : Prop :=
  ∀ e ∈ events, (∃ e' ∈ s.disk.content, e'.eventId = e.eventId) → X.idHash e ∈ s.mem.dedupe.cache

instance (X : Extern) (s : State) (events : List UsageEvent) : Decidable (s.Remembers X events) :=
  have : ∀ e : UsageEvent, Decidable (∃ e' ∈ s.disk.content, e'.eventId = e.eventId) :=
    fun _ => Multiset.decidableExistsMultiset
  inferInstanceAs (Decidable (∀ e ∈ events, (∃ e' ∈ s.disk.content, e'.eventId = e.eventId) →
    X.idHash e ∈ s.mem.dedupe.cache))

/-- See `State.Remembers`, for the requests that are not refused. -/
def ByteSys.Remembers (X : Extern) : ByteSys → ByteLabel → Prop
  | .up s _, .run (.ingest _ events) => s.Remembers X events
  | .up s _, .cut (.ingest _ events) _ _ => s.Remembers X events
  | _, _ => True

/-! ### What the steps keep -/

section Keep

variable {X : Extern} {cfg : Config} {J : Serde} {U : Set UsageEvent} {strict : Bool} {s : State}

/-- A request whose known ids are remembered adds new ids only. -/
theorem distinctIds_accepts (hc : DistinctIds s.disk.content) {events : List UsageEvent}
    (hrem : s.Remembers X events)
    (clk : IngestClock) : DistinctIds (s.disk.content + ↑((Op.ingest clk events).accepts X s)) := by
  have hfresh := classifyBatch_fresh s.mem.dedupe (classifiedEvents X s.mem.manifest.closedPeriods
    clk.now events)
  have hof :
      ∀ c ∈ (classifyBatch s.mem.dedupe (classifiedEvents X s.mem.manifest.closedPeriods clk.now
        events)).newEvents,
      ∃ e ∈ events, c = classified X clk.now e := by
    intro c hmem
    obtain ⟨e, he, -, rfl⟩ := mem_newEvents hmem
    exact ⟨e, he, rfl⟩
  rw [DistinctIds, Multiset.map_add, Multiset.nodup_add, Op.accepts]
  generalize (classifyBatch s.mem.dedupe (classifiedEvents X s.mem.manifest.closedPeriods clk.now
    events)) = b at hfresh hof
  refine ⟨hc, ?_, Multiset.disjoint_left.2 fun hold hnew => ?_⟩
  · -- different hashes, so different ids
    have hhash : b.newEvents.map (·.eventIdHash) =
        ((b.newEvents.map (·.event)).map (·.eventId)).map fun id => X.blake3U128 (utf8 id) := by
      rw [map_map, map_map]
      refine map_congr_left fun c hmem => ?_
      obtain ⟨e, -, rfl⟩ := hof c hmem
      rfl
    have hnodup := hfresh.nodup
    rw [hhash] at hnodup
    exact hnodup.of_map _
  · obtain ⟨e', he', rfl⟩ := Multiset.mem_map.1 hold
    rw [Multiset.map_coe, Multiset.mem_coe, map_map, mem_map] at hnew
    obtain ⟨c, hmem, hid⟩ := hnew
    obtain ⟨e, he, rfl⟩ := hof c hmem
    exact hfresh.unknown _ hmem (hrem e he ⟨e', he', hid.symm⟩)

/-- An operation, cut anywhere or run to its end. -/
theorem distinctIds_op (hd : DiskOk X cfg s.disk) (hc : DistinctIds s.disk.content)
    (hm : MemOk s) {op : Op}
    (hfresh : op.Fresh s) (hrem : ∀ clk events, op = .ingest clk events → s.Remembers X events) :
    (∀ k, DiskOk X cfg (s.disk.applyAll ((op.outcome X cfg s).effects.take k)) ∧
      DistinctIds (s.disk.applyAll ((op.outcome X cfg s).effects.take k)).content) ∧
      MemOk ((op.outcome X cfg s).state s) := by
  have hholds : Holds X cfg DistinctIds s.disk.content s.disk := ⟨hd, fun _ => rfl⟩
  -- what is held has different ids
  have hkept : ∀ {c d'}, DistinctIds c → Holds X cfg DistinctIds c d' → DiskOk X cfg d' ∧
      DistinctIds d'.content := by
    intro c d' hc hd'
    refine ⟨hd'.1, ?_⟩
    rw [hd'.2 hc]
    exact hc
  by_cases hop : ∀ clk events, op ≠ .ingest clk events
  · have hkeep := keeps_op hholds hm hfresh (fun _ => rfl) hop
    exact ⟨fun k => hkept hc (hkeep.prefixes k), hkeep.mem⟩
  · push Not at hop
    obtain ⟨clk, events, rfl⟩ := hop
    have hnew := distinctIds_accepts hc (hrem clk events rfl) clk
    obtain ⟨hpre, -, hmem⟩ := ingest_ok DistinctIds.left hholds hm clk events
    refine ⟨fun k => hkept ?_ (hpre k), hmem⟩
    split
    · exact hc
    · exact hnew

/-- What holds while the system runs: ids on the disk are different, and no file is read as
more than its list. -/
def ByteOk (X : Extern) (cfg : Config) (J : Serde) (U : Set UsageEvent) : ByteSys → Prop
  | .up s w => DiskOk X cfg s.disk ∧ DistinctIds s.disk.content ∧ MemOk s ∧ Reads J U w s.disk.wal
  | .down d dir => DiskOk X cfg d ∧ DistinctIds d.content ∧
      (d.wal = dir.map fun f => (f.1, J.replayFile f.2)) ∧ ∀ f ∈ dir, Pieces J U f.2

theorem ids_map_replayFile (dir : WalDir Bytes) :
    WalDir.ids (dir.map fun f => (f.1, J.replayFile f.2)) = dir.ids := by
  rw [WalDir.ids, WalDir.ids, map_map]
  rfl

/-- The log after a start: the files above the seal, and the file that is opened. -/
theorem wal_restart (X : Extern) (cfg : Config) {d : Disk} {dir : WalDir Bytes}
    (hwal : d.wal = dir.map fun f => (f.1, J.replayFile f.2)) (now : ℤ) (clk : ℕ → ℤ) :
    let dir' := recoveredDir dir d.loadManifest.lastSealedWalId
    (d.applyAll (restart X cfg now clk d).effects).wal =
        WalDir.create (dir'.map fun f => (f.1, J.replayFile f.2))
          (dir'.openId d.loadManifest.lastSealedWalId) [] ∧
      (restart X cfg now clk d).mem.activeId = dir'.openId d.loadManifest.lastSealedWalId := by
  intro dir'
  have hrec : (d.applyAll (recoveryEffects d)).wal = dir'.map fun f => (f.1, J.replayFile f.2) := by
    rw [recoveryEffects]
    show _ = (recoveredDir dir _).map _
    rw [recoveredDir]
    split
    · rw [deleteThroughEffects_applyAll, hwal, WalDir.deleteFilesThrough,
        WalDir.deleteFilesThrough, filter_map]
      rfl
    · exact hwal
  have hopen : (d.applyAll (recoveryEffects d)).wal.openId d.loadManifest.lastSealedWalId =
      dir'.openId d.loadManifest.lastSealedWalId := by
    rw [hrec, WalDir.openId, WalDir.openId, ids_map_replayFile]
  have hload : (d.applyAll (recoveryEffects d)).loadManifest = d.loadManifest := by
    rw [Disk.loadManifest, recoveryEffects_manifest, Disk.loadManifest]
  have hactive : (restart X cfg now clk d).mem.activeId =
      dir'.openId d.loadManifest.lastSealedWalId := by
    show (d.applyAll (recoveryEffects d)).wal.openId
      (initBuckets cfg (d.applyAll (recoveryEffects d)).loadManifest).1.lastSealedWalId = _
    rw [initBuckets_sealed, hload, hopen]
  refine ⟨?_, hactive⟩
  show (d.applyAll (recoveryEffects d ++
    (initBuckets cfg (d.applyAll (recoveryEffects d)).loadManifest).2 ++
    [.walCreate (restart X cfg now clk d).mem.activeId])).wal = _
  rw [Disk.applyAll_append, Disk.applyAll_append, hactive, Disk.applyAll_cons,
    Disk.applyAll_nil, Disk.apply]
  rw [initBuckets_wal, hrec]

/-- A start reads its log as it is. -/
theorem reads_restart {d : Disk} {dir : WalDir Bytes}
    (hwal : d.wal = dir.map fun f => (f.1, J.replayFile f.2))
    (hpieces : ∀ f ∈ dir, Pieces J U f.2) (now : ℤ) (clk : ℕ → ℤ)
    (hm : MemOk ⟨d.applyAll (restart X cfg now clk d).effects, (restart X cfg now clk d).mem⟩) :
    Reads J U (Wal.opened (recoveredDir dir d.loadManifest.lastSealedWalId)
      d.loadManifest.lastSealedWalId)
      (d.applyAll (restart X cfg now clk d).effects).wal := by
  obtain ⟨hlog, hactive⟩ := wal_restart X cfg hwal now clk
  have hmem := hm.active
  have hlast := hm.last
  dsimp only at hmem hlast
  rw [hactive] at hmem hlast
  refine ⟨?_, hmem, hlast⟩
  have hnone : ∀ i, (Wal.opened (recoveredDir dir d.loadManifest.lastSealedWalId)
      d.loadManifest.lastSealedWalId).pendingOf i = [] := fun i => ite_self _
  have hpieces' : ∀ f ∈ recoveredDir dir d.loadManifest.lastSealedWalId, Pieces J U f.2 := by
    intro f hf
    rw [recoveredDir] at hf
    split at hf
    · exact hpieces f (mem_of_mem_filter hf)
    · exact hpieces f hf
  rw [hlog]
  generalize recoveredDir dir d.loadManifest.lastSealedWalId = dir' at hnone hpieces'
  have hsame : List.Forall₂ (fun f g => f.1 = g.1 ∧ FileReads J U f.2 [] g.2) dir'
      (dir'.map fun f => (f.1, J.replayFile f.2)) := by
    rw [List.forall₂_map_right_iff, List.forall₂_same]
    refine fun f hf => ⟨rfl, ?_, fun k => ?_⟩
    · rw [append_nil]
      exact hpieces' f hf
    · rw [take_nil, append_nil]
  simp only [hnone]
  simp only [Wal.opened, WalDir.create, ids_map_replayFile]
  split
  · exact hsame
  · refine rel_append hsame (.cons ⟨rfl, ?_⟩ .nil)
    exact FileReads.nil

/-- **A step keeps the ids on the disk different**, if a write that fails breaks off early and
the cache knows the ids it is asked about. -/
theorem ByteOk.step (hJ : J.Strict U) {a a' : ByteSys} {l : ByteLabel} (h : ByteOk X cfg J U a)
    (hstep : ByteStep X cfg J strict a l a') (hearly : a.BreaksOffEarly X J l) (hrem : a.Remembers X l)
    (hU : ∀ e ∈ a.writes X l, e ∈ U) : ByteOk X cfg J U a' := by
  cases hstep with
  | @run s w op hfresh =>
    obtain ⟨hd, hc, hm, hreads⟩ := h
    obtain ⟨hall, hmem⟩ := distinctIds_op hd hc hm hfresh fun clk events hop => by
      subst hop
      exact hrem
    have hend := hall (op.outcome X cfg s).effects.length
    rw [take_length] at hend
    have hboth := (reads_op X cfg strict hJ hreads hm hU).all
    rw [foldl_stepBoth] at hboth
    exact ⟨hend.1, hend.2, hmem, hboth⟩
  | @failedWrite s w clk events n hne =>
    obtain ⟨hd, hc, hm, hreads⟩ := h
    refine ⟨hd, hc, hm, ?_⟩
    obtain ⟨e, es, hes⟩ := exists_cons_of_ne_nil hne
    have hlt : n < (J.bytes e).length := hearly e (by rw [hes]; rfl)
    have htake : (J.batch ((Op.ingest clk events).accepts X s)).take n = (J.bytes e).take n := by
      have hbatch : J.batch (e :: es) = J.bytes e ++ ([newline] ++ J.batch es) := by
        simp [Serde.batch, Serde.line]
      rw [hes, hbatch, take_append_of_le_length hlt.le]
    rw [htake]
    refine hreads.torn hJ (hU e ?_) ( take_prefix n _) ?_
    · show e ∈ (Op.ingest clk events).accepts X s
      rw [hes]
      exact mem_cons_self
    · rw [length_take]
      omega
  | @cut s w op k j hfresh =>
    obtain ⟨hd, hc, hm, hreads⟩ := h
    obtain ⟨hall, -⟩ := distinctIds_op hd hc hm hfresh fun clk events hop => by
      subst hop
      exact hrem
    obtain ⟨hd', hc'⟩ := hall k
    have hboth := reads_op X cfg false hJ hreads hm hU k
    rw [foldl_stepBoth] at hboth
    have hcrash := Reads.crash hboth j
    obtain ⟨hok, hle⟩ := hd'.reread hcrash
    refine ⟨hok, Multiset.nodup_of_le (Multiset.map_le_map hle) hc', rfl, fun f hf => ?_⟩
    obtain ⟨g, -, hpieces, -⟩ := hcrash.exists_file hf
    exact hpieces
  | @restart d dir now clk =>
    obtain ⟨hd, hc, hwal, hpieces⟩ := h
    have hholds : Holds X cfg DistinctIds d.content d := ⟨hd, fun _ => rfl⟩
    obtain ⟨hpre, hmem⟩ := restart_ok hholds now clk
    have hend := hpre.all
    refine ⟨hend.1, ?_, hmem, reads_restart hwal hpieces now clk hmem⟩
    rw [show (d.applyAll (UsageDb.restart X cfg now clk d).effects).content = d.content from hend.2 hc]
    exact hc

end Keep

/-! ### No id twice -/

section Twice

variable {X : Extern} {cfg : Config} {J : Serde} {strict : Bool}

/-- **No id is recovered twice.** In every run with failed writes, retries, crashes and
restarts, in which every write that fails leaves less than the text of its first event and the
cache knows the ids of a request that are on the disk: the ids of the raw segments and of the
memtable are different. -/
theorem recovered_ids_nodup {U : Set UsageEvent} (hJ : J.Strict U) {ls : List ByteLabel}
    {s : State} {w : Wal}
    (hrun : Run (fun a l a' => ByteStep X cfg J strict a l a' ∧ a.BreaksOffEarly X J l ∧
      a.Remembers X l ∧ ∀ e ∈ a.writes X l, e ∈ U) (.down .empty []) ls (.up s w)) :
    ((s.disk.rawEvents s.mem.manifest ++ s.mem.memtable.events).map (·.eventId)).Nodup := by
  have hstart : ByteOk X cfg J U (.down .empty []) := by
    have hempty : SysOk X cfg DistinctIds 0 (.down .empty) := sysOk_empty
    exact ⟨hempty.1, Multiset.nodup_zero, rfl, fun f hf => by cases hf⟩
  obtain ⟨hd, hc, hm, -⟩ : ByteOk X cfg J U (.up s w) :=
    hrun.invariant (fun a l a' ha hl => ha.step hJ hl.1 hl.2.1 hl.2.2.1 hl.2.2.2) hstart
  -- the memtable is a part of the log above the seal
  have hsub : (s.disk.rawEvents s.mem.manifest ++ s.mem.memtable.events).Subperm
      (s.disk.rawEvents s.mem.manifest ++ s.disk.walEvents s.mem.manifest.lastSealedWalId) := by
    refine ((List.Sublist.refl _).append (sublist_append_right _ _)).subperm.trans
      ((List.Perm.refl _).append (hm.unsealed hd.sorted)).subperm
  rw [DistinctIds, Disk.content, hm.loadManifest] at hc
  exact Multiset.nodup_of_le (Multiset.map_le_map (Multiset.coe_le.2 hsub)) hc

end Twice

/-- The two events as they are written. -/
def writtenEvents : List UsageEvent := [firstEvent.stamp sampleClock.now,
    secondEvent.stamp sampleClock.now]

theorem strict_written : (Serde.sample writtenEvents).Strict { e | e ∈ writtenEvents } :=
  Serde.strict_sample (by decide +kernel) (by decide +kernel) (by decide +kernel)

/-- A write breaks off after five bytes. The request is sent again, and another one; then the
server crashes and starts. -/
theorem recovered_ids_nodup_of_retry :
    (Serde.sample writtenEvents).Strict { e | e ∈ writtenEvents } ∧ ∃ s w,
      Run (fun a l a' => ByteStep .sample sampleConfig (.sample writtenEvents) true a l a' ∧
          a.BreaksOffEarly .sample (.sample writtenEvents) l ∧ a.Remembers .sample l ∧
          ∀ e ∈ a.writes .sample l, e ∈ { e | e ∈ writtenEvents }) (.down .empty [])
        [.restart 0 fun _ => 0, .failedWrite sampleClock [firstEvent] 5,
          .run (.ingest sampleClock [firstEvent]),
          .run (.ingest sampleClock [firstEvent, secondEvent]), .cut .drain 0 0,
            .restart 0 fun _ => 0] (.up s w) ∧
      ((s.disk.rawEvents s.mem.manifest ++ s.mem.memtable.events).map (·.eventId)).Nodup := by
  have hnew : Run (fun a l a' => ByteStep .sample sampleConfig (.sample writtenEvents) true a l a' ∧
      a.BreaksOffEarly .sample (.sample writtenEvents) l ∧ a.Remembers .sample l ∧
      ∀ e ∈ a.writes .sample l, e ∈ { e | e ∈ writtenEvents }) (.down .empty [])
          [.restart 0 fun _ => 0] _ :=
    (Run.nil _).snoc ⟨.restart 0 _, trivial, trivial, fun _ he => by cases he⟩
  have hfailed := hnew.snoc (l := ByteLabel.failedWrite sampleClock [firstEvent] 5)
    ⟨.failedWrite 5 (by decide +kernel),
    show ∀ e ∈ Option.some (firstEvent.stamp sampleClock.now), _ by decide +kernel, trivial,
    show ∀ e ∈ _, e ∈ writtenEvents by decide +kernel⟩
  have hretry := hfailed.snoc (l := ByteLabel.run (.ingest sampleClock [firstEvent])) ⟨.run trivial,
    trivial,
    show State.Remembers _ _ _ by decide +kernel, show ∀ e ∈ _, e ∈ writtenEvents by decide +kernel⟩
  have hnext := hretry.snoc (l := ByteLabel.run (.ingest sampleClock [firstEvent, secondEvent]))
    ⟨.run trivial, trivial,
    show State.Remembers _ _ _ by decide +kernel, show ∀ e ∈ _, e ∈ writtenEvents by decide +kernel⟩
  have hcrash := hnext.snoc (l := ByteLabel.cut .drain 0 0) ⟨.cut 0 0 trivial, trivial, trivial,
    fun _ he => by cases he⟩
  have hlast := hcrash.snoc (l := ByteLabel.restart 0 fun _ => 0)
    ⟨.restart 0 _, trivial, trivial, fun _ he => by cases he⟩
  exact ⟨strict_written, _, _, hlast, recovered_ids_nodup strict_written hlast⟩

/-- **An event is recovered twice.** The write of a request fails after all its bytes are in
the file; the client sends the request again, which succeeds; then the server crashes and
starts. -/
theorem retried_event_recovered_twice :
    (Serde.sample writtenEvents).Strict { e | e ∈ writtenEvents } ∧ ∃ s w,
      Run (fun a l a' => ByteStep .sample sampleConfig (.sample writtenEvents) true a l a' ∧
        a.Remembers .sample l ∧
          ∀ e ∈ a.writes .sample l, e ∈ writtenEvents) (.down .empty [])
        [.restart 0 fun _ => 0, .failedWrite sampleClock [firstEvent] 1000,
          .run (.ingest sampleClock [firstEvent]),
          .cut .drain 0 0, .restart 0 fun _ => 0] (.up s w) ∧
      (s.disk.rawEvents s.mem.manifest ++ s.mem.memtable.events).map (·.eventId) = ["a", "a"] := by
  have hnew : Run (fun a l a' => ByteStep .sample sampleConfig (.sample writtenEvents) true a l a' ∧
      a.Remembers .sample l ∧ ∀ e ∈ a.writes .sample l, e ∈ writtenEvents) (.down .empty [])
          [.restart 0 fun _ => 0] _ :=
    (Run.nil _).snoc ⟨.restart 0 _, trivial, fun _ he => by cases he⟩
  have hfailed := hnew.snoc (l := ByteLabel.failedWrite sampleClock [firstEvent] 1000)
    ⟨.failedWrite 1000 (by decide +kernel), trivial, show ∀ e ∈ _, e ∈ writtenEvents by decide +kernel⟩
  have hretry := hfailed.snoc (l := ByteLabel.run (.ingest sampleClock [firstEvent])) ⟨.run trivial,
    fun e _ ⟨e', he', _⟩ =>
      absurd he' (Multiset.notMem_zero e'), show ∀ e ∈ _, e ∈ writtenEvents by decide +kernel⟩
  have hcrash := hretry.snoc (l := ByteLabel.cut .drain 0 0) ⟨.cut 0 0 trivial, trivial,
    fun _ he => by cases he⟩
  have hlast :=
    hcrash.snoc (l := ByteLabel.restart 0
      fun _ => 0) ⟨.restart 0 _, trivial, fun _ he => by cases he⟩
  exact ⟨strict_written, _, _, hlast, by decide +kernel⟩

end UsageDb
