import UsageDb.Runtime.Fault

/-!
# The cache after a restart

A restart builds the dedupe cache anew: from the log above the seal, and from the raw segments
whose newest event is inside the TTL. The cache keeps the first entry of each id. The time of
a segment is that of its events, and not the time at which they were accepted, so an event that
was accepted with an old time is not known after a restart: `backfilled_event_forgotten`.

`restart_knows_iff` says for which events the cache is right, in terms of the disk: the first
event of the same id that recovery comes across has the same payload.
-/

namespace UsageDb

open Lib List

variable {X : Extern} {cfg : Config} {d : Disk}

/-- The first event with an id: of those in the log above the seal, file by file, and then of
those in the raw segments, in the order of the manifest, whose newest event is inside the TTL. -/
def Disk.firstKnown (X : Extern) (d : Disk) (now : ℤ) (idHash : EventHash) : Option UsageEvent :=
  (d.walEvents d.loadManifest.lastSealedWalId ++
    (d.loadManifest.recentSegments now).flatMap d.rows).find? fun e => X.idHash e = idHash

/-- The cache has an event with its payload: the same payload is a duplicate, any other one a
conflict. -/
def HotDedupe.Knows (X : Extern) (c : HotDedupe) (e : UsageEvent) : Prop :=
  c.classify (X.idHash e) (X.payloadHash e) = .exactDuplicate ∧
    ∀ p, p ≠ X.payloadHash e → c.classify (X.idHash e) p = .payloadConflict

theorem HotDedupe.knows_iff {c : HotDedupe} {e : UsageEvent} :
    c.Knows X e ↔ ∃ x, c.cache.lookup (X.idHash e) = some x ∧ x.payloadHash = X.payloadHash e := by
  constructor
  · rintro ⟨hdup, -⟩
    rw [classify] at hdup
    cases hx : c.cache.lookup (X.idHash e) with
    | none =>
      rw [hx] at hdup
      cases hdup
    | some x =>
      rw [hx] at hdup
      dsimp only at hdup
      by_cases hp : x.payloadHash = X.payloadHash e
      · exact ⟨x, rfl, hp⟩
      · rw [if_neg hp] at hdup
        cases hdup
  · rintro ⟨x, hx, hp⟩
    refine ⟨by rw [classify_of_lookup hx, if_pos hp], fun p hne => ?_⟩
    rw [classify_of_lookup hx, if_neg fun h => hne (h.symm.trans hp)]

theorem seg_recoveryEffects (d : Disk) : (d.applyAll (recoveryEffects d)).seg = d.seg := by
  rw [recoveryEffects]
  split
  · rw [deleteThroughEffects_applyAll]
  · rfl

/-- The rebuilt cache has the first event of each id. -/
theorem lookup_restart (hd : DiskOk X cfg d) (now : ℤ) (clk : ℕ → ℤ) (h : EventHash) :
    (restart X cfg now clk d).mem.dedupe.cache.lookup h =
      (d.firstKnown X now h).map fun e => ⟨X.payloadHash e, e.ingestedAtMs⟩ := by
  have hholds : Holds X cfg (fun _ => False) 0 d := ⟨hd, False.elim⟩
  have hd' : DiskOk X cfg (d.applyAll (recoveryEffects d)) := hholds.recoveryEffects.all.1
  have hload : (d.applyAll (recoveryEffects d)).loadManifest = d.loadManifest := by
    rw [Disk.loadManifest, recoveryEffects_manifest, Disk.loadManifest]
  have hrows : (d.applyAll (recoveryEffects d)).rows = d.rows := by
    funext m
    rw [Disk.rows, Disk.rows, seg_recoveryEffects]
  have hscan : (d.applyAll (recoveryEffects d)).scanned d.loadManifest now =
      d.walEvents d.loadManifest.lastSealedWalId ++
          (d.loadManifest.recentSegments now).flatMap d.rows := by
    rw [Disk.scanned, replay_eq_walEvents hd'.sorted, walEvents_recoveryEffects, hrows]
  have hsegs := hd'.segments
  rw [restart_dedupe, knownEntries_eq hsegs, hload, hscan,
    lookup_insertAllKnown _ (AList.notMem_empty h), List.find?_map, Option.map_map, Disk.firstKnown]
  rfl

/-- The cache is right about an event exactly if the first event of its id that recovery comes
across has its payload. -/
theorem knows_restart_iff (hd : DiskOk X cfg d) (now : ℤ) (clk : ℕ → ℤ) (e : UsageEvent) :
    (restart X cfg now clk d).mem.dedupe.Knows X e ↔
      ∃ x, d.firstKnown X now (X.idHash e) = some x ∧ X.payloadHash x = X.payloadHash e := by
  rw [HotDedupe.knows_iff, lookup_restart hd]
  cases d.firstKnown X now (X.idHash e) <;> simp

/-- An event in the log, or in a segment with its own time inside the TTL, is the first of its id if
no other event of the disk has that. -/
theorem firstKnown_of_recent (hd : DiskOk X cfg d) {now : ℤ} {e : UsageEvent}
    (he : e ∈ d.walEvents d.loadManifest.lastSealedWalId ∨
      e ∈ d.rawEvents d.loadManifest ∧ recoveryCutoff now ≤ e.timestampMs)
    (hids : ∀ x ∈ d.walEvents d.loadManifest.lastSealedWalId ++ d.rawEvents d.loadManifest,
      X.idHash x = X.idHash e → x = e) : d.firstKnown X now (X.idHash e) = some e := by
  have hmem : e ∈ d.walEvents d.loadManifest.lastSealedWalId ++
      (d.loadManifest.recentSegments now).flatMap d.rows := by
    rcases he with hlog | ⟨hraw, hrecent⟩
    · exact mem_append_left _ hlog
    · obtain ⟨m, hm, hrow⟩ := mem_flatMap.1 hraw
      have hmax := ((hd.segments m hm).times.bounds e hrow).2
      refine mem_append_right _ (mem_flatMap.2 ⟨m, mem_filter.2 ⟨hm, ?_⟩, hrow⟩)
      simpa using hrecent.trans hmax
  obtain ⟨x, hx⟩ : ∃ x, d.firstKnown X now (X.idHash e) = some x := Option.isSome_iff_exists.1
    (List.find?_isSome.2 ⟨e, hmem, decide_eq_true rfl⟩)
  have hall : x ∈ d.walEvents d.loadManifest.lastSealedWalId ++ d.rawEvents d.loadManifest := by
    rcases mem_append.1 (mem_of_find?_eq_some hx) with hlog | hraw
    · exact mem_append_left _ hlog
    · obtain ⟨m, hm, hrow⟩ := mem_flatMap.1 hraw
      exact mem_append_right _ (mem_flatMap.2 ⟨m, (mem_filter.1 hm).1, hrow⟩)
  rw [hx, hids x hall (by simpa using List.find?_some hx)]

/-! ### Reachable disks -/

/-- **What a restart remembers.** In every on-disk state that a run with crashes and restarts
can leave: after a restart the cache knows an event with its payload exactly if, going through
the log above the seal and then through the segments whose newest event is inside the TTL, the
first event of its id has its payload. -/
theorem restart_knows_iff {ls : List Label} (hrun : Run (Step X cfg) (.down .empty) ls (.down d))
    (now : ℤ) (clk : ℕ → ℤ) (e : UsageEvent) :
    (restart X cfg now clk d).mem.dedupe.Knows X e ↔
      ∃ x, d.firstKnown X now (X.idHash e) = some x ∧ X.payloadHash x = X.payloadHash e := by
  obtain ⟨c, hd⟩ := sysOk_of_run hrun
  exact knows_restart_iff hd.1 now clk e

/-- Two events are accepted at 9 000 000 with the time 7 200 000, flushed, and the server stops. -/
def flushedLabels : List Label :=
  [.restart 8000000 fun _ => 8000000, .run (.ingest sampleClock twoEvents), .run .drain,
    .run (.flush sampleUuid fun _ => 9000000), .cut .drain 0]

/-- The disk then. -/
def flushedDisk : Disk :=
  ((flushNext .sample sampleUuid (fun _ => 9000000) drainedState).state drainedState).disk

theorem run_flushed :
    Run (Step .sample sampleConfig) (.down .empty) flushedLabels (.down flushedDisk) := by
  have hstart : Run (Step .sample sampleConfig) (.down .empty) [.restart 8000000 fun _ => 8000000] _ :=
    .single (.restart _ _)
  have hingest := hstart.snoc (.run (show Op.Fresh _ (.ingest sampleClock twoEvents) from trivial))
  have hdrain : Run (Step .sample sampleConfig) (.down .empty) _ (.up drainedState) :=
    hingest.snoc (.run (show Op.Fresh _ .drain from trivial))
  have hflush := hdrain.snoc (.run (show Op.Fresh _ (.flush sampleUuid fun _ => 9000000) from
    ⟨fun b => unused_drainedState _, sampleUuid_injective⟩))
  exact hflush.snoc (.cut 0 (show Op.Fresh _ .drain from trivial))

/-- Soon after, the first of them is known. -/
theorem restart_knows_of_flushed :
    let e := (sampleEvent "a" "bolt" 7200000 5).stamp sampleClock.now
    Run (Step .sample sampleConfig) (.down .empty) flushedLabels (.down flushedDisk) ∧
      (restart .sample sampleConfig 9500000
          (fun _ => 9500000) flushedDisk).mem.dedupe.Knows .sample e := by
  intro e
  exact ⟨run_flushed, (restart_knows_iff run_flushed 9500000 _ e).2 ⟨e, by decide +kernel, rfl⟩⟩

/-- **An event inside the TTL is forgotten.** It was accepted at 9 000 000, and the server
starts again less than `DEFAULT_TTL_MS` later; but its own time is outside the TTL. -/
theorem backfilled_event_forgotten :
    let e := (sampleEvent "a" "bolt" 7200000 5).stamp sampleClock.now
    Run (Step .sample sampleConfig) (.down .empty) flushedLabels (.down flushedDisk) ∧
      e ∈ flushedDisk.content ∧ flushedDisk.content.card ≤ sampleConfig.dedupeCapacity ∧
      613000000 < e.ingestedAtMs + DEFAULT_TTL_MS ∧
      (restart .sample sampleConfig 613000000 (fun _ => 613000000) flushedDisk).mem.dedupe.classify
        (Extern.sample.idHash e) (Extern.sample.payloadHash e) = .newEvent :=
  ⟨run_flushed, by decide +kernel, by decide +kernel, by decide +kernel, by decide +kernel⟩

end UsageDb
