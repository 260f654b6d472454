import UsageDb.Ingest.Flusher

/-!
# Recovery

`src/runtime/recovery.rs` and the start of the server in `src/main.rs`: the manifest is
loaded, log files below the seal are deleted, the others are replayed into the memtable
and the dedupe cache, and the cache is completed from the raw segments whose newest event
is inside the TTL, by their sidecar or by a scan.

What recovery puts into the cache is the first entry of each id among those it goes
through (`lookup_insertAllKnown`).
-/

namespace UsageDb

open Lib List

/-- `insert_known` of entries, one after another. -/
def HotDedupe.insertAllKnown (d : HotDedupe) (entries : List IndexEntry) : HotDedupe :=
  entries.foldl (fun d x => d.insertKnown x.1 x.2.1 x.2.2) d

/-- `RecoveryResult`. -/
structure RecoveryResult where
  manifest : Manifest
  dedupe : HotDedupe
  memtable : Memtable

/-- The manifest recovery works with: a new one when none was saved. -/
def Disk.loadManifest (d : Disk) : Manifest := d.manifest.getD {}

section

variable (X : Extern)

/-- The events of the log files above the seal, file by file. -/
def Disk.replay (d : Disk) (lastSealedWalId : ℕ) : List UsageEvent :=
  (d.wal.listFilesAfter lastSealedWalId).flatMap fun id => (d.wal.read id).getD []

/-- What recovery learns from a raw segment: nothing when its file is missing, else the
sidecar, or the hashes of its rows when there is no sidecar. -/
def Disk.segmentEntries (d : Disk) (m : SegmentMeta) : List IndexEntry :=
  match d.seg m.segmentId with
  | none => []
  | some rows => (d.idx m.segmentId).getD (rows.map (indexEntry X))

/-- `now_ms_recovery().saturating_sub(DEFAULT_TTL_MS)`. -/
def recoveryCutoff (now : ℤ) : ℤ := max (now - DEFAULT_TTL_MS) (-2 ^ 63)

/-- The raw segments that recovery goes through: those that reach into the TTL. -/
def Manifest.recentSegments (m : Manifest) (now : ℤ) : List SegmentMeta :=
  m.rawSegments.filter fun s => !(s.maxTimestampMs < recoveryCutoff now)

/-- Everything that recovery registers, in order: the log, then the recent segments. -/
def Disk.knownEntries (d : Disk) (m : Manifest) (now : ℤ) : List IndexEntry :=
  (d.replay m.lastSealedWalId).map (indexEntry X) ++ (m.recentSegments now).flatMap (d.segmentEntries X)

/-- The events recovery goes through, in order. -/
def Disk.scanned (d : Disk) (m : Manifest) (now : ℤ) : List UsageEvent :=
  d.replay m.lastSealedWalId ++ (m.recentSegments now).flatMap d.rows

/-- The deletion of log files below the seal, at the start of recovery. -/
def recoveryEffects (d : Disk) : List Effect :=
  if 0 < d.loadManifest.lastSealedWalId then deleteThroughEffects d.wal
    d.loadManifest.lastSealedWalId else []

/-- `run_startup_recovery`, after the log files below the seal have been deleted: `clk` is
read for each event that goes into the memtable, `now` for the cutoff. -/
def runStartupRecovery (dedupeCapacity : ℕ) (now : ℤ) (clk : ℕ → ℤ) (d : Disk) : RecoveryResult :=
  let m := d.loadManifest
  { manifest := m
    dedupe := (HotDedupe.new dedupeCapacity).insertAllKnown (d.knownEntries X m now)
    memtable := Memtable.new.insertAll X (d.replay m.lastSealedWalId) clk }

/-- A new database gets its number of buckets, which is saved. -/
def initBuckets (cfg : Config) (m : Manifest) : Manifest × List Effect :=
  if m.bucketCount = 0 then
    let m' := { m with bucketCount := cfg.defaultBucketCount }.saved
    (m', [.manifestSave m'])
  else (m, [])

/-- The start of the server: recovery, the first save of a new database, `Wal::open`. -/
def restart (cfg : Config) (now : ℤ) (clk : ℕ → ℤ) (d : Disk) : Outcome :=
  let d' := d.applyAll (recoveryEffects d)
  let r := runStartupRecovery X cfg.dedupeCapacity now clk d'
  let m := initBuckets cfg r.manifest
  let activeId := d'.wal.openId m.1.lastSealedWalId
  { effects := recoveryEffects d ++ m.2 ++ [.walCreate activeId]
    mem :=
      { manifest := m.1
        dedupe := r.dedupe
        memtable := r.memtable
        activeId
        queue := [] } }

/-- The cache of a started server is built from what is on the disk once recovery has cleaned up. -/
theorem restart_dedupe (cfg : Config) (now : ℤ) (clk : ℕ → ℤ) (d : Disk) :
    (restart X cfg now clk d).mem.dedupe = (HotDedupe.new cfg.dedupeCapacity).insertAllKnown
      ((d.applyAll (recoveryEffects d)).knownEntries X (d.applyAll (recoveryEffects d)).loadManifest
        now) := rfl

end

/-! ### What is in the rebuilt cache -/

section

variable {d : HotDedupe} {h : EventHash}

@[simp] theorem insertAllKnown_nil : d.insertAllKnown [] = d := rfl

@[simp] theorem insertAllKnown_cons (x : IndexEntry) (l : List IndexEntry) :
    d.insertAllKnown (x :: l) = (d.insertKnown x.1 x.2.1 x.2.2).insertAllKnown l := rfl

theorem mem_insertAllKnown (l : List IndexEntry) :
    h ∈ (d.insertAllKnown l).cache ↔ h ∈ d.cache ∨ ∃ x ∈ l, x.1 = h := by
  induction l generalizing d with
  | nil => simp
  | cons x l ih =>
    rw [insertAllKnown_cons, ih, HotDedupe.mem_insertKnown]
    simp only [mem_cons, exists_eq_or_imp]
    tauto

theorem lookup_insertAllKnown_of_mem (l : List IndexEntry) (hm : h ∈ d.cache) :
    (d.insertAllKnown l).cache.lookup h = d.cache.lookup h := by
  induction l generalizing d with
  | nil => rfl
  | cons x l ih =>
    rw [insertAllKnown_cons, ih (HotDedupe.mem_insertKnown.2 (.inr hm)),
      HotDedupe.lookup_insertKnown_of_mem hm]

/-- **The cache has the first entry of each id.** -/
theorem lookup_insertAllKnown (l : List IndexEntry) (hm : h ∉ d.cache) :
    (d.insertAllKnown l).cache.lookup h = (l.find? fun x => x.1 = h).map fun x => ⟨x.2.1, x.2.2⟩ := by
  induction l generalizing d with
  | nil => simpa using AList.lookup_eq_none.2 hm
  | cons x l ih =>
    rw [insertAllKnown_cons]
    by_cases hx : x.1 = h
    · subst hx
      rw [lookup_insertAllKnown_of_mem l (HotDedupe.mem_insertKnown.2 (.inl rfl)),
        HotDedupe.lookup_insertKnown_new hm]
      simp
    · rw [ih fun hmem => (HotDedupe.mem_insertKnown.1 hmem).elim (fun e => hx e.symm) hm]
      simp [hx]

theorem order_insertAllKnown {l : List IndexEntry} {x : EventHash × ℤ}
    (hx : x ∈ (d.insertAllKnown l).order) :
    x ∈ d.order ∨ ∃ y ∈ l, x = (y.1, (y.2.2 : ℤ)) := by
  induction l generalizing d with
  | nil => exact .inl hx
  | cons y l ih =>
    rcases ih hx with hx | ⟨z, hz, rfl⟩
    · rcases HotDedupe.order_insertKnown hx with hx | rfl
      · exact .inl hx
      · exact .inr ⟨y, by simp, rfl⟩
    · exact .inr ⟨z, by simp [hz], rfl⟩

@[simp] theorem insertAllKnown_ttlMs (l : List IndexEntry) : (d.insertAllKnown l).ttlMs = d.ttlMs := by
  induction l generalizing d with
  | nil => rfl
  | cons x l ih => rw [insertAllKnown_cons, ih, HotDedupe.insertKnown_ttlMs]

@[simp] theorem insertAllKnown_maxCapacity (l : List IndexEntry) :
    (d.insertAllKnown l).maxCapacity = d.maxCapacity := by
  induction l generalizing d with
  | nil => rfl
  | cons x l ih => rw [insertAllKnown_cons, ih, HotDedupe.insertKnown_maxCapacity]

end

/-! ### What is replayed -/

/-- In a sorted directory, replay gives the events above the seal in the order of the log. -/
theorem replay_eq_walEvents {d : Disk} (h : d.wal.Sorted) (s : ℕ) : d.replay s = d.walEvents s := by
  rw [Disk.replay, Disk.walEvents, WalDir.listFilesAfter_eq h, WalDir.ids, flatMap_map]
  refine flatMap_congr fun f hf => ?_
  rw [WalDir.read_of_mem h (mem_of_mem_filter hf)]
  rfl

/-- Sidecars that belong to their rows do not change what recovery registers: the hashes of
the events it goes through. -/
theorem knownEntries_eq {X : Extern} {d : Disk} {m : Manifest} {buckets : ℕ} {now : ℤ}
    (hok : ∀ s ∈ m.rawSegments, SegmentOk X d buckets s) :
    d.knownEntries X m now = (d.scanned m now).map (indexEntry X) := by
  rw [Disk.knownEntries, Disk.scanned, map_append, map_flatMap]
  congr 1
  refine flatMap_congr fun s hs => ?_
  have hs := hok s (mem_of_mem_filter hs)
  rw [Disk.segmentEntries, hs.file]
  cases hidx : d.idx s.segmentId with
  | none => rfl
  | some entries => exact hs.sidecar entries hidx

/-- A segment with a row inside the TTL is gone through. -/
theorem mem_recentSegments {X : Extern} {d : Disk} {m : Manifest} {buckets : ℕ} {now : ℤ}
    {s : SegmentMeta}
    (hs : s ∈ m.rawSegments) (hok : SegmentOk X d buckets s) {e : UsageEvent} (he : e ∈ d.rows s)
    (hnow : now - DEFAULT_TTL_MS ≤ e.timestampMs) : s ∈ m.recentSegments now := by
  have hpos := hok.positive e he
  have hmax : e.timestampMs ≤ s.maxTimestampMs := by
    rw [hok.metadata]
    exact le_maxTimestampMs _ _ _ he
  rw [Manifest.recentSegments, mem_filter, Bool.not_eq_true', decide_eq_false_iff_not, not_lt]
  refine ⟨hs, max_le (by omega) (by omega)⟩

end UsageDb
