import UsageDb.Runtime.FailedFlush

/-!
# A save that fails

Seven operations change the manifest in memory and then save it. When the save fails, each
returns the error and some delete the files they have written, but none takes its change of
the manifest back. `Writer.failed` runs an operation with a save that fails, and
`failed_save_atomic_iff` says when the manifest is nevertheless what it was: when there was
nothing to change in the first place.

What the failed operation has left in memory reaches the disk with the next save that
succeeds, whoever makes it: `failed_save_persisted` is a flush whose save fails, and a request
to close a period after it.
-/

namespace UsageDb

open Lib List

variable {X : Extern} {cfg : Config} {s : State} {uuid : ℕ → String} {now : ℤ}

/-- The operations that save the manifest. -/
inductive Writer where
  /-- The flusher takes the next message; `io` says which buckets and sidecars can be written. -/
  | flush (io : FlushIo) (uuid : ℕ → String) (clk : ℕ → ℤ)
  /-- A tick of the rollup worker. -/
  | rollupTick (now : ℤ) (uuid : ℤ → ℕ → String)
  /-- The compaction worker runs a plan. -/
  | compact (now : ℤ) (uuid : ℕ → String) (plan : CompactionPlan)
  /-- `sweep_pending_deletions`. -/
  | sweep (now : ℤ)
  /-- A request to close a period. -/
  | closePeriod (account : String) (year month : ℕ) (now : ℤ)
  /-- A request to reopen a period. -/
  | reopenPeriod (account : String) (year month : ℕ)
  | rebuildRollups (fromMs toMs : ℤ)

/-- The state in which the flusher works on a message. -/
def State.taken (s : State) (rest : List FlushMessage) : State := ⟨s.disk, { s.mem with queue := rest }⟩

/-- What an operation does when its save fails. -/
def Writer.failed (X : Extern) (cfg : Config) (s : State) : Writer → Outcome
  | .flush io uuid clk =>
    match s.mem.queue with
    | [] => .skip s
    | msg :: rest => handleMessage X { io with saveOk := false } uuid clk (s.taken rest) msg
  | .rollupTick now uuid => (tick X cfg now uuid false s).1
  | .compact now uuid plan => (runOnePlan X uuid false now plan s).1
  | .sweep now => (sweepPendingDeletions cfg.compactionGraceMs now false s).1
  | .closePeriod account year month now => (UsageDb.closePeriod X account year month now false s).1
  | .reopenPeriod account year month => (UsageDb.reopenPeriod account year month false s).1
  | .rebuildRollups fromMs toMs => (UsageDb.rebuildRollups fromMs toMs false s).1

/-- The operation comes to its save: it returns the save's error. -/
def Writer.Saves (X : Extern) (cfg : Config) (s : State) : Writer → Prop
  | .flush io uuid _ => ∃ msg rest, s.mem.queue = msg :: rest ∧ msg.events ≠ [] ∧
      (attemptFlush X { io with saveOk := false } uuid (s.taken rest) msg).2 = some ⟨[], .manifestSave⟩
  | .rollupTick now uuid => (tick X cfg now uuid false s).2 = none
  | .compact now uuid plan => (runOnePlan X uuid false now plan s).2 = none
  | .sweep now => (sweepPendingDeletions cfg.compactionGraceMs now false s).2 = none
  | .closePeriod account year month now => (UsageDb.closePeriod X account year month now false
      s).2 = .saveFailed
  | .reopenPeriod account year month => (UsageDb.reopenPeriod account year month false s).2 =
      .saveFailed
  | .rebuildRollups fromMs toMs => (UsageDb.rebuildRollups fromMs toMs false s).2 = none

/-- There is nothing to change: a tick that makes no segment and moves the watermark to where
it is, or a rebuild of a range without rollups that the watermark has not passed. All other
operations come to their save with a change. -/
def Writer.Idle (X : Extern) (cfg : Config) (s : State) : Writer → Prop
  | .rollupTick now uuid =>
    let snap := s.mem.manifest.tickSnapshot
    let target := targetHour cfg now s.mem.memtable.minEventTimestampMs
    newRollups X s.disk snap uuid snap.start target = [] ∧ target = s.mem.manifest.hourlyRollupMs
  | .rebuildRollups fromMs toMs =>
    (∀ seg ∈ s.mem.manifest.rollupSegments, ¬ (seg.minTimestampMs < toMs ∧
      fromMs ≤ seg.maxTimestampMs)) ∧ s.mem.manifest.hourlyRollupMs ≤ fromMs
  | _ => False

/-- The manifest in memory is as it was, and lists no segment whose file has been deleted. -/
structure Outcome.Atomic (o : Outcome) (s : State) : Prop where
  manifest : o.mem.manifest = s.mem.manifest
  /-- Its raw segments. -/
  raw : ∀ id, .segRemove id ∈ o.effects → id ∉ o.mem.manifest.rawIds
  rollup : ∀ id, .rsegRemove id ∈ o.effects → ∀ seg ∈ o.mem.manifest.rollupSegments, seg.segmentId ≠ id

/-! ### Each operation -/

/-- A flush that comes to its save has written all buckets. -/
theorem unwritten_of_saveFailed {io : FlushIo} {msg : FlushMessage}
    (h : (attemptFlush X io uuid s msg).2 = some ⟨[], .manifestSave⟩) :
    io.unwritten (byBucket X s.mem.manifest.buckets msg.events) = [] := by
  rw [attemptFlush, writeBuckets_eq] at h
  cases hcases : io.unwritten (byBucket X s.mem.manifest.buckets msg.events) with
  | nil => rfl
  | cons b bs =>
    rw [hcases] at h
    cases congrArg (Option.map (·.reason)) h

/-- So it has a segment to add. -/
theorem flush_changes {io : FlushIo} {clk : ℕ → ℤ}
    (h : (Writer.flush io uuid clk).Saves X cfg s) :
    ((Writer.flush io uuid clk).failed X cfg s).mem.manifest ≠ s.mem.manifest := by
  obtain ⟨msg, rest, hq, hne, hfail⟩ := h
  have heq : (Writer.flush io uuid clk).failed X cfg s =
      handleMessage X { io with saveOk := false } uuid clk (s.taken rest) msg := by
    rw [Writer.failed, hq]
  rw [heq, handleMessage_written clk hne (unwritten_of_saveFailed hfail)]
  intro hsame
  have hnil : byBucket X s.mem.manifest.buckets msg.events = [] := by
    have hlen := congrArg (fun m : Manifest => m.rawSegments.length) hsame
    simpa [Manifest.commitFlush, bucketMetas, State.taken] using hlen
  have hmem := (mem_byBucket_flatMap X s.mem.manifest.buckets).2 (head_mem hne)
  rw [hnil] at hmem
  cases hmem

/-- A plan that comes to its save has a replacement to add. -/
theorem compact_changes {plan : CompactionPlan}
    (h : (runOnePlan X uuid false now plan s).2 = none) :
    (runOnePlan X uuid false now plan s).1.mem.manifest ≠ s.mem.manifest := by
  rw [runOnePlan] at h ⊢
  dsimp only at h ⊢
  split at h
  · cases h
  split at h
  · rename_i hne hpresent
    rw [if_neg hne, if_pos hpresent]
    intro hsame
    have hlen := congrArg (fun m : Manifest => m.compactedReplacements.length) hsame
    simp [Manifest.swap] at hlen
  · cases h

/-- A sweep that comes to its save has a replacement to drop. -/
theorem sweep_changes {graceMs : ℤ} (h : (sweepPendingDeletions graceMs now false s).2 = none) :
    (sweepPendingDeletions graceMs now false s).1.mem.manifest ≠ s.mem.manifest := by
  rw [sweepPendingDeletions] at h ⊢
  dsimp only at h ⊢
  split at h
  · cases h
  · rename_i hne
    rw [if_neg hne]
    intro hsame
    obtain ⟨r, rest, hr⟩ := exists_cons_of_ne_nil (by simpa using hne)
    have hdone : r ∈ s.mem.manifest.toFinalize graceMs now := hr ▸ mem_cons_self
    have hkept := filter_eq_self.1 (congrArg (·.compactedReplacements) hsame) r
      (mem_of_mem_filter hdone)
    simp only [Bool.not_eq_true', any_eq_false] at hkept
    exact hkept r hdone (by simp)

theorem closePeriod_changes {account : String} {year month : ℕ}
    (h : (closePeriod X account year month now false s).2 = .saveFailed) :
    (closePeriod X account year month now false s).1.mem.manifest ≠ s.mem.manifest := by
  rw [closePeriod] at h ⊢
  split at h
  · cases h
  split at h
  · cases h
  · intro hsame
    have hlen := congrArg (fun m : Manifest => m.closedPeriods.length) hsame
    simp [Manifest.close] at hlen

theorem reopenPeriod_changes {account : String} {year month : ℕ}
    (h : (reopenPeriod account year month false s).2 = .saveFailed) :
    (reopenPeriod account year month false s).1.mem.manifest ≠ s.mem.manifest := by
  rw [reopenPeriod] at h ⊢
  dsimp only at h ⊢
  split at h
  · rename_i hlt
    rw [if_pos hlt]
    intro hsame
    exact hlt.ne (congrArg (fun m : Manifest => m.closedPeriods.length) hsame)
  · cases h

/-- A tick that comes to its save. -/
theorem tick_saveFailed {uuid : ℤ → ℕ → String} (h : (tick X cfg now uuid false s).2 = none) :
    (tick X cfg now uuid false s).1 = commitTick false s
      (newRollups X s.disk s.mem.manifest.tickSnapshot uuid s.mem.manifest.tickSnapshot.start
        (targetHour cfg now s.mem.memtable.minEventTimestampMs))
      (targetHour cfg now s.mem.memtable.minEventTimestampMs) := by
  rw [tick] at h ⊢
  dsimp only at h ⊢
  split at h
  · cases h
  split at h
  · cases h
  split at h
  · cases h
  · rename_i hflight hdrain htarget
    rw [if_neg hflight, if_neg hdrain, if_neg htarget]

theorem rebuild_eq_iff (m : Manifest) (fromMs toMs : ℤ) :
    m.rebuild fromMs toMs = m ↔
      (∀ seg ∈ m.rollupSegments, ¬ (seg.minTimestampMs < toMs ∧ fromMs ≤ seg.maxTimestampMs)) ∧
        m.hourlyRollupMs ≤ fromMs := by
  have hkeep : ∀ seg : SegmentMeta,
      (!(decide (seg.minTimestampMs < toMs) && decide (fromMs ≤ seg.maxTimestampMs))) ↔
      ¬ (seg.minTimestampMs < toMs ∧ fromMs ≤ seg.maxTimestampMs) := by
    intro seg
    rw [Bool.not_eq_true', Bool.and_eq_false_iff, decide_eq_false_iff_not,
      decide_eq_false_iff_not, not_and_or]
  constructor
  · intro h
    refine ⟨fun seg hseg => ?_, ?_⟩
    · exact (hkeep seg).1 (filter_eq_self.1 (congrArg (·.rollupSegments) h) seg hseg)
    · by_contra hlt
      have hwm : (if fromMs < m.hourlyRollupMs then fromMs else m.hourlyRollupMs) = m.hourlyRollupMs :=
        congrArg (·.hourlyRollupMs) h
      rw [if_pos (not_le.1 hlt)] at hwm
      exact hlt hwm.ge
  · rintro ⟨hsegs, hwm⟩
    have hfilter :
        m.rollupSegments.filter (fun s => !(s.minTimestampMs < toMs && fromMs ≤ s.maxTimestampMs)) =
        m.rollupSegments := filter_eq_self.2 fun seg hseg => (hkeep seg).2 (hsegs seg hseg)
    rw [Manifest.rebuild, hfilter, if_neg (not_lt.2 hwm)]

/-- Without segments a commit deletes nothing, and only the watermark can change. -/
theorem commitTick_eq_skip_iff {segs : List (SegmentMeta × List HourlyRollupRecord)} {target : ℤ} :
    (commitTick false s segs target).mem.manifest = s.mem.manifest ↔
      segs = [] ∧ target = s.mem.manifest.hourlyRollupMs := by
  constructor
  · intro h
    have hlen := congrArg (fun m : Manifest => m.rollupSegments.length) h
    exact ⟨by simpa [commitTick, Manifest.commitRollup] using hlen, congrArg (·.hourlyRollupMs) h⟩
  · rintro ⟨rfl, rfl⟩
    simp [commitTick, Manifest.commitRollup]

/-! ### All of them -/

/-- An operation with nothing to change leaves the whole state as it was. -/
theorem Writer.Idle.failed_eq {w : Writer} (hsaves : w.Saves X cfg s) (h : w.Idle X cfg s) :
    w.failed X cfg s = .skip s := by
  cases w with
  | rollupTick now uuid =>
    obtain ⟨hsegs, htarget⟩ := h
    rw [Writer.failed, tick_saveFailed hsaves, hsegs, htarget]
    simp [commitTick, Manifest.commitRollup, rollupEffects, Outcome.skip]
  | rebuildRollups fromMs toMs =>
    have hsame := (rebuild_eq_iff _ _ _).2 h
    rw [Writer.failed, UsageDb.rebuildRollups]
    rw [hsame]
    rfl
  | _ => cases h

/-- An operation that has left the manifest as it was had nothing to change. -/
theorem Writer.idle_of_manifest_eq {w : Writer} (hsaves : w.Saves X cfg s)
    (h : (w.failed X cfg s).mem.manifest = s.mem.manifest) : w.Idle X cfg s := by
  cases w with
  | flush io uuid clk => exact absurd h (flush_changes hsaves)
  | rollupTick now uuid =>
    rw [Writer.failed, tick_saveFailed hsaves] at h
    exact commitTick_eq_skip_iff.1 h
  | compact now uuid plan => exact absurd h (compact_changes hsaves)
  | sweep now => exact absurd h (sweep_changes hsaves)
  | closePeriod account year month now => exact absurd h (closePeriod_changes hsaves)
  | reopenPeriod account year month => exact absurd h (reopenPeriod_changes hsaves)
  | rebuildRollups fromMs toMs => exact (rebuild_eq_iff _ _ _).1 h

/-- An operation comes to its save, and the save fails. -/
def FailedSave (X : Extern) (cfg : Config) (s : State) (w : Writer) (s' : State) : Prop :=
  w.Saves X cfg s ∧ s' = (w.failed X cfg s).state s

theorem keepsOrder_failedSave :
    KeepsOrder X cfg fun s w s' => FailedSave X cfg s w s' ∧ w.Idle X cfg s := by
  rintro D c s w s' ⟨⟨hsaves, rfl⟩, hidle⟩ h
  rw [hidle.failed_eq hsaves]
  exact h

/-- **When a failed save is atomic.** An operation whose save fails leaves the manifest in
memory as it was, listing no segment whose file it has deleted, exactly when it had nothing to
change. In every run in which all failed saves are of this kind, every manifest on the disk
lists segments whose files are there, and every accepted event is in one of them or in a log
file above the seal. (Compaction drops events that repeat an id, so with it the ids have to be
different.) -/
theorem failed_save_atomic_iff (X : Extern) (cfg : Config) :
    (∀ (s : State) (w : Writer), w.Saves X cfg s → ((w.failed X cfg s).Atomic s ↔ w.Idle X cfg s)) ∧
    ∀ (ls : List (FaultLabel Writer)) (sys : Sys) (c : Multiset UsageEvent),
      Run (FaultStep X cfg fun s w s' => FailedSave X cfg s w s' ∧ w.Idle X cfg s)
        (.down .empty, 0) ls (sys, c) →
      ((∀ l ∈ ls, ¬ l.Compacts) ∨ DistinctIds c) →
      (∀ m ∈ sys.disk.loadManifest.rawSegments, (sys.disk.seg m.segmentId).isSome) ∧
      ∀ e ∈ c, sys.disk.Durable e := by
  refine ⟨fun s w hsaves => ⟨fun h => Writer.idle_of_manifest_eq hsaves h.manifest, fun h => ?_⟩, ?_⟩
  · rw [h.failed_eq hsaves]
    exact ⟨rfl, fun id hid => absurd hid not_mem_nil, fun id hid => absurd hid not_mem_nil⟩
  · intro ls sys c hrun hids
    obtain ⟨hdisk, hdurable⟩ := durable_of_faultRun keepsOrder_failedSave hrun hids
    refine ⟨fun m hm => ?_, hdurable⟩
    rw [(hdisk.segments m hm).file]
    rfl

/-! ### A save that changes nothing, and one that does -/

/-- A rebuild of a database that has no rollups yet. -/
theorem failed_save_atomic_of_rebuild :
    let w := Writer.rebuildRollups 0 3600000
    w.Saves .sample sampleConfig drainedState ∧ w.Idle .sample sampleConfig drainedState ∧
      (w.failed .sample sampleConfig drainedState).Atomic drainedState ∧
      ∃ s c, Run (FaultStep .sample sampleConfig fun s w s' => FailedSave .sample sampleConfig s w s' ∧
          w.Idle .sample sampleConfig s) (.down .empty, 0) (twoBuckets ++ [.fault w]) (.up s, c) ∧
        c.card = 2 ∧ ∀ e ∈ c, s.disk.Durable e := by
  intro w
  obtain ⟨hiff, hruns⟩ := failed_save_atomic_iff .sample sampleConfig
  have hsaves : w.Saves .sample sampleConfig drainedState := rfl
  have hidle : w.Idle .sample sampleConfig drainedState := by
    refine ⟨fun seg hseg => ?_, by decide +kernel⟩
    have hnone : drainedState.mem.manifest.rollupSegments = [] := by decide +kernel
    rw [hnone] at hseg
    cases hseg
  obtain ⟨c, hrun, rfl⟩ := run_twoBuckets fun s w s' => FailedSave .sample sampleConfig s w s' ∧
    w.Idle .sample sampleConfig s
  have hfail := hrun.snoc (.fault ⟨⟨hsaves, rfl⟩, hidle⟩)
  have hcomp : ∀ l ∈ twoBuckets ++ [.fault w], ¬ l.Compacts := by
    simp [twoBuckets, FaultLabel.Compacts, Label.Compacts, Op.Compacts]
  exact ⟨hsaves, hidle, (hiff _ _ hsaves).2 hidle, _, _, hfail, rfl, (hruns _ _ _ hfail (.inl hcomp)).2⟩

/-- **A flush whose save fails is made permanent by another save.** The flush has put its
segments and its seal into the manifest in memory, and deletes the files. The request to close
a period saves all of it: the manifest on the disk lists segments that do not exist and seals
the log file, so both events, which were accepted, are lost at the next start. -/
theorem failed_save_persisted :
    let w := Writer.flush .ok evenUuid fun _ => 9000000
    let ls := twoBuckets ++ [.fault w] ++ [.sound (.run (.closePeriod "bolt" 1970 2 9000000))]
    w.Saves .sample sampleConfig drainedState ∧
      ¬ (w.failed .sample sampleConfig drainedState).Atomic drainedState ∧
      ∃ s c, Run (FaultStep .sample sampleConfig (FailedSave .sample sampleConfig)) (.down .empty, 0) ls
          (.up s, c) ∧
        (∃ m ∈ s.disk.loadManifest.rawSegments, s.disk.seg m.segmentId = none) ∧
        s.disk.loadManifest.lastSealedWalId = 1 ∧ c.card = 2 ∧ ∀ e ∈ c, ¬ s.disk.Durable e := by
  intro w ls
  have hsaves : w.Saves .sample sampleConfig drainedState :=
    ⟨_, _, queue_drainedState, by decide, by decide +kernel⟩
  obtain ⟨c, hrun, rfl⟩ := run_twoBuckets (FailedSave .sample sampleConfig)
  have hfail := hrun.snoc (.fault ⟨hsaves, rfl⟩)
  have hclose :=
    hfail.snoc (.sound (.run (show Op.Fresh _ (.closePeriod "bolt" 1970 2 9000000) from trivial)))
  refine ⟨hsaves, fun h => flush_changes hsaves h.manifest, _, _, hclose, ?_, ?_, ?_, ?_⟩
  · decide +kernel
  · decide +kernel
  · decide +kernel
  · simp only [Disk.durable_iff]
    decide +kernel

end UsageDb
