import UsageDb.Runtime.Frame

/-!
# What an operation leaves in the manifest

`Commits P` says that an operation keeps the property `P` of manifests: the one it leaves in
memory has it, and every one it saves on the way. A database that is cut down in the middle
of such an operation loads a manifest with `P`.

There is one rule for each operation, which asks for `P` of the manifests the operation can
make.
-/

namespace UsageDb

open Lib List

variable {X : Extern} {cfg : Config} {P : Manifest → Prop} {s : State} {uuid : ℕ → String} {now : ℤ}

/-- Every manifest that an operation leaves has the property. -/
structure Commits (P : Manifest → Prop) (o : Outcome) : Prop where
  /-- In memory. -/
  mem : P o.mem.manifest
  /-- On the disk. -/
  saves : ∀ m, Effect.manifestSave m ∈ o.effects → P m

/-- The manifest on the disk has the property after each step. -/
theorem commits_take {d : Disk} {xs : List Effect} (hd : P d.loadManifest)
    (h : ∀ m, Effect.manifestSave m ∈ xs → P m) :
    EveryPrefix Disk.apply (fun d' => P d'.loadManifest) d xs := by
  refine EveryPrefix.of_forall hd fun d' x hx hd' => ?_
  cases x with
  | manifestSave m => exact h m hx
  | _ => exact hd'

namespace Commits

variable {o : Outcome}

theorem skip (h : P s.mem.manifest) : Commits P (.skip s) := ⟨h, fun m hm => by cases hm⟩

theorem andThen {next : State → Outcome} (h : Commits P o) (hnext : Commits P (next (o.state s))) :
    Commits P (o.andThen s next) := by
  refine ⟨hnext.mem, fun m hm => ?_⟩
  rcases mem_append.1 hm with hm | hm
  · exact h.saves m hm
  · exact hnext.saves m hm

theorem onLog (h : P s.mem.manifest) (ho : o.OnLog s) : Commits P o :=
  ⟨ho.manifest ▸ h, fun _ hm => absurd (ho.effects _ hm) id⟩

/-- One save at the end, of the manifest left in memory. -/
theorem save (xs : List Effect) (heff : o.effects = xs ++ [.manifestSave o.mem.manifest])
    (hm : P o.mem.manifest) (hxs : ∀ m, .manifestSave m ∉ xs) : Commits P o := by
  refine ⟨hm, fun m hmem => ?_⟩
  rw [heff] at hmem
  rcases mem_append.1 hmem with hmem | hmem
  · exact absurd hmem (hxs m)
  · rw [Effect.manifestSave.inj (mem_singleton.1 hmem)]
    exact hm

end Commits

/-! ### The operations -/

theorem commits_flush (h : P s.mem.manifest) (clk : ℕ → ℤ)
    (hP : ∀ msg ∈ s.mem.queue, P (s.mem.manifest.commitFlush
      ((flushSegments X uuid s.mem.manifest.buckets msg.events).map (·.1)) msg.sealedWalId).saved) :
    Commits P (flushNext X uuid clk s) := by
  rcases flushNext_cases X uuid clk s with hskip | ⟨msg, rest, hq,
    ⟨-, hdrop⟩ | ⟨segs, m, rfl, rfl, hflush⟩⟩
  · rw [hskip]
    exact .skip h
  · rw [hdrop]
    exact ⟨h, fun m hm => by cases hm⟩
  · have hcommit := hP msg (hq ▸ mem_cons_self)
    rw [hflush]
    refine ⟨hcommit, fun m hm => ?_⟩
    rcases mem_append.1 hm with hm | hm
    · obtain ⟨seg, -, hm⟩ := mem_flatMap.1 hm
      simp at hm
    · rcases mem_cons.1 hm with hm | hm
      · rw [Effect.manifestSave.inj hm]
        exact hcommit
      · obtain ⟨id, -, hm⟩ := mem_map.1 hm
        cases hm

theorem commits_tick (h : P s.mem.manifest) {uuid : ℤ → ℕ → String}
    (hP : ∀ start target, P (s.mem.manifest.commitRollup
      ((newRollups X s.disk s.mem.manifest.tickSnapshot uuid start target).map (·.1)) target).saved) :
    Commits P (tick X cfg now uuid true s).1 := by
  refine tick_rule (.skip h) (.onLog h (onLog_drainIf s _)) fun start target =>
    .save (rollupEffects _) rfl (hP start target) fun m hm => ?_
  obtain ⟨seg, -, hm⟩ := mem_map.1 hm
  cases hm

theorem commits_sweep (h : P s.mem.manifest) {graceMs : ℤ}
    (hP : P (s.mem.manifest.dropReplacements (s.mem.manifest.toFinalize graceMs now)).saved) :
    Commits P (sweepPendingDeletions graceMs now true s).1 := by
  rw [sweepPendingDeletions]
  split
  · exact .skip h
  · refine .save (sweepEffects s.disk _) rfl hP fun m hm => ?_
    obtain ⟨id, -, hm⟩ := mem_map.1 hm
    cases hm

theorem commits_runPlans {plans : List CompactionPlan} (h : P s.mem.manifest)
    (hP : ∀ m, P m → ∀ d, ∀ plan ∈ plans,
      P (m.swap plan (compactedSegment X d uuid plan).1 now).saved) :
    Commits P (runPlans X uuid (fun _ => true) now plans s) := by
  induction plans generalizing s with
  | nil => exact .skip h
  | cons plan plans ih =>
    have hone : Commits P (runOnePlan X uuid true now plan s).1 := by
      rw [runOnePlan]
      split
      · exact .skip h
      split
      · exact .save [_, _] rfl (hP _ h _ plan mem_cons_self) fun m hm => by simp at hm
      · exact ⟨h, fun m hm => by simp at hm⟩
    exact hone.andThen (ih hone.mem fun m hm d p hp => hP m hm d p (mem_cons_of_mem _ hp))

theorem rawSegments_sweep (s : State) (graceMs now : ℤ) :
    (sweepPendingDeletions graceMs now true s).1.mem.manifest.rawSegments =
      s.mem.manifest.rawSegments :=
  (frames_sweep (f := Manifest.rawSegments) (fun _ _ => rfl) s graceMs now).mem

theorem commits_compactionTick (h : P s.mem.manifest)
    (hsweep : P (s.mem.manifest.dropReplacements (s.mem.manifest.toFinalize
      cfg.compactionGraceMs now)).saved)
    (hswap : ∀ m, P m →
      ∀ d, ∀ plan ∈ planCompaction cfg.compactionMaxSmallSegments s.mem.manifest.rawSegments,
      P (m.swap plan (compactedSegment X d uuid plan).1 now).saved) :
    Commits P (compactionTick X cfg now uuid (fun _ => true) s) := by
  have hone := commits_sweep h hsweep
  have hraw := rawSegments_sweep s cfg.compactionGraceMs now
  rw [compactionTick_of_saves]
  refine hone.andThen (commits_runPlans hone.mem ?_)
  rw [Outcome.state, hraw]
  exact hswap

theorem commits_closePeriod (h : P s.mem.manifest) (hP : ∀ entry, P (s.mem.manifest.close entry).saved)
    (account : String) (year month : ℕ) (now : ℤ) :
      Commits P (closePeriod X account year month now true s).1 := by
  rw [closePeriod]
  split
  · exact .skip h
  · split
    · exact .skip h
    · exact .save [] rfl (hP _) fun _ hm => by cases hm

theorem commits_reopenPeriod {account : String} {year month : ℕ}
    (hP : P (s.mem.manifest.reopen account year month).saved)
    (hP' : P (s.mem.manifest.reopen account year month)) :
      Commits P (reopenPeriod account year month true s).1 := by
  rw [reopenPeriod]
  split
  · exact .save [] rfl hP fun _ hm => by cases hm
  · exact ⟨hP', fun _ hm => by cases hm⟩

theorem commits_restart {d : Disk} (h : P d.loadManifest)
    (hP : ∀ n, P { d.loadManifest with bucketCount := n }.saved)
    (now : ℤ) (clk : ℕ → ℤ) : Commits P (restart X cfg now clk d) := by
  have hload : (d.applyAll (recoveryEffects d)).loadManifest = d.loadManifest := by
    rw [Disk.loadManifest, recoveryEffects_manifest, Disk.loadManifest]
  have hinit : P (initBuckets cfg d.loadManifest).1 ∧
      ∀ m, Effect.manifestSave m ∈ (initBuckets cfg d.loadManifest).2 → P m := by
    rw [initBuckets]
    split
    · refine ⟨hP _, fun m hm => ?_⟩
      rw [Effect.manifestSave.inj (mem_singleton.1 hm)]
      exact hP _
    · exact ⟨h, fun m hm => by cases hm⟩
  rw [restart]
  dsimp only [runStartupRecovery]
  rw [hload]
  refine ⟨hinit.1, fun m hm => ?_⟩
  rcases mem_append.1 hm with hm | hm
  · rcases mem_append.1 hm with hm | hm
    · rw [recoveryEffects] at hm
      split at hm
      · obtain ⟨id, -, hm⟩ := mem_map.1 hm
        cases hm
      · cases hm
    · exact hinit.2 m hm
  · cases mem_singleton.1 hm

end UsageDb
