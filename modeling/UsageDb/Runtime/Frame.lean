import UsageDb.Runtime.Preserve

/-!
# What an operation leaves alone

Most operations change one part of the manifest: a flush its raw segments and its seal, a
compaction its raw segments and replacements, a request to close a period the closed
periods. `Frames f` says that an operation leaves the part `f` of the manifest as it is, in
memory and in everything it saves, and that it does not touch the files of rollup segments.

For each operation there is one lemma, for every part that its own change of the manifest
leaves alone.
-/

namespace UsageDb

open Lib List

variable {X : Extern} {cfg : Config} {β : Type} {f : Manifest → β} {s : State} {o : Outcome}

/-- A step on the file of a raw segment or on its sidecar. -/
def Effect.OnSegments : Effect → Prop
  | .segWrite .. | .segRemove .. | .idxWrite .. => True
  | _ => False

/-- A step on the log or on raw segments, or a save that leaves the part `f` at `b`. -/
def Effect.Frames (f : Manifest → β) (b : β) (x : Effect) : Prop :=
  x.OnLog ∨ x.OnSegments ∨ ∃ m, x = .manifestSave m ∧ f m = b

/-- An operation leaves the part `f` of the manifest and the rollup files alone. -/
structure Frames (f : Manifest → β) (s : State) (o : Outcome) : Prop where
  /-- In memory. -/
  mem : f o.mem.manifest = f s.mem.manifest
  /-- On the disk. -/
  effects : ∀ x ∈ o.effects, x.Frames f (f s.mem.manifest)

/-- Such steps leave the rollup files and the part `f` of the saved manifest alone, each of
them and all of them. -/
theorem frames_take {d : Disk} {xs : List Effect} (h : ∀ x ∈ xs, x.Frames f (f d.loadManifest)) :
    EveryPrefix Disk.apply
      (fun d' => f d'.loadManifest = f d.loadManifest ∧ d'.rseg = d.rseg) d xs := by
  refine EveryPrefix.of_forall ⟨rfl, rfl⟩ fun d' x hx hd => ?_
  rcases h x hx with hlog | hseg | ⟨m, rfl, hm⟩
  · cases x with
    | walAppend | walCreate | walDelete => exact hd
    | _ => cases hlog
  · cases x with
    | segWrite | segRemove | idxWrite => exact hd
    | _ => cases hseg
  · exact ⟨hm, hd.2⟩

namespace Frames

theorem skip (s : State) : Frames f s (.skip s) := ⟨rfl, fun x hx => by cases hx⟩

theorem andThen {next : State → Outcome} (h : Frames f s o)
    (hnext : Frames f (o.state s) (next (o.state s))) : Frames f s (o.andThen s next) := by
  refine ⟨hnext.mem.trans h.mem, fun x hx => ?_⟩
  rcases mem_append.1 hx with hx | hx
  · exact h.effects x hx
  · have hmem : f (o.state s).mem.manifest = f s.mem.manifest := h.mem
    rw [← hmem]
    exact hnext.effects x hx

/-- Work on the log leaves the manifest alone. -/
theorem onLog (h : o.OnLog s) : Frames f s o :=
  ⟨by rw [h.manifest], fun x hx => .inl (h.effects x hx)⟩

/-- One save at the end, of the manifest left in memory. -/
theorem save (xs : List Effect) (heff : o.effects = xs ++ [.manifestSave o.mem.manifest])
    (hm : f o.mem.manifest = f s.mem.manifest) (hxs : ∀ x ∈ xs, x.OnLog ∨ x.OnSegments) :
      Frames f s o := by
  refine ⟨hm, fun x hx => ?_⟩
  rw [heff] at hx
  rcases mem_append.1 hx with hx | hx
  · rcases hxs x hx with hlog | hseg
    · exact .inl hlog
    · exact .inr (.inl hseg)
  · exact .inr (.inr ⟨o.mem.manifest, mem_singleton.1 hx, hm⟩)

end Frames

/-! ### The operations -/

theorem frames_flush (hf : ∀ m metas id, f (m.commitFlush metas id).saved = f m) (s : State)
    (uuid : ℕ → String) (clk : ℕ → ℤ) : Frames f s (flushNext X uuid clk s) := by
  rcases flushNext_cases X uuid clk s with hskip | ⟨msg, rest, -,
    ⟨-, hdrop⟩ | ⟨segs, m, -, rfl, hflush⟩⟩
  · rw [hskip]
    exact Frames.skip s
  · rw [hdrop]
    exact ⟨rfl, fun x hx => by cases hx⟩
  · rw [hflush]
    refine ⟨hf _ _ _, fun x hx => ?_⟩
    rcases mem_append.1 hx with hx | hx
    · obtain ⟨seg, -, hx⟩ := mem_flatMap.1 hx
      simp only [mem_cons, not_mem_nil, or_false] at hx
      rcases hx with rfl | rfl <;> exact .inr (.inl trivial)
    · rcases mem_cons.1 hx with rfl | hx
      · exact .inr (.inr ⟨_, rfl, hf _ _ _⟩)
      · obtain ⟨id, -, rfl⟩ := mem_map.1 hx
        exact .inl trivial

theorem frames_sweep (hf : ∀ m done, f (m.dropReplacements done).saved = f m) (s : State)
    (graceMs now : ℤ) :
    Frames f s (sweepPendingDeletions graceMs now true s).1 := by
  rw [sweepPendingDeletions]
  split
  · exact Frames.skip s
  · refine Frames.save (sweepEffects s.disk _) rfl (hf _ _) fun x hx => ?_
    obtain ⟨id, -, rfl⟩ := mem_map.1 hx
    exact .inr trivial

theorem frames_runOnePlan (hf : ∀ m plan new now, f (m.swap plan new now).saved = f m) (s : State)
    (uuid : ℕ → String) (now : ℤ) (plan : CompactionPlan) :
      Frames f s (runOnePlan X uuid true now plan s).1 := by
  rw [runOnePlan]
  split
  · exact Frames.skip s
  split
  · refine Frames.save [_, _] rfl (hf _ _ _ _) fun x hx => ?_
    simp only [mem_cons, not_mem_nil, or_false] at hx
    rcases hx with rfl | rfl <;> exact .inr trivial
  · refine ⟨rfl, fun x hx => ?_⟩
    simp only [cons_append, nil_append, mem_cons, not_mem_nil, or_false] at hx
    rcases hx with rfl | rfl | rfl <;> exact .inr (.inl trivial)

theorem frames_runPlans (hf : ∀ m plan new now, f (m.swap plan new now).saved = f m) (s : State)
    (uuid : ℕ → String) (now : ℤ) (plans : List CompactionPlan) :
    Frames f s (runPlans X uuid (fun _ => true) now plans s) := by
  induction plans generalizing s with
  | nil => exact Frames.skip s
  | cons plan plans ih => exact (frames_runOnePlan hf s uuid now plan).andThen (ih _)

theorem frames_compactionTick (hdrop : ∀ m done, f (m.dropReplacements done).saved = f m)
    (hswap : ∀ m plan new now, f (m.swap plan new now).saved = f m) (s : State) (now : ℤ)
    (uuid : ℕ → String) :
    Frames f s (compactionTick X cfg now uuid (fun _ => true) s) := by
  rw [compactionTick_of_saves]
  exact (frames_sweep hdrop s cfg.compactionGraceMs now).andThen (frames_runPlans hswap _ _ _ _)

theorem frames_closePeriod (hf : ∀ m entry, f (m.close entry).saved = f m) (s : State)
    (account : String)
    (year month : ℕ) (now : ℤ) : Frames f s (closePeriod X account year month now true s).1 := by
  rw [closePeriod]
  split
  · exact Frames.skip s
  · split
    · exact Frames.skip s
    · exact Frames.save [] rfl (hf _ _) fun x hx => by cases hx

theorem frames_reopenPeriod (hf : ∀ m account year month, f (m.reopen account year month).saved = f m)
    (hf' : ∀ m account year month, f (m.reopen account year month) = f m) (s : State) (account : String)
    (year month : ℕ) : Frames f s (reopenPeriod account year month true s).1 := by
  rw [reopenPeriod]
  split
  · exact Frames.save [] rfl (hf _ _ _ _) fun x hx => by cases hx
  · exact ⟨hf' _ _ _ _, fun x hx => by cases hx⟩

/-! ### Operations that leave the log alone -/

/-- The operation makes no step on the log. -/
def Outcome.OffLog (o : Outcome) : Prop := ∀ x ∈ o.effects, ¬ x.OnLog

theorem Outcome.OffLog.andThen {next : State → Outcome} (h : o.OffLog)
    (hnext : (next (o.state s)).OffLog) :
    (o.andThen s next).OffLog := by
  intro x hx
  rcases mem_append.1 hx with hx | hx
  · exact h x hx
  · exact hnext x hx

theorem offLog_sweep (s : State) (graceMs now : ℤ) :
    (sweepPendingDeletions graceMs now true s).1.OffLog := by
  rw [sweepPendingDeletions]
  split
  · exact fun x hx => by cases hx
  · intro x hx
    rcases mem_append.1 hx with hx | hx
    · obtain ⟨i, -, rfl⟩ := mem_map.1 hx
      exact id
    · rw [mem_singleton.1 hx]
      exact id

theorem offLog_runOnePlan (s : State) (uuid : ℕ → String) (now : ℤ) (plan : CompactionPlan) :
    (runOnePlan X uuid true now plan s).1.OffLog := by
  rw [runOnePlan]
  split
  · exact fun x hx => by cases hx
  split <;>
  · intro x hx
    simp only [if_true, cons_append, nil_append, mem_cons, not_mem_nil, or_false] at hx
    rcases hx with rfl | rfl | rfl <;> exact id

theorem offLog_runPlans (s : State) (uuid : ℕ → String) (now : ℤ) (plans : List CompactionPlan) :
    (runPlans X uuid (fun _ => true) now plans s).OffLog := by
  induction plans generalizing s with
  | nil => exact fun x hx => by cases hx
  | cons plan plans ih => exact (offLog_runOnePlan s uuid now plan).andThen (ih _)

theorem offLog_compactionTick (s : State) (now : ℤ) (uuid : ℕ → String) :
    (compactionTick X cfg now uuid (fun _ => true) s).OffLog := by
  rw [compactionTick_of_saves]
  exact (offLog_sweep s cfg.compactionGraceMs now).andThen (offLog_runPlans _ _ _ _)

theorem offLog_commitTick (s : State) (segs : List (SegmentMeta × List HourlyRollupRecord))
    (target : ℤ) :
    (commitTick true s segs target).OffLog := by
  intro x hx
  rcases mem_append.1 hx with hx | hx
  · obtain ⟨seg, -, rfl⟩ := mem_map.1 hx
    exact id
  · rw [mem_singleton.1 hx]
    exact id

theorem offLog_closePeriod (s : State) (account : String) (year month : ℕ) (now : ℤ) :
    (closePeriod X account year month now true s).1.OffLog := by
  rw [closePeriod]
  split
  · exact fun x hx => by cases hx
  · split
    · exact fun x hx => by cases hx
    · intro x hx
      rw [mem_singleton.1 hx]
      exact id

theorem offLog_reopenPeriod (s : State) (account : String) (year month : ℕ) :
    (reopenPeriod account year month true s).1.OffLog := by
  rw [reopenPeriod]
  split
  · intro x hx
    rw [mem_singleton.1 hx]
    exact id
  · exact fun x hx => by cases hx

/-- Recovery and the first save change at most the number of buckets. -/
theorem frames_restart (X : Extern) (cfg : Config)
    (hf : ∀ (m : Manifest) n, f { m with bucketCount := n }.saved = f m) (now : ℤ)
    (clk : ℕ → ℤ) (d : Disk) :
    f (restart X cfg now clk d).mem.manifest = f d.loadManifest ∧
      ∀ x ∈ (restart X cfg now clk d).effects, x.Frames f (f d.loadManifest) := by
  have hload : (d.applyAll (recoveryEffects d)).loadManifest = d.loadManifest := by
    rw [Disk.loadManifest, recoveryEffects_manifest, Disk.loadManifest]
  have hinit : f (initBuckets cfg d.loadManifest).1 = f d.loadManifest ∧
      ∀ x ∈ (initBuckets cfg d.loadManifest).2, x.Frames f (f d.loadManifest) := by
    rw [initBuckets]
    split
    · exact ⟨hf _ _, fun x hx => .inr (.inr ⟨_, mem_singleton.1 hx, hf _ _⟩)⟩
    · exact ⟨rfl, fun x hx => by cases hx⟩
  rw [restart]
  dsimp only [runStartupRecovery]
  rw [hload]
  refine ⟨hinit.1, fun x hx => ?_⟩
  rcases mem_append.1 hx with hx | hx
  · rcases mem_append.1 hx with hx | hx
    · rw [recoveryEffects] at hx
      split at hx
      · obtain ⟨id, -, rfl⟩ := mem_map.1 hx
        exact .inl trivial
      · cases hx
    · exact hinit.2 x hx
  · rw [mem_singleton.1 hx]
    exact .inl trivial

/-! ### The memory -/

theorem Outcome.OnManifest.dedupe (h : o.OnManifest s) : o.mem.dedupe = s.mem.dedupe := by
  rw [h]

theorem onManifest_runPlans (s : State) (uuid : ℕ → String) (now : ℤ) (plans : List CompactionPlan) :
    (runPlans X uuid (fun _ => true) now plans s).OnManifest s := by
  induction plans generalizing s with
  | nil => rfl
  | cons plan plans ih =>
    refine Outcome.OnManifest.andThen ?_ (ih _)
    rw [runOnePlan]
    split
    · rfl
    · split <;> rfl

theorem onManifest_compactionTick (s : State) (now : ℤ) (uuid : ℕ → String) :
    (compactionTick X cfg now uuid (fun _ => true) s).OnManifest s := by
  have hsweep : (sweepPendingDeletions cfg.compactionGraceMs now true s).1.OnManifest s := by
    rw [sweepPendingDeletions]
    split <;> rfl
  rw [compactionTick_of_saves]
  exact hsweep.andThen (onManifest_runPlans _ _ _ _)

theorem onManifest_closePeriod (s : State) (account : String) (year month : ℕ) (now : ℤ) :
    (closePeriod X account year month now true s).1.OnManifest s := by
  rw [closePeriod]
  split
  · rfl
  · split <;> rfl

theorem onManifest_reopenPeriod (s : State) (account : String) (year month : ℕ) :
    (reopenPeriod account year month true s).1.OnManifest s := by
  rw [reopenPeriod]
  split <;> rfl

/-- The events that are not in segments: those on the way to the flusher, and the memtable. -/
def Mem.unsealed (m : Mem) : List UsageEvent := m.queue.flatMap (·.events) ++ m.memtable.events

theorem unsealed_drainIf (m : Mem) (cond : Bool) : (m.drainIf cond).sent.mem.unsealed = m.unsealed := by
  rw [Mem.drainIf]
  split
  · simp [Mem.unsealed, Mem.drainAndRotate, Drained.sent, Mem.send, Memtable.drainAll]
  · rfl

theorem unsealed_acceptAndDrain (s : State) (clk : IngestClock) (new : List Classified) {e : UsageEvent}
    (he : e ∈ (acceptAndDrain X cfg clk new s).mem.unsealed) : e ∈ s.mem.unsealed ∨
      e ∈ new.map (·.event) := by
  rw [acceptAndDrain, Outcome.andThen, unsealed_drainIf] at he
  simpa [Mem.unsealed, Outcome.state, Mem.accept, or_assoc] using he

/-- An operation adds to them only what it accepts. -/
theorem unsealed_outcome (s : State) (op : Op) {e : UsageEvent}
    (he : e ∈ (op.outcome X cfg s).mem.unsealed) :
    e ∈ s.mem.unsealed ∨ e ∈ op.accepts X s := by
  have honManifest : ∀ {o : Outcome}, o.OnManifest s → e ∈ o.mem.unsealed → e ∈ s.mem.unsealed := by
    intro o ho he
    rw [ho] at he
    exact he
  cases op with
  | ingest clk events => exact unsealed_acceptAndDrain s clk _ he
  | drain =>
    rw [Op.outcome, forceDrainMemtable, forceDrain, unsealed_drainIf] at he
    exact .inl he
  | flush uuid clk =>
    refine .inl ?_
    rw [Op.outcome] at he
    rcases flushNext_cases X uuid clk s with hskip | ⟨msg, rest, hq, hcases⟩
    · rw [hskip] at he
      exact he
    · rw [Mem.unsealed, hq, flatMap_cons, append_assoc]
      refine mem_append_right _ ?_
      rcases hcases with ⟨-, hdrop⟩ | ⟨segs, m, -, -, hflush⟩
      · rw [hdrop] at he
        exact he
      · rw [hflush] at he
        exact he
  | rollupTick now uuid =>
    refine .inl (tick_rule (R := fun o => e ∈ o.mem.unsealed → e ∈ s.mem.unsealed) id
      (fun he => ?_) (fun _ _ => id) he)
    rwa [forceDrainMemtable, forceDrain, unsealed_drainIf] at he
  | compactionTick now uuid => exact .inl (honManifest (onManifest_compactionTick s now uuid) he)
  | closePeriod account year month now =>
    exact .inl (honManifest (onManifest_closePeriod s account year month now) he)
  | reopenPeriod account year month => exact .inl (honManifest (onManifest_reopenPeriod s account
      year month) he)

end UsageDb
