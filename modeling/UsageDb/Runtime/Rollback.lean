import UsageDb.Runtime.Fault
import UsageDb.Runtime.Names
import UsageDb.Runtime.Saves

/-!
# When the newest generation is lost

A load that cannot read the generation `CURRENT` names goes back to the one before it. What is on
the disk then is read through an older manifest (`Disk.rolledBack`), and the question is whether the
accepted events are still in the segments it lists or in the log above its seal.

For every save but that of a flush they are. A sweep deletes only files that the manifest before it
has already given up; the inputs of a merge are still there until then; all other saves leave the
raw segments alone. So after a run whose newest generation was not written by a flush, recovery from
the generation before it has every accepted event (`rollback_keeps_events`). A flush deletes the log
as soon as its manifest is saved: with that generation lost, its segments are listed nowhere
(`flushed_batch_is_lost`).

Beside the system stands an archive: what it has accepted, the manifests it has saved, and whether
the newest of them is that of a flush. -/

namespace UsageDb

open Lib List

variable {X : Extern} {cfg : Config} {D : Multiset UsageEvent → Prop} {c : Multiset UsageEvent}
    {d : Disk} {s : State}
  {p : Manifest} {saves : List Manifest} {flushed : Bool}
  {es : List Effect} {sys : Sys} {ls : List Label}

/-! ### Rolling back -/

/-- The disk, when another manifest is loaded. -/
def Disk.rolledBack (d : Disk) (p : Manifest) : Disk := { d with manifest := some p }

theorem Disk.rolledBack_self (h : d.manifest = some p) : d.rolledBack p = d := by rw [rolledBack, ← h]

/-- What is not a save does not know the manifest. -/
theorem Disk.rolledBack_applyAll (h : savesOf es = []) (d : Disk) (p : Manifest) :
    (d.applyAll es).rolledBack p = (d.rolledBack p).applyAll es := by
  induction es generalizing d with
  | nil => rfl
  | cons x es ih =>
    cases x with
    | manifestSave m => cases h
    | _ => exact ih h (d.apply _)

theorem Disk.manifest_applyAll (h : savesOf es = []) (d : Disk) : (d.applyAll es).manifest =
    d.manifest := by
  have hself : d.manifest.toList.getLast? = d.manifest := by cases d.manifest <;> rfl
  have hlast := getLast?_savesOf hself es
  rw [h, append_nil] at hlast
  rw [← hlast]
  cases d.manifest <;> rfl

/-- With the older manifest `p` the disk holds the same events, from the same log. -/
structure Behind (X : Extern) (cfg : Config) (D : Multiset UsageEvent → Prop)
    (c : Multiset UsageEvent) (d : Disk) (p : Manifest) : Prop where
  /-- The disk holds `c`. -/
  holds : Holds X cfg D c (d.rolledBack p)
  /-- The seal is the same. -/
  sealedId : p.lastSealedWalId = d.loadManifest.lastSealedWalId

/-- The generation before the newest is one to go back to, unless the newest is that of a flush. -/
def Older (X : Extern) (cfg : Config) (D : Multiset UsageEvent → Prop) (c : Multiset UsageEvent)
    (flushed : Bool) (saves : List Manifest) (d : Disk) : Prop :=
  flushed = false → ∀ p, saves.dropLast.getLast? = some p → Behind X cfg D c d p

/-- Steps without a save. -/
theorem Older.quiet {c' : Multiset UsageEvent} (h : Older X cfg D c flushed saves d)
    (hes : savesOf es = [])
    (hkeep : ∀ p, Behind X cfg D c d p → Holds X cfg D c' ((d.rolledBack p).applyAll es)) :
    Older X cfg D c' (flushed && (savesOf es).isEmpty) (saves ++ savesOf es) (d.applyAll es) := by
  rw [hes, append_nil, isEmpty_nil, Bool.and_true]
  intro hflushed p hp
  have hbehind := h hflushed p hp
  refine ⟨Disk.rolledBack_applyAll hes d p ▸ hkeep p hbehind, ?_⟩
  rw [hbehind.sealedId, Disk.loadManifest, Disk.loadManifest, Disk.manifest_applyAll hes]

/-- Steps with one save: the generation before it is the one that was the newest. -/
theorem older_save {xs ys : List Effect} {m : Manifest} (hnewest : saves.getLast? = d.manifest)
    (hxs : savesOf xs = [])
    (hys : savesOf ys = []) (hseal : m.lastSealedWalId = d.loadManifest.lastSealedWalId)
    (hd : ∀ p, d.manifest = some p → Holds X cfg D c (d.applyAll (xs ++ ys))) :
    Older X cfg D c (flushed && (savesOf (xs ++ .manifestSave m :: ys)).isEmpty)
      (saves ++ savesOf (xs ++ .manifestSave m :: ys))
      (d.applyAll (xs ++ .manifestSave m :: ys)) := by
  have hall : savesOf (xs ++ .manifestSave m :: ys) = [m] := by
    rw [savesOf_append, hxs]
    show m :: savesOf ys = [m]
    rw [hys]
  rw [hall]
  rintro - p hp
  rw [dropLast_concat, hnewest] at hp
  have hback : (d.applyAll (xs ++ .manifestSave m :: ys)).rolledBack p = d.applyAll (xs ++ ys) := by
    rw [Disk.applyAll_append, Disk.applyAll_cons, Disk.rolledBack_applyAll hys, Disk.applyAll_append]
    congr 1
    exact Disk.rolledBack_self ((Disk.manifest_applyAll hxs d).trans hp)
  refine ⟨hback ▸ hd p hp, ?_⟩
  have hload : d.loadManifest = p := by
    rw [Disk.loadManifest, hp]
    rfl
  have hend : (d.applyAll (xs ++ .manifestSave m :: ys)).loadManifest = m := by
    rw [Disk.loadManifest, Disk.applyAll_append, Disk.applyAll_cons, Disk.manifest_applyAll hys]
    rfl
  rw [hend, hseal, hload]

/-! ### The operations -/

/-- An operation leaves a generation to go back to. -/
def KeepsOlder (X : Extern) (cfg : Config) (D : Multiset UsageEvent → Prop)
    (c : Multiset UsageEvent) (s : State) (o : Outcome) :
    Prop :=
  ∀ flushed saves, saves.getLast? = s.disk.manifest → Older X cfg D c flushed saves s.disk →
    Older X cfg D c (flushed && (savesOf o.effects).isEmpty) (saves ++ savesOf o.effects)
      (o.state s).disk

namespace KeepsOlder

theorem skip (mem : Mem) : KeepsOlder X cfg D c s ⟨[], mem⟩ :=
  fun _ _ _ h => h.quiet rfl fun _ hp => hp.holds

theorem andThen {o : Outcome} {next : State → Outcome} (h : KeepsOlder X cfg D c s o)
    (hnext : KeepsOlder X cfg D c (o.state s) (next (o.state s))) :
      KeepsOlder X cfg D c s (o.andThen s next) := by
  intro flushed saves hnewest hold
  have hend := hnext _ _ (getLast?_savesOf hnewest o.effects) (h flushed saves hnewest hold)
  rw [Outcome.andThen_state]
  show Older X cfg D c (flushed && (savesOf (o.effects ++ _)).isEmpty)
    (saves ++ savesOf (o.effects ++ _)) _
  have hempty : ∀ l l' : List Manifest, (l ++ l').isEmpty = (l.isEmpty && l'.isEmpty) :=
    fun l l' => by cases l <;> rfl
  rwa [savesOf_append, hempty, ← Bool.and_assoc, ← append_assoc]

/-- Unlisted files are written or deleted, then a manifest with the same seal is saved. -/
theorem save (xs : List Effect) {m : Manifest} (mem : Mem) (hd : Holds X cfg D c s.disk)
    (hxs : ∀ x ∈ xs, x.Unlisted s.disk.loadManifest.rawIds)
    (hseal : m.lastSealedWalId = s.disk.loadManifest.lastSealedWalId) :
    KeepsOlder X cfg D c s ⟨xs ++ [.manifestSave m], mem⟩ := by
  intro flushed saves hnewest _
  refine older_save hnewest (savesOf_unlisted hxs) rfl hseal fun _ _ => ?_
  rw [append_nil]
  exact (hd.unlisted hxs).all

/-- Files are written that were not there, and deleted again. -/
theorem aborted {xs : List Effect} {id : String} (mem : Mem) (hid : s.disk.seg id = none)
    (hxs : ∀ ids : List String, id ∉ ids → ∀ x ∈ xs, x.Unlisted ids) :
      KeepsOlder X cfg D c s ⟨xs, mem⟩ := by
  have hnone : savesOf xs = [] := savesOf_unlisted (hxs [] not_mem_nil)
  refine fun flushed saves _ hold => hold.quiet hnone fun p hp => ?_
  refine (hp.holds.unlisted (hxs _ fun hmem => ?_)).all
  -- A segment that the older manifest lists has a file.
  obtain ⟨m, hm, rfl⟩ := mem_map.1 hmem
  have hfile : s.disk.seg m.segmentId = _ := (hp.holds.1.segments m hm).file
  rw [hid] at hfile
  cases hfile

end KeepsOlder

/-- The state, when another manifest is loaded. -/
def State.rolledBack (s : State) (p : Manifest) : State :=
  ⟨s.disk.rolledBack p, { s.mem with manifest := p }⟩

theorem MemOk.rolledBack (h : MemOk s) (hp : Behind X cfg D c s.disk p) : MemOk (s.rolledBack p) := by
  refine ⟨rfl, h.active, h.last, ?_⟩
  show Covers s.disk.wal s.mem.activeId p.lastSealedWalId s.mem.queue s.mem.memtable.events
  rw [hp.sealedId, h.loadManifest]
  exact h.covers

/-- Draining works on the log, which is the same for both. -/
theorem keepsOlder_drainIf (hm : MemOk s) (cond : Bool) :
    KeepsOlder X cfg D c s (s.mem.drainIf cond).sent := by
  intro flushed saves _ hold
  refine hold.quiet (savesOf_onLog (onLog_drainIf s cond).effects) fun p hp => ?_
  have hkeep := keeps_drainIf hp.holds (hm.rolledBack hp) cond
  cases cond with
  | true => exact hkeep.disk
  | false => exact hkeep.disk

theorem effects_drainIf (m : Mem) (cond : Bool) :
    (m.drainIf cond).sent.effects = if cond then [.walCreate (m.activeId + 1)] else [] := by
      cases cond <;> rfl

/-- So does a request. -/
theorem older_ingest (hD : ∀ {c c'}, D (c + c') → D c) (hm : MemOk s) (clk : IngestClock)
    (events : List UsageEvent) (hold : Older X cfg D c flushed saves s.disk) :
    let es := (handleIngest X cfg clk events s).1.effects
    Older X cfg D (c + ↑((Op.ingest clk events).accepts X s)) (flushed && (savesOf es).isEmpty)
      (saves ++ savesOf es)
      (s.disk.applyAll es) := by
  refine hold.quiet (savesOf_onLog (onLog_ingest s clk events).effects) fun p hp => ?_
  have hend := (acceptAndDrain_ok hD hp.holds (hm.rolledBack hp) clk
    fun _ he => accepts_positive (X := X) (s := s) (.ingest clk events) he).2.1
  rw [handleIngest_eq]
  have hsame : ∀ new, (acceptAndDrain X cfg clk new (s.rolledBack p)).effects =
      (acceptAndDrain X cfg clk new s).effects := by
    intro new
    show appendEffects s.mem.activeId _ ++ (Mem.drainIf _ _).sent.effects =
      appendEffects s.mem.activeId _ ++ (Mem.drainIf _ _).sent.effects
    rw [effects_drainIf, effects_drainIf]
    rfl
  rw [← hsame]
  exact hend

theorem keepsOlder_tick (hd : Holds X cfg D c s.disk) (hm : MemOk s) (now : ℤ) (uuid : ℤ → ℕ → String) :
    KeepsOlder X cfg D c s (tick X cfg now uuid true s).1 := by
  refine tick_rule (.skip _) (keepsOlder_drainIf hm _) fun start target =>
    .save _ _ hd (fun x hx => ?_) (by rw [hm.loadManifest]; rfl)
  obtain ⟨seg, -, rfl⟩ := mem_map.1 hx
  trivial

theorem keepsOlder_closePeriod (hd : Holds X cfg D c s.disk) (hm : MemOk s) (account : String)
    (year month : ℕ) (now : ℤ) :
    KeepsOlder X cfg D c s (closePeriod X account year month now true s).1 := by
  rw [closePeriod]
  split
  · exact .skip _
  split
  · exact .skip _
  · exact .save [] _ hd (fun x hx => by cases hx) (by rw [hm.loadManifest]; rfl)

theorem keepsOlder_reopenPeriod (hd : Holds X cfg D c s.disk) (hm : MemOk s) (account : String)
    (year month : ℕ) :
    KeepsOlder X cfg D c s (reopenPeriod account year month true s).1 := by
  rw [reopenPeriod]
  split
  · exact .save [] _ hd (fun x hx => by cases hx) (by rw [hm.loadManifest]; rfl)
  · exact .skip _

section Compaction

variable {uuid : ℕ → String} {plan : CompactionPlan} {now : ℤ}

/-- The files that a sweep deletes are not listed by the manifest before it. -/
theorem keepsOlder_sweep (hd : Holds X cfg D c s.disk)
    (hload : s.disk.manifest = some s.mem.manifest) (graceMs now : ℤ) :
    KeepsOlder X cfg D c s (sweepPendingDeletions graceMs now true s).1 := by
  rw [sweepPendingDeletions]
  split
  · exact .skip _
  · exact .save _ _ hd (unlisted_sweepEffects hd hload) (by rw [loadManifest_eq hload]; rfl)

/-- The inputs of a plan stay, and its output is a new file. -/
theorem keepsOlder_runOnePlan (hd : Holds X cfg D c s.disk)
    (hload : s.disk.manifest = some s.mem.manifest)
    (hunused : s.Unused (compactedSegmentId (uuid plan.bucket))) :
    KeepsOlder X cfg D c s (runOnePlan X uuid true now plan s).1 := by
  rw [runOnePlan]
  split
  · exact .skip _
  split
  · exact .save _ _ hd (hunused.unlisted hload) (by rw [loadManifest_eq hload]; rfl)
  · refine .aborted _ hunused.seg fun ids hids x hx => ?_
    simp only [cons_append, nil_append, mem_cons, not_mem_nil, or_false] at hx
    rcases hx with rfl | rfl | rfl <;> exact hids

theorem keepsOlder_compactionTick (hd : Holds X cfg DistinctIds c s.disk)
    (hload : s.disk.manifest = some s.mem.manifest)
    (hfresh : (Op.compactionTick now uuid).Fresh s) :
    KeepsOlder X cfg DistinctIds c s (compactionTick X cfg now uuid (fun _ => true) s) :=
  compactionTick_rule (fun _ _ _ => .skip _) .andThen
    (fun hd hload _ hunused => keepsOlder_runOnePlan hd hload hunused)
    (keepsOlder_sweep hd hload _ now) hd hload hfresh

end Compaction

/-- **Every operation but a flush leaves a generation to go back to.** -/
theorem keepsOlder_op (hd : Holds X cfg D c s.disk) (hm : MemOk s) {op : Op} (hfresh : op.Fresh s)
    (hcomp : op.Compacts → D = DistinctIds) (hop : ∀ clk events, op ≠ .ingest clk events)
    (hflush : ∀ uuid clk, op ≠ .flush uuid clk) :
    KeepsOlder X cfg D c s (op.outcome X cfg s) := by
  cases op with
  | ingest clk events => exact absurd rfl (hop clk events)
  | drain => exact keepsOlder_drainIf hm _
  | flush uuid clk => exact absurd rfl (hflush uuid clk)
  | rollupTick now uuid => exact keepsOlder_tick hd hm now uuid
  | compactionTick now uuid =>
    obtain rfl := hcomp trivial
    exact keepsOlder_compactionTick hd hm.loaded hfresh
  | closePeriod account year month now => exact keepsOlder_closePeriod hd hm account year month now
  | reopenPeriod account year month => exact keepsOlder_reopenPeriod hd hm account year month

/-- What becomes of the log depends on the log alone. -/
theorem wal_applyAll_congr {d' : Disk} (h : d'.wal = d.wal) (es : List Effect) :
    (d'.applyAll es).wal = (d.applyAll es).wal := by
  induction es generalizing d d' with
  | nil => exact h
  | cons x es ih =>
    have hx : (d'.apply x).wal = (d.apply x).wal := by
      cases x with
      | walAppend id events => exact congrArg (WalDir.modify · id (· ++ events)) h
      | walCreate id => exact congrArg (WalDir.create · id []) h
      | walDelete id => exact congrArg (List.filter (fun f => decide (f.1 ≠ id))) h
      | _ => exact h
    exact ih hx

/-- A start deletes the log below the seal, which is the same for both. -/
theorem older_restart (hd : Holds X cfg D c d) (now : ℤ) (clk : ℕ → ℤ)
    (hnewest : saves.getLast? = d.manifest) (hold : Older X cfg D c flushed saves d) :
    let es := (restart X cfg now clk d).effects
    Older X cfg D c (flushed && (savesOf es).isEmpty) (saves ++ savesOf es) (d.applyAll es) := by
  have hrec : savesOf (recoveryEffects d) = [] := savesOf_onLog (recoveryEffects_onLog d)
  have hopen : ∀ d' sealedId, Holds X cfg D c d' → recoveryEffects d' = recoveryEffects d →
      d'.wal = d.wal → Holds X cfg D c (d'.applyAll (recoveryEffects d ++
        [.walCreate ((d.applyAll (recoveryEffects d)).wal.openId sealedId)])) := by
    intro d' sealedId hd' heff hwal
    have hrec : Holds X cfg D c (d'.applyAll (recoveryEffects d')) := hd'.recoveryEffects.all
    rw [heff] at hrec
    rw [Disk.applyAll_append, ← wal_applyAll_congr hwal]
    exact (hrec.openWal sealedId).1
  obtain ⟨sealedId, heff | ⟨m, hseal, -, heff⟩⟩ := restart_effects X cfg now clk d
  · rw [heff]
    refine hold.quiet (by rw [savesOf_append, hrec]; rfl) fun p hp => hopen _ _ hp.holds ?_ rfl
    show (if 0 < p.lastSealedWalId then deleteThroughEffects d.wal p.lastSealedWalId else []) =
      recoveryEffects d
    rw [hp.sealedId, recoveryEffects]
  · rw [heff]
    exact older_save hnewest hrec rfl hseal fun _ _ => hopen d _ hd rfl rfl

/-! ### The archive -/

/-- The durable steps of a step. -/
def Sys.effects (X : Extern) (cfg : Config) : Sys → Label → List Effect
  | .up s, .run op => (op.outcome X cfg s).effects
  | .up s, .cut op k => (op.outcome X cfg s).effects.take k
  | .down d, .restart now clk => (restart X cfg now clk d).effects
  | .down d, .cutRestart now clk k => (restart X cfg now clk d).effects.take k
  | _, _ => []

/-- The step is one of the flusher. -/
def Label.Flushes : Label → Bool
  | .run (.flush ..) => true
  | _ => false

/-- The system and what it has done so far. No step reads this. -/
structure Archive where
  /-- The system. -/
  sys : Sys
  /-- The events it has accepted. -/
  accepted : Multiset UsageEvent
  /-- The manifests it has saved, the newest last. -/
  saves : List Manifest
  /-- Whether the newest was saved by a flush. -/
  flushed : Bool

/-- A new database. -/
def Archive.empty : Archive := ⟨.down .empty, 0, [], false⟩

/-- The archive after a step. -/
def Archive.after (X : Extern) (cfg : Config) (b : Archive) (l : Label) (sys : Sys) : Archive where
  sys := sys
  accepted := b.accepted + ↑(b.sys.accepts X l)
  saves := b.saves ++ savesOf (b.sys.effects X cfg l)
  flushed := if (savesOf (b.sys.effects X cfg l)).isEmpty then b.flushed else l.Flushes

/-- A step that nothing cuts. -/
def ArchiveStep (X : Extern) (cfg : Config) (b : Archive) (l : Label) (b' : Archive) : Prop :=
  l.Completed ∧ ∃ sys, Step X cfg b.sys l sys ∧ b' = b.after X cfg l sys

/-- What holds of the archive after every run. -/
structure ArchiveOk (X : Extern) (cfg : Config) (D : Multiset UsageEvent → Prop) (b : Archive) :
    Prop where
  /-- The system is in order. -/
  sys : SysOk X cfg D b.accepted b.sys
  /-- The newest save is the manifest on the disk. -/
  newest : b.saves.getLast? = b.sys.disk.manifest
  numbered : Numbered 0 b.saves
  /-- There is a generation to go back to. -/
  older : Older X cfg D b.accepted b.flushed b.saves b.sys.disk

theorem disk_of_step {sys' : Sys} {l : Label} (hstep : Step X cfg sys l sys') :
    sys'.disk = sys.disk.applyAll (sys.effects X cfg l) := by
  cases hstep <;> rfl

section Step

variable {b b' : Archive} {l : Label}

/-- The saves of a step are numbered on. -/
theorem ArchiveOk.numbered_effects (h : ArchiveOk X cfg D b) (hdone : l.Completed)
    (hstep : Step X cfg b.sys l sys) :
    Numbered b.saves.length (savesOf (b.sys.effects X cfg l)) := by
  obtain ⟨before, accepted, saves, flushed⟩ := b
  have hgen := currentGeneration_newest h.numbered h.newest
  dsimp only at hgen hstep ⊢
  cases hstep with
  | @run s op _ =>
    have hnum : Numbered _ (savesOf (op.outcome X cfg s).effects) := (numbers_op s op).saves
    have hload : s.disk.loadManifest = s.mem.manifest := h.sys.2.loadManifest
    rw [← hload] at hnum
    exact hgen ▸ hnum
  | cut k =>
    obtain rfl : k = 0 := hdone
    rfl
  | @restart d now clk =>
    have hrec : savesOf (recoveryEffects d) = [] := savesOf_onLog (recoveryEffects_onLog d)
    show Numbered saves.length (savesOf (restart X cfg now clk d).effects)
    obtain ⟨sealedId, heff | ⟨m, -, hm, heff⟩⟩ := restart_effects X cfg now clk d
    · rw [heff, savesOf_append, hrec]
      rfl
    · rw [heff, savesOf_append, hrec]
      show [m.currentGeneration] = [saves.length + 1]
      rw [hm, ← hgen]
      rfl
  | cutRestart => exact absurd hdone id

/-- A step leaves a generation to go back to, unless it is a flush that saves. -/
theorem ArchiveOk.older_effects (hD : ∀ {c c'}, D (c + c') → D c) (hcomp : l.Compacts →
    D = DistinctIds) (h : ArchiveOk X cfg D b) (hdone : l.Completed) (hstep :
      Step X cfg b.sys l sys) :
    let es := b.sys.effects X cfg l
    Older X cfg D (b.accepted + ↑(b.sys.accepts X l))
      (if (savesOf es).isEmpty then b.flushed else l.Flushes)
      (b.saves ++ savesOf es)
      (b.sys.disk.applyAll es) := by
  intro es
  -- The mark of the archive, for a step that is not a flush.
  have hmark : l.Flushes = false → (if (savesOf es).isEmpty then b.flushed else l.Flushes) =
    (b.flushed && (savesOf es).isEmpty) := by
    intro hl
    rw [hl]
    cases (savesOf es).isEmpty <;> simp
  have hzero : b.accepted + ↑([] : List UsageEvent) = b.accepted := by simp
  obtain ⟨before, accepted, saves, flushed⟩ := b
  have hnewest := h.newest
  have hold := h.older
  dsimp only at hstep hnewest hold hmark hzero ⊢
  cases hstep with
  | @run s op hfresh =>
    obtain ⟨hd, hm⟩ := h.sys
    cases op with
    | ingest clk events =>
      rw [hmark rfl]
      exact older_ingest hD hm clk events hold
    | flush uuid clk =>
      have hnone : ((Op.flush uuid clk).accepts X s : List UsageEvent) = [] := rfl
      show Older X cfg D (accepted + ↑((Op.flush uuid clk).accepts X s)) _ _ _
      rw [hnone, hzero]
      by_cases hquiet : savesOf es = []
      · -- Nothing is saved, so nothing is done at all.
        have hes : es = [] := by
          rcases flushNext_cases X uuid clk s with hskip | ⟨msg, rest, -,
            ⟨-, hdrop⟩ | ⟨segs, m, -, -, hflush⟩⟩
          · exact congrArg Outcome.effects hskip
          · exact congrArg Outcome.effects hdrop
          · have heff : es = _ := congrArg Outcome.effects hflush
            rw [heff, savesOf_append] at hquiet
            exact absurd (append_eq_nil_iff.1 hquiet).2 (cons_ne_nil _ _)
        rw [hes]
        show Older X cfg D accepted flushed (saves ++ []) s.disk
        rwa [append_nil]
      · have hempty : ¬ (savesOf es).isEmpty := fun hempty => hquiet (isEmpty_iff.1 hempty)
        rw [if_neg hempty]
        intro hflushed
        cases hflushed
    | drain | rollupTick | compactionTick | closePeriod | reopenPeriod =>
      rw [hmark rfl]
      show Older X cfg D (accepted + ↑([] : List UsageEvent)) _ _ _
      rw [hzero]
      exact keepsOlder_op hd hm hfresh hcomp (fun _ _ => nofun) (fun _ _ => nofun) _ _ hnewest hold
  | cut k =>
    obtain rfl : k = 0 := hdone
    rw [hmark rfl]
    show Older X cfg D (accepted + ↑([] : List UsageEvent)) _ _ _
    rw [hzero]
    exact hold.quiet rfl fun p hp => hp.holds
  | @restart d now clk =>
    rw [hmark rfl]
    show Older X cfg D (accepted + ↑([] : List UsageEvent)) _ _ _
    rw [hzero]
    exact older_restart h.sys now clk hnewest hold
  | cutRestart => exact absurd hdone id

/-- **A step that nothing cuts keeps the archive in order.** -/
theorem ArchiveOk.step (hD : ∀ {c c'}, D (c + c') → D c) (hcomp : l.Compacts → D = DistinctIds)
    (h : ArchiveOk X cfg D b) (hstep : ArchiveStep X cfg b l b') : ArchiveOk X cfg D b' := by
  obtain ⟨hdone, sys, hstep, rfl⟩ := hstep
  have hdisk := disk_of_step hstep
  refine ⟨h.sys.step hD hcomp hstep, ?_, ?_, ?_⟩
  · show (b.saves ++ _).getLast? = sys.disk.manifest
    rw [hdisk]
    exact getLast?_savesOf h.newest _
  · refine numbered_append h.numbered ?_
    rw [Nat.zero_add]
    exact h.numbered_effects hdone hstep
  · show Older X cfg D _ _ _ sys.disk
    rw [hdisk]
    exact h.older_effects hD hcomp hdone hstep

theorem archiveOk_empty : ArchiveOk X cfg D .empty := ⟨sysOk_empty, rfl, rfl, fun _ p hp => by cases hp⟩

theorem archiveOk_of_run (hD : ∀ {c c'}, D (c + c') → D c) (hrun : Run (ArchiveStep X cfg) .empty ls b)
    (hcomp : ∀ l ∈ ls, l.Compacts → D = DistinctIds) : ArchiveOk X cfg D b := by
  refine hrun.labels.invariant
    (fun b l b' h hstep => h.step hD (hcomp l hstep.2) hstep.1) archiveOk_empty

end Step

/-! ### Recovery from the generation before -/

/-- Recovery from `p` has an event: it is a row of a listed segment whose file is there, or in the
memtable. -/
def Disk.RecoveredFrom (X : Extern) (d : Disk) (p : Manifest) (capacity : ℕ) (now : ℤ) (clk : ℕ → ℤ)
    (e : UsageEvent) : Prop :=
  let start := d.rolledBack p
  let recovered := start.applyAll (recoveryEffects start)
  let r := runStartupRecovery X capacity now clk recovered
  (∃ m ∈ r.manifest.rawSegments, ∃ rows, recovered.seg m.segmentId = some rows ∧ e ∈ rows) ∨
    e ∈ r.memtable.events

/-- What the disk holds is recovered. -/
theorem recoveredFrom_of_holds (hd : Holds X cfg D c (d.rolledBack p)) (hD : D c) (capacity : ℕ)
    (now : ℤ) (clk : ℕ → ℤ)
    {e : UsageEvent} (he : e ∈ c) : d.RecoveredFrom X p capacity now clk e := by
  have hend : Holds X cfg D c ((d.rolledBack p).applyAll (recoveryEffects (d.rolledBack p))) :=
    hd.recoveryEffects.all
  rw [← hend.2 hD, ← Disk.durable_iff] at he
  refine he.imp_right fun hlog => ?_
  show e ∈ (Memtable.new.insertAll X _ clk).events
  rw [Memtable.insertAll_events, Memtable.new_events, nil_append, replay_eq_walEvents hend.1.sorted,
    Disk.walEvents]
  obtain ⟨f, hf, hlt, he⟩ := hlog
  exact mem_flatMap.2 ⟨f, mem_filter.2 ⟨hf, decide_eq_true hlt⟩, he⟩

/-- **Going back one generation loses nothing, unless a flush wrote the newest.** Take any run of
operations and restarts that nothing cuts, in which no merge has met an id twice. The generation
that `CURRENT` names is damaged and an older one is there. If the newest manifest was not saved by a
flush, a load returns the one before it, and recovery from that has every accepted event. -/
theorem rollback_keeps_events {J : ManifestSerde} {U : Set Manifest} (hJ : J.Lawful U) {b : Archive}
    (hrun : Run (ArchiveStep X cfg) .empty ls b) (hU : ∀ m ∈ b.saves, m.unsaved ∈ U)
    (hids : (∀ l ∈ ls, ¬ l.Compacts) ∨ DistinctIds b.accepted) (hflushed : b.flushed = false) {cur : ℕ}
    (hcur : (savedDir J b.saves).currentGen = some cur)
    (hold : ∃ g, 1 ≤ g ∧ g < cur ∧ generationFilename g ∈ savedDir J b.saves)
    {root : ManifestRoot} (hdamaged : Damaged J ⟨savedDir J b.saves, none⟩ {cur} root)
    (listing : List String) :
    ∃ p, root.load J listing = (.ok (some p), root) ∧
      ∀ capacity now clk, ∀ e ∈ b.accepted, b.sys.disk.RecoveredFrom X p capacity now clk e := by
  have hbehind : ∃ D : Multiset UsageEvent → Prop, D b.accepted ∧ ArchiveOk X cfg D b := by
    rcases hids with hcomp | hids
    · exact ⟨fun _ => True, trivial, archiveOk_of_run (fun _ => trivial) hrun fun l hl h =>
        absurd h (hcomp l hl)⟩
    · exact ⟨DistinctIds, hids, archiveOk_of_run DistinctIds.left hrun fun _ _ _ => rfl⟩
  obtain ⟨D, hD, hok⟩ := hbehind
  obtain ⟨p, hp, hload⟩ := load_previous hJ hU hok.numbered hcur hold hdamaged listing
  exact ⟨p, hload,
    fun capacity now clk e he =>
      recoveredFrom_of_holds (hok.older hflushed p hp).holds hD capacity now clk he⟩

/-! ### Two runs -/

/-- A run of the archive, computed with different letters. -/
theorem exists_archive_of_tags (X : Extern) (cfg : Config) {ls : List (Char × Label)}
    (hls : Lettered ls)
    (hdone : ∀ l ∈ ls.map (·.2), l.Completed) {P : Archive → Prop} [DecidablePred P]
    (heval : (runAll (fun b l => (b.sys.next X cfg l).map (b.after X cfg l)) .empty
      (ls.map (·.2))).any (P ·)) :
    ∃ b, Run (ArchiveStep X cfg) .empty (ls.map (·.2)) b ∧ P b := by
  obtain ⟨b, hall, hP⟩ := (Option.any_eq_true _ _).1 heval
  have hrun : Run (fun b l b' => l.Completed → ArchiveStep X cfg b l b') .empty (ls.map (·.2)) b := by
    refine run_of_tags X cfg (v := Archive.sys)
      (fun {b l b'} hnext => ?_) hls (fun _ _ id _ => unused_empty id) hall
    obtain ⟨sys, hsys, rfl⟩ := Option.map_eq_some_iff.1 hnext
    exact ⟨hsys, fun hstep hl => ⟨hl, sys, hstep, rfl⟩⟩
  exact ⟨b, hrun.labels.mono fun _ l _ h => h.1 (hdone l h.2), of_decide_eq_true hP⟩

/-- A library for the manifests of a table: a manifest is written as its place. -/
def tableSerde (table : List Manifest) : ManifestSerde where
  text m := (table.idxOf { m with currentGeneration := 0 }).repr
  ofText s :=
    match parseDigits s.toList 0 with
    | some i => (table[i]?).elim (.error "expected value") .ok
    | none => .error "expected value"

/-- The manifests it can write. -/
def tableManifests (table : List Manifest) : Set Manifest :=
  {m | { m with currentGeneration := 0 } ∈ table ∧ m.currentGeneration + 1 < 2 ^ 64}

theorem tableSerde_lawful (table : List Manifest) :
    (tableSerde table).Lawful (tableManifests table) := by
  refine ⟨fun m hm => hm.2, fun m hm => ?_⟩
  have hidx := idxOf_lt_length_of_mem hm.1
  have hparse : parseDigits (table.idxOf { m with currentGeneration := 0 }).repr.toList 0 =
      some (table.idxOf { m with currentGeneration := 0 }) := by rw [← padded_zero, parseDigits_padded]
  simp only [tableSerde, hparse, List.getElem?_eq_getElem hidx, getElem_idxOf, Option.elim_some]

/-- The table of the saves. -/
def savedTable (saves : List Manifest) : List Manifest :=
  saves.map fun m => { m with currentGeneration := 0 }

theorem unsaved_mem_table (hgen : ∀ m ∈ saves, m.currentGeneration < 2 ^ 63) (m : Manifest)
    (hm : m ∈ saves) :
    m.unsaved ∈ tableManifests (savedTable saves) := by
  refine ⟨mem_map_of_mem (f := fun m : Manifest => { m with currentGeneration := 0 }) hm, ?_⟩
  have hlt := hgen m hm
  simp only [Manifest.unsaved]
  omega

/-- A generation is overwritten with a zero byte. -/
theorem damaged_insert (table : List Manifest) (dir : ManifestDir) (g : ℕ) :
    Damaged (tableSerde table) ⟨dir, none⟩ {g} ⟨dir.insert (generationFilename g) [0], none⟩ := by
  refine ⟨rfl, AList.lookup_insert_ne (generationFilename_ne_current g).symm,
    fun g' hg' => ?_, fun g' hg' => ?_⟩
  · exact AList.lookup_insert_ne fun h => hg' (generationFilename_injective h)
  · obtain rfl : g' = g := hg'
    rw [ManifestDir.readGeneration, AList.lookup_insert]
    rfl

/-- Two or more saves, and the newest of them damaged. -/
theorem newest_damaged {n : ℕ} (hgen : ∀ m ∈ saves, m.currentGeneration < 2 ^ 63)
    (hnum : Numbered 0 saves) (hlength : saves.length = n + 2) :
    let J := tableSerde (savedTable saves)
    J.Lawful (tableManifests (savedTable saves)) ∧
      (∀ m ∈ saves, m.unsaved ∈ tableManifests (savedTable saves)) ∧
      (savedDir J saves).currentGen = some (n + 2) ∧ generationFilename (n + 1) ∈ savedDir J saves ∧
      Damaged J ⟨savedDir J saves,
          none⟩ {n + 2} ⟨(savedDir J saves).insert (generationFilename (n + 2)) [0], none⟩ := by
  have hJ := tableSerde_lawful (savedTable saves)
  have hU := unsaved_mem_table hgen
  have hcur := currentGen_savedDir hJ hU hnum (by rintro rfl; cases hlength)
  have hthere := previous_mem_savedDir hJ hU hnum (by omega)
  rw [hlength] at hcur hthere
  exact ⟨hJ, hU, hcur, hthere, damaged_insert _ _ _⟩

/-- Two events are accepted and flushed. -/
def flushedLast : List (Char × Label) :=
  [('s', .restart 8000000 fun _ => 8000000), ('i', .run (.ingest sampleClock twoEvents)),
    ('d', .run .drain), ('f', .run (.flush (taggedUuid 'f') fun _ => 9000000))]

/-- And their hour is rolled up. -/
def rolledUpLast : List (Char × Label) := flushedLast ++
    [('r', .run (.rollupTick 10900000 (taggedHourUuid 'r')))]

/-- **The batch of a flush is lost with its generation.** Two events are accepted and flushed, and
the manifest that lists their segments is damaged. The manifest before it is loaded: it lists
nothing, and the log is deleted. -/
theorem flushed_batch_is_lost :
    ∃ (J : ManifestSerde) (U : Set Manifest) (b : Archive) (root : ManifestRoot) (p : Manifest),
      J.Lawful U ∧ Run (ArchiveStep .sample sampleConfig) .empty (flushedLast.map (·.2)) b ∧
        (∀ m ∈ b.saves, m.unsaved ∈ U) ∧
      DistinctIds b.accepted ∧ (savedDir J b.saves).currentGen = some 2 ∧
      generationFilename 1 ∈ savedDir J b.saves ∧
      Damaged J ⟨savedDir J b.saves, none⟩ {2} root ∧
      (∀ listing, root.load J listing = (.ok (some p), root)) ∧
      ∃ e ∈ b.accepted, ¬ b.sys.disk.RecoveredFrom .sample p 10 9500000 (fun _ => 9500000) e := by
  have hls : Lettered flushedLast := ⟨by simp [flushedLast, Label.DrawsTagged, Op.DrawsTagged],
    by decide⟩
  obtain ⟨b, hrun, hgen, hnum, hlength, hids, hcard, hnothing⟩ :=
    exists_archive_of_tags .sample sampleConfig hls
    (by simp [flushedLast, Label.Completed])
      (P := fun b => (∀ m ∈ b.saves, m.currentGeneration < 2 ^ 63) ∧
      b.saves.map (·.currentGeneration) = List.range' (0 + 1) b.saves.length ∧
      b.saves.length = 2 ∧ (b.accepted.map (·.eventId)).Nodup ∧ 0 < b.accepted.card ∧
      ∀ p ∈ b.saves.dropLast.getLast?, p.rawSegments = [] ∧
        (runStartupRecovery .sample 10 9500000 (fun _ => 9500000)
          ((b.sys.disk.rolledBack p).applyAll
            (recoveryEffects (b.sys.disk.rolledBack p)))).memtable.events = [])
    (by decide +kernel)
  obtain ⟨hJ, hU, hcur, hthere, hdamaged⟩ := newest_damaged hgen hnum hlength
  have hload :=
    fun listing => load_previous hJ hU hnum hcur ⟨1, le_rfl, by decide, hthere⟩ hdamaged listing
  obtain ⟨p, hp, -⟩ := hload []
  refine ⟨_, _, b, _, p, hJ, hrun, hU, hids, hcur, hthere, hdamaged, fun listing => ?_, ?_⟩
  · obtain ⟨p', hp', hload⟩ := hload listing
    obtain rfl := Option.some.inj (hp.symm.trans hp')
    exact hload
  · obtain ⟨hsegs, hmem⟩ := hnothing p hp
    obtain ⟨e, he⟩ := Multiset.card_pos_iff_exists_mem.1 hcard
    have hmanifest :
        ((b.sys.disk.rolledBack p).applyAll
            (recoveryEffects (b.sys.disk.rolledBack p))).loadManifest = p := by
      rw [Disk.loadManifest, recoveryEffects_manifest]
      rfl
    refine ⟨e, he, ?_⟩
    rintro (⟨m, hm, -⟩ | hlog)
    · have hnone : (Disk.loadManifest _).rawSegments = [] :=
        (congrArg Manifest.rawSegments hmanifest).trans hsegs
      exact not_mem_nil (hnone ▸ hm)
    · rw [hmem] at hlog
      cases hlog

/-- The same run, and a tick after it: the manifest before the newest lists the segments. -/
theorem rollback_keeps_events_of_rolledUp :
    ∃ (J : ManifestSerde) (b : Archive) (root : ManifestRoot) (p : Manifest),
      Run (ArchiveStep .sample sampleConfig) .empty (rolledUpLast.map (·.2)) b ∧ b.accepted.card = 2 ∧
      Damaged J ⟨savedDir J b.saves, none⟩ {3} root ∧ root.load J [] = (.ok (some p), root) ∧
      ∀ e ∈ b.accepted, b.sys.disk.RecoveredFrom .sample p 10 9500000 (fun _ => 9500000) e := by
  have hls : Lettered rolledUpLast :=
    ⟨by simp [rolledUpLast, flushedLast, Label.DrawsTagged, Op.DrawsTagged], by decide⟩
  obtain ⟨b, hrun, hgen, hlength, hcard, hflushed⟩ := exists_archive_of_tags .sample sampleConfig hls
    (by simp [rolledUpLast, flushedLast, Label.Completed])
    (P := fun b => (∀ m ∈ b.saves, m.currentGeneration < 2 ^ 63) ∧ b.saves.length = 3 ∧
      b.accepted.card = 2 ∧ b.flushed = false) (by decide +kernel)
  have hcompacts : ∀ l ∈ rolledUpLast.map (·.2), ¬ l.Compacts := by
    simp [rolledUpLast, flushedLast, Label.Compacts, Op.Compacts]
  have hnum : Numbered 0 b.saves :=
    (archiveOk_of_run (D := fun _ => True) (fun _ => trivial) hrun fun l hl h =>
      absurd h (hcompacts l hl)).numbered
  obtain ⟨hJ, hU, hcur, hthere, hdamaged⟩ := newest_damaged hgen hnum hlength
  obtain ⟨p, hload, hall⟩ := rollback_keeps_events hJ hrun hU (.inl hcompacts) hflushed hcur
    ⟨2, by decide, by decide, hthere⟩ hdamaged []
  exact ⟨_, b, _, p, hrun, hcard, hdamaged, hload, hall 10 9500000 _⟩

end UsageDb
