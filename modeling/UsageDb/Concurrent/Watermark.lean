import UsageDb.Concurrent.Durability
import UsageDb.Rollup.Coverage
import Mathlib.Tactic.Abel

/-!
# The watermark under concurrent steps

A tick of the rollup worker reads the manifest, the id of the active log file and the oldest
event of the memtable under different locks. In between, a request can drain the memtable:
then the events it drained are neither in the segments of the tick's snapshot nor in the
memtable the tick looks at, and the tick moves the watermark past them. They are never rolled
up (`drained_event_not_rolled_up`).

`rolled_up_once` says that this is the only way, for a clock that does not go back, events that
are not older than the safety lag and batches sent in order: if no request drains events below
the tick's target between its look at the log and its look at the memtable, the accepted
events below the watermark are in exactly one rollup record each, in every state.

The proof follows one equation through a tick: what the disk holds is the rows of the snapshot,
what is in the memtable (until the tick has looked at it), and a rest that is not below the
target (`Beyond`).
-/

namespace UsageDb

open Lib RollupBuilder List

variable {X : Extern} {cfg : Config}
  {e : UsageEvent} {a : Action} {d : Disk} {clock : ℤ} {m m' : Machine}

/-! ### What is claimed -/

/-- The records of the manifest's rollup segments are made of groups of events that together
are the events of `book` below the watermark. -/
def Disk.RolledUpOnce (X : Extern) (d : Disk) (book : Multiset UsageEvent) : Prop :=
  ∃ groups, List.Forall₂ (RecordOf X) ((d.rollups X d.loadManifest).flatMap (·.2)) groups ∧
    (↑groups.flatten : Multiset UsageEvent) =
      book.filter fun e => e.timestampMs < d.loadManifest.hourlyRollupMs

/-- The server, the last reading of the clock and the book of accepted events. -/
structure Watched where
  server : Server
  /-- The last reading. -/
  clock : ℤ
  /-- The accepted events. -/
  book : Multiset UsageEvent

/-- The reading of the clock in a step. -/
def Event.reading : Event → Option ℤ
  | .act (.ingest at_ _ _) => some at_
  | .act (.tickStart now) => some now
  | .start now _ => some now
  | _ => none

/-- The events a step accepts. -/
def Server.accepts (X : Extern) : Server → Event → List UsageEvent
  | .up m, .act a => a.accepts X m
  | _, _ => []

/-- The target a tick has in mind between its look at the log and its look at the memtable. -/
def TickPhase.pending (cfg : Config) : TickPhase → Option ℤ
  | .sealed now _ | .fresh now _ => some (floorHour (now - cfg.rollupSafetyLagMs))
  | _ => none

/-- A request drains no event below the target of a tick that has looked at the log and not
at the memtable. -/
def Action.SparesTick (X : Extern) (cfg : Config) (m : Machine) : Action → Prop
  | .ingest _ clk events => ∀ target ∈ m.ticker.pending cfg,
      ∀ msg ∈ (ingestCriticalSection X cfg clk m.state
        (classifiedEvents X m.state.mem.manifest.closedPeriods clk.now events)).2.1,
        ∀ e ∈ msg.events, target ≤ e.timestampMs
  | _ => True

/-- The same for a step of the server. -/
def Server.SparesTick (X : Extern) (cfg : Config) : Server → Event → Prop
  | .up m, .act a => a.SparesTick X cfg m
  | _, _ => True

/-- A step with events that are not too old, batches sent in order. The clock is the latest reading:
one that was made before other steps, as that of a tick before it looks at the manifest, can be any
earlier one. -/
structure TimelyStep (X : Extern) (cfg : Config) (a : Watched) (l : Event) (b : Watched) : Prop where
  /-- The server takes the step. -/
  step : Server.Step X cfg a.server l b.server
  /-- Batches are sent in order. -/
  order : a.server.SendsInOrder l
  /-- The clock does not go back. -/
  clock : b.clock = max a.clock (l.reading.getD a.clock)
  /-- Accepted events are not older than the safety lag. -/
  timely : ∀ e ∈ a.server.accepts X l, b.clock - cfg.rollupSafetyLagMs ≤ e.timestampMs
  /-- They go into the book. -/
  book : b.book = a.book + ↑(a.server.accepts X l)

/-! ### What a step leaves alone -/

/-- The raw segments only get more, and what has been rolled up stays. -/
structure Disk.Grows (d d' : Disk) : Prop where
  /-- The raw segments stay and keep their places. -/
  raw : d.loadManifest.rawSegments <+: d'.loadManifest.rawSegments
  /-- They keep their rows. -/
  rows : ∀ seg ∈ d.loadManifest.rawSegments, d'.rows seg = d.rows seg
  /-- The rollups, the watermark and the buckets stay. -/
  rolled : d'.loadManifest.rolled = d.loadManifest.rolled
  /-- The seal moves up, … -/
  sealed : d.loadManifest.lastSealedWalId ≤ d'.loadManifest.lastSealedWalId
  /-- … and does so when there are new segments. -/
  same : d'.loadManifest.lastSealedWalId = d.loadManifest.lastSealedWalId →
    d'.loadManifest.rawSegments = d.loadManifest.rawSegments
  /-- So do the files of rollups. -/
  rseg : d'.rseg = d.rseg

section Grows

variable {d d' : Disk} {new : Multiset UsageEvent}

theorem Disk.Grows.of_seg (hman : d'.manifest = d.manifest)
    (hseg : ∀ seg ∈ d.loadManifest.rawSegments, d'.seg seg.segmentId = d.seg seg.segmentId)
    (hrseg : d'.rseg = d.rseg) : d.Grows d' := by
  have hload : d'.loadManifest = d.loadManifest := by rw [Disk.loadManifest, hman, Disk.loadManifest]
  refine ⟨?_, fun seg hmem => ?_, ?_, ?_, fun _ => ?_, hrseg⟩
  · rw [hload]
  · rw [Disk.rows, hseg seg hmem, Disk.rows]
  · rw [hload]
  · rw [hload]
  · rw [hload]

theorem Disk.Grows.refl (d : Disk) : d.Grows d := .of_seg rfl (fun _ _ => rfl) rfl

/-- Work on the log. -/
theorem Disk.Grows.onLog {xs : List Effect} (h : ∀ x ∈ xs, x.OnLog) (d : Disk) :
    d.Grows (d.applyAll xs) := by
  obtain ⟨hseg, -, hrseg⟩ := Disk.applyAll_onLog h d
  have hman : (d.applyAll xs).manifest = d.manifest := by
    have hprefix : EveryPrefix Disk.apply (fun d' => d'.manifest = d.manifest) d xs := by
      refine EveryPrefix.of_forall rfl fun t x hx ht => ?_
      have hlog := h x hx
      cases x with
      | walAppend | walCreate | walDelete => exact ht
      | _ => cases hlog
    exact hprefix.all
  exact .of_seg hman (fun seg _ => congrFun hseg _) hrseg

/-- The raw events of before are among those of after. -/
theorem Disk.Grows.exists_added (h : d.Grows d') :
    ∃ added, d'.rawEvents d'.loadManifest = d.rawEvents d.loadManifest ++ added := by
  obtain ⟨segs, hsegs⟩ := h.raw
  refine ⟨segs.flatMap d'.rows, ?_⟩
  rw [Disk.rawEvents, ← hsegs, flatMap_append, Disk.rawEvents, flatMap_congr h.rows]

/-- What is in the log was there before, or is new. -/
theorem Disk.Grows.mem_walEvents (h : d.Grows d') (hcontent : d'.content = d.content + new)
    (he : e ∈ d'.walEvents d'.loadManifest.lastSealedWalId) :
    e ∈ d.walEvents d.loadManifest.lastSealedWalId ∨ e ∈ new := by
  obtain ⟨added, hadded⟩ := h.exists_added
  simp only [Disk.content, hadded, ← Multiset.coe_add, add_assoc, add_right_inj] at hcontent
  have hmem : e ∈ (↑added + ↑(d'.walEvents d'.loadManifest.lastSealedWalId) : Multiset UsageEvent) :=
    Multiset.mem_add.2 (.inr (Multiset.mem_coe.2 he))
  rw [hcontent, Multiset.mem_add, Multiset.mem_coe] at hmem
  exact hmem

/-- The promise of the watermark is kept by such a step, if what it adds is not below the
watermark. -/
theorem RollupOk.grows (h : RollupOk X d) (hg : d.Grows d') (hcontent : d'.content = d.content + new)
    (hnew : ∀ e ∈ new, d.loadManifest.hourlyRollupMs ≤ e.timestampMs) : RollupOk X d' := by
  obtain ⟨hsegs, hwm, hbuckets⟩ := Manifest.rolled_eq_iff.1 hg.rolled
  exact h.keep new hsegs hwm (.inr hbuckets) (fun seg _ => congrFun hg.rseg _) hcontent hnew
    fun e he => hg.mem_walEvents hcontent he

end Grows

/-- The flusher works on raw segments only. -/
def FlushPhase.OnSegments : FlushPhase → Prop
  | .writing _ _ todo => ∀ x ∈ todo, x.OnSegments
  | _ => True

section Steps

variable {m m' : Machine}

/-- A step of a tick that is not its scan or its commit, of the flusher or of a request. -/
def Action.Plain : Action → Prop
  | .tickScan _ | .tickCommit => False
  | _ => True

/-- **All steps but the end of a tick let the disk grow.** -/
theorem Machine.Ok.grows (h : m.Ok X cfg) (hf : m.flusher.OnSegments) (ha : a.Plain)
    (hstep : m.next X cfg a = some m') : m.state.disk.Grows m'.state.disk ∧ m'.flusher.OnSegments := by
  cases Machine.next_cases hstep with
  | @ingest _ clk events =>
    have hlog : (handleIngest X cfg clk events m.state).1.OnLog m.state :=
      onLog_ingest m.state clk events
    exact ⟨.onLog hlog.effects _, hf⟩
  | take _ _ hflusher =>
    obtain ⟨-, rfl⟩ | rfl := hflusher
    · exact ⟨.refl _, trivial⟩
    · refine ⟨.refl _, fun x hx => ?_⟩
      obtain ⟨seg, -, hx⟩ := mem_flatMap.1 hx
      simp only [mem_cons, not_mem_nil, or_false] at hx
      rcases hx with rfl | rfl <;> trivial
  | @write _ _ x _ hwriting =>
    have hflush := h.flusher
    rw [hwriting] at hflush hf
    obtain ⟨uuid, -, -, -, htodo⟩ := hflush
    have hunl : x.Unlisted m.state.disk.loadManifest.rawIds := by
      rw [h.loadManifest]
      exact htodo x (by simp)
    have hag := agree_apply hunl
    refine ⟨.of_seg hag.manifest (fun seg hseg => hag.seg _ (mem_map_of_mem hseg)) ?_,
      fun y hy => hf y (by simp [hy])⟩
    have hx : x.OnSegments := hf x (by simp)
    cases x with
    | segWrite | segRemove | idxWrite => rfl
    | _ => cases hx
  | @commit msg metas _ hwriting hmanifest =>
    subst hmanifest
    have hcov := h.mem.covers
    rw [show m.view.mem.queue = msg :: (m.state.mem.queue ++ m.held.map (·.2)) by
      simp [Machine.view, Machine.underWay, hwriting, FlushPhase.current]] at hcov
    have hlt : m.state.mem.manifest.lastSealedWalId < msg.sealedWalId := hcov.1
    have hseal : (m.state.mem.manifest.commitFlush metas msg.sealedWalId).saved.lastSealedWalId =
        msg.sealedWalId := by
      simp [Manifest.commitFlush, hlt]
    refine ⟨⟨?_, fun seg _ => rfl, ?_, ?_, fun hsame => ?_, rfl⟩, trivial⟩
    · rw [h.loadManifest]
      exact prefix_append _ _
    · rw [h.loadManifest]
      rfl
    · rw [h.loadManifest]
      exact hlt.le.trans hseal.ge
    · rw [h.loadManifest] at hsame
      exact absurd (hseal.symm.trans hsame) hlt.ne'
  | @delete id =>
    have hlog : ∀ x ∈ [Effect.walDelete id], x.OnLog := fun x hx => mem_singleton.1 hx ▸ trivial
    exact ⟨.onLog hlog _, trivial⟩
  | deleted => exact ⟨.refl _, trivial⟩
  | tickDrain =>
    exact ⟨.onLog (onLog_drainIf m.state (!m.state.mem.memtable.events.isEmpty)).effects _, hf⟩
  | tickScan | tickCommit => exact ha.elim
  | _ => exact ⟨.refl _, hf⟩

end Steps

/-! ### A tick and what it has seen -/

/-- The rows of a snapshot's raw segments. -/
def TickSnapshot.rows (snap : TickSnapshot) (d : Disk) : List UsageEvent :=
  snap.rawSegments.flatMap d.rows

/-- The disk holds the rows of the snapshot, `inside`, and a rest that is not below `target`;
of the manifest, nothing has changed since the snapshot but that segments were added. -/
structure Beyond (d : Disk) (snap : TickSnapshot) (target : ℤ) (inside : Multiset UsageEvent) :
    Prop where
  /-- The segments of the snapshot are listed. -/
  raw : snap.rawSegments <+: d.loadManifest.rawSegments
  /-- The rollups, the watermark and the buckets are those of the snapshot. -/
  rolled : d.loadManifest.rolled = (snap.rollupSegments, snap.watermark, snap.buckets)
  /-- What is not in the snapshot. -/
  rest : ∃ rest, d.content = ↑(snap.rows d) + inside + rest ∧ ∀ e ∈ rest, target ≤ e.timestampMs

/-- A target above the watermark that the clock allows. -/
structure TargetOk (cfg : Config) (snap : TickSnapshot) (target clock : ℤ) : Prop where
  /-- It is a full hour. -/
  aligned : HOUR_MS ∣ target
  /-- It is not below the watermark. -/
  above : snap.watermark ≤ target
  /-- No event accepted from now on is below it. -/
  time : target ≤ max 0 (clock - cfg.rollupSafetyLagMs)

/-- The files of the manifest's rollup segments are there. -/
def Disk.RollupFiles (d : Disk) : Prop := ∀ seg ∈ d.loadManifest.rollupSegments,
    d.rseg seg.segmentId ≠ none

/-- The watermark is where it may be, and the rollups are there. -/
structure Rolled (X : Extern) (cfg : Config) (clock : ℤ) (d : Disk) : Prop where
  /-- The rollups are those of the raw events below the watermark. -/
  ok : RollupOk X d
  /-- Their files are there. -/
  files : d.RollupFiles
  /-- No event accepted from now on is below the watermark. -/
  time : d.loadManifest.hourlyRollupMs ≤ max 0 (clock - cfg.rollupSafetyLagMs)

/-- What a tick knows. -/
def TickPhase.Ok (X : Extern) (cfg : Config) (s : State) (clock : ℤ) : TickPhase → Prop
  | .idle | .stale | .sending => True
  | .snapshot now snap => now ≤ clock ∧ snap.rawSegments <+: s.disk.loadManifest.rawSegments ∧
      s.disk.loadManifest.rolled = (snap.rollupSegments, snap.watermark, snap.buckets) ∧
      snap.lastSealedWalId ≤ s.disk.loadManifest.lastSealedWalId ∧
      (s.disk.loadManifest.lastSealedWalId = snap.lastSealedWalId →
        s.disk.loadManifest.rawSegments = snap.rawSegments)
  | .sealed now snap | .fresh now snap => now ≤ clock ∧
      Beyond s.disk snap (floorHour (now - cfg.rollupSafetyLagMs)) ↑s.mem.memtable.events
  | .target snap t => TargetOk cfg snap t clock ∧ Beyond s.disk snap t 0
  | .scanned segs t => ∃ snap, TargetOk cfg snap t clock ∧ Beyond s.disk snap t 0 ∧
      (∃ srcs, List.Forall₂ (RollupOf X snap.buckets) segs srcs ∧
        srcs.flatten.Perm ((snap.rows s.disk).filter fun e =>
          snap.watermark ≤ e.timestampMs && e.timestampMs < t)) ∧
      (∀ seg ∈ segs, s.disk.rseg seg.1.segmentId = some seg.2) ∧ ∀ seg ∈ segs, seg.1.minTimestampMs < t

section Beyond

variable {d d' : Disk} {snap : TickSnapshot} {target : ℤ} {inside inside' new out : Multiset UsageEvent}

theorem Disk.Grows.rows_snapshot (hg : d.Grows d')
    (h : snap.rawSegments <+: d.loadManifest.rawSegments) :
    snap.rows d' = snap.rows d := flatMap_congr fun seg hseg => hg.rows seg (h.subset hseg)

/-- The segments of the snapshot agree with their files. -/
theorem Beyond.segmentsOk (h : Beyond d snap target inside) (hd : DiskOk X cfg d) :
    ∀ seg ∈ snap.rawSegments, SegmentOk X d snap.buckets seg := by
  intro seg hseg
  rw [← (Manifest.rolled_eq_iff.1 h.rolled).2.2]
  exact hd.segments seg (h.raw.subset hseg)

/-- **What a tick has seen stays so while the disk grows**: what leaves `inside` or is new is
`inside` afterwards, or not below the target. -/
theorem Beyond.grows (h : Beyond d snap target inside) (hg : d.Grows d')
    (hcontent : d'.content = d.content + new)
    (hsplit : inside + new = inside' + out) (hout : ∀ e ∈ out, target ≤ e.timestampMs) :
    Beyond d' snap target inside' := by
  obtain ⟨rest, hrest, hle⟩ := h.rest
  refine ⟨h.raw.trans hg.raw, hg.rolled.trans h.rolled, rest + out, ?_, fun e he => ?_⟩
  · calc d'.content = ↑(snap.rows d) + (inside + new) + rest := by
          rw [hcontent, hrest]
          abel
      _ = ↑(snap.rows d') + inside' + (rest + out) := by
          rw [hsplit, hg.rows_snapshot h.raw]
          abel
  · rcases Multiset.mem_add.1 he with he | he
    · exact hle e he
    · exact hout e he

/-- The raw events of the manifest below the target are those of the snapshot, and the log has
none. -/
theorem Beyond.below (h : Beyond d snap target 0) :
    (∀ e ∈ d.walEvents d.loadManifest.lastSealedWalId, target ≤ e.timestampMs) ∧
      (d.rawEvents d.loadManifest).filter (fun e => snap.watermark ≤ e.timestampMs &&
          e.timestampMs < target) =
        (snap.rows d).filter fun e => snap.watermark ≤ e.timestampMs && e.timestampMs < target := by
  obtain ⟨rest, hrest, hle⟩ := h.rest
  obtain ⟨segs, hsegs⟩ := h.raw
  have hraw : d.rawEvents d.loadManifest = snap.rows d ++ segs.flatMap d.rows := by
    rw [Disk.rawEvents, ← hsegs, flatMap_append]
    rfl
  have hsplit :
      (↑(segs.flatMap d.rows) + ↑(d.walEvents d.loadManifest.lastSealedWalId) : Multiset
          UsageEvent) = rest := by
    simpa only [Disk.content, hraw, ← Multiset.coe_add, add_assoc, add_zero, add_right_inj,
      zero_add] using hrest
  subst hsplit
  refine ⟨fun e he => hle e (Multiset.mem_add.2 (.inr (Multiset.mem_coe.2 he))), ?_⟩
  have hnone : (segs.flatMap d.rows).filter (fun e => snap.watermark ≤ e.timestampMs &&
      e.timestampMs < target) = [] := by
    rw [filter_eq_nil_iff]
    intro e he hin
    have hge := hle e (Multiset.mem_add.2 (.inl (Multiset.mem_coe.2 he)))
    rw [Bool.and_eq_true, decide_eq_true_eq, decide_eq_true_eq] at hin
    omega
  rw [hraw, filter_append, hnone, append_nil]

end Beyond

/-! ### The steps of a tick -/

theorem floorHour_le_max (t : ℤ) : floorHour t ≤ max 0 t := by
  rcases le_or_gt 0 t with h | h
  · exact (floorHour_le h).trans (le_max_right 0 t)
  · refine le_max_of_le_left ?_
    have hneg : t.tdiv HOUR_MS = -((-t) / HOUR_MS) := by
      rw [← Int.tdiv_eq_ediv_of_nonneg (by omega), Int.neg_tdiv, neg_neg]
    rw [floorHour, hneg, HOUR_MS]
    omega

/-- A drain takes events out of the memtable into a batch. -/
theorem Mem.drainIf_split (mem : Mem) (cond : Bool) :
    ∃ out, mem.memtable.events = (mem.drainIf cond).mem.memtable.events ++ out ∧
      ∀ e ∈ out, ∃ msg ∈ (mem.drainIf cond).msg, e ∈ msg.events := by
  unfold Mem.drainIf
  split
  · exact ⟨mem.memtable.events, rfl, fun e he => ⟨_, rfl, he⟩⟩
  · exact ⟨[], (append_nil _).symm, fun e he => by cases he⟩

section Ticker

variable {m m' : Machine} {s s' : State} {p : TickPhase} {clock clock' : ℤ} {new : List UsageEvent}

/-- A tick that does nothing itself, while others work. -/
theorem TickPhase.Ok.grows (h : p.Ok X cfg s clock) (hg : s.disk.Grows s'.disk)
    (hcontent : s'.disk.content = s.disk.content + ↑new) (hclock : clock ≤ clock')
    (hnew : ∀ e ∈ new, max 0 (clock' - cfg.rollupSafetyLagMs) ≤ e.timestampMs)
    (out : Multiset UsageEvent)
    (hsplit : (↑s.mem.memtable.events + ↑new : Multiset UsageEvent) = ↑s'.mem.memtable.events + out)
    (hout : ∀ t ∈ p.pending cfg, ∀ e ∈ out, t ≤ e.timestampMs) : p.Ok X cfg s' clock' := by
  have htarget : ∀ {snap : TickSnapshot} {t : ℤ}, TargetOk cfg snap t clock → Beyond s.disk snap t 0 →
      TargetOk cfg snap t clock' ∧ Beyond s'.disk snap t 0 := by
    intro snap t ht hb
    have hle : t ≤ max 0 (clock' - cfg.rollupSafetyLagMs) :=
      ht.time.trans (max_le_max le_rfl (by omega))
    exact ⟨⟨ht.aligned, ht.above, hle⟩, hb.grows hg hcontent rfl fun e he => hle.trans (hnew e he)⟩
  cases p with
  | idle | stale | sending => trivial
  | snapshot now snap =>
    obtain ⟨hnow, hraw, hrolled, hsealed, hsame⟩ := h
    refine ⟨hnow.trans hclock, hraw.trans hg.raw, hg.rolled.trans hrolled, hsealed.trans hg.sealed,
      fun heq => ?_⟩
    have hle := hg.sealed
    have hback : s.disk.loadManifest.lastSealedWalId = snap.lastSealedWalId := by omega
    exact (hg.same (heq.trans hback.symm)).trans (hsame hback)
  | «sealed» now snap | fresh now snap => exact ⟨h.1.trans hclock,
      h.2.grows hg hcontent hsplit (hout _ rfl)⟩
  | target snap t => exact htarget h.1 h.2
  | scanned segs t =>
    obtain ⟨snap, ht, hb, ⟨srcs, hof, hperm⟩, hfiles, hbelow⟩ := h
    obtain ⟨ht', hb'⟩ := htarget ht hb
    refine ⟨snap, ht', hb', ⟨srcs, hof, ?_⟩, ?_, hbelow⟩
    · rw [hg.rows_snapshot hb.raw]
      exact hperm
    · rw [hg.rseg]
      exact hfiles

/-- The same, when nothing is accepted and the memtable is left alone. -/
theorem TickPhase.Ok.same (h : p.Ok X cfg s clock) (hg : s.disk.Grows s'.disk)
    (hcontent : s'.disk.content = s.disk.content + ↑([] : List UsageEvent)) (hclock : clock ≤ clock')
    (hmem : s'.mem.memtable = s.mem.memtable) : p.Ok X cfg s' clock' :=
  h.grows hg hcontent hclock
    (fun e he => by cases he) 0 (by rw [hmem]; rfl) fun _ _ e he => by simp at he

/-- A critical section, seen by the tick: what it drains is not below the target the tick has
in mind. -/
theorem Machine.Ok.ticker_ingest (h : m.ticker.Ok X cfg m.state clock) {at_ : ℤ} {clk : IngestClock}
    {events : List UsageEvent} (hg : m.state.disk.Grows (m.ingest X cfg at_ clk events).state.disk)
    (hadds : m.Adds X cfg ((Op.ingest clk events).accepts X m.state) (m.ingest X cfg at_ clk events))
    (hspares : (Action.ingest at_ clk events).SparesTick X cfg m) (hclock : clock ≤ clock')
    (hnew : ∀ e ∈ (Op.ingest clk events).accepts X m.state,
      max 0 (clock' - cfg.rollupSafetyLagMs) ≤ e.timestampMs) :
    m.ticker.Ok X cfg (m.ingest X cfg at_ clk events).state clock' := by
  let mem := m.state.mem.accept X clk (classifyBatch m.state.mem.dedupe
    (classifiedEvents X m.state.mem.manifest.closedPeriods clk.now events)).newEvents
  obtain ⟨out, hout, hdrained⟩ :=
    mem.drainIf_split (cfg.maxMemtableSizeBytes < mem.memtable.approxSizeBytes)
  have hall : mem.memtable.events = m.state.mem.memtable.events ++
      (Op.ingest clk events).accepts X m.state :=
    Memtable.insertAll_events _ _ _
  refine h.grows hg hadds.content hclock hnew ↑out ?_ fun t ht e he => ?_
  · rw [Multiset.coe_add, ← hall, hout, ← Multiset.coe_add]
    rfl
  · obtain ⟨msg, hmsg, he⟩ := hdrained e (Multiset.mem_coe.1 he)
    exact hspares t ht msg hmsg e he

/-- A snapshot is taken. -/
theorem Machine.Ok.ticker_start (h : m.Ok X cfg) {now : ℤ} (hclock : now ≤ clock) :
    (TickPhase.snapshot now m.state.mem.manifest.tickSnapshot).Ok X cfg m.state clock := by
  rw [← h.loadManifest]
  exact ⟨hclock, prefix_refl _, rfl, le_rfl, fun _ => rfl⟩

/-- When the active log file is the one after the seal of the snapshot, nothing has been
committed since, and all that is not in segments is in the memtable. -/
theorem Machine.Ok.ticker_sealed (h : m.Ok X cfg) {now : ℤ} {snap : TickSnapshot}
    (ht : (TickPhase.snapshot now snap).Ok X cfg m.state clock)
    (hflight : snap.inFlight m.state.mem.activeId = false) :
    (TickPhase.sealed now snap).Ok X cfg m.state clock := by
  obtain ⟨hnow, hraw, hrolled, hle, hsame⟩ := ht
  have hactive : m.state.mem.activeId ≤ snap.lastSealedWalId + 1 := by
    rw [TickSnapshot.inFlight, decide_eq_false_iff_not] at hflight
    omega
  have hload := h.loadManifest
  have hcov :
    Covers m.state.disk.wal m.state.mem.activeId m.state.mem.manifest.lastSealedWalId m.underWay
    m.state.mem.memtable.events := h.mem.covers
  have hlt := hcov.lt_active
  have hseal : m.state.disk.loadManifest.lastSealedWalId = snap.lastSealedWalId := by
    rw [hload] at hle ⊢
    omega
  have hnone : m.underWay = [] := by
    rw [eq_nil_iff_forall_not_mem]
    intro msg hmsg
    have hmsg := hcov.sealed_lt hmsg
    rw [hload] at hseal
    omega
  have hwal :
      m.state.mem.memtable.events.Perm (m.state.disk.walEvents
          m.state.disk.loadManifest.lastSealedWalId) := by
    have hunsealed : (m.underWay.flatMap (·.events) ++ m.state.mem.memtable.events).Perm _ :=
      h.mem.unsealed h.disk.sorted
    rw [hnone] at hunsealed
    rw [hload]
    exact hunsealed
  refine ⟨hnow, hraw, hrolled, 0, ?_, fun e he => by simp at he⟩
  rw [Disk.content, Disk.rawEvents, hsame hseal, TickSnapshot.rows, add_zero, ← Multiset.coe_add,
    Multiset.coe_eq_coe.2 hwal]

/-- The memtable is looked at: from now on nothing below the target is left out. -/
theorem Machine.Ok.ticker_target (h : m.Ok X cfg) (hroll : RollupOk X m.state.disk) {now : ℤ}
    {snap : TickSnapshot} (ht : (TickPhase.fresh now snap).Ok X cfg m.state clock)
    (hstart : snap.start < targetHour cfg now m.state.mem.memtable.minEventTimestampMs) :
    (TickPhase.target snap (targetHour cfg now m.state.mem.memtable.minEventTimestampMs)).Ok X cfg
      m.state clock := by
  obtain ⟨hnow, hbeyond⟩ := ht
  obtain ⟨-, hwm, hbuckets⟩ := Manifest.rolled_eq_iff.1 hbeyond.rolled
  have htime : targetHour cfg now m.state.mem.memtable.minEventTimestampMs ≤
      floorHour (now - cfg.rollupSafetyLagMs) := by
    unfold targetHour
    cases m.state.mem.memtable.minEventTimestampMs with
    | none => exact le_rfl
    | some ts => exact min_le_left _ _
  have hpos : ∀ e ∈ m.state.mem.memtable.events, 0 < e.timestampMs := by
    intro e he
    obtain ⟨f, hf, he⟩ := mem_flatMap.1
      ((h.mem.unsealed h.disk.sorted).subset (mem_append_right (m.underWay.flatMap (·.events)) he))
    exact h.disk.positive f (mem_of_mem_filter hf) e he
  have hok := hbeyond.segmentsOk h.disk
  have haligned : HOUR_MS ∣ snap.watermark := hwm ▸ hroll.aligned
  refine ⟨⟨targetHour_dvd _ _ _,
    (start_bounds haligned fun m hm => (hok m hm).times).2.1.trans hstart.le, ?_⟩,
    hbeyond.raw, hbeyond.rolled, ?_⟩
  · exact htime.trans ((floorHour_le_max _).trans (max_le_max le_rfl (by omega)))
  · obtain ⟨rest, hrest, hle⟩ := hbeyond.rest
    refine ⟨↑m.state.mem.memtable.events + rest, by rw [hrest, add_zero, add_assoc], fun e he => ?_⟩
    rcases Multiset.mem_add.1 he with he | he
    · exact targetHour_le cfg now (Multiset.mem_coe.1 he) hpos
    · exact htime.trans (hle e he)

/-- **A step that is not the end of a tick keeps what the tick knows.** -/
theorem Machine.Ok.ticker_next (h : m.Ok X cfg) (hroll : RollupOk X m.state.disk)
    (ht : m.ticker.Ok X cfg m.state clock) (ha : a.Plain) (hstep : m.next X cfg a = some m')
    (hg : m.state.disk.Grows m'.state.disk) (hadds : m.Adds X cfg (a.accepts X m) m')
    (hspares : a.SparesTick X cfg m) (hclock : clock ≤ clock')
    (hreading : ∀ t ∈ (Event.act a).reading, t ≤ clock')
    (hnew : ∀ e ∈ a.accepts X m, max 0 (clock' - cfg.rollupSafetyLagMs) ≤ e.timestampMs) :
    m'.ticker.Ok X cfg m'.state clock' := by
  cases Machine.next_cases hstep with
  | ingest => exact Machine.Ok.ticker_ingest ht hg hadds hspares hclock hnew
  | @send _ x =>
    by_cases hx : x.1 = Party.rollup
    · simp only [hx, if_true]
      trivial
    · simp only [hx, if_false]
      exact TickPhase.Ok.same ht hg hadds.content hclock rfl
  | @tickStart now => exact h.ticker_start (hreading now rfl)
  | @tickActive now snap hticker =>
    rw [hticker] at ht
    by_cases hflight : snap.inFlight m.state.mem.activeId
    · simp only [hflight, if_true]
      trivial
    · rw [Bool.not_eq_true] at hflight
      simp only [hflight, Bool.false_eq_true, if_false]
      exact TickPhase.Ok.same (h.ticker_sealed ht hflight) hg hadds.content hclock rfl
  | @tickAge now snap hticker =>
    rw [hticker] at ht
    by_cases hold : needsForceDrain cfg now m.state.mem.memtable
    · simp only [hold, if_true]
      trivial
    · simp only [hold, Bool.false_eq_true, if_false]
      -- the two phases know the same
      exact TickPhase.Ok.same (p := .sealed now snap) ht hg hadds.content hclock rfl
  | @tickTarget now snap target hticker htarget =>
    subst htarget
    rw [hticker] at ht
    by_cases hstart : targetHour cfg now m.state.mem.memtable.minEventTimestampMs ≤ snap.start
    · simp only [hstart, if_true]
      trivial
    · simp only [hstart, if_false]
      exact TickPhase.Ok.same (h.ticker_target hroll ht (not_le.1 hstart)) hg hadds.content hclock rfl
  | tickDrain =>
    by_cases hmsg : (forceDrain m.state).msg.isSome
    · simp only [hmsg, if_true]
      trivial
    · simp only [hmsg, Bool.false_eq_true, if_false]
      trivial
  | tickScan | tickCommit => exact ha.elim
  | _ => exact TickPhase.Ok.same ht hg hadds.content hclock rfl

/-! ### The end of a tick -/

/-- The rollups are written: they are those of the snapshot's rows from the watermark to the
target. -/
theorem Machine.Ok.ticker_scan (h : m.Ok X cfg) (hroll : Rolled X cfg clock m.state.disk)
    (ht : m.ticker.Ok X cfg m.state clock) {uuid : ℤ → ℕ → String}
    (hfresh : (Action.tickScan uuid).Fresh m) (hstep : m.Next X cfg (.tickScan uuid) m') :
    Rolled X cfg clock m'.state.disk ∧ m'.ticker.Ok X cfg m'.state clock ∧ m'.flusher = m.flusher := by
  cases hstep
  rename_i snap t _ hticker hsegs
  subst hsegs
  rw [hticker] at ht
  obtain ⟨htarget, hbeyond⟩ := ht
  obtain ⟨hsegs, hwm, -⟩ := Manifest.rolled_eq_iff.1 hbeyond.rolled
  have hok := hbeyond.segmentsOk h.disk
  have hbelow : ∀ seg ∈ snap.rollupSegments, seg.minTimestampMs < snap.watermark := by
    rw [← hsegs, ← hwm]
    exact hroll.ok.below
  have hscan := scanOf_newRollups (hwm ▸ hroll.ok.aligned) htarget.aligned hok hbelow hfresh.2
  generalize newRollups X m.state.disk snap uuid snap.start t = segs at hscan
  obtain ⟨r, hr, hother, hnew⟩ := rollupEffects_applyAll m.state.disk segs
  have hkept : ∀ seg ∈ m.state.disk.loadManifest.rollupSegments, r seg.segmentId =
      m.state.disk.rseg seg.segmentId := by
    intro seg hseg
    refine hother _ fun hid => hroll.files seg hseg ?_
    obtain ⟨new, hmem, hid⟩ := mem_map.1 hid
    obtain ⟨hour, b, hname⟩ := hscan.names new hmem
    rw [← hid, hname]
    exact hfresh.1 hour b
  have hdisk : (m.after ⟨rollupEffects segs, m.state.mem⟩).state.disk =
    { m.state.disk with rseg := r } := hr
  refine ⟨?_, ⟨snap, htarget, ?_, ?_, ?_, hscan.below⟩, rfl⟩
  · rw [hdisk]
    refine ⟨hroll.ok.keep 0 rfl rfl (.inr rfl) hkept (Multiset.add_zero _).symm
      (fun e he => by simp at he) fun e he => .inl he, fun seg hseg => ?_, hroll.time⟩
    exact (hkept seg hseg).trans_ne (hroll.files seg hseg)
  · rw [hdisk]
    exact ⟨hbeyond.raw, hbeyond.rolled, hbeyond.rest⟩
  · rw [hdisk]
    exact hscan.sources
  · rw [hdisk]
    exact hnew hscan.nodup

/-- The rollups are committed, and the watermark moves to the target. -/
theorem Machine.Ok.ticker_commit (h : m.Ok X cfg) (hroll : Rolled X cfg clock m.state.disk)
    (ht : m.ticker.Ok X cfg m.state clock) (hstep : m.Next X cfg .tickCommit m') :
    Rolled X cfg clock m'.state.disk ∧ m'.ticker.Ok X cfg m'.state clock ∧ m'.flusher = m.flusher := by
  cases hstep
  rename_i segs t _ hticker hmanifest
  subst hmanifest
  rw [hticker] at ht
  obtain ⟨snap, htarget, hbeyond, ⟨srcs, hof, hperm⟩, hfiles, hbelow⟩ := ht
  obtain ⟨habove, hrows⟩ := hbeyond.below
  obtain ⟨-, hwm, hbuckets⟩ := Manifest.rolled_eq_iff.1 hbeyond.rolled
  have hcommit := hroll.ok.commit hfiles (hbuckets ▸ hof)
    (hwm ▸ hperm.trans (List.Perm.of_eq hrows.symm)) htarget.aligned
    (hwm ▸ htarget.above) hbelow habove
  rw [h.loadManifest] at hcommit
  refine ⟨⟨hcommit, fun seg hseg => ?_, htarget.time⟩, trivial, rfl⟩
  have hsplit : seg ∈ m.state.mem.manifest.rollupSegments ++ segs.map (·.1) := hseg
  rcases mem_append.1 hsplit with hold | hnew
  · exact hroll.files seg (h.loadManifest ▸ hold)
  · obtain ⟨new, hmem, rfl⟩ := mem_map.1 hnew
    exact (hfiles new hmem).trans_ne (Option.some_ne_none _)

end Ticker

/-! ### Every run -/

/-- What a running server knows of its tick. -/
def Server.TickerOk (X : Extern) (cfg : Config) (clock : ℤ) : Server → Prop
  | .up m => m.ticker.Ok X cfg m.state clock ∧ m.flusher.OnSegments
  | .down _ _ => True

/-- What holds in every state. -/
structure Watched.Ok (X : Extern) (cfg : Config) (o : Watched) : Prop where
  /-- The server is in order. -/
  server : o.server.Ok X cfg
  /-- The disk holds what has been accepted. -/
  book : o.server.disk.content = o.book
  /-- The rollups are there. -/
  rolled : Rolled X cfg o.clock o.server.disk
  /-- The tick knows what it should. -/
  ticker : o.server.TickerOk X cfg o.clock

theorem Server.accepts_positive {s : Server} {l : Event} (he : e ∈ s.accepts X l) :
    0 < (e.timestampMs : ℤ) := by
  cases s with
  | down d acked => cases he
  | up m =>
    cases l with
    | act a =>
      cases a with
      | ingest at_ clk events => exact UsageDb.accepts_positive (.ingest clk events) he
      | _ => cases he
    | _ => cases he

theorem Rolled.later {clock' : ℤ} (h : Rolled X cfg clock d) (hclock : clock ≤ clock') :
    Rolled X cfg clock' d :=
  ⟨h.ok, h.files, h.time.trans (max_le_max le_rfl (Int.sub_le_sub_right hclock _))⟩

theorem Rolled.grows {d' : Disk} {new : List UsageEvent} (h : Rolled X cfg clock d) (hg : d.Grows d')
    (hcontent : d'.content = d.content + ↑new)
    (hnew : ∀ e ∈ new, max 0 (clock - cfg.rollupSafetyLagMs) ≤ e.timestampMs) :
      Rolled X cfg clock d' := by
  obtain ⟨hsegs, hwm, -⟩ := Manifest.rolled_eq_iff.1 hg.rolled
  refine ⟨h.ok.grows hg hcontent
    fun e he => h.time.trans (hnew e (Multiset.mem_coe.1 he)), fun seg hseg => ?_,
    hwm.trans_le h.time⟩
  rw [hg.rseg]
  exact h.files seg (hsegs ▸ hseg)

/-- A start. -/
theorem Rolled.restart (h : Rolled X cfg clock d) (hd : DiskOk X cfg d) (now : ℤ) (clk : ℕ → ℤ) :
    Rolled X cfg clock (d.applyAll (restart X cfg now clk d).effects) := by
  have hframes :=
    frames_restart X cfg
      (f := fun m => (m.rollupSegments, m.hourlyRollupMs)) (fun _ _ => rfl) now clk d
  obtain ⟨hman, hrseg⟩ := (frames_take hframes.2).all
  simp only [Prod.mk.injEq] at hman
  refine ⟨h.ok.restart hd.holds trivial now clk, fun seg hseg => ?_, hman.2.trans_le h.time⟩
  have hfile := h.files seg (hman.1 ▸ hseg)
  rw [← hrseg] at hfile
  exact hfile

/-- **Every step keeps it**, if no request drains events below the target of a tick that has
looked at the log and not at the memtable. -/
theorem Watched.Ok.step {a b : Watched} {l : Event} (h : a.Ok X cfg) (hstep : TimelyStep X cfg a l b)
    (hspares : a.server.SparesTick X cfg l) : b.Ok X cfg := by
  have hserver := h.server.step hstep.step hstep.order
  have hmono : a.clock ≤ b.clock := hstep.clock ▸ le_max_left ..
  have hrolled := h.rolled.later hmono
  have hnew : ∀ e ∈ a.server.accepts X l, max 0 (b.clock - cfg.rollupSafetyLagMs) ≤ e.timestampMs :=
    fun e he => max_le (Server.accepts_positive he).le (hstep.timely e he)
  have hreading : ∀ t ∈ l.reading, t ≤ b.clock := by
    intro t ht
    rw [hstep.clock, Option.mem_def.1 ht]
    exact le_max_right ..
  obtain ⟨a, clock, book⟩ := a
  obtain ⟨b, clock', book'⟩ := b
  obtain ⟨hserverStep, horder, hclock, -, hbook'⟩ := hstep
  obtain ⟨hok, hbook, -, hticker⟩ := h
  dsimp only at *
  cases hserverStep with
  | @act m m' act hfresh hnext =>
    have hm : m.Ok X cfg := hok
    have hadds := hm.next hfresh horder hnext
    have hcontent : m'.state.disk.content = book' := by
      rw [hadds.content, hbook']
      exact congrArg (· + _) hbook
    obtain ⟨htick, hflush⟩ := hticker
    by_cases hplain : act.Plain
    · obtain ⟨hg, hflush'⟩ := hm.grows hflush hplain hnext
      exact ⟨hserver, hcontent, hrolled.grows hg hadds.content hnew,
        hm.ticker_next hrolled.ok htick hplain hnext hg hadds hspares hmono hreading hnew, hflush'⟩
    · cases act with
      | tickScan uuid =>
        obtain rfl : clock' = clock := hclock.trans (max_self _)
        obtain ⟨hrolled', htick', hsame⟩ :=
          hm.ticker_scan hrolled htick hfresh (Machine.next_cases hnext)
        exact ⟨hserver, hcontent, hrolled', htick', hsame ▸ hflush⟩
      | tickCommit =>
        obtain rfl : clock' = clock := hclock.trans (max_self _)
        obtain ⟨hrolled', htick', hsame⟩ := hm.ticker_commit hrolled htick (Machine.next_cases hnext)
        exact ⟨hserver, hcontent, hrolled', htick', hsame ▸ hflush⟩
      | _ => exact (hplain trivial).elim
  | @crash m =>
    refine ⟨hserver, ?_, hrolled, trivial⟩
    rw [hbook']
    exact hbook.trans (Multiset.add_zero _).symm
  | @start d acked now clk =>
    have hd : DiskOk X cfg d := hok.1
    obtain ⟨hpre, -⟩ := restart_ok hd.holds now clk
    have hend : HoldsExactly X cfg d.content (d.applyAll (restart X cfg now clk d).effects) := hpre.all
    refine ⟨hserver, ?_, hrolled.restart hd now clk, trivial, trivial⟩
    rw [hbook']
    exact (hend.2 trivial).trans (hbook.trans (Multiset.add_zero _).symm)

/-- The promise of the watermark, record by record. -/
theorem RollupOk.rolledUpOnce (h : RollupOk X d) : d.RolledUpOnce X d.content := by
  obtain ⟨srcs, hof, hperm⟩ := h.sources
  have hgroups :
      ∃ groups, List.Forall₂ (RecordOf X) ((d.rollups X d.loadManifest).flatMap (·.2)) groups ∧
      groups.flatten.Perm srcs.flatten := by
    clear hperm
    generalize d.rollups X d.loadManifest = segs at hof
    induction hof with
    | nil => exact ⟨[], .nil, .nil⟩
    | @cons seg src segs srcs hseg _ ih =>
      obtain ⟨groups, hgroups, hflat⟩ := ih
      obtain ⟨groups₀, hgroups₀, hflat₀⟩ := exists_groups_buildRecords X src
      refine ⟨groups₀ ++ groups, ?_, ?_⟩
      · rw [flatMap_cons, hseg.records]
        exact rel_append hgroups₀ hgroups
      · rw [flatten_append, flatten_cons]
        exact hflat₀.append hflat
  obtain ⟨groups, hgroups, hflat⟩ := hgroups
  refine ⟨groups, hgroups, ?_⟩
  rw [filter_content h.above]
  exact Multiset.coe_eq_coe.2 (hflat.trans hperm)

/-- **Accepted events below the watermark are rolled up once.** In every run from an empty disk
with a clock that does not go back, in which accepted events are not older than the safety lag
and batches are sent in order: if no request drains events below the target of a tick that has
looked at the log and not at the memtable, the rollup records are made of groups of events that
together are the accepted events below the watermark, in every state, hence after every commit
of a tick. -/
theorem rolled_up_once {ls : List Event} {o : Watched}
    (hrun : Run (fun a l b => TimelyStep X cfg a l b ∧ a.server.SparesTick X cfg l)
      ⟨.down .empty [], clock, 0⟩ ls o) :
    o.server.disk.RolledUpOnce X o.book := by
  have hempty : Watched.Ok X cfg ⟨.down .empty [], clock, 0⟩ := by
    have h : SysOk X cfg DistinctIds 0 (.down .empty) := sysOk_empty
    exact ⟨⟨h.1,
      fun e he => by cases he⟩, rfl, ⟨rollupOk_empty, fun seg hseg =>
        (by cases hseg), le_max_left _ _⟩, trivial⟩
  have h : o.Ok X cfg := Run.invariant (I := Watched.Ok X cfg)
    (fun _ _ _ hs hst => hs.step hst.1 hst.2) hrun hempty
  rw [← h.book]
  exact h.rolled.ok.rolledUpOnce

/-! ### A run that keeps to it, and one that does not -/

/-- The clock of the machine does not go back, and the events of a request are not too old. -/
def Action.Timely (X : Extern) (cfg : Config) (m : Machine) (a : Action) : Prop :=
  (∀ t ∈ (Event.act a).reading, m.clock ≤ t) ∧
    ∀ e ∈ a.accepts X m, (Event.act a).reading.getD m.clock - cfg.rollupSafetyLagMs ≤ e.timestampMs

instance (m : Machine) (a : Action) : Decidable (a.Timely X cfg m) :=
  inferInstanceAs (Decidable (_ ∧ _))

theorem Machine.clock_next (h : m.next X cfg a = some m') :
    m'.clock = (Event.act a).reading.getD m.clock := by
  cases Machine.next_cases h <;> rfl

/-- A step of the machine, its clock and its book. -/
theorem timelyStep_act (hfresh : a.Fresh m) (horder : a.SendsInOrder m)
    (htimely : a.Timely X cfg m) (hnext : m.next X cfg a = some m') (hm : m.Ok X cfg) :
    TimelyStep X cfg ⟨.up m, m.clock, m.state.disk.content⟩ (.act a) ⟨.up m', m'.clock,
      m'.state.disk.content⟩ := by
  have hclock := Machine.clock_next hnext
  refine ⟨.act hfresh hnext, horder, ?_, ?_, (hm.next hfresh horder hnext).content⟩
  · rw [hclock, eq_comm, max_eq_right_iff]
    cases hread : (Event.act a).reading with
    | none => exact le_rfl
    | some t => exact htimely.1 t hread
  · rw [hclock]
    exact htimely.2

/-- What `runAll` computes, for steps that leave the rollups alone. -/
theorem watched_runAll {ok : Machine → Action → Bool} {P : Server → Event → Prop} {as : List Action}
    (hok : ∀ a ∈ as, a.Plain ∧ ∀ m, ok m a → a.Fresh m ∧ a.SendsInOrder m ∧ a.Timely X cfg m ∧
      P (.up m) (.act a)) (hm : m.Ok X cfg) (hf : m.flusher.OnSegments) (h :
        m.runAll X cfg ok as = some m') :
    Run (fun a l b => TimelyStep X cfg a l b ∧ P a.server l) ⟨.up m, m.clock,
      m.state.disk.content⟩ (as.map .act)
        ⟨.up m', m'.clock, m'.state.disk.content⟩ ∧
      m'.Ok X cfg ∧ m'.state.disk.rseg = m.state.disk.rseg := by
  induction as generalizing m with
  | nil =>
    cases h
    exact ⟨.nil _, hm, rfl⟩
  | cons a as ih =>
    rw [Machine.runAll] at h
    split at h
    · rename_i hcheck
      obtain ⟨m₁, hnext, hrest⟩ := Option.bind_eq_some_iff.1 h
      obtain ⟨hplain, hchecked⟩ := hok a (by simp)
      obtain ⟨hfresh, horder, htimely, hP⟩ := hchecked m hcheck
      obtain ⟨hg, hf₁⟩ := hm.grows hf hplain hnext
      obtain ⟨hrun, hm', hrseg⟩ :=
        ih (fun a' ha' => hok a' (by simp [ha'])) (hm.next hfresh horder hnext).ok hf₁ hrest
      exact ⟨Run.append (.single ⟨timelyStep_act hfresh horder htimely hnext hm, hP⟩) hrun, hm',
        hrseg.trans hg.rseg⟩
    · cases h

/-- A check for concrete runs: `checkOrder`, and the clock and the events are as they should be. -/
def checkTimely (m : Machine) (a : Action) : Bool :=
  checkOrder m a && decide (a.Timely .sample smallConfig m)

/-- The same, and no tick is between its looks at the log and at the memtable at a request. -/
def checkSpares (m : Machine) (a : Action) : Bool :=
  checkTimely m a && match a with
    | .ingest .. => (m.ticker.pending smallConfig).isNone
    | _ => true

theorem checkTimely_ok (hdraw : a.DrawsSample) (h : checkTimely m a) :
    a.Fresh m ∧ a.SendsInOrder m ∧ a.Timely .sample smallConfig m := by
  unfold checkTimely at h
  obtain ⟨horder, htimely⟩ := (Bool.and_eq_true _ _).mp h
  obtain ⟨hfresh, hsend⟩ := checkOrder_ok hdraw horder
  exact ⟨hfresh, hsend, of_decide_eq_true htimely⟩

theorem checkSpares_ok (hdraw : a.DrawsSample) (h : checkSpares m a) :
    (a.Fresh m ∧ a.SendsInOrder m ∧ a.Timely .sample smallConfig m) ∧
      (Server.up m).SparesTick .sample smallConfig (.act a) := by
  unfold checkSpares at h
  obtain ⟨htimely, hspares⟩ := (Bool.and_eq_true _ _).mp h
  refine ⟨checkTimely_ok hdraw htimely, ?_⟩
  cases a with
  | ingest at_ clk events =>
    intro target htarget
    rw [Option.isNone_iff_eq_none.1 hspares] at htarget
    cases htarget
  | _ => trivial

/-- A request at a time of the clock. -/
def ingestAt (t : ℤ) (events : List UsageEvent) : Action :=
  .ingest t ⟨SInt.wrap 63 t, fun _ => t, fun _ => t, fun _ => t⟩ events

/-- Two events of one hour are drained and flushed, and a tick looks at the log and the memtable. -/
def flushThenTick : List Action :=
  [ingestAt 10800000 [sampleEvent "a" "acme" 10799000 5, sampleEvent "b" "acme" 10799500 2],
    .send 0, .respond 0] ++ flushAll ++ [.tickStart 10860000, .tickActive, .tickAge, .tickTarget]

/-- Between the two looks of a tick, a request drains an event of an hour before the target. -/
def drainDuringTick : List Action :=
  [ingestAt 10800000 [sampleEvent "a" "acme" 10799000 5], .respond 0, .tickStart 10860000,
    .tickActive, .tickAge, ingestAt 10860000 [sampleEvent "b" "acme" 10860000 2], .tickTarget]

/-- The end of a tick. -/
def endTick : List Action := [.tickScan (taggedHourUuid 'r'), .tickCommit]

/-- A run from an empty disk that ends with the commit of a tick. -/
theorem exists_run_endTick {β : Type} (ok : Machine → Action → Bool) (P : Server → Event → Prop)
    (as : List Action)
    (view : Machine → β) (v : β) (hP : ∀ s l, (∀ t clk events, l ≠ .act (.ingest t clk events)) → P s l)
    (hok : ∀ a ∈ as, a.Plain ∧ ∀ m, ok m a →
      a.Fresh m ∧ a.SendsInOrder m ∧ a.Timely .sample smallConfig m ∧ P (.up m) (.act a))
    (heval : ((newServer.runAll .sample smallConfig ok as).bind fun m =>
      (m.next .sample smallConfig (.tickScan (taggedHourUuid 'r'))).bind fun m =>
        (m.next .sample smallConfig .tickCommit).map view) = some v) :
    ∃ m : Machine, Run (fun a l b => TimelyStep .sample smallConfig a l b ∧ P a.server l)
        ⟨.down .empty [], 8000000, 0⟩ (.start 8000000 (fun _ => 8000000) :: (as ++ endTick).map .act)
        ⟨.up m, m.clock, m.state.disk.content⟩ ∧ view m = v := by
  obtain ⟨m₁, hall, heval⟩ := Option.bind_eq_some_iff.1 heval
  obtain ⟨m₂, hscan, heval⟩ := Option.bind_eq_some_iff.1 heval
  obtain ⟨m, hcommit, hview⟩ := Option.map_eq_some_iff.1 heval
  have hdown : Server.Ok .sample smallConfig (.down .empty []) := by
    have h : SysOk .sample smallConfig DistinctIds 0 (.down .empty) := sysOk_empty
    exact ⟨h.1, fun e he => by cases he⟩
  have hstart : Server.Step .sample smallConfig (.down .empty [])
      (.start 8000000 fun _ => 8000000) (.up newServer) :=
    .start 8000000 fun _ => 8000000
  have hnew : newServer.Ok .sample smallConfig := hdown.step hstart trivial
  have hempty : newServer.state.disk.content = 0 := by decide +kernel
  have hstep : TimelyStep .sample smallConfig ⟨.down .empty [], 8000000,
      0⟩ (.start 8000000 fun _ => 8000000)
      ⟨.up newServer, newServer.clock, newServer.state.disk.content⟩ :=
    ⟨hstart, trivial, rfl, fun e he => (by cases he), hempty⟩
  obtain ⟨hrun, hm₁, hrseg⟩ := watched_runAll hok hnew trivial hall
  have hfresh : (Action.tickScan (taggedHourUuid 'r')).Fresh m₁ :=
    ⟨fun h b => congrFun hrseg _, taggedHourUuid_injective 'r'⟩
  have hm₂ := (hm₁.next hfresh trivial hscan).ok
  have hread : ∀ {m : Machine} {a : Action}, a ∈ endTick → a.Timely .sample smallConfig m := by
    intro m a ha
    simp only [endTick, mem_cons, not_mem_nil, or_false] at ha
    rcases ha with rfl | rfl <;> exact ⟨fun t ht => (by cases ht), fun e he => by cases he⟩
  have hlast := ((Run.append (.single ⟨hstep, hP _ _ fun _ _ _ h => by cases h⟩) hrun).snoc
    ⟨timelyStep_act hfresh trivial (hread (by simp [endTick])) hscan hm₁,
      hP _ _ fun _ _ _ h => by cases h⟩).snoc
    ⟨timelyStep_act (a := .tickCommit) trivial trivial (hread (by simp [endTick])) hcommit hm₂,
      hP _ _ fun _ _ _ h => by cases h⟩
  refine ⟨m, ?_, hview⟩
  simpa [endTick] using hlast

/-- Without rollups, no event below the watermark is rolled up. -/
theorem not_rolledUpOnce {book : Multiset UsageEvent} (he : e ∈ book)
    (hlt : e.timestampMs < d.loadManifest.hourlyRollupMs) (hnone : d.rollups X d.loadManifest = []) :
    ¬ d.RolledUpOnce X book := by
  rintro ⟨groups, hgroups, hflat⟩
  rw [hnone] at hgroups
  cases hgroups
  have hmem : e ∈ book.filter fun e => e.timestampMs < d.loadManifest.hourlyRollupMs :=
    Multiset.mem_filter.2 ⟨he, hlt⟩
  rw [← hflat] at hmem
  simp at hmem

/-- The tick that comes after the flush rolls both events up. -/
theorem rolled_up_once_of_flush :
    ∃ o,
      Run (fun a l b => TimelyStep .sample smallConfig a l b ∧
        a.server.SparesTick .sample smallConfig l)
        ⟨.down .empty [], 8000000,
          0⟩ (.start 8000000 (fun _ => 8000000) :: (flushThenTick ++ endTick).map .act) o ∧
      o.server.disk.loadManifest.hourlyRollupMs = 10800000 ∧
      o.book.map (fun e => (e.eventId, (e.timestampMs : ℤ))) = {("a", 10799000), ("b", 10799500)} ∧
      o.server.disk.RolledUpOnce .sample o.book := by
  have hdraws : ∀ a ∈ flushThenTick, a.DrawsSample := by
    simp [flushThenTick, flushAll, ingestAt, Action.DrawsSample]
  have hplain : ∀ a ∈ flushThenTick, a.Plain := by
    simp [flushThenTick, flushAll, ingestAt, Action.Plain]
  obtain ⟨m, hrun, hview⟩ :=
    exists_run_endTick checkSpares (Server.SparesTick .sample smallConfig) flushThenTick
    (fun m => (m.state.disk.loadManifest.hourlyRollupMs,
      m.state.disk.content.map fun e => (e.eventId, (e.timestampMs : ℤ))))
    (10800000, {("a", 10799000), ("b", 10799500)})
    (fun s l hne => by
      cases s with
      | down d acked => trivial
      | up m =>
        cases l with
        | act a =>
          cases a with
          | ingest t clk events => exact absurd rfl (hne t clk events)
          | _ => trivial
        | _ => trivial)
    (fun a ha => ⟨hplain a ha, fun m hcheck => by
      obtain ⟨⟨h1, h2, h3⟩, h4⟩ := checkSpares_ok (hdraws a ha) hcheck
      exact ⟨h1, h2, h3, h4⟩⟩) (by decide +kernel)
  exact ⟨_, hrun, congrArg Prod.fst hview, congrArg Prod.snd hview, rolled_up_once hrun⟩

/-- **Events drained between the two looks of a tick are passed by.** A tick has read the
manifest and seen that no batch is in flight; then a request drains the memtable with an event of
the hour before. The tick finds the memtable empty and moves the watermark past the event, which
is in no rollup record. -/
theorem drained_event_not_rolled_up :
    ∃ o e, Run (TimelyStep .sample smallConfig) ⟨.down .empty [], 8000000, 0⟩
        (.start 8000000 (fun _ => 8000000) :: (drainDuringTick ++ endTick).map .act) o ∧
      e ∈ o.book ∧ (e.timestampMs : ℤ) < o.server.disk.loadManifest.hourlyRollupMs ∧
      o.server.disk.rollups .sample o.server.disk.loadManifest = [] ∧
      ¬ o.server.disk.RolledUpOnce .sample o.book := by
  have hdraws : ∀ a ∈ drainDuringTick, a.DrawsSample := by
    simp [drainDuringTick, ingestAt, Action.DrawsSample]
  have hplain : ∀ a ∈ drainDuringTick, a.Plain := by
    simp [drainDuringTick, ingestAt, Action.Plain]
  obtain ⟨m, hrun, hview⟩ := exists_run_endTick checkTimely (fun _ _ => True) drainDuringTick
    (fun m => (m.state.disk.loadManifest.rollupSegments.isEmpty,
      m.state.disk.loadManifest.hourlyRollupMs,
      m.state.disk.content.map fun e => (e.timestampMs : ℤ)))
    (true, 10800000, {10799000, 10860000}) (fun _ _ _ => trivial)
    (fun a ha => ⟨hplain a ha, fun m hcheck => by
      obtain ⟨h1, h2, h3⟩ := checkTimely_ok (hdraws a ha) hcheck
      exact ⟨h1, h2, h3, trivial⟩⟩) (by decide +kernel)
  simp only [Prod.mk.injEq, List.isEmpty_iff] at hview
  obtain ⟨hnone, hwm, hbook⟩ := hview
  obtain ⟨e, he, hts⟩ : ∃ e ∈ m.state.disk.content, (e.timestampMs : ℤ) = 10799000 := by
    rw [← Multiset.mem_map, hbook]
    decide
  have hlt : e.timestampMs < m.state.disk.loadManifest.hourlyRollupMs := by
    rw [hts, hwm]
    decide
  have hrolls : m.state.disk.rollups .sample m.state.disk.loadManifest = [] := by
    rw [Disk.rollups, hnone, List.map_nil]
  exact ⟨_, e, hrun.mono fun _ _ _ h => h.1, he, hlt, hrolls, not_rolledUpOnce he hlt hrolls⟩

end UsageDb
