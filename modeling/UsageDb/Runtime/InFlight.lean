import UsageDb.Runtime.FailedFlush
import UsageDb.Runtime.Frame

/-!
# The guard against batches in flight

A rollup tick does nothing while a drained batch is not committed. It does not ask the
flusher: it compares the active log file with the seal, and takes a sealed file between them
for a batch on its way.

With no failure that is exact: the last message that waits was sealed with the file before
the active one, so once it is committed there is nothing between the two. `GuardOk` is this
relation. Two things break it. A flush that fails gives its events back to the memtable but
leaves its log file between the seal and the active file; with no message behind it, nothing
will move the seal before the next drain, and the drain of a stale memtable is itself behind
the guard. And a start that finds more than one log file above the seal makes the last of
them the active one, with no message to commit those before it.
-/

namespace UsageDb

open Lib List

variable {X : Extern} {cfg : Config} {s : State}

/-- The seal once all messages that wait have been committed. -/
def State.lastSeal (s : State) : ℕ :=
  (s.mem.queue.getLast?.map (·.sealedWalId)).getD s.mem.manifest.lastSealedWalId

/-- Committing the messages that wait leaves no log file between the seal and the active file. -/
structure GuardOk (X : Extern) (s : State) : Prop where
  /-- The last message was sealed with the file before the active one. -/
  active : s.mem.activeId ≤ s.lastSeal + 1
  /-- A message has events; one without would be dropped and not move the seal. -/
  messages : ∀ msg ∈ s.mem.queue, msg.events ≠ []
  /-- A memtable that is drained for its size has events. -/
  sized : s.mem.memtable.Sized X

/-! ### The operations -/

/-- An operation that leaves the log and the seal alone. -/
theorem GuardOk.congr {o : Outcome} (h : GuardOk X s) (hm : o.OnManifest s)
    (hseal : o.mem.manifest.lastSealedWalId = s.mem.manifest.lastSealedWalId) :
      GuardOk X (o.state s) := by
  have hmem : (o.state s).mem = { s.mem with manifest := o.mem.manifest } := hm
  refine ⟨?_, ?_, ?_⟩
  · have hlast : (o.state s).lastSeal = s.lastSeal := by
      rw [State.lastSeal, hmem, State.lastSeal, ← hseal]
    rw [hlast, hmem]
    exact h.active
  · rw [hmem]
    exact h.messages
  · rw [hmem]
    exact h.sized

/-- A drain seals the active file with the message it sends. -/
theorem GuardOk.drainIf (h : GuardOk X s) {cond : Bool} (hcond : cond → s.mem.memtable.events ≠ []) :
    GuardOk X ((s.mem.drainIf cond).sent.state s) := by
  rw [Mem.drainIf]
  split
  · rename_i hc
    refine ⟨?_, fun msg hmsg => ?_, Memtable.sized_new⟩
    · simp [State.lastSeal, Outcome.state, Drained.sent, Mem.drainAndRotate, Mem.send]
    · rcases mem_append.1 hmsg with hmsg | hmsg
      · exact h.messages msg hmsg
      · rw [mem_singleton.1 hmsg]
        exact hcond hc
  · exact h

theorem GuardOk.forceDrain (h : GuardOk X s) : GuardOk X ((forceDrainMemtable s).state s) :=
  h.drainIf fun hne => by simpa using hne

theorem GuardOk.ingest (h : GuardOk X s) (clk : IngestClock) (events : List UsageEvent) :
    GuardOk X ((handleIngest X cfg clk events s).1.state s) := by
  rw [handleIngest_eq, acceptAndDrain, Outcome.andThen_state]
  generalize classifyBatch s.mem.dedupe (classifiedEvents X s.mem.manifest.closedPeriods
    clk.now events) = b
  have haccept :
      GuardOk X ((⟨appendEffects s.mem.activeId (b.newEvents.map (·.event)),
        s.mem.accept X clk b.newEvents⟩ :
      Outcome).state s) := ⟨h.active, h.messages, h.sized.insertAll _ _⟩
  refine haccept.drainIf fun hsize hnil => ?_
  have hzero := haccept.sized
  rw [Memtable.Sized, hnil] at hzero
  have hlt := of_decide_eq_true hsize
  rw [hzero] at hlt
  exact absurd hlt (Nat.not_lt_zero _)

theorem lastSealedWalId_commitFlush (m : Manifest) (metas : List SegmentMeta) (sealedId : ℕ) :
    sealedId ≤ (m.commitFlush metas sealedId).saved.lastSealedWalId := by
  rw [Manifest.saved_lastSealedWalId, Manifest.commitFlush]
  dsimp only
  split
  · exact le_rfl
  · omega

/-- Committing the first message: it was the last one, or another is. -/
theorem GuardOk.flush (h : GuardOk X s) (uuid : ℕ → String) (clk : ℕ → ℤ) :
    GuardOk X ((flushNext X uuid clk s).state s) := by
  rcases flushNext_cases X uuid clk s with hskip | ⟨msg, rest, hq, ⟨hempty, -⟩ | ⟨segs, m,
    -, rfl, hflush⟩⟩
  · rw [hskip]
    exact h
  · exact absurd hempty (h.messages msg (hq ▸ mem_cons_self))
  · have hseal := h.active
    rw [State.lastSeal, hq] at hseal
    rw [hflush]
    refine ⟨?_, fun msg' hmsg' => h.messages msg' (hq ▸ mem_cons_of_mem _ hmsg'), h.sized⟩
    cases rest with
    | nil => exact hseal.trans (Nat.succ_le_succ (lastSealedWalId_commitFlush _ _ _))
    | cons msg' rest => exact hseal

theorem GuardOk.tick (h : GuardOk X s) (now : ℤ) (uuid : ℤ → ℕ → String) :
    GuardOk X ((tick X cfg now uuid true s).1.state s) :=
  tick_rule (R := fun o => GuardOk X (o.state s)) h h.forceDrain fun _ _ => h.congr rfl rfl

/-- **Every operation keeps the relation.** -/
theorem GuardOk.outcome (h : GuardOk X s) (op : Op) : GuardOk X ((op.outcome X cfg s).state s) := by
  cases op with
  | ingest clk events => exact h.ingest clk events
  | drain => exact h.forceDrain
  | flush uuid clk => exact h.flush uuid clk
  | rollupTick now uuid => exact h.tick now uuid
  | compactionTick now uuid =>
    exact h.congr (onManifest_compactionTick s now uuid)
      (frames_compactionTick (f := Manifest.lastSealedWalId)
        (fun _ _ => rfl) (fun _ _ _ _ => rfl) s now uuid).mem
  | closePeriod account year month now =>
    exact h.congr (onManifest_closePeriod s account year month now)
      (frames_closePeriod (f := Manifest.lastSealedWalId) (fun _ _ => rfl) s account year month now).mem
  | reopenPeriod account year month =>
    exact h.congr (onManifest_reopenPeriod s account year month)
      (frames_reopenPeriod (f := Manifest.lastSealedWalId)
        (fun _ _ _ _ => rfl) (fun _ _ _ _ => rfl) s account year month).mem

/-! ### Failures and starts -/

/-- A flush that fails while another message waits: that one was sealed after it. -/
theorem GuardOk.failedFlush (h : GuardOk X s) {f : FlushFault} {s' : State}
    (hfail : FailedFlush X s f s') (hwaits : 1 < s.mem.queue.length) : GuardOk X s' := by
  obtain ⟨msg, rest, hq, -, hun, rfl⟩ := hfail
  obtain ⟨b, rest', hcons⟩ := exists_cons_of_ne_nil hun
  rw [handleMessage_unwritten (s := ⟨s.disk, { s.mem with queue := rest }⟩) f.clk hcons]
  have hseal := h.active
  rw [State.lastSeal, hq] at hseal
  refine ⟨?_, fun msg' hmsg' => h.messages msg' (hq ▸ mem_cons_of_mem _ hmsg'), h.sized.insertAll _ _⟩
  cases rest with
  | nil => simp [hq] at hwaits
  | cons msg' rest => exact hseal

theorem openId_le {α : Type} {dir : WalDir α} {sealedId : ℕ} (h : ∀ id ∈ dir.ids, id ≤ sealedId + 1) :
    dir.openId sealedId ≤ sealedId + 1 := by
  have hfold : ∀ (l : List ℕ) (o : Option ℕ), (∀ id ∈ l, id ≤ sealedId + 1) →
      o.getD (sealedId + 1) ≤ sealedId + 1 →
      (l.foldl (fun h id => some (h.elim id (max id))) o).getD (sealedId + 1) ≤ sealedId + 1 := by
    intro l
    induction l with
    | nil => exact fun o _ ho => ho
    | cons id l ih =>
      intro o hl ho
      refine ih _ (fun i hi => hl i (mem_cons_of_mem _ hi)) ?_
      cases o with
      | none => exact hl id mem_cons_self
      | some n => exact max_le (hl id mem_cons_self) ho
  exact hfold _ none (fun id hid => h id (mem_of_mem_filter hid)) le_rfl

/-- Recovery makes no log file. -/
theorem ids_recoveryEffects {d : Disk} {id : ℕ}
    (h : id ∈ (d.applyAll (recoveryEffects d)).wal.ids) : id ∈ d.wal.ids := by
  have hdelete : ∀ x ∈ recoveryEffects d, ∃ i, x = .walDelete i := by
    intro x hx
    rw [recoveryEffects] at hx
    split at hx
    · obtain ⟨i, -, rfl⟩ := mem_map.1 hx
      exact ⟨i, rfl⟩
    · cases hx
  have hall :
      EveryPrefix Disk.apply (fun d' => ∀ i ∈ d'.wal.ids, i ∈ d.wal.ids) d (recoveryEffects d) := by
    refine EveryPrefix.of_forall (fun _ hi => hi) fun d' x hx hd' i hi => ?_
    obtain ⟨n, rfl⟩ := hdelete x hx
    exact hd' i ((filter_sublist.map _).subset hi)
  exact hall.all id h

/-- A start that finds no log file beyond the one after the seal. -/
theorem guardOk_restart {d : Disk}
    (hone : ∀ id ∈ d.wal.ids, id ≤ d.loadManifest.lastSealedWalId + 1) (now : ℤ)
    (clk : ℕ → ℤ) : GuardOk X ⟨d.applyAll (restart X cfg now clk d).effects,
      (restart X cfg now clk d).mem⟩ := by
  have hseal := (frames_restart X cfg (f := Manifest.lastSealedWalId) (fun _ _ => rfl) now clk d).1
  refine ⟨?_, fun msg hmsg => absurd hmsg not_mem_nil, Memtable.sized_new.insertAll _ _⟩
  show (d.applyAll (recoveryEffects d)).wal.openId
    (restart X cfg now clk d).mem.manifest.lastSealedWalId ≤
    (restart X cfg now clk d).mem.manifest.lastSealedWalId + 1
  refine openId_le fun id hid => ?_
  rw [hseal]
  exact hone id (ids_recoveryEffects hid)

/-! ### Runs -/

/-- A flush fails only while another message waits behind it, and the server starts only from a
disk whose log has no file beyond the one after the seal. -/
def FaultLabel.KeepsGuard (sys : Sys) : FaultLabel FlushFault → Prop
  | .fault _ => ∀ s, sys = .up s → 1 < s.mem.queue.length
  | .sound (.restart ..) => ∀ id ∈ sys.disk.wal.ids, id ≤ sys.disk.loadManifest.lastSealedWalId + 1
  | _ => True

/-- The relation holds while the server runs. -/
def Sys.GuardOk (X : Extern) : Sys → Prop
  | .up s => UsageDb.GuardOk X s
  | .down _ => True

theorem Sys.GuardOk.faultStep {a b : Sys × Multiset UsageEvent} {l : FaultLabel FlushFault}
    (h : a.1.GuardOk X)
    (hkeeps : l.KeepsGuard a.1) (hstep : FaultStep X cfg (FailedFlush X) a l b) : b.1.GuardOk X := by
  cases hstep with
  | sound hstep =>
    cases hstep with
    | run => exact UsageDb.GuardOk.outcome h _
    | cut => trivial
    | restart now clk => exact guardOk_restart hkeeps now clk
    | cutRestart => trivial
  | fault hfail => exact UsageDb.GuardOk.failedFlush h hfail (hkeeps _ rfl)

/-- **The guard is exact** in every run in which a flush fails only with another message behind
it, and the server starts only with at most the log file after the seal: when no message waits,
the active log file is not beyond that file, a tick is not skipped for a batch in flight, and a
memtable that is too old is drained. -/
theorem inFlight_guard_exact {ls : List (FaultLabel FlushFault)} {s : State} {c : Multiset UsageEvent}
    (hrun : Run (fun a l b => FaultStep X cfg (FailedFlush X) a l b ∧
      l.KeepsGuard a.1) (.down .empty, 0) ls (.up s, c))
    (hq : s.mem.queue = []) (now : ℤ) (uuid : ℤ → ℕ → String) (saveOk : Bool) :
    s.mem.activeId ≤ s.mem.manifest.lastSealedWalId + 1 ∧
      (∀ stats, (tick X cfg now uuid saveOk s).2 = some stats → stats.skippedForInFlight = false) ∧
      (needsForceDrain cfg now s.mem.memtable →
        (tick X cfg now uuid saveOk s).1 = forceDrainMemtable s) := by
  have h : Sys.GuardOk X (.up s) := hrun.invariant (I := fun a => a.1.GuardOk X)
    (fun a l b h hstep => h.faultStep hstep.2 hstep.1) trivial
  have hactive : s.mem.activeId ≤ s.mem.manifest.lastSealedWalId + 1 := by
    have hlast := h.active
    rwa [State.lastSeal, hq] at hlast
  have hguard : s.mem.manifest.tickSnapshot.inFlight s.mem.activeId = false :=
    decide_eq_false (Nat.not_lt.2 hactive)
  rw [tick]
  dsimp only
  rw [if_neg (by rw [hguard]; exact Bool.false_ne_true)]
  refine ⟨hactive, fun stats hstats => ?_, fun hstale => by rw [if_pos hstale]⟩
  split at hstats
  · rw [← Option.some.inj hstats]
  · split at hstats
    · rw [← Option.some.inj hstats]
    · split at hstats
      · rw [← Option.some.inj hstats]
      · cases hstats

/-! ### A failed flush that does no harm, and two ways to a guard that stays shut -/

/-- Two batches are drained. -/
def twoDrains : List (FaultLabel FlushFault) :=
  twoBuckets ++ [.sound (.run (.ingest sampleClock [sampleEvent "c" "acme" 7200000 1]))] ++
    [.sound (.run .drain)]

/-- The state then. -/
def twoDrained : State :=
  let accepted := (handleIngest .sample sampleConfig sampleClock [sampleEvent "c" "acme" 7200000 1]
    drainedState).1.state
    drainedState
  (forceDrainMemtable accepted).state accepted

theorem run_twoDrains :
    ∃ c, Run (fun a l b => FaultStep .sample sampleConfig (FailedFlush .sample) a l b ∧
    l.KeepsGuard a.1) (.down .empty, 0) twoDrains (.up twoDrained, c) := by
  have hstart : Run (fun a l b => FaultStep .sample sampleConfig (FailedFlush .sample) a l b ∧
      l.KeepsGuard a.1) (.down .empty, 0) [.sound (.restart 8000000 fun _ => 8000000)] _ :=
    .single ⟨.sound (.restart _ _), fun id hid => absurd hid not_mem_nil⟩
  have hingest :=
    hstart.snoc ⟨.sound (.run (show Op.Fresh _ (.ingest sampleClock twoEvents) from trivial)),
      trivial⟩
  have hdrain := hingest.snoc ⟨.sound (.run (show Op.Fresh _ .drain from trivial)), trivial⟩
  have hmore := hdrain.snoc ⟨.sound (.run (show Op.Fresh _
    (.ingest sampleClock [sampleEvent "c" "acme" 7200000 1]) from trivial)), trivial⟩
  exact ⟨_, hmore.snoc ⟨.sound (.run (show Op.Fresh _ .drain from trivial)), trivial⟩⟩

theorem unused_twoDrained (id : String) : twoDrained.Unused id :=
  ((unused_drainedState id).onLog (onLog_ingest _ _ _)).onLog (onLog_drainIf _ _)

/-- The flush of the first batch fails, that of the second does not; the server stops and starts
again. -/
theorem inFlight_guard_exact_of_two_messages :
    let ls := twoDrains ++ [.fault ⟨.failsAt 0, evenUuid, fun _ => 9000000⟩] ++
      [.sound (.run (.flush oddUuid fun _ => 9000000))] ++ [.sound (.cut .drain 0)] ++
      [.sound (.restart 9500000 fun _ => 9500000)]
    ∃ s c,
        Run (fun a l b => FaultStep .sample sampleConfig (FailedFlush .sample) a l b ∧
          l.KeepsGuard a.1)
        (.down .empty, 0) ls (.up s, c) ∧ s.mem.queue = [] ∧ s.mem.manifest.lastSealedWalId = 2 ∧
      s.mem.activeId ≤ s.mem.manifest.lastSealedWalId + 1 := by
  intro ls
  obtain ⟨c, hdrains⟩ := run_twoDrains
  have hq : twoDrained.mem.queue = [drainedMessage,
      ⟨[(sampleEvent "c" "acme" 7200000 1).stamp sampleClock.now], 2⟩] := by
    decide +kernel
  have hun : (FlushIo.failsAt 0).unwritten (byBucket .sample twoDrained.mem.manifest.buckets
      drainedMessage.events) ≠ [] := by decide +kernel
  have hwaits : ∀ s, Sys.up twoDrained = .up s → 1 < s.mem.queue.length := by
    intro s hs
    rw [← Sys.up.inj hs, hq]
    decide
  have hfail := hdrains.snoc ⟨.fault (f := ⟨.failsAt 0, evenUuid, fun _ => 9000000⟩)
    ⟨_, _, hq, ⟨fun n => unused_twoDrained _, evenUuid_injective⟩, hun, rfl⟩, hwaits⟩
  have hflush := hfail.snoc ⟨.sound (.run (show Op.Fresh _ (.flush oddUuid fun _ => 9000000) from
    ⟨fun n => unused_failedFlush (unused_twoDrained _) (oddUuid_ne_evenUuid n) _ _ hun,
      oddUuid_injective⟩)), trivial⟩
  have hstop := hflush.snoc ⟨.sound (.cut 0 (show Op.Fresh _ .drain from trivial)), trivial⟩
  have hagain := hstop.snoc ⟨.sound (.restart 9500000 fun _ => 9500000), by
    dsimp only [FaultLabel.KeepsGuard]
    decide +kernel⟩
  refine ⟨_, _, hagain, by decide +kernel, by decide +kernel, ?_⟩
  exact (inFlight_guard_exact hagain (by decide +kernel) 0 (fun _ _ => "") true).1

/-- **A flush that does not exist.** After the flush of the only message has failed, and after a
stop between a drain and its flush, no message waits and every tick is skipped for a batch in
flight, however old the memtable is. -/
theorem inFlight_guard_shut :
    (∃ s c, Run (FaultStep .sample sampleConfig (FailedFlush .sample)) (.down .empty, 0)
        (twoBuckets ++ [.fault ⟨.failsAt 0, evenUuid,
          fun _ => 9000000⟩]) (.up s, c) ∧ s.mem.queue = [] ∧
      s.mem.memtable.events ≠ [] ∧ ∀ now uuid, tick .sample sampleConfig now uuid true s =
        (.skip s, some ⟨0, s.mem.manifest.hourlyRollupMs, 0, false, true⟩)) ∧
    ∃ s c, Run (FaultStep .sample sampleConfig (FailedFlush .sample)) (.down .empty, 0)
        (twoBuckets ++ [.sound (.cut .drain 0)] ++
          [.sound (.restart 9500000 fun _ => 9500000)]) (.up s, c) ∧
      s.mem.queue = [] ∧ s.mem.memtable.events ≠ [] ∧
      ∀ now uuid, tick .sample sampleConfig now uuid true s =
        (.skip s, some ⟨0, s.mem.manifest.hourlyRollupMs, 0, false, true⟩) := by
  have hskip : ∀ s : State, s.mem.manifest.tickSnapshot.inFlight s.mem.activeId → ∀ now uuid,
      tick .sample sampleConfig now uuid true s = (.skip s, some ⟨0, s.mem.manifest.hourlyRollupMs,
          0, false, true⟩) := by
    intro s hflight now uuid
    rw [tick, if_pos hflight]
    rfl
  obtain ⟨c, hrun, rfl⟩ := run_twoBuckets (FailedFlush .sample)
  have hun : (FlushIo.failsAt 0).unwritten (byBucket .sample drainedState.mem.manifest.buckets
      drainedMessage.events) ≠ [] := by decide +kernel
  constructor
  · have hfail := hrun.snoc (.fault (f := ⟨.failsAt 0, evenUuid, fun _ => 9000000⟩)
      ⟨_, _, queue_drainedState, ⟨fun n => unused_drainedState _, evenUuid_injective⟩, hun, rfl⟩)
    exact ⟨_, _, hfail, by decide +kernel, by decide +kernel, hskip _ (by decide +kernel)⟩
  · have hstop := hrun.snoc (.sound (.cut 0 (show Op.Fresh _ .drain from trivial)))
    have hagain := hstop.snoc (.sound (.restart 9500000 fun _ => 9500000))
    exact ⟨_, _, hagain, by decide +kernel, by decide +kernel, hskip _ (by decide +kernel)⟩

end UsageDb
