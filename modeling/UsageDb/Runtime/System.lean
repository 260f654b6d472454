import UsageDb.Api.Period
import UsageDb.Compact.Worker
import UsageDb.Ingest.Flusher
import UsageDb.Rollup.Worker
import UsageDb.Runtime.Recovery
import UsageDb.Lib.Transition

/-!
# The system over time

The operations of the server run one after another (`Op`), each to its end or cut by a
crash after any of its durable steps; a database that is down is restarted, and the restart
can be cut too. `Step` is the relation, a run is `Lib.Run Step`.

No operation meets an I/O error here. New segment names are random in the source; a step
needs them to be new (`Op.Fresh`), everything else about an operation is its argument: the
readings of the clock and the names.
-/

namespace UsageDb

open Lib

variable {s : State} {o : Outcome} {id : String}

/-- The operations. -/
inductive Op where
  /-- A request with these events. -/
  | ingest (clk : IngestClock) (events : List UsageEvent)
  /-- `force_drain_memtable`. -/
  | drain
  /-- The flusher takes the next message. -/
  | flush (uuid : ℕ → String) (clk : ℕ → ℤ)
  /-- A tick of the rollup worker. -/
  | rollupTick (now : ℤ) (uuid : ℤ → ℕ → String)
  /-- A tick of the compaction worker. -/
  | compactionTick (now : ℤ) (uuid : ℕ → String)
  /-- A request to close a period. -/
  | closePeriod (account : String) (year month : ℕ) (now : ℤ)
  /-- A request to reopen a period. -/
  | reopenPeriod (account : String) (year month : ℕ)

/-- The segments a manifest mentions: those it lists, and those of its replacements. -/
def Manifest.mentions (m : Manifest) (id : String) : Prop :=
  id ∈ m.rawIds ∨ (∃ s ∈ m.rollupSegments, s.segmentId = id) ∨
    ∃ r ∈ m.compactedReplacements, id ∈ r.oldSegments

/-- The names a flush draws for its buckets are new to the manifest, and different. -/
structure NewNames (m : Manifest) (uuid : ℕ → String) : Prop where
  /-- No such segment is listed. -/
  unlisted : ∀ b, rawSegmentId (uuid b) ∉ m.rawIds
  /-- None has been replaced. -/
  unreplaced : ∀ b, ∀ r ∈ m.compactedReplacements, rawSegmentId (uuid b) ∉ r.oldSegments
  /-- Different buckets have different names. -/
  injective : Function.Injective uuid

/-- A segment name that nothing has yet. -/
structure State.Unused (s : State) (id : String) : Prop where
  /-- No raw segment. -/
  seg : s.disk.seg id = none
  /-- No sidecar. -/
  idx : s.disk.idx id = none
  /-- No rollup segment. -/
  rseg : s.disk.rseg id = none
  /-- The manifest does not know it. -/
  manifest : ¬ s.mem.manifest.mentions id

/-- The names an operation draws are new and different. -/
def Op.Fresh (s : State) : Op → Prop
  | .flush uuid _ => (∀ b, s.Unused (rawSegmentId (uuid b))) ∧ Function.Injective uuid
  | .compactionTick _ uuid => (∀ b, s.Unused (compactedSegmentId (uuid b))) ∧ Function.Injective uuid
  | .rollupTick _ uuid => (∀ h b, s.Unused (rollupSegmentId (uuid h b))) ∧
      ∀ h b h' b', uuid h b = uuid h' b' → h = h' ∧ b = b'
  | _ => True

theorem newNames_of_unused {uuid : ℕ → String} (h : ∀ b, s.Unused (rawSegmentId (uuid b)))
    (huuid : Function.Injective uuid) : NewNames s.mem.manifest uuid :=
  ⟨fun b hb => (h b).manifest (.inl hb), fun b r hr hid =>
    (h b).manifest (.inr (.inr ⟨r, hr, hid⟩)), huuid⟩

/-- A step on the log. -/
def Effect.OnLog : Effect → Prop
  | .walAppend .. | .walCreate .. | .walDelete .. => True
  | _ => False

/-- Steps on the log leave all other files alone. -/
theorem Disk.applyAll_onLog {es : List Effect} (hes : ∀ x ∈ es, x.OnLog) (d : Disk) :
    (d.applyAll es).seg = d.seg ∧ (d.applyAll es).idx = d.idx ∧ (d.applyAll es).rseg = d.rseg := by
  induction es generalizing d with
  | nil => exact ⟨rfl, rfl, rfl⟩
  | cons x es ih =>
    have hx := hes x (by simp)
    have ih := ih (fun y hy => hes y (by simp [hy])) (d.apply x)
    cases x with
    | walAppend | walCreate | walDelete => exact ih
    | _ => cases hx

/-- An operation that only works on the log. -/
structure Outcome.OnLog (o : Outcome) (s : State) : Prop where
  /-- The manifest stays. -/
  manifest : o.mem.manifest = s.mem.manifest
  /-- So do all other files. -/
  effects : ∀ x ∈ o.effects, x.OnLog

theorem Outcome.OnLog.andThen {next : State → Outcome} (h : o.OnLog s)
    (hnext : (next (o.state s)).OnLog (o.state s)) : (o.andThen s next).OnLog s := by
  refine ⟨hnext.manifest.trans h.manifest, fun x hx => ?_⟩
  rcases List.mem_append.1 hx with hx | hx
  · exact h.effects x hx
  · exact hnext.effects x hx

/-- All that an operation changes in memory is the manifest. -/
def Outcome.OnManifest (o : Outcome) (s : State) : Prop :=
  o.mem = { s.mem with manifest := o.mem.manifest }

theorem Outcome.OnManifest.andThen {next : State → Outcome} (h : o.OnManifest s)
    (hnext : (next (o.state s)).OnManifest (o.state s)) : (o.andThen s next).OnManifest s := by
  refine Eq.trans hnext ?_
  have hmem : (o.state s).mem = { s.mem with manifest := o.mem.manifest } := h
  rw [hmem]
  rfl

/-- A step that leaves the files of the segment `id` alone. -/
def Effect.Avoids (id : String) : Effect → Prop
  | .segWrite i _ | .segRemove i | .idxWrite i _ | .rsegWrite i _ | .rsegRemove i => i ≠ id
  | _ => True

theorem Effect.OnLog.avoids {x : Effect} (h : x.OnLog) (id : String) : x.Avoids id := by
  cases x with
  | walAppend | walCreate | walDelete => trivial
  | _ => cases h

/-- The files of a segment are as they were when every step leaves them alone. -/
theorem Disk.applyAll_avoids {es : List Effect} (hes : ∀ x ∈ es, x.Avoids id) (d : Disk) :
    (d.applyAll es).seg id = d.seg id ∧ (d.applyAll es).idx id = d.idx id ∧
      (d.applyAll es).rseg id = d.rseg id := by
  induction es generalizing d with
  | nil => exact ⟨rfl, rfl, rfl⟩
  | cons x es ih =>
    obtain ⟨hseg, hidx, hrseg⟩ := ih (fun y hy => hes y (by simp [hy])) (d.apply x)
    have hx := hes x (by simp)
    rw [Disk.applyAll_cons, hseg, hidx, hrseg]
    cases x with
    | segWrite | segRemove => exact ⟨Function.update_of_ne hx.symm _ _, rfl, rfl⟩
    | idxWrite => exact ⟨rfl, Function.update_of_ne hx.symm _ _, rfl⟩
    | rsegWrite | rsegRemove => exact ⟨rfl, rfl, Function.update_of_ne hx.symm _ _⟩
    | walAppend | walCreate | walDelete | manifestSave => exact ⟨rfl, rfl, rfl⟩

/-- A name stays unused by an operation that neither touches its files nor mentions it. -/
theorem State.Unused.avoids (h : s.Unused id)
    (heff : ∀ x ∈ o.effects, x.Avoids id)
    (hmen : o.mem.manifest.mentions id → s.mem.manifest.mentions id) : (o.state s).Unused id := by
  obtain ⟨hseg, hidx, hrseg⟩ := Disk.applyAll_avoids heff s.disk
  exact ⟨hseg.trans h.seg, hidx.trans h.idx, hrseg.trans h.rseg, fun hm => h.manifest (hmen hm)⟩

/-- Names stay unused by an operation that only works on the log. -/
theorem State.Unused.onLog (h : s.Unused id) (ho : o.OnLog s) :
    (o.state s).Unused id :=
  h.avoids (fun x hx => (ho.effects x hx).avoids id) fun hm => ho.manifest ▸ hm

/-- A new database has used no name. -/
theorem unused_restart_empty (X : Extern) (cfg : Config) (now : ℤ) (clk : ℕ → ℤ) (id : String) :
    State.Unused ⟨Disk.empty.applyAll (restart X cfg now clk .empty).effects,
      (restart X cfg now clk .empty).mem⟩ id := by
  refine ⟨rfl, rfl, rfl, ?_⟩
  rintro (h | ⟨_, h, _⟩ | ⟨_, h, _⟩) <;> exact absurd h List.not_mem_nil

/-- Different names, for concrete runs. -/
def sampleUuid (n : ℕ) : String := String.ofList (List.replicate n 'x')

theorem sampleUuid_injective : Function.Injective sampleUuid := by
  intro n m h
  simpa using congrArg List.length (String.ofList_injective h)

/-- The readings of the clock in a request of a concrete run. -/
def sampleClock : IngestClock := ⟨SInt.wrap 63 9000000,
    fun _ => 9000000, fun _ => 9000000, fun _ => 9000000⟩

section

variable (X : Extern) (cfg : Config)

/-- The flusher takes the first message of the queue. -/
def flushNext (uuid : ℕ → String) (clk : ℕ → ℤ) (s : State) : Outcome :=
  match s.mem.queue with
  | [] => .skip s
  | msg :: rest => handleMessage X .ok uuid clk ⟨s.disk, { s.mem with queue := rest }⟩ msg

/-- What an operation does. -/
def Op.outcome (s : State) : Op → Outcome
  | .ingest clk events => (handleIngest X cfg clk events s).1
  | .drain => forceDrainMemtable s
  | .flush uuid clk => flushNext X uuid clk s
  | .rollupTick now uuid => (tick X cfg now uuid true s).1
  | .compactionTick now uuid => UsageDb.compactionTick X cfg now uuid (fun _ => true) s
  | .closePeriod account year month now => (UsageDb.closePeriod X account year month now true s).1
  | .reopenPeriod account year month => (UsageDb.reopenPeriod account year month true s).1

/-- The events an operation accepts. -/
def Op.accepts (s : State) : Op → List UsageEvent
  | .ingest clk events =>
    (classifyBatch s.mem.dedupe
      (classifiedEvents X s.mem.manifest.closedPeriods clk.now events)).newEvents.map (·.event)
  | _ => []

/-- The database, running or not. -/
inductive Sys where
  /-- The server runs. -/
  | up (s : State)
  /-- There is only the disk. -/
  | down (d : Disk)

/-- The manifest of the database, running or not. -/
def Sys.manifest : Sys → Manifest
  | .up s => s.mem.manifest
  | .down d => d.loadManifest

/-- Its disk. -/
def Sys.disk : Sys → Disk
  | .up s => s.disk
  | .down d => d

/-- What can happen. -/
inductive Label where
  /-- An operation runs to its end. -/
  | run (op : Op)
  /-- An operation is cut by a crash after `k` of its durable steps. -/
  | cut (op : Op) (k : ℕ)
  /-- The server starts. -/
  | restart (now : ℤ) (clk : ℕ → ℤ)
  /-- The start is cut after `k` durable steps. -/
  | cutRestart (now : ℤ) (clk : ℕ → ℤ) (k : ℕ)

/-- Nothing is cut: an operation or a start runs to its end, and the server stops between two
operations. -/
def Label.Completed : Label → Prop
  | .cut _ k => k = 0
  | .cutRestart .. => False
  | _ => True

/-- The operation merges segments. -/
def Op.Compacts : Op → Prop
  | .compactionTick .. => True
  | _ => False

/-- The step is one of the compaction worker. -/
def Label.Compacts : Label → Prop
  | .run op => op.Compacts
  | .cut op _ => op.Compacts
  | _ => False

/-- A step of the system. -/
inductive Step : Sys → Label → Sys → Prop where
  /-- An operation runs to its end. -/
  | run {s : State} {op : Op} : op.Fresh s → Step (.up s) (.run op) (.up ((op.outcome X cfg s).state s))
  /-- An operation is cut. -/
  | cut {s : State} {op : Op} (k : ℕ) : op.Fresh s →
      Step (.up s) (.cut op k) (.down (s.disk.applyAll ((op.outcome X cfg s).effects.take k)))
  /-- The server starts. -/
  | restart {d : Disk} (now : ℤ) (clk : ℕ → ℤ) :
      Step (.down d) (.restart now clk)
        (.up ⟨d.applyAll (UsageDb.restart X cfg now clk d).effects,
          (UsageDb.restart X cfg now clk d).mem⟩)
  /-- The start is cut. -/
  | cutRestart {d : Disk} (now : ℤ) (clk : ℕ → ℤ) (k : ℕ) :
      Step (.down d) (.cutRestart now clk k)
        (.down (d.applyAll ((UsageDb.restart X cfg now clk d).effects.take k)))

/-- The events a step makes durable: an ingest that is cut counts once its append is synced. -/
def Sys.accepts : Sys → Label → List UsageEvent
  | .up s, .run op => op.accepts X s
  | .up s, .cut op k => if k = 0 then [] else op.accepts X s
  | _, _ => []

/-- A message without events is dropped. -/
theorem flushNext_of_empty {msg : FlushMessage} {rest : List FlushMessage}
    (hq : s.mem.queue = msg :: rest) (hempty : msg.events = []) (uuid : ℕ → String) (clk : ℕ → ℤ) :
    flushNext X uuid clk s = ⟨[], { s.mem with queue := rest }⟩ := by
  rw [flushNext, hq]
  dsimp only
  rw [handleMessage, if_pos (by rw [hempty]; rfl)]
  rfl

/-- Any other is written as segments; they are saved with the seal, and the log is deleted through
it. -/
theorem flushNext_of_events {msg : FlushMessage} {rest : List FlushMessage}
    (hq : s.mem.queue = msg :: rest) (hne : msg.events ≠ []) (uuid : ℕ → String) (clk : ℕ → ℤ) :
    flushNext X uuid clk s =
      let segs := flushSegments X uuid s.mem.manifest.buckets msg.events
      let m := (s.mem.manifest.commitFlush (segs.map (·.1)) msg.sealedWalId).saved
      ⟨segmentEffects X segs ++ .manifestSave m :: deleteThroughEffects s.disk.wal msg.sealedWalId,
        { s.mem with queue := rest, manifest := m }⟩ := by
  rw [flushNext, hq]
  dsimp only
  rw [handleMessage, if_neg (by simpa using hne), attemptFlush_ok]

/-- What a flush comes to. -/
theorem flushNext_cases (uuid : ℕ → String) (clk : ℕ → ℤ) (s : State) :
    flushNext X uuid clk s = .skip s ∨ ∃ msg rest, s.mem.queue = msg :: rest ∧
      (msg.events = [] ∧ flushNext X uuid clk s = ⟨[], { s.mem with queue := rest }⟩ ∨
        ∃ segs m, segs = flushSegments X uuid s.mem.manifest.buckets msg.events ∧
          m = (s.mem.manifest.commitFlush (segs.map (·.1)) msg.sealedWalId).saved ∧
          flushNext X uuid clk s = ⟨segmentEffects X segs ++
            .manifestSave m :: deleteThroughEffects s.disk.wal msg.sealedWalId,
            { s.mem with queue := rest, manifest := m }⟩) := by
  cases hq : s.mem.queue with
  | nil =>
    left
    rw [flushNext, hq]
  | cons msg rest =>
    refine .inr ⟨msg, rest, rfl, ?_⟩
    by_cases hempty : msg.events = []
    · exact .inl ⟨hempty, flushNext_of_empty X hq hempty uuid clk⟩
    · exact .inr ⟨_, _, rfl, rfl, flushNext_of_events X hq hempty uuid clk⟩

end

end UsageDb
