import UsageDb.Runtime.InFlight
import UsageDb.Runtime.Names

/-!
# A rotation of the log that fails

Ingest and `force_drain_memtable` empty the memtable and then call `Wal::rotate`, which can
fail in three places. In all of them the drained events are handed to nobody. They are still
in the log file they were accepted into, and a restart would replay them; but the server goes
on, and the next batch that is drained is sealed with that file or a later one, so that its
flush deletes it.

When the failure is in opening the next file, the active id has been moved up already while
the writer still has the old file: from then on the server appends to another file than the
one it takes for active. A running server is therefore a state with the file it writes to,
and, for the proofs only, with the events that failed rotations have dropped, each batch of
them with the last log file that has them (`Node`).

With the dropped events put back where they were drained from, the memory agrees with the disk
as if nothing had failed (`Node.shadow`); this is what the operations keep, as long as no
message is flushed that was drained after a failure (`Node.Ok`).
-/

namespace UsageDb

open Lib List

variable {X : Extern} {cfg : Config} {D : Multiset UsageEvent → Prop} {c : Multiset UsageEvent}
  {msg : FlushMessage} {uuid : ℕ → String} {id : String}

/-- Where `Wal::rotate` fails. -/
inductive RotateStep where
  /-- In flushing the buffer to the active file, … -/
  | flush
  /-- … in syncing it, … -/
  | sync
  /-- … or in opening the next file. -/
  | openNext

/-- `active_id` after the failure. -/
def RotateStep.activeId (id : ℕ) : RotateStep → ℕ
  | .flush => id
  | .sync => id
  | .openNext => id + 1

/-- A running server. -/
@[ext] structure Node where
  state : State
  /-- The log file that is open for appending. -/
  file : ℕ
  /-- What failed rotations have dropped since the start, with the last log file that has it. -/
  dropped : WalDir (List UsageEvent)

/-- Appends go to the file that is open. -/
def Effect.onFile (file : ℕ) : Effect → Effect
  | .walAppend _ events => .walAppend file events
  | x => x

namespace Node

variable (v : Node)

/-- What an operation does. -/
def outcome (X : Extern) (cfg : Config) (op : Op) : Outcome :=
  ⟨(op.outcome X cfg v.state).effects.map (.onFile v.file), (op.outcome X cfg v.state).mem⟩

/-- The server after it: a rotation opens another file, and what is sealed is no longer
pending. -/
def after (o : Outcome) : Node where
  state := o.state v.state
  file := if o.mem.activeId = v.state.mem.activeId then v.file else o.mem.activeId
  dropped := v.dropped.filter fun d => o.mem.manifest.lastSealedWalId < d.1

/-- A drain whose rotation fails. -/
def failDrain (at_ : RotateStep) : Node where
  state := ⟨v.state.disk, { v.state.mem with
    memtable := v.state.mem.memtable.drainAll.2
    activeId := at_.activeId v.state.mem.activeId }⟩
  file := v.file
  dropped := v.dropped ++ [(v.file, v.state.mem.memtable.drainAll.1)]

/-- The new events of a request are appended and registered. -/
def accept (X : Extern) (clk : IngestClock) (new : List Classified) : Node :=
  { v with
    state := ⟨v.state.disk.applyAll (appendEffects v.file (new.map (·.event))),
      v.state.mem.accept X clk new⟩ }

/-- The new events of a request. -/
def newEvents (X : Extern) (clk : IngestClock) (events : List UsageEvent) : List Classified :=
  (classifyBatch v.state.mem.dedupe
    (classifiedEvents X v.state.mem.manifest.closedPeriods clk.now events)).newEvents

end Node

/-- What can fail. -/
inductive RotateFault where
  /-- The rotation of a forced drain. -/
  | drain (at_ : RotateStep)
  /-- The rotation at the end of a request. -/
  | ingest (clk : IngestClock) (events : List UsageEvent) (at_ : RotateStep)

/-- The database, running or not. -/
inductive NodeSys where
  /-- The server runs. -/
  | up (v : Node)
  /-- There is only the disk. -/
  | down (d : Disk)

/-- Its disk. -/
def NodeSys.disk : NodeSys → Disk
  | .up v => v.state.disk
  | .down d => d

/-- A step of the server and of the book of the events that are in the log. -/
inductive NodeStep (X : Extern) (cfg : Config) :
    NodeSys × Multiset UsageEvent → FaultLabel RotateFault → NodeSys × Multiset UsageEvent → Prop where
  /-- An operation runs to its end. -/
  | run {v : Node} {c : Multiset UsageEvent} {op : Op} : op.Fresh v.state →
      NodeStep X cfg (.up v, c) (.sound (.run op)) (.up (v.after (v.outcome X cfg op)), c +
        ↑(op.accepts X v.state))
  /-- An operation is cut. -/
  | cut {v : Node} {c : Multiset UsageEvent} {op : Op} (k : ℕ) : op.Fresh v.state →
      NodeStep X cfg (.up v, c) (.sound (.cut op k))
        (.down (v.state.disk.applyAll ((v.outcome X cfg op).effects.take k)), if k =
          0 then c else c + ↑(op.accepts X v.state))
  /-- The server starts. -/
  | restart {d : Disk} {c : Multiset UsageEvent} (now : ℤ) (clk : ℕ → ℤ) :
      NodeStep X cfg (.down d, c) (.sound (.restart now clk))
        (.up ⟨⟨d.applyAll (UsageDb.restart X cfg now clk d).effects,
          (UsageDb.restart X cfg now clk d).mem⟩,
          (UsageDb.restart X cfg now clk d).mem.activeId, []⟩, c)
  /-- The start is cut. -/
  | cutRestart {d : Disk} {c : Multiset UsageEvent} (now : ℤ) (clk : ℕ → ℤ) (k : ℕ) :
      NodeStep X cfg (.down d, c) (.sound (.cutRestart now clk k))
        (.down (d.applyAll ((UsageDb.restart X cfg now clk d).effects.take k)), c)
  /-- `force_drain_memtable` fails. -/
  | failedDrain {v : Node} {c : Multiset UsageEvent} (at_ : RotateStep) :
      v.state.mem.memtable.events ≠ [] →
      NodeStep X cfg (.up v, c) (.fault (.drain at_)) (.up (v.failDrain at_), c)
  /-- `ingest_critical_section` fails after the append, when the memtable has become too large. -/
  | failedIngest {v : Node} {c : Multiset UsageEvent} (clk : IngestClock) (events : List UsageEvent)
      (at_ : RotateStep) :
      cfg.maxMemtableSizeBytes <
        (v.accept X clk (v.newEvents X clk events)).state.mem.memtable.approxSizeBytes →
      NodeStep X cfg (.up v, c) (.fault (.ingest clk events at_))
        (.up ((v.accept X clk (v.newEvents X clk events)).failDrain at_), c +
          ↑((v.newEvents X clk events).map (·.event)))

/-! ### The server with the dropped events put back -/

/-- The seal after the messages `q`. -/
def sealAfter (lo : ℕ) (q : List FlushMessage) : ℕ := (q.getLast?.map (·.sealedWalId)).getD lo

/-- The messages `q` after the seal `lo`, each with the dropped events of its stretch of the log. -/
def withDropped (dropped : WalDir (List UsageEvent)) : ℕ → List FlushMessage → List FlushMessage
  | _, [] => []
  | lo, msg :: q =>
    ⟨msg.events ++ dropped.slice lo msg.sealedWalId, msg.sealedWalId⟩ :: withDropped dropped
      msg.sealedWalId q

namespace Node

/-- The state with the dropped events put back, and the file that is open for the active one. -/
def shadow (v : Node) : State :=
  ⟨v.state.disk, { v.state.mem with
    activeId := v.file
    queue := withDropped v.dropped v.state.mem.manifest.lastSealedWalId v.state.mem.queue
    memtable := { v.state.mem.memtable with
      events := v.state.mem.memtable.events ++
        v.dropped.slice (sealAfter v.state.mem.manifest.lastSealedWalId v.state.mem.queue) v.file } }⟩

/-- The server is in order but for what was dropped. -/
structure Ok (v : Node) : Prop where
  /-- With that put back, the memory agrees with the disk. -/
  mem : MemOk v.shadow
  /-- The file that is open is the active one, or was before rotations failed. -/
  file : v.file ≤ v.state.mem.activeId
  /-- What was dropped is in log files above the seal. -/
  dropped : ∀ d ∈ v.dropped, v.state.mem.manifest.lastSealedWalId < d.1 ∧ d.1 ≤ v.file

end Node

theorem sealAfter_cons (lo : ℕ) (msg : FlushMessage) (q : List FlushMessage) :
    sealAfter lo (msg :: q) = sealAfter msg.sealedWalId q := by
  cases q with
  | nil => rfl
  | cons msg' q =>
    rw [sealAfter, sealAfter, List.getLast?_cons_cons, List.getLast?_eq_some_getLast (cons_ne_nil _ _)]
    rfl

section Dropped

variable {dropped : WalDir (List UsageEvent)} {lo hi : ℕ} {q : List FlushMessage}

theorem slice_eq_nil (h : ∀ d ∈ dropped, lo < d.1 → hi < d.1) : dropped.slice lo hi = [] := by
  rw [WalDir.slice, filter_eq_nil_iff.2, flatMap_nil]
  intro d hd hin
  rw [Bool.and_eq_true, decide_eq_true_eq, decide_eq_true_eq] at hin
  have := h d hd hin.1
  omega

theorem slice_congr {lo' hi' : ℕ} (h : ∀ d ∈ dropped, (lo < d.1 ∧ d.1 ≤ hi) ↔ (lo' < d.1 ∧ d.1 ≤ hi')) :
    dropped.slice lo hi = dropped.slice lo' hi' := by
  rw [WalDir.slice, WalDir.slice]
  congr 1
  refine filter_congr fun d hd => ?_
  rw [Bool.eq_iff_iff]
  simpa using h d hd

theorem slice_snoc (id : ℕ) (events : List UsageEvent) :
    WalDir.slice (dropped ++ [(id, events)]) lo hi =
      dropped.slice lo hi ++ if lo < id ∧ id ≤ hi then events else [] := by
  rw [WalDir.slice, filter_append, flatMap_append, WalDir.slice]
  congr 1
  by_cases hin : lo < id ∧ id ≤ hi
  · simp [hin]
  · rw [if_neg hin, filter_eq_nil_iff.2, flatMap_nil]
    simpa using hin

@[simp] theorem withDropped_nil : withDropped [] lo q = q := by
  induction q generalizing lo with
  | nil => rfl
  | cons msg q ih => simp [withDropped, WalDir.slice, ih]

/-- More is dropped, in a file after the messages. -/
theorem withDropped_snoc {id : ℕ} (h : ∀ msg ∈ q, msg.sealedWalId < id) (events : List UsageEvent) :
    withDropped (dropped ++ [(id, events)]) lo q = withDropped dropped lo q := by
  induction q generalizing lo with
  | nil => rfl
  | cons msg q ih =>
    have hlt := h msg mem_cons_self
    rw [withDropped, withDropped,
      ih fun m hm => h m (mem_cons_of_mem _ hm), slice_snoc, if_neg (by omega), append_nil]

/-- One more message. -/
theorem withDropped_append (msg : FlushMessage) :
    withDropped dropped lo (q ++ [msg]) = withDropped dropped lo q ++
      [⟨msg.events ++ dropped.slice (sealAfter lo q) msg.sealedWalId, msg.sealedWalId⟩] := by
  induction q generalizing lo with
  | nil => rfl
  | cons m q ih => rw [cons_append, withDropped, ih, withDropped, sealAfter_cons, cons_append]

/-- A seal below which nothing is dropped. -/
theorem withDropped_congr {lo' : ℕ} (h : ∀ d ∈ dropped, lo < d.1 ∧ lo' < d.1) :
    withDropped dropped lo q = withDropped dropped lo' q := by
  cases q with
  | nil => rfl
  | cons msg q =>
    rw [withDropped, withDropped,
      slice_congr fun d hd => and_congr_left' ⟨fun _ => (h d hd).2, fun _ => (h d hd).1⟩]

theorem slice_sealAfter_congr {lo' : ℕ} (h : ∀ d ∈ dropped, lo < d.1 ∧ lo' < d.1) :
    dropped.slice (sealAfter lo q) hi = dropped.slice (sealAfter lo' q) hi := by
  cases q with
  | nil => exact slice_congr fun d hd => and_congr_left' ⟨fun _ => (h d hd).2, fun _ => (h d hd).1⟩
  | cons msg q => rw [sealAfter_cons, sealAfter_cons]

theorem mem_withDropped_sealed (dropped : WalDir (List UsageEvent)) (lo : ℕ) (h : msg ∈ q) :
    ∃ msg' ∈ withDropped dropped lo q, msg'.sealedWalId = msg.sealedWalId := by
  induction q generalizing lo with
  | nil => cases h
  | cons m q ih =>
    rcases mem_cons.1 h with rfl | h
    · exact ⟨_, mem_cons_self, rfl⟩
    · obtain ⟨msg', hmem, heq⟩ := ih m.sealedWalId h
      exact ⟨msg', mem_cons_of_mem _ hmem, heq⟩

end Dropped

/-- The order of the memtable does not matter. -/
theorem Covers.perm {log : WalDir (List UsageEvent)} {active lo : ℕ} {q : List FlushMessage}
    {mem mem' : List UsageEvent}
    (h : Covers log active lo q mem) (hmem : mem'.Perm mem) : Covers log active lo q mem' := by
  induction q generalizing lo with
  | nil => exact ⟨h.1, hmem.trans h.2⟩
  | cons msg q ih => exact ⟨h.1, h.2.1, ih h.2.2⟩

/-- What of the memory has to agree with the disk. -/
theorem MemOk.congr {s : State} {m : Mem} (h : MemOk s) (hman : m.manifest = s.mem.manifest)
    (hactive : m.activeId = s.mem.activeId) (hq : m.queue = s.mem.queue)
    (hmem : m.memtable.events.Perm s.mem.memtable.events) : MemOk ⟨s.disk, m⟩ := by
  refine ⟨hman ▸ h.loaded, hactive ▸ h.active, hactive ▸ h.last, ?_⟩
  rw [hman, hactive, hq]
  exact h.covers.perm hmem

/-! ### What the operations keep -/

namespace Node

variable {v : Node} {o : Outcome}

theorem Ok.sealed_lt (h : v.Ok) (hmsg : msg ∈ v.state.mem.queue) : msg.sealedWalId < v.file := by
  obtain ⟨msg', hmem, heq⟩ := mem_withDropped_sealed v.dropped
    v.state.mem.manifest.lastSealedWalId hmsg
  exact heq ▸ (h.mem.covers.sealed_lt hmem).2

theorem Ok.seal_lt (h : v.Ok) : sealAfter v.state.mem.manifest.lastSealedWalId v.state.mem.queue <
    v.file := by
  rw [sealAfter]
  cases hlast : v.state.mem.queue.getLast? with
  | none => exact h.mem.covers.lt_active
  | some msg => exact h.sealed_lt (mem_of_getLast? hlast)

/-- **A rotation that fails** moves the memtable to what is dropped. -/
theorem Ok.failDrain (h : v.Ok) (at_ : RotateStep) : (v.failDrain at_).Ok := by
  refine ⟨?_, ?_, fun d hd => ?_⟩
  · refine h.mem.congr rfl rfl ?_ ?_
    · exact withDropped_snoc (fun msg hmsg => h.sealed_lt hmsg) _
    · show ([] ++ WalDir.slice (v.dropped ++ [(v.file, v.state.mem.memtable.events)]) _ v.file).Perm _
      rw [slice_snoc, if_pos ⟨h.seal_lt, le_rfl⟩, nil_append]
      exact perm_append_comm
  · have hfile := h.file
    cases at_ with
    | flush => exact hfile
    | sync => exact hfile
    | openNext => exact hfile.trans (Nat.le_succ _)
  · rcases mem_append.1 hd with hd | hd
    · exact h.dropped d hd
    · rw [mem_singleton.1 hd]
      exact ⟨h.mem.covers.lt_active, le_rfl⟩

/-- Events are appended to the file that is open. -/
theorem Ok.accept (h : v.Ok) (new : List Classified) (hD : ∀ {c c'}, D (c + c') → D c)
    (hd : Holds X cfg D c v.state.disk) (clk : IngestClock)
    (hpos : ∀ e ∈ new.map (·.event), 0 < (e.timestampMs : ℤ)) :
    Holds X cfg D (c + ↑(new.map (·.event))) (v.accept X clk new).state.disk ∧
      (v.accept X clk new).Ok := by
  obtain ⟨hd', hm'⟩ := accept_ok (s := v.shadow) hD hd h.mem clk hpos
  refine ⟨hd', hm'.congr rfl rfl rfl ?_, h.file, h.dropped⟩
  show ((v.state.mem.memtable.insertAll X (new.map (·.event)) clk.insert).events ++ _).Perm
    (v.shadow.mem.memtable.insertAll X (new.map (·.event)) clk.insert).events
  rw [Memtable.insertAll_events, Memtable.insertAll_events, shadow]
  rw [append_assoc, append_assoc]
  exact perm_append_comm.append_left _

/-- What an operation keeps that accepts nothing. -/
structure Keeps (X : Extern) (cfg : Config) (D : Multiset UsageEvent → Prop)
    (c : Multiset UsageEvent) (v : Node) (o : Outcome) : Prop where
  /-- After every durable step. -/
  prefixes : EveryPrefix Disk.apply (Holds X cfg D c) v.state.disk o.effects
  /-- At the end. -/
  ok : (v.after o).Ok

theorem dropped_after (h : v.Ok) (hseal : o.mem.manifest.lastSealedWalId =
    v.state.mem.manifest.lastSealedWalId) :
    (v.after o).dropped = v.dropped := by
  refine filter_eq_self.2 fun d hd => decide_eq_true ?_
  rw [hseal]
  exact (h.dropped d hd).1

theorem after_skip (h : v.Ok) : v.after (.skip v.state) = v := Node.ext rfl (if_pos rfl)
    (dropped_after h rfl)

theorem Keeps.skip (hd : Holds X cfg D c v.state.disk) (h : v.Ok) : v.Keeps X cfg D c (.skip v.state) :=
  ⟨EveryPrefix.nil hd, (after_skip h).symm ▸ h⟩

/-- Work that leaves the log alone. -/
theorem Ok.offLog (h : v.Ok) (ho : KeepsOffLog X cfg D c v.state o) : v.Keeps X cfg D c o := by
  have hmem : o.mem = { v.state.mem with manifest := o.mem.manifest } := ho.mem
  have hfile : (v.after o).file = v.file := if_pos (by rw [hmem])
  have hdropped := dropped_after h ho.sealedId
  have hqueue : o.mem.queue = v.state.mem.queue := by rw [hmem]
  have htable : o.mem.memtable = v.state.mem.memtable := by rw [hmem]
  refine ⟨ho.prefixes, ⟨ho.loaded, ?_, ?_, ?_⟩, ?_, fun d hd => ?_⟩
  · show (v.after o).file ∈ (o.state v.state).disk.wal.ids
    rw [hfile, ho.wal]
    exact h.mem.active
  · show ∀ id ∈ (o.state v.state).disk.wal.ids, id ≤ (v.after o).file
    rw [hfile, ho.wal]
    exact h.mem.last
  · show Covers (o.state v.state).disk.wal (v.after o).file o.mem.manifest.lastSealedWalId
      (withDropped (v.after o).dropped o.mem.manifest.lastSealedWalId o.mem.queue)
      (o.mem.memtable.events ++ (v.after o).dropped.slice (sealAfter o.mem.manifest.lastSealedWalId
        o.mem.queue) (v.after o).file)
    rw [hfile, ho.wal, ho.sealedId, hdropped, hqueue, htable]
    exact h.mem.covers
  · rw [hfile]
    show v.file ≤ o.mem.activeId
    rw [hmem]
    exact h.file
  · rw [hdropped] at hd
    rw [hfile]
    show o.mem.manifest.lastSealedWalId < d.1 ∧ _
    rw [ho.sealedId]
    exact h.dropped d hd

/-- A drain whose rotation succeeds: the message is sealed with the active id, in whose stretch of
the log everything dropped is. -/
theorem Ok.drainIf (h : v.Ok) (hd : Holds X cfg D c v.state.disk) (cond : Bool) :
    v.Keeps X cfg D c (v.state.mem.drainIf cond).sent := by
  rw [Mem.drainIf]
  split
  · have hlt : ∀ i ∈ v.state.disk.wal.ids, i < v.state.mem.activeId + 1 :=
      fun i hi => Nat.lt_succ_of_le ((h.mem.last i hi).trans h.file)
    have hwal : (v.state.disk.apply (.walCreate (v.state.mem.activeId + 1))).wal =
        v.state.disk.wal ++ [(v.state.mem.activeId + 1, [])] := WalDir.create_of_forall_lt hlt _
    have hfile : (v.after v.state.mem.drainAndRotate.sent).file = v.state.mem.activeId + 1 :=
      if_neg (Nat.succ_ne_self _)
    have hdropped : (v.after v.state.mem.drainAndRotate.sent).dropped = v.dropped := dropped_after h rfl
    refine ⟨EveryPrefix.cons hd (EveryPrefix.nil (hd.walCreate hlt)), ⟨h.mem.loaded, ?_, ?_, ?_⟩,
      ?_, fun d hd => ?_⟩
    · show (v.after v.state.mem.drainAndRotate.sent).file ∈
        (v.state.disk.apply (.walCreate (v.state.mem.activeId + 1))).wal.ids
      rw [hfile, hwal, WalDir.ids_append]
      exact mem_append_right _ mem_cons_self
    · show ∀ id ∈ (v.state.disk.apply (.walCreate (v.state.mem.activeId + 1))).wal.ids,
        id ≤ (v.after v.state.mem.drainAndRotate.sent).file
      rw [hfile, hwal, WalDir.ids_append]
      intro id hid
      rcases mem_append.1 hid with hid | hid
      · exact (hlt id hid).le
      · exact (mem_singleton.1 hid).le
    · show Covers (v.state.disk.apply (.walCreate (v.state.mem.activeId + 1))).wal
        (v.after v.state.mem.drainAndRotate.sent).file v.state.mem.manifest.lastSealedWalId
        (withDropped (v.after v.state.mem.drainAndRotate.sent).dropped
          v.state.mem.manifest.lastSealedWalId
          (v.state.mem.queue ++ [⟨v.state.mem.memtable.events, v.state.mem.activeId⟩]))
        ([] ++ (v.after v.state.mem.drainAndRotate.sent).dropped.slice
          (sealAfter v.state.mem.manifest.lastSealedWalId
            (v.state.mem.queue ++ [⟨v.state.mem.memtable.events, v.state.mem.activeId⟩]))
          (v.after v.state.mem.drainAndRotate.sent).file)
      have hnone : v.dropped.slice v.state.mem.activeId (v.state.mem.activeId + 1) = [] :=
        slice_eq_nil fun d hd hlt => absurd hlt (not_lt.2 ((h.dropped d hd).2.trans h.file))
      have hall : v.dropped.slice (sealAfter v.state.mem.manifest.lastSealedWalId v.state.mem.queue)
          v.state.mem.activeId =
          v.dropped.slice (sealAfter v.state.mem.manifest.lastSealedWalId v.state.mem.queue) v.file :=
        slice_congr fun d hd =>
          and_congr_right' ⟨fun _ => (h.dropped d hd).2, fun hle => hle.trans h.file⟩
      have hseal : sealAfter v.state.mem.manifest.lastSealedWalId
          (v.state.mem.queue ++ [⟨v.state.mem.memtable.events, v.state.mem.activeId⟩]) =
              v.state.mem.activeId := by
        simp [sealAfter]
      rw [hwal, hfile, hdropped, hseal, hnone, withDropped_append, hall, append_nil]
      exact h.mem.covers.drain h.mem.last h.file
    · rw [hfile]
      exact le_rfl
    · rw [hdropped] at hd
      rw [hfile]
      obtain ⟨hlo, hhi⟩ := h.dropped d hd
      exact ⟨hlo, (hhi.trans h.file).trans (Nat.le_succ _)⟩
  · exact Keeps.skip hd h

/-- What is left once the first message is taken off the queue, with the seal moved up to it or
not, when nothing dropped is in its stretch of the log. -/
theorem Ok.taken (h : v.Ok) {rest : List FlushMessage} (hq : v.state.mem.queue = msg :: rest)
    (habove : ∀ d ∈ v.dropped, msg.sealedWalId < d.1) (hoq : o.mem.queue = rest)
    (hactive : o.mem.activeId = v.state.mem.activeId) (htable : o.mem.memtable = v.state.mem.memtable)
    (hseal : ∀ d ∈ v.dropped, o.mem.manifest.lastSealedWalId < d.1)
    (hm : MemOk ⟨(o.state v.state).disk, { v.shadow.mem with
      queue := withDropped v.dropped msg.sealedWalId rest,
        manifest := o.mem.manifest }⟩) : (v.after o).Ok := by
  have hfile : (v.after o).file = v.file := if_pos hactive
  have hdropped : (v.after o).dropped = v.dropped :=
    filter_eq_self.2 fun d hd => decide_eq_true (hseal d hd)
  have hboth : ∀ d ∈ v.dropped, o.mem.manifest.lastSealedWalId < d.1 ∧ msg.sealedWalId < d.1 :=
    fun d hd => ⟨hseal d hd, habove d hd⟩
  refine ⟨?_, ?_, fun d hd => ?_⟩
  · refine hm.congr (m := (v.after o).shadow.mem) rfl hfile ?_ (List.Perm.of_eq ?_)
    · show withDropped (v.after o).dropped o.mem.manifest.lastSealedWalId o.mem.queue = _
      rw [hdropped, hoq]
      exact withDropped_congr hboth
    · show o.mem.memtable.events ++
        (v.after o).dropped.slice (sealAfter o.mem.manifest.lastSealedWalId o.mem.queue)
        (v.after o).file = v.state.mem.memtable.events ++
          v.dropped.slice (sealAfter v.state.mem.manifest.lastSealedWalId v.state.mem.queue) v.file
      rw [hdropped, hoq, htable, hfile, hq, sealAfter_cons, slice_sealAfter_congr hboth]
  · rw [hfile]
    exact h.file.trans hactive.ge
  · rw [hdropped] at hd
    rw [hfile]
    exact ⟨hseal d hd, (h.dropped d hd).2⟩

/-- The flush of a message in whose stretch of the log nothing was dropped. -/
theorem Ok.flush (h : v.Ok) (hd : Holds X cfg D c v.state.disk) (clk : ℕ → ℤ)
    (hfresh : (Op.flush uuid clk).Fresh v.state)
    (habove : ∀ msg ∈ v.state.mem.queue.head?, ∀ d ∈ v.dropped, msg.sealedWalId < d.1) :
    v.Keeps X cfg D c (flushNext X uuid clk v.state) := by
  cases hq : v.state.mem.queue with
  | nil =>
    have hskip : flushNext X uuid clk v.state = .skip v.state := by rw [flushNext, hq]
    rw [hskip]
    exact .skip hd h
  | cons msg rest =>
    have habove : ∀ d ∈ v.dropped, msg.sealedWalId < d.1 := habove msg (by rw [hq]; rfl)
    have hnil : v.dropped.slice v.state.mem.manifest.lastSealedWalId msg.sealedWalId = [] :=
      slice_eq_nil fun d hd _ => habove d hd
    have hq' : v.shadow.mem.queue = msg :: withDropped v.dropped msg.sealedWalId rest := by
      show withDropped _ _ v.state.mem.queue = _
      rw [hq, withDropped, hnil, append_nil]
    have hfresh' : (Op.flush uuid clk).Fresh v.shadow :=
      ⟨fun b => ⟨(hfresh.1 b).seg, (hfresh.1 b).idx, (hfresh.1 b).rseg, (hfresh.1 b).manifest⟩,
        hfresh.2⟩
    have hkeep := keeps_flush (X := X) (s := v.shadow) hd h.mem clk hfresh'
    by_cases hempty : msg.events = []
    · rw [flushNext_of_empty X hq' hempty] at hkeep
      rw [flushNext_of_empty X hq hempty]
      exact ⟨hkeep.prefixes, h.taken hq habove rfl rfl rfl (fun d hd => (h.dropped d hd).1) hkeep.mem⟩
    · rw [flushNext_of_events X hq' hempty] at hkeep
      rw [flushNext_of_events X hq hempty]
      refine ⟨hkeep.prefixes, h.taken hq habove rfl rfl rfl (fun d hd => ?_) hkeep.mem⟩
      rw [Manifest.saved_lastSealedWalId, Manifest.commitFlush]
      split
      · exact habove d hd
      · exact (h.dropped d hd).1

/-- A rollup tick. -/
theorem Ok.tick (h : v.Ok) (hd : Holds X cfg D c v.state.disk) (now : ℤ) (uuid : ℤ → ℕ → String) :
    v.Keeps X cfg D c (tick X cfg now uuid true v.state).1 :=
  tick_rule (.skip hd h) (h.drainIf hd _) fun _ target =>
    h.offLog (keepsOffLog_commitTick hd h.mem.loaded _ target)

end Node

/-- Only a request appends to the log. -/
theorem map_onFile (s : State) {op : Op} (hop : ∀ clk events, op ≠ .ingest clk events) (file : ℕ) :
    (op.outcome X cfg s).effects.map (.onFile file) = (op.outcome X cfg s).effects := by
  have hself : ∀ {xs : List Effect}, (∀ x ∈ xs, ∀ id events, x ≠ .walAppend id events) →
      xs.map (.onFile file) = xs := by
    intro xs hxs
    conv_rhs => rw [← map_id xs]
    refine map_congr_left fun x hx => ?_
    cases x with
    | walAppend id events => exact absurd rfl (hxs _ hx id events)
    | _ => rfl
  have hoff : ∀ {o : Outcome}, o.OffLog → o.effects.map (.onFile file) = o.effects := by
    intro o ho
    refine hself ?_
    rintro _ hx id events rfl
    exact ho _ hx trivial
  have hdrain : ∀ cond, (s.mem.drainIf cond).sent.effects.map (.onFile file) =
      (s.mem.drainIf cond).sent.effects := by
    intro cond
    cases cond <;> rfl
  cases op with
  | ingest clk events => exact absurd rfl (hop clk events)
  | drain => exact hdrain _
  | flush uuid clk =>
    rw [Op.outcome]
    rcases flushNext_cases X uuid clk s with hskip | ⟨msg, rest, -,
      ⟨-, hdrop⟩ | ⟨segs, m, -, -, hflush⟩⟩
    · rw [hskip]
      rfl
    · rw [hdrop]
      rfl
    · rw [hflush]
      refine hself ?_
      rintro _ hx id events rfl
      rcases mem_append.1 hx with hx | hx
      · obtain ⟨seg, -, hx⟩ := mem_flatMap.1 hx
        simp at hx
      · simp [deleteThroughEffects] at hx
  | rollupTick now uuid =>
    exact tick_rule (R := fun o => o.effects.map (.onFile file) = o.effects) rfl (hdrain _)
      fun _ target => hoff (offLog_commitTick s _ target)
  | compactionTick now uuid => exact hoff (offLog_compactionTick s now uuid)
  | closePeriod account year month now => exact hoff (offLog_closePeriod s account year month now)
  | reopenPeriod account year month => exact hoff (offLog_reopenPeriod s account year month)

namespace Node

variable {v : Node}

/-- **Every operation keeps the server in order** that accepts nothing; a flush, when nothing was
dropped in the stretch of the log that it deletes. -/
theorem Ok.op (h : v.Ok) (hd : Holds X cfg D c v.state.disk) {op : Op} (hfresh : op.Fresh v.state)
    (hcomp : op.Compacts → D = DistinctIds) (hop : ∀ clk events, op ≠ .ingest clk events)
    (habove : ∀ uuid clk, op = .flush uuid clk →
      ∀ msg ∈ v.state.mem.queue.head?, ∀ d ∈ v.dropped, msg.sealedWalId < d.1) :
    v.Keeps X cfg D c (v.outcome X cfg op) := by
  rw [outcome, map_onFile v.state hop]
  cases op with
  | ingest clk events => exact absurd rfl (hop clk events)
  | drain => exact h.drainIf hd _
  | flush uuid clk => exact h.flush hd clk hfresh (habove uuid clk rfl)
  | rollupTick now uuid => exact h.tick hd now uuid
  | compactionTick now uuid =>
    obtain rfl := hcomp trivial
    exact h.offLog (keepsOffLog_compactionTick hd h.mem.loaded hfresh)
  | closePeriod account year month now => exact h.offLog (keepsOffLog_closePeriod hd h.mem.loaded
      account year month now)
  | reopenPeriod account year month => exact h.offLog (keepsOffLog_reopenPeriod hd h.mem.loaded
      account year month)

/-- The drain at the end of a request. -/
def drainFull (v : Node) (cfg : Config) : Outcome :=
  (v.state.mem.drainIf (cfg.maxMemtableSizeBytes < v.state.mem.memtable.approxSizeBytes)).sent

/-- What a request does: its new events are appended to the file that is open, then the memtable
is drained if there is too much in it. -/
theorem outcome_ingest (X : Extern) (cfg : Config) (v : Node) (clk : IngestClock)
    (events : List UsageEvent) :
    (v.outcome X cfg (.ingest clk events)).effects =
      appendEffects v.file ((v.newEvents X clk events).map (·.event)) ++
        ((v.accept X clk (v.newEvents X clk events)).drainFull cfg).effects ∧
      v.after (v.outcome X cfg (.ingest clk events)) =
        (v.accept X clk (v.newEvents X clk events)).after
          ((v.accept X clk (v.newEvents X clk events)).drainFull cfg) := by
  have hout : (Op.ingest clk events).outcome X cfg v.state =
      acceptAndDrain X cfg clk (v.newEvents X clk events) v.state :=
    handleIngest_eq clk events v.state
  have happend : ∀ new, (appendEffects v.state.mem.activeId new).map (.onFile v.file) =
      appendEffects v.file new := by
    intro new
    cases new <;> rfl
  have hdrain : ∀ (m : Mem) cond, (m.drainIf cond).sent.effects.map (.onFile v.file) =
      (m.drainIf cond).sent.effects := by
    intro m cond
    cases cond <;> rfl
  have heffects : (v.outcome X cfg (.ingest clk events)).effects =
      appendEffects v.file ((v.newEvents X clk events).map (·.event)) ++
        ((v.accept X clk (v.newEvents X clk events)).drainFull cfg).effects := by
    rw [outcome, hout, acceptAndDrain, Outcome.andThen]
    rw [map_append, happend, hdrain]
    rfl
  refine ⟨heffects, ?_⟩
  have hmem : (v.outcome X cfg (.ingest clk events)).mem =
      ((v.accept X clk (v.newEvents X clk events)).drainFull cfg).mem := by
    rw [outcome, hout]
    rfl
  refine Node.ext ?_ ?_ ?_
  · show Outcome.state _ v.state = Outcome.state _ _
    rw [Outcome.state, Outcome.state, heffects, hmem, Disk.applyAll_append]
    rfl
  · show (if (v.outcome X cfg (.ingest clk events)).mem.activeId = _ then v.file else _) = _
    rw [hmem]
    rfl
  · show v.dropped.filter
      (fun d => (v.outcome X cfg (.ingest clk events)).mem.manifest.lastSealedWalId < d.1) = _
    rw [hmem]
    rfl

/-- A request keeps it in order, and its new events are there once they are appended. -/
theorem Ok.ingest (h : v.Ok) (hD : ∀ {c c'}, D (c + c') → D c) (hd : Holds X cfg D c v.state.disk)
    (clk : IngestClock) (events : List UsageEvent) :
    (∀ k, Holds X cfg D (if k = 0 then c else c + ↑((Op.ingest clk events).accepts X v.state))
        (v.state.disk.applyAll ((v.outcome X cfg (.ingest clk events)).effects.take k))) ∧
      Holds X cfg D (c + ↑((Op.ingest clk events).accepts X v.state))
        (v.after (v.outcome X cfg (.ingest clk events))).state.disk ∧
        (v.after (v.outcome X cfg (.ingest clk events))).Ok := by
  obtain ⟨hd', h'⟩ := h.accept (v.newEvents X clk events) hD hd clk
    fun e he => accepts_positive (.ingest clk events) he
  have hrest : (v.accept X clk (v.newEvents X clk events)).Keeps X cfg D _ _ := h'.drainIf hd'
    (cfg.maxMemtableSizeBytes <
      (v.accept X clk (v.newEvents X clk events)).state.mem.memtable.approxSizeBytes)
  obtain ⟨heffects, hafter⟩ := outcome_ingest X cfg v clk events
  rw [hafter]
  refine ⟨fun k => ?_, hrest.prefixes.all, hrest.ok⟩
  rw [heffects]
  exact hd.append_prefix hrest.prefixes k

end Node

/-! ### Runs -/

/-- The database is in order but for what was dropped, and holds `c`. -/
def NodeSys.Ok (X : Extern) (cfg : Config) (D : Multiset UsageEvent → Prop)
    (c : Multiset UsageEvent) : NodeSys → Prop
  | .up v => Holds X cfg D c v.state.disk ∧ v.Ok
  | .down d => Holds X cfg D c d

/-- The first message that waits was drained before the first rotation that failed. -/
def Node.FlushesUndropped (v : Node) : Prop :=
  ∀ msg ∈ v.state.mem.queue.head?, ∀ d ∈ v.dropped, msg.sealedWalId < d.1

/-- A flush is only begun on such a message. -/
def FaultLabel.FlushesUndropped (sys : NodeSys) : FaultLabel RotateFault → Prop
  | .sound (.run (.flush ..)) | .sound (.cut (.flush ..) _) => ∀ v, sys = .up v → v.FlushesUndropped
  | _ => True

/-- **Every step keeps the database in order**, rotations that fail among them. -/
theorem NodeSys.Ok.step (hD : ∀ {c c'}, D (c + c') → D c) {a b : NodeSys × Multiset UsageEvent}
    {l : FaultLabel RotateFault} (h : a.1.Ok X cfg D a.2) (hcomp : l.Compacts → D = DistinctIds)
    (hflush : l.FlushesUndropped a.1) (hstep : NodeStep X cfg a l b) : b.1.Ok X cfg D b.2 := by
  have hnone : ∀ c : Multiset UsageEvent, c + ↑([] : List UsageEvent) = c := by simp
  cases hstep with
  | @run v c op hfresh =>
    obtain ⟨hd, hok⟩ := h
    by_cases hop : ∀ clk events, op ≠ .ingest clk events
    · have hkeep := hok.op hd hfresh hcomp hop fun uuid clk heq => by
        subst heq
        exact hflush v rfl
      rw [accepts_eq_nil hop, hnone]
      exact ⟨hkeep.prefixes.all, hkeep.ok⟩
    · push Not at hop
      obtain ⟨clk, events, rfl⟩ := hop
      exact (hok.ingest hD hd clk events).2
  | @cut v c op k hfresh =>
    obtain ⟨hd, hok⟩ := h
    by_cases hop : ∀ clk events, op ≠ .ingest clk events
    · have hkeep := hok.op hd hfresh hcomp hop fun uuid clk heq => by
        subst heq
        exact hflush v rfl
      rw [accepts_eq_nil hop, hnone, ite_self]
      exact hkeep.prefixes k
    · push Not at hop
      obtain ⟨clk, events, rfl⟩ := hop
      exact (hok.ingest hD hd clk events).1 k
  | restart now clk =>
    obtain ⟨hpre, hmem⟩ := restart_ok h now clk
    refine ⟨hpre.all, hmem.congr rfl rfl withDropped_nil ?_, le_rfl, fun d hd => absurd hd not_mem_nil⟩
    exact List.Perm.of_eq (append_nil _)
  | cutRestart now clk k => exact (restart_ok h now clk).1 k
  | failedDrain at_ _ => exact ⟨h.1, h.2.failDrain at_⟩
  | @failedIngest v c clk events at_ _ =>
    obtain ⟨hd', h'⟩ := h.2.accept (v.newEvents X clk events) hD h.1 clk
      fun e he => accepts_positive (.ingest clk events) he
    exact ⟨hd', h'.failDrain at_⟩

/-- The database is in order after every run in which flushes are only begun on messages drained
before a failure. -/
theorem NodeSys.ok_run (hD : ∀ {c c'}, D (c + c') → D c) {ls : List (FaultLabel RotateFault)}
    {b : NodeSys × Multiset UsageEvent}
    (hrun : Run (fun a l b => NodeStep X cfg a l b ∧ l.FlushesUndropped a.1) (.down .empty, 0) ls b)
    (hcomp : ∀ l ∈ ls, l.Compacts → D = DistinctIds) : b.1.Ok X cfg D b.2 := by
  induction hrun with
  | nil => exact sysOk_empty
  | @snoc _ _ ls l _ hstep ih =>
    exact (ih fun l hl => hcomp l (by simp [hl])).step hD (hcomp l (by simp)) hstep.2 hstep.1

/-! ### What a flush deletes -/

section Flush

variable {v : Node} {msg : FlushMessage} {rest : List FlushMessage} {e : UsageEvent}

/-- The first message and what was dropped in its stretch of the log. -/
theorem Node.Ok.first (h : v.Ok) (hq : v.state.mem.queue = msg :: rest) :
    v.state.mem.manifest.lastSealedWalId < msg.sealedWalId ∧
      (msg.events ++ v.dropped.slice v.state.mem.manifest.lastSealedWalId msg.sealedWalId).Perm
        (v.state.disk.wal.slice v.state.mem.manifest.lastSealedWalId msg.sealedWalId) ∧
      Covers v.state.disk.wal v.file msg.sealedWalId (withDropped v.dropped msg.sealedWalId rest)
        v.shadow.mem.memtable.events := by
  have hcov := h.mem.covers
  rw [show v.shadow.mem.queue = withDropped v.dropped v.state.mem.manifest.lastSealedWalId
    v.state.mem.queue from rfl, hq, withDropped] at hcov
  exact hcov

/-- The dropped events of the first message's stretch of the log are nowhere else. -/
theorem Node.Ok.dropped_once (h : v.Ok) (hd : Holds X cfg DistinctIds c v.state.disk)
    (hc : DistinctIds c) (hq : v.state.mem.queue = msg :: rest)
    (he : e ∈ v.dropped.slice v.state.mem.manifest.lastSealedWalId msg.sealedWalId) :
    e ∉ v.state.disk.rawEvents v.state.mem.manifest ∧ e ∉ msg.events ∧
      e ∉ v.state.disk.walEvents msg.sealedWalId := by
  obtain ⟨hlt, hev, hcov⟩ := h.first hq
  have hlast : ∀ id ∈ v.state.disk.wal.ids, id ≤ v.file := h.mem.last
  have hwal : (v.state.disk.walEvents v.state.mem.manifest.lastSealedWalId).Perm (msg.events ++
      (v.dropped.slice v.state.mem.manifest.lastSealedWalId msg.sealedWalId ++
          v.state.disk.walEvents msg.sealedWalId)) := by
    rw [Disk.walEvents, Disk.walEvents, WalDir.flatMap_after hlast, WalDir.flatMap_after hlast,
      WalDir.slice_append hd.1.sorted hlt.le hcov.lt_active.le, ← append_assoc]
    exact hev.symm.append_right _
  have hcontent := hd.2 hc
  rw [Disk.content, show v.state.disk.loadManifest = v.state.mem.manifest from h.mem.loadManifest]
    at hcontent
  have hids : ((v.state.disk.rawEvents v.state.mem.manifest ++ (msg.events ++
      (v.dropped.slice v.state.mem.manifest.lastSealedWalId msg.sealedWalId ++
        v.state.disk.walEvents msg.sealedWalId))).map (·.eventId)).Nodup := by
    rw [DistinctIds, ← hcontent, Multiset.map_coe, Multiset.coe_nodup] at hc
    exact ((hwal.append_left _).map _).nodup_iff.1 hc
  have hnodup := List.Nodup.of_map _ hids
  rw [nodup_append', nodup_append', nodup_append'] at hnodup
  obtain ⟨-, ⟨-, ⟨-, -, hlater⟩, hmsg⟩, hraw⟩ := hnodup
  refine ⟨fun hmem => hraw hmem ?_, fun hmem => hmsg hmem (mem_append_left _ he),
    fun hmem => hlater he hmem⟩
  exact mem_append_right _ (mem_append_left _ he)

/-- What is on the disk once the first message is flushed: the segments there were, the message,
and the log above its seal. -/
theorem Node.Ok.durable_flush (h : v.Ok) (hq : v.state.mem.queue = msg :: rest)
    (hne : msg.events ≠ []) (clk : ℕ → ℤ) (hfresh : (Op.flush uuid clk).Fresh v.state)
    (he : ((flushNext X uuid clk v.state).state v.state).disk.Durable e) :
    e ∈ v.state.disk.rawEvents v.state.mem.manifest ∨ e ∈ msg.events ∨
      e ∈ v.state.disk.walEvents msg.sealedWalId := by
  obtain ⟨hlt, -, -⟩ := h.first hq
  have hnew := newNames_of_unused hfresh.1 hfresh.2
  have hag := agree_applyAll (flush_unlisted (X := X) (s := v.shadow) h.mem hnew msg.events)
  have hfiles := filesOk_segmentEffects (X := X) v.state.disk hnew.injective
    v.state.mem.manifest.buckets msg.events
  have hwal :
      (v.state.disk.applyAll (segmentEffects X (flushSegments X uuid v.state.mem.manifest.buckets
        msg.events))).wal =
      v.state.disk.wal := hag.wal
  have hrows :
      (v.state.disk.applyAll (segmentEffects X (flushSegments X uuid v.state.mem.manifest.buckets
      msg.events))).rawEvents v.state.mem.manifest = v.state.disk.rawEvents v.state.mem.manifest := by
    refine rawEvents_congr fun m hm => hag.seg _ ?_
    rw [h.mem.loadManifest]
    exact mem_map_of_mem hm
  have hflush := rawEvents_flush (X := X) (m := v.state.mem.manifest) msg.sealedWalId hfiles
  have hseal :
      ∀ metas, (v.state.mem.manifest.commitFlush metas msg.sealedWalId).saved.lastSealedWalId =
          msg.sealedWalId := by
    intro metas
    simp [Manifest.commitFlush, hlt]
  rw [flushNext_of_events X hq hne, Outcome.state] at he
  rw [Disk.applyAll_append, Disk.applyAll_cons] at he
  generalize v.state.disk.applyAll
    (segmentEffects X (flushSegments X uuid v.state.mem.manifest.buckets msg.events)) = d
    at hwal hrows hflush he
  rw [← hwal, show d.wal = (d.apply (.manifestSave (v.state.mem.manifest.commitFlush
      ((flushSegments X uuid v.state.mem.manifest.buckets msg.events).map (·.1))
        msg.sealedWalId).saved)).wal from rfl,
    deleteThroughEffects_applyAll, Disk.durable_iff, Disk.content, Multiset.mem_coe, mem_append] at he
  rcases he with he | he
  · rw [or_assoc.symm, ← mem_append, ← hrows]
    exact .inl (hflush.mem_iff.1 he)
  · refine .inr (.inr ?_)
    obtain ⟨f, hf, hfe⟩ := mem_flatMap.1 he
    obtain ⟨hf, hlt'⟩ := mem_filter.1 hf
    refine mem_flatMap.2 ⟨f, mem_filter.2 ⟨hwal ▸ mem_of_mem_filter hf, ?_⟩, hfe⟩
    rw [← hseal ((flushSegments X uuid v.state.mem.manifest.buckets msg.events).map (·.1))]
    exact hlt'

/-- **A flush loses what was dropped** in the stretch of the log that it seals. -/
theorem Node.Ok.flush_loses (h : v.Ok) (hd : Holds X cfg DistinctIds c v.state.disk)
    (hc : DistinctIds c)
    (hq : v.state.mem.queue = msg :: rest) (hne : msg.events ≠ []) (clk : ℕ → ℤ)
    (hfresh : (Op.flush uuid clk).Fresh v.state)
    (he : e ∈ v.dropped.slice v.state.mem.manifest.lastSealedWalId msg.sealedWalId) :
    e ∉ (v.after (v.outcome X cfg (.flush uuid clk))).state.mem.memtable.events ∧
      ¬ (v.after (v.outcome X cfg (.flush uuid clk))).state.disk.Durable e := by
  obtain ⟨hraw, hmsg, hlater⟩ := h.dropped_once hd hc hq he
  have hout : v.outcome X cfg (.flush uuid clk) = flushNext X uuid clk v.state := by
    rw [outcome, map_onFile v.state (by simp)]
    rfl
  rw [hout]
  constructor
  · intro hmem
    have hmem : e ∈ v.state.mem.memtable.events := by
      rw [after, flushNext_of_events X hq hne] at hmem
      exact hmem
    have hlast : ∀ id ∈ v.state.disk.wal.ids, id ≤ v.file := h.mem.last
    refine hlater ?_
    rw [Disk.walEvents, WalDir.flatMap_after hlast, ← ((h.first hq).2.2.flatten hd.1.sorted).mem_iff]
    exact mem_append_right _ (mem_append_left _ hmem)
  · intro hdurable
    rcases h.durable_flush hq hne clk hfresh hdurable with hmem | hmem | hmem
    · exact hraw hmem
    · exact hmsg hmem
    · exact hlater hmem

end Flush

/-- **What a failed rotation loses.** In every run, with any number of rotations that fail at any
step, in which no message is flushed that was drained after a failure since the last start,
every event that was accepted into the log is in a listed segment or in a log file above the
seal, in every state; so what failed rotations have dropped is there. (Compaction drops events
that repeat an id, so with it the ids have to be different.) In such a state the flush of a
message drained after a failure loses what the failed rotation had dropped: it is not in the
memtable, in no listed segment and in no log file above the seal. -/
theorem failed_rotation_keeps_dropped (X : Extern) (cfg : Config) :
    (∀ (ls : List (FaultLabel RotateFault)) (sys : NodeSys) (c : Multiset UsageEvent),
      Run (fun a l b => NodeStep X cfg a l b ∧ l.FlushesUndropped a.1) (.down .empty, 0) ls (sys, c) →
      ((∀ l ∈ ls, ¬ l.Compacts) ∨ DistinctIds c) → ∀ e ∈ c, sys.disk.Durable e) ∧
    ∀ (ls : List (FaultLabel RotateFault)) (v : Node) (c : Multiset UsageEvent) (msg : FlushMessage)
      (uuid : ℕ → String) (clk : ℕ → ℤ),
      Run (fun a l b => NodeStep X cfg a l b ∧ l.FlushesUndropped a.1) (.down .empty, 0) ls (.up v, c) →
      DistinctIds c → v.state.mem.queue.head? = some msg → msg.events ≠ [] →
      (Op.flush uuid clk).Fresh v.state → ∀ d ∈ v.dropped, d.1 ≤ msg.sealedWalId → ∀ e ∈ d.2,
        e ∉ (v.after (v.outcome X cfg (.flush uuid clk))).state.mem.memtable.events ∧
          ¬ (v.after (v.outcome X cfg (.flush uuid clk))).state.disk.Durable e := by
  constructor
  · intro ls sys c hrun hids e he
    have hcontent : sys.disk.content = c := by
      rcases hids with hcomp | hids
      · have hok := NodeSys.ok_run (D := fun _ => True) (fun _ => trivial) hrun
          fun l hl h => absurd h (hcomp l hl)
        cases sys with
        | up v => exact hok.1.2 trivial
        | down d => exact hok.2 trivial
      · have hok := NodeSys.ok_run DistinctIds.left hrun fun l hl _ => rfl
        cases sys with
        | up v => exact hok.1.2 hids
        | down d => exact hok.2 hids
    rw [Disk.durable_iff, hcontent]
    exact he
  · intro ls v c msg uuid clk hrun hc hhead hne hfresh d hd hle e he
    obtain ⟨hholds, hok⟩ := NodeSys.ok_run DistinctIds.left hrun fun l hl _ => rfl
    obtain ⟨rest, hq⟩ := List.head?_eq_some_iff.1 hhead
    refine hok.flush_loses hholds hc hq hne clk hfresh (mem_flatMap.2 ⟨d, mem_filter.2 ⟨hd, ?_⟩, he⟩)
    rw [Bool.and_eq_true, decide_eq_true_eq, decide_eq_true_eq]
    exact ⟨(hok.dropped d hd).1, hle⟩

/-! ### Concrete failures -/

/-- A name stays unused by an operation that only works on the log. -/
theorem Node.unused_onLog {v : Node} {op : Op} (h : v.state.Unused id)
    (ho : (op.outcome X cfg v.state).OnLog v.state) :
      (v.after (v.outcome X cfg op)).state.Unused id := by
  refine State.Unused.onLog h ⟨ho.manifest, fun x hx => ?_⟩
  obtain ⟨y, hy, rfl⟩ := mem_map.1 hx
  have hlog := ho.effects y hy
  cases y with
  | walAppend | walCreate | walDelete => trivial
  | _ => cases hlog

/-- Nor does a failed rotation use one. -/
theorem Node.unused_failDrain {v : Node} (h : v.state.Unused id) (at_ : RotateStep) :
    (v.failDrain at_).state.Unused id := ⟨h.seg, h.idx, h.rseg, h.manifest⟩

/-- Nor do events that are appended. -/
theorem Node.unused_accept {v : Node} (h : v.state.Unused id) (clk : IngestClock)
    (new : List Classified) :
    (v.accept X clk new).state.Unused id := by
  refine State.Unused.onLog (o := ⟨appendEffects v.file (new.map (·.event)),
    v.state.mem.accept X clk new⟩) h
    ⟨rfl, fun x hx => ?_⟩
  dsimp only [appendEffects] at hx
  split at hx
  · cases hx
  · rw [mem_singleton.1 hx]
    trivial

/-- A server that has accepted two events, … -/
def acceptedNode : Node :=
  let start := restart .sample sampleConfig 8000000 (fun _ => 8000000) .empty
  let started : Node := ⟨⟨Disk.empty.applyAll start.effects, start.mem⟩, start.mem.activeId, []⟩
  started.after (started.outcome .sample sampleConfig (.ingest sampleClock twoEvents))

/-- … whose drain has failed, and that has then accepted and drained a third. -/
def redrainedNode (at_ : RotateStep) : Node :=
  let failed := acceptedNode.failDrain at_
  let accepted := failed.after (failed.outcome .sample sampleConfig
    (.ingest sampleClock [sampleEvent "c" "acme" 7200000 1]))
  accepted.after (accepted.outcome .sample sampleConfig .drain)

/-- How it came there. -/
def redrains (at_ : RotateStep) : List (FaultLabel RotateFault) :=
  [.sound (.restart 8000000 fun _ => 8000000), .sound (.run (.ingest sampleClock twoEvents)),
    .fault (.drain at_),
    .sound (.run (.ingest sampleClock [sampleEvent "c" "acme" 7200000 1])), .sound (.run .drain)]

/-- The message that waits. -/
def redrainedMessage (at_ : RotateStep) : FlushMessage :=
  ⟨[(sampleEvent "c" "acme" 7200000 1).stamp sampleClock.now], at_.activeId 1⟩

theorem run_redrains (at_ : RotateStep) :
    ∃ c,
      Run (fun a l b => NodeStep .sample sampleConfig a l b ∧ l.FlushesUndropped a.1)
        (.down .empty, 0)
        (redrains at_) (.up (redrainedNode at_), c) ∧
        c = ↑(drainedMessage.events ++ (redrainedMessage at_).events) := by
  have hstart :
      Run (fun a l b => NodeStep .sample sampleConfig a l b ∧ l.FlushesUndropped a.1)
        (.down .empty, 0)
      [.sound (.restart 8000000 fun _ => 8000000)] _ := .single ⟨.restart _ _, trivial⟩
  have hingest := hstart.snoc ⟨.run (show Op.Fresh _ (.ingest sampleClock twoEvents) from trivial),
    trivial⟩
  have hfail := hingest.snoc ⟨.failedDrain at_ (by decide +kernel), trivial⟩
  have hmore := hfail.snoc
    ⟨.run (show Op.Fresh _ (.ingest sampleClock [sampleEvent "c" "acme" 7200000 1]) from trivial),
      trivial⟩
  refine ⟨_, hmore.snoc ⟨.run (show Op.Fresh _ .drain from trivial), trivial⟩, ?_⟩
  cases at_ <;> decide +kernel

theorem unused_redrainedNode (at_ : RotateStep) (id : String) :
    (redrainedNode at_).state.Unused id := by
  have haccepted : acceptedNode.state.Unused id :=
    Node.unused_onLog (unused_restart_empty _ _ _ _ _) (onLog_ingest _ _ _)
  exact Node.unused_onLog (Node.unused_onLog (Node.unused_failDrain haccepted at_)
    (onLog_ingest _ _ _)) (onLog_drainIf _ _)

theorem queue_redrainedNode (at_ : RotateStep) :
    (redrainedNode at_).state.mem.queue = [redrainedMessage at_] ∧
      (redrainedNode at_).dropped = [(1, drainedMessage.events)] := by
  cases at_ <;> decide +kernel

/-- The server stops before it flushes the message and starts again: the dropped events are
there. If it flushes the message, they are not. -/
theorem failed_rotation_keeps_dropped_of_restart :
    (∃ sys c, Run (fun a l b => NodeStep .sample sampleConfig a l b ∧ l.FlushesUndropped a.1)
      (.down .empty, 0)
        (redrains .sync ++ [.sound (.cut .drain 0)] ++
          [.sound (.restart 9500000 fun _ => 9500000)]) (sys, c) ∧
      ∀ e ∈ drainedMessage.events, sys.disk.Durable e) ∧
    ∀ e ∈ drainedMessage.events,
      let v := redrainedNode .openNext
      ¬ (v.after (v.outcome .sample sampleConfig
          (.flush evenUuid fun _ => 9000000))).state.disk.Durable e := by
  obtain ⟨hkeeps, hloses⟩ := failed_rotation_keeps_dropped .sample sampleConfig
  constructor
  · obtain ⟨c, hrun, rfl⟩ := run_redrains .sync
    have hstop := hrun.snoc ⟨.cut 0 (show Op.Fresh _ .drain from trivial), trivial⟩
    have hagain := hstop.snoc ⟨.restart 9500000 fun _ => 9500000, trivial⟩
    refine ⟨_, _, hagain,
      fun e he => hkeeps _ _ _ hagain (.inl ?_) e (Multiset.mem_coe.2 (mem_append_left _ he))⟩
    simp [redrains, FaultLabel.Compacts, Label.Compacts, Op.Compacts]
  · intro e he
    obtain ⟨c, hrun, rfl⟩ := run_redrains .openNext
    obtain ⟨hq, hdropped⟩ := queue_redrainedNode .openNext
    refine (hloses _ _ _ (redrainedMessage .openNext) _ _ hrun (by rw [DistinctIds]; decide +kernel)
      (by rw [hq]; rfl) (by decide)
      ⟨fun n => unused_redrainedNode _ _, evenUuid_injective⟩ (1, drainedMessage.events) ?_
        (by decide) e he).2
    rw [hdropped]
    exact mem_singleton_self _

/-- **Accepted events that a failed rotation loses.** A forced drain fails to sync the log file,
or a request to open the next one; the next message is flushed, and the events of the failed
drain are in no listed segment, in no log file above the seal and not in the memtable. -/
theorem failed_rotation_loses_dropped :
    (∃ v c, Run (NodeStep .sample sampleConfig) (.down .empty, 0)
        (redrains .sync ++ [.sound (.run (.flush evenUuid fun _ => 9000000))]) (.up v, c) ∧
      ∃ e ∈ c, e ∉ v.state.mem.memtable.events ∧ v.state.mem.queue = [] ∧ ¬ v.state.disk.Durable e) ∧
    ∃ v c, Run (NodeStep .sample tinyConfig) (.down .empty, 0)
        [.sound (.restart 8000000 fun _ => 8000000), .fault (.ingest sampleClock twoEvents .openNext),
          .sound (.run (.ingest sampleClock [sampleEvent "c" "acme" 7200000 1])),
          .sound (.run (.flush evenUuid fun _ => 9000000))] (.up v, c) ∧
      ∃ e ∈ c, e ∉ v.state.mem.memtable.events ∧ v.state.mem.queue = [] ∧ ¬ v.state.disk.Durable e := by
  constructor
  · obtain ⟨c, hrun, rfl⟩ := run_redrains .sync
    have hflush := (hrun.mono fun _ _ _ h => h.1).snoc
      (.run (show Op.Fresh _ (.flush evenUuid fun _ => 9000000) from
        ⟨fun n => unused_redrainedNode _ _, evenUuid_injective⟩))
    refine ⟨_, _, hflush, (sampleEvent "a" "bolt" 7200000 5).stamp sampleClock.now,
      by decide +kernel, by decide +kernel, by decide +kernel, ?_⟩
    rw [Disk.durable_iff]
    decide +kernel
  · have hstart : Run (NodeStep .sample tinyConfig) (.down .empty, 0)
        [.sound (.restart 8000000 fun _ => 8000000)] _ := .single (.restart _ _)
    have hfail := hstart.snoc (.failedIngest sampleClock twoEvents .openNext (by decide +kernel))
    have hmore := hfail.snoc
      (.run (show Op.Fresh _ (.ingest sampleClock [sampleEvent "c" "acme" 7200000 1]) from trivial))
    have hflush := hmore.snoc (.run (show Op.Fresh _ (.flush evenUuid fun _ => 9000000) from
      ⟨fun n => Node.unused_onLog (Node.unused_failDrain
        (Node.unused_accept (unused_restart_empty _ _ _ _ _) _ _) _)
        (onLog_ingest _ _ _), evenUuid_injective⟩))
    refine ⟨_, _, hflush, (sampleEvent "a" "bolt" 7200000 5).stamp sampleClock.now,
      by decide +kernel, by decide +kernel, by decide +kernel, ?_⟩
    rw [Disk.durable_iff]
    decide +kernel

end UsageDb
