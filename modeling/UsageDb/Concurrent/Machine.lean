import UsageDb.Runtime.Preserve

/-!
# The server as concurrent parties

The operations of `Runtime.System` run one after another. In the server they do not: request
handlers, the flusher and the rollup worker share the state under locks, and what one of them
does between two locks can be interleaved with the others. This module cuts each party at the
places where it holds no lock.

* A **request** runs its critical section in one step. A batch that it drains there is sent to
  the flusher only after the locks are released, so between the two the batch is *held*; the
  client is answered after the send.
* The **flusher** takes a message from the channel, writes its segments file by file, commits
  them and the seal under the manifest's lock, and deletes log files one by one.
* The **rollup worker** reads the manifest, the id of the active log file, the age of the
  memtable and its oldest event, each under a lock of its own; then it scans, and commits.

`Machine.next` is the step function; it is `none` when a party is not at the place the action
is for. No party meets an I/O error. `acked` and `clock` are bookkeeping that no party reads:
the events whose acceptance a client has been told, and the last reading of the clock.
-/

namespace UsageDb

open Lib

/-- Who drained a batch. -/
inductive Party where
  | request (id : ℕ)
  /-- The rollup worker. -/
  | rollup
  deriving DecidableEq

/-- Where the flusher is. -/
inductive FlushPhase where
  /-- It waits for a message. -/
  | idle
  /-- It writes the segments of a message; `todo` is left to write. -/
  | writing (msg : FlushMessage) (metas : List SegmentMeta) (todo : List Effect)
  /-- It has committed and deletes log files. -/
  | deleting (ids : List ℕ)

/-- The message the flusher has taken and not committed. -/
def FlushPhase.current : FlushPhase → List FlushMessage
  | .writing msg _ _ => [msg]
  | _ => []

/-- Where a tick of the rollup worker is. -/
inductive TickPhase where
  /-- Between two ticks. -/
  | idle
  /-- The manifest has been read. -/
  | snapshot (now : ℤ) (snap : TickSnapshot)
  /-- The active log file is the one after the seal. -/
  | sealed (now : ℤ) (snap : TickSnapshot)
  /-- The memtable was found too old. -/
  | stale
  /-- It has been drained, and the batch is held. -/
  | sending
  /-- The memtable was found young enough. -/
  | fresh (now : ℤ) (snap : TickSnapshot)
  /-- The target is known, and above the watermark. -/
  | target (snap : TickSnapshot) (target : ℤ)
  /-- The rollup segments are written. -/
  | scanned (segs : List (SegmentMeta × List HourlyRollupRecord)) (target : ℤ)

/-- The running server. -/
structure Machine where
  /-- The disk, and the memory with the channel to the flusher. -/
  state : State
  /-- The requests that have not been answered, with the events they accepted. -/
  requests : List (ℕ × List UsageEvent)
  /-- The id of the next request. -/
  nextRequest : ℕ
  /-- The batches that have been drained and not sent, in the order of their drains. -/
  held : List (Party × FlushMessage)
  flusher : FlushPhase
  /-- The rollup worker. -/
  ticker : TickPhase
  /-- The events whose acceptance has been answered. -/
  acked : List UsageEvent
  /-- The last reading of the clock. -/
  clock : ℤ

/-- What a party does next. -/
inductive Action where
  /-- A request's critical section, at time `at_`. -/
  | ingest (at_ : ℤ) (clk : IngestClock) (events : List UsageEvent)
  /-- The `i`-th held batch is sent. -/
  | send (i : ℕ)
  /-- The `i`-th open request is answered. -/
  | respond (i : ℕ)
  /-- The flusher takes a message; these are the names it draws. -/
  | take (uuid : ℕ → String)
  /-- The flusher writes a file. -/
  | write
  /-- The flusher commits. -/
  | commit
  /-- The flusher deletes a log file, or is done with it. -/
  | delete
  /-- A tick starts: the manifest is read. It has read the time `now` before. -/
  | tickStart (now : ℤ)
  /-- The active log id is read. -/
  | tickActive
  /-- The age of the memtable is read. -/
  | tickAge
  /-- The memtable is drained. -/
  | tickDrain
  /-- The oldest event of the memtable is read. -/
  | tickTarget
  /-- The raw segments are scanned and rollup segments written. -/
  | tickScan (uuid : ℤ → ℕ → String)
  /-- The rollups are committed. -/
  | tickCommit

namespace Machine

variable (X : Extern) (cfg : Config)

/-- The state with another memory and further durable steps. -/
def after (m : Machine) (o : Outcome) : Machine := { m with state := o.state m.state }

/-- A request's critical section. Nothing here changes the closed periods, so that it does
not matter when the request has read them. -/
def ingest (at_ : ℤ) (clk : IngestClock) (events : List UsageEvent) (m : Machine) : Machine :=
  let r := ingestCriticalSection X cfg clk m.state
    (classifiedEvents X m.state.mem.manifest.closedPeriods clk.now events)
  { m.after r.1 with
    requests := m.requests ++ [(m.nextRequest, r.2.2.newEvents.map (·.event))]
    nextRequest := m.nextRequest + 1
    held := m.held ++ (r.2.1.map fun msg => (Party.request m.nextRequest, msg)).toList
    clock := at_ }

/-- A held batch goes to the channel. -/
def send (i : ℕ) (m : Machine) : Option Machine :=
  m.held[i]?.map fun h =>
    { m with
      state := { m.state with mem := m.state.mem.send h.2 }
      held := m.held.eraseIdx i
      ticker := if h.1 = .rollup then .idle else m.ticker }

/-- A request is answered once it holds no batch. -/
def respond (i : ℕ) (m : Machine) : Option Machine :=
  match m.requests[i]? with
  | some (id, accepted) =>
    if (m.held.any fun h => h.1 = .request id) then none
    else some { m with requests := m.requests.eraseIdx i, acked := m.acked ++ accepted }
  | none => none

/-- The flusher takes a message; one without events is dropped. -/
def take (uuid : ℕ → String) (m : Machine) : Option Machine :=
  match m.flusher, m.state.mem.queue with
  | .idle, msg :: rest =>
    let m' := { m with state := { m.state with mem := { m.state.mem with queue := rest } } }
    if msg.events.isEmpty then some m'
    else
      let segs := flushSegments X uuid m.state.mem.manifest.buckets msg.events
      some { m' with flusher := .writing msg (segs.map (·.1)) (segmentEffects X segs) }
  | _, _ => none

/-- The next file of a message is written. -/
def write (m : Machine) : Option Machine :=
  match m.flusher with
  | .writing msg metas (x :: todo) =>
    some { m.after ⟨[x], m.state.mem⟩ with flusher := .writing msg metas todo }
  | _ => none

/-- The segments of a message and its seal are committed. The log files to delete are listed
right after it; between the two only files above the seal can be added. -/
def commit (m : Machine) : Option Machine :=
  match m.flusher with
  | .writing msg metas [] =>
    let manifest := (m.state.mem.manifest.commitFlush metas msg.sealedWalId).saved
    some { m.after ⟨[.manifestSave manifest], { m.state.mem with manifest }⟩ with
      flusher := .deleting (m.state.disk.wal.ids.filter fun id => id ≤ msg.sealedWalId) }
  | _ => none

/-- The next log file is deleted. -/
def delete (m : Machine) : Option Machine :=
  match m.flusher with
  | .deleting (id :: ids) => some { m.after ⟨[.walDelete id],
      m.state.mem⟩ with flusher := .deleting ids }
  | .deleting [] => some { m with flusher := .idle }
  | _ => none

/-- A tick starts. -/
def tickStart (now : ℤ) (m : Machine) : Option Machine :=
  match m.ticker with
  | .idle => some { m with ticker := .snapshot now m.state.mem.manifest.tickSnapshot, clock := now }
  | _ => none

/-- The tick ends here when a sealed log file is not committed. -/
def tickActive (m : Machine) : Option Machine :=
  match m.ticker with
  | .snapshot now snap =>
    some { m with ticker := if snap.inFlight m.state.mem.activeId then .idle else .sealed now snap }
  | _ => none

/-- The age of the memtable. -/
def tickAge (m : Machine) : Option Machine :=
  match m.ticker with
  | .sealed now snap =>
    some { m with
      ticker := if needsForceDrain cfg now m.state.mem.memtable then .stale else .fresh now snap }
  | _ => none

/-- `force_drain_memtable` under its locks; there may be nothing left to drain. -/
def tickDrain (m : Machine) : Option Machine :=
  match m.ticker with
  | .stale =>
    let r := forceDrain m.state
    some { m.after ⟨r.effects, r.mem⟩ with
      held := m.held ++ (r.msg.map fun msg => (Party.rollup, msg)).toList
      ticker := if r.msg.isSome then .sending else .idle }
  | _ => none

/-- The target of the tick, which ends here when it is not above the watermark. -/
def tickTarget (m : Machine) : Option Machine :=
  match m.ticker with
  | .fresh now snap =>
    let target := targetHour cfg now m.state.mem.memtable.minEventTimestampMs
    some { m with ticker := if target ≤ snap.start then .idle else .target snap target }
  | _ => none

/-- The scan: the files of the snapshot do not change, so it can be one step. -/
def tickScan (uuid : ℤ → ℕ → String) (m : Machine) : Option Machine :=
  match m.ticker with
  | .target snap target =>
    let segs := newRollups X m.state.disk snap uuid snap.start target
    some { m.after ⟨rollupEffects segs, m.state.mem⟩ with ticker := .scanned segs target }
  | _ => none

/-- The rollups and the watermark are committed. -/
def tickCommit (m : Machine) : Option Machine :=
  match m.ticker with
  | .scanned segs target =>
    let manifest := (m.state.mem.manifest.commitRollup (segs.map (·.1)) target).saved
    some { m.after ⟨[.manifestSave manifest], { m.state.mem with manifest }⟩ with ticker := .idle }
  | _ => none

/-- One step of one party. -/
def next (m : Machine) : Action → Option Machine
  | .ingest at_ clk events => some (m.ingest X cfg at_ clk events)
  | .send i => m.send i
  | .respond i => m.respond i
  | .take uuid => m.take X uuid
  | .write => m.write
  | .commit => m.commit
  | .delete => m.delete
  | .tickStart now => m.tickStart now
  | .tickActive => m.tickActive
  | .tickAge => m.tickAge cfg
  | .tickDrain => m.tickDrain
  | .tickTarget => m.tickTarget cfg
  | .tickScan uuid => m.tickScan X uuid
  | .tickCommit => m.tickCommit

end Machine

/-! ### What a step can do -/

namespace Machine

variable {X : Extern} {cfg : Config} {m m' : Machine}

/-- The steps that can be taken: what they find and what they leave. -/
inductive Next (X : Extern) (cfg : Config) (m : Machine) : Action → Machine → Prop where
  | ingest {at_ clk events} : Next X cfg m (.ingest at_ clk events) (m.ingest X cfg at_ clk events)
  | send {i x} : m.held[i]? = some x → Next X cfg m (.send i) { m with
      state := { m.state with mem := m.state.mem.send x.2 }
      held := m.held.eraseIdx i
      ticker := if x.1 = .rollup then .idle else m.ticker }
  | respond {i id accepted} : m.requests[i]? = some (id, accepted) → Next X cfg m (.respond i)
      { m with requests := m.requests.eraseIdx i, acked := m.acked ++ accepted }
  | take {uuid msg rest flusher} : m.flusher = .idle → m.state.mem.queue = msg :: rest →
      (msg.events = [] ∧ flusher = .idle ∨
        flusher =
          .writing msg ((flushSegments X uuid m.state.mem.manifest.buckets msg.events).map (·.1))
          (segmentEffects X (flushSegments X uuid m.state.mem.manifest.buckets msg.events))) →
      Next X cfg m (.take uuid)
        { m with state := { m.state with mem := { m.state.mem with queue := rest } }
                 flusher := flusher }
  | write {msg metas x todo} : m.flusher = .writing msg metas (x :: todo) → Next X cfg m .write
      { m.after ⟨[x], m.state.mem⟩ with flusher := .writing msg metas todo }
  | commit {msg metas manifest} : m.flusher = .writing msg metas [] →
      manifest = (m.state.mem.manifest.commitFlush metas msg.sealedWalId).saved → Next X cfg m .commit
        { m.after ⟨[.manifestSave manifest], { m.state.mem with manifest }⟩ with
          flusher := .deleting (m.state.disk.wal.ids.filter fun id => id ≤ msg.sealedWalId) }
  | delete {id ids} : m.flusher = .deleting (id :: ids) → Next X cfg m .delete
      { m.after ⟨[.walDelete id], m.state.mem⟩ with flusher := .deleting ids }
  | deleted : m.flusher = .deleting [] → Next X cfg m .delete { m with flusher := .idle }
  | tickStart {now} : Next X cfg m (.tickStart now)
      { m with ticker := .snapshot now m.state.mem.manifest.tickSnapshot, clock := now }
  | tickActive {now snap} : m.ticker = .snapshot now snap → Next X cfg m .tickActive
      { m with ticker := if snap.inFlight m.state.mem.activeId then .idle else .sealed now snap }
  | tickAge {now snap} : m.ticker = .sealed now snap → Next X cfg m .tickAge
      { m with
        ticker := if needsForceDrain cfg now m.state.mem.memtable then .stale else .fresh now snap }
  | tickDrain : Next X cfg m .tickDrain
      { m.after ⟨(forceDrain m.state).effects, (forceDrain m.state).mem⟩ with
        held := m.held ++ ((forceDrain m.state).msg.map fun msg => (Party.rollup, msg)).toList
        ticker := if (forceDrain m.state).msg.isSome then .sending else .idle }
  | tickTarget {now snap target} : m.ticker = .fresh now snap →
      target = targetHour cfg now m.state.mem.memtable.minEventTimestampMs → Next X cfg m .tickTarget
        { m with ticker := if target ≤ snap.start then .idle else .target snap target }
  | tickScan {uuid snap target segs} : m.ticker = .target snap target →
      segs = newRollups X m.state.disk snap uuid snap.start target → Next X cfg m (.tickScan uuid)
        { m.after ⟨rollupEffects segs, m.state.mem⟩ with ticker := .scanned segs target }
  | tickCommit {segs target manifest} : m.ticker = .scanned segs target →
      manifest = (m.state.mem.manifest.commitRollup (segs.map (·.1)) target).saved → Next X cfg m
        .tickCommit
        { m.after ⟨[.manifestSave manifest], { m.state.mem with manifest }⟩ with ticker := .idle }

/-- There are no others. -/
theorem next_cases {a : Action} (h : m.next X cfg a = some m') : m.Next X cfg a m' := by
  cases a with
  | ingest at_ clk events => exact Option.some.inj h ▸ .ingest
  | send i =>
    obtain ⟨x, hx, rfl⟩ := Option.map_eq_some_iff.1 h
    exact .send hx
  | respond i =>
    rw [next, respond] at h
    split at h <;> try cases h
    split at h <;> cases h
    exact .respond ‹_›
  | take uuid =>
    rw [next, take] at h
    split at h <;> try cases h
    rename_i hidle hqueue
    split at h <;> cases h
    · rename_i hempty
      convert Next.take hidle hqueue (.inl ⟨List.isEmpty_iff.1 hempty, rfl⟩)
    · exact .take hidle hqueue (.inr rfl)
  | write =>
    rw [next, write] at h
    split at h <;> cases h
    exact .write ‹_›
  | commit =>
    rw [next, commit] at h
    split at h <;> cases h
    exact .commit ‹_› rfl
  | delete =>
    rw [next, delete] at h
    split at h <;> cases h
    · exact .delete ‹_›
    · exact .deleted ‹_›
  | tickStart now =>
    rw [next, tickStart] at h
    split at h <;> cases h
    exact .tickStart
  | tickActive =>
    rw [next, tickActive] at h
    split at h <;> cases h
    exact .tickActive ‹_›
  | tickAge =>
    rw [next, tickAge] at h
    split at h <;> cases h
    exact .tickAge ‹_›
  | tickDrain =>
    rw [next, tickDrain] at h
    split at h <;> cases h
    exact .tickDrain
  | tickTarget =>
    rw [next, tickTarget] at h
    split at h <;> cases h
    exact .tickTarget ‹_› rfl
  | tickScan uuid =>
    rw [next, tickScan] at h
    split at h <;> cases h
    exact .tickScan ‹_› rfl
  | tickCommit =>
    rw [next, tickCommit] at h
    split at h <;> cases h
    exact .tickCommit ‹_› rfl

end Machine

/-- The server as it has just started on a disk. -/
def Machine.start (X : Extern) (cfg : Config) (now : ℤ) (clk : ℕ → ℤ) (d : Disk)
    (acked : List UsageEvent) :
    Machine where
  state := (restart X cfg now clk d).state ⟨d, (restart X cfg now clk d).mem⟩
  requests := []
  nextRequest := 0
  held := []
  flusher := .idle
  ticker := .idle
  acked := acked
  clock := now

/-- The server, running or crashed. -/
inductive Server where
  /-- It runs. -/
  | up (m : Machine)
  /-- There is only the disk; the acknowledgements have been given all the same. -/
  | down (d : Disk) (acked : List UsageEvent)

/-- What happens to the server. -/
inductive Event where
  /-- A party takes a step. -/
  | act (a : Action)
  | crash
  | start (now : ℤ) (clk : ℕ → ℤ)

/-- Names the flusher or a tick draws are new, and different. -/
def Action.Fresh (m : Machine) : Action → Prop
  | .take uuid => NewNames m.state.mem.manifest uuid
  | .tickScan uuid => (∀ h b, m.state.disk.rseg (rollupSegmentId (uuid h b)) = none) ∧
      ∀ h b h' b', uuid h b = uuid h' b' → h = h' ∧ b = b'
  | _ => True

/-- A step of the server. -/
inductive Server.Step (X : Extern) (cfg : Config) : Server → Event → Server → Prop where
  /-- A party takes a step. -/
  | act {m m' : Machine} {a : Action} : a.Fresh m → m.next X cfg a = some m' →
      Server.Step X cfg (.up m) (.act a) (.up m')
  /-- The memory is lost, and with it all requests under way. -/
  | crash {m : Machine} : Server.Step X cfg (.up m) .crash (.down m.state.disk m.acked)
  /-- Recovery. -/
  | start {d : Disk} {acked : List UsageEvent} (now : ℤ) (clk : ℕ → ℤ) :
      Server.Step X cfg (.down d acked) (.start now clk) (.up (.start X cfg now clk d acked))

/-! ### Concrete runs -/

/-- The actions one after another, each checked by `ok` before it is taken. -/
def Machine.runAll (X : Extern) (cfg : Config) (ok : Machine → Action → Bool) : Machine →
    List Action → Option Machine
  | m, [] => some m
  | m, a :: as => if ok m a then (m.next X cfg a).bind fun m' => runAll X cfg ok m' as else none

/-- What `runAll` computes is a run of checked steps. -/
theorem Server.run_runAll {X : Extern} {cfg : Config} {ok : Machine → Action → Bool}
    {P : Server → Event → Prop}
    {as : List Action} (hok : ∀ a ∈ as, ∀ m, ok m a → a.Fresh m ∧ P (.up m) (.act a)) {m m' : Machine}
    (h : m.runAll X cfg ok as = some m') :
    Run (fun s l t => Server.Step X cfg s l t ∧ P s l) (.up m) (as.map .act) (.up m') := by
  induction as generalizing m with
  | nil =>
    cases h
    exact .nil _
  | cons a as ih =>
    rw [Machine.runAll] at h
    split at h
    · rename_i hcheck
      obtain ⟨m₁, hnext, hrest⟩ := Option.bind_eq_some_iff.1 h
      obtain ⟨hfresh, hP⟩ := hok a (by simp) m hcheck
      exact Run.append (.single ⟨.act hfresh hnext, hP⟩)
        (ih (fun a' ha' => hok a' (by simp [ha'])) hrest)
    · cases h

end UsageDb
