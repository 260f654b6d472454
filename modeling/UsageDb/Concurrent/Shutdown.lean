import UsageDb.Concurrent.Workers

/-!
# Stopping the server

`run_server` starts the flusher and two workers as tasks, each with a handle to the shared state,
and serves requests. When the server has returned it drains the memtable and sends the batch,
notifies the workers, drops its own handle and waits for the tasks, the flusher first.

A worker waits for its next tick or for the notification. A notification wakes who waits and is
not stored, so a worker that is in a tick misses it. The flusher ends when its channel is closed:
when nothing is queued and no handle is left, since the sender is a field of the state. But the
flusher has a handle itself. So `run_server` never returns, and a worker that has missed its
notification never stops (`shutdown_never_returns`).
-/

namespace UsageDb

open Lib

/-- The workers. -/
inductive Worker where
  /-- `RollupWorker`. -/
  | rollup
  /-- `CompactionWorker`. -/
  | compaction
  deriving DecidableEq

/-- Who is given a handle to the shared state. -/
inductive Task where
  /-- `run_server` itself. -/
  | main
  /-- The server and its requests. -/
  | server
  | flusher
  | worker (w : Worker)
  deriving DecidableEq

/-- Where `run_server` is. -/
inductive MainPhase where
  /-- The server runs. -/
  | serving
  /-- It has returned, and the memtable is to be drained. -/
  | drain
  /-- The batch is to be sent, held like that of a request `id` that nobody has made. -/
  | send (id : ℕ)
  /-- A worker is to be notified. -/
  | notify (w : Worker)
  /-- The handle is to be dropped. -/
  | dropState
  /-- It waits for the flusher. -/
  | joinFlusher
  /-- It waits for a worker. -/
  | join (w : Worker)
  /-- It has returned. -/
  | returned
  deriving DecidableEq

/-- The worker has been notified. -/
def MainPhase.notified (w : Worker) : MainPhase → Bool
  | .serving | .drain | .send _ | .notify .rollup => false
  | .notify .compaction => w = .rollup
  | _ => true

/-- The flusher's task has been waited for. -/
def MainPhase.joined : MainPhase → Bool
  | .join _ | .returned => true
  | _ => false

/-- Where the loop of a worker is. -/
inductive LoopPhase where
  /-- Before the loop. -/
  | starting
  /-- In `select!`, waiting for the next tick or for the notification. -/
  | waiting
  /-- There, with the notification. -/
  | notified
  | ticking
  /-- After the loop. -/
  | stopped
  deriving DecidableEq

/-- `notify_waiters` is for those who wait. -/
def LoopPhase.notify : LoopPhase → LoopPhase
  | .waiting => .notified
  | p => p

/-- A tick can start: with the notification too, when it is due at the same time. -/
def LoopPhase.ready : LoopPhase → Bool
  | .waiting | .notified => true
  | _ => false

/-- The server's process. -/
structure Process where
  /-- What the tasks work on, and where their work is. -/
  workers : Workers
  /-- `run_server`. -/
  main : MainPhase
  loop : Worker → LoopPhase
  /-- The tasks that have a handle to the shared state. -/
  owners : List Task

/-- What happens next. -/
inductive Move where
  /-- A task works on the shared state. -/
  | work (l : Work)
  /-- `start_server` returns. -/
  | serverReturns
  /-- The shutdown drain. -/
  | drain
  /-- Its batch, which is the `i`-th that is held, is sent. -/
  | send (i : ℕ)
  /-- `notify_waiters`. -/
  | notify
  /-- `drop(state)`. -/
  | dropState
  /-- A worker goes to its `select!`. -/
  | await (w : Worker)
  /-- A worker leaves its loop. -/
  | stop (w : Worker)
  /-- The flusher finds its channel closed, and ends. -/
  | closed
  /-- `run_server` finds that the task it waits for has ended. -/
  | join

/-- The drain at shutdown, under the locks. -/
def Machine.shutdownDrain (m : Machine) : Machine :=
  let r := forceDrain m.state
  { m.after ⟨r.effects, r.mem⟩ with
    held := m.held ++ (r.msg.map fun msg => (Party.request m.nextRequest, msg)).toList
    nextRequest := m.nextRequest + 1 }

/-- The flusher waits for a message. -/
def FlushPhase.isIdle : FlushPhase → Bool
  | .idle => true
  | _ => false

namespace Process

variable (X : Extern) (cfg : Config)

/-- The process when all tasks have been started. -/
def start (now : ℤ) (clk : ℕ → ℤ) : Process :=
  ⟨.start X cfg now clk, .serving,
    fun _ => .starting, [.main, .server, .flusher, .worker .rollup, .worker .compaction]⟩

/-- A tick of the worker runs. -/
def busy (p : Process) : Worker → Bool
  | .rollup =>
    match p.workers.machine.ticker with
    | .idle => false
    | _ => true
  | .compaction => !p.workers.ticks.isEmpty

/-- Requests come while the server runs; the batch of the shutdown drain is not sent by others;
the flusher takes messages while it runs, and workers start ticks from their `select!`. -/
def allows (p : Process) : Work → Bool
  | .act (.ingest _ _ _) | .act (.respond _) => p.main = .serving
  | .act (.send i) =>
    match p.main with
    | .send id => !(p.workers.machine.held[i]?.any fun h => h.1 = .request id)
    | _ => true
  | .act (.take _) => .flusher ∈ p.owners
  | .act (.tickStart _) => (p.loop .rollup).ready
  | .compactionStart _ => (p.loop .compaction).ready
  | _ => true

/-- The loops when a tick may have started. -/
def loopAfter (p : Process) : Work → Worker → LoopPhase
  | .act (.tickStart _) => Function.update p.loop .rollup .ticking
  | .compactionStart _ => Function.update p.loop .compaction .ticking
  | _ => p.loop

/-- One step. Two facts about `tokio` are assumed. An `mpsc` receiver gets `None` only when the
queue is empty and every sender has been dropped (`closed`). `Notify::notify_waiters` wakes the
tasks that wait at that moment and stores no permit for others (`notify`). -/
def next (p : Process) : Move → Option Process
  | .work l => if p.allows l then (p.workers.next X cfg l).map
      fun w => { p with workers := w, loop := p.loopAfter l } else none
  | .serverReturns =>
    -- the server waits for the requests it has begun to answer
    if p.main = .serving && p.workers.machine.requests.isEmpty then
      some { p with main := .drain, owners := p.owners.erase .server }
    else none
  | .drain =>
    if p.main = .drain then
      some { p with
        workers := { p.workers with machine := p.workers.machine.shutdownDrain }
        main := if (forceDrain p.workers.machine.state).msg.isSome then .send
          p.workers.machine.nextRequest
          else .notify .rollup }
    else none
  | .send i =>
    match p.main with
    | .send id =>
      if p.workers.machine.held[i]?.any fun h => h.1 = .request id then
        (p.workers.next X cfg (.act (.send i))).map
          fun w => { p with workers := w, main := .notify .rollup }
      else none
    | _ => none
  | .notify =>
    match p.main with
    | .notify w => some { p with
        main := if w = .rollup then .notify .compaction else .dropState
        loop := Function.update p.loop w (p.loop w).notify }
    | _ => none
  | .dropState =>
    if p.main = .dropState then some { p with main := .joinFlusher, owners := p.owners.erase .main }
      else none
  | .await w =>
    if p.loop w = .starting || p.loop w = .ticking && !p.busy w then
      some { p with loop := Function.update p.loop w .waiting }
    else none
  | .stop w =>
    if p.loop w = .notified then
      some { p with loop := Function.update p.loop w .stopped, owners := p.owners.erase (.worker w) }
    else none
  | .closed =>
    -- the sender is a field of the state, so the channel is closed when nobody has a handle
    if p.workers.machine.flusher.isIdle && p.workers.machine.state.mem.queue.isEmpty &&
        p.owners.isEmpty then
      some { p with owners := p.owners.erase .flusher }
    else none
  | .join =>
    match p.main with
    | .joinFlusher => if .flusher ∈ p.owners then none else some { p with main := .join .rollup }
    | .join w =>
      if .worker w ∈ p.owners then none
      else some { p with main := if w = .rollup then .join .compaction else .returned }
    | _ => none

end Process

variable {X : Extern} {cfg : Config} {p p' : Process} {w : Worker} {l : Move}

/-- The flusher has its handle, and has not been waited for. -/
structure Process.Waits (p : Process) : Prop where
  /-- The handle. -/
  owner : .flusher ∈ p.owners
  /-- The wait. -/
  main : p.main.joined = false

/-- The worker has been notified and does not know. -/
structure Process.Missed (p : Process) (w : Worker) : Prop where
  /-- The notification. -/
  main : p.main.notified w
  /-- It was not for a worker in a tick. -/
  unaware : p.loop w ≠ .notified
  /-- The worker goes on. -/
  goesOn : p.loop w ≠ .stopped

theorem Process.Waits.next (h : p.Waits) (hnext : p.next X cfg l = some p') : p'.Waits := by
  obtain ⟨howner, hmain⟩ := h
  cases l with
  | closed =>
    -- the flusher has a handle itself, so its channel is open
    have hopen : p.owners.isEmpty = false := List.isEmpty_eq_false_iff_exists_mem.2 ⟨_, howner⟩
    simp [Process.next, hopen] at hnext
  | _ =>
    simp only [Process.next] at hnext
    constructor <;> grind [MainPhase.joined, Option.map_eq_some_iff]

/-- A worker stops, or hears of the shutdown, only at the notification or after it. -/
theorem Process.loop_next (hnext : p.next X cfg l = some p') (w : Worker) :
    p'.loop w = p.loop w ∨ p'.loop w = .waiting ∨ p'.loop w = .ticking ∨
      p.loop w = .notified ∨ p.main = .notify w := by
  cases l with
  | work l =>
    simp only [Process.next] at hnext
    split at hnext
    · obtain ⟨_, -, rfl⟩ := Option.map_eq_some_iff.1 hnext
      dsimp only [Process.loopAfter]
      split <;> grind [Function.update_apply]
    · cases hnext
  | notify =>
    simp only [Process.next] at hnext
    split at hnext <;> cases hnext
    grind [Function.update_apply]
  | await v | stop v =>
    simp only [Process.next] at hnext
    split at hnext <;> cases hnext
    grind [Function.update_apply]
  | _ =>
    simp only [Process.next] at hnext
    grind [Option.map_eq_some_iff]

theorem Process.Missed.next (h : p.Missed w) (hnext : p.next X cfg l = some p') : p'.Missed w := by
  have hnot : p.main ≠ .notify w := by
    intro hmain
    have hnotified := h.main
    rw [hmain] at hnotified
    cases w <;> cases hnotified
  have hloop := Process.loop_next hnext w
  refine ⟨?_, ?_, ?_⟩
  · have hmain := h.main
    cases l <;> simp only [Process.next] at hnext <;> grind [MainPhase.notified, Option.map_eq_some_iff]
  · grind [h.unaware]
  · grind [h.unaware, h.goesOn]

/-- **The server does not stop.** In no interleaving does `run_server` get past its wait for the
flusher, which would have to find its channel closed and holds the sender itself; and a worker
that is not at its `select!` when it is notified goes on for good. -/
theorem shutdown_never_returns {now : ℤ} {clk : ℕ → ℤ} {ls : List Move}
    (hrun : Run (fun a l b => a.next X cfg l = some b) (.start X cfg now clk) ls p) :
    p.main.joined = false ∧ p.main ≠ .returned ∧ .flusher ∈ p.owners ∧
      ∀ w, p.Missed w →
      ∀ ls' p',
        Run (fun a l b => Process.next X cfg a l = some b) p ls' p' → p'.loop w ≠ .stopped := by
  have hwaits : p.Waits :=
    hrun.invariant (fun _ _ _ h hnext => h.next hnext) ⟨by simp [Process.start], rfl⟩
  refine ⟨hwaits.main, ?_, hwaits.owner, fun w hmissed ls' p' hrun' => ?_⟩
  · intro hmain
    have hjoined := hwaits.main
    rw [hmain] at hjoined
    cases hjoined
  · exact (hrun'.invariant (I := (Process.Missed · w))
      (fun _ _ _ h hnext => h.next hnext) hmissed).goesOn

/-- An event is accepted, and the server is stopped while the compaction worker is in a tick; the
flusher flushes, and the tick ends. -/
def stopServer : List Move :=
  [.await .rollup, .await .compaction,
    .work (.act (.ingest 9000000 sampleClock [sampleEvent "a" "acme" 7200000 5])),
    .work (.act (.respond 0)), .work (.compactionStart 9000000), .serverReturns, .drain, .send 0,
      .notify, .notify,
    .dropState, .stop .rollup,
      .work (.act (.take (fun _ => "p"))), .work (.act .write), .work (.act .write),
    .work (.act .commit), .work (.act .delete), .work (.act .delete)]

/-- There is nothing left to flush, and still two tasks go on. -/
theorem stopServer_never_returns :
    ∃ p, Run (fun a l b => a.next .sample sampleConfig l = some b)
        (.start .sample sampleConfig 8000000 fun _ => 8000000) stopServer p ∧
      p.main = .joinFlusher ∧ p.owners = [.flusher, .worker .compaction] ∧
      p.workers.machine.state.mem.queue = [] ∧
      p.main ≠ .returned ∧
      ∀ ls' p', Run (fun a l b => Process.next .sample sampleConfig a l = some b) p ls' p' →
        p'.loop .compaction ≠ .stopped := by
  have heval : (runAll (Process.next .sample sampleConfig)
      (.start .sample sampleConfig 8000000 fun _ => 8000000) stopServer).any (fun p =>
        p.main = .joinFlusher ∧
          p.owners = [.flusher, .worker .compaction] ∧ p.workers.machine.state.mem.queue = [] ∧
          p.loop .compaction = .ticking) := by decide +kernel
  obtain ⟨p, hall, hview⟩ := (Option.any_eq_true _ _).1 heval
  obtain ⟨hmain, howners, hqueue, hloop⟩ := of_decide_eq_true hview
  have hrun := Run.of_runAll (fun _ _ _ _ h => h) hall
  obtain ⟨-, hreturned, -, hmissed⟩ := shutdown_never_returns hrun
  exact ⟨p, hrun, hmain, howners, hqueue, hreturned, hmissed .compaction ⟨hmain ▸ rfl,
    by simp [hloop], by simp [hloop]⟩⟩

end UsageDb
