import UsageDb.Runtime.Preserve

/-!
# Runs with failures

In the steps of `Step` nothing fails. `FaultStep` adds steps in which something does: what can
fail, and what it leaves behind, is a parameter, so that each kind of failure is looked at by
itself. Beside the system stands the book of the events it has accepted.

`durable_of_faultRun` is the rule for all of them: if every failure leaves the state in order,
then every listed segment has its file and every accepted event is durable, at the end of
every run.
-/

namespace UsageDb

open Lib

variable {X : Extern} {cfg : Config} {φ : Type} {fails : State → φ → State → Prop}

/-- What can happen when there are failures. -/
inductive FaultLabel (φ : Type) where
  /-- A step in which nothing fails. -/
  | sound (l : Label)
  /-- Something fails. -/
  | fault (f : φ)

/-- The step is one of the compaction worker. -/
def FaultLabel.Compacts : FaultLabel φ → Prop
  | .sound l => l.Compacts
  | .fault _ => False

/-- A step of the system and of the book of accepted events. -/
inductive FaultStep (X : Extern) (cfg : Config) (fails : State → φ → State → Prop) :
    Sys × Multiset UsageEvent → FaultLabel φ → Sys × Multiset UsageEvent → Prop where
  /-- Nothing fails. -/
  | sound {sys sys' : Sys} {c : Multiset UsageEvent} {l : Label} : Step X cfg sys l sys' →
      FaultStep X cfg fails (sys, c) (.sound l) (sys', c + ↑(sys.accepts X l))
  /-- Something fails, and no event is accepted. -/
  | fault {s s' : State} {c : Multiset UsageEvent} {f : φ} : fails s f s' →
      FaultStep X cfg fails (.up s, c) (.fault f) (.up s', c)

/-- A failure keeps the state in order. -/
def KeepsOrder (X : Extern) (cfg : Config) (fails : State → φ → State → Prop) : Prop :=
  ∀ D c s f s', fails s f s' → SysOk X cfg D c (.up s) → SysOk X cfg D c (.up s')

/-- If failures keep the state in order, it is in order after every run. -/
theorem sysOk_faultRun {D : Multiset UsageEvent → Prop} (hD : ∀ {c c'}, D (c + c') → D c)
    (hkeep : KeepsOrder X cfg fails) {ls : List (FaultLabel φ)} {b : Sys × Multiset UsageEvent}
    (hrun : Run (FaultStep X cfg fails) (.down .empty, 0) ls b) (hcomp : ∀ l ∈ ls, l.Compacts →
      D = DistinctIds) :
    SysOk X cfg D b.2 b.1 := by
  induction hrun with
  | nil => exact sysOk_empty
  | @snoc _ _ ls l _ hstep ih =>
    have ih := ih fun l hl => hcomp l (by simp [hl])
    cases hstep with
    | @sound _ _ _ l hstep => exact ih.step hD (hcomp (.sound l) (by simp)) hstep
    | fault hfail => exact hkeep _ _ _ _ _ hfail ih

/-- The part of `SysOk` about the disk. -/
theorem SysOk.holds {D : Multiset UsageEvent → Prop} {c : Multiset UsageEvent} {sys : Sys}
    (h : SysOk X cfg D c sys) : Holds X cfg D c sys.disk := by
  cases sys with
  | up s => exact h.1
  | down d => exact h

/-- **If failures keep the state in order, nothing is lost.** (Compaction drops events that
repeat an id, so with it the ids have to be different.) -/
theorem durable_of_faultRun (hkeep : KeepsOrder X cfg fails) {ls : List (FaultLabel φ)} {sys : Sys}
    {c : Multiset UsageEvent} (hrun : Run (FaultStep X cfg fails) (.down .empty, 0) ls (sys, c))
    (hids : (∀ l ∈ ls, ¬ l.Compacts) ∨ DistinctIds c) : DiskOk X cfg sys.disk ∧
      ∀ e ∈ c, sys.disk.Durable e := by
  have hholds : DiskOk X cfg sys.disk ∧ sys.disk.content = c := by
    rcases hids with hcomp | hids
    · have hok := sysOk_faultRun (D := fun _ => True) (fun _ => trivial) hkeep hrun
        fun l hl h => absurd h (hcomp l hl)
      exact ⟨hok.holds.1, hok.holds.2 trivial⟩
    · have hok := sysOk_faultRun DistinctIds.left hkeep hrun fun l hl _ => rfl
      exact ⟨hok.holds.1, hok.holds.2 hids⟩
  refine ⟨hholds.1, fun e he => ?_⟩
  rw [Disk.durable_iff, hholds.2]
  exact he

/-! ### A start for concrete runs -/

/-- Two events; `bolt` is in bucket 0 and `acme` in bucket 1. -/
def twoEvents : List UsageEvent := [sampleEvent "a" "bolt" 7200000 5, sampleEvent "b" "acme" 7200000 2]

/-- They are accepted and drained. -/
def twoBuckets : List (FaultLabel φ) :=
  [.sound (.restart 8000000 fun _ => 8000000), .sound (.run (.ingest sampleClock twoEvents)),
    .sound (.run .drain)]

/-- The state then. -/
def drainedState : State :=
  let start := restart .sample sampleConfig 8000000 (fun _ => 8000000) .empty
  let started : State := ⟨Disk.empty.applyAll start.effects, start.mem⟩
  let accepted := (handleIngest .sample sampleConfig sampleClock twoEvents started).1.state started
  (forceDrainMemtable accepted).state accepted

/-- The message that waits. -/
def drainedMessage : FlushMessage := ⟨twoEvents.map (·.stamp sampleClock.now), 1⟩

theorem run_twoBuckets (fails : State → φ → State → Prop) :
    ∃ c, Run (FaultStep .sample sampleConfig fails) (.down .empty, 0) twoBuckets (.up drainedState, c) ∧
      c = ↑drainedMessage.events := by
  have hstart : Run (FaultStep .sample sampleConfig fails) (.down .empty, 0)
      [.sound (.restart 8000000 fun _ => 8000000)] _ := .single (.sound (.restart _ _))
  have hingest :=
    hstart.snoc (.sound (.run (show Op.Fresh _ (.ingest sampleClock twoEvents) from trivial)))
  exact ⟨_, hingest.snoc (.sound (.run (show Op.Fresh _ .drain from trivial))), by decide +kernel⟩

theorem unused_drainedState (id : String) : drainedState.Unused id :=
  ((unused_restart_empty _ _ _ _ _).onLog (onLog_ingest _ _ _)).onLog (onLog_drainIf _ _)

theorem queue_drainedState : drainedState.mem.queue = [drainedMessage] := by decide +kernel

end UsageDb
