import UsageDb.Model.Extern

/-!
# The memtable

`src/ingest/memtable.rs`: the events accepted and not yet drained, with an estimate
of their size and the time the oldest of them was inserted.
-/

namespace UsageDb

open Lib

/-- `Memtable`. -/
structure Memtable where
  /-- The events, oldest first. -/
  events : List UsageEvent
  approxSizeBytes : ℕ
  oldestInsertAtMs : Option ℤ
  deriving DecidableEq

namespace Memtable

variable {m : Memtable}

/-- `Memtable::new`. -/
def new : Memtable := ⟨[], 0, none⟩

/-- `estimate_event_size`: the struct itself, its strings, and for each dimension its key,
its value and 64 bytes of map node. -/
def estimateEventSize (X : Extern) (e : UsageEvent) : ℕ :=
  let strings := e.eventId.utf8ByteSize + e.accountId.utf8ByteSize +
    (e.subscriptionId.map String.utf8ByteSize).getD 0 + e.productId.utf8ByteSize +
    e.meterId.utf8ByteSize + e.source.utf8ByteSize + e.unit.utf8ByteSize +
    (e.modelId.map String.utf8ByteSize).getD 0 +
    (e.correctionRef.map fun c => c.originalEventId.utf8ByteSize + c.reason.utf8ByteSize).getD 0
  let dims := (e.dimensions.inner.map fun x => x.1.utf8ByteSize + x.2.utf8ByteSize + 64).sum
  X.sizeOfEvent + strings + dims

/-- `insert`, at the clock value `now`. -/
def insert (X : Extern) (m : Memtable) (e : UsageEvent) (now : ℤ) : Memtable :=
  { events := m.events ++ [e]
    approxSizeBytes := m.approxSizeBytes + estimateEventSize X e
    oldestInsertAtMs := if m.events.isEmpty then some now else m.oldestInsertAtMs }

/-- `min_event_timestamp_ms`. -/
def minEventTimestampMs (m : Memtable) : Option ℤ := (m.events.map fun e => e.timestampMs).min?

/-- `drain_all`: the events, and what is left. -/
def drainAll (m : Memtable) : List UsageEvent × Memtable := (m.events, ⟨[], 0, none⟩)

/-- The loop that inserts events one by one; the clock is read at each. -/
def insertAll (X : Extern) (m : Memtable) : List UsageEvent → (ℕ → ℤ) → Memtable
  | [], _ => m
  | e :: es, clk => insertAll X (m.insert X e (clk 0)) es fun i => clk (i + 1)

variable {X : Extern}

@[simp] theorem insert_events (m : Memtable) (e : UsageEvent) (now : ℤ) :
    (m.insert X e now).events = m.events ++ [e] := rfl

@[simp] theorem insertAll_events (m : Memtable) (es : List UsageEvent) (clk : ℕ → ℤ) :
    (m.insertAll X es clk).events = m.events ++ es := by
  induction es generalizing m clk with
  | nil => simp [insertAll]
  | cons e es ih => simp [insertAll, ih]

@[simp] theorem new_events : new.events = [] := rfl

/-- The minimum is at most every event's time. -/
theorem le_of_minEventTimestampMs {t : ℤ} (h : m.minEventTimestampMs = some t)
    {e : UsageEvent} (he : e ∈ m.events) : t ≤ e.timestampMs :=
  (List.le_min?_iff h).1 le_rfl _ (List.mem_map_of_mem he)

theorem minEventTimestampMs_eq_none (h : m.minEventTimestampMs = none) :
    m.events = [] := by
  simpa [minEventTimestampMs] using h

/-- What `approx_size_bytes` counts: the estimates of the events that are in. -/
def Sized (X : Extern) (m : Memtable) : Prop :=
  m.approxSizeBytes = (m.events.map (estimateEventSize X)).sum

theorem Sized.insert (h : m.Sized X) (e : UsageEvent) (now : ℤ) :
    (m.insert X e now).Sized X := by
  simp [Sized, Memtable.insert, show m.approxSizeBytes = _ from h]

theorem Sized.insertAll (h : m.Sized X) (es : List UsageEvent) (clk : ℕ → ℤ) :
    (m.insertAll X es clk).Sized X := by
  induction es generalizing m clk with
  | nil => exact h
  | cons e es ih => exact ih (h.insert e _) _

theorem sized_new : new.Sized X := rfl

end Memtable

end UsageDb
