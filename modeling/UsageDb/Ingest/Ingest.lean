import UsageDb.Runtime.State

/-!
# Ingest

`handle_ingest` and `ingest_critical_section` of `src/api/http_server.rs`, and the drain
of the memtable that they share with the rollup worker (`src/rollup/worker.rs`,
`force_drain_memtable`).

A request goes through in three phases. The events are validated and stamped; under the
locks each is classified against the cache and against the batch itself, and the new ones
are appended to the log and made durable, then registered and put into the memtable; when
the memtable has grown too large it is drained and the log rotated, and the drained batch
goes to the flusher after the locks are released.

The append and the `sync` after it are one durable step here: this is `Strict` mode.
-/

namespace UsageDb

open Lib List

/-- `ValidationError`. -/
inductive ValidationError where
  /-- `event_id` is empty. -/
  | missingEventId
  /-- `account_id` is empty. -/
  | missingAccountId
  /-- `product_id` is empty. -/
  | missingProductId
  /-- `meter_id` is empty. -/
  | missingMeterId
  /-- `timestamp_ms` is not positive. -/
  | nonPositiveTimestamp
  /-- There are more than `MAX_DIMENSIONS`. -/
  | tooManyDimensions
  /-- A correction or retraction that does not say of what. -/
  | correctionMissingRef
  deriving DecidableEq, Repr

/-- `MAX_DIMENSIONS`. -/
def MAX_DIMENSIONS : ℕ := 16

/-- `validate_event`. -/
def validateEvent (e : UsageEvent) : Except ValidationError Unit :=
  if e.eventId = "" then .error .missingEventId
  else if e.accountId = "" then .error .missingAccountId
  else if e.productId = "" then .error .missingProductId
  else if e.meterId = "" then .error .missingMeterId
  else if (e.timestampMs : ℤ) ≤ 0 then .error .nonPositiveTimestamp
  else if MAX_DIMENSIONS < e.dimensions.inner.length then .error .tooManyDimensions
  else if (e.kind = .correction ∨ e.kind = .retraction) ∧ e.correctionRef = none then
    .error .correctionMissingRef
  else .ok ()

/-- Whether an event passes `validate_event`. -/
def UsageEvent.Valid (e : UsageEvent) : Prop := validateEvent e = .ok ()

instance (e : UsageEvent) : Decidable e.Valid :=
  match h : validateEvent e with
  | .ok () => isTrue h
  | .error x => isFalse fun h' => by rw [UsageEvent.Valid, h] at h'; cases h'

/-- A valid event has a positive time. -/
theorem UsageEvent.Valid.timestamp_pos {e : UsageEvent} (h : e.Valid) : 0 < (e.timestampMs : ℤ) := by
  by_contra hle
  simp only [Valid, validateEvent, if_pos (not_lt.1 hle)] at h
  split_ifs at h

/-- `Classified`: an event of a request with its hashes. -/
structure Classified where
  event : UsageEvent
  eventIdHash : EventHash
  payloadHash : EventHash

/-- The readings of the clock in a request. -/
structure IngestClock where
  /-- `ingest_now`, stamped on the events. -/
  now : I64
  /-- For each new event: read when old cache entries are evicted, … -/
  evict : ℕ → ℤ
  /-- … when the event is put into the cache, … -/
  commit : ℕ → ℤ
  /-- … and when it is put into the memtable. -/
  insert : ℕ → ℤ

/-- What a request is answered with. -/
structure IngestBatchResponse where
  accepted : ℕ
  duplicates : ℕ
  conflicts : ℕ
  rejected : ℕ
  deriving DecidableEq, Repr

/-- What the critical section has made of a batch so far. -/
structure Batch where
  newEvents : List Classified
  seenInBatch : AList fun _ : EventHash => EventHash
  duplicates : ℕ
  conflicts : ℕ

/-- What a drain does: its durable steps, the memory it leaves, and the batch, if there is
one. -/
structure Drained where
  /-- The steps. -/
  effects : List Effect
  /-- The memory. -/
  mem : Mem
  /-- The batch for the flusher. -/
  msg : Option FlushMessage

section

variable (X : Extern)

/-- Whether an event is `Usage` in a closed period. -/
def inClosedPeriod (closed : List ClosedPeriod) (e : UsageEvent) : Bool :=
  e.kind = .usage && match X.periodForTs e.timestampMs with
    | some (year, month) => closed.any fun p => p.IsFor e.accountId year month
    | none => false

/-- Whether `handle_ingest` lets an event through to the critical section. -/
def admits (closed : List ClosedPeriod) (e : UsageEvent) : Bool := e.Valid && !inClosedPeriod X closed e

/-- An event as it reaches the critical section. -/
def classified (now : I64) (e : UsageEvent) : Classified :=
  { event := e.stamp now
    eventIdHash := (X.computeEventHashes (e.stamp now)).1
    payloadHash := (X.computeEventHashes (e.stamp now)).2 }

/-- The events of a request that reach the critical section. -/
def classifiedEvents (closed : List ClosedPeriod) (now : I64) (events : List UsageEvent) :
    List Classified :=
  (events.filter (admits X closed)).map (classified X now)

/-- One event of the classification loop. -/
def Batch.classify (d : HotDedupe) (b : Batch) (c : Classified) : Batch :=
  match b.seenInBatch.lookup c.eventIdHash with
  | some priorPayload =>
    if priorPayload = c.payloadHash then { b with duplicates := b.duplicates + 1 }
    else { b with conflicts := b.conflicts + 1 }
  | none =>
    match d.classify c.eventIdHash c.payloadHash with
    | .newEvent =>
      { b with
        newEvents := b.newEvents ++ [c]
        seenInBatch := b.seenInBatch.insert c.eventIdHash c.payloadHash }
    | .exactDuplicate => { b with duplicates := b.duplicates + 1 }
    | .payloadConflict => { b with conflicts := b.conflicts + 1 }

/-- The classification loop. -/
def classifyBatch (d : HotDedupe) (cs : List Classified) : Batch :=
  cs.foldl (Batch.classify d) ⟨[], ∅, 0, 0⟩

/-- The loop that commits the new events to the cache. -/
def commitAll (d : HotDedupe) : List Classified → (ℕ → ℤ) → (ℕ → ℤ) → HotDedupe
  | [], _, _ => d
  | c :: cs, evict, now =>
    commitAll (d.commit c.eventIdHash c.payloadHash (evict 0) (now 0)) cs
      (fun i => evict (i + 1)) fun i => now (i + 1)

/-- A batch is sent to the flusher. -/
def Mem.send (m : Mem) (msg : FlushMessage) : Mem := { m with queue := m.queue ++ [msg] }

/-- Draining the memtable and rotating the log; the new log file is the durable step. -/
def Mem.drainAndRotate (m : Mem) : Drained :=
  { effects := [.walCreate (m.activeId + 1)]
    mem := { m with memtable := m.memtable.drainAll.2, activeId := m.activeId + 1 }
    msg := some ⟨m.memtable.drainAll.1, m.activeId⟩ }

/-- Draining when there is a reason to. -/
def Mem.drainIf (m : Mem) (cond : Bool) : Drained := if cond then m.drainAndRotate else ⟨[], m, none⟩

/-- The batch is sent once the locks are released. -/
def Drained.sent (r : Drained) : Outcome := ⟨r.effects, r.msg.elim r.mem r.mem.send⟩

/-- The memory after the new events have been registered and inserted. -/
def Mem.accept (m : Mem) (clk : IngestClock) (new : List Classified) : Mem :=
  { m with
    dedupe := commitAll m.dedupe new clk.evict clk.commit
    memtable := m.memtable.insertAll X (new.map (·.event)) clk.insert }

/-- The append to the log, if there is anything to append. -/
def appendEffects (activeId : ℕ) (events : List UsageEvent) : List Effect :=
  if events.isEmpty then [] else [.walAppend activeId events]

/-- `ingest_critical_section`: what it does, the batch it drained, and the counts. -/
def ingestCriticalSection (cfg : Config) (clk : IngestClock) (s : State) (cs : List Classified) :
    Outcome × Option FlushMessage × Batch :=
  let b := classifyBatch s.mem.dedupe cs
  let m := s.mem.accept X clk b.newEvents
  let append := appendEffects s.mem.activeId (b.newEvents.map (·.event))
  let r := m.drainIf (cfg.maxMemtableSizeBytes < m.memtable.approxSizeBytes)
  (⟨append ++ r.effects, r.mem⟩, r.msg, b)

/-- `handle_ingest`: the drained batch, if any, is sent after the critical section. -/
def handleIngest (cfg : Config) (clk : IngestClock) (events : List UsageEvent) (s : State) :
    Outcome × IngestBatchResponse :=
  let cs := classifiedEvents X s.mem.manifest.closedPeriods clk.now events
  let r := ingestCriticalSection X cfg clk s cs
  (⟨r.1.effects, r.2.1.elim r.1.mem r.1.mem.send⟩,
    { accepted := r.2.2.newEvents.length
      duplicates := r.2.2.duplicates
      conflicts := r.2.2.conflicts
      rejected := events.length - cs.length })

/-- `force_drain_memtable` under its locks. -/
def forceDrain (s : State) : Drained := s.mem.drainIf (!s.mem.memtable.events.isEmpty)

/-- `force_drain_memtable` with the send at its end. -/
def forceDrainMemtable (s : State) : Outcome := (forceDrain s).sent

end

/-! ### What the classification keeps -/

section

variable {X : Extern} {d : HotDedupe}

theorem Batch.classify_newEvents (b : Batch) (c : Classified) :
    (b.classify d c).newEvents = b.newEvents ∨ (b.classify d c).newEvents = b.newEvents ++ [c] := by
  unfold Batch.classify
  split
  · split <;> exact .inl rfl
  · split
    · exact .inr rfl
    · exact .inl rfl
    · exact .inl rfl

theorem foldl_classify_newEvents (b : Batch) (cs : List Classified) :
    ∃ new, new.Sublist cs ∧ (cs.foldl (Batch.classify d) b).newEvents = b.newEvents ++ new := by
  induction cs generalizing b with
  | nil => exact ⟨[], .slnil, by simp⟩
  | cons c cs ih =>
    obtain ⟨new, hsub, hnew⟩ := ih (b.classify d c)
    rw [foldl_cons, hnew]
    rcases b.classify_newEvents (d := d) c with h | h
    · exact ⟨new, hsub.cons c, by rw [h]⟩
    · exact ⟨c :: new, hsub.cons_cons c, by rw [h]; simp⟩

/-- The new events are among those that reached the critical section, in their order. -/
theorem classifyBatch_sublist (cs : List Classified) : (classifyBatch d cs).newEvents.Sublist cs := by
  obtain ⟨new, hsub, hnew⟩ := foldl_classify_newEvents (d := d) ⟨[], ∅, 0, 0⟩ cs
  rw [classifyBatch, hnew]
  exact hsub

/-- A new event is one of the request's, admitted and stamped. -/
theorem mem_newEvents {closed : List ClosedPeriod} {now : I64} {events : List UsageEvent}
    {c : Classified} (hc : c ∈ (classifyBatch d (classifiedEvents X closed now events)).newEvents) :
    ∃ e ∈ events, admits X closed e ∧ c = classified X now e := by
  have h := (classifyBatch_sublist _).subset hc
  rw [classifiedEvents, mem_map] at h
  obtain ⟨e, he, rfl⟩ := h
  rw [mem_filter] at he
  exact ⟨e, he.1, he.2, rfl⟩

/-- What the loop keeps: the new events are not in the cache, and each was the first of its id
in the batch. -/
structure Batch.Fresh (d : HotDedupe) (b : Batch) : Prop where
  /-- Not in the cache. -/
  unknown : ∀ c ∈ b.newEvents, c.eventIdHash ∉ d.cache
  seen : ∀ c ∈ b.newEvents, c.eventIdHash ∈ b.seenInBatch
  /-- Once. -/
  nodup : (b.newEvents.map (·.eventIdHash)).Nodup

theorem Batch.Fresh.classify {b : Batch} (h : b.Fresh d) (c : Classified) :
    (b.classify d c).Fresh d := by
  unfold Batch.classify
  split
  · split <;> exact ⟨h.unknown, h.seen, h.nodup⟩
  · rename_i hseen
    split
    · rename_i hnew
      refine ⟨fun x hx => ?_, fun x hx => ?_, ?_⟩
      · rcases mem_append.1 hx with hx | hx
        · exact h.unknown x hx
        · rw [mem_singleton.1 hx]
          exact HotDedupe.classify_eq_newEvent.1 hnew
      · rw [AList.mem_insert]
        rcases mem_append.1 hx with hx | hx
        · exact .inr (h.seen x hx)
        · exact .inl (by rw [mem_singleton.1 hx])
      · rw [map_append, map_singleton]
        refine List.Nodup.append h.nodup (nodup_singleton _) fun x hx hc => ?_
        obtain ⟨y, hy, rfl⟩ := mem_map.1 hx
        rw [mem_singleton] at hc
        exact AList.lookup_eq_none.1 hseen (hc ▸ h.seen y hy)
    · exact ⟨h.unknown, h.seen, h.nodup⟩
    · exact ⟨h.unknown, h.seen, h.nodup⟩

theorem classifyBatch_fresh (d : HotDedupe) (cs : List Classified) : (classifyBatch d cs).Fresh d := by
  have hgen : ∀ (b : Batch), b.Fresh d → (cs.foldl (Batch.classify d) b).Fresh d := by
    induction cs with
    | nil => exact fun b h => h
    | cons c cs ih => exact fun b h => ih _ (h.classify c)
  exact hgen _ ⟨by simp, by simp, by simp⟩

end

end UsageDb
