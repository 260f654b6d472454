import UsageDb.Ingest.Ingest

/-!
# One batch or many

`ingest_critical_section` classifies a batch against the cache as it was before the batch, together
with what it has seen in the batch, and commits the new events afterwards. Requests of one event
each classify and commit by turns. As long as no commit evicts anything the two come to the same:
what a batch knows of an id (`Batch.known`) is what the cache knows once the batch is committed
(`payloadOf_insertAll`), so a batch can be split anywhere (`classifyBatch_append`). The accepted
events are the first admitted ones of their id that the cache does not know (`newEvents_eq`), and a
batch that comes again changes nothing (`ingestRequest_again`). -/

namespace UsageDb

open Lib List

variable {events : List UsageEvent}

/-! ### What is known of an id -/

/-- The payload that the cache has for an id. -/
def HotDedupe.payloadOf (d : HotDedupe) (h : EventHash) : Option EventHash :=
  (d.cache.lookup h).map (·.payloadHash)

/-- The payload that the batch or else the cache has for an id. -/
def Batch.known (d : HotDedupe) (b : Batch) (h : EventHash) : Option EventHash :=
  (b.seenInBatch.lookup h).or (d.payloadOf h)

section Known

variable {d : HotDedupe} {b : Batch} {c : Classified}

theorem HotDedupe.payloadOf_eq_none {h : EventHash} : d.payloadOf h = none ↔ h ∉ d.cache := by
  rw [payloadOf, Option.map_eq_none_iff, AList.lookup_eq_none]

/-- An id that is known is a duplicate or a conflict. -/
theorem Batch.classify_of_known {p : EventHash} (h : b.known d c.eventIdHash = some p) :
    b.classify d c = if p = c.payloadHash then { b with duplicates := b.duplicates + 1 }
      else { b with conflicts := b.conflicts + 1 } := by
  rw [known] at h
  cases hseen : b.seenInBatch.lookup c.eventIdHash with
  | some prior =>
    rw [hseen, Option.some_or, Option.some.injEq] at h
    subst h
    rw [Batch.classify, hseen]
  | none =>
    rw [hseen, Option.none_or, HotDedupe.payloadOf, Option.map_eq_some_iff] at h
    obtain ⟨entry, hentry, rfl⟩ := h
    simp only [Batch.classify, hseen, HotDedupe.classify_of_lookup hentry]
    by_cases hp : entry.payloadHash = c.payloadHash
    · simp only [if_pos hp]
    · simp only [if_neg hp]

/-- An id that is not known is new. -/
theorem Batch.classify_of_unknown (h : b.known d c.eventIdHash = none) :
    b.classify d c = { b with
      newEvents := b.newEvents ++ [c]
      seenInBatch := b.seenInBatch.insert c.eventIdHash c.payloadHash } := by
  rw [known, Option.or_eq_none_iff, HotDedupe.payloadOf_eq_none] at h
  have hnew : d.classify c.eventIdHash c.payloadHash = .newEvent := HotDedupe.classify_eq_newEvent.2 h.2
  simp only [Batch.classify, h.1, hnew]

/-- After an event its id is known, with the payload that came first. -/
theorem Batch.known_classify (h : EventHash) :
    (b.classify d c).known d h =
      if h = c.eventIdHash then some ((b.known d h).getD c.payloadHash) else b.known d h := by
  cases hk : b.known d c.eventIdHash with
  | some p =>
    have hsame : (b.classify d c).known d h = b.known d h := by
      rw [classify_of_known hk]
      split_ifs <;> rfl
    rw [hsame]
    split_ifs with heq
    · rw [heq, hk, Option.getD_some]
    · rfl
  | none =>
    rw [classify_of_unknown hk]
    split_ifs with heq
    · subst heq
      simp only [known, AList.lookup_insert, Option.some_or]
      rw [known] at hk
      rw [hk, Option.getD_none]
    · simp only [known, AList.lookup_insert_ne heq]

end Known

/-! ### Commits that evict nothing -/

/-- The ids of some events are put into the cache. -/
def HotDedupe.insertAll (now : ℤ) (d : HotDedupe) (cs : List Classified) : HotDedupe :=
  cs.foldl (fun d c => d.insertKnown c.eventIdHash c.payloadHash now) d

/-- The events can be committed one after another without an eviction: nothing has expired, and
there is room. -/
def NoEviction (now : ℤ) : HotDedupe → List Classified → Prop
  | _, [] => True
  | d, c :: cs =>
    d.evictExpired now = d ∧
      (d.insertKnown c.eventIdHash c.payloadHash now).cache.entries.length ≤ d.maxCapacity ∧
      NoEviction now (d.insertKnown c.eventIdHash c.payloadHash now) cs

section Commit

variable {d : HotDedupe} {now : ℤ} {a b cs : List Classified}

theorem noEviction_append : NoEviction now d (a ++ b) ↔ NoEviction now d a ∧
    NoEviction now (d.insertAll now a) b := by
  induction a generalizing d with
  | nil => simp [NoEviction, HotDedupe.insertAll]
  | cons c a ih =>
    rw [cons_append, NoEviction, NoEviction, ih]
    simp only [HotDedupe.insertAll, foldl_cons]
    tauto

/-- A cache in which nothing has expired, with room for all of the events. -/
theorem noEviction_of_room (hfresh : ∀ x ∈ d.order, now - d.ttlMs ≤ x.2) (httl : 0 ≤ d.ttlMs)
    (hroom : d.cache.entries.length + cs.length ≤ d.maxCapacity) : NoEviction now d cs := by
  induction cs generalizing d with
  | nil => trivial
  | cons c cs ih =>
    rw [length_cons] at hroom
    have hlen : (d.insertKnown c.eventIdHash c.payloadHash now).cache.entries.length ≤
        d.cache.entries.length + 1 := by
      unfold HotDedupe.insertKnown
      split_ifs with hmem
      · omega
      · rw [AList.entries_insert_of_notMem hmem, length_cons]
    refine ⟨HotDedupe.evictExpired_of_fresh hfresh, by omega, ih ?_ ?_ ?_⟩
    · intro x hx
      rw [HotDedupe.insertKnown_ttlMs]
      rcases HotDedupe.order_insertKnown hx with hx | rfl
      · exact hfresh x hx
      · exact sub_le_self now httl
    · rw [HotDedupe.insertKnown_ttlMs]
      exact httl
    · rw [HotDedupe.insertKnown_maxCapacity]
      omega

/-- Then the commits only insert. -/
theorem NoEviction.commitAll (h : NoEviction now d cs) :
    UsageDb.commitAll d cs (fun _ => now) (fun _ => now) = d.insertAll now cs := by
  induction cs generalizing d with
  | nil => rfl
  | cons c cs ih =>
    obtain ⟨hexpired, hroom, hrest⟩ := h
    rw [← HotDedupe.insertKnown_maxCapacity c.eventIdHash c.payloadHash now] at hroom
    have hcommit : d.commit c.eventIdHash c.payloadHash now now =
        d.insertKnown c.eventIdHash c.payloadHash now := by
      simp only [HotDedupe.commit, hexpired]
      split_ifs with hmem
      · rw [HotDedupe.insertKnown, if_pos hmem]
      · rw [HotDedupe.capacityLoop_of_room hroom]
    rw [UsageDb.commitAll, hcommit, ih hrest]
    rfl

end Commit

/-! ### The classification of a batch, event by event -/

section Classify

variable {d : HotDedupe}

theorem classifiedEvents_concat {e : UsageEvent} (h : admits X closed e) :
    classifiedEvents X closed now (events ++ [e]) = classifiedEvents X closed now events ++
      [classified X now e] := by
  simp [classifiedEvents, h]

theorem classifiedEvents_concat_of_not {e : UsageEvent} (h : ¬ admits X closed e) :
    classifiedEvents X closed now (events ++ [e]) = classifiedEvents X closed now events := by
  simp [classifiedEvents, h]

theorem classifyBatch_concat (cs : List Classified) (c : Classified) :
    classifyBatch d (cs ++ [c]) = (classifyBatch d cs).classify d c := by
  rw [classifyBatch, foldl_append]
  rfl

/-- Every event is new, a duplicate or a conflict. -/
theorem length_classifyBatch (cs : List Classified) :
    (classifyBatch d cs).newEvents.length + (classifyBatch d cs).duplicates +
      (classifyBatch d cs).conflicts = cs.length := by
  induction cs using List.reverseRecOn with
  | nil => rfl
  | append_singleton cs c ih =>
    rw [classifyBatch_concat, length_append, length_singleton, ← ih]
    cases hk : (classifyBatch d cs).known d c.eventIdHash with
    | some p =>
      rw [Batch.classify_of_known hk]
      split_ifs <;> simp only <;> omega
    | none =>
      rw [Batch.classify_of_unknown hk]
      simp only [length_append, length_singleton]
      omega

/-- **What a batch knows is what the cache knows afterwards.** -/
theorem payloadOf_insertAll (now : ℤ) (cs : List Classified) (h : EventHash) :
    (d.insertAll now (classifyBatch d cs).newEvents).payloadOf h = (classifyBatch d cs).known d h := by
  induction cs using List.reverseRecOn generalizing h with
  | nil => rfl
  | append_singleton cs c ih =>
    rw [classifyBatch_concat, Batch.known_classify, ← ih h]
    cases hk : (classifyBatch d cs).known d c.eventIdHash with
    | some p =>
      have hnew : ((classifyBatch d cs).classify d c).newEvents = (classifyBatch d cs).newEvents := by
        rw [Batch.classify_of_known hk]
        split_ifs <;> rfl
      rw [hnew]
      split_ifs with heq
      · rw [heq, ih, hk, Option.getD_some]
      · rfl
    | none =>
      have hunknown : c.eventIdHash ∉ (d.insertAll now (classifyBatch d cs).newEvents).cache := by
        rw [← HotDedupe.payloadOf_eq_none, ih, hk]
      have hinsert : d.insertAll now ((classifyBatch d cs).classify d c).newEvents =
          (d.insertAll now (classifyBatch d cs).newEvents).insertKnown c.eventIdHash
              c.payloadHash now := by
        rw [Batch.classify_of_unknown hk, HotDedupe.insertAll, foldl_append]
        rfl
      rw [hinsert]
      split_ifs with heq
      · rw [heq, HotDedupe.payloadOf, HotDedupe.lookup_insertKnown_new hunknown, ih, hk]
        rfl
      · rw [HotDedupe.payloadOf, HotDedupe.lookup_insertKnown_ne heq]
        rfl

/-- What a batch, with the cache `d` before it, and its second part, with the cache `d'` in between,
have in common when the first part came to `first`. -/
structure SplitAt (d d' : HotDedupe) (first whole second : Batch) : Prop where
  /-- They know the same. -/
  known : ∀ h, whole.known d h = second.known d' h
  /-- The new events of the parts are those of the whole. -/
  newEvents : whole.newEvents = first.newEvents ++ second.newEvents
  /-- So are the duplicates. -/
  duplicates : whole.duplicates = first.duplicates + second.duplicates
  /-- So are the conflicts. -/
  conflicts : whole.conflicts = first.conflicts + second.conflicts

theorem SplitAt.classify {d' : HotDedupe} {first whole second : Batch}
    (h : SplitAt d d' first whole second)
    (c : Classified) : SplitAt d d' first (whole.classify d c) (second.classify d' c) := by
  refine ⟨fun k => ?_, ?_, ?_, ?_⟩
  · rw [Batch.known_classify, Batch.known_classify, h.known]
  all_goals
    cases hk : second.known d' c.eventIdHash with
    | some p =>
      rw [Batch.classify_of_known hk, Batch.classify_of_known ((h.known _).trans hk)]
      split_ifs
      · simp [h.newEvents, h.duplicates, h.conflicts, add_assoc]
      · simp [h.newEvents, h.duplicates, h.conflicts, add_assoc]
    | none =>
      rw [Batch.classify_of_unknown hk, Batch.classify_of_unknown ((h.known _).trans hk)]
      simp [h.newEvents, h.duplicates, h.conflicts]

/-- **A batch can be split anywhere.** -/
theorem classifyBatch_append (now : ℤ) (a b : List Classified) :
    SplitAt d (d.insertAll now (classifyBatch d a).newEvents) (classifyBatch d a)
      (classifyBatch d (a ++ b))
      (classifyBatch (d.insertAll now (classifyBatch d a).newEvents) b) := by
  induction b using List.reverseRecOn with
  | nil =>
    rw [append_nil]
    refine ⟨fun h => ?_, (append_nil _).symm, rfl, rfl⟩
    rw [← payloadOf_insertAll now]
    rfl
  | append_singleton b c ih =>
    rw [← append_assoc, classifyBatch_concat, classifyBatch_concat]
    exact ih.classify c

end Classify

/-! ### The events that are accepted -/

section Accepted

variable {X : Extern} {closed : List ClosedPeriod} {d : HotDedupe} {now : I64}

/-- The event is admitted, the cache does not have its id, and no admitted event before it has
it. -/
def IsFirst (X : Extern) (closed : List ClosedPeriod) (d : HotDedupe) (before : List UsageEvent)
    (e : UsageEvent) : Prop :=
  admits X closed e ∧ X.idHash e ∉ d.cache ∧ ∀ e' ∈ before, admits X closed e' → e'.eventId ≠ e.eventId

instance (before : List UsageEvent) (e : UsageEvent) : Decidable (IsFirst X closed d before e) :=
  inferInstanceAs (Decidable (_ ∧ _))

/-- The events of a list that are the first of their id, in their order. -/
def firstOccurrences (X : Extern) (closed : List ClosedPeriod) (d : HotDedupe)
    (events : List UsageEvent) : List UsageEvent :=
  (events.zipIdx.filter fun x => IsFirst X closed d (events.take x.2) x.1).map (·.1)

theorem firstOccurrences_concat (events : List UsageEvent) (e : UsageEvent) :
    firstOccurrences X closed d (events ++ [e]) =
      firstOccurrences X closed d events ++ if IsFirst X closed d events e then [e] else [] := by
  have hold : (events.zipIdx.filter fun x => IsFirst X closed d ((events ++ [e]).take x.2) x.1) =
      events.zipIdx.filter fun x => IsFirst X closed d (events.take x.2) x.1 := by
    refine filter_congr fun x hx => ?_
    -- The events before one of the old positions are the old ones.
    obtain ⟨-, hlt, -⟩ := mem_zipIdx hx
    rw [take_append_of_le_length (by omega)]
  have hlast :
      (([e].zipIdx events.length).filter
        fun x => IsFirst X closed d ((events ++ [e]).take x.2) x.1) =
      if IsFirst X closed d events e then [(e, events.length)] else [] := by
    rw [zipIdx_singleton, filter_singleton, take_left]
    simp
  rw [firstOccurrences, zipIdx_append, filter_append, map_append, Nat.zero_add, hold, hlast,
    firstOccurrences]
  congr 1
  split_ifs <;> rfl

/-- The ids that a batch does not know. -/
theorem known_eq_none_iff (events : List UsageEvent) (h : EventHash) :
    (classifyBatch d (classifiedEvents X closed now events)).known d h = none ↔
      h ∉ d.cache ∧ ∀ e ∈ events, admits X closed e → X.idHash e ≠ h := by
  induction events using List.reverseRecOn with
  | nil =>
    rw [← HotDedupe.payloadOf_eq_none]
    simp [classifiedEvents, classifyBatch, Batch.known]
  | append_singleton events e ih =>
    by_cases hadmits : admits X closed e
    · have hid : (classified X now e).eventIdHash = X.idHash e := X.idHash_stamp e now
      rw [classifiedEvents_concat hadmits, classifyBatch_concat, Batch.known_classify, hid]
      split_ifs with heq
      · simp [heq, hadmits]
      · rw [ih]
        simp only [mem_append, mem_singleton, or_imp, forall_and, forall_eq, hadmits, true_imp_iff]
        constructor
        · rintro ⟨hd, hev⟩
          exact ⟨hd, hev, fun h' => heq h'.symm⟩
        · rintro ⟨hd, hev, -⟩
          exact ⟨hd, hev⟩
    · rw [classifiedEvents_concat_of_not hadmits, ih]
      simp [or_imp, forall_and, hadmits]

/-- **The new events** are the first ones of their id that the cache does not have. -/
theorem newEvents_eq (hinj : X.HashesInjective { e | e ∈ events }) :
    (classifyBatch d (classifiedEvents X closed now events)).newEvents =
      (firstOccurrences X closed d events).map (classified X now) := by
  induction events using List.reverseRecOn with
  | nil => rfl
  | append_singleton events e ih =>
    have hold : X.HashesInjective { e | e ∈ events } :=
      ⟨fun a ha b hb => hinj.id a (mem_append_left _ ha) b (mem_append_left _ hb),
        fun a ha b hb => hinj.payload a (mem_append_left _ ha) b (mem_append_left _ hb)⟩
    have hlast : (classifyBatch d (classifiedEvents X closed now events)).known d (X.idHash e) = none ↔
        X.idHash e ∉ d.cache ∧ ∀ e' ∈ events, admits X closed e' → e'.eventId ≠ e.eventId := by
      rw [known_eq_none_iff]
      refine and_congr_right fun _ => forall₃_congr fun e' he' _ =>
        not_congr ⟨fun h => ?_, fun h => X.idHash_congr h⟩
      exact hinj.id e' (mem_append_left _ he') e (mem_append_right _ (mem_singleton_self e)) h
    rw [firstOccurrences_concat, map_append, ← ih hold]
    by_cases hadmits : admits X closed e
    · rw [classifiedEvents_concat hadmits, classifyBatch_concat]
      cases hk : (classifyBatch d (classifiedEvents X closed now events)).known d (X.idHash e) with
      | some p =>
        have hnot : ¬ IsFirst X closed d events e := fun h => by
          rw [hlast.2 h.2] at hk
          cases hk
        rw [Batch.classify_of_known (c := classified X now e) hk, if_neg hnot, map_nil, append_nil]
        split_ifs <;> rfl
      | none =>
        rw [Batch.classify_of_unknown (c := classified X now e) hk, if_pos ⟨hadmits, hlast.1 hk⟩]
        rfl
    · rw [classifiedEvents_concat_of_not hadmits, if_neg fun h => hadmits h.1, map_nil, append_nil]

end Accepted

/-! ### Requests -/

/-- All readings of the clock are the same. -/
def IngestClock.fixed (now : I64) : IngestClock := ⟨now, fun _ => now, fun _ => now, fun _ => now⟩

/-- The records that some steps append to the log. -/
def appendedRecords (effects : List Effect) : List UsageEvent :=
  effects.flatMap fun x => match x with
    | .walAppend _ events => events
    | _ => []

/-- What one or more requests come to. -/
structure Ingested where
  /-- The state they leave. -/
  state : State
  /-- The events that were accepted. -/
  accepted : List UsageEvent
  /-- The records appended to the log. -/
  records : List UsageEvent
  /-- The answers, added up. -/
  response : IngestBatchResponse

/-- The counts of two answers. -/
def IngestBatchResponse.add (r r' : IngestBatchResponse) : IngestBatchResponse :=
  ⟨r.accepted + r'.accepted, r.duplicates + r'.duplicates, r.conflicts + r'.conflicts,
    r.rejected + r'.rejected⟩

section Requests

variable (X : Extern) (cfg : Config) (clk : IngestClock)

/-- The batch of a request as the critical section leaves it. -/
def requestBatch (events : List UsageEvent) (s : State) : Batch :=
  classifyBatch s.mem.dedupe (classifiedEvents X s.mem.manifest.closedPeriods clk.now events)

/-- One request. -/
def ingestRequest (events : List UsageEvent) (s : State) : Ingested :=
  let r := handleIngest X cfg clk events s
  { state := r.1.state s
    accepted := (requestBatch X clk events s).newEvents.map (·.event)
    records := appendedRecords r.1.effects
    response := r.2 }

/-- A request for each event. -/
def ingestEach : List UsageEvent → State → Ingested
  | [], s => ⟨s, [], [], ⟨0, 0, 0, 0⟩⟩
  | e :: events, s =>
    let r := ingestRequest X cfg clk [e] s
    let rest := ingestEach events r.state
    ⟨rest.state, r.accepted ++ rest.accepted, r.records ++ rest.records, r.response.add rest.response⟩

end Requests

section

variable {X : Extern} {cfg : Config} {clk : IngestClock} {now : I64}
    {events : List UsageEvent} {s : State}

/-- What is logged is what is accepted. -/
theorem records_ingestRequest : (ingestRequest X cfg clk events s).records =
    (ingestRequest X cfg clk events s).accepted := by
  have hdrain : ∀ (m : Mem) cond, appendedRecords (m.drainIf cond).effects = [] := by
    intro m cond
    unfold Mem.drainIf
    split <;> rfl
  have happend : ∀ id es, appendedRecords (appendEffects id es) = es := by
    intro id es
    unfold appendEffects
    split_ifs with hempty
    · rw [isEmpty_iff.1 hempty]
      rfl
    · simp [appendedRecords]
  show appendedRecords (_ ++ _) = _
  rw [appendedRecords, flatMap_append, ← appendedRecords, ← appendedRecords, hdrain,
    happend, append_nil]
  rfl

/-- What is accepted goes into the memtable, behind what waits there and in the queue. -/
theorem unsealed_ingestRequest :
    (ingestRequest X cfg clk events s).state.mem.queue.flatMap (·.events) ++
        (ingestRequest X cfg clk events s).state.mem.memtable.events =
      s.mem.queue.flatMap (·.events) ++ s.mem.memtable.events ++
        (ingestRequest X cfg clk events s).accepted := by
  have hmem : ((s.mem.accept X clk (requestBatch X clk events s).newEvents).memtable).events =
      s.mem.memtable.events ++ (requestBatch X clk events s).newEvents.map (·.event) :=
        Memtable.insertAll_events ..
  rw [append_assoc, ingestRequest, ← hmem]
  simp only [handleIngest, ingestCriticalSection, Mem.drainIf]
  split
  · simp [Outcome.state, Mem.drainAndRotate, Memtable.drainAll, Mem.send, Mem.accept, requestBatch]
  · rfl

/-- A request changes nothing but the cache, the memtable, the log and the queue. -/
theorem mem_handleIngest :
    (handleIngest X cfg clk events s).1.mem.dedupe =
        commitAll s.mem.dedupe (requestBatch X clk events s).newEvents clk.evict clk.commit ∧
      (handleIngest X cfg clk events s).1.mem.manifest = s.mem.manifest ∧
      (handleIngest X cfg clk events s).1.mem.memtable.approxSizeBytes ≤ cfg.maxMemtableSizeBytes := by
  simp only [handleIngest, ingestCriticalSection, Mem.drainIf]
  split_ifs with hfull
  · exact ⟨rfl, rfl, Nat.zero_le _⟩
  · exact ⟨rfl, rfl, not_lt.1 (by simpa using hfull)⟩

/-- A request whose commits evict nothing puts its new events into the cache. -/
theorem dedupe_ingestRequest (hevict : NoEviction now s.mem.dedupe (requestBatch X (.fixed now)
    events s).newEvents) :
    (ingestRequest X cfg (.fixed now) events s).state.mem.dedupe =
      s.mem.dedupe.insertAll now (requestBatch X (.fixed now) events s).newEvents :=
  mem_handleIngest.1.trans hevict.commitAll

/-- The batch of a request, and the batches of its two parts. -/
theorem requestBatch_append (X : Extern) (now : I64) (a b : List UsageEvent) (s : State) :
    SplitAt s.mem.dedupe (s.mem.dedupe.insertAll now (requestBatch X (.fixed now) a s).newEvents)
      (requestBatch X (.fixed now) a s) (requestBatch X (.fixed now) (a ++ b) s)
      (classifyBatch (s.mem.dedupe.insertAll now (requestBatch X (.fixed now) a s).newEvents)
        (classifiedEvents X s.mem.manifest.closedPeriods now b)) := by
  have hcs : classifiedEvents X s.mem.manifest.closedPeriods now (a ++ b) =
      classifiedEvents X s.mem.manifest.closedPeriods now a ++
          classifiedEvents X s.mem.manifest.closedPeriods now b := by
    rw [classifiedEvents, filter_append, map_append]
    rfl
  have hwhole : requestBatch X (.fixed now) (a ++ b) s = classifyBatch s.mem.dedupe
      (classifiedEvents X s.mem.manifest.closedPeriods now a ++ classifiedEvents X
          s.mem.manifest.closedPeriods now b) :=
    congrArg (classifyBatch _) hcs
  rw [hwhole]
  exact classifyBatch_append now _ _

theorem rejected_add (closed : List ClosedPeriod) (now now' : I64) (a b : List UsageEvent) :
    (a ++ b).length - (classifiedEvents X closed now (a ++ b)).length =
      a.length - (classifiedEvents X closed now a).length +
        (b.length - (classifiedEvents X closed now' b).length) := by
  have ha := length_filter_le (admits X closed) a
  have hb := length_filter_le (admits X closed) b
  simp only [classifiedEvents, length_map, length_append, filter_append]
  omega

/-- **A request can be split in two.** -/
theorem ingestRequest_append (cfg : Config) (a b : List UsageEvent)
    (hevict : NoEviction now s.mem.dedupe (requestBatch X (.fixed now) (a ++ b) s).newEvents) :
    let whole := ingestRequest X cfg (.fixed now) (a ++ b) s
    let first := ingestRequest X cfg (.fixed now) a s
    let second := ingestRequest X cfg (.fixed now) b first.state
    (whole.accepted = first.accepted ++ second.accepted ∧
      whole.response = first.response.add second.response) ∧
      NoEviction now first.state.mem.dedupe (requestBatch X (.fixed now) b first.state).newEvents := by
  intro whole first second
  have hsplit := requestBatch_append X now a b s
  rw [hsplit.newEvents, noEviction_append] at hevict
  have hsecond : requestBatch X (.fixed now) b first.state = classifyBatch
      (s.mem.dedupe.insertAll now (requestBatch X (.fixed now) a s).newEvents)
      (classifiedEvents X s.mem.manifest.closedPeriods now b) := by
    have hmanifest : first.state.mem.manifest = s.mem.manifest := mem_handleIngest.2.1
    rw [requestBatch, hmanifest, dedupe_ingestRequest hevict.1]
    rfl
  have hmanifest : first.state.mem.manifest = s.mem.manifest := mem_handleIngest.2.1
  refine ⟨⟨?_, ?_⟩, ?_⟩
  · show (requestBatch X (.fixed now) (a ++ b) s).newEvents.map _ =
      _ ++ (requestBatch X (.fixed now) b first.state).newEvents.map _
    rw [hsplit.newEvents, map_append, hsecond]
    rfl
  · show (⟨(requestBatch X (.fixed now) (a ++ b) s).newEvents.length,
      (requestBatch X (.fixed now) (a ++ b) s).duplicates,
      (requestBatch X (.fixed now) (a ++ b) s).conflicts, _⟩ : IngestBatchResponse) =
      ⟨_ + (requestBatch X (.fixed now) b first.state).newEvents.length,
        _ + (requestBatch X (.fixed now) b first.state).duplicates,
        _ + (requestBatch X (.fixed now) b first.state).conflicts,
        _ + (_ - (classifiedEvents X first.state.mem.manifest.closedPeriods now b).length)⟩
    rw [hsplit.newEvents, hsplit.duplicates, hsplit.conflicts, hsecond, length_append, hmanifest]
    exact congrArg _ (rejected_add _ now now a b)
  · rw [hsecond, dedupe_ingestRequest hevict.1]
    exact hevict.2

/-- **A request for each event** comes to what one request for all of them comes to. -/
theorem ingestEach_eq (hevict : NoEviction now s.mem.dedupe (requestBatch X (.fixed now) events
    s).newEvents) :
    (ingestEach X cfg (.fixed now) events s).accepted =
      (ingestRequest X cfg (.fixed now) events s).accepted ∧
      (ingestEach X cfg (.fixed now) events s).records =
        (ingestRequest X cfg (.fixed now) events s).records ∧
      (ingestEach X cfg (.fixed now) events s).response =
        (ingestRequest X cfg (.fixed now) events s).response := by
  induction events generalizing s with
  | nil => exact ⟨rfl, by rw [records_ingestRequest]; rfl, rfl⟩
  | cons e events ih =>
    obtain ⟨⟨haccepted, hresponse⟩, hrest⟩ := ingestRequest_append cfg [e] events hevict
    obtain ⟨hacc, hrec, hresp⟩ := ih hrest
    rw [singleton_append] at haccepted hresponse
    rw [records_ingestRequest, haccepted, hresponse, ← hacc, ← hresp]
    refine ⟨rfl, ?_, rfl⟩
    show (ingestRequest X cfg (.fixed now) [e] s).records ++ _ = _
    rw [records_ingestRequest, hrec, records_ingestRequest, ← hacc]

/-- A request without new events changes nothing, unless the memtable is full. -/
theorem handleIngest_of_none (hnone : (requestBatch X clk events s).newEvents = [])
    (hroom : s.mem.memtable.approxSizeBytes ≤ cfg.maxMemtableSizeBytes) :
      (handleIngest X cfg clk events s).1 = .skip s := by
  have hfull : decide (cfg.maxMemtableSizeBytes < s.mem.memtable.approxSizeBytes) = false :=
    decide_eq_false (not_lt.2 hroom)
  rw [requestBatch] at hnone
  have haccept : s.mem.accept X clk [] = s.mem := rfl
  simp only [handleIngest, ingestCriticalSection, hnone, haccept, Mem.drainIf, hfull]
  rfl

/-- **A request that comes again** accepts nothing and changes nothing. -/
theorem ingestRequest_again (hevict : NoEviction now s.mem.dedupe (requestBatch X (.fixed now)
    events s).newEvents)
    (clk : IngestClock) :
    let once := ingestRequest X cfg (.fixed now) events s
    let again := ingestRequest X cfg clk events once.state
    again.accepted = [] ∧ again.response.accepted = 0 ∧ again.state = once.state := by
  intro once again
  have hnone : (requestBatch X clk events once.state).newEvents = [] := by
    refine eq_nil_iff_forall_not_mem.2 fun c hc => ?_
    have hunknown := (classifyBatch_fresh _ _).unknown c hc
    obtain ⟨e, he, hadmits, rfl⟩ := mem_newEvents hc
    have hmanifest : once.state.mem.manifest = s.mem.manifest := mem_handleIngest.2.1
    rw [hmanifest] at hadmits
    rw [← HotDedupe.payloadOf_eq_none, dedupe_ingestRequest hevict, requestBatch,
      payloadOf_insertAll, known_eq_none_iff]
      at hunknown
    exact hunknown.2 e he hadmits rfl
  have hskip : (handleIngest X cfg clk events once.state).1 = .skip once.state :=
    handleIngest_of_none hnone mem_handleIngest.2.2
  refine ⟨?_, ?_, ?_⟩
  · show (requestBatch X clk events once.state).newEvents.map _ = []
    rw [hnone, map_nil]
  · show (requestBatch X clk events once.state).newEvents.length = 0
    rw [hnone, length_nil]
  · show (handleIngest X cfg clk events once.state).1.state once.state = once.state
    rw [hskip, Outcome.skip_state]

end

/-- **Ingest is idempotent, and a batch may be split.** For every state, batch and fixed clock for
which no commit evicts anything: every event is counted once; the accepted events are, in order, the
first admitted ones of their id that the cache does not have, and they are what is logged and what
the memtable gets; a request for each event accepts the same events, logs the same records and
counts the same; and the same batch again accepts nothing and leaves the state as it is. -/
theorem ingest_idempotent_and_splits (X : Extern) (cfg : Config) (now : I64)
    (events : List UsageEvent) (s : State)
    (hevict : NoEviction now s.mem.dedupe (requestBatch X (.fixed now) events s).newEvents) :
    let once := ingestRequest X cfg (.fixed now) events s
    let each := ingestEach X cfg (.fixed now) events s
    let again := ingestRequest X cfg (.fixed now) events once.state
    once.response.accepted + once.response.duplicates + once.response.conflicts +
      once.response.rejected = events.length ∧ once.response.accepted = once.accepted.length ∧
      (X.HashesInjective { e | e ∈ events } →
        once.accepted = (firstOccurrences X s.mem.manifest.closedPeriods s.mem.dedupe events).map
          (·.stamp now)) ∧
      (once.records = once.accepted ∧
        once.state.mem.queue.flatMap (·.events) ++ once.state.mem.memtable.events =
          s.mem.queue.flatMap (·.events) ++ s.mem.memtable.events ++ once.accepted) ∧
      (each.accepted = once.accepted ∧ each.records = once.records ∧ each.response = once.response) ∧
      again.accepted = [] ∧ again.response.accepted = 0 ∧ again.state = once.state := by
  intro once each again
  refine ⟨?_, ?_, ?_, ⟨records_ingestRequest, unsealed_ingestRequest⟩, ingestEach_eq hevict,
    ingestRequest_again hevict _⟩
  · have hcount := length_classifyBatch (d := s.mem.dedupe)
      (classifiedEvents X s.mem.manifest.closedPeriods now events)
    have hle : (classifiedEvents X s.mem.manifest.closedPeriods now events).length ≤ events.length := by
      rw [classifiedEvents, length_map]
      exact length_filter_le _ _
    show (requestBatch X (.fixed now) events s).newEvents.length +
      (requestBatch X (.fixed now) events s).duplicates +
      (requestBatch X (.fixed now) events s).conflicts +
      (events.length - (classifiedEvents X s.mem.manifest.closedPeriods now events).length) =
        events.length
    rw [show (requestBatch X (.fixed now) events s).newEvents.length +
      (requestBatch X (.fixed now) events s).duplicates +
      (requestBatch X (.fixed now) events s).conflicts = _ from hcount]
    omega
  · exact (length_map _).symm
  · intro hinj
    show (classifyBatch _ (classifiedEvents X _ now events)).newEvents.map _ = _
    rw [newEvents_eq hinj, map_map]
    rfl

/-- A store with nothing in it. -/
def freshState : State :=
  ⟨.empty, { manifest := {}, dedupe := .new 10, memtable := ⟨[], 0, none⟩, activeId := 1, queue := [] }⟩

/-- An id twice with one payload and once with another, a second id, and an event without an id. -/
def mixedBatch : List UsageEvent :=
  [sampleEvent "a" "acme" 7200000 5, sampleEvent "a" "acme" 7200000 6, sampleEvent "b" "acme" 7200000 5,
    sampleEvent "a" "acme" 7200000 5, sampleEvent "" "acme" 7200000 5]

theorem ingest_idempotent_and_splits_of_mixed :
    (ingestRequest .sample sampleConfig (.fixed 0) mixedBatch freshState).response = ⟨2, 1, 1, 1⟩ ∧
      (ingestRequest .sample sampleConfig (.fixed 0) mixedBatch freshState).accepted =
        (firstOccurrences .sample [] (.new 10) mixedBatch).map (·.stamp 0) ∧
      (ingestEach .sample sampleConfig (.fixed 0) mixedBatch freshState).response = ⟨2, 1, 1, 1⟩ ∧
      (ingestRequest .sample sampleConfig (.fixed 0) mixedBatch
        (ingestRequest .sample sampleConfig (.fixed 0) mixedBatch freshState).state).accepted = [] := by
  have hevict :
      NoEviction 0 freshState.mem.dedupe (requestBatch .sample (.fixed 0) mixedBatch
          freshState).newEvents :=
    noEviction_of_room (fun x hx => by cases hx) (by decide) (by decide +kernel)
  have hinj : Extern.sample.HashesInjective { e | e ∈ mixedBatch } := by
    constructor
    · show ∀ e ∈ mixedBatch, ∀ e' ∈ mixedBatch, _
      decide +kernel
    · show ∀ e ∈ mixedBatch, ∀ e' ∈ mixedBatch, _
      decide +kernel
  obtain ⟨-, -, haccepted, -, ⟨-, -, heach⟩, hagain, -, -⟩ :=
    ingest_idempotent_and_splits .sample sampleConfig 0 mixedBatch freshState hevict
  have honce : (ingestRequest .sample sampleConfig (.fixed 0) mixedBatch freshState).response =
      ⟨2, 1, 1, 1⟩ := by
    decide +kernel
  exact ⟨honce, haccepted hinj, heach.trans honce, hagain⟩

end UsageDb
