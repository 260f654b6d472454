import UsageDb.Refine.Ledger

/-!
# The cache and the ledger

While nothing expires and there is room, the dedupe cache has exactly the billed events
(`DedupeOk`), so it tells of an offered event what the ledger says of it. From this the
whole classification of a batch, with the events already seen in it, is the ledger's
(`BatchSim.foldl`): the same events are new and the counts are the same.
-/

namespace UsageDb

open Lib List

variable {l : Ledger} {m : Manifest}

/-- The events of `U` with any time stamped on them. -/
def stamped (U : Set UsageEvent) : Set UsageEvent := { e | ∃ e₀ ∈ U, ∃ now, e = e₀.stamp now }

theorem subset_stamped (U : Set UsageEvent) : U ⊆ stamped U := fun e he => ⟨e, he, e.ingestedAtMs, rfl⟩

variable {X : Extern} {U : Set UsageEvent}

/-- The hashes do not see the stamp. -/
theorem Extern.HashesInjective.stamped (h : X.HashesInjective U) : X.HashesInjective (stamped U) := by
  constructor
  · rintro _ ⟨e, he, now, rfl⟩ _ ⟨e', he', now', rfl⟩ heq
    exact h.id e he e' he' heq
  · rintro _ ⟨e, he, now, rfl⟩ _ ⟨e', he', now', rfl⟩ heq
    exact h.payload e he e' he' heq

/-! ### What the cache knows -/

/-- The cache knows exactly the events of `c`, none of them since before `t₀`. -/
structure DedupeOk (X : Extern) (capacity : ℕ) (t₀ : ℤ) (c : Multiset UsageEvent) (d : HotDedupe) :
    Prop where
  ttl : d.ttlMs = DEFAULT_TTL_MS
  /-- The capacity is the configured one. -/
  capacity : d.maxCapacity = capacity
  /-- Every event is known with its payload. -/
  known : ∀ e ∈ c, ∃ t, d.cache.lookup (X.idHash e) = some ⟨X.payloadHash e, t⟩
  /-- Nothing else is. -/
  only : ∀ h ∈ d.cache, ∃ e ∈ c, X.idHash e = h
  /-- The queue has no entry from before `t₀`. -/
  recent : ∀ x ∈ d.order, t₀ ≤ x.2

namespace DedupeOk

variable {cap : ℕ} {t₀ : ℤ} {c : Multiset UsageEvent} {d : HotDedupe} {e : UsageEvent}

/-- The cache has at most one entry for each event. -/
theorem length_le (h : DedupeOk X cap t₀ c d) : d.cache.entries.length ≤ Multiset.card c := by
  have hsub : d.cache.keys ⊆ (c.toList.map X.idHash) := by
    intro k hk
    obtain ⟨e, he, rfl⟩ := h.only k (AList.mem_keys.2 hk)
    exact mem_map_of_mem (Multiset.mem_toList.2 he)
  have hle := (d.cache.keys_nodup.subperm hsub).length_le
  rw [length_map, Multiset.length_toList] at hle
  have hlen : d.cache.keys.length = d.cache.entries.length := by simp [AList.keys, List.keys]
  omega

theorem mem_iff (h : DedupeOk X cap t₀ c d) {k : EventHash} : k ∈ d.cache ↔
    ∃ e ∈ c, X.idHash e = k := by
  refine ⟨h.only k, ?_⟩
  rintro ⟨e, he, rfl⟩
  obtain ⟨t, ht⟩ := h.known e he
  exact AList.lookup_isSome.1 (by simp [ht])

/-- A new event is committed. -/
theorem commit (h : DedupeOk X cap t₀ c d) (hnew : ∀ e' ∈ c, X.idHash e' ≠ X.idHash e)
    (hroom : Multiset.card c + 1 ≤ cap) {evictNow now : ℤ} (hevict : evictNow ≤ t₀ + DEFAULT_TTL_MS)
    (hnow : t₀ ≤ now) :
    DedupeOk X cap t₀ (e ::ₘ c) (d.commit (X.idHash e) (X.payloadHash e) evictNow now) := by
  have hfresh : ∀ x ∈ d.order, evictNow - d.ttlMs ≤ x.2 := by
    intro x hx
    have := h.recent x hx
    rw [h.ttl]
    omega
  have hnot : X.idHash e ∉ d.cache := by
    rw [h.mem_iff]
    rintro ⟨e', he', heq⟩
    exact hnew e' he' heq
  rw [HotDedupe.commit_eq_insertKnown hfresh fun _ => by
    have := h.length_le
    rw [h.capacity]
    omega]
  constructor
  · rw [HotDedupe.insertKnown_ttlMs, h.ttl]
  · rw [HotDedupe.insertKnown_maxCapacity, h.capacity]
  · intro e' he'
    rcases Multiset.mem_cons.1 he' with rfl | he'
    · exact ⟨now, HotDedupe.lookup_insertKnown_new hnot⟩
    · obtain ⟨t, ht⟩ := h.known e' he'
      exact ⟨t, (HotDedupe.lookup_insertKnown_ne (hnew e' he')).trans ht⟩
  · intro k hk
    rcases HotDedupe.mem_insertKnown.1 hk with rfl | hk
    · exact ⟨e, Multiset.mem_cons_self _ _, rfl⟩
    · obtain ⟨e', he', heq⟩ := h.only k hk
      exact ⟨e', Multiset.mem_cons_of_mem he', heq⟩
  · intro x hx
    rcases HotDedupe.order_insertKnown hx with hx | rfl
    · exact h.recent x hx
    · exact hnow

/-- The new events of a batch are committed one after another. -/
theorem commitAll {cs : List Classified} (evict now : ℕ → ℤ) (h : DedupeOk X cap t₀ c d)
    (hhash : ∀ x ∈ cs, x.eventIdHash = X.idHash x.event ∧ x.payloadHash = X.payloadHash x.event)
    (hnew : ∀ x ∈ cs, ∀ e' ∈ c, X.idHash e' ≠ X.idHash x.event)
    (hdist : (cs.map fun x => X.idHash x.event).Nodup) (hroom : Multiset.card c + cs.length ≤ cap)
    (hevict : ∀ i, evict i ≤ t₀ + DEFAULT_TTL_MS) (hnow : ∀ i, t₀ ≤ now i) :
    DedupeOk X cap t₀ (c + ↑(cs.map (·.event))) (UsageDb.commitAll d cs evict now) := by
  induction cs generalizing c d evict now with
  | nil => simpa [UsageDb.commitAll] using h
  | cons x cs ih =>
    rw [map_cons, nodup_cons] at hdist
    rw [length_cons] at hroom
    have hx := hhash x (by simp)
    have hstep := h.commit (e := x.event) (hnew x (by simp)) (by omega) (hevict 0) (hnow 0)
    have hrest := ih (fun i => evict (i + 1)) (fun i => now (i + 1)) hstep
      (fun y hy => hhash y (by simp [hy])) ?_ hdist.2 (by rw [Multiset.card_cons]; omega)
      (fun i => hevict _) fun i => hnow _
    · rw [UsageDb.commitAll, hx.1, hx.2]
      have hsum : c + ↑((x :: cs).map (·.event)) = x.event ::ₘ c + ↑(cs.map (·.event)) := by
        rw [map_cons, ← Multiset.cons_coe, Multiset.add_cons, Multiset.cons_add]
      rw [hsum]
      exact hrest
    · intro y hy e' he'
      rcases Multiset.mem_cons.1 he' with rfl | he'
      · exact fun heq => hdist.1 (heq ▸ mem_map_of_mem hy)
      · exact hnew y (by simp [hy]) e' he'

/-- **The cache says what the ledger says.** -/
theorem classify (h : DedupeOk X cap t₀ l.events.val d) (hinj : X.HashesInjective U)
    (hl : ∀ e ∈ l.events, e ∈ U) (he : e ∈ U) :
    d.classify (X.idHash e) (X.payloadHash e) = l.classify e := by
  by_cases hex : ∃ e' ∈ l.events, e'.eventId = e.eventId
  · obtain ⟨e', he', hid⟩ := hex
    obtain ⟨t, ht⟩ := h.known e' he'
    rw [X.idHash_congr hid] at ht
    rw [HotDedupe.classify_of_lookup ht, Ledger.classify_of_mem he' hid]
    by_cases hp : e'.payload = e.payload
    · have : X.payloadHash e' = X.payloadHash e := by rw [Extern.payloadHash, hp, Extern.payloadHash]
      rw [if_pos this, if_pos hp]
    · rw [if_neg hp, if_neg fun heq => hp (hinj.payload e' (hl e' he') e he heq)]
  · push Not at hex
    rw [Ledger.classify_of_forall_ne hex, HotDedupe.classify_eq_newEvent, h.mem_iff]
    rintro ⟨e', he', heq⟩
    exact hex e' he' (hinj.id e' (hl e' he') e he heq)

end DedupeOk

/-! ### A batch -/

/-- The periods a manifest has closed. -/
def Manifest.closedKeys (m : Manifest) : Finset (String × ℕ × ℕ) :=
  (m.closedPeriods.map fun p => (p.accountId, p.year, p.month)).toFinset

theorem mem_closedKeys {account : String} {year month : ℕ} :
    (account, year, month) ∈ m.closedKeys ↔ ∃ p ∈ m.closedPeriods, p.IsFor account year month := by
  simp [Manifest.closedKeys, ClosedPeriod.IsFor]

theorem inClosedPeriod_eq (h : m.closedKeys = l.closed) (e : UsageEvent) :
    inClosedPeriod X m.closedPeriods e = (e.kind = .usage &&
      (X.periodForTs e.timestampMs).any fun p => (e.accountId, p.1, p.2) ∈ l.closed) := by
  rw [inClosedPeriod]
  congr 1
  cases hp : X.periodForTs e.timestampMs with
  | none => rfl
  | some p =>
    rw [Bool.eq_iff_iff, Option.any_some, decide_eq_true_eq, ← h, mem_closedKeys]
    simp

/-- The store admits what the ledger admits. -/
theorem admits_eq (h : m.closedKeys = l.closed) (e : UsageEvent) :
    admits X m.closedPeriods e = l.admits X e := by
  rw [admits, Ledger.admits, inClosedPeriod_eq h]

/-- What the loop has made of a batch is what the ledger has made of it. -/
structure BatchSim (X : Extern) (V : Set UsageEvent) (l₀ : Ledger) (b : Batch)
    (x : Ledger × IngestBatchResponse) : Prop where
  /-- The new events have been billed. -/
  events : x.1.events.val = l₀.events.val + ↑(b.newEvents.map (·.event))
  /-- No period has been closed or opened. -/
  closed : x.1.closed = l₀.closed
  /-- The hashes are those of the events. -/
  hashes : ∀ c ∈ b.newEvents, c.eventIdHash = X.idHash c.event ∧ c.payloadHash = X.payloadHash c.event
  /-- The batch remembers its new events. -/
  seen : ∀ h p, b.seenInBatch.lookup h = some p ↔ ∃ c ∈ b.newEvents, c.eventIdHash = h ∧
    c.payloadHash = p
  /-- They are events that may occur. -/
  offered : ∀ c ∈ b.newEvents, c.event ∈ V
  /-- The counts agree. -/
  accepted : x.2.accepted = b.newEvents.length
  /-- The counts agree. -/
  duplicates : x.2.duplicates = b.duplicates
  /-- The counts agree. -/
  conflicts : x.2.conflicts = b.conflicts

namespace BatchSim

variable {V : Set UsageEvent} {l₀ : Ledger} {b : Batch} {x : Ledger × IngestBatchResponse}
  {cap : ℕ} {t₀ : ℤ} {d : HotDedupe} {e : UsageEvent}

theorem mem_events (h : BatchSim X V l₀ b x) {e' : UsageEvent} :
    e' ∈ x.1.events ↔ e' ∈ l₀.events ∨ ∃ c ∈ b.newEvents, c.event = e' := by
  rw [← Finset.mem_val, h.events, Multiset.mem_add, Finset.mem_val, Multiset.mem_coe, mem_map]

/-- What the loop finds for an event, in the batch or in the cache, is what the ledger
says of it: the payload that is known for its id. -/
theorem classify_eq (h : BatchSim X V l₀ b x) (hd : DedupeOk X cap t₀ l₀.events.val d)
    (hinj : X.HashesInjective V) (hl : ∀ e ∈ l₀.events, e ∈ V) (he : e ∈ V) :
    x.1.classify e = match b.seenInBatch.lookup (X.idHash e) with
      | some p => if p = X.payloadHash e then .exactDuplicate else .payloadConflict
      | none => d.classify (X.idHash e) (X.payloadHash e) := by
  cases hseen : b.seenInBatch.lookup (X.idHash e) with
  | some p =>
    obtain ⟨c, hc, hid, hp⟩ := (h.seen _ _).1 hseen
    obtain ⟨hcid, hcp⟩ := h.hashes c hc
    have hcV := h.offered c hc
    have hid' : c.event.eventId = e.eventId := hinj.id _ hcV _ he (hcid.symm.trans hid)
    dsimp only
    rw [Ledger.classify_of_mem (h.mem_events.2 (.inr ⟨c, hc, rfl⟩)) hid', ← hp, hcp]
    by_cases hpe : c.event.payload = e.payload
    · rw [if_pos hpe, if_pos (by rw [Extern.payloadHash, hpe, Extern.payloadHash])]
    · rw [if_neg hpe, if_neg fun heq => hpe (hinj.payload _ hcV _ he heq)]
  | none =>
    rw [hd.classify hinj hl he]
    have hbatch : ∀ c ∈ b.newEvents, c.event.eventId ≠ e.eventId := by
      intro c hc hid
      have hsome := (h.seen (X.idHash e) c.payloadHash).2
        ⟨c, hc, (h.hashes c hc).1.trans (X.idHash_congr hid), rfl⟩
      rw [hseen] at hsome
      cases hsome
    by_cases hex : ∃ e' ∈ l₀.events, e'.eventId = e.eventId
    · obtain ⟨e', he', hid⟩ := hex
      rw [Ledger.classify_of_mem (h.mem_events.2 (.inl he')) hid, Ledger.classify_of_mem he' hid]
    · push Not at hex
      rw [Ledger.classify_of_forall_ne hex, Ledger.classify_of_forall_ne]
      intro e' he'
      rcases h.mem_events.1 he' with he' | ⟨c, hc, rfl⟩
      · exact hex e' he'
      · exact hbatch c hc

/-- A new event is billed and remembered. -/
theorem add (h : BatchSim X V l₀ b x) {now : I64} (hstamp : e.stamp now ∈ V)
    (hseen : b.seenInBatch.lookup (X.idHash e) = none)
    (hne : ∀ e' ∈ x.1.events, e'.eventId ≠ e.eventId) :
    BatchSim X V l₀
      { b with
        newEvents := b.newEvents ++ [⟨e.stamp now, X.idHash e, X.payloadHash e⟩]
        seenInBatch := b.seenInBatch.insert (X.idHash e) (X.payloadHash e) }
      (x.1.add (e.stamp now), { x.2 with accepted := x.2.accepted + 1 }) := by
  generalize hc : (⟨e.stamp now, X.idHash e, X.payloadHash e⟩ : Classified) = c
  have hid : c.eventIdHash = X.idHash e := by rw [← hc]
  have hpay : c.payloadHash = X.payloadHash e := by rw [← hc]
  have hev : c.event = e.stamp now := by rw [← hc]
  have hsplit : ∀ {P : Classified → Prop}, (∀ y ∈ b.newEvents, P y) → P c →
      ∀ y ∈ b.newEvents ++ [c], P y := by
    intro P hP hc y hy
    rcases mem_append.1 hy with hy | hy
    · exact hP y hy
    · exact mem_singleton.1 hy ▸ hc
  constructor
  · rw [Ledger.add_val (by simpa using hne), h.events, map_append, ← Multiset.coe_add,
      Multiset.add_assoc, ← hev]
    rfl
  · simpa using h.closed
  · exact hsplit h.hashes ⟨hid.trans (by rw [hev]; rfl), hpay.trans (by rw [hev]; rfl)⟩
  · intro k p
    by_cases hk : k = X.idHash e
    · subst hk
      rw [AList.lookup_insert, Option.some.injEq]
      constructor
      · rintro rfl
        exact ⟨c, by simp, hid, hpay⟩
      · rintro ⟨y, hy, hyid, rfl⟩
        rcases mem_append.1 hy with hy | hy
        · have := (h.seen (X.idHash e) y.payloadHash).2 ⟨y, hy, hyid, rfl⟩
          rw [hseen] at this
          cases this
        · exact (mem_singleton.1 hy ▸ hpay).symm
    · rw [AList.lookup_insert_ne hk, h.seen]
      constructor
      · rintro ⟨y, hy, hyp⟩
        exact ⟨y, by simp [hy], hyp⟩
      · rintro ⟨y, hy, hyid, hyp⟩
        rcases mem_append.1 hy with hy | hy
        · exact ⟨y, hy, hyid, hyp⟩
        · rw [mem_singleton.1 hy, hid] at hyid
          exact absurd hyid.symm hk
  · exact hsplit h.offered (hev ▸ hstamp)
  · simp [h.accepted]
  · exact h.duplicates
  · exact h.conflicts

/-- One admitted event. -/
theorem offer (h : BatchSim X V l₀ b x) (hd : DedupeOk X cap t₀ l₀.events.val d)
    (hinj : X.HashesInjective V) (hl : ∀ e ∈ l₀.events, e ∈ V) (now : I64) (he : e ∈ V)
    (hstamp : e.stamp now ∈ V) (hadm : x.1.admits X e) :
    BatchSim X V l₀ (b.classify d (classified X now e)) (Ledger.offer X now x e) := by
  have hcls := h.classify_eq hd hinj hl he
  have hc : classified X now e = ⟨e.stamp now, X.idHash e, X.payloadHash e⟩ := rfl
  rw [Ledger.offer, if_pos hadm, hc, Batch.classify]
  cases hseen : b.seenInBatch.lookup (X.idHash e) with
  | some p =>
    simp only [hseen] at hcls ⊢
    by_cases hp : p = X.payloadHash e
    · rw [if_pos hp] at hcls ⊢
      rw [hcls]
      exact { h with duplicates := by simp [h.duplicates] }
    · rw [if_neg hp] at hcls ⊢
      rw [hcls]
      exact { h with conflicts := by simp [h.conflicts] }
  | none =>
    simp only [hseen] at hcls ⊢
    simp only [← hcls]
    cases hx : x.1.classify e with
    | exactDuplicate => exact { h with duplicates := by simp [h.duplicates] }
    | payloadConflict => exact { h with conflicts := by simp [h.conflicts] }
    | newEvent => exact h.add hstamp hseen (Ledger.forall_ne_of_classify hx)

/-- The loop over a request. The events that the ledger rejects are those that do not reach
the loop. -/
theorem foldl (hd : DedupeOk X cap t₀ l₀.events.val d) (hinj : X.HashesInjective V)
    (hl : ∀ e ∈ l₀.events, e ∈ V) (hm : m.closedKeys = l₀.closed) (now : I64) {events : List UsageEvent}
    (he : ∀ e ∈ events, e ∈ V ∧ e.stamp now ∈ V) (h : BatchSim X V l₀ b x) :
    BatchSim X V l₀ ((classifiedEvents X m.closedPeriods now events).foldl (Batch.classify d) b)
        (events.foldl (Ledger.offer X now) x) ∧
      (events.foldl (Ledger.offer X now) x).2.rejected +
        (classifiedEvents X m.closedPeriods now events).length = x.2.rejected + events.length := by
  induction events generalizing b x with
  | nil => exact ⟨h, by simp [classifiedEvents]⟩
  | cons e es ih =>
    have he' : ∀ e ∈ es, e ∈ V ∧ e.stamp now ∈ V := fun e' h' => he e' (by simp [h'])
    have hadm := admits_eq (X := X) (hm.trans h.closed.symm) e
    cases hx : x.1.admits X e with
    | true =>
      obtain ⟨hV, hstamp⟩ := he e (by simp)
      obtain ⟨hsim, hrej⟩ := ih he' (h.offer hd hinj hl now hV hstamp hx)
      have hcls : classifiedEvents X m.closedPeriods now (e :: es) =
          classified X now e :: classifiedEvents X m.closedPeriods now es := by
        simp [classifiedEvents, hadm, hx]
      have hsame : (Ledger.offer X now x e).2.rejected = x.2.rejected := by
        rw [Ledger.offer, if_pos hx]
        split <;> rfl
      rw [hcls, foldl_cons, foldl_cons, length_cons, length_cons]
      exact ⟨hsim, by omega⟩
    | false =>
      have hoff : Ledger.offer X now x e = (x.1, { x.2 with rejected := x.2.rejected + 1 }) := by
        rw [Ledger.offer, if_neg (by simp [hx])]
      have hskip : BatchSim X V l₀ b (Ledger.offer X now x e) := by
        rw [hoff]
        exact { h with }
      obtain ⟨hsim, hrej⟩ := ih he' hskip
      have hcls : classifiedEvents X m.closedPeriods now (e :: es) =
          classifiedEvents X m.closedPeriods now es := by
        simp [classifiedEvents, hadm, hx]
      rw [hcls, foldl_cons, length_cons]
      refine ⟨hsim, ?_⟩
      rw [hoff] at hrej ⊢
      simp only at hrej ⊢
      omega

end BatchSim

/-- **A request is the ledger's**: the new events are those the ledger bills, and the answer
is the ledger's answer. -/
theorem handleIngest_sim {cfg : Config} {V : Set UsageEvent} {cap : ℕ} {t₀ : ℤ} {s : State}
    (hd : DedupeOk X cap t₀ l.events.val s.mem.dedupe) (hinj : X.HashesInjective V)
    (hl : ∀ e ∈ l.events, e ∈ V) (hm : s.mem.manifest.closedKeys = l.closed) (clk : IngestClock)
    {events : List UsageEvent} (he : ∀ e ∈ events, e ∈ V ∧ e.stamp clk.now ∈ V) :
    BatchSim X V l (classifyBatch s.mem.dedupe
        (classifiedEvents X s.mem.manifest.closedPeriods clk.now events)) (l.ingest X clk.now events) ∧
      (handleIngest X cfg clk events s).2 = (l.ingest X clk.now events).2 := by
  have hinit : BatchSim X V l ⟨[], ∅, 0, 0⟩ (l, ⟨0, 0, 0, 0⟩) := by
    refine ⟨by simp, rfl, by simp, by simp, by simp, rfl, rfl, rfl⟩
  obtain ⟨hsim, hrej⟩ := hinit.foldl hd hinj hl hm clk.now he
  refine ⟨hsim, ?_⟩
  have h1 := hsim.accepted
  have h2 := hsim.duplicates
  have h3 := hsim.conflicts
  have h4 : (l.ingest X clk.now events).2.rejected =
      events.length - (classifiedEvents X s.mem.manifest.closedPeriods clk.now events).length := by
    rw [Ledger.ingest]
    simp only at hrej
    omega
  rw [← Ledger.ingest] at h1 h2 h3
  generalize (l.ingest X clk.now events).2 = r at h1 h2 h3 h4
  obtain ⟨accepted, duplicates, conflicts, rejected⟩ := r
  obtain rfl := h1
  obtain rfl := h2
  obtain rfl := h3
  obtain rfl := h4
  rfl

end UsageDb
