import UsageDb.Refine.Store

/-!
# Clients that try again

A client that gets no answer does not know whether its request was executed, and sends it
again. The store is meant for this: it knows an event it has billed, also after a crash, and
does not bill it again.

Here requests come in any number, with any events in them, some of them cut off by crashes, in
between the work of the server. All that is assumed of the clients is that an event keeps its
payload when it is sent again (`AtLeastOnce`). The events on the disk are then those that were
delivered, without their repetitions (`retries_bill_once`), and an answer counts as accepted
those that are new and as duplicates all others. The assumptions on the cache are those of
`store_refines_ledger`.
-/

namespace UsageDb

open Lib List

variable {X : Extern} {cfg : Config}

/-! ### What is delivered -/

/-- The operation that is executed: one that is cut before its first durable step is not. -/
def Label.executes : Label → Option Op
  | .run op => some op
  | .cut op k => if k = 0 then none else some op
  | _ => none

/-- The events that it delivers. -/
def Label.delivers (lab : Label) : List UsageEvent := lab.executes.elim [] Op.offers

/-- The events that were delivered in a run, each as often as it was. -/
def delivered (ls : List Label) : List UsageEvent := ls.flatMap Label.delivers

/-- The period is closed. -/
def Label.Closes (key : String × ℕ × ℕ) (lab : Label) : Prop :=
  ∃ now, lab.executes = some (.closePeriod key.1 key.2.1 key.2.2 now)

/-- What is assumed of the clients. -/
structure AtLeastOnce (X : Extern) (ls : List Label) : Prop where
  /-- They send valid events. -/
  valid : ∀ e ∈ delivered ls, e.Valid
  /-- An event that is sent again is the same. -/
  same : ∀ e ∈ delivered ls, ∀ e' ∈ delivered ls, e.eventId = e'.eventId → e.payload = e'.payload
  /-- The periods of their usage stay open. -/
  stays : ∀ e ∈ delivered ls, e.kind = .usage → ∀ p ∈ X.periodForTs e.timestampMs, ∀ lab ∈ ls,
    ¬ lab.Closes (e.accountId, p.1, p.2)

theorem delivered_append (ls ls' : List Label) : delivered (ls ++ ls') = delivered ls ++
    delivered ls' :=
  flatMap_append

theorem AtLeastOnce.init {ls ls' : List Label} (h : AtLeastOnce X (ls ++ ls')) : AtLeastOnce X ls := by
  have hmem : ∀ e ∈ delivered ls, e ∈ delivered (ls ++ ls') := fun e he => by
    rw [delivered_append]
    exact mem_append_left _ he
  exact ⟨fun e he => h.valid e (hmem e he), fun e he e' he' => h.same e (hmem e he) e' (hmem e' he'),
    fun e he hk p hp lab hlab => h.stays e (hmem e he) hk p hp lab (mem_append_left _ hlab)⟩

/-! ### The ledger of such clients -/

namespace Ledger

variable {l : Ledger} {e : UsageEvent} {ls : List Label}

/-- The billed events without their stamps. -/
def payloads (l : Ledger) : Finset UsageEvent := l.events.image UsageEvent.payload

theorem mem_payloads {q : UsageEvent} : q ∈ l.payloads ↔ ∃ e ∈ l.events, e.payload = q :=
  Finset.mem_image

/-- An event that keeps its payload is known, or its id is new. -/
theorem classify_of_same (hsame : ∀ q ∈ l.payloads, q.eventId = e.eventId → q = e.payload) :
    l.classify e = if e.payload ∈ l.payloads then .exactDuplicate else .newEvent := by
  split
  · rename_i hmem
    obtain ⟨e', he', hpayload⟩ := mem_payloads.1 hmem
    have hid : e'.eventId = e.eventId := by simpa using congrArg UsageEvent.eventId hpayload
    rw [classify_of_mem he' hid, if_pos hpayload]
  · rename_i hmem
    refine classify_of_forall_ne fun e' he' hid => hmem ?_
    have hpayload : e'.payload ∈ l.payloads := mem_payloads.2 ⟨e', he', rfl⟩
    exact hsame _ hpayload hid ▸ hpayload

/-- What a request does with one event. -/
theorem offer_of_same (now : I64) {x : Ledger × IngestBatchResponse} (hadm : x.1.admits X e)
    (hsame : ∀ q ∈ x.1.payloads, q.eventId = e.eventId → q = e.payload) :
    (offer X now x e).1.payloads = insert e.payload x.1.payloads ∧
      (offer X now x e).1.closed = x.1.closed ∧
      (offer X now x e).2 = if e.payload ∈
        x.1.payloads then { x.2 with duplicates := x.2.duplicates + 1 }
        else { x.2 with accepted := x.2.accepted + 1 } := by
  have hclass := classify_of_same hsame
  rw [offer, if_pos hadm, hclass]
  by_cases hmem : e.payload ∈ x.1.payloads
  · rw [if_pos hmem, if_pos hmem]
    exact ⟨(Finset.insert_eq_of_mem hmem).symm, rfl, rfl⟩
  · rw [if_neg hmem] at hclass ⊢
    rw [if_neg hmem]
    refine ⟨?_, add_closed, rfl⟩
    have hne : ∀ e' ∈ x.1.events, e'.eventId ≠ (e.stamp now).eventId := forall_ne_of_classify hclass
    have hval : (x.1.add (e.stamp now)).events = insert (e.stamp now) x.1.events := by
      rw [add, dif_pos hne]
    rw [payloads, hval, Finset.image_insert]
    rfl

/-- New payloads, counted one after the other. -/
theorem card_insert_sdiff (q : UsageEvent) (t s : Finset UsageEvent) :
    (insert q t \ s).card = (if q ∈ s then 0 else 1) + (t \ insert q s).card := by
  split
  · rename_i hq
    rw [Finset.insert_sdiff_of_mem _ hq, Finset.insert_eq_of_mem hq, zero_add]
  · rename_i hq
    have hinsert : insert q t \ s = insert q (t \ insert q s) := by grind
    rw [hinsert, Finset.card_insert_of_notMem (by simp), add_comm]

/-- **A request**: the ledger has the payloads of its events then, and the answer counts those that
are new. -/
theorem foldl_offer_of_same (now : I64) {events : List UsageEvent} (x : Ledger × IngestBatchResponse)
    (hadm : ∀ e ∈ events, ∀ l : Ledger, l.closed = x.1.closed → l.admits X e)
    (hsame : ∀ q ∈ x.1.payloads ∪ (events.map UsageEvent.payload).toFinset, ∀ e ∈ events,
      q.eventId = e.eventId → q = e.payload) :
    (events.foldl (offer X now) x).1.payloads =
      x.1.payloads ∪ (events.map UsageEvent.payload).toFinset ∧
      (events.foldl (offer X now) x).1.closed = x.1.closed ∧
      (events.foldl (offer X now) x).2.accepted =
        x.2.accepted + ((events.map UsageEvent.payload).toFinset \ x.1.payloads).card ∧
      (events.foldl (offer X now) x).2.accepted + (events.foldl (offer X now) x).2.duplicates =
        x.2.accepted + x.2.duplicates + events.length ∧
      (events.foldl (offer X now) x).2.conflicts = x.2.conflicts ∧
      (events.foldl (offer X now) x).2.rejected = x.2.rejected := by
  induction events generalizing x with
  | nil => simp
  | cons e events ih =>
    obtain ⟨hpayloads, hclosed, hanswer⟩ := offer_of_same now (hadm e mem_cons_self x.1 rfl)
      fun q hq => hsame q (Finset.mem_union_left _ hq) e mem_cons_self
    have hunion : (offer X now x e).1.payloads ∪ (events.map UsageEvent.payload).toFinset =
        x.1.payloads ∪ ((e :: events).map UsageEvent.payload).toFinset := by
      rw [hpayloads, map_cons, toFinset_cons, Finset.insert_union, Finset.union_insert]
    obtain ⟨ih₁, ih₂, ih₃, ih₄, ih₅, ih₆⟩ := ih (offer X now x e)
      (fun e' he' l hl => hadm e' (mem_cons_of_mem _ he') l (hl.trans hclosed))
      (fun q hq e' he' => hsame q (hunion ▸ hq) e' (mem_cons_of_mem _ he'))
    rw [foldl_cons]
    refine ⟨ih₁.trans hunion, ih₂.trans hclosed, ?_, ?_, ?_, ?_⟩
    · rw [ih₃, hpayloads, hanswer, map_cons, toFinset_cons, card_insert_sdiff]
      split <;> (dsimp only; omega)
    · rw [ih₄, hanswer, length_cons]
      split <;> (dsimp only; omega)
    · rw [ih₅, hanswer]
      split <;> rfl
    · rw [ih₆, hanswer]
      split <;> rfl

theorem closed_ingest (l : Ledger) (now : I64) (events : List UsageEvent) :
    (l.ingest X now events).1.closed = l.closed := by
  have hfold : ∀ x : Ledger × IngestBatchResponse, (events.foldl (offer X now) x).1.closed =
      x.1.closed := by
    induction events with
    | nil => exact fun _ => rfl
    | cons e events ih =>
      intro x
      rw [foldl_cons, ih, offer]
      split
      · split
        · exact add_closed
        · rfl
        · rfl
      · rfl
  exact hfold (l, _)

theorem step_eq (l : Ledger) (lab : Label) : l.step X lab = lab.executes.elim l (l.apply X) := by
  cases lab with
  | cut op k =>
    by_cases hk : k = 0
    · simp [step, Label.executes, hk]
    · simp [step, Label.executes, hk]
  | _ => rfl

/-- A period is closed because it was. -/
theorem closes_of_mem_closed {key : String × ℕ × ℕ} (h : key ∈ (after X ls).closed) :
    ∃ lab ∈ ls, lab.Closes key := by
  induction ls using List.reverseRecOn with
  | nil => cases h
  | append_singleton ls lab ih =>
    rw [after_snoc, step_eq] at h
    have hold : key ∈ (after X ls).closed → ∃ lab' ∈ ls ++ [lab], lab'.Closes key := fun hold => by
      obtain ⟨lab', hlab', hcloses⟩ := ih hold
      exact ⟨lab', mem_append_left _ hlab', hcloses⟩
    cases hexec : lab.executes with
    | none =>
      rw [hexec] at h
      exact hold h
    | some op =>
      rw [hexec, Option.elim_some] at h
      cases op with
      | closePeriod account year month now =>
        rw [apply] at h
        split at h
        · rcases Finset.mem_insert.1 h with rfl | h
          · exact ⟨lab, by simp, now, hexec⟩
          · exact hold h
        · exact hold h
      | reopenPeriod account year month => exact hold (Finset.mem_of_mem_erase h)
      | ingest clk events => exact hold (closed_ingest (after X ls) clk.now events ▸ h)
      | _ => exact hold h

/-- So such clients' events are admitted. -/
theorem admits_of_atLeastOnce (h : AtLeastOnce X ls) (he : e ∈ delivered ls) {ls' : List Label}
    (hsub : ls' ⊆ ls) (hl : l.closed = (after X ls').closed) : l.admits X e := by
  rw [admits, hl]
  have hnot : (e.kind = .usage && (X.periodForTs e.timestampMs).any fun p =>
      (e.accountId, p.1, p.2) ∈ (after X ls').closed) = false := by
    rw [Bool.and_eq_false_iff, decide_eq_false_iff_not]
    by_cases hkind : e.kind = .usage
    · refine .inr (Bool.eq_false_iff.2 fun hany => ?_)
      obtain ⟨p, hp, hmem⟩ := (Option.any_eq_true _ _).1 hany
      obtain ⟨lab, hlab, hcloses⟩ := closes_of_mem_closed (of_decide_eq_true hmem)
      exact h.stays e he hkind p hp lab (hsub hlab) hcloses
    · exact .inl hkind
  rw [hnot, decide_eq_true (h.valid e he)]
  rfl

/-- A request of such clients. -/
theorem ingest_of_atLeastOnce {lab : Label} {clk : IngestClock} {events : List UsageEvent}
    (h : AtLeastOnce X (ls ++ [lab])) (hlab : lab.executes = some (.ingest clk events))
    (hpayloads : (after X ls).payloads = ((delivered ls).map UsageEvent.payload).toFinset) :
    ((after X ls).ingest X clk.now events).1.payloads =
        (after X ls).payloads ∪ (events.map UsageEvent.payload).toFinset ∧
      ((after X ls).ingest X clk.now events).2 =
        let fresh := ((events.map UsageEvent.payload).toFinset \ (after X ls).payloads).card
        ⟨fresh, events.length - fresh, 0, 0⟩ := by
  have hdelivered : delivered (ls ++ [lab]) = delivered ls ++ events := by
    simp [delivered, Label.delivers, hlab, Op.offers]
  have hevents : ∀ e ∈ events, e ∈ delivered (ls ++ [lab]) :=
    fun e he => hdelivered ▸ mem_append_right _ he
  have hadm : ∀ e ∈ events, ∀ l : Ledger, l.closed = (after X ls).closed →
      l.admits X e := fun e he l hl =>
    admits_of_atLeastOnce h (hevents e he) (subset_append_left _ _) hl
  have hsame : ∀ q ∈ (after X ls).payloads ∪ (events.map UsageEvent.payload).toFinset, ∀ e ∈ events,
      q.eventId = e.eventId → q = e.payload := by
    intro q hq e he hid
    rw [hpayloads, ← toFinset_append, ← map_append, ← hdelivered, mem_toFinset] at hq
    obtain ⟨e', he', rfl⟩ := mem_map.1 hq
    exact h.same e' he' e (hevents e he) hid
  obtain ⟨h₁, -, h₃, h₄, h₅, h₆⟩ := foldl_offer_of_same clk.now (after X ls, ⟨0, 0, 0, 0⟩) hadm hsame
  refine ⟨h₁, ?_⟩
  rw [ingest]
  generalize (events.foldl (offer X clk.now) (after X ls, ⟨0, 0, 0, 0⟩)).2 = r at h₃ h₄ h₅ h₆
  obtain ⟨accepted, duplicates, conflicts, rejected⟩ := r
  dsimp only at h₃ h₄ h₅ h₆ ⊢
  rw [← zero_add (Finset.card _), ← h₃, h₅, h₆, IngestBatchResponse.mk.injEq]
  exact ⟨rfl, by omega, rfl, rfl⟩

/-- **The billed payloads are those that were delivered.** -/
theorem payloads_after (h : AtLeastOnce X ls) :
    (after X ls).payloads = ((delivered ls).map UsageEvent.payload).toFinset := by
  induction ls using List.reverseRecOn with
  | nil => rfl
  | append_singleton ls lab ih =>
    have ih := ih h.init
    have hdelivered : delivered (ls ++ [lab]) = delivered ls ++ lab.delivers := by
      simp [delivered]
    rw [hdelivered, map_append, toFinset_append, ← ih, after_snoc, step_eq]
    cases hexec : lab.executes with
    | none => simp [Label.delivers, hexec]
    | some op =>
      rw [Label.delivers, hexec, Option.elim_some, Option.elim_some]
      cases op with
      | ingest clk events => exact (ingest_of_atLeastOnce h hexec ih).1
      | closePeriod account year month now =>
        rw [apply]
        split <;> exact (Finset.union_empty _).symm
      | _ => exact (Finset.union_empty _).symm

end Ledger

/-- Two billed events have different payloads. -/
theorem Ledger.payload_injOn (l : Ledger) : Set.InjOn UsageEvent.payload l.events := by
  intro e he e' he' h
  exact l.unique e he e' he' (by simpa using congrArg UsageEvent.eventId h)

/-- **Retries are billed once.** In every run, with crashes and restarts between all operations, the
disk holds the delivered events without their repetitions, whatever requests they came in; and
a request is answered with the number of events in it that had not been delivered, and all
others as duplicates. -/
theorem retries_bill_once {U : Set UsageEvent} {t₀ : ℤ} {ls : List Label} {sys : Sys}
    (hrun : Run (Step X cfg) (.down .empty) ls sys) (h : Assumptions X cfg U t₀ ls)
    (hclient : AtLeastOnce X ls) :
    sys.disk.content.map UsageEvent.payload =
      (↑((delivered ls).map UsageEvent.payload) : Multiset UsageEvent).dedup ∧
    ∀ s, sys = .up s → ∀ clk events, (∀ e ∈ events, e ∈ U) →
      AtLeastOnce X (ls ++ [.run (.ingest clk events)]) → (handleIngest X cfg clk events s).2 =
        let fresh := ((events.map UsageEvent.payload).toFinset \
          ((delivered ls).map UsageEvent.payload).toFinset).card
        ⟨fresh, events.length - fresh, 0, 0⟩ := by
  have hsim := sim_run hrun h
  have hpayloads := Ledger.payloads_after hclient
  constructor
  · have hcontent : sys.disk.content = (Ledger.after X ls).events.val := by
      have hok := hsim.ok
      cases sys with
      | up s => exact hok.1.2 Ledger.distinctIds
      | down d => exact hok.2 Ledger.distinctIds
    have himage := Finset.image_val_of_injOn (Ledger.after X ls).payload_injOn
    rw [hcontent, ← himage, ← Ledger.payloads, hpayloads, toFinset_val, Multiset.coe_dedup]
  · rintro s rfl clk events hU hnext
    rw [(hsim.ingest h.injective clk hU).2, (Ledger.ingest_of_atLeastOnce hnext rfl hpayloads).2,
      hpayloads]

/-- A request with two events whose server crashes before it answers, and the request sent again. -/
def resent : List Label :=
  let batch := [sampleEvent "a" "acme" 7200000 5, sampleEvent "b" "initech" 7300000 2]
  [.restart 8000000 fun _ => 8000000, .cut (.ingest sampleClock batch) 1,
    .restart 9500000 fun _ => 9500000, .run (.ingest sampleClock batch)]

theorem exists_resent : ∃ sys, Run (Step .sample sampleConfig) (.down .empty) resent sys :=
  ⟨_, .snoc (.snoc (.snoc (.single (.restart _ _)) (.cut 1 trivial)) (.restart _ _)) (.run trivial)⟩

/-- The two events of it. -/
def resentEvents : Set UsageEvent := {sampleEvent "a" "acme" 7200000 5,
    sampleEvent "b" "initech" 7300000 2}

theorem resent_delivered : ∀ e ∈ delivered resent, e ∈ resentEvents := by
  simp [resent, delivered, Label.delivers, Label.executes, Op.offers, resentEvents]

theorem resent_assumptions : Assumptions .sample sampleConfig resentEvents 8000000 resent := by
  have hafter : (Ledger.after .sample resent).events =
      {(sampleEvent "a" "acme" 7200000 5).stamp sampleClock.now,
        (sampleEvent "b" "initech" 7300000 2).stamp sampleClock.now} := by decide +kernel
  refine ⟨?_, ⟨?_, ?_⟩, ?_, ?_, ?_⟩
  · simp [resent, Label.offers, Op.offers, resentEvents]
  · rintro e (rfl | rfl) e' (rfl | rfl) h
    · rfl
    · exact absurd h (by decide +kernel)
    · exact absurd h (by decide +kernel)
    · rfl
  · rintro e (rfl | rfl) e' (rfl | rfl) h
    · rfl
    · exact absurd h (by decide +kernel)
    · exact absurd h (by decide +kernel)
    · rfl
  · have hnow : ((SInt.wrap 63 9000000 : I64) : ℤ) = 9000000 := by decide
    simp [resent, Label.ClockIn, Op.ClockIn, DEFAULT_TTL_MS, hnow, sampleClock]
  · rw [hafter]
    exact Finset.card_le_two.trans (by decide)
  · intro now clk hmem e he
    have hnow : now ≤ 9500000 := by
      simp only [resent, mem_cons, Label.restart.injEq, reduceCtorEq, not_mem_nil, or_false,
        false_or] at hmem
      omega
    have hts : 7200000 ≤ (e.timestampMs : ℤ) := by
      rw [hafter, Finset.mem_insert, Finset.mem_singleton] at he
      rcases he with rfl | rfl <;> decide
    rw [DEFAULT_TTL_MS]
    omega

theorem resent_atLeastOnce : AtLeastOnce .sample resent := by
  refine ⟨fun e he => ?_, fun e he e' he' hid => ?_, fun e _ _ p _ lab hlab => ?_⟩
  · rcases resent_delivered e he with rfl | rfl <;> decide
  · rcases resent_delivered e he with rfl | rfl <;> rcases resent_delivered e' he' with rfl | rfl
    · rfl
    · exact absurd hid (by decide)
    · exact absurd hid (by decide)
    · rfl
  · simp only [resent, mem_cons, not_mem_nil, or_false] at hlab
    rcases hlab with rfl | rfl | rfl | rfl <;> simp [Label.Closes, Label.executes]

/-- Its events are billed once. -/
theorem resent_bills_once :
    ∃ sys, Run (Step .sample sampleConfig) (.down .empty) resent sys ∧
      Assumptions .sample sampleConfig resentEvents 8000000 resent ∧ AtLeastOnce .sample resent ∧
      (delivered resent).length = 4 ∧ Multiset.card sys.disk.content = 2 := by
  obtain ⟨sys, hrun⟩ := exists_resent
  have hcontent := (retries_bill_once hrun resent_assumptions resent_atLeastOnce).1
  refine ⟨sys, hrun, resent_assumptions, resent_atLeastOnce, rfl, ?_⟩
  rw [← Multiset.card_map UsageEvent.payload, hcontent]
  decide +kernel

end UsageDb
