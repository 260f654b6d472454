import UsageDb.Refine.Classify
import UsageDb.Runtime.Frame

/-!
# The store refines the ledger

Every run of the store, with crashes after any durable step and restarts, is a run of the
ledger. `Sim` is the relation; its parts are the invariant of the store (`SysOk`), with the
ledger's events as what the disk holds, the closed periods, and the cache (`DedupeOk`) while
the server runs. `Sim.step` is the simulation of one step and `store_refines_ledger` the
refinement.

The refinement needs what the cache needs to be complete: room for all billed events,
clock readings within one TTL, and, since recovery picks segments by the time of their
events, no billed event older than the TTL when the server starts.
-/

namespace UsageDb

open Lib List

variable {X : Extern} {cfg : Config}
  {s : State} {o : Outcome} {op : Op} {sys : Sys} {U : Set UsageEvent} {t₀ : ℤ} {ls : List Label}

/-! ### Operations that have nothing to do with periods -/

/-- A save that leaves the closed periods as they are. -/
def Effect.KeepsClosed (closed : List ClosedPeriod) : Effect → Prop
  | .manifestSave m => m.closedPeriods = closed
  | _ => True

/-- An operation leaves the closed periods as they are, on the disk and in memory. -/
structure KeepsPeriods (s : State) (o : Outcome) : Prop where
  /-- In memory. -/
  mem : o.mem.manifest.closedPeriods = s.mem.manifest.closedPeriods
  /-- In every manifest it saves. -/
  effects : ∀ x ∈ o.effects, x.KeepsClosed s.mem.manifest.closedPeriods

/-- After any number of such effects the disk has the same closed periods. -/
theorem closedPeriods_take {d : Disk} {effects : List Effect}
    (h : ∀ x ∈ effects, x.KeepsClosed d.loadManifest.closedPeriods) (k : ℕ) :
    (d.applyAll (effects.take k)).loadManifest.closedPeriods = d.loadManifest.closedPeriods := by
  have hpre : EveryPrefix Disk.apply
      (fun d' => d'.loadManifest.closedPeriods = d.loadManifest.closedPeriods) d effects := by
    refine EveryPrefix.of_forall rfl fun d' x hx hd => ?_
    have hx := h x hx
    cases x with
    | manifestSave m => exact hx
    | _ => exact hd
  exact hpre k

theorem KeepsPeriods.prefixes (h : KeepsPeriods s o) (hm : MemOk s) (k : ℕ) :
    (s.disk.applyAll (o.effects.take k)).loadManifest.closedPeriods = s.mem.manifest.closedPeriods := by
  rw [← hm.loadManifest]
  exact closedPeriods_take (by rw [hm.loadManifest]; exact h.effects) k

theorem Effect.Frames.keepsClosed {closed : List ClosedPeriod} {x : Effect}
    (h : x.Frames (·.closedPeriods) closed) : x.KeepsClosed closed := by
  rcases h with hlog | hseg | ⟨m, rfl, hm⟩
  · cases x with
    | manifestSave => cases hlog
    | _ => trivial
  · cases x with
    | manifestSave => cases hseg
    | _ => trivial
  · exact hm

theorem Frames.keepsPeriods (h : Frames (·.closedPeriods) s o) : KeepsPeriods s o :=
  ⟨h.mem, fun x hx => (h.effects x hx).keepsClosed⟩

theorem keepsPeriods_tick (s : State) (now : ℤ) (uuid : ℤ → ℕ → String) :
    KeepsPeriods s (tick X cfg now uuid true s).1 := by
  refine tick_rule (Frames.skip s).keepsPeriods (Frames.onLog (onLog_drainIf s _)).keepsPeriods
    fun start target => ⟨rfl, fun x hx => ?_⟩
  rcases mem_append.1 hx with hx | hx
  · obtain ⟨seg, -, rfl⟩ := mem_map.1 hx
    trivial
  · rw [mem_singleton.1 hx]
    rfl

/-! ### Only a request changes the cache -/

theorem dedupe_drainIf (m : Mem) (cond : Bool) : (m.drainIf cond).sent.mem.dedupe = m.dedupe := by
  rw [Mem.drainIf]
  split <;> rfl

theorem dedupe_outcome (s : State) (hop : ∀ clk events, op ≠ .ingest clk events) :
    (op.outcome X cfg s).mem.dedupe = s.mem.dedupe := by
  cases op with
  | ingest clk events => exact absurd rfl (hop clk events)
  | drain => exact dedupe_drainIf _ _
  | flush uuid clk =>
    rw [Op.outcome]
    rcases flushNext_cases X uuid clk s with hskip | ⟨msg, rest, -,
      ⟨-, hdrop⟩ | ⟨segs, m, -, -, hflush⟩⟩
    · rw [hskip]
      rfl
    · rw [hdrop]
    · rw [hflush]
  | rollupTick now uuid =>
    exact tick_rule (R := fun o => o.mem.dedupe = _) rfl (dedupe_drainIf _ _) fun _ _ => rfl
  | compactionTick now uuid => exact (onManifest_compactionTick s now uuid).dedupe
  | closePeriod account year month now => exact (onManifest_closePeriod s account year month now).dedupe
  | reopenPeriod account year month => exact (onManifest_reopenPeriod s account year month).dedupe

/-! ### Closing and reopening -/

/-- An operation that saves the manifest it leaves in memory, or does nothing. -/
def SavesOnce (s : State) (o : Outcome) : Prop :=
  (o.effects = [] ∧ o.mem.manifest = s.mem.manifest) ∨ o.effects = [.manifestSave o.mem.manifest]

theorem closedKeys_close (m : Manifest) (p : ClosedPeriod) :
    (m.close p).closedKeys = insert (p.accountId, p.year, p.month) m.closedKeys := by
  ext key
  simp [Manifest.closedKeys, Manifest.close]

theorem closedKeys_reopen (m : Manifest) (account : String) (year month : ℕ) :
    (m.reopen account year month).closedKeys = m.closedKeys.erase (account, year, month) := by
  ext ⟨a, y, mo⟩
  rw [Finset.mem_erase, mem_closedKeys, mem_closedKeys, Manifest.reopen]
  simp only [mem_filter, decide_eq_true_eq, ne_eq]
  constructor
  · rintro ⟨p, ⟨hp, hnot⟩, hfor⟩
    refine ⟨fun heq => hnot ?_, p, hp, hfor⟩
    simp only [Prod.mk.injEq] at heq
    obtain ⟨rfl, rfl, rfl⟩ := heq
    exact hfor
  · rintro ⟨hne, p, hp, hfor⟩
    refine ⟨p, ⟨hp, fun hfor' => hne ?_⟩, hfor⟩
    obtain ⟨rfl, rfl, rfl⟩ := hfor
    obtain ⟨rfl, rfl, rfl⟩ := hfor'
    rfl

theorem closePeriod_sim {l : Ledger} (h : s.mem.manifest.closedKeys = l.closed) (account : String)
    (year month : ℕ) (now : ℤ) :
    (closePeriod X account year month now true s).1.mem.manifest.closedKeys =
        (l.apply X (.closePeriod account year month now)).closed ∧
      SavesOnce s (closePeriod X account year month now true s).1 := by
  rw [closePeriod, Ledger.apply]
  cases hfind : s.mem.manifest.findClosed account year month with
  | some p =>
    have hmem : (account, year, month) ∈ l.closed := by
      rw [← h, mem_closedKeys]
      exact ⟨p, mem_of_find?_eq_some hfind, by simpa using List.find?_some hfind⟩
    refine ⟨?_, .inl ⟨rfl, rfl⟩⟩
    dsimp only [Outcome.skip]
    split
    · exact h.trans (Finset.insert_eq_self.2 hmem).symm
    · exact h
  | none =>
    cases hb : periodBounds X year month with
    | none => exact ⟨h, .inl ⟨rfl, rfl⟩⟩
    | some b =>
      refine ⟨?_, .inr rfl⟩
      simp only [if_true, Option.isSome_some]
      rw [← h]
      exact closedKeys_close _ _

theorem reopenPeriod_sim {l : Ledger} (h : s.mem.manifest.closedKeys = l.closed) (account : String)
    (year month : ℕ) :
    (reopenPeriod account year month true s).1.mem.manifest.closedKeys =
        (l.apply X (.reopenPeriod account year month)).closed ∧
      SavesOnce s (reopenPeriod account year month true s).1 := by
  have hkeys := closedKeys_reopen s.mem.manifest account year month
  rw [h] at hkeys
  rw [reopenPeriod, Ledger.apply]
  split
  · exact ⟨hkeys, .inr rfl⟩
  · rename_i hlen
    refine ⟨hkeys, .inl ⟨rfl, ?_⟩⟩
    have hsub : (s.mem.manifest.closedPeriods.filter fun p => ¬ p.IsFor account year month).Sublist
        s.mem.manifest.closedPeriods := filter_sublist
    simp only [Manifest.reopen, hsub.eq_of_length_le (not_lt.1 hlen)]

/-- The manifest on the disk after `k` steps of such an operation. -/
theorem SavesOnce.prefixes (h : SavesOnce s o) (hm : MemOk s) (k : ℕ) :
    (s.disk.applyAll (o.effects.take k)).loadManifest = if k =
      0 then s.mem.manifest else o.mem.manifest := by
  rcases h with ⟨heff, hman⟩ | heff
  · rw [heff, take_nil, hman, ite_self]
    exact hm.loadManifest
  · rw [heff]
    cases k with
    | zero => exact hm.loadManifest
    | succ k => simp [Disk.apply, Disk.loadManifest]

/-! ### The simulation -/

/-- The store `sys` stands for the ledger `l`. The events of `l` are events of `U`, stamped
at `t₀` or later. -/
structure Sim (X : Extern) (cfg : Config) (U : Set UsageEvent) (t₀ : ℤ) (l : Ledger) (sys : Sys) :
    Prop where
  /-- The database is in order and holds the ledger's events. -/
  ok : SysOk X cfg DistinctIds l.events.val sys
  /-- The events have been offered. -/
  offered : ∀ e ∈ l.events, e ∈ stamped U
  /-- They were stamped in the window. -/
  since : ∀ e ∈ l.events, t₀ ≤ e.ingestedAtMs
  /-- The same periods are closed. -/
  closed : sys.manifest.closedKeys = l.closed
  /-- The cache of a running server knows the ledger's events. -/
  dedupe : ∀ s, sys = .up s → DedupeOk X cfg.dedupeCapacity t₀ l.events.val s.mem.dedupe

/-- The events an operation offers. -/
def Op.offers : Op → List UsageEvent
  | .ingest _ events => events
  | _ => []

/-- The events a step offers. -/
def Label.offers : Label → List UsageEvent
  | .run op => op.offers
  | .cut op _ => op.offers
  | _ => []

/-- The readings of the clock in a request lie within one TTL from `t₀` on. -/
def Op.ClockIn (t₀ : ℤ) : Op → Prop
  | .ingest clk _ => t₀ ≤ clk.now ∧ (∀ i, clk.evict i ≤ t₀ + DEFAULT_TTL_MS) ∧ ∀ i, t₀ ≤ clk.commit i
  | _ => True

/-- The readings of the clock in a step. -/
def Label.ClockIn (t₀ : ℤ) : Label → Prop
  | .run op => op.ClockIn t₀
  | .cut op _ => op.ClockIn t₀
  | _ => True

section Simulation

variable {U : Set UsageEvent} {t₀ : ℤ} {l : Ledger} {s : State}

/-- What a request bills. -/
theorem Sim.ingest (h : Sim X cfg U t₀ l (.up s)) (hinj : X.HashesInjective U) (clk : IngestClock)
    {events : List UsageEvent} (hU : ∀ e ∈ events, e ∈ U) :
    BatchSim X (stamped U) l (classifyBatch s.mem.dedupe
        (classifiedEvents X s.mem.manifest.closedPeriods clk.now events)) (l.ingest X clk.now events) ∧
      (handleIngest X cfg clk events s).2 = (l.ingest X clk.now events).2 :=
  handleIngest_sim (h.dedupe s rfl) hinj.stamped h.offered h.closed clk fun e he =>
    ⟨subset_stamped U (hU e he), ⟨e, hU e he, clk.now, rfl⟩⟩

/-- The events of the ledger after an operation, as the store has accepted them. -/
theorem Sim.apply_events (h : Sim X cfg U t₀ l (.up s)) (hinj : X.HashesInjective U)
    (hU : ∀ e ∈ op.offers, e ∈ U) :
    (l.apply X op).events.val = l.events.val + ↑(op.accepts X s) := by
  cases op with
  | ingest clk events => exact (h.ingest hinj clk hU).1.events
  | closePeriod account year month now =>
    rw [Ledger.apply]
    split <;> simp [Op.accepts]
  | _ => simp [Ledger.apply, Op.accepts]

theorem Sim.apply_stamped (h : Sim X cfg U t₀ l (.up s)) (hinj : X.HashesInjective U)
    (hU : ∀ e ∈ op.offers, e ∈ U) (hclk : op.ClockIn t₀) :
    ∀ e ∈ (l.apply X op).events, e ∈ stamped U ∧ t₀ ≤ e.ingestedAtMs := by
  intro e he
  rw [← Finset.mem_val, h.apply_events hinj hU, Multiset.mem_add] at he
  rcases he with he | he
  · exact ⟨h.offered e he, h.since e he⟩
  · cases op with
    | ingest clk events =>
      obtain ⟨c, hc, rfl⟩ := mem_map.1 (Multiset.mem_coe.1 he)
      obtain ⟨e', he', -, rfl⟩ := mem_newEvents hc
      exact ⟨⟨e', hU e' he', clk.now, rfl⟩, hclk.1⟩
    | _ => simp [Op.accepts] at he

/-- The closed periods after an operation, and after a part of it. -/
theorem Sim.apply_closed (h : Sim X cfg U t₀ l (.up s)) (hinj : X.HashesInjective U)
    (hU : ∀ e ∈ op.offers, e ∈ U) :
    (op.outcome X cfg s).mem.manifest.closedKeys = (l.apply X op).closed ∧
      ∀ k, (s.disk.applyAll ((op.outcome X cfg s).effects.take k)).loadManifest.closedKeys =
        if k = 0 then l.closed else (l.apply X op).closed := by
  have hm : MemOk s := h.ok.2
  have hclosed : s.mem.manifest.closedKeys = l.closed := h.closed
  -- all but two operations leave the periods alone
  have hkeep : ∀ {o : Outcome} {l' : Ledger}, KeepsPeriods s o → l'.closed = l.closed →
      o.mem.manifest.closedKeys = l'.closed ∧
        ∀ k, (s.disk.applyAll (o.effects.take k)).loadManifest.closedKeys = if k =
            0 then l.closed else l'.closed := by
    intro o l' ho hl'
    rw [hl']
    refine ⟨?_, fun k => ?_⟩
    · rw [Manifest.closedKeys, ho.mem]; exact hclosed
    · rw [ite_self, Manifest.closedKeys, ho.prefixes hm k]; exact hclosed
  have hsave : ∀ {o : Outcome} {l' : Ledger}, o.mem.manifest.closedKeys = l'.closed ∧ SavesOnce s o →
      o.mem.manifest.closedKeys = l'.closed ∧
        ∀ k, (s.disk.applyAll (o.effects.take k)).loadManifest.closedKeys = if k = 0 then l.closed
            else l'.closed := by
    rintro o l' ⟨hkeys, ho⟩
    refine ⟨hkeys, fun k => ?_⟩
    rw [ho.prefixes hm k]
    split
    · exact hclosed
    · exact hkeys
  cases op with
  | ingest clk events => exact hkeep (Frames.onLog
      (onLog_ingest s clk events)).keepsPeriods (h.ingest hinj clk hU).1.closed
  | drain => exact hkeep (Frames.onLog (onLog_drainIf s _)).keepsPeriods rfl
  | flush uuid clk => exact hkeep (frames_flush (fun _ _ _ => rfl) s uuid clk).keepsPeriods rfl
  | rollupTick now uuid => exact hkeep (keepsPeriods_tick s now uuid) rfl
  | compactionTick now uuid =>
    exact hkeep (frames_compactionTick (fun _ _ => rfl) (fun _ _ _ _ =>
      rfl) s now uuid).keepsPeriods rfl
  | closePeriod account year month now => exact hsave (closePeriod_sim hclosed account year month now)
  | reopenPeriod account year month => exact hsave (reopenPeriod_sim hclosed account year month)

/-- The cache after a request knows what has been billed. -/
theorem Sim.ingest_dedupe (h : Sim X cfg U t₀ l (.up s)) (hinj : X.HashesInjective
    U) {clk : IngestClock}
    {events : List UsageEvent} (hU : ∀ e ∈ events, e ∈ U) (hclk : (Op.ingest clk events).ClockIn t₀)
    (hcap : (l.ingest X clk.now events).1.events.card ≤ cfg.dedupeCapacity) :
    DedupeOk X cfg.dedupeCapacity t₀ (l.ingest X clk.now events).1.events.val
      (handleIngest X cfg clk events s).1.mem.dedupe := by
  have hsim := (h.ingest hinj clk hU).1
  have hdist := (l.ingest X clk.now events).1.distinctIds
  have hcard : Multiset.card (l.ingest X clk.now events).1.events.val ≤ cfg.dedupeCapacity := hcap
  have hmem : (handleIngest X cfg clk events s).1.mem.dedupe = commitAll s.mem.dedupe
      (classifyBatch s.mem.dedupe (classifiedEvents X s.mem.manifest.closedPeriods clk.now
        events)).newEvents
      clk.evict clk.commit := dedupe_drainIf _ _
  rw [hsim.events] at hdist hcard ⊢
  rw [hmem]
  generalize classifyBatch s.mem.dedupe
    (classifiedEvents X s.mem.manifest.closedPeriods clk.now events) = b at hsim hdist hcard ⊢
  rw [DistinctIds, Multiset.map_add, Multiset.nodup_add, Multiset.map_coe, Multiset.coe_nodup,
    map_map] at hdist
  obtain ⟨-, hnew, hdisj⟩ := hdist
  have hinj' := hinj.stamped
  refine DedupeOk.commitAll _ _ (h.dedupe s rfl) hsim.hashes ?_ ?_ ?_ hclk.2.1 hclk.2.2
  · intro x hx e' he' heq
    have hid := hinj'.id _ (h.offered e' he') _ (hsim.offered x hx) heq
    exact Multiset.disjoint_left.1 hdisj (Multiset.mem_map_of_mem _ he')
      (Multiset.mem_coe.2 (mem_map.2 ⟨x, hx, hid.symm⟩))
  · have hnodup : (b.newEvents.map fun x => x.event.eventId).Nodup := hnew
    rw [List.Nodup, pairwise_map] at hnodup ⊢
    exact hnodup.imp_of_mem fun {x y} hx hy hne heq =>
      hne (hinj'.id _ (hsim.offered x hx) _ (hsim.offered y hy) heq)
  · rw [Multiset.card_add, Multiset.coe_card, length_map] at hcard
    exact hcard

/-- **Recovery rebuilds the cache**: it knows what the disk holds. -/
theorem dedupe_restart {c : Multiset UsageEvent} {d : Disk} {V : Set UsageEvent}
    (hd : Holds X cfg DistinctIds c d)
    (hc : DistinctIds c) (hinj : X.HashesInjective V) (hV : ∀ e ∈ c, e ∈ V)
    (hsince : ∀ e ∈ c, t₀ ≤ e.ingestedAtMs) {now : ℤ}
    (hnow : ∀ e ∈ c, now - DEFAULT_TTL_MS ≤ e.timestampMs) (clk : ℕ → ℤ) :
    DedupeOk X cfg.dedupeCapacity t₀ c (restart X cfg now clk d).mem.dedupe := by
  have hd' : Holds X cfg DistinctIds c (d.applyAll (recoveryEffects d)) := hd.recoveryEffects.all
  rw [restart_dedupe]
  generalize d.applyAll (recoveryEffects d) = d' at hd'
  rw [knownEntries_eq hd'.1.segments]
  -- recovery goes through exactly the events on the disk
  have hmem : ∀ e, e ∈ d'.scanned d'.loadManifest now ↔ e ∈ c := by
    intro e
    have hcontent := hd'.2 hc
    rw [Disk.scanned, replay_eq_walEvents hd'.1.sorted, mem_append]
    have hin : e ∈ c ↔ e ∈ d'.rawEvents d'.loadManifest ∨
        e ∈ d'.walEvents d'.loadManifest.lastSealedWalId := by
      rw [← hcontent, Disk.content, Multiset.mem_coe, mem_append]
    rw [hin]
    constructor
    · rintro (he | he)
      · exact .inr he
      · obtain ⟨m, hm, he⟩ := mem_flatMap.1 he
        exact .inl (mem_flatMap.2 ⟨m, mem_of_mem_filter hm, he⟩)
    · rintro (he | he)
      · obtain ⟨m, hm, hrow⟩ := mem_flatMap.1 he
        exact .inr (mem_flatMap.2
          ⟨m, mem_recentSegments hm (hd'.1.segments m hm) hrow (hnow e (hin.2 (.inl he))), hrow⟩)
      · exact .inl he
  have hnew : ∀ k, k ∉ (HotDedupe.new cfg.dedupeCapacity).cache := fun k hk => by
    simp [HotDedupe.new] at hk
  generalize d'.scanned d'.loadManifest now = scanned at hmem
  constructor
  · rw [insertAllKnown_ttlMs]; rfl
  · rw [insertAllKnown_maxCapacity]; rfl
  · intro e he
    rw [lookup_insertAllKnown _ (hnew _)]
    cases hfind : (scanned.map (indexEntry X)).find? fun x => x.1 = X.idHash e with
    | none =>
      rw [List.find?_eq_none] at hfind
      exact absurd (decide_eq_true rfl) (hfind _ (mem_map_of_mem ((hmem e).2 he)))
    | some x =>
      have hx := List.find?_some hfind
      obtain ⟨e', he', rfl⟩ := mem_map.1 (mem_of_find?_eq_some hfind)
      have he' := (hmem e').1 he'
      have hid := hinj.id e' (hV e' he') e (hV e he) (of_decide_eq_true hx)
      obtain rfl : e' = e := Multiset.inj_on_of_nodup_map hc e' he' e he hid
      exact ⟨_, rfl⟩
  · intro k hk
    obtain ⟨x, hx, rfl⟩ := ((mem_insertAllKnown _).1 hk).resolve_left (hnew k)
    obtain ⟨e, he, rfl⟩ := mem_map.1 hx
    exact ⟨e, (hmem e).1 he, rfl⟩
  · intro x hx
    rcases order_insertAllKnown hx with hx | ⟨y, hy, rfl⟩
    · simp [HotDedupe.new] at hx
    · obtain ⟨e, he, rfl⟩ := mem_map.1 hy
      exact hsince e ((hmem e).1 he)

/-- **One step of the store is a step of the ledger.** -/
theorem Sim.step {sys' : Sys} {lab : Label} (h : Sim X cfg U t₀ l sys) (hstep : Step X cfg sys lab sys')
    (hinj : X.HashesInjective U) (hU : ∀ e ∈ lab.offers, e ∈ U) (hclk : lab.ClockIn t₀)
    (hcap : (l.step X lab).events.card ≤ cfg.dedupeCapacity)
    (hnow : ∀ now clk, lab = .restart now clk → ∀ e ∈ l.events, now - DEFAULT_TTL_MS ≤ e.timestampMs) :
    Sim X cfg U t₀ (l.step X lab) sys' := by
  have hok := h.ok.step DistinctIds.left (fun _ => rfl) hstep
  cases hstep with
  | @run s op hfresh =>
    have hev := h.apply_events hinj hU
    have hst := h.apply_stamped hinj hU hclk
    refine ⟨?_, fun e he => (hst e he).1, fun e he => (hst e he).2, (h.apply_closed hinj hU).1, ?_⟩
    · rw [Ledger.step, hev]
      exact hok
    · rintro s' heq
      obtain rfl : (op.outcome X cfg s).state s = s' := Sys.up.inj heq
      by_cases hop : ∀ clk events, op ≠ .ingest clk events
      · rw [Ledger.step, hev, accepts_eq_nil hop]
        simpa [Outcome.state, dedupe_outcome s hop] using h.dedupe s rfl
      · push Not at hop
        obtain ⟨clk, events, rfl⟩ := hop
        exact h.ingest_dedupe hinj hU hclk hcap
  | @cut s op k hfresh =>
    have hev := h.apply_events hinj hU
    have hst := h.apply_stamped hinj hU hclk
    have hclosed := (h.apply_closed hinj hU).2 k
    refine ⟨?_, ?_, ?_, ?_, fun s' heq => by cases heq⟩
    · rw [Ledger.step]
      by_cases hk : k = 0
      · rw [if_pos hk]
        simpa [Sys.accepts, hk] using hok
      · rw [if_neg hk, hev]
        simpa [Sys.accepts, hk] using hok
    · rw [Ledger.step]
      split
      · exact h.offered
      · exact fun e he => (hst e he).1
    · rw [Ledger.step]
      split
      · exact h.since
      · exact fun e he => (hst e he).2
    · rw [Sys.manifest, hclosed, Ledger.step]
      split <;> rfl
  | @restart d now clk =>
    have hd : Holds X cfg DistinctIds l.events.val d := h.ok
    refine ⟨by simpa [Sys.accepts, Ledger.step] using hok, h.offered, h.since, ?_, ?_⟩
    · have hframe : (UsageDb.restart X cfg now clk d).mem.manifest.closedPeriods =
          d.loadManifest.closedPeriods :=
        (frames_restart X cfg (f := (·.closedPeriods)) (fun _ _ => rfl) now clk d).1
      rw [Sys.manifest, Manifest.closedKeys, hframe]
      exact h.closed
    · rintro s heq
      rw [← Sys.up.inj heq]
      exact dedupe_restart hd l.distinctIds hinj.stamped h.offered h.since (hnow now clk rfl) clk
  | @cutRestart d now clk k =>
    refine ⟨by simpa [Sys.accepts, Ledger.step] using hok, h.offered, h.since, ?_,
      fun s heq => by cases heq⟩
    rw [Sys.manifest, Manifest.closedKeys, closedPeriods_take
      fun x hx => ((frames_restart X cfg (fun _ _ => rfl) now clk d).2 x hx).keepsClosed]
    exact h.closed

end Simulation

/-! ### The refinement -/

/-- What the cache needs over a run: the hashes tell the offered events apart, the clock
stays within one TTL, everything billed fits, and at every start no billed event is older
than the TTL. -/
structure Assumptions (X : Extern) (cfg : Config) (U : Set UsageEvent) (t₀ : ℤ) (ls : List Label) :
    Prop where
  /-- The events that are offered. -/
  offered : ∀ lab ∈ ls, ∀ e ∈ lab.offers, e ∈ U
  /-- Their hashes do not collide. -/
  injective : X.HashesInjective U
  clock : ∀ lab ∈ ls, lab.ClockIn t₀
  capacity : (Ledger.after X ls).events.card ≤ cfg.dedupeCapacity
  /-- The starts. -/
  recent : ∀ now clk, Label.restart now clk ∈ ls →
    ∀ e ∈ (Ledger.after X ls).events, now - DEFAULT_TTL_MS ≤ e.timestampMs

theorem Ledger.after_snoc (ls : List Label) (lab : Label) :
    Ledger.after X (ls ++ [lab]) = (Ledger.after X ls).step X lab := by
  rw [Ledger.after, foldl_append]
  rfl

/-- They hold of every earlier part of the run. -/
theorem Assumptions.init {lab : Label}
    (h : Assumptions X cfg U t₀ (ls ++ [lab])) : Assumptions X cfg U t₀ ls := by
  have hsub : (Ledger.after X ls).events ⊆ (Ledger.after X (ls ++ [lab])).events := by
    rw [Ledger.after_snoc]
    exact Ledger.subset_step lab
  have hin : ∀ lab' ∈ ls, lab' ∈ ls ++ [lab] := fun lab' hl => mem_append.2 (.inl hl)
  exact ⟨fun lab' hl => h.offered lab' (hin lab' hl), h.injective,
    fun lab' hl => h.clock lab' (hin lab' hl), (Finset.card_le_card hsub).trans h.capacity,
    fun now clk hl e he => h.recent now clk (hin _ hl) e (hsub he)⟩

/-- **Every run of the store is a run of the ledger.** -/
theorem sim_run
    (hrun : Run (Step X cfg) (.down .empty) ls sys) (h : Assumptions X cfg U t₀ ls) :
    Sim X cfg U t₀ (Ledger.after X ls) sys := by
  induction hrun with
  | nil =>
    refine ⟨sysOk_empty, ?_, ?_, rfl, fun s heq => by cases heq⟩
    · intro e he; cases he
    · intro e he; cases he
  | @snoc _ _ ls lab _ hstep ih =>
    have hcap := h.capacity
    rw [Ledger.after_snoc] at hcap ⊢
    refine (ih h.init).step hstep h.injective (h.offered lab (by simp)) (h.clock lab (by simp)) hcap ?_
    rintro now clk rfl e he
    refine h.recent now clk (by simp) e ?_
    rw [Ledger.after_snoc]
    exact he

/-- What a client sees of a running server is what the ledger says. -/
structure Answers (X : Extern) (cfg : Config) (U : Set UsageEvent) (l : Ledger) (s : State) : Prop where
  /-- The disk holds the billed events, each once. -/
  durable : s.disk.content = l.events.val
  /-- So do the segments, the messages under way and the memtable. -/
  visible :
    (↑(s.disk.rawEvents s.mem.manifest ++ (s.mem.queue.flatMap (·.events) ++
      s.mem.memtable.events)) :
    Multiset UsageEvent) = l.events.val
  /-- The closed periods. -/
  closed : s.mem.manifest.closedKeys = l.closed
  /-- What a request is answered. -/
  ingest : ∀ clk events, (∀ e ∈ events, e ∈ U) →
    (handleIngest X cfg clk events s).2 = (l.ingest X clk.now events).2
  /-- What a scan of the raw data finds, when no message is under way. -/
  query : s.mem.queue = [] → ∀ plan fromMs toMs,
    (↑((collectRawEvents X s plan fromMs toMs).filter (matchesPlan plan)) : Multiset UsageEvent) =
      l.events.val.filter fun e => inRange fromMs toMs e && matchesPlan plan e

/-- The database stands for the ledger. -/
def Represents (X : Extern) (cfg : Config) (U : Set UsageEvent) (l : Ledger) : Sys → Prop
  | .up s => Answers X cfg U l s
  | .down d => d.content = l.events.val ∧ d.loadManifest.closedKeys = l.closed

theorem Sim.represents {l : Ledger} (h : Sim X cfg U t₀ l sys)
    (hinj : X.HashesInjective U) : Represents X cfg U l sys := by
  cases sys with
  | down d =>
    have hd : Holds X cfg DistinctIds l.events.val d := h.ok
    exact ⟨hd.2 l.distinctIds, h.closed⟩
  | up s =>
    obtain ⟨hd, hm⟩ : Holds X cfg DistinctIds l.events.val s.disk ∧ MemOk s := h.ok
    have hdurable := hd.2 l.distinctIds
    have hvisible : (↑(s.disk.rawEvents s.mem.manifest ++
        (s.mem.queue.flatMap (·.events) ++ s.mem.memtable.events)) : Multiset UsageEvent) =
            l.events.val := by
      rw [← hdurable, Disk.content, hm.loadManifest, Multiset.coe_eq_coe]
      exact (hm.unsealed hd.1.sorted).append_left _
    refine ⟨hdurable, hvisible, h.closed, fun clk events hU => (h.ingest hinj clk hU).2, ?_⟩
    intro hqueue plan fromMs toMs
    rw [filter_collectRawEvents
      fun m hmem => (hd.1.listed hm m hmem).sound, ← hvisible, hqueue, flatMap_nil, nil_append,
      Multiset.filter_coe]
    simp only [Bool.decide_eq_true]

/-- **The store refines the ledger.** After every run of operations, crashes and restarts
from an empty disk, the database stands for the ledger of that run: the disk holds each
billed event once, requests are answered by the ledger's books, and a scan finds the billed
events. -/
theorem store_refines_ledger
    (hrun : Run (Step X cfg) (.down .empty) ls sys) (h : Assumptions X cfg U t₀ ls) :
    Represents X cfg U (Ledger.after X ls) sys :=
  (sim_run hrun h).represents h.injective

/-- A run that bills two events, is cut in the middle of their flush, starts again and
is offered one of them once more. -/
theorem store_refines_ledger_of_crashed_flush :
    let a := sampleEvent "a" "acme" 7200000 5
    let b := sampleEvent "b" "initech" 7300000 2
    let clk : IngestClock := ⟨SInt.wrap 63 9000000,
      fun _ => 9000000, fun _ => 9000000, fun _ => 9000000⟩
    let ls : List Label := [.restart 8000000 fun _ => 8000000, .run (.ingest clk [a, b, a]), .run .drain,
      .cut (.flush sampleUuid fun _ => 9000000) 2, .restart 9500000 fun _ => 9500000,
      .run (.ingest clk [a])]
    ∃ sys, Run (Step .sample sampleConfig) (.down .empty) ls sys ∧
      Assumptions .sample sampleConfig {a, b} 8000000 ls ∧
      Represents .sample sampleConfig {a, b} (Ledger.after .sample ls) sys := by
  intro a b clk ls
  have hafter : (Ledger.after .sample ls).events = {a.stamp clk.now, b.stamp clk.now} := by
    decide +kernel
  have hrun : ∃ sys, Run (Step .sample sampleConfig) (.down .empty) ls sys := by
    refine ⟨_, .snoc (.snoc (.snoc (.snoc (.snoc (.single (.restart _ _)) (.run trivial)) (.run trivial))
      (.cut 2 ⟨fun n => ((unused_restart_empty _ _ _ _ _).onLog (onLog_ingest _ _ _)).onLog
        (onLog_drainIf _ _), sampleUuid_injective⟩)) (.restart _ _)) (.run trivial)⟩
  obtain ⟨sys, hrun⟩ := hrun
  have h : Assumptions .sample sampleConfig {a, b} 8000000 ls := by
    refine ⟨?_, ⟨?_, ?_⟩, ?_, ?_, ?_⟩
    · simp [ls, Label.offers, Op.offers]
    · rintro e (rfl | rfl) e' (rfl | rfl) h
      · rfl
      · exact absurd h (by decide +kernel)
      · exact absurd h (by decide +kernel)
      · rfl
    · rintro e (rfl | rfl) e' (rfl | rfl) h
      · rfl
      · exact absurd h (by decide +kernel)
      · exact absurd h (by decide +kernel)
      · rfl
    · have hnow : ((SInt.wrap 63 9000000 : I64) : ℤ) = 9000000 := by decide
      simp [ls, Label.ClockIn, Op.ClockIn, DEFAULT_TTL_MS, hnow, clk]
    · rw [hafter]
      exact Finset.card_le_two.trans (by decide)
    · have hts : ((a.stamp clk.now).timestampMs : ℤ) = 7200000 ∧
          ((b.stamp clk.now).timestampMs : ℤ) = 7300000 := by
        decide
      rw [hafter]
      intro now clk' hmem e he
      have hnow : now ≤ 9500000 := by
        simp only [ls, mem_cons, Label.restart.injEq, reduceCtorEq, not_mem_nil, or_false,
          false_or] at hmem
        omega
      rw [Finset.mem_insert, Finset.mem_singleton] at he
      rw [DEFAULT_TTL_MS]
      rcases he with rfl | rfl <;> omega
  exact ⟨sys, hrun, h, store_refines_ledger hrun h⟩

end UsageDb
