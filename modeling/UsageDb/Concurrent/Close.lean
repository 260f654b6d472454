import UsageDb.Api.NetTotal

/-!
# Closing a period while requests are under way

A request reads the list of closed periods first and commits in its critical section later; a
close queries the totals of its period first and pushes the entry later. Nothing holds the two
together: `Usage` that is accepted after the query of a close, or by a request that had read the
list before the push, is in the period and not in its frozen total, and no error says so
(`usage_missing_from_frozen_total`).

`frozen_total_has_all_usage` says that this is the only way. In every run in which no request
accepts `Usage` of a period that is closed by then, or whose close has made its query, the
frozen total of a closed period is the sum over a collection of accepted events with all `Usage`
of the period in it.

Only the two kinds of requests are cut into steps here. The workers take theirs as a whole,
between the steps of requests, and a request that drains a batch sends it at once.
-/

namespace UsageDb

open Lib List

variable {c : Multiset UsageEvent}

/-! ### The steps of requests -/

/-- A request that has read the closed periods and not committed. -/
structure IngestRequest where
  /-- `closed_snapshot`. -/
  closed : List ClosedPeriod
  /-- `ingest_now`. -/
  now : I64
  /-- `payload.events`. -/
  events : List UsageEvent

/-- A close that has queried the totals and not pushed its entry. -/
structure CloseRequest where
  /-- `account_id`. -/
  account : String
  year : ℕ
  month : ℕ
  /-- `frozen_quantity` and `frozen_event_count`. -/
  totals : I128 × ℕ

/-- The server with the requests under way. -/
structure Handlers where
  /-- The disk and the shared memory. -/
  state : State
  ingests : List IngestRequest
  /-- The requests to close a period. -/
  closes : List CloseRequest

/-- What happens next. -/
inductive HandlerAction where
  /-- A request reads the closed periods. -/
  | ingestRead (now : I64) (events : List UsageEvent)
  /-- The `i`-th request commits. -/
  | ingestCommit (i : ℕ) (clk : IngestClock)
  /-- A close looks whether there is anything to do, and queries the totals. -/
  | closeQuery (account : String) (year month : ℕ)
  /-- The `i`-th close takes the write lock, looks again, and pushes its entry. -/
  | closeCommit (i : ℕ) (now : ℤ)
  /-- Anything but these two kinds of requests. -/
  | run (op : Op)
  /-- A crash and a start; the requests are gone. -/
  | restart (now : ℤ) (clk : ℕ → ℤ)

/-- The operations that are not cut into steps here. -/
def Op.Whole : Op → Bool
  | .ingest _ _ => false
  | .closePeriod _ _ _ _ => false
  | _ => true

/-- The entry that a close pushes. -/
def CloseRequest.entry (r : CloseRequest) (m : Manifest) (now : ℤ) : ClosedPeriod where
  accountId := r.account
  year := r.year
  month := r.month
  closedAtMs := now
  frozenQuantity := some r.totals.1
  frozenEventCount := some r.totals.2
  watermarkAtCloseMs := some m.hourlyRollupMs

/-- The new events of a request, by the list it has read. -/
def IngestRequest.newEvents (X : Extern) (r : IngestRequest) (s : State) : List Classified :=
  (classifyBatch s.mem.dedupe (classifiedEvents X r.closed r.now r.events)).newEvents

/-- The critical section of a request, and the send after it. -/
def IngestRequest.commit (X : Extern) (cfg : Config) (r : IngestRequest) (clk : IngestClock)
    (s : State) : Outcome :=
  let o := ingestCriticalSection X cfg clk s (classifiedEvents X r.closed r.now r.events)
  ⟨o.1.effects, o.2.1.elim o.1.mem o.1.mem.send⟩

/-- The end of a close. -/
def CloseRequest.commit (r : CloseRequest) (now : ℤ) (s : State) : Outcome :=
  if s.mem.manifest.closedPeriods.any fun p => p.IsFor r.account r.year r.month then .skip s
  else
    let m := (s.mem.manifest.close (r.entry s.mem.manifest now)).saved
    ⟨[.manifestSave m], { s.mem with manifest := m }⟩

namespace Handlers

variable (X : Extern) (cfg : Config)

/-- The server as it has just started on a disk. -/
def start (now : ℤ) (clk : ℕ → ℤ) (d : Disk) : Handlers :=
  ⟨(UsageDb.restart X cfg now clk d).state ⟨d, (UsageDb.restart X cfg now clk d).mem⟩, [], []⟩

/-- One step. -/
def next (h : Handlers) : HandlerAction → Option Handlers
  | .ingestRead now events =>
    some { h with ingests := h.ingests ++ [⟨h.state.mem.manifest.closedPeriods, now, events⟩] }
  | .ingestCommit i clk =>
    h.ingests[i]?.map fun r =>
      { h with state := (r.commit X cfg clk h.state).state h.state, ingests := h.ingests.eraseIdx i }
  | .closeQuery account year month =>
    match h.state.mem.manifest.findClosed account year month with
    | some _ => some h
    | none =>
      match periodBounds X year month with
      | none => some h
      | some (fromMs, toMs) =>
        some { h with closes := h.closes ++
          [⟨account, year, month, snapshotPeriodTotals X h.state account fromMs toMs⟩] }
  | .closeCommit i now =>
    h.closes[i]?.map fun r =>
      { h with state := (r.commit now h.state).state h.state, closes := h.closes.eraseIdx i }
  | .run op => if op.Whole then some { h with state := (op.outcome X cfg h.state).state h.state }
      else none
  | .restart now clk => some (start X cfg now clk h.state.disk)

/-- What a step accepts. -/
def accepts (h : Handlers) : HandlerAction → List UsageEvent
  | .ingestCommit i _ => (h.ingests[i]?.elim [] fun r => r.newEvents X h.state).map (·.event)
  | _ => []

/-- The periods that are closed, or whose close has made its query. -/
def closing (h : Handlers) : List (String × ℕ × ℕ) :=
  h.state.mem.manifest.closedPeriods.map (fun p => (p.accountId, p.year, p.month)) ++
    h.closes.map fun r => (r.account, r.year, r.month)

/-- The step accepts no `Usage` of these periods. -/
def SparesClosing (h : Handlers) (a : HandlerAction) : Prop :=
  ∀ e ∈ h.accepts X a, ∀ p ∈ h.closing, usageOf X p.1 p.2.1 p.2.2 e = false

instance (h : Handlers) (a : HandlerAction) : Decidable (h.SparesClosing X a) := by
  unfold SparesClosing
  infer_instance

end Handlers

/-- New names are new, and when the totals of a period are queried, none of its events is on the
way to the flusher. -/
def HandlerAction.Fresh (X : Extern) (s : State) : HandlerAction → Prop
  | .run op => op.Fresh s
  | .closeQuery account year month =>
    ∀ fromMs toMs, periodBounds X year month = some (fromMs, toMs) → s.Settled account fromMs toMs
  | _ => True

/-- A step, with the book of accepted events. No accepted event is below the watermark of the
moment. -/
structure HandlerStep (X : Extern) (cfg : Config) (a : Handlers × Multiset UsageEvent)
    (l : HandlerAction) (b : Handlers × Multiset UsageEvent) : Prop where
  /-- What is assumed of the moment. -/
  fresh : l.Fresh X a.1.state
  /-- The step is taken. -/
  next : a.1.next X cfg l = some b.1
  /-- The book has the accepted events too. -/
  book : b.2 = a.2 + ↑(a.1.accepts X l)
  /-- They are not below the watermark. -/
  timely : ∀ e ∈ a.1.accepts X l, a.1.state.mem.manifest.hourlyRollupMs ≤ e.timestampMs

variable {X : Extern} {cfg : Config}

/-! ### What is counted -/

section Counted

variable {c : Multiset UsageEvent} {account : String} {year month : ℕ} {q : I128}

/-- The total is that of some accepted events of the period, with all `Usage` among them. -/
def Counted (X : Extern) (c : Multiset UsageEvent) (account : String) (year month : ℕ) (q : I128) :
    Prop :=
  year < 2 ^ 16 → ∀ fromMs toMs, periodBounds X year month = some (fromMs, toMs) →
    ∃ counted ≤ c.filter fun e => inPeriod account fromMs toMs e,
      (q : ℤ) = quantityOf counted ∧
      (c.filter fun e => (inPeriod account fromMs toMs e && e.isUsage)) ≤ counted

/-- It stays so, when no `Usage` of the period is accepted. -/
theorem Counted.mono (hcal : X.Calendar) (h : Counted X c account year month q) {new : List UsageEvent}
    (hnew : ∀ e ∈ new, usageOf X account year month e = false) :
      Counted X (c + ↑new) account year month q := by
  intro hyear fromMs toMs hbounds
  obtain ⟨counted, hle, hq, husage⟩ := h hyear fromMs toMs hbounds
  refine ⟨counted, ?_, hq, ?_⟩
  · rw [Multiset.filter_add]
    exact hle.trans (Multiset.le_add_right _ _)
  · rw [filter_isUsage_add hcal hyear hbounds hnew]
    exact husage

/-- A query counts all that has been accepted. -/
theorem counted_snapshot (hcal : X.Calendar) {s : State} (hok : DiskOk X cfg s.disk) (hm : MemOk s)
    (hroll : RollupOk X s.disk) (hcontent : s.disk.content = c)
    (habs : (c.map fun e => |(e.quantity : ℤ)|).sum < 2 ^ 127) {fromMs toMs : I64}
    (hbounds : periodBounds X year month = some (fromMs, toMs)) (hset : s.Settled account fromMs toMs) :
    Counted X c account year month (snapshotPeriodTotals X s account fromMs toMs).1 := by
  subst hcontent
  intro _ fromMs' toMs' hbounds'
  obtain ⟨rfl, rfl⟩ := Prod.mk.inj (Option.some.inj (hbounds.symm.trans hbounds'))
  refine ⟨_, le_rfl, snapshotPeriodTotals_eq hcal hok hm hroll habs hset hbounds, ?_⟩
  refine Multiset.monotone_filter_right _ fun e he => ?_
  exact ((Bool.and_eq_true _ _).mp he).1

end Counted

/-! ### One step -/

section Steps

variable {h h' : Handlers} {c c' : Multiset UsageEvent}

/-- What a request accepts has passed validation, whatever list it has read. -/
theorem IngestRequest.newEvents_positive (r : IngestRequest) (s : State) :
    ∀ e ∈ (r.newEvents X s).map (·.event), 0 < (e.timestampMs : ℤ) := by
  intro e he
  obtain ⟨k, hk, rfl⟩ := mem_map.1 he
  obtain ⟨e', -, hadm, rfl⟩ := mem_newEvents hk
  rw [admits, Bool.and_eq_true, decide_eq_true_eq] at hadm
  exact hadm.1.timestamp_pos

/-- A close saves the manifest, or does nothing. -/
theorem CloseRequest.keeps_commit (r : CloseRequest) (now : ℤ) {s : State}
    {D : Multiset UsageEvent → Prop}
    (hd : Holds X cfg D c s.disk) (hm : MemOk s) : Keeps X cfg D c s (r.commit now s) := by
  rw [CloseRequest.commit]
  split
  · exact Keeps.skip hd hm
  · exact (keepsOffLog_saveSame (m := (s.mem.manifest.close (r.entry s.mem.manifest now)).saved)
      [] hd hm.loaded (by simp) rfl rfl rfl
      fun r hr => hr).keeps hm

theorem CloseRequest.frames_commit (r : CloseRequest) (now : ℤ) (s : State) :
    Frames Manifest.rolled s (r.commit now s) := by
  rw [CloseRequest.commit]
  split
  · exact Frames.skip s
  · exact Frames.save [] rfl rfl fun x hx => by cases hx

/-- What is closed after a close. -/
theorem CloseRequest.mem_commit {r : CloseRequest} {now : ℤ} {s : State} {p : ClosedPeriod}
    (hp : p ∈ (r.commit now s).mem.manifest.closedPeriods) :
    p ∈ s.mem.manifest.closedPeriods ∨ p = r.entry s.mem.manifest now := by
  rw [CloseRequest.commit] at hp
  split at hp
  · exact .inl hp
  · rcases mem_append.1 hp with hp | hp
    · exact .inl hp
    · exact .inr (mem_singleton.1 hp)

theorem CloseRequest.unsealed_commit (r : CloseRequest) (now : ℤ) (s : State) :
    (r.commit now s).mem.unsealed = s.mem.unsealed := by
  rw [CloseRequest.commit]
  split <;> rfl

/-- What the first part of a close does: nothing, or a query. -/
theorem Handlers.closeQuery_cases {account : String} {year month : ℕ}
    (hnext : h.next X cfg (.closeQuery account year month) = some h') :
    h' = h ∨ ∃ fromMs toMs, periodBounds X year month = some (fromMs, toMs) ∧
      h' = { h with closes := h.closes ++
        [⟨account, year, month, snapshotPeriodTotals X h.state account fromMs toMs⟩] } := by
  rw [Handlers.next] at hnext
  split at hnext
  · exact .inl (Option.some.inj hnext).symm
  · split at hnext
    · exact .inl (Option.some.inj hnext).symm
    · rename_i fromMs toMs hbounds
      exact .inr ⟨fromMs, toMs, hbounds, (Option.some.inj hnext).symm⟩

/-- Only whole operations are run. -/
theorem Handlers.run_cases {op : Op} (hnext : h.next X cfg (.run op) = some h') :
    op.Whole ∧ h' = { h with state := (op.outcome X cfg h.state).state h.state } := by
  rw [Handlers.next] at hnext
  split at hnext
  · rename_i hwhole
    exact ⟨hwhole, (Option.some.inj hnext).symm⟩
  · cases hnext

/-- **Every step keeps the state in order**, and the rollups right. -/
theorem HandlerStep.state_ok {l : HandlerAction} (hok : SysOk X cfg DistinctIds c (.up h.state))
    (hstep : HandlerStep X cfg (h, c) l (h', c')) :
    SysOk X cfg DistinctIds c' (.up h'.state) ∧
      (DistinctIds c' → RollupOk X h.state.disk → RollupOk X h'.state.disk) := by
  obtain ⟨hfresh, hnext, rfl, htimely⟩ := hstep
  dsimp only at *
  have hnone : c + ↑([] : List UsageEvent) = c := Multiset.add_zero c
  cases l with
  | ingestRead now events =>
    cases hnext
    rw [show c + ↑(h.accepts X (.ingestRead now events)) = c from hnone]
    exact ⟨hok, fun _ hroll => hroll⟩
  | ingestCommit i clk =>
    obtain ⟨r, hr, rfl⟩ := Option.map_eq_some_iff.1 hnext
    have haccepts : h.accepts X (.ingestCommit i clk) = (r.newEvents X h.state).map (·.event) := by
      rw [Handlers.accepts, hr]
      rfl
    rw [haccepts] at htimely ⊢
    -- the commit is `acceptAndDrain`, with what is new by the list the request has read
    have hok' :=
      (acceptAndDrain_ok DistinctIds.left hok.1 hok.2 clk (r.newEvents_positive (X := X) h.state)).2
    exact ⟨hok',
      fun hc hroll => hroll.frames_ok hok hok' (Frames.onLog (onLog_acceptAndDrain _ _ _)) htimely
      (fun e he => unsealed_acceptAndDrain _ _ _ he) hc⟩
  | closeQuery account year month =>
    rw [show c + ↑(h.accepts X (.closeQuery account year month)) = c from hnone]
    rcases Handlers.closeQuery_cases hnext with rfl | ⟨fromMs, toMs, -, rfl⟩
    · exact ⟨hok, fun _ hroll => hroll⟩
    · exact ⟨hok, fun _ hroll => hroll⟩
  | closeCommit i now =>
    obtain ⟨r, hr, rfl⟩ := Option.map_eq_some_iff.1 hnext
    have hkeep := r.keeps_commit now hok.1 hok.2
    have hok' : SysOk X cfg DistinctIds (c + ↑([] : List UsageEvent))
        (.up ((r.commit now h.state).state h.state)) := by
      rw [hnone]
      exact ⟨hkeep.disk, hkeep.mem⟩
    refine ⟨hok',
      fun hc hroll =>
        hroll.frames_ok hok hok' (r.frames_commit now h.state) htimely (fun e he => ?_) hc⟩
    rw [r.unsealed_commit] at he
    exact .inl he
  | run op =>
    obtain ⟨hwhole, rfl⟩ := Handlers.run_cases hnext
    have hop : op.accepts X h.state = [] := accepts_eq_nil fun clk events heq => by
      rw [heq] at hwhole
      cases hwhole
    have hstep := hok.step DistinctIds.left (fun _ => rfl) (.run hfresh)
    rw [Sys.accepts, hop] at hstep
    refine ⟨hstep, fun hc hroll => hroll.run hok hfresh (by rwa [hop]) fun e he => ?_⟩
    rw [hop] at he
    cases he
  | restart now clk =>
    cases hnext
    have hdown : SysOk X cfg DistinctIds c (.down h.state.disk) := hok.1
    exact ⟨hdown.step DistinctIds.left (fun _ => rfl) (.restart now clk),
      fun hc hroll => hroll.restart hok.1 hc.left now clk⟩

/-- The totals that are frozen and those about to be are right, and so are the rollups. -/
structure Handlers.Ok (X : Extern) (c : Multiset UsageEvent) (h : Handlers) : Prop where
  rollups : RollupOk X h.state.disk
  /-- The totals that are frozen. -/
  closed : ∀ p ∈ h.state.mem.manifest.closedPeriods, ∃ q, p.frozenQuantity = some q ∧
    Counted X c p.accountId p.year p.month q
  /-- The totals that have been queried. -/
  closes : ∀ r ∈ h.closes, Counted X c r.account r.year r.month r.totals.1

/-- A step that closes no period and makes no query. -/
theorem Handlers.Ok.mono (hcal : X.Calendar) (hok : h.Ok X c) {new : List UsageEvent}
    (hroll : RollupOk X h'.state.disk)
    (hclosed : ∀ p ∈ h'.state.mem.manifest.closedPeriods, p ∈ h.state.mem.manifest.closedPeriods)
    (hcloses : ∀ r ∈ h'.closes, r ∈ h.closes)
    (hnew : ∀ e ∈ new, ∀ p ∈ h.closing, usageOf X p.1 p.2.1 p.2.2 e = false) : h'.Ok X (c + ↑new) := by
  refine ⟨hroll, fun p hp => ?_, fun r hr => ?_⟩
  · obtain ⟨q, hq, hcounted⟩ := hok.closed p (hclosed p hp)
    refine ⟨q, hq, hcounted.mono hcal fun e he => ?_⟩
    exact hnew e he (p.accountId, p.year, p.month) (mem_append_left _ (mem_map_of_mem (hclosed p hp)))
  · refine (hok.closes r (hcloses r hr)).mono hcal fun e he => ?_
    exact hnew e he (r.account, r.year, r.month) (mem_append_right _ (mem_map_of_mem (hcloses r hr)))

/-- No operation but the two kinds of requests closes a period. -/
theorem Op.Whole.closedPeriods {op : Op} (hop : op.Whole) (s : State) :
    ∀ p ∈ (op.outcome X cfg s).mem.manifest.closedPeriods, p ∈ s.mem.manifest.closedPeriods := by
  intro p hp
  by_cases hopen : ∀ a y m, op ≠ .reopenPeriod a y m
  · rwa [closedPeriods_outcome s (fun a y m t heq => by rw [heq] at hop; cases hop) hopen] at hp
  · push Not at hopen
    obtain ⟨account, year, month, rfl⟩ := hopen
    exact mem_reopenPeriod hp

/-- **Every step keeps the totals right**, if it accepts no `Usage` of a period that is closed or
about to be. -/
theorem Handlers.Ok.step (hcal : X.Calendar) {l : HandlerAction}
    (hsys : SysOk X cfg DistinctIds c (.up h.state))
    (hok : h.Ok X c) (hstep : HandlerStep X cfg (h, c) l (h', c')) (hspares : h.SparesClosing X l)
    (hc : DistinctIds c') (habs : (c'.map fun e => |(e.quantity : ℤ)|).sum < 2 ^ 127) : h'.Ok X c' := by
  have hroll := (hstep.state_ok hsys).2 hc hok.rollups
  obtain ⟨hfresh, hnext, rfl, -⟩ := hstep
  dsimp only at *
  have hnone : c + ↑([] : List UsageEvent) = c := Multiset.add_zero c
  cases l with
  | ingestRead now events =>
    cases hnext
    exact hok.mono hcal hroll (fun p hp => hp) (fun r hr => hr) hspares
  | ingestCommit i clk =>
    obtain ⟨r, hr, rfl⟩ := Option.map_eq_some_iff.1 hnext
    refine hok.mono hcal hroll (fun p hp => ?_) (fun r hr => hr) hspares
    have hsame : (r.commit X cfg clk h.state).mem.manifest = h.state.mem.manifest :=
      (onLog_acceptAndDrain h.state clk (r.newEvents X h.state)).manifest
    rw [← hsame]
    exact hp
  | closeQuery account year month =>
    rcases Handlers.closeQuery_cases hnext with rfl | ⟨fromMs, toMs, hbounds, rfl⟩
    · exact hok.mono hcal hroll (fun p hp => hp) (fun r hr => hr) hspares
    · have hbook : c + ↑(h.accepts X (.closeQuery account year month)) = c := hnone
      rw [hbook] at hc habs ⊢
      refine ⟨hok.rollups, hok.closed, fun r hr => ?_⟩
      rcases mem_append.1 hr with hr | hr
      · exact hok.closes r hr
      · obtain rfl := mem_singleton.1 hr
        exact counted_snapshot hcal hsys.1.1 hsys.2 hok.rollups (hsys.1.2 hc) habs hbounds
          (hfresh _ _ hbounds)
  | closeCommit i now =>
    obtain ⟨r, hr, rfl⟩ := Option.map_eq_some_iff.1 hnext
    have hbook : c + ↑(h.accepts X (.closeCommit i now)) = c := hnone
    rw [hbook] at ⊢
    refine ⟨hroll, fun p hp => ?_, fun r' hr' => hok.closes r' (mem_of_mem_eraseIdx hr')⟩
    rcases r.mem_commit hp with hp | rfl
    · exact hok.closed p hp
    · exact ⟨_, rfl, hok.closes r (mem_of_getElem? hr)⟩
  | run op =>
    obtain ⟨hwhole, rfl⟩ := Handlers.run_cases hnext
    exact hok.mono hcal hroll (Op.Whole.closedPeriods hwhole h.state) (fun r hr => hr) hspares
  | restart now clk =>
    cases hnext
    refine hok.mono hcal hroll (fun p hp => ?_) (fun r hr => by cases hr) hspares
    have hframes := frames_restart X cfg (f := Manifest.closedPeriods)
      (fun _ _ => rfl) now clk h.state.disk
    rw [← hsys.2.loadManifest]
    exact hframes.1 ▸ hp

end Steps

/-- **A frozen total has all `Usage` in it.** In every run of requests and workers in which no
event is accepted below the watermark and no batch with events of a period is on its way to the
flusher when its totals are queried, with different ids and quantities whose sum fits: if no
request accepts `Usage` of a period that is closed or whose close has made its query, then the
frozen total of a closed period is the sum over some of the accepted events of the period, with
all `Usage` that was ever accepted among them. -/
theorem frozen_total_has_all_usage (hcal : X.Calendar) {now : ℤ} {clk : ℕ → ℤ}
    {ls : List HandlerAction} {h : Handlers}
    (hrun : Run (fun a l b => HandlerStep X cfg a l b ∧
      a.1.SparesClosing X l) (.start X cfg now clk .empty, 0) ls (h, c))
    (hc : DistinctIds c) (habs : (c.map fun e => |(e.quantity : ℤ)|).sum < 2 ^ 127) {p : ClosedPeriod}
    (hp : p ∈ h.state.mem.manifest.closedPeriods) :
    ∃ q, p.frozenQuantity = some q ∧ Counted X c p.accountId p.year p.month q := by
  have hempty : SysOk X cfg DistinctIds 0 (.down .empty) := sysOk_empty
  have hinv : SysOk X cfg DistinctIds c (.up h.state) ∧
      (DistinctIds c ∧ (c.map fun e => |(e.quantity : ℤ)|).sum < 2 ^ 127 → h.Ok X c) := by
    refine hrun.invariant (I := fun b => SysOk X cfg DistinctIds b.2 (.up b.1.state) ∧
      (DistinctIds b.2 ∧
        (b.2.map fun e => |(e.quantity : ℤ)|).sum < 2 ^ 127 → b.1.Ok X b.2)) ?_ ⟨?_, fun _ => ?_⟩
    · rintro ⟨h, c⟩ l ⟨h', c'⟩ ⟨hsys, hok⟩ ⟨hstep, hspares⟩
      refine ⟨(hstep.state_ok hsys).1, fun hc' => ?_⟩
      have hbook : c' = c + ↑(h.accepts X l) := hstep.book
      have hfits :
          (c.map fun e => |(e.quantity : ℤ)|).sum ≤ (c'.map fun e => |(e.quantity : ℤ)|).sum := by
        rw [hbook, Multiset.map_add, Multiset.sum_add]
        exact le_add_of_nonneg_right (Multiset.sum_nonneg fun x hx => by
          obtain ⟨e, -, rfl⟩ := Multiset.mem_map.1 hx
          exact abs_nonneg _)
      have hdistinct : DistinctIds c := (hbook ▸ hc'.1 : DistinctIds (c + ↑(h.accepts X l))).left
      exact (hok ⟨hdistinct, hfits.trans_lt hc'.2⟩).step hcal hsys hstep hspares hc'.1 hc'.2
    · exact hempty.step DistinctIds.left (fun _ => rfl) (.restart now clk)
    · refine ⟨rollupOk_empty.restart (D := DistinctIds) hempty (by simp [DistinctIds]) now clk,
        fun p hp => ?_, fun r hr => by cases hr⟩
      have hframes := frames_restart X cfg (f := Manifest.closedPeriods) (fun _ _ => rfl) now clk .empty
      have hnone : p ∈ (Disk.loadManifest .empty).closedPeriods := hframes.1 ▸ hp
      cases hnone
  exact (hinv.2 ⟨hc, habs⟩).closed p hp

/-! ### Two runs -/

/-- The step is one of a request. -/
def HandlerAction.ofRequest : HandlerAction → Bool
  | .run _ => false
  | _ => true

/-- What is checked of a step of a concrete run: it is one of a request, nothing is on its way to
the flusher, and no event is accepted below the watermark. -/
def Handlers.plain (X : Extern) (h : Handlers) (a : HandlerAction) : Bool :=
  h.state.mem.queue.isEmpty && (h.accepts X a).all
    (fun e => h.state.mem.manifest.hourlyRollupMs ≤ e.timestampMs) &&
    a.ofRequest

theorem handlerStep_of_plain {h h' : Handlers} {a : HandlerAction}
    (hplain : h.plain X a) (hnext : h.next X cfg a = some h') :
    HandlerStep X cfg (h, c) a (h', c + ↑(h.accepts X a)) := by
  rw [Handlers.plain, Bool.and_eq_true, Bool.and_eq_true, List.isEmpty_iff, List.all_eq_true] at hplain
  obtain ⟨⟨hqueue, htimely⟩, hrun⟩ := hplain
  refine ⟨?_, hnext, rfl, fun e he => of_decide_eq_true (htimely e he)⟩
  cases a with
  | run op => cases hrun
  | closeQuery account year month =>
    intro fromMs toMs _ msg hmsg
    rw [hqueue] at hmsg
    cases hmsg
  | _ => trivial

/-- The steps one after another, each checked by `ok` before it is taken. -/
def Handlers.runAll (X : Extern) (cfg : Config) (ok : Handlers → HandlerAction → Bool) :
    Handlers × Multiset UsageEvent → List HandlerAction → Option (Handlers × Multiset UsageEvent)
  | b, [] => some b
  | (h, c), a :: as =>
    if ok h a then (h.next X cfg a).bind
      fun h' => runAll X cfg ok (h', c + ↑(h.accepts X a)) as else none

/-- What `runAll` computes is a run of checked steps. -/
theorem Handlers.run_runAll {ok : Handlers → HandlerAction → Bool} {P : Handlers → HandlerAction → Prop}
    (hok : ∀ h a, ok h a → h.plain X a ∧ P h a) {as : List HandlerAction}
    {b b' : Handlers × Multiset UsageEvent} (h : runAll X cfg ok b as = some b') :
    Run (fun a l b => HandlerStep X cfg a l b ∧ P a.1 l) b as b' := by
  induction as generalizing b with
  | nil =>
    cases h
    exact .nil _
  | cons a as ih =>
    obtain ⟨hs, c⟩ := b
    rw [runAll] at h
    split at h
    · rename_i hcheck
      obtain ⟨hs', hnext, hrest⟩ := Option.bind_eq_some_iff.1 h
      obtain ⟨hplain, hP⟩ := hok hs a hcheck
      exact Run.append (.single ⟨handlerStep_of_plain hplain hnext, hP⟩) (ih hrest)
    · cases h

/-- `Usage` of 10. -/
def sampleUsage : List UsageEvent := [sampleEvent "a" "acme" 7200000 10]

/-- A request is under way while a period is closed, and commits before the close's query. -/
def commitBeforeQuery : List HandlerAction :=
  [.ingestRead (SInt.wrap 63 9000000) sampleUsage, .ingestCommit 0 sampleClock,
    .closeQuery "acme" 1970 1, .ingestRead (SInt.wrap 63 9000000) [], .closeCommit 0 9000000]

/-- The request commits after the close has pushed its entry. -/
def commitAfterClose : List HandlerAction :=
  [.ingestRead (SInt.wrap 63 9000000) sampleUsage, .closeQuery "acme" 1970 1, .closeCommit 0 9000000,
    .ingestCommit 0 sampleClock]

/-- The server on an empty disk. -/
def newHandlers : Handlers := .start .calendar sampleConfig 8000000 (fun _ => 8000000) .empty

/-- What is needed of the books of the two runs. -/
theorem sampleUsage_book (h : c.map (fun e => (e.eventId, (e.quantity : ℤ))) = {("a", 10)}) :
    DistinctIds c ∧ (c.map fun e => |(e.quantity : ℤ)|).sum < 2 ^ 127 := by
  have hids := congrArg (Multiset.map Prod.fst) h
  have hsum := congrArg (fun m => (Multiset.map (fun x : String × ℤ => |x.2|) m).sum) h
  simp only [Multiset.map_map, Function.comp_def, Multiset.map_singleton,
    Multiset.sum_singleton] at hids hsum
  rw [DistinctIds, hids, hsum]
  exact ⟨Multiset.nodup_singleton _, by norm_num⟩

/-- A request that commits before the query is counted. -/
theorem frozen_total_of_early_commit :
    ∃ h c, Run (fun a l b => HandlerStep .calendar sampleConfig a l b ∧ a.1.SparesClosing .calendar l)
        (newHandlers, 0) commitBeforeQuery (h, c) ∧
      c.map (fun e => (e.eventId, (e.quantity : ℤ))) = {("a", 10)} ∧
      ∃ p ∈ h.state.mem.manifest.closedPeriods, ∃ q, p.frozenQuantity = some q ∧
        Counted .calendar c p.accountId p.year p.month q := by
  have heval : ((Handlers.runAll .calendar sampleConfig
      (fun h a => h.plain .calendar a && h.SparesClosing .calendar a)
          (newHandlers, 0) commitBeforeQuery).map fun b =>
        (b.2.map fun e => (e.eventId, (e.quantity : ℤ)), b.1.state.mem.manifest.closedPeriods.length)) =
      some ({("a", 10)}, 1) := by decide +kernel
  obtain ⟨⟨h, c⟩, hall, hview⟩ := Option.map_eq_some_iff.1 heval
  obtain ⟨hbook, hlength⟩ := Prod.mk.inj hview
  have hrun := Handlers.run_runAll (P := fun h a => h.SparesClosing .calendar a) (fun h a hok => by
    simpa using hok) hall
  obtain ⟨p, hp⟩ := exists_mem_of_length_pos (hlength.symm ▸ Nat.one_pos)
  obtain ⟨hc, habs⟩ := sampleUsage_book hbook
  exact ⟨h, c, hrun, hbook, p, hp, frozen_total_has_all_usage Extern.calendar_ok hrun hc habs hp⟩

/-- **`Usage` that is missing from a frozen total.** A request has read the closed periods; the
month is closed with a total of 0; then the request commits `Usage` of 10 in the month. -/
theorem usage_missing_from_frozen_total :
    ∃ h c p q, Run (HandlerStep .calendar sampleConfig) (newHandlers, 0) commitAfterClose (h, c) ∧
      DistinctIds c ∧ (c.map fun e => |(e.quantity : ℤ)|).sum < 2 ^ 127 ∧
      p ∈ h.state.mem.manifest.closedPeriods ∧ p.frozenQuantity = some q ∧
      ¬ Counted .calendar c p.accountId p.year p.month q := by
  have heval :
      ((Handlers.runAll .calendar sampleConfig (fun h a => h.plain .calendar a) (newHandlers, 0)
      commitAfterClose).any fun b =>
        b.2.map (fun e => (e.eventId, (e.quantity : ℤ))) = {("a", 10)} ∧
        b.1.state.mem.manifest.closedPeriods.map (fun p =>
          (p.accountId, p.year, p.month, p.frozenQuantity.map
            fun q : I128 => (q : ℤ))) = [("acme", 1970, 1, some 0)] ∧
        (b.2.filter fun e => (inPeriod "acme" 0 (SInt.wrap 63 2678400000) e && e.isUsage) = true).map
          (fun e => (e.quantity : ℤ)) = {10}) = true := by decide +kernel
  obtain ⟨⟨h, c⟩, hall, hview⟩ := (Option.any_eq_true _ _).1 heval
  obtain ⟨hbook, hclosed, husage⟩ := of_decide_eq_true hview
  have hrun := Handlers.run_runAll (P := fun _ _ => True) (fun h a hok => ⟨hok, trivial⟩) hall
  obtain ⟨hc, habs⟩ := sampleUsage_book hbook
  obtain ⟨p, hp, heq⟩ := map_eq_singleton_iff.1 hclosed
  simp only [Prod.mk.injEq] at heq
  obtain ⟨haccount, hyear, hmonth, hfrozen⟩ := heq
  obtain ⟨q, hq, hzero⟩ := Option.map_eq_some_iff.1 hfrozen
  refine ⟨h, c, p, q, hrun.mono fun _ _ _ hstep => hstep.1, hc, habs, hp ▸ mem_singleton_self p, hq, ?_⟩
  rw [haccount, hyear, hmonth]
  intro hcounted
  obtain ⟨counted, hle, htotal, hall⟩ := hcounted (by decide) 0 (SInt.wrap 63 2678400000)
    periodBounds_calendar
  -- the one event there is has been counted
  have hcard : counted.card ≤ 1 := by
    have hone := congrArg Multiset.card hbook
    rw [Multiset.card_map, Multiset.card_singleton] at hone
    exact hone ▸ Multiset.card_le_card (hle.trans (Multiset.filter_le _ _))
  have hsame := Multiset.eq_of_le_of_card_le hall (hcard.trans (by
    rw [← Multiset.card_map fun e : UsageEvent => (e.quantity : ℤ), husage, Multiset.card_singleton]))
  rw [← hsame, quantityOf, husage, Multiset.sum_singleton, hzero] at htotal
  exact absurd htotal (by decide)

end UsageDb
