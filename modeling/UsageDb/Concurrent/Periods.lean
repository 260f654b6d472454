import UsageDb.Concurrent.Close
import UsageDb.Concurrent.Snapshot
import UsageDb.Concurrent.Watermark

/-!
# Entries of closed periods

A close looks at the list of closed periods, queries the totals, and takes the write lock to look
again and push its entry; a reopen removes the entry of a period under the lock; reading a period
copies its entry and then makes queries. Any number of these requests run here beside the
workers, each cut at the places where it holds no lock, their queries step by step, and the server
may crash between any two steps.

`period_entries_unique_and_frozen` says what holds in all these runs: no period has two entries,
and an entry stays as it was pushed until a reopen of its period.
-/

namespace UsageDb

open Lib List

variable {o : Outcome} {p : ClosedPeriod} {ls : List BillingAction} {sys : BillingSys}

/-- The period an entry is for. -/
def ClosedPeriod.key (p : ClosedPeriod) : String × ℕ × ℕ := (p.accountId, p.year, p.month)

/-! ### Requests about periods -/

/-- Where a request about a period is. -/
inductive PeriodPhase where
  /-- A close that has found its period open. -/
  | closing (account : String) (year month : ℕ) (fromMs toMs : I64)
  /-- A close whose query of the totals runs. -/
  | totals (account : String) (year month : ℕ) (query : RollupQuery)
  /-- A request to read a period, with the entry it has found. -/
  | reading (account : String) (fromMs toMs : I64) (entry : Option ClosedPeriod)
  /-- It queries the adjustments of a closed period. -/
  | adjustments (account : String) (fromMs toMs : I64) (entry : ClosedPeriod) (query : RawQuery)
  /-- It queries a live total. -/
  | live (query : RollupQuery)

/-- What `snapshot_period_totals` reads out of the answer of its query. -/
def RollupQuery.totals (q : RollupQuery) : I128 × ℕ :=
  (extractQuantitySum q.answer, ((q.answer.filterMap (Row.get "count")).filterMap
    Value.asU64).head?.getD 0)

namespace PeriodPhase

variable (X : Extern)

/-- The next step of a request at time `now`: what it does, and where it is then; `none` when it
is over. -/
def next (now : ℤ) (m : Machine) : PeriodPhase → Outcome × Option PeriodPhase
  | .closing account year month fromMs toMs =>
    (.skip m.state, some (.totals account year month (.start X (totalsPlan account fromMs toMs)
      m.state.mem.manifest)))
  | .totals account year month query =>
    match query.next X m.state with
    | some query => (.skip m.state, some (.totals account year month query))
    | none => (CloseRequest.commit ⟨account, year, month, query.totals⟩ now m.state, none)
  | .reading account fromMs toMs none =>
    (.skip m.state, some (.live (.start X (liveTotalPlan account fromMs toMs) m.state.mem.manifest)))
  | .reading account fromMs toMs (some entry) =>
    (.skip m.state, some (.adjustments account fromMs toMs entry
      (.start X (planAdjustments account fromMs toMs) m)))
  | .adjustments account fromMs toMs entry query =>
    match query.next m.state with
    | some query => (.skip m.state, some (.adjustments account fromMs toMs entry query))
    | none =>
      -- an entry without a frozen total is answered with a live one
      (.skip m.state, if entry.frozenQuantity.isNone then
        some (.live (.start X (liveTotalPlan account fromMs toMs) m.state.mem.manifest)) else none)
  | .live query => (.skip m.state, (query.next X m.state).map .live)

end PeriodPhase

/-- The running server with the requests about periods. -/
structure Billing where
  /-- Requests to ingest and the workers. -/
  workers : Workers
  /-- Requests about periods. -/
  requests : List PeriodPhase

/-- The server, running or crashed. -/
inductive BillingSys where
  /-- It runs. -/
  | up (b : Billing)
  /-- There is only the disk. -/
  | down (d : Disk)

/-- What happens next. -/
inductive BillingAction where
  /-- A worker or a request to ingest takes a step. -/
  | work (l : Work)
  /-- `handle_close_period` starts: it looks at the list. -/
  | close (account : String) (year month : ℕ)
  /-- `handle_reopen_period`. -/
  | reopen (account : String) (year month : ℕ)
  /-- `handle_get_period` starts: it copies the entry. -/
  | get (account : String) (year month : ℕ)
  /-- The `i`-th request takes a step, at time `now`. -/
  | request (i : ℕ) (now : ℤ)
  | crash
  | start (now : ℤ) (clk : ℕ → ℤ)

namespace Billing

variable (X : Extern) (cfg : Config)

/-- The shared state. -/
def state (b : Billing) : State := b.workers.machine.state

/-- The server after an outcome. -/
def after (b : Billing) (o : Outcome) : Billing :=
  { b with workers := { b.workers with machine := b.workers.machine.after o } }

/-- One step of a running server. -/
def next (b : Billing) : BillingAction → Option BillingSys
  | .work l => (b.workers.next X cfg l).map fun w => .up { b with workers := w }
  | .close account year month =>
    match b.state.mem.manifest.findClosed account year month with
    | some _ => some (.up b)
    | none =>
      match periodBounds X year month with
      | none => some (.up b)
      | some (fromMs, toMs) =>
        some (.up { b with requests := b.requests ++ [.closing account year month fromMs toMs] })
  | .reopen account year month => some (.up (b.after (reopenPeriod account year month true b.state).1))
  | .get account year month =>
    match periodBounds X year month with
    | none => some (.up b)
    | some (fromMs, toMs) => some (.up { b with
        requests := b.requests ++
          [.reading account fromMs toMs (b.state.mem.manifest.findClosed account year month)] })
  | .request i now => b.requests[i]?.map fun r =>
      let o := r.next X now b.workers.machine
      .up { b.after o.1 with
        requests := match o.2 with
          | some r' => b.requests.set i r'
          | none => b.requests.eraseIdx i }
  | .crash => some (.down b.state.disk)
  | .start _ _ => none

end Billing

/-- One step. -/
def BillingSys.next (X : Extern) (cfg : Config) : BillingSys → BillingAction → Option BillingSys
  | .up b, l => b.next X cfg l
  | .down d, .start now clk => some (.up ⟨⟨.start X cfg now clk d [], []⟩, []⟩)
  | .down _, _ => none

/-- The list of closed periods, of the running server or on its disk. -/
def BillingSys.closedPeriods : BillingSys → List ClosedPeriod
  | .up b => b.state.mem.manifest.closedPeriods
  | .down d => d.loadManifest.closedPeriods

variable {X : Extern} {cfg : Config}

/-! ### The workers leave the list alone -/

theorem FlushPhase.onSegments_iff {p : FlushPhase} :
    p.OnSegments ↔ ∀ metas todo, p.work = some (metas, todo) → ∀ x ∈ todo, x.OnSegments := by
  cases p with
  | writing msg metas todo => simp [FlushPhase.OnSegments, FlushPhase.work]
  | _ => simp [FlushPhase.OnSegments, FlushPhase.work]

/-- A compaction tick too writes raw segments and their sidecars only. -/
def CompactionPhase.OnSegments : CompactionPhase → Prop
  | .writing _ _ _ _ todo => ∀ x ∈ todo, x.OnSegments
  | _ => True

/-- What the list of closed periods needs of a state: memory and disk have the same one, and
nobody is about to write anything but segments. -/
structure Workers.ListOk (w : Workers) : Prop where
  /-- The list on the disk is that in memory. -/
  loaded : w.machine.state.disk.loadManifest.closedPeriods = w.machine.state.mem.manifest.closedPeriods
  flusher : w.machine.flusher.OnSegments
  ticks : ∀ t ∈ w.ticks, t.OnSegments

section Workers

variable {w w' : Workers} {l : Work}

theorem onSegments_segmentEffects (segs : List Segment) : ∀ x ∈ segmentEffects X segs,
    x.OnSegments := by
  intro x hx
  obtain ⟨seg, -, rfl | rfl⟩ := mem_segmentEffects hx
  · trivial
  · trivial

/-- An operation that frames the list keeps memory and disk together. -/
theorem Frames.loaded {s : State} (h : Frames Manifest.closedPeriods s o)
    (hload : s.disk.loadManifest.closedPeriods = s.mem.manifest.closedPeriods) :
    (o.state s).disk.loadManifest.closedPeriods = (o.state s).mem.manifest.closedPeriods := by
  have heffects : ∀ x ∈ o.effects,
      x.Frames Manifest.closedPeriods s.disk.loadManifest.closedPeriods := by
    rw [hload]
    exact h.effects
  exact ((frames_take heffects).all.1.trans hload).trans h.mem.symm

/-- A step of another party. -/
theorem Machine.Does.closedPeriods {m : Machine} {a : Action} (h : m.Does X o a)
    (hflusher : m.flusher.OnSegments)
    (hload : m.state.disk.loadManifest.closedPeriods = m.state.mem.manifest.closedPeriods) :
    (o.state m.state).disk.loadManifest.closedPeriods = (o.state m.state).mem.manifest.closedPeriods ∧
      (o.state m.state).mem.manifest.closedPeriods = m.state.mem.manifest.closedPeriods := by
  have hframes : Frames Manifest.closedPeriods m.state o → _ ∧ _ := fun hf => ⟨hf.loaded hload, hf.mem⟩
  cases h with
  | log hlog => exact hframes (Frames.onLog hlog)
  | write hwriting ho =>
    rw [ho] at hframes ⊢
    refine hframes ⟨rfl, fun x hx => .inr (.inl ?_)⟩
    rw [mem_singleton.1 hx]
    exact FlushPhase.onSegments_iff.1 hflusher _ _ (by rw [hwriting]; rfl) _ mem_cons_self
  | commit hmanifest ho =>
    rw [ho] at hframes ⊢
    exact hframes (Frames.save [] (by rw [hmanifest]; rfl) (by rw [hmanifest]; rfl)
      fun x hx => by cases hx)
  | scan ho =>
    obtain ⟨r, hr, -, -⟩ := rollupEffects_applyAll m.state.disk (newRollups X m.state.disk _ _ _ _)
    rw [ho, Outcome.state, hr]
    exact ⟨hload, rfl⟩
  | tickCommit hmanifest ho =>
    rw [ho] at hframes ⊢
    exact hframes (Frames.save [] (by rw [hmanifest]; rfl) (by rw [hmanifest]; rfl)
      fun x hx => by cases hx)

/-- A step of a compaction tick. -/
theorem CompactionPhase.frames_next {t : CompactionPhase} (ht : t.OnSegments)
    (uuid : String) (s : State) :
    Frames Manifest.closedPeriods s (t.next X cfg uuid s).1 := by
  cases t with
  | sweeping now done todo =>
    cases todo with
    | nil => exact Frames.save [] rfl rfl fun x hx => by cases hx
    | cons id todo =>
      refine ⟨rfl, fun x hx => .inr (.inl ?_)⟩
      simp only [CompactionPhase.next] at hx
      split at hx
      · rw [mem_singleton.1 hx]
        trivial
      · cases hx
  | planning now => exact Frames.skip s
  | running now plans => cases plans <;> exact Frames.skip s
  | reading now plan plans todo got => cases todo <;> exact Frames.skip s
  | writing now plan plans seg todo =>
    cases todo with
    | nil =>
      simp only [CompactionPhase.next]
      split
      · exact Frames.save [] rfl rfl fun x hx => by cases hx
      · refine ⟨rfl, fun x hx => .inr (.inl ?_)⟩
        rw [mem_singleton.1 hx]
        trivial
    | cons x todo =>
      refine ⟨rfl, fun y hy => .inr (.inl ?_)⟩
      rw [mem_singleton.1 hy]
      exact ht x mem_cons_self

/-- A tick goes on to write segments only. -/
theorem CompactionPhase.OnSegments.next {t t' : CompactionPhase} (ht : t.OnSegments)
    {uuid : String} {s : State} (hnext : (t.next X cfg uuid s).2 = some t') : t'.OnSegments := by
  cases t with
  | sweeping now done todo => cases todo <;> (obtain rfl := Option.some.inj hnext; trivial)
  | planning now =>
    cases hnext
    trivial
  | running now plans =>
    cases plans with
    | nil => cases hnext
    | cons plan plans =>
      cases hnext
      trivial
  | reading now plan plans todo got =>
    cases todo with
    | nil =>
      cases hnext
      split
      · trivial
      · exact onSegments_segmentEffects _
    | cons id todo =>
      cases hnext
      trivial
  | writing now plan plans seg todo =>
    cases todo with
    | nil =>
      simp only [CompactionPhase.next] at hnext
      split at hnext <;> (obtain rfl := Option.some.inj hnext; trivial)
    | cons x todo =>
      cases hnext
      exact fun y hy => ht y (mem_cons_of_mem _ hy)

/-- The flusher goes on to write segments only. -/
theorem FlushPhase.OnSegments.next {m m' : Machine} (h : m.flusher.OnSegments) {a : Action}
    (hnext : m.next X cfg a = some m') : m'.flusher.OnSegments := by
  rw [FlushPhase.onSegments_iff] at h ⊢
  intro metas todo hwork x hx
  cases Machine.rawStep hnext with
  | same _ _ hsame => exact h metas todo (hsame ▸ hwork) x hx
  | take _ _ hnew =>
    rcases hnew with ⟨-, hnone⟩ | hsome
    · rw [hnone] at hwork
      cases hwork
    · rw [hsome] at hwork
      cases hwork
      exact onSegments_segmentEffects _ x hx
  | write hold hnew _ =>
    rw [hnew] at hwork
    cases hwork
    exact h _ _ hold x (mem_cons_of_mem _ hx)
  | commit _ hnone =>
    rw [hnone] at hwork
    cases hwork

/-- **A worker leaves the list of closed periods alone.** -/
theorem Workers.ListOk.next (h : w.ListOk) (hnext : w.next X cfg l = some w') :
    w'.ListOk ∧
      w'.machine.state.mem.manifest.closedPeriods = w.machine.state.mem.manifest.closedPeriods := by
  cases l with
  | act a =>
    obtain ⟨m', hm, rfl⟩ := Option.map_eq_some_iff.1 hnext
    obtain ⟨o, hdoes, hstate⟩ := Machine.does hm
    obtain ⟨hload, hsame⟩ := hdoes.closedPeriods h.flusher h.loaded
    rw [← hstate] at hload hsame
    exact ⟨⟨hload, h.flusher.next hm, h.ticks⟩, hsame⟩
  | compactionStart now =>
    cases hnext
    refine ⟨⟨h.loaded, h.flusher, fun t ht => ?_⟩, rfl⟩
    rcases mem_append.1 ht with ht | ht
    · exact h.ticks t ht
    · rw [mem_singleton.1 ht, CompactionPhase.start]
      split <;> trivial
  | compaction i uuid =>
    obtain ⟨t, l, r, -, hticks, rfl⟩ := Workers.next_compaction hnext
    have ht : t.OnSegments := h.ticks t (by simp [hticks])
    have hframes :
        Frames Manifest.closedPeriods w.machine.state (t.next X cfg uuid w.machine.state).1 :=
      CompactionPhase.frames_next ht uuid _
    refine ⟨⟨hframes.loaded h.loaded, h.flusher, fun t' ht' => ?_⟩, hframes.mem⟩
    rcases mem_append.1 ht' with ht' | ht'
    · exact h.ticks t' (by simp [hticks, ht'])
    · rcases mem_append.1 ht' with ht' | ht'
      · exact ht.next (Option.mem_toList.1 ht')
      · exact h.ticks t' (by simp [hticks, ht'])

end Workers

/-! ### What a step does to the list -/

/-- What a step does to the list of closed periods. -/
inductive ListStep (ps : List ClosedPeriod) : List ClosedPeriod → BillingAction → Prop where
  /-- Nothing. -/
  | same {l : BillingAction} : ListStep ps ps l
  /-- The entry of a period that has none is pushed. -/
  | push {l : BillingAction} {p : ClosedPeriod} : p.key ∉ ps.map (·.key) → ListStep ps (ps ++ [p]) l
  /-- The entry of a period is removed. -/
  | remove {account : String} {year month : ℕ} :
      ListStep ps (ps.filter fun p => ¬ p.IsFor account year month) (.reopen account year month)

/-- What the list needs of the server. -/
def BillingSys.ListOk : BillingSys → Prop
  | .up b => b.workers.ListOk
  | .down _ => True

section Steps

variable {sys sys' : BillingSys} {l : BillingAction}

theorem ClosedPeriod.key_eq_iff {account : String} {year month : ℕ} :
    p.key = (account, year, month) ↔ p.IsFor account year month := by
  simp [ClosedPeriod.key, ClosedPeriod.IsFor]

/-- The end of a close pushes an entry if the period has none. -/
theorem CloseRequest.listStep_commit (r : CloseRequest) (now : ℤ) (s : State) (l : BillingAction) :
    ListStep s.mem.manifest.closedPeriods (r.commit now s).mem.manifest.closedPeriods l := by
  rw [CloseRequest.commit]
  split
  · exact .same
  · rename_i hnone
    refine .push (p := r.entry s.mem.manifest now) fun hmem => hnone ?_
    obtain ⟨p, hp, hkey⟩ := mem_map.1 hmem
    rw [any_eq_true]
    exact ⟨p, hp, decide_eq_true (ClosedPeriod.key_eq_iff.1 hkey)⟩

/-- An outcome that saves the manifest it leaves in memory, or does nothing. -/
theorem Billing.listOk_after {b : Billing} (h : b.workers.ListOk)
    (ho : o = .skip b.state ∨ o.effects = [.manifestSave o.mem.manifest]) :
      (b.after o).workers.ListOk := by
  refine ⟨?_, h.flusher, h.ticks⟩
  rcases ho with rfl | ho
  · exact h.loaded
  · show (b.state.disk.applyAll o.effects).loadManifest.closedPeriods = _
    rw [ho]
    rfl

/-- A step of a request about a period. -/
theorem PeriodPhase.listStep_next (r : PeriodPhase) (now : ℤ) (m : Machine) (l : BillingAction) :
    ListStep m.state.mem.manifest.closedPeriods (r.next X now m).1.mem.manifest.closedPeriods l ∧
      ((r.next X now m).1 = .skip m.state ∨
        (r.next X now m).1.effects = [.manifestSave (r.next X now m).1.mem.manifest]) := by
  cases r with
  | closing account year month fromMs toMs => exact ⟨.same, .inl rfl⟩
  | totals account year month query =>
    rw [PeriodPhase.next]
    split
    · exact ⟨.same, .inl rfl⟩
    · refine ⟨CloseRequest.listStep_commit _ now m.state l, ?_⟩
      rw [CloseRequest.commit]
      split
      · exact .inl rfl
      · exact .inr rfl
  | reading account fromMs toMs entry => cases entry <;> exact ⟨.same, .inl rfl⟩
  | adjustments account fromMs toMs entry query =>
    rw [PeriodPhase.next]
    split <;> exact ⟨.same, .inl rfl⟩
  | live query => exact ⟨.same, .inl rfl⟩

/-- A reopen removes the entries of its period. -/
theorem listStep_reopen (account : String) (year month : ℕ) (s : State) :
    ListStep s.mem.manifest.closedPeriods (reopenPeriod account year month true
      s).1.mem.manifest.closedPeriods
        (.reopen account year month) ∧
      ((reopenPeriod account year month true s).1 = .skip s ∨
        (reopenPeriod account year month true s).1.effects =
        [.manifestSave (reopenPeriod account year month true s).1.mem.manifest]) := by
  simp only [reopenPeriod, if_true]
  split
  · exact ⟨.remove, .inr rfl⟩
  · rename_i hlength
    -- nothing is removed, and the manifest is as it was
    have hsub := filter_sublist (p := fun p : ClosedPeriod => decide ¬ p.IsFor account year month)
      (l := s.mem.manifest.closedPeriods)
    have hsame : s.mem.manifest.reopen account year month = s.mem.manifest := by
      have hall := hsub.eq_of_length_le (not_lt.1 hlength)
      rw [Manifest.reopen, hall]
    refine ⟨.remove, .inl ?_⟩
    rw [hsame]
    rfl

/-- **What a step does to the list of closed periods.** -/
theorem BillingSys.ListOk.next (h : sys.ListOk) (hnext : sys.next X cfg l = some sys') :
    sys'.ListOk ∧ ListStep sys.closedPeriods sys'.closedPeriods l := by
  cases sys with
  | down d =>
    cases l with
    | start now clk =>
      cases hnext
      obtain ⟨hmem, heffects⟩ := frames_restart X cfg (f := Manifest.closedPeriods)
        (fun _ _ => rfl) now clk d
      refine ⟨⟨(frames_take heffects).all.1.trans hmem.symm, trivial,
        fun t ht => absurd ht not_mem_nil⟩, ?_⟩
      show ListStep d.loadManifest.closedPeriods (restart X cfg now clk d).mem.manifest.closedPeriods _
      rw [hmem]
      exact .same
    | _ => cases hnext
  | up b =>
    cases l with
    | work l =>
      obtain ⟨w, hw, rfl⟩ := Option.map_eq_some_iff.1 hnext
      obtain ⟨hok, hsame⟩ := Workers.ListOk.next h hw
      refine ⟨hok, ?_⟩
      show ListStep _ w.machine.state.mem.manifest.closedPeriods _
      rw [hsame]
      exact .same
    | close account year month =>
      simp only [BillingSys.next, Billing.next] at hnext
      split at hnext
      · cases hnext
        exact ⟨h, .same⟩
      · split at hnext
        · cases hnext
          exact ⟨h, .same⟩
        · cases hnext
          exact ⟨h, .same⟩
    | reopen account year month =>
      cases hnext
      obtain ⟨hlist, hsaves⟩ := listStep_reopen account year month b.state
      exact ⟨Billing.listOk_after h hsaves, hlist⟩
    | get account year month =>
      simp only [BillingSys.next, Billing.next] at hnext
      split at hnext
      · cases hnext
        exact ⟨h, .same⟩
      · cases hnext
        exact ⟨h, .same⟩
    | request i now =>
      obtain ⟨r, -, rfl⟩ := Option.map_eq_some_iff.1 hnext
      obtain ⟨hlist, hsaves⟩ := r.listStep_next (X := X) now b.workers.machine (.request i now)
      have hok := Billing.listOk_after h hsaves
      exact ⟨⟨hok.loaded, hok.flusher, hok.ticks⟩, hlist⟩
    | crash =>
      cases hnext
      refine ⟨trivial, ?_⟩
      show ListStep _ b.state.disk.loadManifest.closedPeriods _
      rw [show b.state.disk.loadManifest.closedPeriods = b.state.mem.manifest.closedPeriods
        from h.loaded]
      exact .same
    | start now clk => cases hnext

end Steps

/-! ### Every run -/

section Runs

variable {ps ps' : List ClosedPeriod} {l : BillingAction}

/-- A step leaves no period with two entries. -/
theorem ListStep.nodup (h : ListStep ps ps' l) (hps : (ps.map (·.key)).Nodup) :
    (ps'.map (·.key)).Nodup := by
  cases h with
  | same => exact hps
  | push hnew =>
    rw [map_append, nodup_append_comm]
    exact nodup_cons.2 ⟨hnew, hps⟩
  | remove => exact hps.sublist (filter_sublist.map _)

/-- Only a reopen of its period removes an entry. -/
theorem ListStep.stays (h : ListStep ps ps' l) (hp : p ∈ ps)
    (hl : l ≠ .reopen p.accountId p.year p.month) : p ∈ ps' := by
  cases h with
  | same => exact hp
  | push _ => exact mem_append_left _ hp
  | remove =>
    refine mem_filter.2 ⟨hp, decide_eq_true fun hfor => hl ?_⟩
    obtain ⟨rfl, rfl, rfl⟩ := hfor
    rfl

/-- What holds of the server and its list in every run. -/
theorem BillingSys.listOk_run {sys' : BillingSys}
    (hrun : Run (fun a l b => BillingSys.next X cfg a l = some b) sys ls sys') (h : sys.ListOk)
    (hnodup : (sys.closedPeriods.map (·.key)).Nodup) : sys'.ListOk ∧
      (sys'.closedPeriods.map (·.key)).Nodup := by
  refine hrun.invariant
    (I := fun sys => sys.ListOk ∧ (sys.closedPeriods.map (·.key)).Nodup) ?_ ⟨h, hnodup⟩
  rintro a l b ⟨hok, hnodup⟩ hstep
  obtain ⟨hok', hlist⟩ := hok.next hstep
  exact ⟨hok', hlist.nodup hnodup⟩

/-- An entry stays in the list in every run without a reopen of its period. -/
theorem BillingSys.stays_run {sys' : BillingSys}
    (hrun : Run (fun a l b => BillingSys.next X cfg a l = some b) sys ls sys') (h : sys.ListOk)
    (hp : p ∈ sys.closedPeriods) (hls : ∀ l ∈ ls, l ≠ .reopen p.accountId p.year p.month) :
    sys'.ListOk ∧ p ∈ sys'.closedPeriods := by
  induction hrun with
  | nil => exact ⟨h, hp⟩
  | snoc _ hstep ih =>
    obtain ⟨hok, hmem⟩ := ih fun l hl => hls l (mem_append_left _ hl)
    obtain ⟨hok', hlist⟩ := hok.next hstep
    exact ⟨hok', hlist.stays hmem (hls _ (mem_append_right _ (mem_singleton_self _)))⟩

end Runs

/-- **Entries of closed periods are unique and frozen.** In every run of requests and workers from
an empty disk, with crashes and restarts, no period has two entries; and whatever happens after an
entry is in the list, as long as its period is not reopened, the entry is there as it was and is
the only one of its period. -/
theorem period_entries_unique_and_frozen
    (hrun : Run (fun a l b => BillingSys.next X cfg a l = some b) (.down .empty) ls sys) :
    (sys.closedPeriods.map (·.key)).Nodup ∧
      ∀ p ∈ sys.closedPeriods, ∀ ls' sys',
        Run (fun a l b => BillingSys.next X cfg a l = some b) sys ls' sys' →
        (∀ l ∈ ls', l ≠ .reopen p.accountId p.year p.month) →
        p ∈ sys'.closedPeriods ∧ ∀ p' ∈ sys'.closedPeriods, p'.key = p.key → p' = p := by
  obtain ⟨hok, hnodup⟩ := BillingSys.listOk_run hrun trivial nodup_nil
  refine ⟨hnodup, fun p hp ls' sys' hrun' hls => ?_⟩
  have hstays := (BillingSys.stays_run hrun' hok hp hls).2
  have hnodup' := (BillingSys.listOk_run hrun' hok hnodup).2
  exact ⟨hstays, fun p' hp' hkey => inj_on_of_nodup_map hnodup' hp' hstays hkey⟩

/-- Two closes of one period run step by step beside each other; both have found it open. -/
def racingCloses : List BillingAction :=
  [.start 8000000 fun _ => 8000000, .work (.act (.ingest 9000000 sampleClock sampleUsage)),
    .close "acme" 1970 1,
    .close "acme" 1970 1] ++ [0, 1, 0, 1, 0, 1, 0, 0].map fun i => .request i 9000000

/-- The entry is read, another period is closed and reopened, and the server crashes and starts. -/
def afterCloses : List BillingAction :=
  [.get "acme" 1970 1, .request 0 9500000, .close "bolt" 1970 1] ++
    List.replicate 4 (.request 1 9500000) ++
    [.reopen "bolt" 1970 1, .crash, .start 9600000 fun _ => 9600000]

/-- There is one entry, and it is the same in the end. -/
theorem period_entries_of_racing_closes :
    ∃ sys sys' p,
      Run (fun a l b => BillingSys.next .calendar sampleConfig a l = some b)
        (.down .empty) racingCloses sys ∧
      Run (fun a l b => BillingSys.next .calendar sampleConfig a l = some b) sys afterCloses sys' ∧
      p ∈ sys.closedPeriods ∧ p.key = ("acme", 1970, 1) ∧
      (p.frozenQuantity.map fun q : I128 => (q : ℤ)) = some 10 ∧
      sys.closedPeriods.length = 1 ∧ p ∈ sys'.closedPeriods ∧ ∀ p' ∈ sys'.closedPeriods,
        p'.key = p.key → p' = p := by
  have heval :
      (runAll (BillingSys.next .calendar sampleConfig) (.down .empty) racingCloses).any (fun sys =>
        sys.closedPeriods.map (fun p => (p.key, p.frozenQuantity.map fun q : I128 => (q : ℤ))) =
          [(("acme", 1970, 1), some 10)] ∧
        (runAll (BillingSys.next .calendar sampleConfig) sys afterCloses).isSome) := by decide +kernel
  obtain ⟨sys, hall, hview⟩ := (Option.any_eq_true _ _).1 heval
  obtain ⟨hlist, hafter⟩ := of_decide_eq_true hview
  obtain ⟨sys', hafter⟩ := Option.isSome_iff_exists.1 hafter
  have hrun :
      Run (fun a l b => BillingSys.next .calendar sampleConfig a l = some b)
          (.down .empty) racingCloses sys :=
    Run.of_runAll (fun _ _ _ _ h => h) hall
  have hrun' :
      Run (fun a l b => BillingSys.next .calendar sampleConfig a l = some b) sys afterCloses sys' :=
    Run.of_runAll (fun _ _ _ _ h => h) hafter
  obtain ⟨p, hp, heq⟩ := map_eq_singleton_iff.1 hlist
  obtain ⟨hkey, hfrozen⟩ := Prod.mk.inj heq
  have hmem : p ∈ sys.closedPeriods := hp ▸ mem_singleton_self p
  have hls : ∀ l ∈ afterCloses, l ≠ .reopen p.accountId p.year p.month := by
    obtain ⟨haccount, hyear, hmonth⟩ := ClosedPeriod.key_eq_iff.1 hkey
    rw [haccount, hyear, hmonth]
    simp [afterCloses]
  exact ⟨sys, sys', p, hrun, hrun', hmem, hkey, hfrozen, by rw [hp]; rfl,
    (period_entries_unique_and_frozen hrun).2 p hmem afterCloses sys' hrun' hls⟩

end UsageDb
