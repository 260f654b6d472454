import UsageDb.Rollup.Coverage
import Mathlib.Algebra.Order.BigOperators.Group.Multiset

/-!
# The net total of a closed period

A closed period is answered with `net_total`: the total that was frozen when it was closed,
and the quantities of the corrections and retractions in the period. The frozen total is a sum
over all kinds of events, and the scan for adjustments does not ask when an event was accepted,
so a correction that was there when the period was closed is counted twice
(`early_correction_counted_twice`).

`netTotal_eq` says that the net total is the true one in every state of every run in which, at
each close, the corrections and retractions of the period add up to nothing. What carries it is
that the frozen total is the total of the `Usage` events of the period (`ClosedOk`): none is
accepted afterwards. The calendar is a parameter, and what is assumed of it is
`Extern.Calendar`.
-/

namespace UsageDb

open Lib RollupBuilder List

variable {X : Extern} {cfg : Config}
  {year month : ℕ} {fromMs toMs : I64} {c : Multiset UsageEvent} {account : String} {s : State}

/-! ### Events of a period -/

/-- What is assumed of `chrono`: months begin at full hours, and the times from the beginning
of a month to the beginning of the next are those of the month. -/
structure Extern.Calendar (X : Extern) : Prop where
  /-- Months begin at full hours. -/
  hour : ∀ year month t, X.monthStart year month = some t → HOUR_MS ∣ (t : ℤ)
  /-- A time between the bounds of a month is of the month. -/
  month : ∀ year month fromMs toMs, periodBounds X year month = some (fromMs, toMs) → ∀ t : I64,
    (fromMs : ℤ) ≤ t → (t : ℤ) < toMs → X.yearMonth t = some ((year : ℤ), month)

/-- The bounds of a period are full hours. -/
theorem Extern.Calendar.bounds (hcal : X.Calendar)
    (h : periodBounds X year month = some (fromMs, toMs)) : HOUR_MS ∣ (fromMs : ℤ) ∧
      HOUR_MS ∣ (toMs : ℤ) := by
  obtain ⟨a, ha, h⟩ := Option.bind_eq_some_iff.1 h
  split at h
  · obtain ⟨b, hb, h⟩ := Option.bind_eq_some_iff.1 h
    cases h
    exact ⟨hcal.hour _ _ _ ha, hcal.hour _ _ _ hb⟩
  · obtain ⟨b, hb, h⟩ := Option.bind_eq_some_iff.1 h
    cases h
    exact ⟨hcal.hour _ _ _ ha, hcal.hour _ _ _ hb⟩

/-- The event is of the account, and its time is in the range. -/
def inPeriod (account : String) (fromMs toMs : I64) (e : UsageEvent) : Bool :=
  inRange fromMs toMs e && e.accountId = account

/-- Usage, as opposed to a correction or a retraction. -/
def UsageEvent.isUsage (e : UsageEvent) : Bool := e.kind = .usage

/-- The quantities of some events, added up. -/
def quantityOf (c : Multiset UsageEvent) : ℤ := (c.map fun e => e.quantity).sum

theorem quantityOf_add (c c' : Multiset UsageEvent) : quantityOf (c + c') = quantityOf c +
    quantityOf c' := by
  rw [quantityOf, Multiset.map_add, Multiset.sum_add]
  rfl

theorem quantityOf_coe (l : List UsageEvent) : quantityOf ↑l = sumQuantity l := by
  rw [quantityOf, Multiset.map_coe, Multiset.sum_coe]
  rfl

/-- Usage and adjustments together. -/
theorem quantityOf_split (p : UsageEvent → Bool) (c : Multiset UsageEvent) :
    quantityOf (c.filter fun e => p e) =
      quantityOf (c.filter fun e => (p e && e.isUsage)) +
        quantityOf (c.filter fun e => (p e && !e.isUsage)) := by
  rw [← quantityOf_add]
  congr 1
  have hsplit := Multiset.filter_add_not (fun e : UsageEvent => e.isUsage) (c.filter fun e => p e)
  rw [Multiset.filter_filter, Multiset.filter_filter] at hsplit
  rw [← hsplit]
  congr 1 <;>
  · refine Multiset.filter_congr fun e _ => ?_
    cases p e <;> cases e.isUsage <;> decide

/-- Few enough events with quantities that fit in an `i64`. -/
structure FewAndSmall (c : Multiset UsageEvent) : Prop where
  /-- Their quantities fit. -/
  fits : ∀ e ∈ c, InRange 63 e.quantity
  /-- They can be counted. -/
  few : c.card < 2 ^ 64

theorem FewAndSmall.left {c' : Multiset UsageEvent} (h : FewAndSmall (c + c')) : FewAndSmall c := by
  refine ⟨fun e he => h.fits e (Multiset.mem_add.2 (.inl he)), ?_⟩
  have := h.few
  rw [Multiset.card_add] at this
  omega

/-- Then their sum fits in an `i128`. -/
theorem FewAndSmall.abs (h : FewAndSmall c) :
    (c.map fun e => |(e.quantity : ℤ)|).sum < 2 ^ 127 := by
  have hle :
      (c.map fun e => |(e.quantity : ℤ)|).sum ≤ (c.map fun e =>
          |(e.quantity : ℤ)|).card • (2 ^ 63 : ℤ) := by
    refine Multiset.sum_le_card_nsmul _ _ fun x hx => ?_
    obtain ⟨e, he, rfl⟩ := Multiset.mem_map.1 hx
    obtain ⟨hlo, hhi⟩ := h.fits e he
    exact abs_le.2 ⟨by omega, by omega⟩
  rw [Multiset.card_map, nsmul_eq_mul] at hle
  have hfew := h.few
  omega

/-- So does that of some of them. -/
theorem FewAndSmall.inRange (h : FewAndSmall c) (p : UsageEvent → Bool) :
    InRange 127 (quantityOf (c.filter fun e => p e = true)) := by
  have hfilter : FewAndSmall (c.filter fun e => p e) :=
    ⟨fun e he => h.fits e (Multiset.mem_filter.1 he).1,
      (Multiset.card_le_card (Multiset.filter_le _ _)).trans_lt h.few⟩
  have hlt := hfilter.abs
  obtain ⟨l, hl⟩ := Quot.exists_rep (c.filter fun e => p e)
  rw [← show (↑l : Multiset UsageEvent) = c.filter fun e => p e = true from hl] at hlt ⊢
  rw [Multiset.map_coe, Multiset.sum_coe] at hlt
  rw [quantityOf_coe]
  obtain ⟨hlo, hhi⟩ := abs_lt.1 ((abs_sumQuantity_le l).trans_lt hlt)
  exact ⟨hlo.le, hhi⟩

/-! ### What a query of the period finds -/

section Query

variable {s : State} {c : Multiset UsageEvent} {account : String} {fromMs toMs : I64}

/-- No event of the period is in a batch on its way to the flusher. -/
def State.Settled (s : State) (account : String) (fromMs toMs : I64) : Prop :=
  ∀ msg ∈ s.mem.queue, ∀ e ∈ msg.events, inPeriod account fromMs toMs e = false

/-- Then what queries see of the period is what the disk holds of it. -/
theorem filter_visible (hok : DiskOk X cfg s.disk) (hm : MemOk s) (hset : s.Settled account fromMs toMs)
    {p : UsageEvent → Bool} (hp : ∀ e, p e → inPeriod account fromMs toMs e = true) :
    (↑(s.visible.filter p) : Multiset UsageEvent) = s.disk.content.filter fun e => p e = true := by
  have hwal := hm.unsealed hok.sorted
  have hnone : (s.mem.queue.flatMap (·.events)).filter p = [] := by
    rw [filter_eq_nil_iff]
    intro e he hpe
    obtain ⟨msg, hmsg, he⟩ := mem_flatMap.1 he
    exact Bool.false_ne_true ((hset msg hmsg e he).symm.trans (hp e hpe))
  have hfilter := hwal.filter p
  rw [filter_append, hnone, nil_append] at hfilter
  rw [Disk.content, hm.loadManifest, Multiset.filter_coe, State.visible, filter_append]
  have hsame : ∀ l : List UsageEvent, l.filter (fun e => decide (p e = true)) = l.filter p := fun l =>
    filter_congr fun e _ => Bool.decide_eq_true
  rw [hsame, filter_append]
  exact Multiset.coe_eq_coe.2 (hfilter.append_left _)

/-- What is seen adds up to no more than what the disk holds. -/
theorem absQuantity_visible (hok : DiskOk X cfg s.disk) (hm : MemOk s) :
    absQuantity s.visible ≤ (s.disk.content.map fun e => |(e.quantity : ℤ)|).sum := by
  have hwal := hm.unsealed hok.sorted
  rw [Disk.content, hm.loadManifest, Multiset.map_coe, Multiset.sum_coe]
  refine le_trans ?_ (absQuantity_perm (hwal.append_left (s.disk.rawEvents s.mem.manifest))).le
  exact absQuantity_sublist ((List.Sublist.refl _).append (sublist_append_right _ _))

/-- The sum of the visible events with a property, as the code adds them up. -/
theorem addQuantities_visible (hok : DiskOk X cfg s.disk) (hm : MemOk s)
    (habs : (s.disk.content.map fun e => |(e.quantity : ℤ)|).sum < 2 ^ 127)
    (hset : s.Settled account fromMs toMs)
      {p : UsageEvent → Bool}
    (hp : ∀ e, p e = true → inPeriod account fromMs toMs e = true) :
    (addQuantities 0 (s.visible.filter p) : ℤ) =
      quantityOf (s.disk.content.filter fun e => p e = true) := by
  have hle := (absQuantity_sublist (filter_sublist (p := p) (l := s.visible))).trans
    (absQuantity_visible hok hm)
  have hlt := hle.trans_lt habs
  rw [addQuantities_val _ _ (by simpa using hlt), ← filter_visible hok hm hset hp, quantityOf_coe]
  simp

/-- **The snapshot of a period is its total.** -/
theorem snapshotPeriodTotals_eq (hcal : X.Calendar) (hok : DiskOk X cfg s.disk) (hm : MemOk s)
    (hroll : RollupOk X s.disk) (habs : (s.disk.content.map fun e => |(e.quantity : ℤ)|).sum < 2 ^ 127)
    (hset : s.Settled account fromMs toMs) (hbounds : periodBounds X year month = some (fromMs, toMs)) :
    ((snapshotPeriodTotals X s account fromMs toMs).1 : ℤ) =
      quantityOf (s.disk.content.filter fun e => inPeriod account fromMs toMs e = true) := by
  obtain ⟨hfrom, hto⟩ := hcal.bounds hbounds
  have hplan : (totalsPlan account fromMs toMs).Hourly :=
    ⟨hfrom, hto, fun f hf => (by cases hf), fun hmem => by cases hmem⟩
  have hsegs := fun m hmem => (hok.listed hm m hmem).sound
  have hsums :=
    (hroll.sameSums hok hm rfl
      (fun e he hread => by simp [QueryPlan.ReadsFields, totalsPlan] at hread)
    habs hplan).sums []
  have hkey : ∀ l : List UsageEvent,
      (l.filter fun e => groupKey (totalsPlan account fromMs toMs) e = []) = l :=
    fun l => filter_eq_self.2 fun e _ => rfl
  rw [hkey, hkey, filter_rawEvents hsegs] at hsums
  have hmatch : matchesPlan (totalsPlan account fromMs toMs) = inPeriod account fromMs toMs := by
    funext e
    exact Bool.and_true _
  rw [hmatch] at hsums
  rw [← addQuantities_visible hok hm habs hset fun e he => he, ← hsums]
  show ((extractQuantitySum (aggregate _ _) : I128) : ℤ) = _
  rw [extractQuantitySum_aggregate rfl rfl, hmatch]
  rfl

/-- The adjustments of a period are those of its events that are not usage. -/
theorem matchesPlan_planAdjustments (account : String) (fromMs toMs : I64) :
    matchesPlan (planAdjustments account fromMs toMs) =
      fun e => inPeriod account fromMs toMs e && !e.isUsage := by
  funext e
  have hkind :
      (planAdjustments account fromMs toMs).filters.all (fun f => f.accepts e) = !e.isUsage := by
    have hvalue : filterValue "kind" e = some e.kind.name := rfl
    simp only [planAdjustments, all_cons, all_nil, Bool.and_true, QueryFilter.accepts, hvalue,
      UsageEvent.isUsage]
    cases e.kind <;> decide
  rw [matchesPlan, hkind]
  rfl

/-- **The adjustments of a period** are its corrections and retractions, whenever they were
accepted. -/
theorem adjustments_eq (hok : DiskOk X cfg s.disk) (hm : MemOk s) (hsmall : FewAndSmall s.disk.content)
    (hset : s.Settled account fromMs toMs) :
    ((executePlan X s (planAdjustments account fromMs toMs)).filterMap Row.quantityI64).sum =
      quantityOf (s.disk.content.filter fun e => (inPeriod account fromMs toMs e && !e.isUsage)) := by
  have hsegs := fun m hmem => (hok.listed hm m hmem).sound
  have hfilter :=
    filter_visible hok hm hset (p := fun e => inPeriod account fromMs toMs e && !e.isUsage)
    fun e he => ((Bool.and_eq_true _ _).mp he).1
  show ((((collectRawEvents X s _ fromMs toMs).filter _).map eventRow).filterMap
    Row.quantityI64).sum = _
  rw [show (collectRawEvents X s (planAdjustments account fromMs toMs) fromMs toMs).filter _ =
    _ from filter_rawEvents hsegs,
    matchesPlan_planAdjustments, ← hfilter, quantityOf_coe, sumQuantity, filterMap_map]
  congr 1
  rw [← filterMap_eq_map]
  refine filterMap_congr fun e he => ?_
  have hmem : e ∈ s.disk.content := by
    have hcoe := Multiset.mem_coe.2 he
    rw [hfilter] at hcoe
    exact (Multiset.mem_filter.1 hcoe).1
  obtain ⟨hlo, hhi⟩ := hsmall.fits e hmem
  have hrow : eventRow e = .event e := if_pos ⟨hlo, by omega⟩
  rw [Function.comp, hrow]
  exact if_pos ⟨hlo, hhi⟩

end Query

/-! ### What is frozen -/

section Frozen

variable {c : Multiset UsageEvent} {m m' : Manifest} {sys sys' : Sys} {e : UsageEvent}

/-- The event is `Usage` of the account in the month. -/
def usageOf (X : Extern) (account : String) (year month : ℕ) (e : UsageEvent) : Bool :=
  e.kind = .usage && X.periodForTs e.timestampMs = some (year, month) && e.accountId = account

/-- `Usage` between the bounds of a month is of the month. -/
theorem usageOf_of_inPeriod (hcal : X.Calendar)
    (hyear : year < 2 ^ 16) (hbounds : periodBounds X year month = some (fromMs, toMs))
    (h : (inPeriod account fromMs toMs e && e.isUsage)) : usageOf X account year month e := by
  simp only [inPeriod, inRange, UsageEvent.isUsage, Bool.and_eq_true, decide_eq_true_eq] at h
  obtain ⟨⟨⟨hfrom, hto⟩, haccount⟩, hkind⟩ := h
  have hmonth : X.periodForTs e.timestampMs = some (year, month) := by
    rw [Extern.periodForTs, hcal.month _ _ _ _ hbounds _ hfrom hto, Option.map_some]
    congr 2
    omega
  simp [usageOf, hkind, hmonth, haccount]

/-- An event that is not `Usage` in a closed period. -/
theorem usageOf_eq_false {closed : List ClosedPeriod} (h : inClosedPeriod X closed e = false)
    {p : ClosedPeriod} (hp : p ∈ closed) : usageOf X p.accountId p.year p.month e = false := by
  rw [Bool.eq_false_iff]
  intro husage
  simp only [usageOf, Bool.and_eq_true, decide_eq_true_eq] at husage
  obtain ⟨⟨hkind, hmonth⟩, haccount⟩ := husage
  rw [inClosedPeriod, hmonth, decide_eq_true hkind, Bool.true_and] at h
  exact any_eq_false.1 h p hp (decide_eq_true ⟨haccount.symm, rfl, rfl⟩)

/-- Events that are not `Usage` of a month add none to it. -/
theorem filter_isUsage_add (hcal : X.Calendar)
    (hyear : year < 2 ^ 16) (hbounds : periodBounds X year month = some (fromMs, toMs))
    {new : List UsageEvent} (hnew : ∀ e ∈ new, usageOf X account year month e = false) :
    (c + ↑new).filter (fun e => (inPeriod account fromMs toMs e && e.isUsage)) =
      c.filter fun e => (inPeriod account fromMs toMs e && e.isUsage) := by
  have hnone : (↑new : Multiset UsageEvent).filter
      (fun e => (inPeriod account fromMs toMs e && e.isUsage)) = 0 := by
    rw [Multiset.filter_eq_nil]
    intro e he hin
    exact Bool.false_ne_true ((hnew e (Multiset.mem_coe.1 he)).symm.trans (usageOf_of_inPeriod hcal
      hyear hbounds hin))
  rw [Multiset.filter_add, hnone, Multiset.add_zero]

/-- The frozen total of a closed period is that of its `Usage` events. -/
def ClosedOk (X : Extern) (c : Multiset UsageEvent) (m : Manifest) : Prop :=
  ∀ p ∈ m.closedPeriods, p.year < 2 ^ 16 → ∀ fromMs toMs, periodBounds X p.year p.month =
    some (fromMs, toMs) → ∃ q, p.frozenQuantity = some q ∧
      (q : ℤ) = quantityOf (c.filter fun e => (inPeriod p.accountId fromMs toMs e && e.isUsage))

/-- No event of `new` is `Usage` in a closed period: the totals stay. -/
theorem ClosedOk.mono (hcal : X.Calendar) (h : ClosedOk X c m) (new : List UsageEvent)
    (hsub : ∀ p ∈ m'.closedPeriods, p ∈ m.closedPeriods)
    (hnew : ∀ e ∈ new, inClosedPeriod X m.closedPeriods e = false) : ClosedOk X (c + ↑new) m' := by
  intro p hp hyear fromMs toMs hbounds
  obtain ⟨q, hq, htotal⟩ := h p (hsub p hp) hyear fromMs toMs hbounds
  refine ⟨q, hq, ?_⟩
  rw [filter_isUsage_add hcal hyear hbounds fun e he => usageOf_eq_false (hnew e he) (hsub p hp)]
  exact htotal

/-- What a request accepts is not `Usage` in a closed period. -/
theorem accepts_open {op : Op} (he : e ∈ op.accepts X s) :
    inClosedPeriod X s.mem.manifest.closedPeriods e = false := by
  cases op with
  | ingest clk events =>
    obtain ⟨k, hk, rfl⟩ := mem_map.1 he
    obtain ⟨e', -, hadm, rfl⟩ := mem_newEvents hk
    rw [admits, Bool.and_eq_true, Bool.not_eq_true'] at hadm
    exact hadm.2
  | _ => cases he

/-- At a close, no event of the period is on its way to the flusher, and the corrections and
retractions of the period add up to nothing. -/
def Sys.ClosesClean (X : Extern) (c : Multiset UsageEvent) : Sys → Label → Prop
  | .up s, .run (.closePeriod account year month _) => s.mem.manifest.findClosed account year
      month = none →
      ∀ fromMs toMs, periodBounds X year month = some (fromMs, toMs) → s.Settled account fromMs toMs ∧
        quantityOf (c.filter fun e => (inPeriod account fromMs toMs e && !e.isUsage)) = 0
  | _, _ => True

/-- Operations that neither close nor open a period. -/
theorem closedPeriods_outcome (s : State) {op : Op} (hclose : ∀ a y m t, op ≠ .closePeriod a y m t)
    (hopen : ∀ a y m, op ≠ .reopenPeriod a y m) :
    (op.outcome X cfg s).mem.manifest.closedPeriods = s.mem.manifest.closedPeriods := by
  cases op with
  | ingest clk events => exact congrArg _ (onLog_ingest s clk events).manifest
  | drain => exact congrArg _ (onLog_drainIf s _).manifest
  | flush uuid clk => exact (frames_flush (f := Manifest.closedPeriods)
      (fun _ _ _ => rfl) s uuid clk).mem
  | rollupTick now uuid =>
    exact tick_rule (R := fun o => o.mem.manifest.closedPeriods = _) rfl
      (congrArg _ (onLog_drainIf s _).manifest) fun _ _ => rfl
  | compactionTick now uuid =>
    exact (frames_compactionTick (f := Manifest.closedPeriods)
      (fun _ _ => rfl) (fun _ _ _ _ => rfl) s now uuid).mem
  | closePeriod account year month now => exact absurd rfl (hclose account year month now)
  | reopenPeriod account year month => exact absurd rfl (hopen account year month)

/-- Opening a period closes none. -/
theorem mem_reopenPeriod {p : ClosedPeriod}
    (hp : p ∈ (reopenPeriod account year month true s).1.mem.manifest.closedPeriods) :
    p ∈ s.mem.manifest.closedPeriods := by
  have hmem : p ∈ (s.mem.manifest.reopen account year month).closedPeriods := by
    rw [reopenPeriod] at hp
    split at hp
    · exact hp
    · exact hp
  exact mem_of_mem_filter hmem

/-- **A close freezes the total of the `Usage` events.** -/
theorem ClosedOk.close (hcal : X.Calendar) (hok : DiskOk X cfg s.disk) (hm : MemOk s)
    (hroll : RollupOk X s.disk) (hsmall : FewAndSmall c) (hcontent : s.disk.content = c)
    (h : ClosedOk X c s.mem.manifest) {now : ℤ}
    (hclean : (Sys.up s).ClosesClean X c (.run (.closePeriod account year month now))) :
    ClosedOk X c ((Op.closePeriod account year month now).outcome X cfg s).mem.manifest := by
  show ClosedOk X c (closePeriod X account year month now true s).1.mem.manifest
  rw [closePeriod]
  split
  · exact h
  · rename_i hopen
    split
    · exact h
    · rename_i fromMs toMs hbounds
      obtain ⟨hset, hzero⟩ := hclean hopen fromMs toMs hbounds
      subst hcontent
      intro p hp hyear fromMs' toMs' hbounds'
      rcases mem_append.1 hp with hp | hp
      · exact h p hp hyear fromMs' toMs' hbounds'
      · obtain rfl := mem_singleton.1 hp
        obtain ⟨rfl, rfl⟩ := Prod.mk.inj (Option.some.inj (hbounds.symm.trans hbounds'))
        refine ⟨_, rfl, ?_⟩
        rw [snapshotPeriodTotals_eq hcal hok hm hroll hsmall.abs hset hbounds, quantityOf_split,
          hzero, add_zero]
        rfl

/-- Every completed step keeps the frozen totals right, if periods are closed clean. -/
theorem ClosedOk.step (hcal : X.Calendar) {a b : Sys × Multiset UsageEvent} {l : Label}
    (hok : SysOk X cfg DistinctIds a.2 a.1) (hroll : RollupOk X a.1.disk) (hstep : BookStep X cfg a l b)
    (hclean : a.1.ClosesClean X a.2 l) (hc : DistinctIds a.2) (hsmall : FewAndSmall a.2)
    (h : ClosedOk X a.2 a.1.manifest) : ClosedOk X b.2 b.1.manifest := by
  obtain ⟨sys, c⟩ := a
  obtain ⟨sys', c'⟩ := b
  obtain ⟨hstep, hl, hbook, -⟩ := hstep
  dsimp only at *
  subst hbook
  cases hstep with
  | @run s op hfresh =>
    have hd : Holds X cfg DistinctIds c s.disk := hok.1
    have hm : MemOk s := hok.2
    have hkeep :
        (∀ p ∈ (op.outcome X cfg s).mem.manifest.closedPeriods, p ∈ s.mem.manifest.closedPeriods) →
        ClosedOk X (c + ↑(op.accepts X s)) (op.outcome X cfg s).mem.manifest :=
      fun hsub => h.mono hcal _ hsub fun e he => accepts_open he
    by_cases hclose : ∀ a y m t, op ≠ .closePeriod a y m t
    · by_cases hopen : ∀ a y m, op ≠ .reopenPeriod a y m
      · exact hkeep fun p hp => closedPeriods_outcome s hclose hopen ▸ hp
      · push Not at hopen
        obtain ⟨account, year, month, rfl⟩ := hopen
        exact hkeep fun p hp => mem_reopenPeriod hp
    · push Not at hclose
      obtain ⟨account, year, month, now, rfl⟩ := hclose
      have hzero : c + ↑((Op.closePeriod account year month now).accepts X s) = c := Multiset.add_zero c
      show ClosedOk X (c + ↑((Op.closePeriod account year month now).accepts X s)) _
      rw [hzero]
      exact ClosedOk.close hcal hd.1 hm hroll hsmall (hd.2 hc) h hclean
  | @cut s op k hfresh =>
    obtain rfl : k = 0 := hl
    have hm : MemOk s := hok.2
    have hsame : s.disk.loadManifest = s.mem.manifest := hm.loadManifest
    refine h.mono hcal [] (fun p hp => ?_) fun e he => by cases he
    have hp' : p ∈ s.disk.loadManifest.closedPeriods := hp
    rw [hsame] at hp'
    exact hp'
  | @restart d now clk =>
    have hframes := frames_restart X cfg (f := Manifest.closedPeriods) (fun _ _ => rfl) now clk d
    refine h.mono hcal [] (fun p hp => ?_) fun e he => by cases he
    exact hframes.1 ▸ hp
  | cutRestart now clk k => exact hl.elim

end Frozen

/-- **The net total of a closed period is its true total.** After every sequence of completed
operations in which no event was accepted below the watermark and periods are closed clean, with
different ids and quantities that fit in an `i64`: for a period that is closed, none of whose
events is on its way to the flusher, `net_total` is the sum of the quantities of all events of the
account in the period that have been accepted. -/
theorem netTotal_eq (hcal : X.Calendar) {ls : List Label}
    (hrun : Run (fun a l b => BookStep X cfg a l b ∧ a.1.ClosesClean X a.2 l) (.down .empty, 0)
      ls (.up s, c))
    (hc : DistinctIds c) (hsmall : FewAndSmall c) (hyear : year < 2 ^ 16)
    (hbounds : periodBounds X year month = some (fromMs, toMs))
    (hset : s.Settled account fromMs toMs) {entry : ClosedPeriod}
    (hclosed : s.mem.manifest.findClosed account year month = some entry) :
    ∃ adjustments adjustmentsQuantity net,
      getPeriod X account year month s =
        .closed entry fromMs toMs adjustments adjustmentsQuantity (some net) none ∧
      (net : ℤ) = quantityOf (c.filter fun e => inPeriod account fromMs toMs e) := by
  have hinv : SysOk X cfg DistinctIds c (.up s) ∧
      (DistinctIds c ∧ FewAndSmall c → RollupOk X s.disk ∧ ClosedOk X c s.mem.manifest) := by
    refine hrun.invariant (I := fun b => SysOk X cfg DistinctIds b.2 b.1 ∧
      (DistinctIds b.2 ∧ FewAndSmall b.2 → RollupOk X b.1.disk ∧ ClosedOk X b.2 b.1.manifest)) ?_
      ⟨sysOk_empty, fun _ => ⟨rollupOk_empty, fun p hp => by cases hp⟩⟩
    rintro a l b ⟨hok, hinv⟩ ⟨hstep, hclean⟩
    refine ⟨hstep.book ▸ hok.step DistinctIds.left (fun _ => rfl) hstep.step, fun hb => ?_⟩
    rw [hstep.book] at hb
    obtain ⟨hroll, hfrozen⟩ := hinv ⟨hb.1.left, hb.2.left⟩
    exact ⟨hroll.step hok hstep.step hstep.completed hb.1 hstep.timely,
      hfrozen.step hcal hok hroll hstep hclean hb.1.left hb.2.left⟩
  obtain ⟨⟨hd, hm⟩, hinv⟩ := hinv
  obtain ⟨-, hfrozen⟩ := hinv ⟨hc, hsmall⟩
  obtain rfl : s.disk.content = c := hd.2 hc
  -- the entry is for this period
  obtain ⟨rfl, rfl, rfl⟩ : entry.IsFor account year month := by simpa using List.find?_some hclosed
  obtain ⟨q, hq, htotal⟩ := hfrozen entry (mem_of_find?_eq_some hclosed) hyear fromMs toMs hbounds
  have hadjust := adjustments_eq hd.1 hm hsmall hset
  have hsplit := quantityOf_split (inPeriod entry.accountId fromMs toMs) s.disk.content
  rw [← htotal, ← hadjust] at hsplit
  set adjustments := executePlan X s (planAdjustments entry.accountId fromMs toMs) with hadj
  have hwrap : ((SInt.wrap 127 (adjustments.filterMap Row.quantityI64).sum : I128) : ℤ) =
      (adjustments.filterMap Row.quantityI64).sum := by
    refine SInt.wrap_of_inRange ?_
    rw [hadjust]
    exact hsmall.inRange fun e => inPeriod entry.accountId fromMs toMs e && !e.isUsage
  have hget : getPeriod X entry.accountId entry.year entry.month s =
      .closed entry fromMs toMs adjustments (SInt.wrap 127 (adjustments.filterMap Row.quantityI64).sum)
        (some (SInt.satAdd q (SInt.wrap 127 (adjustments.filterMap Row.quantityI64).sum))) none := by
    rw [getPeriod, hbounds]
    rw [hclosed]
    dsimp only
    rw [hq, ← hadj]
    rfl
  have hsat : (SInt.satAdd q (SInt.wrap 127 (adjustments.filterMap Row.quantityI64).sum) : ℤ) =
      q + (SInt.wrap 127 (adjustments.filterMap Row.quantityI64).sum : I128) := by
    refine SInt.satAdd_val ?_
    rw [hwrap, ← hsplit]
    exact hsmall.inRange _
  exact ⟨_, _, _, hget, by rw [hsat, hwrap, hsplit]⟩

/-! ### Two runs -/

/-- The sample functions with a calendar from 1970 on: all months are of 31 days, as the first
is. -/
def Extern.calendar : Extern :=
  { Extern.sample with
    yearMonth := fun t =>
      if 0 ≤ (t : ℤ) then some (1970 + (t : ℤ) / 2678400000 / 12, ((t : ℤ) / 2678400000 % 12).toNat + 1)
      else none
    monthStart := fun year month =>
      if 1970 ≤ year ∧ year ≤ 65536 ∧ 1 ≤ month ∧ month ≤ 12 then
        some (SInt.wrap 63 (((year - 1970) * 12 + (month - 1)) * 2678400000))
      else none }

theorem Extern.monthStart_calendar {year : ℤ} {t : I64}
    (h : Extern.calendar.monthStart year month = some t) :
    1970 ≤ year ∧ 1 ≤ month ∧ month ≤ 12 ∧
      (t : ℤ) = ((year - 1970) * 12 + (month - 1)) * 2678400000 := by
  simp only [Extern.calendar] at h
  split at h
  · rename_i hvalid
    obtain ⟨hlo, hhi, hm, hm'⟩ := hvalid
    cases h
    refine ⟨hlo, hm, hm', SInt.wrap_of_inRange ⟨?_, ?_⟩⟩
    · omega
    · omega
  · cases h

theorem Extern.calendar_ok : Extern.calendar.Calendar := by
  constructor
  · intro year month t h
    obtain ⟨-, -, -, ht⟩ := Extern.monthStart_calendar h
    rw [ht, HOUR_MS]
    exact ⟨((year - 1970) * 12 + (month - 1)) * 744, by ring⟩
  · intro year month fromMs toMs h t hfrom hto
    have hyear : (t : ℤ) / 2678400000 = (year - 1970 : ℤ) * 12 + (month - 1) ∧ 0 ≤ (t : ℤ) ∧
        1 ≤ month ∧ month ≤ 12 := by
      obtain ⟨a, ha, h⟩ := Option.bind_eq_some_iff.1 h
      obtain ⟨hnonneg, hm, hm', hstart⟩ := Extern.monthStart_calendar ha
      split at h
      · rename_i hdec
        obtain ⟨b, hb, h⟩ := Option.bind_eq_some_iff.1 h
        cases h
        obtain ⟨-, -, -, hend⟩ := Extern.monthStart_calendar hb
        subst hdec
        exact ⟨by omega, by omega, by omega, by omega⟩
      · obtain ⟨b, hb, h⟩ := Option.bind_eq_some_iff.1 h
        cases h
        obtain ⟨-, -, -, hend⟩ := Extern.monthStart_calendar hb
        exact ⟨by omega, by omega, by omega, by omega⟩
    obtain ⟨hdiv, hnonneg, hm, hm'⟩ := hyear
    show (if 0 ≤ (t : ℤ) then some (1970 + (t : ℤ) / 2678400000 / 12, ((t : ℤ) / 2678400000 %
      12).toNat + 1) else none) = _
    rw [if_pos hnonneg, hdiv]
    congr 2
    · omega
    · omega

/-- An event that takes back some of another. -/
def sampleCorrection (id account : String) (timestampMs quantity : ℤ) (original : String) :
    UsageEvent :=
  { sampleEvent id account timestampMs quantity with
    kind := .correction
    correctionRef := some ⟨original, "recount"⟩ }

/-- Usage of 10, a close of the month, and a correction of -3. -/
def correctedAfterClose : List Label :=
  [.restart 8000000 fun _ => 8000000, .run (.ingest sampleClock [sampleEvent "a" "acme" 7200000 10]),
    .run (.closePeriod "acme" 1970 1 9000000),
    .run (.ingest sampleClock [sampleCorrection "b" "acme" 7300000 (-3) "a"])]

/-- Usage of 10, a correction of -3, and a close of the month. -/
def correctedBeforeClose : List Label :=
  [.restart 8000000 fun _ => 8000000,
    .run (.ingest sampleClock [sampleEvent "a" "acme" 7200000 10,
      sampleCorrection "b" "acme" 7300000 (-3) "a"]),
    .run (.closePeriod "acme" 1970 1 9000000)]

/-- The bounds of the month. -/
theorem periodBounds_calendar : periodBounds Extern.calendar 1970 1 =
    some (0, SInt.wrap 63 2678400000) := by decide +kernel

/-- What is needed of a concrete book. -/
theorem fewAndSmall_of_map
    (h : c.map (fun e => (e.eventId, (e.quantity : ℤ))) = {("a", 10), ("b", -3)}) : DistinctIds c ∧
      FewAndSmall c := by
  have hmap : ∀ {β : Type} (f : String × ℤ → β), c.map (fun e => f (e.eventId, (e.quantity : ℤ))) =
    {f ("a", 10), f ("b", -3)} := by
    intro β f
    have hf := congrArg (Multiset.map f) h
    rw [Multiset.map_map] at hf
    exact hf
  refine ⟨?_, fun e he => ?_, ?_⟩
  · rw [DistinctIds, hmap fun x => x.1]
    decide
  · have hmem := Multiset.mem_map_of_mem (fun e : UsageEvent => (e.quantity : ℤ)) he
    rw [hmap fun x => x.2] at hmem
    rcases Multiset.mem_cons.1 hmem with hq | hq
    · rw [hq]
      decide
    · rw [Multiset.mem_singleton.1 hq]
      decide
  · rw [← Multiset.card_map (fun e : UsageEvent => (e.eventId, (e.quantity : ℤ))) c, h]
    decide

theorem settled_of_isEmpty (h : s.mem.queue.isEmpty) (account : String) (fromMs toMs : I64) :
    s.Settled account fromMs toMs := by
  intro msg hmsg
  rw [isEmpty_iff.1 h] at hmsg
  cases hmsg

/-- A close is clean when nothing is on its way and there is only usage. -/
theorem closesClean_of_isUsage {now : ℤ}
    (hqueue : s.mem.queue.isEmpty) (husage : ∀ e ∈ c, e.isUsage = true) :
    (Sys.up s).ClosesClean X c (.run (.closePeriod account year month now)) := by
  intro _ fromMs toMs _
  refine ⟨settled_of_isEmpty hqueue _ _ _, ?_⟩
  have hnone : c.filter (fun e => (inPeriod account fromMs toMs e && !e.isUsage) = true) = 0 := by
    rw [Multiset.filter_eq_nil]
    intro e he hadj
    rw [husage e he, Bool.not_true, Bool.and_false] at hadj
    exact Bool.false_ne_true hadj
  rw [hnone]
  rfl

/-- What is computed of a run: the book, that nothing is on its way, that the month is closed,
and its net total. -/
def Ends (s : State) (c : Multiset UsageEvent) (net : ℤ) : Prop :=
  c.map (fun e => (e.eventId, (e.quantity : ℤ))) = {("a", 10), ("b", -3)} ∧ s.mem.queue.isEmpty = true ∧
    (s.mem.manifest.findClosed "acme" 1970 1).isSome = true ∧
    (getPeriod .calendar "acme" 1970 1 s).netTotal.map (·.val) = some net ∧
    quantityOf (c.filter fun e => inPeriod "acme" 0 (SInt.wrap 63 2678400000) e = true) = 7

instance (s : State) (c : Multiset UsageEvent) (net : ℤ) : Decidable (Ends s c net) :=
  inferInstanceAs (Decidable (_ ∧ _))

theorem exists_run_correctedAfterClose :
    ∃ s c,
      Run (fun a l b => BookStep Extern.calendar sampleConfig a l b ∧
        a.1.ClosesClean Extern.calendar a.2 l)
        (.down .empty, 0) correctedAfterClose (.up s, c) ∧ Ends s c 7 := by
  have hstart :
      Run (fun a l b => BookStep Extern.calendar sampleConfig a l b ∧
        a.1.ClosesClean Extern.calendar a.2 l)
      (.down .empty, 0) _ _ :=
    Run.single ⟨bookStep_of_step (Step.restart 8000000 fun _ => 8000000) trivial
      (fun e he => by cases he), trivial⟩
  have husage := hstart.snoc ⟨bookStep_of_step
    (.run (show Op.Fresh _ (.ingest sampleClock [sampleEvent "a" "acme" 7200000 10]) from trivial))
      trivial
    (by decide +kernel), trivial⟩
  have hclose :=
    husage.snoc ⟨bookStep_of_step (.run (show Op.Fresh _ (.closePeriod "acme" 1970 1 9000000)
      from trivial)) trivial
    (fun e he => by cases he), closesClean_of_isUsage (by decide +kernel) (by decide +kernel)⟩
  have hlast := hclose.snoc ⟨bookStep_of_step
    (.run (show Op.Fresh _ (.ingest sampleClock [sampleCorrection "b" "acme" 7300000 (-3) "a"])
      from trivial)) trivial
    (by decide +kernel), trivial⟩
  exact ⟨_, _, hlast, by decide +kernel⟩

/-- With the correction after the close, the net total is 10 - 3. -/
theorem netTotal_of_late_correction :
    ∃ s c,
      Run (fun a l b => BookStep Extern.calendar sampleConfig a l b ∧
        a.1.ClosesClean Extern.calendar a.2 l)
        (.down .empty, 0) correctedAfterClose (.up s, c) ∧ DistinctIds c ∧ FewAndSmall c ∧
      s.Settled "acme" 0 (SInt.wrap 63 2678400000) ∧
      ∃ net : I128, (getPeriod Extern.calendar "acme" 1970 1 s).netTotal = some net ∧ (net : ℤ) = 7 ∧
        (net : ℤ) = quantityOf (c.filter fun e => inPeriod "acme" 0 (SInt.wrap 63 2678400000) e) := by
  obtain ⟨s, c, hrun, hbook, hqueue, hclosed, -, htrue⟩ := exists_run_correctedAfterClose
  obtain ⟨hc, hsmall⟩ := fewAndSmall_of_map hbook
  obtain ⟨entry, hentry⟩ := Option.isSome_iff_exists.1 hclosed
  have hset := settled_of_isEmpty hqueue "acme" 0 (SInt.wrap 63 2678400000)
  obtain ⟨adjustments, adjustmentsQuantity, net, hget, htotal⟩ :=
    netTotal_eq Extern.calendar_ok hrun hc hsmall (by decide) periodBounds_calendar hset hentry
  exact ⟨s, c, hrun, hc, hsmall, hset, net, by rw [hget]; rfl, htotal.trans htrue, htotal⟩

/-- **A correction that was there at the close is counted twice.** Usage of 10 and a correction
of -3 are accepted and the month is closed: its net total is given as 4, and 7 were used. -/
theorem early_correction_counted_twice :
    ∃ s c, Run (BookStep Extern.calendar sampleConfig)
      (.down .empty, 0) correctedBeforeClose (.up s, c) ∧
      DistinctIds c ∧ FewAndSmall c ∧ s.Settled "acme" 0 (SInt.wrap 63 2678400000) ∧
      (s.mem.manifest.findClosed "acme" 1970 1).isSome = true ∧
      ∃ net : I128, (getPeriod Extern.calendar "acme" 1970 1 s).netTotal = some net ∧ (net : ℤ) = 4 ∧
        quantityOf (c.filter fun e => inPeriod "acme" 0 (SInt.wrap 63 2678400000) e = true) = 7 := by
  have hls : Lettered (['0', '1', '2'].zip correctedBeforeClose) :=
    ⟨by simp [correctedBeforeClose, Label.DrawsTagged, Op.DrawsTagged], by decide⟩
  obtain ⟨s, c, hrun, hbook, hqueue, hclosed, hnet, htrue⟩ :=
    exists_book_of_tags .calendar sampleConfig hls
    (by simp [correctedBeforeClose, Label.Completed]) (P := fun s c => Ends s c 4) (by decide +kernel)
  obtain ⟨hc, hsmall⟩ := fewAndSmall_of_map hbook
  obtain ⟨net, hget, hval⟩ := Option.map_eq_some_iff.1 hnet
  exact ⟨s, c, hrun, hc, hsmall, settled_of_isEmpty hqueue _ _ _, hclosed, net, hget, hval, htrue⟩

end UsageDb
