import UsageDb.Lib.Keyed
import UsageDb.Model.Extern
import Mathlib.Algebra.BigOperators.Group.List.Basic

/-!
# Hourly rollups

`src/rollup/builder.rs`: the builder keeps one record for
each key an event can have in an hour and adds the event to it.

The builder is a grouping (`Lib.Keyed`), so a record is the fold of the events of its
key: `mem_buildRecords` says which records there are, and that a record's sum is the exact
one as long as the absolute quantities fit (`addQuantities_val`).
-/

namespace UsageDb

open Lib List

namespace RollupBuilder

variable (X : Extern) {l l' : List UsageEvent}

/-- The key of an event. -/
def keyOf (e : UsageEvent) : HourlyRollupKey :=
  { accountId := e.accountId
    subscriptionId := e.subscriptionId
    productId := e.productId
    meterId := e.meterId
    modelId := e.modelId
    source := e.source
    unit := e.unit
    hourStartMs := e.hourMs
    dimensionsCanonical := X.dimsToJson e.dimensions }

/-- The record a new key starts with. -/
def emptyRecord (e : UsageEvent) : HourlyRollupRecord :=
  { key := keyOf X e
    quantitySum := 0
    eventCount := 0
    firstEventMs := e.timestampMs
    lastEventMs := e.timestampMs }

/-- Add an event to its record. -/
def absorb (r : HourlyRollupRecord) (e : UsageEvent) : HourlyRollupRecord :=
  { r with
    quantitySum := SInt.satAdd r.quantitySum e.quantity
    eventCount := r.eventCount + 1
    firstEventMs := if e.timestampMs < r.firstEventMs then e.timestampMs else r.firstEventMs
    lastEventMs := if r.lastEventMs < e.timestampMs then e.timestampMs else r.lastEventMs }

/-- `process_event`. -/
def processEvent (b : AList fun _ : HourlyRollupKey => HourlyRollupRecord) (e : UsageEvent) :
    AList fun _ : HourlyRollupKey => HourlyRollupRecord :=
  b.insert (keyOf X e) (absorb ((b.lookup (keyOf X e)).getD (emptyRecord X e)) e)

/-- `finalize`. -/
def finalize (b : AList fun _ : HourlyRollupKey => HourlyRollupRecord) : List HourlyRollupRecord :=
  b.entries.map (·.2)

/-- The records of a list of events: `process_event` on each, then `finalize`. -/
def buildRecords (events : List UsageEvent) : List HourlyRollupRecord :=
  finalize (events.foldl (processEvent X) ∅)

/-! ### What a record says -/

/-- The builder groups by key. -/
theorem foldl_processEvent (events : List UsageEvent) :
    events.foldl (processEvent X) ∅ = groupFold (keyOf X) (emptyRecord X) absorb events := rfl

/-- The absolute quantities of a list of events, added up. -/
def absQuantity (events : List UsageEvent) : ℤ := (events.map fun e => |e.quantity|).sum

/-- The quantities of a list of events, added up. -/
def sumQuantity (events : List UsageEvent) : ℤ := (events.map fun e => e.quantity).sum

@[simp] theorem absQuantity_nil : absQuantity [] = 0 := rfl

@[simp] theorem absQuantity_cons (e : UsageEvent) (l : List UsageEvent) :
    absQuantity (e :: l) = |(e.quantity : ℤ)| + absQuantity l := by simp [absQuantity]

@[simp] theorem sumQuantity_cons (e : UsageEvent) (l : List UsageEvent) :
    sumQuantity (e :: l) = e.quantity + sumQuantity l := by simp [sumQuantity]

@[simp] theorem absQuantity_append (l l' : List UsageEvent) :
    absQuantity (l ++ l') = absQuantity l + absQuantity l' := by simp [absQuantity]

theorem sumQuantity_append (l l' : List UsageEvent) : sumQuantity (l ++ l') = sumQuantity l +
    sumQuantity l' := by
  simp [sumQuantity]

theorem absQuantity_nonneg (l : List UsageEvent) : 0 ≤ absQuantity l := by
  induction l with
  | nil => simp
  | cons e l ih =>
    have := abs_nonneg (e.quantity : ℤ)
    rw [absQuantity_cons]
    omega

theorem absQuantity_perm (h : l.Perm l') : absQuantity l = absQuantity l' :=
  (h.map _).sum_eq

theorem sumQuantity_perm (h : l.Perm l') : sumQuantity l = sumQuantity l' :=
  (h.map _).sum_eq

theorem absQuantity_sublist (h : l.Sublist l') :
    absQuantity l ≤ absQuantity l' := by
  induction h with
  | slnil => exact le_rfl
  | cons e _ ih =>
    have := abs_nonneg (e.quantity : ℤ)
    rw [absQuantity_cons]
    omega
  | cons_cons e _ ih => rw [absQuantity_cons, absQuantity_cons]; omega

theorem abs_sumQuantity_le (l : List UsageEvent) : |sumQuantity l| ≤ absQuantity l := by
  induction l with
  | nil => simp [sumQuantity]
  | cons e l ih =>
    rw [sumQuantity_cons, absQuantity_cons]
    exact (abs_add_le _ _).trans (by omega)

/-- The fold of a group keeps its key. -/
theorem key_foldl_absorb (r : HourlyRollupRecord) (l : List UsageEvent) :
    (l.foldl absorb r).key = r.key := by
  induction l generalizing r with
  | nil => rfl
  | cons e l ih => rw [foldl_cons, ih]; rfl

/-- The quantities of a list of events added to `q`, as the code adds them. -/
def addQuantities (q : I128) (events : List UsageEvent) : I128 :=
  events.foldl (fun q e => SInt.satAdd q e.quantity) q

/-- **Saturating sums are exact** as long as the absolute quantities fit in `i128`: no
addition saturates on the way. -/
theorem addQuantities_val (l : List UsageEvent) (q : I128) (h : |(q : ℤ)| + absQuantity l < 2 ^ 127) :
    (addQuantities q l : ℤ) = q + sumQuantity l := by
  unfold addQuantities
  induction l generalizing q with
  | nil => simp [sumQuantity]
  | cons e l ih =>
    rw [absQuantity_cons] at h
    have habs := abs_add_le (q : ℤ) e.quantity
    have hl := absQuantity_nonneg l
    have hfit : InRange 127 ((q : ℤ) + e.quantity) := by
      obtain ⟨h1, h2⟩ := abs_le.1 (show |(q : ℤ) + e.quantity| ≤ 2 ^ 127 - 1 by omega)
      exact ⟨by omega, by omega⟩
    have hstep : (SInt.satAdd q e.quantity : ℤ) = q + e.quantity := SInt.satAdd_val hfit
    rw [foldl_cons, ih _ (by rw [hstep]; omega), hstep, sumQuantity_cons]
    omega

theorem eventCount_foldl_absorb (l : List UsageEvent) (r : HourlyRollupRecord) :
    (l.foldl absorb r).eventCount = r.eventCount + l.length := by
  induction l generalizing r with
  | nil => rfl
  | cons e l ih =>
    rw [foldl_cons, ih, length_cons]
    show r.eventCount + 1 + l.length = _
    omega

/-- What is the smaller one at every step is one of the times, and the least. -/
theorem isLeast_foldl_absorb {α : Type} [LinearOrder α] {f : HourlyRollupRecord → α}
    {time : UsageEvent → α}
    (hmin : ∀ r e, f (absorb r e) = min (time e) (f r)) (l : List UsageEvent) (r : HourlyRollupRecord) :
    IsLeast {t | t = f r ∨ ∃ e ∈ l, time e = t} (f (l.foldl absorb r)) := by
  induction l generalizing r with
  | nil => exact ⟨.inl rfl, fun t ht => ht.elim (fun h => h.ge) fun ⟨e, he, _⟩ => absurd he not_mem_nil⟩
  | cons e l ih =>
    obtain ⟨hmem, hle⟩ := ih (absorb r e)
    rw [foldl_cons]
    refine ⟨?_, ?_⟩
    · rcases hmem with hfirst | ⟨e', he', ht⟩
      · rw [hfirst, hmin]
        rcases min_choice (time e) (f r) with h | h
        · exact .inr ⟨e, mem_cons_self, h.symm⟩
        · exact .inl h
      · exact .inr ⟨e', mem_cons_of_mem _ he', ht⟩
    · have hfirst := hle (.inl rfl)
      rw [hmin] at hfirst
      rintro t (rfl | ⟨e', he', rfl⟩)
      · exact hfirst.trans (min_le_right _ _)
      · rcases mem_cons.1 he' with rfl | he'
        · exact hfirst.trans (min_le_left _ _)
        · exact hle (.inr ⟨e', he', rfl⟩)

theorem firstEventMs_foldl_absorb (l : List UsageEvent) (r : HourlyRollupRecord) :
    IsLeast {t | t = r.firstEventMs ∨ ∃ e ∈ l, e.timestampMs = t} (l.foldl absorb r).firstEventMs :=
  isLeast_foldl_absorb (f := fun r => r.firstEventMs) (fun _ _ => (min_def_lt _ _).symm) l r

/-- The last time is the greatest: the least in the dual order. -/
theorem lastEventMs_foldl_absorb (l : List UsageEvent) (r : HourlyRollupRecord) :
    IsGreatest {t | t = r.lastEventMs ∨ ∃ e ∈ l, e.timestampMs = t} (l.foldl absorb r).lastEventMs :=
  isLeast_foldl_absorb (α := I64ᵒᵈ) (f := fun r => r.lastEventMs) (fun r e =>
    show (absorb r e).lastEventMs =
      max e.timestampMs r.lastEventMs by rw [max_comm, max_def_lt]; rfl) l r

theorem quantitySum_foldl_absorb (l : List UsageEvent) (r : HourlyRollupRecord) :
    (l.foldl absorb r).quantitySum = addQuantities r.quantitySum l := by
  unfold addQuantities
  induction l generalizing r with
  | nil => rfl
  | cons e l ih =>
    rw [foldl_cons, ih]
    rfl

/-- The record was made of these events, which have its key. -/
def RecordOf (r : HourlyRollupRecord) (group : List UsageEvent) : Prop :=
  foldGroup (emptyRecord X) absorb group = some r ∧ ∀ e ∈ group, keyOf X e = r.key

/-- An entry of the builder is the record of the events of its key. -/
theorem recordOf_entry {s : Sigma fun _ : HourlyRollupKey => HourlyRollupRecord}
    (hs : s ∈ (groupFold (keyOf X) (emptyRecord X) absorb l).entries) :
    s.2.key = s.1 ∧ RecordOf X s.2 (l.filter fun e => keyOf X e = s.1) := by
  have hfold := foldGroup_of_mem_entries _ _ _ hs
  have hkey : s.2.key = s.1 := by
    cases hg : l.filter fun e => keyOf X e = s.1 with
    | nil => rw [hg] at hfold; cases hfold
    | cons a as =>
      have ha : a ∈ l.filter fun e => keyOf X e = s.1 := by simp [hg]
      rw [hg, foldGroup, Option.some.injEq] at hfold
      rw [← hfold, key_foldl_absorb]
      simpa [emptyRecord] using (mem_filter.1 ha).2
  refine ⟨hkey, hfold, fun e he => ?_⟩
  rw [hkey]
  simpa using (mem_filter.1 he).2

/-- A record of a list is made of the events that have its key. -/
theorem recordOf_of_mem {r : HourlyRollupRecord} (hr : r ∈ buildRecords X l) :
    RecordOf X r (l.filter fun e => keyOf X e = r.key) := by
  rw [buildRecords, foldl_processEvent, finalize, mem_map] at hr
  obtain ⟨s, hs, rfl⟩ := hr
  obtain ⟨hkey, hof⟩ := recordOf_entry X hs
  rw [hkey]
  exact hof

/-- **The records of a list of events**: one for each key an event of the list has; its sum
is that of the events of the key. -/
theorem mem_buildRecords (hl : absQuantity l < 2 ^ 127)
    {r : HourlyRollupRecord} (hr : r ∈ buildRecords X l) :
    (∃ e ∈ l, keyOf X e = r.key) ∧
      r.quantitySum = sumQuantity (l.filter fun e => keyOf X e = r.key) := by
  obtain ⟨hfold, -⟩ := recordOf_of_mem X hr
  cases hg : l.filter fun e => keyOf X e = r.key with
  | nil => rw [hg] at hfold; cases hfold
  | cons a as =>
    rw [hg, foldGroup, Option.some.injEq] at hfold
    have ha : a ∈ l.filter fun e => keyOf X e = r.key := by simp [hg]
    obtain ⟨hmem, hkey⟩ := mem_filter.1 ha
    refine ⟨⟨a, hmem, of_decide_eq_true hkey⟩, ?_⟩
    have hsub : absQuantity (a :: as) ≤ absQuantity l := by
      rw [← hg]
      exact absQuantity_sublist filter_sublist
    rw [← hfold, quantitySum_foldl_absorb, addQuantities_val]
    · simp [emptyRecord]
    · simp only [emptyRecord, SInt.val_zero, abs_zero]
      omega

/-- Every key of the list has exactly one record. -/
theorem keys_buildRecords (l : List UsageEvent) :
    (buildRecords X l).map (·.key) = (groupFold (keyOf X) (emptyRecord X) absorb l).keys := by
  rw [buildRecords, foldl_processEvent, finalize, map_map, AList.keys, List.keys]
  exact map_congr_left fun s hs => (recordOf_entry X hs).1

theorem nodup_keys_buildRecords (l : List UsageEvent) : ((buildRecords X l).map (·.key)).Nodup := by
  rw [keys_buildRecords]
  exact AList.keys_nodup _

theorem mem_keys_buildRecords {k : HourlyRollupKey} :
    k ∈ (buildRecords X l).map (·.key) ↔ ∃ e ∈ l, keyOf X e = k := by
  rw [keys_buildRecords, ← AList.mem_keys, mem_groupFold]

/-- The records are the events grouped by key: what a rollup is to say of them. -/
structure Aggregates (events : List UsageEvent) (records : List HourlyRollupRecord) : Prop where
  /-- There is one record for each key … -/
  nodup : (records.map (·.key)).Nodup
  /-- … that an event has. -/
  keys : ∀ k, k ∈ records.map (·.key) ↔ ∃ e ∈ events, keyOf X e = k
  /-- Its sum is the exact one. -/
  sum : ∀ r ∈ records, r.quantitySum = sumQuantity (events.filter fun e => keyOf X e = r.key)
  count : ∀ r ∈ records, r.eventCount = (events.filter fun e => keyOf X e = r.key).length
  /-- It has the first of their times … -/
  first : ∀ r ∈ records,
    IsLeast {t | ∃ e ∈ events, keyOf X e = r.key ∧ e.timestampMs = t} r.firstEventMs
  /-- … and the last. -/
  last : ∀ r ∈ records,
    IsGreatest {t | ∃ e ∈ events, keyOf X e = r.key ∧ e.timestampMs = t} r.lastEventMs

/-- **The builder groups by key**, as long as the absolute quantities fit. -/
theorem aggregates_buildRecords (hl : absQuantity l < 2 ^ 127) :
    Aggregates X l (buildRecords X l) := by
  -- a record is the fold of its group, and the times of the group are those of its key
  have hgroup : ∀ r ∈ buildRecords X l, ∃ a as, (l.filter fun e => keyOf X e = r.key) = a :: as ∧
      (a :: as).foldl absorb (emptyRecord X a) = r ∧
      {t | ∃ e ∈ l, keyOf X e = r.key ∧ e.timestampMs = t} =
        {t | t = a.timestampMs ∨ ∃ e ∈ a :: as, e.timestampMs = t} := by
    intro r hr
    obtain ⟨hfold, -⟩ := recordOf_of_mem X hr
    obtain ⟨a, as, hg⟩ : ∃ a as, (l.filter fun e => keyOf X e = r.key) = a :: as := by
      refine exists_cons_of_ne_nil fun hnil => ?_
      rw [hnil] at hfold
      cases hfold
    have hmem : ∀ e, e ∈ a :: as ↔ e ∈ l ∧ keyOf X e = r.key := by
      intro e
      rw [← hg, mem_filter, decide_eq_true_eq]
    rw [hg, foldGroup, Option.some.injEq] at hfold
    refine ⟨a, as, hg, hfold, Set.ext fun t => ?_⟩
    simp only [Set.mem_ofPred_eq, hmem, and_assoc]
    constructor
    · exact .inr
    · rintro (rfl | h)
      · obtain ⟨ha, hkey⟩ := (hmem a).1 mem_cons_self
        exact ⟨a, ha, hkey, rfl⟩
      · exact h
  refine ⟨nodup_keys_buildRecords X l,
    fun k => mem_keys_buildRecords X, fun r hr => (mem_buildRecords X hl hr).2,
    fun r hr => ?_, fun r hr => ?_, fun r hr => ?_⟩ <;> obtain ⟨a, as, hg, hfold, htimes⟩ := hgroup r hr
  · have hcount := eventCount_foldl_absorb (a :: as) (emptyRecord X a)
    rw [hfold] at hcount
    rw [hg, hcount]
    exact Nat.zero_add _
  · have hfirst := firstEventMs_foldl_absorb (a :: as) (emptyRecord X a)
    rw [hfold] at hfirst
    rwa [htimes]
  · have hlast := lastEventMs_foldl_absorb (a :: as) (emptyRecord X a)
    rw [hfold] at hlast
    rwa [htimes]

/-- The events of a list are the events of its records, rearranged. -/
theorem perm_flatMap_buildRecords (l : List UsageEvent) :
    l.Perm ((buildRecords X l).flatMap fun r => l.filter fun e => keyOf X e = r.key) := by
  have h := perm_flatMap_filter (keyOf X) (nodup_keys_buildRecords X l) (l := l) fun e he =>
    (mem_keys_buildRecords X).2 ⟨e, he, rfl⟩
  rwa [flatMap_map] at h

/-- **The events of a list are in exactly one record each**: the records are made of groups
that together are the list. -/
theorem exists_groups_buildRecords (l : List UsageEvent) :
    ∃ groups, List.Forall₂ (RecordOf X) (buildRecords X l) groups ∧ groups.flatten.Perm l := by
  refine ⟨(buildRecords X l).map fun r => l.filter fun e => keyOf X e = r.key, ?_, ?_⟩
  · rw [List.forall₂_map_right_iff, List.forall₂_same]
    exact fun r hr => recordOf_of_mem X hr
  · rw [← flatMap_def]
    exact (perm_flatMap_buildRecords X l).symm

end RollupBuilder

end UsageDb
