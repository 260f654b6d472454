import UsageDb.Lib.Saturating
import UsageDb.Query.RollupRaw

/-!
# Sums and the physical layout

The same events can be stored in many ways: in segments and in the memtable, in any order, and with
some of them in rollup records. `aggregate` is handed the rows of such a layout and adds up the
quantities of each group with `saturating_add`, after the rollup builder has added up those of its
records the same way.

Saturating addition is not associative. `totals_independent_of_layout` says exactly when this does
not show: in every group either the positive and the negative quantities each fit in an `i128`, or
they are of one sign.
-/

namespace UsageDb

open Lib RollupBuilder SInt List

variable {X : Extern} {plan : QueryPlan}

/-- The `Sum` that `aggregate` reports for a group, if there is one. -/
def QueryPlan.sumOf (plan : QueryPlan) (rows : List UsageEvent) (key : List String) : Option I128 :=
  ((planGroups plan rows).lookup key).map (·.quantitySum)

/-- The quantities of some rows. -/
def quantities (rows : List UsageEvent) : List I128 := rows.map (·.quantity)

theorem addQuantities_eq_satSum (rows : List UsageEvent) :
    addQuantities 0 rows = satSum (quantities rows) :=
  (foldl_map (f := fun e : UsageEvent => e.quantity) (g := satAdd) (l := rows)).symm

theorem sumOf_eq (rows : List UsageEvent) (key : List String) :
    plan.sumOf rows key = if rows.filter (inGroup plan key) = [] then none
      else some (satSum (quantities (rows.filter (inGroup plan key)))) := by
  rw [QueryPlan.sumOf, planGroups, sortedEntries_groupFold, lookup_groups, ← filter_inGroup]
  split
  · rfl
  · rw [Option.map_some, quantitySum_foldl_add, addQuantities_eq_satSum]

/-! ### Layouts -/

/-- Where some events are. -/
structure Layout (X : Extern) where
  /-- The rollup records, each with the events it was made of. -/
  rollups : List (HourlyRollupRecord × List UsageEvent)
  /-- The events of the raw segments and of the memtable. -/
  raw : List (List UsageEvent)
  /-- A record is that of its events. -/
  records : ∀ x ∈ rollups, RecordOf X x.1 x.2

namespace Layout

/-- The rows that `aggregate` is handed. -/
def rows (L : Layout X) : List UsageEvent :=
  L.rollups.map (fun x => rollupRecordToEvent X x.1) ++ L.raw.flatten

/-- The events that are stored. -/
def events (L : Layout X) : List UsageEvent := L.rollups.flatMap (·.2) ++ L.raw.flatten

/-- The raw events alone. -/
def ofRaw (raw : List (List UsageEvent)) : Layout X := ⟨[], raw, fun _ hx => (nomatch hx)⟩

variable {L : Layout X} {key : List String}

theorem ne_nil_of_recordOf {r : HourlyRollupRecord} {group : List UsageEvent}
    (h : RecordOf X r group) : group ≠ [] := by
  rintro rfl
  cases h.1

theorem quantity_record {r : HourlyRollupRecord} {group : List UsageEvent} (h : RecordOf X r group) :
    (rollupRecordToEvent X r).quantity = satSum (quantities group) := by
  cases group with
  | nil => cases h.1
  | cons e group =>
    obtain rfl := Option.some.inj h.1
    rw [← addQuantities_eq_satSum]
    exact quantitySum_foldl_absorb _ _

/-- The partial sums that the rows of a group are made of. -/
def blocks (L : Layout X) (plan : QueryPlan) (key : List String) : List (List I128) :=
  (L.rollups.filter fun x => inGroup plan key (rollupRecordToEvent X x.1)).map (fun x =>
    quantities x.2) ++ (L.raw.flatten.filter (inGroup plan key)).map fun e => [e.quantity]

theorem map_satSum_blocks : (L.blocks plan key).map satSum =
    quantities (L.rows.filter (inGroup plan key)) := by
  have hone : ∀ q : I128, satSum [q] = q := by
    intro q
    have hq := q.property
    refine Subtype.ext ?_
    rw [satSum, satAddAll_cons, satAddAll, foldl_nil, satAdd_val (by simpa using hq),
      val_zero, zero_add]
  rw [blocks, rows, map_append, filter_append, quantities, map_append, map_map, map_map,
    filter_map, map_map]
  congr 1
  · refine map_congr_left fun x hx => ?_
    exact (quantity_record (L.records x (mem_of_mem_filter hx))).symm
  · exact map_congr_left fun e _ => hone e.quantity

/-- The record of a group's events is in the group, and the record of others is not. -/
def Agrees (L : Layout X) (plan : QueryPlan) (key : List String) : Prop :=
  ∀ x ∈ L.rollups, ∀ e ∈ x.2, inGroup plan key (rollupRecordToEvent X x.1) = inGroup plan key e

theorem filter_rollups (h : L.Agrees plan key) :
    (L.rollups.flatMap (·.2)).filter (inGroup plan key) =
      (L.rollups.filter fun x => inGroup plan key (rollupRecordToEvent X x.1)).flatMap (·.2) := by
  unfold Agrees at h
  generalize L.rollups = rollups at h
  induction rollups with
  | nil => rfl
  | cons x rollups ih =>
    have hx := h x mem_cons_self
    rw [flatMap_cons, filter_append, ih fun y hy => h y (mem_cons_of_mem _ hy), filter_cons]
    split
    · rename_i hin
      rw [flatMap_cons, filter_eq_self.2 fun e he => (hx e he).symm.trans hin]
    · rename_i hout
      rw [filter_eq_nil_iff.2 fun e he => by rw [← hx e he]; exact hout, nil_append]

theorem flatten_blocks (h : L.Agrees plan key) :
    (L.blocks plan key).flatten = quantities (L.events.filter (inGroup plan key)) := by
  rw [blocks, events, filter_append, filter_rollups h, quantities, map_append,
    flatten_append, map_flatMap, flatMap_def]
  congr 1
  rw [← flatMap_def, ← map_eq_flatMap]

theorem filter_rows_eq_nil (h : L.Agrees plan key) :
    L.rows.filter (inGroup plan key) = [] ↔ L.events.filter (inGroup plan key) = [] := by
  rw [rows, events, filter_append, filter_append, filter_rollups h, filter_map, append_eq_nil_iff,
    append_eq_nil_iff, map_eq_nil_iff, flatMap_eq_nil_iff]
  refine and_congr_left fun _ => ?_
  constructor
  · intro hnil x hx
    rw [show (L.rollups.filter fun x =>
      inGroup plan key (rollupRecordToEvent X x.1)) = [] from hnil] at hx
    cases hx
  · intro hall
    refine eq_nil_iff_forall_not_mem.2 fun x hx => ?_
    exact ne_nil_of_recordOf (L.records x (mem_of_mem_filter hx)) (hall x hx)

/-- **A balanced group has the sum of its events**, however they are stored. -/
theorem sumOf_rows (h : L.Agrees plan key) {events : List UsageEvent} (hevents : L.events.Perm events)
    (hbalanced : Balanced (quantities (events.filter (inGroup plan key)))) :
    plan.sumOf L.rows key = plan.sumOf events key := by
  have hperm :
      (quantities (L.events.filter (inGroup plan key))).Perm
          (quantities (events.filter (inGroup plan key))) :=
    (hevents.filter _).map _
  have hstored := hbalanced.perm hperm.symm
  have hsum : satSum (quantities (L.rows.filter (inGroup plan key))) =
    satSum (quantities (events.filter (inGroup plan key))) := by
    rw [← flatten_blocks h] at hstored
    rw [← map_satSum_blocks, satSum_blocks hstored, flatten_blocks h]
    refine Subtype.ext ?_
    rw [satSum_of_balanced (hbalanced.perm hperm.symm), satSum_of_balanced hbalanced, total_perm hperm]
  have hnil : L.rows.filter (inGroup plan key) = [] ↔ events.filter (inGroup plan key) = [] := by
    rw [filter_rows_eq_nil h]
    exact ⟨fun hn => List.Perm.nil_eq (hn ▸ hevents.filter _) |>.symm, fun hn =>
      List.Perm.eq_nil (hn ▸ hevents.filter _)⟩
  rw [sumOf_eq, sumOf_eq, hsum]
  simp only [hnil]

end Layout

/-! ### When the layout does not matter -/

/-- In every group of a plan, gains and losses fit or there is only one of them. -/
def QueryPlan.Steady (plan : QueryPlan) (events : List UsageEvent) : Prop :=
  ∀ key, Balanced (quantities (events.filter (inGroup plan key)))

/-- All layouts of some events that have a property report the same sums for a plan. -/
def QueryPlan.SameSumIn (X : Extern) (plan : QueryPlan) (events : List UsageEvent) (P : Layout X →
    Prop) : Prop :=
  ∀ L L' : Layout X, P L → P L' → L.events.Perm events → L'.events.Perm events →
    ∀ key, plan.sumOf L.rows key = plan.sumOf L'.rows key

/-- The quantities of a group, when the rows are put together from those with a property and the
others. -/
theorem quantities_split (events : List UsageEvent) (key : List String) (p q : I128 → Bool) :
    quantities (([events.filter fun e => p e.quantity,
        events.filter fun e => q e.quantity].flatten).filter (inGroup plan key)) =
      (quantities (events.filter (inGroup plan key))).filter p ++
        (quantities (events.filter (inGroup plan key))).filter q := by
  have hpart : ∀ p : I128 → Bool,
      quantities ((events.filter fun e => p e.quantity).filter (inGroup plan key)) =
      (quantities (events.filter (inGroup plan key))).filter p := by
    intro p
    rw [quantities, quantities, filter_map, filter_filter, filter_filter]
    congr 1
    exact filter_congr fun e _ => Bool.and_comm _ _
  rw [← hpart, ← hpart, flatten_cons, flatten_cons, flatten_nil, append_nil, filter_append, quantities,
    map_append]
  rfl

/-- The gains before the losses and the losses before the gains tell an unbalanced group. -/
theorem steady_of_raw {events : List UsageEvent} (h : plan.SameSumIn X events fun L => L.rollups = []) :
    plan.Steady events := by
  intro key
  by_contra hunbalanced
  let gain : I128 → Bool := fun q => decide (0 ≤ (q : ℤ))
  let loss : I128 → Bool := fun q => decide ¬ 0 ≤ (q : ℤ)
  let gainsFirst := [events.filter fun e => gain e.quantity, events.filter fun e => loss e.quantity]
  let lossesFirst := [events.filter fun e => loss e.quantity, events.filter fun e => gain e.quantity]
  have hgains : gainsFirst.flatten.Perm events := by
    have hloss :
      (fun e : UsageEvent => loss e.quantity) = fun e =>
        !gain e.quantity := funext fun _ => decide_not
    show (_ ++ (List.filter (fun e : UsageEvent => loss e.quantity) events ++ [])).Perm events
    rw [append_nil, hloss]
    exact filter_append_perm (fun e : UsageEvent => gain e.quantity) events
  have hlosses : lossesFirst.flatten.Perm events := by
    refine List.Perm.trans ?_ hgains
    simpa [gainsFirst, lossesFirst] using perm_append_comm
  have hsame := h (.ofRaw gainsFirst) (.ofRaw lossesFirst) rfl rfl hgains hlosses key
  -- both report a sum, as the group is not empty
  have hne : ∀ raw : List (List UsageEvent), raw.flatten.Perm events →
      raw.flatten.filter (inGroup plan key) ≠ [] := by
    intro raw hraw hnil
    have hgroup : events.filter (inGroup plan key) = [] :=
      (List.Perm.nil_eq (hnil ▸ hraw.filter (inGroup plan key))).symm
    rw [hgroup] at hunbalanced
    exact hunbalanced (.inr (.inr rfl))
  have hrows : ∀ raw : List (List UsageEvent), (Layout.ofRaw (X := X) raw).rows =
    raw.flatten := fun _ => rfl
  rw [hrows, hrows, sumOf_eq, sumOf_eq, if_neg (hne _ hgains), if_neg (hne _ hlosses)] at hsame
  have hsum := Option.some.inj hsame
  rw [quantities_split, quantities_split] at hsum
  exact satSum_order_of_not_balanced hunbalanced hsum

/-- **Layouts and sums.** For every plan and all valid events: the sums do not depend on how the
events are split into segments and memtable, and on their order, exactly if the groups of the plan
are balanced. The same holds with rollup records, for a plan that rollups can answer. -/
theorem totals_independent_of_layout (X : Extern) (plan : QueryPlan) (events : List UsageEvent)
    (hvalid : ∀ e ∈ events, e.Valid) (hdims : ∀ e ∈ events, plan.ReadsFields → DimsRoundTrip X e) :
    (plan.SameSumIn X events (fun L => L.rollups = []) ↔ plan.Steady events) ∧
      (plan.Hourly → (plan.SameSumIn X events (fun _ => True) ↔ plan.Steady events)) := by
  have hsums : ∀ P : Layout X → Prop, (∀ L, P L → L.events.Perm events → ∀ key, L.Agrees plan key) →
      plan.Steady events → plan.SameSumIn X events P := by
    intro P hagrees hsteady L L' hL hL' hevents hevents' key
    rw [Layout.sumOf_rows (hagrees L hL hevents key) hevents (hsteady key),
      Layout.sumOf_rows (hagrees L' hL' hevents' key) hevents' (hsteady key)]
  refine ⟨⟨steady_of_raw, hsums _ fun L hL _ key x hx => ?_⟩,
    fun hplan => ⟨fun h => ?_, hsums _ fun L _ hevents key x hx e he => ?_⟩⟩
  · rw [hL] at hx
    cases hx
  · exact steady_of_raw fun L L' _ _ => h L L' trivial trivial
  · have hmem : e ∈ events := hevents.mem_iff.1 (mem_append_left _ (mem_flatMap.2 ⟨x, hx, he⟩))
    have hkey := ((L.records x hx).2 e he).symm
    have hpos := (hvalid e hmem).timestamp_pos
    rw [inGroup, inGroup, groupKey_record hplan hpos (hdims e hmem) hkey,
      matchesPlan_record hplan hpos (hdims e hmem) hkey]

/-- A plan for the sum of all quantities of four hours. -/
def layoutPlan : QueryPlan :=
  ⟨.rollupHourly, none, SInt.wrap 63 0, SInt.wrap 63 14400000, [], [], AList.singleton "quantity" .sum⟩

/-- The record of one event. -/
def recordOfOne (e : UsageEvent) : HourlyRollupRecord := absorb (emptyRecord .sample e) e

/-- A usage event and a correction: rolled up and in the memtable, or both in one segment. -/
theorem totals_independent_of_layout_of_correction :
    let usage := sampleEvent "a" "acme" 7200000 5
    let correction := sampleEvent "b" "acme" 7300000 (-3)
    let L : Layout .sample := ⟨[(recordOfOne correction, [correction])], [[usage]], by
      rintro x (_ | ⟨_, ⟨⟩⟩)
      exact ⟨rfl, by rintro e (_ | ⟨_, ⟨⟩⟩); rfl⟩⟩
    layoutPlan.sumOf L.rows [] =
        layoutPlan.sumOf (Layout.ofRaw (X := .sample) [[usage, correction]]).rows [] := by
  intro usage correction L
  have hall := totals_independent_of_layout .sample layoutPlan [usage, correction] (by decide +kernel)
    fun e _ h => absurd h (by rintro (h | h) <;> exact h rfl)
  have hhourly : layoutPlan.Hourly := ⟨by decide +kernel, by decide +kernel, by decide, by decide⟩
  refine (hall.2 hhourly).2 ?_ L (.ofRaw [[usage, correction]]) trivial trivial
    (List.Perm.swap _ _ _) (List.Perm.refl _) []
  intro key
  cases key with
  | nil => decide +kernel
  | cons k key => exact .inr (.inr rfl)

/-- The largest quantity, a correction and another event, accepted in this order. The segment that
they are flushed to has them in the order of their accounts, and reports another sum than the
memtable did. -/
theorem sum_changed_by_flush :
    let events := [sampleEvent "a" "bolt" 7200000 (2 ^ 127 - 1), sampleEvent "b" "bolt" 7200000 (-1),
      sampleEvent "c" "acme" 7200000 1]
    (∀ e ∈ events, e.Valid) ∧ layoutPlan.sumOf (Layout.ofRaw (X := .sample) [events]).rows [] ≠
      layoutPlan.sumOf (Layout.ofRaw (X := .sample) [sortEventsCanonical events]).rows [] := by
  decide +kernel

end UsageDb
