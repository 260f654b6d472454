import UsageDb.Lib.Decimal
import UsageDb.Query.Executor

/-!
# Closing, reopening and reading periods

`handle_close_period`, `handle_reopen_period` and `handle_get_period` of
`src/api/http_server.rs`, for a period that `parse_period` has read. Closing freezes the totals
of the period as a rollup query gives them at that moment and adds an entry to the manifest;
reopening removes it. A closed period is answered with the frozen totals and the corrections
and retractions that a scan of raw events finds in it.

A total goes through text on its way: `extractQuantitySum_aggregate` says what is read out of
an answer.
-/

namespace UsageDb

open Lib List

/-- What a request to close a period comes to. -/
inductive CloseResult where
  /-- It was closed before, with this entry. -/
  | alreadyClosed (entry : ClosedPeriod)
  /-- It is closed now. -/
  | closed (entry : ClosedPeriod)
  /-- The calendar does not have the period. -/
  | invalidPeriod
  /-- The manifest could not be saved. -/
  | saveFailed

/-- What a request to reopen a period comes to. -/
inductive ReopenResult where
  /-- It is open; whether an entry was removed. -/
  | opened (removed : Bool)
  /-- The manifest could not be saved. -/
  | saveFailed

/-- `str::parse::<i128>`: a sign or none, at least one digit, and in range. -/
def parseI128 (s : String) : Option I128 :=
  let signed (neg : Bool) (ds : List Char) : Option I128 :=
    if ds.isEmpty then none
    else (parseDigits ds 0).bind fun n =>
      let x : ℤ := if neg then -n else n
      if h : InRange 127 x then some ⟨x, h⟩ else none
  match s.toList with
  | '-' :: ds => signed true ds
  | '+' :: ds => signed false ds
  | ds => signed false ds

/-- The value of a field of a row. -/
def Row.get (name : String) : Row → Option Value
  | .object fields => (fields.find? fun x => x.1 = name).map (·.2)
  | _ => none

/-- `as_str`. -/
def Value.asStr : Value → Option String
  | .string s => some s
  | .number _ => none

/-- `as_u64`. -/
def Value.asU64 : Value → Option ℕ
  | .string _ => none
  | .number n => some n

/-- `as_i64`. -/
def Value.asI64 : Value → Option ℤ
  | .string _ => none
  | .number n => if (n : ℤ) < 2 ^ 63 then some n else none

/-- The field `quantity` of a row, read as an `i64`. -/
def Row.quantityI64 : Row → Option ℤ
  | .event e => if -2 ^ 63 ≤ (e.quantity : ℤ) ∧ (e.quantity : ℤ) < 2 ^ 63 then some e.quantity else none
  | row => (row.get "quantity").bind Value.asI64

/-- `extract_quantity_sum`. -/
def extractQuantitySum (result : List Row) : I128 :=
  (((result.filterMap (Row.get "quantity")).filterMap Value.asStr).filterMap parseI128).head?.getD 0

/-- What a request to read a period comes to. -/
inductive PeriodView where
  /-- It is open, with this total. -/
  | «open» (fromMs toMs : I64) (totalQuantity : I128)
  /-- It is closed: the entry with the frozen totals, the adjustments and their sum, the net
  total, and for an entry without frozen totals the total of now. -/
  | closed (entry : ClosedPeriod) (fromMs toMs : I64) (pendingAdjustments : List Row)
      (adjustmentsQuantity : I128)
      (netTotal : Option I128) (liveTotalFallback : Option I128)
  /-- The calendar does not have the period. -/
  | invalidPeriod
  deriving DecidableEq

/-- `net_total`. -/
def PeriodView.netTotal : PeriodView → Option I128
  | .closed _ _ _ _ _ net _ => net
  | _ => none

section

variable (X : Extern)

/-- `period_bounds`. -/
def periodBounds (year month : ℕ) : Option (I64 × I64) := do
  let fromMs ← X.monthStart year month
  let toMs ← if month = 12 then X.monthStart (year + 1) 1 else X.monthStart year (month + 1)
  return (fromMs, toMs)

/-- The plan of `snapshot_period_totals`. -/
def totalsPlan (account : String) (fromMs toMs : I64) : QueryPlan :=
  { source := .rollupHourly
    accountId := some account
    fromMs
    toMs
    filters := []
    groupBy := []
    metrics :=
      (AList.insert "count" .count
        (∅ : AList fun _ => AggregationFunction)).insert "quantity" .sum }

/-- `snapshot_period_totals`. -/
def snapshotPeriodTotals (s : State) (account : String) (fromMs toMs : I64) : I128 × ℕ :=
  let result := executePlan X s (totalsPlan account fromMs toMs)
  (extractQuantitySum result,
    ((result.filterMap (Row.get "count")).filterMap Value.asU64).head?.getD 0)

/-- The manifest with a period closed. -/
def Manifest.close (m : Manifest) (entry : ClosedPeriod) : Manifest :=
  { m with closedPeriods := m.closedPeriods ++ [entry] }

/-- The manifest with a period opened. -/
def Manifest.reopen (m : Manifest) (account : String) (year month : ℕ) : Manifest :=
  { m with closedPeriods := m.closedPeriods.filter fun p => ¬ p.IsFor account year month }

/-- `find_closed`. -/
def Manifest.findClosed (m : Manifest) (account : String) (year month : ℕ) : Option ClosedPeriod :=
  m.closedPeriods.find? fun p => p.IsFor account year month

/-- The entry that closing a period now would push. -/
def closeEntry (s : State) (account : String) (year month : ℕ) (now : ℤ) (fromMs toMs : I64) :
    ClosedPeriod :=
  let totals := snapshotPeriodTotals X s account fromMs toMs
  { accountId := account
    year
    month
    closedAtMs := now
    frozenQuantity := some totals.1
    frozenEventCount := some totals.2
    watermarkAtCloseMs := some s.mem.manifest.hourlyRollupMs }

/-- `handle_close_period`. The second look at the list, under the write lock, finds what the
first found: nothing runs in between here. -/
def closePeriod (account : String) (year month : ℕ) (now : ℤ) (saveOk : Bool) (s : State) :
    Outcome × CloseResult :=
  match s.mem.manifest.findClosed account year month with
  | some existing => (.skip s, .alreadyClosed existing)
  | none =>
    match periodBounds X year month with
    | none => (.skip s, .invalidPeriod)
    | some (fromMs, toMs) =>
      let entry := closeEntry X s account year month now fromMs toMs
      let m := s.mem.manifest.close entry
      if saveOk then (⟨[.manifestSave m.saved], { s.mem with manifest := m.saved }⟩, .closed entry)
      else (⟨[], { s.mem with manifest := m }⟩, .saveFailed)

/-- `handle_reopen_period`: nothing is saved when there was no entry. -/
def reopenPeriod (account : String) (year month : ℕ) (saveOk : Bool) (s : State) :
    Outcome × ReopenResult :=
  let m := s.mem.manifest.reopen account year month
  if m.closedPeriods.length < s.mem.manifest.closedPeriods.length then
    if saveOk then (⟨[.manifestSave m.saved], { s.mem with manifest := m.saved }⟩, .opened true)
    else (⟨[], { s.mem with manifest := m }⟩, .saveFailed)
  else (⟨[], { s.mem with manifest := m }⟩, .opened false)

/-- The plan of a live total. -/
def liveTotalPlan (account : String) (fromMs toMs : I64) : QueryPlan :=
  { source := .rollupHourly
    accountId := some account
    fromMs
    toMs
    filters := []
    groupBy := []
    metrics := AList.singleton "quantity" .sum }

/-- `plan_adjustments`. -/
def planAdjustments (account : String) (fromMs toMs : I64) : QueryPlan :=
  { source := .rawEvents
    accountId := some account
    fromMs
    toMs
    filters := [⟨"kind", ["Correction", "Retraction"]⟩]
    groupBy := []
    metrics := ∅ }

/-- `handle_get_period`. The sum of the adjustments is a plain one, which wraps in release
builds. -/
def getPeriod (account : String) (year month : ℕ) (s : State) : PeriodView :=
  match periodBounds X year month with
  | none => .invalidPeriod
  | some (fromMs, toMs) =>
    let live := extractQuantitySum (executePlan X s (liveTotalPlan account fromMs toMs))
    match s.mem.manifest.findClosed account year month with
    | none => .open fromMs toMs live
    | some entry =>
      let adjustments := executePlan X s (planAdjustments account fromMs toMs)
      let adjustmentsQuantity : I128 := SInt.wrap 127 (adjustments.filterMap Row.quantityI64).sum
      .closed entry fromMs toMs adjustments adjustmentsQuantity
        (entry.frozenQuantity.map fun q => SInt.satAdd q adjustmentsQuantity)
        (if entry.frozenQuantity.isNone then some live else none)

end

/-! ### A total and its text -/

/-- A number that fits. -/
theorem inRange_of_eq {x y : ℤ} (hxy : x = y) (h : InRange 127 y) :
    (if h : InRange 127 x then some (⟨x, h⟩ : I128) else none) = some ⟨y, h⟩ := by
  subst hxy
  exact dif_pos h

theorem parseI128_repr {n : ℕ} (h : InRange 127 (n : ℤ)) : parseI128 n.repr = some ⟨n, h⟩ := by
  obtain ⟨c, cs, hcs⟩ := exists_cons_of_ne_nil (Nat.toDigits_ne_nil (n := n) (b := 10))
  have hc : c.isDigit = true :=
    Nat.isDigit_of_mem_toDigits (by decide) (by decide) (hcs ▸ mem_cons_self : c ∈ Nat.toDigits 10 n)
  have hparse := parseDigits_toDigits n
  rw [hcs] at hparse
  unfold parseI128
  rw [toList_repr, hcs]
  split
  · rename_i h
    obtain ⟨rfl, -⟩ := List.cons.inj h
    exact absurd hc (by decide)
  · rename_i h
    obtain ⟨rfl, -⟩ := List.cons.inj h
    exact absurd hc (by decide)
  · show (parseDigits (c :: cs) 0).bind _ = _
    rw [hparse, Option.bind_some]
    exact inRange_of_eq (if_neg Bool.false_ne_true) h

theorem parseI128_minus {n : ℕ} (h : InRange 127 (-n : ℤ)) : parseI128 ("-" ++ n.repr) =
    some ⟨-n, h⟩ := by
  have hlist : ("-" ++ n.repr).toList = '-' :: Nat.toDigits 10 n := by
    rw [String.toList_append, toList_repr]
    rfl
  have hne : (Nat.toDigits 10 n).isEmpty = false := by simp [Nat.toDigits_ne_nil]
  unfold parseI128
  rw [hlist]
  show (if (Nat.toDigits 10 n).isEmpty then none else (parseDigits (Nat.toDigits 10 n) 0).bind _) = _
  rw [parseDigits_toDigits, hne, Option.bind_some]
  exact inRange_of_eq (if_pos rfl) h

/-- **The text of an `i128` is read as the number.** -/
theorem parseI128_toString (q : I128) : parseI128 (toString (q : ℤ)) = some q := by
  obtain ⟨x, hx⟩ := q
  show parseI128 x.repr = _
  obtain ⟨n, rfl | rfl⟩ := Int.eq_nat_or_neg x
  · rw [Int.repr_eq_if, if_pos (Int.natCast_nonneg n), Int.toNat_natCast]
    exact parseI128_repr hx
  · rcases Nat.eq_zero_or_pos n with rfl | hpos
    · exact parseI128_repr hx
    · rw [Int.repr_eq_if, if_neg (by omega), neg_neg, Int.toNat_natCast]
      exact parseI128_minus hx

/-! ### What is read out of an answer -/

theorem lookup_foldl_insert_of_not_mem {β γ : Type} {f : β → γ}
    {l : List (Sigma fun _ : String => β)} {k : String}
    (hk : k ∉ l.keys) (m : AList fun _ : String => γ) :
    (l.foldl (fun m x => m.insert x.1 (f x.2)) m).lookup k = m.lookup k := by
  induction l generalizing m with
  | nil => rfl
  | cons x l ih =>
    rw [keys_cons, mem_cons, not_or] at hk
    rw [foldl_cons, ih hk.2, AList.lookup_insert_ne hk.1]

/-- Inserting entries with different keys. -/
theorem lookup_foldl_insert {β γ : Type} {f : β → γ}
    {l : List (Sigma fun _ : String => β)} (hl : l.NodupKeys)
    {k : String} {b : β} (hk : ⟨k, b⟩ ∈ l) (m : AList fun _ : String => γ) :
    (l.foldl (fun m x => m.insert x.1 (f x.2)) m).lookup k = some (f b) := by
  induction l generalizing m with
  | nil => cases hk
  | cons x l ih =>
    rw [nodupKeys_cons] at hl
    rw [foldl_cons]
    rcases mem_cons.1 hk with rfl | hk
    · rw [lookup_foldl_insert_of_not_mem hl.1, AList.lookup_insert]
    · exact ih hl.2 hk _

/-- A field of an object made from a map. -/
theorem get_object (m : AList fun _ : String => Value) (name : String) :
    (Row.object (sortedEntries m)).get name = m.lookup name := by
  rw [Row.get]
  cases hfind : (sortedEntries m).find? fun x => x.1 = name with
  | none =>
    rw [List.find?_eq_none] at hfind
    cases hlook : m.lookup name with
    | none => rfl
    | some v => exact absurd (by simp) (hfind (name, v) (mem_sortedEntries.2 hlook))
  | some x =>
    obtain ⟨k, v⟩ := x
    have hname : k = name := by simpa using List.find?_some hfind
    subst hname
    exact (mem_sortedEntries.1 (mem_of_find?_eq_some hfind)).symm

section Extract

variable {plan : QueryPlan}

theorem get_groupRow (hq : plan.metrics.lookup "quantity" = some .sum)
    (keyValues : List String) (a : Agg) :
    (groupRow plan keyValues a).get "quantity" = some (.string (toString (a.quantitySum : ℤ))) := by
  rw [groupRow, get_object]
  exact lookup_foldl_insert (f := AggregationFunction.value a) plan.metrics.nodupKeys
    (AList.mem_lookup_iff.1 hq) _

/-- **The sum of a plan that asks for the sum and does not group** is that of the matching
rows. -/
theorem extractQuantitySum_aggregate (hq : plan.metrics.lookup "quantity" = some .sum)
    (hgroup : plan.groupBy = []) (l : List UsageEvent) :
    extractQuantitySum (aggregate plan l) =
      RollupBuilder.addQuantities 0 (l.filter (matchesPlan plan)) := by
  have hmetrics : plan.metrics.entries ≠ [] := by
    intro hnil
    have hmem := AList.mem_lookup_iff.1 hq
    rw [hnil] at hmem
    cases hmem
  rw [aggregate_ungrouped hgroup hmetrics]
  simp only [extractQuantitySum, filterMap_cons, get_groupRow hq, Value.asStr, parseI128_toString,
    List.head?_cons, Option.getD_some]
  exact quantitySum_foldl_add _ _

end Extract

end UsageDb
