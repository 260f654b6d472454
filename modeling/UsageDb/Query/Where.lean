import UsageDb.Query.Sql
import UsageDb.Ingest.Ingest

/-!
# What a `WHERE` clause means

`extract_filters` folds a conjunction into a plan, and `matches_plan` tests an event against
the plan. Here the clause is also given its own meaning (`Expr.holds`): a column has a value, a
text or a number, and a comparison is made with that value.

The two differ. The plan keeps one account, so of several equalities for `account_id` only the
last is left; `=` and `IN` for `event_id`, `timestamp_ms` and `hour_start_ms` are read as tests
of a dimension of that name; a bound for `hour_start_ms` is read as a bound for `timestamp_ms`;
and the open end of the range is `i64::MAX`, which is left out. The first three are the
conjuncts that a clause must not have for the plan to keep its meaning
(`where_keeps_meaning`).
-/

namespace UsageDb.Sql

open Lib List

variable {w : Expr} {plan : QueryPlan} {c : Conjunct} {e : UsageEvent} {column name : String}
    {cs : List Conjunct}

/-! ### The meaning of a clause -/

/-- The value of a column. -/
inductive ColumnValue where
  | text (s : String)
  | number (n : ℤ)

/-- The value of a column of an event, if the event has one: any name that is not that of a
column is that of a dimension. -/
def columnValue (column : String) (e : UsageEvent) : Option ColumnValue :=
  match column with
  | "timestamp_ms" => some (.number e.timestampMs)
  | "hour_start_ms" => some (.number e.hourMs)
  | "event_id" => some (.text e.eventId)
  | "account_id" => some (.text e.accountId)
  | "subscription_id" => e.subscriptionId.map .text
  | "product_id" => some (.text e.productId)
  | "meter_id" => some (.text e.meterId)
  | "model_id" => e.modelId.map .text
  | "source" => some (.text e.source)
  | "unit" => some (.text e.unit)
  | "kind" => some (.text e.kind.name)
  | other => (e.dimensions.get other).map .text

/-- Whether a value is the one that a literal stands for. -/
def ColumnValue.equals (literal : String) : ColumnValue → Bool
  | .text s => s = literal
  | .number n => (parseSigned 63 literal).toOption.any fun v => (v : ℤ) = n

/-- A comparison of numbers. -/
def RangeOp.holds (n v : ℤ) : RangeOp → Bool
  | .gt => v < n
  | .gtEq => v ≤ n
  | .lt => n < v
  | .ltEq => n ≤ v

/-- The comparison of a value with a number. -/
def ColumnValue.compares (op : RangeOp) (v : ℤ) : ColumnValue → Bool
  | .text _ => false
  | .number n => op.holds n v

/-- The text of a literal. -/
def Expr.literal : Expr → Option String
  | .value (.singleQuotedString s) => some s
  | .value (.number n _) => some n
  | _ => none

/-- `column = right`. -/
def equalTo (column : String) (right : Expr) (e : UsageEvent) : Bool :=
  right.literal.any fun literal => (columnValue column e).any (·.equals literal)

/-- `column op right`. -/
def comparedTo (column : String) (op : RangeOp) (right : Expr) (e : UsageEvent) : Bool :=
  (right.literal.bind fun literal => (parseSigned 63 literal).toOption).any fun v =>
    (columnValue column e).any (·.compares op v)

/-- Whether a clause is true of an event. -/
def Expr.holds : Expr → UsageEvent → Bool
  | .binaryOp left .and right, e => left.holds e && right.holds e
  | .binaryOp (.identifier column) .eq right, e => equalTo column right e
  | .binaryOp (.identifier column) .gt right, e => comparedTo column .gt right e
  | .binaryOp (.identifier column) .gtEq right, e => comparedTo column .gtEq right e
  | .binaryOp (.identifier column) .lt right, e => comparedTo column .lt right e
  | .binaryOp (.identifier column) .ltEq right, e => comparedTo column .ltEq right e
  | .inList (.identifier column) list false, e => list.any fun right => equalTo column right e
  | _, _ => false

/-! ### Conjuncts -/

/-- A conjunct of a clause that is accepted. -/
inductive Conjunct where
  /-- `column = value` or `column IN (values)`. -/
  | oneOf (column : String) (values : List String)
  /-- A comparison with a number. -/
  | bound (column : String) (op : RangeOp) (v : I64)
  deriving DecidableEq

/-- The conjunct of a comparison. -/
def boundOf (column : String) (op : RangeOp) (right : Expr) : List Conjunct :=
  (right.literal.bind fun literal => (parseSigned 63 literal).toOption).toList.map (.bound column op)

/-- The conjuncts of a clause, from left to right. -/
def Expr.conjuncts : Expr → List Conjunct
  | .binaryOp left .and right => left.conjuncts ++ right.conjuncts
  | .binaryOp (.identifier column) .eq right => right.literal.toList.map
      fun literal => .oneOf column [literal]
  | .binaryOp (.identifier column) .gt right => boundOf column .gt right
  | .binaryOp (.identifier column) .gtEq right => boundOf column .gtEq right
  | .binaryOp (.identifier column) .lt right => boundOf column .lt right
  | .binaryOp (.identifier column) .ltEq right => boundOf column .ltEq right
  | .inList (.identifier column) list false => [.oneOf column (list.filterMap Expr.literal)]
  | _ => []

namespace Conjunct

/-- Whether a conjunct is true of an event. -/
def holds (e : UsageEvent) : Conjunct → Bool
  | oneOf column values => values.any fun v => (columnValue column e).any (·.equals v)
  | bound column op v => (columnValue column e).any (·.compares op v)

/-- What a conjunct does to the plan. -/
def apply (plan : QueryPlan) : Conjunct → QueryPlan
  | oneOf column values => applyField column values plan
  | bound _ op v => op.tighten v plan

/-- What is tested of an event for a conjunct that is in the plan. -/
def reads (e : UsageEvent) : Conjunct → Bool
  | oneOf column values => (QueryFilter.mk column values).accepts e
  | bound _ op v => op.holds e.timestampMs v

/-- Whether the conjunct sets the account of the plan. -/
def setsAccount : Conjunct → Bool
  | oneOf "account_id" [_] => true
  | _ => false

/-- The conjuncts that are left in the plan: one that sets the account takes the place of those
before it. -/
def kept : List Conjunct → List Conjunct
  | [] => []
  | c :: cs => if c.setsAccount && cs.any setsAccount then kept cs else c :: kept cs

end Conjunct

/-! ### A clause that is accepted is its conjuncts -/

section

variable {L : SqlLibs} {plan' : QueryPlan}

theorem literal_of_extractLiteral {text : String} (h : extractLiteral L w = .ok text) :
    w.literal = some text := by
  unfold extractLiteral at h
  split at h <;> cases h <;> rfl

/-- The literals of a list that is accepted. -/
theorem mapM_extractLiteral {list : List Expr} {values : List String}
    (h : list.mapM (extractLiteral L) = .ok values) :
    list.filterMap Expr.literal = values ∧ ∀ p, (list.any fun w => w.literal.any p) = values.any p := by
  induction list generalizing values with
  | nil =>
    cases h
    exact ⟨rfl, fun _ => rfl⟩
  | cons w ws ih =>
    rw [mapM_cons] at h
    obtain ⟨text, hw, h⟩ := except_bind_eq_ok.1 h
    obtain ⟨texts, hws, h⟩ := except_bind_eq_ok.1 h
    cases h
    obtain ⟨hfilter, hany⟩ := ih hws
    have hlit := literal_of_extractLiteral hw
    refine ⟨by rw [filterMap_cons_some hlit, hfilter], fun p => ?_⟩
    rw [any_cons, any_cons, hany, hlit, Option.any_some]

/-- What `apply_range` accepts is a bound for one of the two columns of times. -/
theorem applyRange_ok {left right : Expr} {op : RangeOp}
    (h : applyRange L left op right plan = .ok plan') :
    ∃ column v, left = .identifier column ∧ (column = "timestamp_ms" ∨ column = "hour_start_ms") ∧
      (∃ text, right.literal = some text ∧ parseSigned 63 text = .ok v) ∧
        boundOf column op right = [.bound column op v] ∧
      (∀ e, comparedTo column op right e = (Conjunct.bound column op v).holds e) ∧
      plan' = op.tighten v plan := by
  unfold applyRange at h
  split at h
  next column =>
    obtain ⟨_, hcolumn, h⟩ := except_bind_eq_ok.1 h
    obtain ⟨text, htext, h⟩ := except_bind_eq_ok.1 h
    rw [reject_eq_ok, Bool.and_eq_false_iff, decide_eq_false_iff_not, decide_eq_false_iff_not,
      not_not, not_not] at hcolumn
    split at h
    next v hv =>
      cases h
      have hlit := literal_of_extractLiteral htext
      refine ⟨column, v, rfl, hcolumn, ⟨text, hlit, hv⟩, ?_, fun e => ?_, rfl⟩
      · rw [boundOf, hlit, Option.bind_some, hv]
        rfl
      · rw [comparedTo, hlit, Option.bind_some, hv]
        rfl
    next => cases h
  next => cases h

theorem applyEq_ok {left right : Expr} (h : applyEq L left right plan = .ok plan') :
    ∃ column text, left = .identifier column ∧ right.literal = some text ∧
      plan' = applyField column [text] plan := by
  unfold applyEq at h
  split at h
  next column =>
    obtain ⟨text, htext, h⟩ := except_bind_eq_ok.1 h
    cases h
    exact ⟨column, text, rfl, literal_of_extractLiteral htext, rfl⟩
  next => cases h

/-- What an accepted clause is: its conjuncts are folded into the plan, it is true of an event
if all of them are, and their bounds are for columns of times. -/
structure Accepted (w : Expr) (plan plan' : QueryPlan) : Prop where
  plan_eq : plan' = w.conjuncts.foldl Conjunct.apply plan
  holds_eq : ∀ e, w.holds e = w.conjuncts.all (·.holds e)
  column_of_bound : ∀ c op v, .bound c op v ∈ w.conjuncts → c = "timestamp_ms" ∨ c = "hour_start_ms"

/-- A clause of one conjunct. -/
theorem Accepted.of_one (hconj : w.conjuncts = [c])
    (hplan : plan' = c.apply plan) (hholds : ∀ e, w.holds e = c.holds e)
    (hcolumn : ∀ column op v, Conjunct.bound column op v = c → column = "timestamp_ms" ∨
      column = "hour_start_ms") :
    Accepted w plan plan' := by
  refine ⟨by rw [hconj]; exact hplan, fun e => ?_, fun column op v hmem => ?_⟩
  · rw [hconj, all_cons, all_nil, Bool.and_true]
    exact hholds e
  · rw [hconj, mem_singleton] at hmem
    exact hcolumn column op v hmem

theorem accepted_of_extractFilters (h : extractFilters L w plan = .ok plan') :
    Accepted w plan plan' := by
  fun_induction extractFilters L w plan generalizing plan' with
  | case1 left right plan ihleft ihright =>
    obtain ⟨mid, hleft, h⟩ := except_bind_eq_ok.1 h
    obtain ⟨rfl, hl, hcl⟩ := ihleft hleft
    obtain ⟨rfl, hr, hcr⟩ := ihright _ h
    refine ⟨by rw [Expr.conjuncts, foldl_append], fun e => ?_, fun c op v hmem => ?_⟩
    · rw [Expr.holds, Expr.conjuncts, all_append, hl e, hr e]
    · rw [Expr.conjuncts, mem_append] at hmem
      exact hmem.elim (hcl c op v) (hcr c op v)
  | case3 left right plan =>
    obtain ⟨column, text, rfl, hlit, rfl⟩ := applyEq_ok h
    refine .of_one (c := .oneOf column [text]) (by rw [Expr.conjuncts, hlit]; rfl) rfl
        (fun e => ?_) fun _ _ _ hmem => by
      cases hmem
    rw [Expr.holds, equalTo, hlit, Conjunct.holds, Option.any_some, any_cons, any_nil, Bool.or_false]
  | case4 left right plan =>
    obtain ⟨column, v, rfl, hcolumn, -, hconj, hholds, rfl⟩ := applyRange_ok h
    exact .of_one hconj rfl (fun e => hholds e) fun _ _ _ hmem => by cases hmem; exact hcolumn
  | case5 left right plan =>
    obtain ⟨column, v, rfl, hcolumn, -, hconj, hholds, rfl⟩ := applyRange_ok h
    exact .of_one hconj rfl (fun e => hholds e) fun _ _ _ hmem => by cases hmem; exact hcolumn
  | case6 left right plan =>
    obtain ⟨column, v, rfl, hcolumn, -, hconj, hholds, rfl⟩ := applyRange_ok h
    exact .of_one hconj rfl (fun e => hholds e) fun _ _ _ hmem => by cases hmem; exact hcolumn
  | case7 left right plan =>
    obtain ⟨column, v, rfl, hcolumn, -, hconj, hholds, rfl⟩ := applyRange_ok h
    exact .of_one hconj rfl (fun e => hholds e) fun _ _ _ hmem => by cases hmem; exact hcolumn
  | case9 list plan column =>
    obtain ⟨values, hvalues, h⟩ := except_bind_eq_ok.1 h
    cases h
    obtain ⟨hfilter, hany⟩ := mapM_extractLiteral hvalues
    refine .of_one (c := .oneOf column values) (by rw [Expr.conjuncts, hfilter]) rfl
        (fun e => ?_) fun _ _ _ hmem => by
      cases hmem
    exact hany fun literal => (columnValue column e).any (·.equals literal)
  | _ => cases h

end

/-! ### What the plan tests -/

theorem matchesPlan_iff :
    matchesPlan plan e ↔ (plan.fromMs ≤ e.timestampMs ∧ e.timestampMs < plan.toMs) ∧
      (∀ a ∈ plan.accountId, e.accountId = a) ∧ ∀ f ∈ plan.filters, f.accepts e := by
  rw [matchesPlan, Bool.and_eq_true, Bool.and_eq_true, all_eq_true, inRange, Bool.and_eq_true,
    decide_eq_true_eq,
    decide_eq_true_eq, Subtype.coe_le_coe, Subtype.coe_lt_coe, Option.all_eq_true]
  simp only [decide_eq_true_eq, and_assoc, Option.mem_def]

/-- A bound that is put into the plan is tested of the time, before the last `i64`. -/
theorem matchesPlan_tighten (op : RangeOp) (v : I64) (plan : QueryPlan)
    (hlt : (e.timestampMs : ℤ) < 2 ^ 63 - 1) :
    matchesPlan (op.tighten v plan) e = true ↔ matchesPlan plan e = true ∧
      op.holds e.timestampMs v = true := by
  have hv := v.2
  have hsat : SInt.satAdd v one ≤ e.timestampMs ↔ (v : ℤ) < e.timestampMs := by
    rw [← Subtype.coe_le_coe]
    simp only [SInt.satAdd, one, InRange] at hv ⊢
    omega
  have hsat' : e.timestampMs < SInt.satAdd v one ↔ (e.timestampMs : ℤ) ≤ v := by
    rw [← Subtype.coe_lt_coe]
    simp only [SInt.satAdd, one, InRange] at hv ⊢
    omega
  rw [matchesPlan_iff, matchesPlan_iff]
  cases op with
  | gt =>
    rw [RangeOp.tighten, RangeOp.holds, max_le_iff, hsat, decide_eq_true_eq]
    tauto
  | gtEq =>
    rw [RangeOp.tighten, RangeOp.holds, max_le_iff, decide_eq_true_eq, Subtype.coe_le_coe]
    tauto
  | lt =>
    rw [RangeOp.tighten, RangeOp.holds, lt_min_iff, decide_eq_true_eq, Subtype.coe_lt_coe]
    tauto
  | ltEq =>
    rw [RangeOp.tighten, RangeOp.holds, lt_min_iff, hsat', decide_eq_true_eq]
    tauto

/-- A plan for every account. -/
def everyAccount (plan : QueryPlan) : QueryPlan := { plan with accountId := none }

theorem matchesPlan_everyAccount :
    matchesPlan plan e ↔ matchesPlan (everyAccount plan) e ∧ ∀ a ∈ plan.accountId, e.accountId = a := by
  rw [matchesPlan_iff, matchesPlan_iff]
  simp only [everyAccount, Option.mem_def, reduceCtorEq, false_implies, implies_true, true_and]
  tauto

/-- A conjunct that sets the account is an equality for it; any other adds a filter. -/
theorem applyField_cases (column : String) (values : List String) :
    (∃ a, column = "account_id" ∧ values = [a]) ∨
      ((Conjunct.oneOf column values).setsAccount = false ∧
        ∀ plan, applyField column values plan =
          { plan with filters := plan.filters ++ [⟨column, values⟩] }) := by
  by_cases h : ∃ a, column = "account_id" ∧ values = [a]
  · exact Or.inl h
  · refine Or.inr ⟨?_, fun plan => ?_⟩
    · unfold Conjunct.setsAccount
      split
      next heq =>
        cases heq
        exact absurd ⟨_, rfl, rfl⟩ h
      next => rfl
    · unfold applyField
      split
      next => exact absurd ⟨_, rfl, rfl⟩ h
      next => rfl

/-- A conjunct that is put into the plan is tested, and one for the account takes the place of
the account there was. -/
theorem matchesPlan_apply (c : Conjunct) (plan : QueryPlan) (hlt : (e.timestampMs : ℤ) < 2 ^ 63 - 1) :
    matchesPlan (c.apply plan) e = true ↔
      matchesPlan (if c.setsAccount then everyAccount plan else plan) e = true ∧ c.reads e = true := by
  cases c with
  | bound column op v => exact matchesPlan_tighten op v plan hlt
  | oneOf column values =>
    rcases applyField_cases column values with ⟨a, rfl, rfl⟩ | ⟨hno, happly⟩
    · rw [matchesPlan_everyAccount]
      refine and_congr Iff.rfl ?_
      have hvalue : filterValue "account_id" e = some e.accountId := rfl
      have hset : ((Conjunct.oneOf "account_id" [a]).apply plan).accountId = some a := rfl
      simp [Conjunct.reads, QueryFilter.accepts, hvalue, hset, eq_comm]
    · rw [Conjunct.apply, happly, hno, if_neg Bool.false_ne_true, matchesPlan_iff, matchesPlan_iff]
      simp only [mem_append, mem_singleton, or_imp, forall_and, forall_eq, Conjunct.reads]
      tauto

/-- But for the account, a conjunct does the same to a plan for every account. -/
theorem everyAccount_apply (c : Conjunct) (plan : QueryPlan) :
    everyAccount (c.apply plan) = if c.setsAccount then everyAccount plan else c.apply
      (everyAccount plan) := by
  cases c with
  | bound column op v => cases op <;> rfl
  | oneOf column values =>
    rcases applyField_cases column values with ⟨a, rfl, rfl⟩ | ⟨hno, happly⟩
    · rfl
    · rw [hno, if_neg Bool.false_ne_true, Conjunct.apply, Conjunct.apply, happly, happly]
      rfl

/-- **The plan of a list of conjuncts tests those that are kept.** -/
theorem matchesPlan_foldl (cs : List Conjunct) (plan : QueryPlan)
    (hlt : (e.timestampMs : ℤ) < 2 ^ 63 - 1) :
    matchesPlan (cs.foldl Conjunct.apply plan) e = true ↔
      matchesPlan (if cs.any Conjunct.setsAccount then everyAccount plan else plan) e = true ∧
        ∀ c ∈ Conjunct.kept cs, c.reads e = true := by
  induction cs generalizing plan with
  | nil => simp [Conjunct.kept]
  | cons c cs ih =>
    rw [foldl_cons, ih, Conjunct.kept, any_cons]
    by_cases hmore : cs.any Conjunct.setsAccount = true
    · rw [hmore, Bool.and_true, Bool.or_true, if_pos rfl, if_pos rfl, everyAccount_apply]
      by_cases hsets : c.setsAccount = true
      · rw [if_pos hsets, if_pos hsets]
      · rw [if_neg hsets, if_neg hsets, matchesPlan_apply c _ hlt, if_neg hsets]
        simp only [mem_cons, forall_eq_or_imp, and_assoc]
    · rw [Bool.not_eq_true] at hmore
      rw [hmore, Bool.and_false, Bool.or_false, if_neg Bool.false_ne_true, if_neg Bool.false_ne_true,
        matchesPlan_apply c plan hlt]
      simp only [mem_cons, forall_eq_or_imp, and_assoc]

/-! ### Where the plan keeps the meaning -/

/-- The columns that the plan does not know: under `=` and `IN` they are read as dimensions. -/
def misreadColumns : List String := ["event_id", "timestamp_ms", "hour_start_ms"]

/-- The value of a column of times at a time. -/
def timeOf (column : String) (t : ℤ) : ℤ :=
  if column = "hour_start_ms" then t.tdiv 3600000 * 3600000 else t

/-- The next full hour. -/
def ceilHour (t : ℤ) : ℤ := -(-t / 3600000) * 3600000

/-- The times from the first number on and before the second that a comparison lets pass. -/
def RangeOp.range (v : ℤ) : RangeOp → ℤ × ℤ
  | .gt => (v + 1, 2 ^ 63 - 1)
  | .gtEq => (v, 2 ^ 63 - 1)
  | .lt => (0, v)
  | .ltEq => (0, v + 1)

/-- Those that a conjunct lets pass as it is read, … -/
def Conjunct.readRange : Conjunct → ℤ × ℤ
  | oneOf _ _ => (0, 2 ^ 63 - 1)
  | bound _ op v => op.range v

/-- … and as it is meant: a bound for the hour is one at a full hour. -/
def Conjunct.meantRange : Conjunct → ℤ × ℤ
  | oneOf _ _ => (0, 2 ^ 63 - 1)
  | bound column op v =>
    if column = "hour_start_ms" then (ceilHour (op.range v).1, ceilHour (op.range v).2) else op.range v

/-- The times that all conjuncts let pass. -/
def timeRange (range : Conjunct → ℤ × ℤ) (cs : List Conjunct) : ℤ × ℤ :=
  (cs.foldr (fun c t => max (range c).1 t) 1, cs.foldr (fun c t => min (range c).2 t) (2 ^ 63 - 1))

/-- The conjuncts are none of those that the plan misreads. -/
structure ReadsRight (cs : List Conjunct) : Prop where
  /-- No `=` or `IN` for a column that the plan does not know. -/
  columns : ∀ column values, .oneOf column values ∈ cs → column ∉ misreadColumns
  /-- All equalities for the account are with the same one. -/
  accounts : ∀ a b, .oneOf "account_id" [a] ∈ cs → .oneOf "account_id" [b] ∈ cs → a = b
  /-- It makes no difference to the times that the bounds for the hour are not taken up to a full
  one. -/
  times : timeRange Conjunct.meantRange cs = timeRange Conjunct.readRange cs

/-- No event before the last `i64` satisfies the conjuncts, as they are meant or as they are
read. -/
def Contradictory (cs : List Conjunct) : Prop :=
  ∀ e : UsageEvent, e.Valid → (e.timestampMs : ℤ) < 2 ^ 63 - 1 →
    (¬ ∀ c ∈ cs, c.holds e = true) ∧ ¬ ∀ c ∈ Conjunct.kept cs, c.reads e = true

theorem columnValue_eq (h : column ∉ misreadColumns) (e : UsageEvent) :
    columnValue column e = (filterValue column e).map .text := by
  simp only [misreadColumns, mem_cons, not_mem_nil, or_false, not_or] at h
  obtain ⟨hid, hts, hhour⟩ := h
  unfold columnValue filterValue
  split
  case h_1 => exact absurd rfl hts
  case h_2 => exact absurd rfl hhour
  case h_3 => exact absurd rfl hid
  case h_12 => split <;> first | contradiction | rfl
  all_goals rfl

theorem holds_oneOf (h : column ∉ misreadColumns) (values : List String) (e : UsageEvent) :
    (Conjunct.oneOf column values).holds e = (Conjunct.oneOf column values).reads e := by
  rw [Conjunct.holds, Conjunct.reads, QueryFilter.accepts, columnValue_eq h]
  cases filterValue column e with
  | none => simp
  | some actual => simp [ColumnValue.equals, eq_comm]

theorem holds_bound (h : column = "timestamp_ms" ∨ column = "hour_start_ms") (op : RangeOp) (v : I64)
    (e : UsageEvent) : (Conjunct.bound column op v).holds e =
      op.holds (timeOf column e.timestampMs) v := by
  rcases h with rfl | rfl <;> rfl

/-- What is kept is part of the conjuncts. -/
theorem mem_of_mem_kept (h : c ∈ Conjunct.kept cs) : c ∈ cs := by
  induction cs with
  | nil => exact h
  | cons d ds ih =>
    rw [Conjunct.kept] at h
    split at h
    · exact mem_cons_of_mem _ (ih h)
    · rcases mem_cons.1 h with rfl | h
      · exact mem_cons_self
      · exact mem_cons_of_mem _ (ih h)

/-- Only an equality for the account is not kept, and then another one is. -/
theorem mem_kept_or :
    ∀ c ∈ cs, c ∈ Conjunct.kept cs ∨ c.setsAccount = true ∧ ∃ d ∈ Conjunct.kept cs,
      d.setsAccount = true := by
  induction cs with
  | nil => exact fun c h => nomatch h
  | cons d ds ih =>
    intro c h
    rw [Conjunct.kept]
    by_cases hdrop : (d.setsAccount && ds.any Conjunct.setsAccount) = true
    · rw [if_pos hdrop]
      obtain ⟨hd, hmore⟩ := Bool.and_eq_true_iff.1 hdrop
      rcases mem_cons.1 h with rfl | h
      · -- the later equality is kept, or a still later one is
        obtain ⟨d', hmem, hsets⟩ := any_eq_true.1 hmore
        rcases ih d' hmem with hkept | ⟨-, hlater⟩
        · exact Or.inr ⟨hd, d', hkept, hsets⟩
        · exact Or.inr ⟨hd, hlater⟩
      · exact ih c h
    · rw [if_neg hdrop]
      rcases mem_cons.1 h with rfl | h
      · exact Or.inl mem_cons_self
      · rcases ih c h with hkept | ⟨hsets, d', hmem, hd'⟩
        · exact Or.inl (mem_cons_of_mem _ hkept)
        · exact Or.inr ⟨hsets, d', mem_cons_of_mem _ hmem, hd'⟩

theorem exists_of_setsAccount (h : c.setsAccount = true) : ∃ a, c = .oneOf "account_id" [a] := by
  unfold Conjunct.setsAccount at h
  split at h
  · exact ⟨_, rfl⟩
  · cases h

/-- What is said of all conjuncts is said of the two kinds. -/
theorem forall_conjunct {p : Conjunct → Prop} :
    (∀ c ∈ cs, p c) ↔ (∀ column values, .oneOf column values ∈ cs → p (.oneOf column values)) ∧
      ∀ column op v, .bound column op v ∈ cs → p (.bound column op v) := by
  refine ⟨fun h => ⟨fun _ _ hmem => h _ hmem, fun _ _ _ hmem => h _ hmem⟩,
    fun ⟨hone, hbound⟩ c hmem => ?_⟩
  cases c with
  | oneOf column values => exact hone column values hmem
  | bound column op v => exact hbound column op v hmem

/-- If all equalities for the account are with the same one, nothing is lost with those that are
not kept. -/
theorem forall_kept
    (haccounts : ∀ a b, .oneOf "account_id" [a] ∈ cs → .oneOf "account_id" [b] ∈ cs → a = b)
    (p : Conjunct → Prop) :
    (∀ c ∈ Conjunct.kept cs, p c) ↔ ∀ c ∈ cs, p c := by
  refine ⟨fun h c hmem => ?_, fun h c hmem => h c (mem_of_mem_kept hmem)⟩
  rcases mem_kept_or c hmem with hkept | ⟨hsets, d, hd, hdsets⟩
  · exact h c hkept
  · obtain ⟨a, rfl⟩ := exists_of_setsAccount hsets
    obtain ⟨b, rfl⟩ := exists_of_setsAccount hdsets
    rw [haccounts a b hmem (mem_of_mem_kept hd)]
    exact h _ hd

section Times

variable {range : Conjunct → ℤ × ℤ} {cs : List Conjunct} {t : ℤ}

theorem timeRange_le_iff : (timeRange range cs).1 ≤ t ↔ 1 ≤ t ∧ ∀ c ∈ cs, (range c).1 ≤ t := by
  induction cs with
  | nil => simp [timeRange]
  | cons c cs ih =>
    simp only [timeRange, foldr_cons, max_le_iff, forall_mem_cons] at ih ⊢
    tauto

theorem lt_timeRange_iff : t < (timeRange range cs).2 ↔ t < 2 ^ 63 - 1 ∧ ∀ c ∈ cs, t < (range c).2 := by
  induction cs with
  | nil => simp [timeRange]
  | cons c cs ih =>
    simp only [timeRange, foldr_cons, lt_min_iff, forall_mem_cons] at ih ⊢
    tauto

theorem mem_timeRange (hpos : 0 < t) (hlt : t < 2 ^ 63 - 1) :
    ((timeRange range cs).1 ≤ t ∧ t < (timeRange range cs).2) ↔ ∀ c ∈ cs, (range c).1 ≤ t ∧
      t < (range c).2 := by
  rw [timeRange_le_iff, lt_timeRange_iff, and_iff_right (show 1 ≤ t from hpos), and_iff_right hlt]
  exact ⟨fun h c hc => ⟨h.1 c hc, h.2 c hc⟩, fun h => ⟨fun c hc => (h c hc).1, fun c hc => (h c hc).2⟩⟩

theorem RangeOp.holds_iff (op : RangeOp) (v : ℤ) (hpos : 0 ≤ t) (hlt : t < 2 ^ 63 - 1) :
    op.holds t v = true ↔ (op.range v).1 ≤ t ∧ t < (op.range v).2 := by
  cases op <;> simp only [RangeOp.holds, RangeOp.range, decide_eq_true_eq] <;> omega

/-- The bounds that a time passes as they are read. -/
theorem reads_iff_timeRange (hpos : 0 < t) (hlt : t < 2 ^ 63 - 1) :
    (∀ column op v, .bound column op v ∈ cs → op.holds t v = true) ↔
      (timeRange Conjunct.readRange cs).1 ≤ t ∧ t < (timeRange Conjunct.readRange cs).2 := by
  rw [mem_timeRange hpos hlt, forall_conjunct, and_iff_right fun _ _ _ => ⟨hpos.le, hlt⟩]
  exact forall₄_congr fun column op v _ => op.holds_iff v hpos.le hlt

/-- The bounds that it passes as they are meant. -/
theorem holds_iff_timeRange (hpos : 0 < t) (hlt : t < 2 ^ 63 - 1) :
    (∀ column op v, .bound column op v ∈ cs → op.holds (timeOf column t) v = true) ↔
      (timeRange Conjunct.meantRange cs).1 ≤ t ∧ t < (timeRange Conjunct.meantRange cs).2 := by
  rw [mem_timeRange hpos hlt, forall_conjunct, and_iff_right fun _ _ _ => ⟨hpos.le, hlt⟩]
  refine forall₄_congr fun column op v _ => ?_
  rw [timeOf, Conjunct.meantRange]
  split_ifs
  · -- a bound for the full hour before the time is one for the time, at the next full hour
    rw [Int.tdiv_eq_ediv_of_nonneg hpos.le, op.holds_iff v (by omega) (by omega), ceilHour, ceilHour]
    omega
  · exact op.holds_iff v hpos.le hlt

/-- Two ranges with the same times in them, if there is one. -/
theorem timeRange_eq {range' : Conjunct → ℤ × ℤ} {t₀ : ℤ} (h₀ : (timeRange range cs).1 ≤ t₀ ∧
    t₀ < (timeRange range cs).2)
    (h : ∀ t, 0 < t → t < 2 ^ 63 - 1 → ((timeRange range cs).1 ≤ t ∧ t < (timeRange range cs).2 ↔
      (timeRange range' cs).1 ≤ t ∧ t < (timeRange range' cs).2)) : timeRange range cs =
        timeRange range' cs := by
  have hfirst : ∀ r : Conjunct → ℤ × ℤ, 1 ≤ (timeRange r cs).1 := fun r => (timeRange_le_iff.1 le_rfl).1
  have hend : ∀ r : Conjunct → ℤ × ℤ, (timeRange r cs).2 ≤ 2 ^ 63 - 1 := fun r =>
    not_lt.1 fun hlt => lt_irrefl _ (lt_timeRange_iff.1 hlt).1
  have h1 := hfirst range
  have h2 := hend range
  have h3 := hfirst range'
  have h4 := hend range'
  have h5 := h t₀ (by omega) (by omega)
  have h6 := h (timeRange range cs).1 (by omega) (by omega)
  have h7 := h (timeRange range' cs).1 (by omega) (by omega)
  have h8 := h ((timeRange range cs).2 - 1) (by omega) (by omega)
  have h9 := h ((timeRange range' cs).2 - 1) (by omega) (by omega)
  exact Prod.ext (by omega) (by omega)

end Times

/-- If the conjuncts are none that the plan misreads, what it tests is their meaning. -/
theorem ReadsRight.holds_iff (hright : ReadsRight cs)
    (hbounds : ∀ column op v, .bound column op v ∈ cs → column = "timestamp_ms" ∨
      column = "hour_start_ms")
    (hpos : 0 < (e.timestampMs : ℤ)) (hlt : (e.timestampMs : ℤ) < 2 ^ 63 - 1) :
    (∀ c ∈ cs, c.holds e = true) ↔ ∀ c ∈ Conjunct.kept cs, c.reads e = true := by
  rw [forall_kept hright.accounts, forall_conjunct, forall_conjunct]
  refine and_congr ?_ ?_
  · refine forall₃_congr fun column values hmem => ?_
    rw [holds_oneOf (hright.columns column values hmem)]
  · rw [← forall₄_congr fun column op v hmem => by rw [holds_bound (hbounds column op v hmem)]]
    rw [holds_iff_timeRange hpos hlt, hright.times]
    exact (reads_iff_timeRange hpos hlt).symm

/-! ### Telling the two readings apart -/

theorem valid_iff :
    e.Valid ↔ e.eventId ≠ "" ∧ e.accountId ≠ "" ∧ e.productId ≠ "" ∧ e.meterId ≠ "" ∧
      0 < (e.timestampMs : ℤ) ∧ e.dimensions.inner.length ≤ MAX_DIMENSIONS ∧
      ¬ ((e.kind = .correction ∨ e.kind = .retraction) ∧ e.correctionRef = none) := by
  unfold UsageEvent.Valid validateEvent
  split_ifs <;> simp_all

/-- The event without the dimension of a name. -/
def dropDimension (name : String) (e : UsageEvent) : UsageEvent :=
  { e with dimensions := ⟨e.dimensions.inner.filter fun x => x.1 ≠ name, e.dimensions.sorted.filter _⟩ }

theorem valid_dropDimension (h : e.Valid) : (dropDimension name e).Valid := by
  rw [valid_iff] at h ⊢
  obtain ⟨hid, hacc, hprod, hmeter, hts, hdims, href⟩ := h
  exact ⟨hid, hacc, hprod, hmeter, hts, (length_filter_le _ _).trans hdims, href⟩

theorem get_dropDimension (name key : String) (e : UsageEvent) :
    (dropDimension name e).dimensions.get key = if key = name then none else e.dimensions.get key := by
  unfold dropDimension SmallDimensions.get
  rw [List.find?_filter]
  split_ifs with hkey
  · rw [List.find?_eq_none.2, Option.map_none]
    rintro x - hx
    simp only [ne_eq, decide_not, Bool.not_eq_true', decide_eq_false_iff_not, decide_eq_true_eq] at hx
    exact hx.1 (hx.2.trans hkey)
  · refine congrArg (fun p => (e.dimensions.inner.find? p).map (·.2)) (funext fun x => ?_)
    rw [Bool.eq_iff_iff]
    simp only [ne_eq, decide_not, Bool.not_eq_true', decide_eq_false_iff_not, decide_eq_true_eq]
    exact ⟨fun h => h.2, fun h => ⟨fun hname => hkey (h.symm.trans hname), h⟩⟩

/-- The meaning of a conjunct does not depend on a dimension with the name of a column. -/
theorem holds_dropDimension (hname : name ∈ misreadColumns) (c : Conjunct) (e : UsageEvent) :
    c.holds (dropDimension name e) = c.holds e := by
  have hvalue (column : String) : columnValue column (dropDimension name e) = columnValue column e := by
    unfold columnValue
    split
    case h_12 hts hhour hid _ _ _ _ _ _ _ _ =>
      rw [get_dropDimension, if_neg]
      rintro rfl
      simp only [misreadColumns, mem_cons, not_mem_nil, or_false] at hname
      rcases hname with h | h | h
      · exact hid h
      · exact hts h
      · exact hhour h
    all_goals rfl
  cases c with
  | oneOf column values => rw [Conjunct.holds, Conjunct.holds, hvalue]
  | bound column op v => rw [Conjunct.holds, Conjunct.holds, hvalue]

/-- Without the dimension, the test that the plan has for the column fails. -/
theorem reads_dropDimension (hname : name ∈ misreadColumns) (values : List String) (e : UsageEvent) :
    (Conjunct.oneOf name values).reads (dropDimension name e) = false := by
  have hnone : filterValue name (dropDimension name e) = none := by
    simp only [misreadColumns, mem_cons, not_mem_nil, or_false] at hname
    have hget := get_dropDimension name name e
    rw [if_pos rfl] at hget
    rcases hname with rfl | rfl | rfl <;> exact hget
  rw [Conjunct.reads, QueryFilter.accepts, hnone]

/-- The event at another time. -/
def atTime (t : I64) (e : UsageEvent) : UsageEvent := { e with timestampMs := t }

theorem valid_atTime {t : I64} (h : e.Valid) (hpos : 0 < (t : ℤ)) : (atTime t e).Valid := by
  rw [valid_iff] at h ⊢
  obtain ⟨hid, hacc, hprod, hmeter, -, hdims, href⟩ := h
  exact ⟨hid, hacc, hprod, hmeter, hpos, hdims, href⟩

theorem reads_atTime (column : String) (values : List String) (t : I64) (e : UsageEvent) :
    (Conjunct.oneOf column values).reads (atTime t e) = (Conjunct.oneOf column values).reads e := rfl

/-- If the plan tests what is meant, and some event passes, the conjuncts are none that the plan
misreads. -/
theorem readsRight_of_iff
    (hbounds : ∀ column op v, .bound column op v ∈ cs → column = "timestamp_ms" ∨
      column = "hour_start_ms")
    (hiff : ∀ e : UsageEvent, e.Valid → (e.timestampMs : ℤ) < 2 ^ 63 - 1 →
      ((∀ c ∈ Conjunct.kept cs, c.reads e = true) ↔ ∀ c ∈ cs, c.holds e = true)) (hvalid : e.Valid)
    (hlt : (e.timestampMs : ℤ) < 2 ^ 63 - 1) (hholds : ∀ c ∈ cs, c.holds e = true) : ReadsRight cs := by
  have hcolumns : ∀ column values, .oneOf column values ∈ cs → column ∉ misreadColumns := by
    -- the same event without the dimension is told apart
    intro column values hmem hcolumn
    have hreads := (hiff (dropDimension column e) (valid_dropDimension hvalid) hlt).2 fun c hc => by
      rw [holds_dropDimension hcolumn]
      exact hholds c hc
    have hkept : Conjunct.oneOf column values ∈ Conjunct.kept cs := by
      refine (mem_kept_or _ hmem).resolve_right fun h => ?_
      obtain ⟨a, heq⟩ := exists_of_setsAccount h.1
      cases heq
      exact absurd hcolumn (by decide)
    have htrue := hreads _ hkept
    rw [reads_dropDimension hcolumn] at htrue
    cases htrue
  have haccounts : ∀ a b, .oneOf "account_id" [a] ∈ cs → .oneOf "account_id" [b] ∈ cs → a = b := by
    have hvalue : columnValue "account_id" e = some (.text e.accountId) := rfl
    have haccount : ∀ a, .oneOf "account_id" [a] ∈ cs → e.accountId = a := fun a hmem => by
      simpa [Conjunct.holds, hvalue, ColumnValue.equals] using hholds _ hmem
    exact fun a b ha hb => (haccount a ha).symm.trans (haccount b hb)
  refine ⟨hcolumns, haccounts,
    timeRange_eq ((holds_iff_timeRange hvalid.timestamp_pos hlt).1 fun column op v hmem => ?_)
    fun t hpos hend => ?_⟩
  · rw [← holds_bound (hbounds column op v hmem)]
    exact hholds _ hmem
  -- the same event at the time `t`
  have ht : InRange 63 t := ⟨by omega, by omega⟩
  have hboth := hiff (atTime ⟨t, ht⟩ e) (valid_atTime hvalid hpos) hend
  rw [forall_kept haccounts, forall_conjunct, forall_conjunct] at hboth
  have hones : ∀ column values, .oneOf column values ∈ cs →
      (Conjunct.oneOf column values).reads (atTime ⟨t, ht⟩ e) = true := by
    intro column values hmem
    rw [reads_atTime, ← holds_oneOf (hcolumns column values hmem)]
    exact hholds _ hmem
  have hones' : ∀ column values, .oneOf column values ∈ cs →
      (Conjunct.oneOf column values).holds (atTime ⟨t, ht⟩ e) = true := by
    intro column values hmem
    rw [holds_oneOf (hcolumns column values hmem)]
    exact hones column values hmem
  rw [and_iff_right hones, and_iff_right hones'] at hboth
  rw [← holds_iff_timeRange hpos hend, ← reads_iff_timeRange hpos hend]
  refine Iff.trans (forall₄_congr fun column op v hmem => ?_) hboth.symm
  rw [holds_bound (hbounds column op v hmem)]
  rfl

/-- Nothing is put before the bounds of a statement without conjuncts. -/
theorem matchesPlan_foldl_start (cs : List Conjunct) (source : QuerySource) (groupBy : List String)
    (metrics : AList fun _ : String => AggregationFunction) (hlt : (e.timestampMs : ℤ) < 2 ^ 63 - 1) :
    matchesPlan (cs.foldl Conjunct.apply (startPlan source groupBy metrics)) e = true ↔
      ∀ c ∈ Conjunct.kept cs, c.reads e = true := by
  have hstart : matchesPlan (startPlan source groupBy metrics) e = true := by
    rw [matchesPlan_iff]
    exact ⟨⟨e.timestampMs.2.1, hlt⟩,
      fun a h => absurd h (Option.not_mem_none a), fun f h => absurd h not_mem_nil⟩
  rw [matchesPlan_foldl cs _ hlt, and_iff_right]
  split
  · exact hstart
  · exact hstart

/-- The end of the range only comes down. -/
theorem toMs_foldl_le (cs : List Conjunct) (plan : QueryPlan) :
    (cs.foldl Conjunct.apply plan).toMs ≤ plan.toMs := by
  induction cs generalizing plan with
  | nil => exact le_rfl
  | cons c cs ih =>
    refine (ih _).trans ?_
    cases c with
    | oneOf column values =>
      rcases applyField_cases column values with ⟨a, rfl, rfl⟩ | ⟨-, happly⟩
      · exact le_rfl
      · rw [Conjunct.apply, happly]
    | bound column op v =>
      cases op with
      | gt => exact le_rfl
      | gtEq => exact le_rfl
      | lt => exact min_le_left _ _
      | ltEq => exact min_le_left _ _

/-- The plan of an accepted clause that it does not misread tests what the clause means. -/
theorem Accepted.matchesPlan_iff {source : QuerySource} {groupBy : List String}
    {metrics : AList fun _ : String => AggregationFunction}
    (h : Accepted w (startPlan source groupBy metrics) plan)
    (hcond : ReadsRight w.conjuncts ∨ Contradictory w.conjuncts) (hvalid : e.Valid)
    (hlt : (e.timestampMs : ℤ) < 2 ^ 63 - 1) : matchesPlan plan e = true ↔ w.holds e = true := by
  rw [h.plan_eq, matchesPlan_foldl_start w.conjuncts source groupBy metrics hlt,
    h.holds_eq e, all_eq_true]
  rcases hcond with hright | hnone
  · exact (hright.holds_iff h.column_of_bound hvalid.timestamp_pos hlt).symm
  · obtain ⟨hmeant, hread⟩ := hnone e hvalid hlt
    exact iff_of_false hread hmeant

/-- **Where a `WHERE` clause keeps its meaning**: on the events before the last `i64` the plan
tests what the clause means if and only if the clause has no conjunct that the plan misreads, or
is contradictory anyway; for a clause that is true of some event, if and only if it has no such
conjunct. An event at the last `i64` never passes. -/
theorem where_keeps_meaning (L : SqlLibs) {source : QuerySource} {groupBy : List String}
    {metrics : AList fun _ : String => AggregationFunction}
    (h : extractFilters L w (startPlan source groupBy metrics) = .ok plan) :
    ((∀ e : UsageEvent, e.Valid → (e.timestampMs : ℤ) < 2 ^ 63 - 1 → (matchesPlan plan e = true ↔
      w.holds e = true)) ↔ ReadsRight w.conjuncts ∨ Contradictory w.conjuncts) ∧
    ((∃ e : UsageEvent, e.Valid ∧ (e.timestampMs : ℤ) < 2 ^ 63 - 1 ∧ w.holds e = true) →
      ((∀ e : UsageEvent, e.Valid → (e.timestampMs : ℤ) < 2 ^ 63 - 1 → (matchesPlan plan e = true ↔
        w.holds e = true)) ↔ ReadsRight w.conjuncts)) ∧
    ∀ e : UsageEvent, (e.timestampMs : ℤ) = 2 ^ 63 - 1 →
      ((matchesPlan plan e = true ↔ w.holds e = true) ↔ w.holds e = false) := by
  have hacc := accepted_of_extractFilters h
  have hholds := hacc.holds_eq
  have hbounds := hacc.column_of_bound
  obtain rfl := hacc.plan_eq
  have hmeans (e : UsageEvent) : w.holds e = true ↔ ∀ c ∈ w.conjuncts, c.holds e = true := by
    rw [hholds e, all_eq_true]
  have htests (e : UsageEvent) (hlt : (e.timestampMs : ℤ) < 2 ^ 63 - 1) :=
    matchesPlan_foldl_start w.conjuncts source groupBy metrics hlt
  have hright (hiff : ∀ e : UsageEvent, e.Valid → (e.timestampMs : ℤ) < 2 ^ 63 - 1 →
        (matchesPlan (w.conjuncts.foldl Conjunct.apply (startPlan source groupBy metrics)) e =
          true ↔ w.holds e = true))
      (hsome : ∃ e : UsageEvent, e.Valid ∧ (e.timestampMs : ℤ) < 2 ^ 63 - 1 ∧ w.holds e = true) :
      ReadsRight w.conjuncts := by
    obtain ⟨e, hvalid, hlt, he⟩ := hsome
    refine readsRight_of_iff hbounds (fun e hvalid hlt => ?_) hvalid hlt ((hmeans e).1 he)
    rw [← htests e hlt, ← hmeans e]
    exact hiff e hvalid hlt
  refine ⟨⟨fun hiff => ?_, fun hcond e hvalid hlt =>
      hacc.matchesPlan_iff hcond hvalid hlt⟩, fun hsome =>
    ⟨fun hiff => hright hiff hsome, fun hcond e hvalid hlt =>
      hacc.matchesPlan_iff (Or.inl hcond) hvalid hlt⟩, ?_⟩
  · by_cases hsome : ∃ e : UsageEvent, e.Valid ∧ (e.timestampMs : ℤ) < 2 ^ 63 - 1 ∧ w.holds e = true
    · exact Or.inl (hright hiff hsome)
    · refine Or.inr fun e hvalid hlt => ?_
      have hno : ¬ w.holds e = true := fun he => hsome ⟨e, hvalid, hlt, he⟩
      rw [← hmeans e, ← htests e hlt, hiff e hvalid hlt]
      exact ⟨hno, hno⟩
  · intro e hlast
    have hfalse :
        ¬ matchesPlan (w.conjuncts.foldl Conjunct.apply (startPlan source groupBy metrics)) e =
            true := by
      rw [matchesPlan_iff]
      rintro ⟨⟨-, hbefore⟩, -⟩
      have hend := Subtype.coe_lt_coe.2 (hbefore.trans_le (toMs_foldl_le _ _))
      rw [hlast] at hend
      exact lt_irrefl _ hend
    rw [iff_false_left hfalse, Bool.not_eq_true]

/-! ### Clauses that are read right, and clauses that are not -/

/-- Libraries to run the translation with. -/
def SqlLibs.sample : SqlLibs where
  parse := fun _ => .ok []
  display := fun _ => ""
  toUppercase := String.toUpper

/-- A comparison of a column with a number. -/
def Expr.compare (column : String) (op : BinaryOperator) (n : String) : Expr :=
  .binaryOp (.identifier column) op (.value (.number n false))

/-- `column = 'text'`. -/
def Expr.equal (column text : String) : Expr :=
  .binaryOp (.identifier column) .eq (.value (.singleQuotedString text))

/-- `account_id = 'acme' AND hour_start_ms >= 7200000 AND timestamp_ms < 9000000`. -/
def sampleWhere : Expr :=
  .binaryOp
    (.binaryOp (.equal "account_id" "acme") .and (.compare "hour_start_ms" .gtEq "7200000")) .and
    (.compare "timestamp_ms" .lt "9000000")

theorem where_keeps_meaning_of_whole_hour :
    ∃ plan, extractFilters .sample sampleWhere (startPlan .rawEvents [] ∅) = .ok plan ∧
      ∀ e : UsageEvent, e.Valid → (e.timestampMs : ℤ) < 2 ^ 63 - 1 →
        (matchesPlan plan e = true ↔ sampleWhere.holds e = true) := by
  refine ⟨_, rfl, (where_keeps_meaning .sample rfl).1.2 (Or.inl ?_)⟩
  have hconj : sampleWhere.conjuncts = [.oneOf "account_id" ["acme"],
      .bound "hour_start_ms" .gtEq ⟨7200000, by decide⟩, .bound "timestamp_ms" .lt ⟨9000000,
        by decide⟩] := by decide +kernel
  rw [hconj]
  refine ⟨fun column values h => ?_, fun a b ha hb => ?_, by decide⟩
  · simp only [mem_cons, Conjunct.oneOf.injEq, reduceCtorEq, not_mem_nil, or_false] at h
    rw [h.1]
    decide
  · simp only [mem_cons, Conjunct.oneOf.injEq, reduceCtorEq, not_mem_nil, or_false, true_and] at ha hb
    exact (List.cons.inj (ha.trans hb.symm)).1

/-- What the plan says of an event, and what the clause means. -/
def readAndMeant (w : Expr) (e : UsageEvent) : Option (Bool × Bool) :=
  (extractFilters .sample w (startPlan .rawEvents [] ∅)).toOption.map
    fun plan => (matchesPlan plan e, w.holds e)

/-- The four ways in which a clause is misread: an equality for the event id is a test of a
dimension; of two accounts the last one counts; an hour that has begun is not at the hour's
start; and the last `i64` is past every plan's end. -/
theorem where_misreads_clauses :
    let e := sampleEvent "a" "acme" 7200001 5
    e.Valid ∧ readAndMeant (.equal "event_id" "a") e = some (false, true) ∧
      readAndMeant (.binaryOp (.equal "account_id" "bolt") .and (.equal "account_id" "acme")) e =
        some (true, false) ∧
      readAndMeant (.compare "hour_start_ms" .ltEq "7200000") e = some (false, true) ∧
      (sampleEvent "a" "acme" (2 ^ 63 - 1) 5).Valid ∧
      readAndMeant (.equal "account_id" "acme") (sampleEvent "a" "acme" (2 ^ 63 - 1) 5) =
          some (false, true) := by
  decide +kernel

end UsageDb.Sql
