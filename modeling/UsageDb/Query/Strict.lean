import UsageDb.Query.Where

/-!
# What the front end accepts

The grammar in the header of `sql.rs` as a predicate on the tree (`Documented`): the parts that
`parse_sql` looks at are what the grammar says (`Inspected`), and every other part is absent
(`Bare`). `parse_sql` accepts a statement if and only if its inspected parts are right
(`planStatement_iff`), so the rest is dropped without a word: `FILTER`, `OVER`, `WITHIN GROUP`,
parameters and the like of a call, `TOP`, `PREWHERE`, `INTO` and more of a `SELECT`, `FETCH` and
more of a query, a sample and more of a table.

A `SELECT` has the meaning of SQL (`answer`): of the rows for which the `WHERE` clause is true, the
groups of the `GROUP BY` clause, and of each group the columns and aggregates of the projection. The
front end has one list for the columns of both. If nothing is dropped, the clause is one that the
plan reads right and the two name the same columns, the plan determines that meaning.
-/

namespace UsageDb.Sql

open Lib List

variable {s : Select} {plan : QueryPlan} {stmt : Statement}

/-! ### The grammar -/

/-- A conjunction of equalities and ranges. -/
def Expr.IsConjunction : Expr → Prop
  | .binaryOp left .and right => left.IsConjunction ∧ right.IsConjunction
  | .binaryOp (.identifier _) .eq right => ∃ text, right.literal = some text
  | .binaryOp (.identifier column) .gt right => IsBound column right
  | .binaryOp (.identifier column) .gtEq right => IsBound column right
  | .binaryOp (.identifier column) .lt right => IsBound column right
  | .binaryOp (.identifier column) .ltEq right => IsBound column right
  | .inList (.identifier _) list false => ∀ right ∈ list, ∃ text, right.literal = some text
  | _ => False
where
  /-- A column of times is compared with an integer. -/
  IsBound (column : String) (right : Expr) : Prop :=
    (column = "timestamp_ms" ∨ column = "hour_start_ms") ∧
      ∃ text v, right.literal = some text ∧ parseSigned 63 text = .ok v

/-- The column that an item of a projection is. -/
def SelectItem.column : SelectItem → Option String
  | .unnamedExpr (.identifier ident) => some ident
  | .unnamedExpr (.compoundIdentifier [part]) => some part
  | _ => none

/-- The name that a metric has in a plan. -/
def metricName : AggregationFunction → String
  | .sum => "quantity"
  | .count => "count"

section

variable (L : SqlLibs)

/-- `SUM(quantity)` and `COUNT(*)`, by the name and the arguments of a call. -/
def aggregateOf (func : Function Expr) : Option AggregationFunction :=
  match func.args with
  | .list none [.unnamed (.expr (.identifier "quantity"))] [] =>
    if L.toUppercase func.name = "SUM" then some .sum else none
  | .list none [.unnamed .wildcard] [] => if L.toUppercase func.name =
      "COUNT" then some .count else none
  | _ => none

/-- Whether an item of a projection is one of the grammar: a column, or one of the two calls. -/
def SelectItem.Ok (item : SelectItem) : Prop :=
  (∃ column, item.column = some column) ∨
    ∃ func metric, item = .unnamedExpr (.function func) ∧ aggregateOf L func = some metric

/-- The source that a table's name stands for. -/
def sourceNamed (name : String) : Option QuerySource :=
  match name with
  | "usage_events" => some .rawEvents
  | "usage_rollup_hourly" => some .rollupHourly
  | _ => none

/-- The parts of a query that are looked at are as in the grammar, but for `LIMIT`. -/
structure Inspected (q : Query) (s : Select) : Prop where
  /-- There are no expressions to order by. -/
  orderBy : ∀ o ∈ q.orderBy, ∃ interpolate, o = .expressions [] interpolate
  ctes : q.ctes = none
  body : q.body = .select s
  distinct : s.distinct = none
  namedWindow : s.namedWindow = []
  having : s.having = none
  qualify : s.qualify = none
  clusterBy : s.clusterBy = []
  distributeBy : s.distributeBy = []
  sortBy : s.sortBy = []
  /-- One of the two tables, by its name alone. -/
  table : ∃ t source, s.tables = [⟨.table t, []⟩] ∧ t.tableAlias = none ∧ t.args = none ∧
    t.version = none ∧ sourceNamed t.name = some source
  /-- Columns, `SUM(quantity)` and `COUNT(*)`. -/
  projection : ∀ item ∈ s.projection, item.Ok L
  groupBy : ∃ columns : List String, s.groupBy = .expressions (columns.map .identifier) []
  selection : ∀ w ∈ s.selection, w.IsConjunction

end

/-- A call without the parts that are not looked at. -/
structure Function.Bare (func : Function Expr) : Prop where
  usesOdbcSyntax : func.usesOdbcSyntax = false
  parameters : func.parameters = .none
  filter : func.filter = none
  nullTreatment : func.nullTreatment = none
  overClause : func.overClause = none
  withinGroup : func.withinGroup = []

/-- A table without the parts that are not looked at. -/
structure Table.Bare (t : Table) : Prop where
  withHints : t.withHints = []
  withOrdinality : t.withOrdinality = false
  partitions : t.partitions = []
  jsonPath : t.jsonPath = none
  sample : t.sample = none
  indexHints : t.indexHints = []

/-- A query without the parts that are not looked at. -/
structure Bare (q : Query) (s : Select) : Prop where
  orderBy : q.orderBy = none
  fetch : q.fetch = none
  locks : q.locks = []
  forClause : q.forClause = none
  settings : q.settings = none
  formatClause : q.formatClause = none
  pipeOperators : q.pipeOperators = []
  top : s.top = none
  exclude : s.exclude = none
  into : s.into = none
  lateralViews : s.lateralViews = []
  prewhere : s.prewhere = none
  connectBy : s.connectBy = []
  valueTableMode : s.valueTableMode = none
  flavor : s.flavor = .standard
  table : ∀ source ∈ s.tables, ∀ t, source.relation = .table t → t.Bare
  calls : ∀ func, .unnamedExpr (.function func) ∈ s.projection → func.Bare

/-- A statement of the grammar. -/
def Documented (L : SqlLibs) (stmt : Statement) : Prop := ∃ q s, stmt = .query q ∧
    Inspected L q s ∧ Bare q s

/-- The aggregate that an item of a projection is, with its `FILTER`. -/
def SelectItem.aggregate (L : SqlLibs) : SelectItem → Option (AggregationFunction × Option Expr)
  | .unnamedExpr (.function func) => (aggregateOf L func).map (·, func.filter)
  | _ => none

/-! ### What is accepted -/

section

variable {L : SqlLibs}

theorem extractLiteral_iff {w : Expr} {text : String} : extractLiteral L w = .ok text ↔
    w.literal = some text := by
  refine ⟨literal_of_extractLiteral, fun h => ?_⟩
  unfold Expr.literal at h
  split at h <;> cases h <;> rfl

theorem selectOf_iff {q : Query} :
    selectOf q = .ok s ↔
      (∀ o ∈ q.orderBy, ∃ interpolate, o = .expressions [] interpolate) ∧ q.ctes = none ∧
      q.body = .select s := by
  obtain ⟨ctes, body, orderBy, limitClause, fetch, locks, forClause, settings, formatClause,
    pipeOperators⟩ := q
  cases orderBy with
  | none => cases body <;> simp [selectOf, except_bind_eq_ok, reject_eq_ok]
  | some o =>
    cases o with
    | all options interpolate => simp [selectOf, except_bind_eq_ok]
    | expressions exprs interpolate => cases body <;> simp [selectOf, except_bind_eq_ok, reject_eq_ok]

theorem checkClauses_iff :
    checkClauses s = .ok () ↔ s.distinct = none ∧ s.namedWindow = [] ∧ s.having = none ∧
      s.qualify = none ∧ s.clusterBy = [] ∧ s.distributeBy = [] ∧ s.sortBy = [] := by
  simp only [checkClauses, except_bind_eq_ok, reject_eq_ok]
  simp [and_assoc]

theorem sourceOf_iff {source : QuerySource} :
    sourceOf s = .ok source ↔ ∃ t, s.tables = [⟨.table t, []⟩] ∧ t.tableAlias = none ∧
      t.args = none ∧ t.version = none ∧ sourceNamed t.name = some source := by
  unfold sourceOf
  split
  next source' htables =>
    obtain ⟨relation, joins⟩ := source'
    rw [htables, except_bind_eq_ok]
    cases relation with
    | other text => simp
    | table t =>
      simp only [except_bind_eq_ok, reject_eq_ok, Bool.not_eq_false', List.isEmpty_iff,
        Option.isSome_eq_false_iff, Option.isNone_iff_eq_none]
      constructor
      · rintro ⟨_, hjoins, _, halias, _, hargs, _, hversion, hok⟩
        refine ⟨t, by rw [hjoins], halias, hargs, hversion, ?_⟩
        unfold sourceNamed
        split at hok <;> simp_all
      · rintro ⟨t', heq, halias, hargs, hversion, hok⟩
        cases heq
        refine ⟨(), rfl, (), halias, (), hargs, (), hversion, ?_⟩
        unfold sourceNamed at hok
        split at hok <;> simp_all
  next hno =>
    constructor
    · intro h
      cases h
    · rintro ⟨t, htables, -⟩
      exact absurd htables (hno _)

/-- `parse_aggregate` accepts `SUM(quantity)` and `COUNT(*)`. -/
theorem parseAggregate_iff {func : Function Expr} {r : String × AggregationFunction} :
    parseAggregate L func = .ok r ↔ ∃ metric, aggregateOf L func = some metric ∧
      r = (metricName metric, metric) := by
  constructor
  · intro h
    unfold parseAggregate at h
    split at h
    next dt args clauses hargs =>
      simp only [except_bind_eq_ok, reject_eq_ok] at h
      obtain ⟨_, hdt, _, hcl, h⟩ := h
      rw [Option.isSome_eq_false_iff, Option.isNone_iff_eq_none] at hdt
      rw [Bool.not_eq_false', List.isEmpty_iff] at hcl
      subst hdt hcl
      split at h
      next hsum =>
        split at h
        next arg =>
          obtain ⟨e, he, hcolumn⟩ := except_bind_eq_ok.1 h
          unfold functionArgExpr at he
          split at he
          next =>
            cases he
            split at hcolumn
            next =>
              cases hcolumn
              exact ⟨.sum, by rw [aggregateOf, hargs]; exact if_pos hsum, rfl⟩
            next => cases hcolumn
          all_goals cases he
        next => cases h
      next hcount =>
        split at h
        next =>
          cases h
          exact ⟨.count, by rw [aggregateOf, hargs]; exact if_pos hcount, rfl⟩
        next => cases h
        next => cases h
      next => cases h
    next => cases h
  · rintro ⟨metric, h, rfl⟩
    unfold aggregateOf at h
    unfold parseAggregate
    split at h
    next hargs =>
      split at h
      next hsum =>
        cases h
        simp only [hargs, hsum]
        rfl
      next => cases h
    next hargs =>
      split at h
      next hcount =>
        cases h
        simp only [hargs, hcount]
        rfl
      next => cases h
    next => cases h

/-- One item of a projection. -/
theorem projectItem_iff {p p' : Projected} {item : SelectItem} :
    projectItem L p item = .ok p' ↔
      (∃ column, item.column = some column ∧ p' = { p with groupBy := p.groupBy ++ [column] }) ∨
      ∃ func metric, item = .unnamedExpr (.function func) ∧ aggregateOf L func = some metric ∧
        p' = { p with metrics := p.metrics.insert (metricName metric) metric } := by
  constructor
  · intro h
    unfold projectItem at h
    split at h
    next ident =>
      cases h
      exact .inl ⟨ident, rfl, rfl⟩
    next part =>
      cases h
      exact .inl ⟨part, rfl, rfl⟩
    next func =>
      obtain ⟨r, hr, h⟩ := except_bind_eq_ok.1 h
      obtain ⟨metric, hmetric, rfl⟩ := parseAggregate_iff.1 hr
      cases h
      exact .inr ⟨func, metric, rfl, hmetric, rfl⟩
    all_goals cases h
  · rintro (⟨column, hcolumn, rfl⟩ | ⟨func, metric, rfl, hmetric, rfl⟩)
    · unfold SelectItem.column at hcolumn
      split at hcolumn <;> cases hcolumn <;> rfl
    · rw [projectItem, parseAggregate_iff.2 ⟨metric, hmetric, rfl⟩]
      rfl

theorem aggregate_of_column {item : SelectItem} {column : String} (h : item.column = some column) :
    item.aggregate L = none := by
  unfold SelectItem.column at h
  split at h <;> cases h <;> rfl

theorem metricName_injective : Function.Injective metricName := by
  rintro (_ | _) (_ | _) h
  · rfl
  · exact absurd h (by decide)
  · exact absurd h (by decide)
  · rfl

/-- A projection is accepted if each of its items is, and gives its columns and its metrics. -/
theorem foldlM_projectItem {items : List SelectItem} {p p' : Projected}
    (h : items.foldlM (projectItem L) p = .ok p') :
    (∀ item ∈ items, item.Ok L) ∧ p'.groupBy = p.groupBy ++ items.filterMap SelectItem.column ∧
      ∀ metric, p'.metrics.lookup (metricName metric) =
        if metric ∈ (items.filterMap (SelectItem.aggregate L)).map Prod.fst then some metric
        else p.metrics.lookup (metricName metric) := by
  induction items generalizing p with
  | nil =>
    cases h
    exact ⟨fun _ h => (nomatch h), (append_nil _).symm, fun _ => rfl⟩
  | cons item rest ih =>
    obtain ⟨q, hq, hrest⟩ := except_bind_eq_ok.1 ((foldlM_cons ..).symm.trans h)
    obtain ⟨hok, hcolumns, hmetrics⟩ := ih hrest
    rcases projectItem_iff.1 hq with ⟨column, hcolumn, rfl⟩ | ⟨func, metric, rfl, hmetric, rfl⟩
    · refine ⟨forall_mem_cons.2 ⟨.inl ⟨column, hcolumn⟩, hok⟩, ?_, fun metric => ?_⟩
      · rw [hcolumns, filterMap_cons_some hcolumn, append_assoc, singleton_append]
      · rw [hmetrics, filterMap_cons_none (aggregate_of_column hcolumn)]
    · refine ⟨forall_mem_cons.2 ⟨.inr ⟨func, metric, rfl, hmetric⟩, hok⟩, hcolumns, fun metric' => ?_⟩
      have hagg : SelectItem.aggregate L (.unnamedExpr (.function func)) =
          some (metric, func.filter) := by
        rw [SelectItem.aggregate, hmetric, Option.map_some]
      rw [hmetrics, filterMap_cons_some hagg, map_cons]
      by_cases heq : metric' = metric
      · subst heq
        rw [AList.lookup_insert, ite_self, if_pos mem_cons_self]
      · rw [AList.lookup_insert_ne fun hname => heq (metricName_injective hname)]
        simp only [mem_cons, heq, false_or]

theorem exists_foldlM_projectItem {items : List SelectItem} (h : ∀ item ∈ items, item.Ok L)
    (p : Projected) :
    ∃ p', items.foldlM (projectItem L) p = .ok p' := by
  induction items generalizing p with
  | nil => exact ⟨p, rfl⟩
  | cons item rest ih =>
    obtain ⟨hitem, hrest⟩ := forall_mem_cons.1 h
    obtain ⟨q, hq⟩ : ∃ q, projectItem L p item = .ok q := by
      rcases hitem with ⟨column, hcolumn⟩ | ⟨func, metric, rfl, hmetric⟩
      · exact ⟨_, projectItem_iff.2 (.inl ⟨column, hcolumn, rfl⟩)⟩
      · exact ⟨_, projectItem_iff.2 (.inr ⟨func, metric, rfl, hmetric, rfl⟩)⟩
    obtain ⟨p', hp'⟩ := ih hrest q
    exact ⟨p', by rw [foldlM_cons]; exact except_bind_eq_ok.2 ⟨q, hq, hp'⟩⟩

/-- The columns of a projection and then those of the `GROUP BY` clause that are not among them. -/
def addColumns (columns more : List String) : List String :=
  more.foldl (fun cs c => if c ∈ cs then cs else cs ++ [c]) columns

theorem groupColumns_iff {columns columns' : List String} {g : GroupByExpr} :
    groupColumns L columns g = .ok columns' ↔
      ∃ more : List String, g = .expressions (more.map .identifier) [] ∧
      columns' = addColumns columns more := by
  cases g with
  | all modifiers => exact ⟨fun h => (nomatch h), fun ⟨_, h, _⟩ => (nomatch h)⟩
  | expressions exprs modifiers =>
    rw [groupColumns, except_bind_eq_ok]
    constructor
    · rintro ⟨_, hmod, h⟩
      rw [reject_eq_ok, Bool.not_eq_false', List.isEmpty_iff] at hmod
      subst hmod
      induction exprs generalizing columns with
      | nil =>
        cases h
        exact ⟨[], rfl, rfl⟩
      | cons e es ih =>
        obtain ⟨mid, hmid, hrest⟩ := except_bind_eq_ok.1 ((foldlM_cons ..).symm.trans h)
        unfold groupItem at hmid
        split at hmid
        next ident =>
          cases hmid
          obtain ⟨more, heq, rfl⟩ := ih hrest
          cases heq
          exact ⟨ident :: more, rfl, rfl⟩
        next => cases hmid
    · rintro ⟨more, heq, rfl⟩
      cases heq
      refine ⟨(), rfl, ?_⟩
      induction more generalizing columns with
      | nil => rfl
      | cons c cs ih => exact ih

theorem exists_applyRange {column : String} {right : Expr}
    (h : Expr.IsConjunction.IsBound column right) (op : RangeOp)
    (plan : QueryPlan) : ∃ plan', applyRange L (.identifier column) op right plan = .ok plan' := by
  obtain ⟨hcolumn, text, v, hlit, hv⟩ := h
  refine ⟨op.tighten v plan, ?_⟩
  rw [applyRange, except_bind_eq_ok]
  refine ⟨(), reject_eq_ok.2 ?_, except_bind_eq_ok.2 ⟨text, extractLiteral_iff.2 hlit, by rw [hv]⟩⟩
  rcases hcolumn with rfl | rfl <;> rfl

theorem exists_mapM_extractLiteral {list : List Expr} (h : ∀ w ∈ list, ∃ text, w.literal = some text) :
    ∃ values, list.mapM (extractLiteral L) = .ok values := by
  induction list with
  | nil => exact ⟨[], rfl⟩
  | cons w ws ih =>
    obtain ⟨⟨text, htext⟩, hrest⟩ := forall_mem_cons.1 h
    obtain ⟨values, hvalues⟩ := ih hrest
    refine ⟨text :: values, ?_⟩
    rw [mapM_cons, extractLiteral_iff.2 htext, hvalues]
    rfl

/-- A conjunction of equalities and ranges is accepted. -/
theorem exists_extractFilters {w : Expr} (h : w.IsConjunction) (plan : QueryPlan) :
    ∃ plan', extractFilters L w plan = .ok plan' := by
  fun_induction Expr.IsConjunction w generalizing plan with
  | case1 left right ihleft ihright =>
    obtain ⟨mid, hmid⟩ := ihleft h.1 plan
    obtain ⟨plan', hplan'⟩ := ihright h.2 mid
    exact ⟨plan', except_bind_eq_ok.2 ⟨mid, hmid, hplan'⟩⟩
  | case2 column right =>
    obtain ⟨text, htext⟩ := h
    exact ⟨_, except_bind_eq_ok.2 ⟨text, extractLiteral_iff.2 htext, rfl⟩⟩
  | case3 column right => exact exists_applyRange h _ plan
  | case4 column right => exact exists_applyRange h _ plan
  | case5 column right => exact exists_applyRange h _ plan
  | case6 column right => exact exists_applyRange h _ plan
  | case7 column list =>
    obtain ⟨values, hvalues⟩ := exists_mapM_extractLiteral h
    exact ⟨_, except_bind_eq_ok.2 ⟨values, hvalues, rfl⟩⟩
  | case8 => exact h.elim

theorem exists_literal_of_mapM {list : List Expr} {values : List String}
    (h : list.mapM (extractLiteral L) = .ok values) :
    ∀ w ∈ list, ∃ text, w.literal = some text := by
  induction list generalizing values with
  | nil => exact fun _ hw => (nomatch hw)
  | cons w ws ih =>
    rw [mapM_cons] at h
    obtain ⟨text, hw, h⟩ := except_bind_eq_ok.1 h
    obtain ⟨texts, hws, -⟩ := except_bind_eq_ok.1 h
    exact forall_mem_cons.2 ⟨⟨text, literal_of_extractLiteral hw⟩, ih hws⟩

/-- Nothing else is. -/
theorem isConjunction_of_extractFilters {w : Expr} {plan' : QueryPlan}
    (h : extractFilters L w plan = .ok plan') :
    w.IsConjunction := by
  fun_induction extractFilters L w plan generalizing plan' with
  | case1 left right plan ihleft ihright =>
    obtain ⟨mid, hleft, h⟩ := except_bind_eq_ok.1 h
    exact ⟨ihleft hleft, ihright _ h⟩
  | case3 left right plan =>
    obtain ⟨column, text, rfl, hlit, -⟩ := applyEq_ok h
    exact ⟨text, hlit⟩
  | case4 left right plan =>
    obtain ⟨column, v, rfl, hcolumn, ⟨text, hlit, hv⟩, -⟩ := applyRange_ok h
    exact ⟨hcolumn, text, v, hlit, hv⟩
  | case5 left right plan =>
    obtain ⟨column, v, rfl, hcolumn, ⟨text, hlit, hv⟩, -⟩ := applyRange_ok h
    exact ⟨hcolumn, text, v, hlit, hv⟩
  | case6 left right plan =>
    obtain ⟨column, v, rfl, hcolumn, ⟨text, hlit, hv⟩, -⟩ := applyRange_ok h
    exact ⟨hcolumn, text, v, hlit, hv⟩
  | case7 left right plan =>
    obtain ⟨column, v, rfl, hcolumn, ⟨text, hlit, hv⟩, -⟩ := applyRange_ok h
    exact ⟨hcolumn, text, v, hlit, hv⟩
  | case9 list plan column =>
    obtain ⟨values, hvalues, -⟩ := except_bind_eq_ok.1 h
    exact exists_literal_of_mapM hvalues
  | _ => cases h

/-- The columns of a `GROUP BY` clause. -/
def GroupByExpr.columns : GroupByExpr → List String
  | .expressions exprs _ => exprs.filterMap fun
    | .identifier ident => some ident
    | _ => none
  | .all _ => []

/-- The columns of the projection. -/
def Select.projected (s : Select) : List String := s.projection.filterMap SelectItem.column

/-- The columns that the plan groups by: those of the projection and those of the `GROUP BY`
clause. -/
def Select.columns (s : Select) : List String := addColumns s.projected s.groupBy.columns

/-- The aggregates of the projection. -/
def Select.aggregates (L : SqlLibs) (s : Select) : List (AggregationFunction × Option Expr) :=
  s.projection.filterMap (SelectItem.aggregate L)

/-- What a plan has of a `SELECT`. -/
structure PlanOf (L : SqlLibs) (s : Select) (plan : QueryPlan) : Prop where
  source : ∃ t, s.tables = [⟨.table t, []⟩] ∧ sourceNamed t.name = some plan.source
  groupBy : plan.groupBy = s.columns
  metrics : ∀ metric, plan.metrics.lookup (metricName metric) =
    if metric ∈ (s.aggregates L).map Prod.fst then some metric else none
  selection : match s.selection with
    | some w => Accepted w (startPlan plan.source plan.groupBy plan.metrics) plan
    | none => plan = startPlan plan.source plan.groupBy plan.metrics

theorem foldl_apply_frame (cs : List Conjunct) (plan : QueryPlan) :
    (cs.foldl Conjunct.apply plan).source = plan.source ∧ (cs.foldl Conjunct.apply plan).groupBy =
      plan.groupBy ∧ (cs.foldl Conjunct.apply plan).metrics = plan.metrics := by
  induction cs generalizing plan with
  | nil => exact ⟨rfl, rfl, rfl⟩
  | cons c cs ih =>
    obtain ⟨hsource, hgroup, hmetrics⟩ := ih (c.apply plan)
    rw [foldl_cons, hsource, hgroup, hmetrics]
    cases c with
    | oneOf column values =>
      rcases applyField_cases column values with ⟨a, rfl, rfl⟩ | ⟨-, happly⟩
      · exact ⟨rfl, rfl, rfl⟩
      · rw [Conjunct.apply, happly]
        exact ⟨rfl, rfl, rfl⟩
    | bound column op v => cases op <;> exact ⟨rfl, rfl, rfl⟩

theorem columns_of_map (columns : List String) :
    GroupByExpr.columns (.expressions (columns.map .identifier) []) = columns := by
  rw [GroupByExpr.columns, filterMap_map]
  exact filterMap_some

/-- A statement that is accepted is right in what is looked at, and its plan is made from that. -/
theorem inspected_of_planStatement (h : planStatement L stmt = .ok plan) :
    ∃ q s, stmt = .query q ∧ Inspected L q s ∧ q.limitClause = none ∧ PlanOf L s plan := by
  unfold planStatement at h
  split at h
  next q =>
    obtain ⟨s, hselect, h⟩ := except_bind_eq_ok.1 h
    obtain ⟨_, hclauses, h⟩ := except_bind_eq_ok.1 h
    obtain ⟨source, hsource, h⟩ := except_bind_eq_ok.1 h
    obtain ⟨projected, hprojected, h⟩ := except_bind_eq_ok.1 h
    obtain ⟨groupBy, hgroup, h⟩ := except_bind_eq_ok.1 h
    obtain ⟨plan', hplan', h⟩ := except_bind_eq_ok.1 h
    obtain ⟨hlimit, rfl⟩ : q.limitClause = none ∧ plan' = plan := by
      split at h
      next => cases h
      next hnone =>
        cases h
        exact ⟨hnone, rfl⟩
    obtain ⟨horder, hctes, hbody⟩ := selectOf_iff.1 hselect
    obtain ⟨hdistinct, hwindow, hhaving, hqualify, hcluster, hdistribute, hsort⟩ :=
      checkClauses_iff.1 hclauses
    obtain ⟨t, htables, halias, hargs, hversion, hname⟩ := sourceOf_iff.1 hsource
    obtain ⟨hitems, hcolumns, hmetrics⟩ := foldlM_projectItem hprojected
    obtain ⟨more, hmore, rfl⟩ := groupColumns_iff.1 hgroup
    have hconj : ∀ w ∈ s.selection, w.IsConjunction := fun w hw => by
      rw [Option.mem_def] at hw
      rw [hw] at hplan'
      exact isConjunction_of_extractFilters hplan'
    refine ⟨q, s, rfl, ⟨horder, hctes, hbody, hdistinct, hwindow, hhaving, hqualify, hcluster,
      hdistribute, hsort,
      ⟨t, source, htables, halias, hargs, hversion, hname⟩, hitems, ⟨more, hmore⟩, hconj⟩, hlimit, ?_⟩
    have hframe : plan'.source = source ∧
        plan'.groupBy = addColumns projected.groupBy more ∧ plan'.metrics = projected.metrics := by
      cases hw : s.selection with
      | none =>
        rw [hw] at hplan'
        cases hplan'
        exact ⟨rfl, rfl, rfl⟩
      | some w =>
        rw [hw] at hplan'
        rw [(accepted_of_extractFilters hplan').plan_eq]
        exact foldl_apply_frame _ _
    obtain ⟨rfl, hgroupBy, hmetrics'⟩ := hframe
    refine ⟨⟨t, htables, hname⟩, ?_, fun metric => ?_, ?_⟩
    · rw [hgroupBy, hcolumns, Select.columns, hmore, columns_of_map]
      rfl
    · rw [hmetrics', hmetrics, AList.lookup_empty]
      rfl
    · rw [hgroupBy, hmetrics']
      cases hw : s.selection with
      | none =>
        rw [hw] at hplan'
        exact (Except.ok.inj hplan').symm
      | some w =>
        rw [hw] at hplan'
        exact accepted_of_extractFilters hplan'
  next => cases h

/-- **What is accepted**: a statement that is right in what is looked at, and has no `LIMIT`. -/
theorem planStatement_iff :
    (∃ plan, planStatement L stmt = .ok plan) ↔ ∃ q s, stmt = .query q ∧ Inspected L q s ∧
      q.limitClause = none := by
  constructor
  · rintro ⟨plan, h⟩
    obtain ⟨q, s, hstmt, hinsp, hlimit, -⟩ := inspected_of_planStatement h
    exact ⟨q, s, hstmt, hinsp, hlimit⟩
  · rintro ⟨q, s, rfl, hinsp, hlimit⟩
    obtain ⟨t, source, htables, halias, hargs, hversion, hname⟩ := hinsp.table
    obtain ⟨more, hmore⟩ := hinsp.groupBy
    obtain ⟨projected, hprojected⟩ := exists_foldlM_projectItem hinsp.projection ⟨[], ∅⟩
    obtain ⟨plan, hplan⟩ :
        ∃ plan, applySelection L (startPlan source (addColumns projected.groupBy more)
        projected.metrics) s.selection = .ok plan := by
      cases hw : s.selection with
      | none => exact ⟨_, rfl⟩
      | some w => exact exists_extractFilters (hinsp.selection w hw) _
    refine ⟨plan, except_bind_eq_ok.2 ⟨s, selectOf_iff.2 ⟨hinsp.orderBy, hinsp.ctes, hinsp.body⟩,
      except_bind_eq_ok.2 ⟨(),
      checkClauses_iff.2 ⟨hinsp.distinct, hinsp.namedWindow, hinsp.having, hinsp.qualify,
        hinsp.clusterBy, hinsp.distributeBy, hinsp.sortBy⟩,
      except_bind_eq_ok.2 ⟨source, sourceOf_iff.2 ⟨t, htables, halias, hargs, hversion, hname⟩,
      except_bind_eq_ok.2 ⟨projected, hprojected, except_bind_eq_ok.2 ⟨_,
        groupColumns_iff.2 ⟨more, hmore, rfl⟩,
      except_bind_eq_ok.2 ⟨plan, hplan, ?_⟩⟩⟩⟩⟩⟩⟩
    rw [hlimit]

end

/-! ### The meaning of a statement -/

/-- A value in a row of an answer, by the name of its column. -/
inductive Cell where
  /-- Of a column of the table. -/
  | column (name value : String)
  /-- Of an aggregate; `none` is `NULL`. -/
  | aggregate (metric : AggregationFunction) (value : Option ℤ)
  deriving DecidableEq

/-- An aggregate of some rows. The sum of no rows is `NULL`. -/
def total (rows : List UsageEvent) : AggregationFunction → Option ℤ
  | .sum => if rows = [] then none else some (rows.map fun e => e.quantity).sum
  | .count => some rows.length

/-- Whether a clause that may be absent is true of an event. -/
def holdsOrAbsent (w : Option Expr) (e : UsageEvent) : Bool := w.all (·.holds e)

section

variable (value : String → UsageEvent → String)

/-- Two rows are of one group: they have the same values in the columns of the `GROUP BY` clause. -/
def sameGroup (groupBy : List String) (e e' : UsageEvent) : Bool :=
  groupBy.all fun c => value c e = value c e'

/-- The groups of some rows. Without a `GROUP BY` clause all rows are one group if there is an
aggregate, also if there are no rows, and every row is a group of its own if there is none. -/
def groupsOf (groupBy : List String) (aggregating : Bool) (rows : List UsageEvent) :
    List (List UsageEvent) :=
  if groupBy = [] then if aggregating then [rows] else rows.map ([·])
  else (rows.pwFilter fun e e' => ¬ sameGroup value groupBy e e').map fun e =>
    rows.filter (sameGroup value groupBy e)

/-- The row of a group: an aggregate with a `FILTER` is over those rows for which that is true. -/
def resultRow (columns : List String) (aggregates : List (AggregationFunction × Option Expr))
    (group : List UsageEvent) : Set Cell :=
  {x | (∃ c ∈ columns, ∃ e ∈ group, x = .column c (value c e)) ∨
    ∃ a ∈ aggregates, x = .aggregate a.1 (total (group.filter (holdsOrAbsent a.2)) a.1)}

/-- The rows that a projection gives, in no order. Where there are groups, a column that they are
not made by has no value. -/
def answerOf (columns groupBy : List String)
    (aggregates : List (AggregationFunction × Option Expr)) (rows : List UsageEvent) :
    Option (Multiset (Set Cell)) :=
  if (groupBy = [] ∧ aggregates = []) ∨ ∀ c ∈ columns, c ∈ groupBy then
    some ((groupsOf value groupBy (!aggregates.isEmpty) rows).map
      (resultRow value columns aggregates))
  else none

/-- The meaning of a `SELECT` in SQL, with `FILTER` in it or not: its answer from the rows of its
table, with the values that the columns of a row have. -/
def Select.answer (L : SqlLibs) (s : Select) (tables : QuerySource → List UsageEvent) :
    Option (Multiset (Set Cell)) :=
  match s.tables with
  | [⟨.table t, []⟩] => (sourceNamed t.name).bind fun source =>
    answerOf value s.projected s.groupBy.columns (s.aggregates L)
      ((tables source).filter (holdsOrAbsent s.selection))
  | _ => none

end

/-- The projection has the columns of the `GROUP BY` clause and no others. -/
def Select.GroupsProjected (s : Select) : Prop := ∀ c, c ∈ s.projected ↔ c ∈ s.groupBy.columns

/-- The same plan, the metrics being a map. -/
structure SamePlan (p q : QueryPlan) : Prop where
  source : p.source = q.source
  accountId : p.accountId = q.accountId
  fromMs : p.fromMs = q.fromMs
  toMs : p.toMs = q.toMs
  filters : p.filters = q.filters
  groupBy : p.groupBy = q.groupBy
  metrics : ∀ name, p.metrics.lookup name = q.metrics.lookup name

section

variable {L : SqlLibs} {value : String → UsageEvent → String}

theorem addColumns_eq_self {columns more : List String} (h : ∀ c ∈ more, c ∈ columns) :
    addColumns columns more = columns := by
  induction more with
  | nil => rfl
  | cons c more ih =>
    rw [forall_mem_cons] at h
    rw [addColumns, foldl_cons, if_pos h.1]
    exact ih h.2

/-- The plan's columns are then those of the projection. -/
theorem Select.GroupsProjected.columns_eq (h : s.GroupsProjected) : s.columns = s.projected :=
  addColumns_eq_self fun c => (h c).2

/-- Aggregates without `FILTER` matter only as a set. -/
theorem resultRow_congr {aggs aggs' : List (AggregationFunction × Option Expr)}
    (hfilter : ∀ a ∈ aggs, a.2 = none) (hfilter' : ∀ a ∈ aggs', a.2 = none)
    (hsame : ∀ m, m ∈ aggs.map Prod.fst ↔ m ∈ aggs'.map Prod.fst) (columns : List String) :
    resultRow value columns aggs = resultRow value columns aggs' := by
  have hvalues (l : List (AggregationFunction × Option Expr)) (hl : ∀ a ∈ l, a.2 = none)
      (group : List UsageEvent) (x : Cell) :
      (∃ a ∈ l, x = .aggregate a.1 (total (group.filter (holdsOrAbsent a.2)) a.1)) ↔
        ∃ m ∈ l.map Prod.fst, x = .aggregate m (total group m) := by
    simp only [mem_map, exists_exists_and_eq_and]
    refine exists_congr fun a => and_congr_right fun ha => ?_
    have hall : group.filter (holdsOrAbsent none) = group := filter_eq_self.2 fun _ _ => rfl
    rw [hl a ha, hall]
  funext group
  ext x
  refine or_congr Iff.rfl ?_
  rw [hvalues aggs hfilter, hvalues aggs' hfilter']
  exact exists_congr fun m => and_congr_left fun _ => hsame m

/-- Two lists with the same members are empty together. -/
theorem eq_nil_congr {α : Type} {l l' : List α} (h : ∀ a, a ∈ l ↔ a ∈ l') : l = [] ↔ l' = [] := by
  rw [eq_nil_iff_forall_not_mem, eq_nil_iff_forall_not_mem]
  exact forall_congr' fun a => not_congr (h a)

/-- The groups depend on the set of the columns. -/
theorem groupsOf_congr {groupBy groupBy' : List String} (h : ∀ c, c ∈ groupBy ↔ c ∈ groupBy') :
    groupsOf value groupBy = groupsOf value groupBy' := by
  have hsame : sameGroup value groupBy = sameGroup value groupBy' := by
    funext e e'
    rw [Bool.eq_iff_iff, sameGroup, sameGroup, all_eq_true, all_eq_true]
    exact forall_congr' fun c => imp_congr_left (h c)
  funext aggregating rows
  simp only [groupsOf, hsame, eq_nil_congr h]

/-- What grouped columns give depends on the sets of the columns and of the aggregates. -/
theorem answerOf_congr {columns groupBy groupBy' : List String}
    (hgroup : ∀ c, c ∈ columns ↔ c ∈ groupBy) (hgroup' : ∀ c, c ∈ columns ↔ c ∈ groupBy')
    {aggs aggs' : List (AggregationFunction × Option Expr)} (hfilter : ∀ a ∈ aggs, a.2 = none)
    (hfilter' : ∀ a ∈ aggs', a.2 = none)
    (hsame : ∀ m, m ∈ aggs.map Prod.fst ↔ m ∈ aggs'.map Prod.fst) (rows : List UsageEvent) :
    answerOf value columns groupBy aggs rows = answerOf value columns groupBy' aggs' rows := by
  have hempty : aggs.isEmpty = aggs'.isEmpty := by
    have hnil := eq_nil_congr hsame
    rwa [List.map_eq_nil_iff, List.map_eq_nil_iff, ← List.isEmpty_iff, ← List.isEmpty_iff,
      ← Bool.eq_iff_iff] at hnil
  rw [answerOf, answerOf, if_pos (.inr fun c => (hgroup c).1),
    if_pos (Or.inr fun c => (hgroup' c).1), hempty, resultRow_congr hfilter hfilter' hsame,
    groupsOf_congr fun c => (hgroup c).symm.trans (hgroup' c)]

/-- The aggregates of a `SELECT` whose calls have nothing but their arguments have no `FILTER`. -/
theorem Bare.filter_eq_none {q : Query} (hbare : Bare q s) : ∀ a ∈ s.aggregates L, a.2 = none := by
  intro a ha
  obtain ⟨item, hitem, hagg⟩ := mem_filterMap.1 ha
  unfold SelectItem.aggregate at hagg
  split at hagg
  next func =>
    obtain ⟨metric, -, rfl⟩ := Option.map_eq_some_iff.1 hagg
    exact (hbare.calls func hitem).filter
  next => cases hagg

/-- The clause of the statement, if it has one, is one that the plan reads right. -/
def Select.ReadRight (s : Select) : Prop := ∀ w ∈ s.selection, ReadsRight w.conjuncts ∨
    Contradictory w.conjuncts

/-- The rows that the clause selects are those that match the plan. -/
theorem PlanOf.holds_iff (h : PlanOf L s plan) (hright : s.ReadRight) {e : UsageEvent}
    (hvalid : e.Valid) (hlt : (e.timestampMs : ℤ) < 2 ^ 63 - 1) :
    holdsOrAbsent s.selection e = true ↔ matchesPlan plan e = true := by
  have hsel := h.selection
  unfold holdsOrAbsent
  cases hw : s.selection with
  | none =>
    rw [hw] at hsel
    rw [hsel]
    exact iff_of_true rfl ((matchesPlan_foldl_start [] _ _ _ hlt).2 fun _ h => (nomatch h))
  | some w =>
    rw [hw] at hsel
    exact (hsel.matchesPlan_iff (hright w hw) hvalid hlt).symm

theorem SamePlan.matchesPlan_eq {p p' : QueryPlan} (h : SamePlan p p') (e : UsageEvent) :
    matchesPlan p e = matchesPlan p' e := by
  rw [matchesPlan, matchesPlan, h.fromMs, h.toMs, h.accountId, h.filters]

/-- **The plan determines the meaning** of statements that have nothing but what is looked at,
whose clause the plan reads right and that project the columns they group by. -/
theorem answer_eq_of_samePlan {q q' : Query} {s' : Select} {p p' : QueryPlan}
    (hp : PlanOf L s p) (hp' : PlanOf L s' p') (hsame : SamePlan p p') (hbare : Bare q s)
    (hbare' : Bare q' s') (hright : s.ReadRight) (hright' : s'.ReadRight)
    (hgroup : s.GroupsProjected) (hgroup' : s'.GroupsProjected)
    {tables : QuerySource → List UsageEvent}
    (htables : ∀ source, ∀ e ∈ tables source, e.Valid ∧ (e.timestampMs : ℤ) < 2 ^ 63 - 1) :
    s.answer value L tables = s'.answer value L tables := by
  obtain ⟨t, ht, hname⟩ := hp.source
  obtain ⟨t', ht', hname'⟩ := hp'.source
  have hrows : (tables p.source).filter (holdsOrAbsent s.selection) =
      (tables p'.source).filter (holdsOrAbsent s'.selection) := by
    rw [← hsame.source]
    refine filter_congr fun e he => ?_
    obtain ⟨hvalid, hlt⟩ := htables _ e he
    rw [Bool.eq_iff_iff, hp.holds_iff hright hvalid hlt, hp'.holds_iff hright' hvalid hlt,
      hsame.matchesPlan_eq]
  have hcolumns : s.projected = s'.projected := by
    rw [← hgroup.columns_eq, ← hgroup'.columns_eq, ← hp.groupBy, ← hp'.groupBy, hsame.groupBy]
  have hmetrics : ∀ m, m ∈ (s.aggregates L).map Prod.fst ↔ m ∈ (s'.aggregates L).map Prod.fst := by
    intro m
    have hlookup := hsame.metrics (metricName m)
    rw [hp.metrics, hp'.metrics] at hlookup
    split_ifs at hlookup <;> tauto
  simp only [Select.answer, ht, ht', hname, hname', Option.bind_some]
  rw [hrows, hcolumns]
  exact answerOf_congr (hcolumns ▸ hgroup) hgroup' hbare.filter_eq_none hbare'.filter_eq_none
    hmetrics _

theorem parseSql_of_parse {sql : String} (hparse : L.parse sql = .ok [stmt]) :
    parseSql L sql = planStatement L stmt := by
  rw [parseSql, hparse]
  rfl

end

/-- **How strict the front end is.** A statement that is accepted is one of the grammar if and only
if it carries none of the parts that are not looked at, or something that is looked at is outside of
the grammar. Two statements that are accepted with the same plan mean the same if they carry none of
those parts, the plan reads their clauses right and they project the columns they group by. -/
theorem accepted_statements_documented (L : SqlLibs) :
    (∀ sql stmt, L.parse sql = .ok [stmt] →
      ((∀ plan, parseSql L sql = .ok plan → Documented L stmt) ↔
        ∀ q s, stmt = .query q → Inspected L q s → q.limitClause = none → Bare q s)) ∧
    ∀ sql sql' q q' s s' p p', L.parse sql = .ok [.query q] → L.parse sql' = .ok [.query q'] →
      q.body = .select s →
      q'.body = .select s' → parseSql L sql = .ok p → parseSql L sql' = .ok p' → SamePlan p p' →
      Bare q s → Bare q' s' →
      s.ReadRight → s'.ReadRight → s.GroupsProjected → s'.GroupsProjected → ∀ value tables,
        (∀ source, ∀ e ∈ tables source, e.Valid ∧ (e.timestampMs : ℤ) < 2 ^ 63 - 1) →
        s.answer value L tables = s'.answer value L tables := by
  constructor
  · intro sql stmt hparse
    rw [parseSql_of_parse hparse]
    constructor
    · rintro hdoc q s rfl hinsp hlimit
      obtain ⟨plan, hplan⟩ := planStatement_iff.2 ⟨q, s, rfl, hinsp, hlimit⟩
      obtain ⟨q', s', heq, hinsp', hbare⟩ := hdoc plan hplan
      cases heq
      have hs := hinsp.body.symm.trans hinsp'.body
      cases hs
      exact hbare
    · intro hbare plan hplan
      obtain ⟨q, s, rfl, hinsp, hlimit, -⟩ := inspected_of_planStatement hplan
      exact ⟨q, s, rfl, hinsp, hbare q s rfl hinsp hlimit⟩
  · intro sql sql' q q' s s' p p' hparse hparse' hbody hbody' hp hp' hsame hbare hbare' hright
      hright' hgroup hgroup' value tables htables
    rw [parseSql_of_parse hparse] at hp
    rw [parseSql_of_parse hparse'] at hp'
    obtain ⟨_, s₁, heq, hinsp, -, hplan⟩ := inspected_of_planStatement hp
    obtain ⟨_, s₁', heq', hinsp', -, hplan'⟩ := inspected_of_planStatement hp'
    cases heq
    cases heq'
    cases hbody.symm.trans hinsp.body
    cases hbody'.symm.trans hinsp'.body
    exact answer_eq_of_samePlan hplan hplan' hsame hbare hbare' hright hright' hgroup hgroup'
      htables

/-! ### A call with a `FILTER` -/

/-- `SUM(quantity)`, with a `FILTER` or without. -/
def sumQuantityCall (filter : Option Expr) : Function Expr where
  name := "SUM"
  usesOdbcSyntax := false
  parameters := .none
  args := .list none [.unnamed (.expr (.identifier "quantity"))] []
  filter := filter
  nullTreatment := none
  overClause := none
  withinGroup := []

/-- `SELECT SUM(quantity) [FILTER (WHERE …)] FROM usage_events`. -/
def sumSelect (filter : Option Expr) : Select where
  distinct := none
  top := none
  projection := [.unnamedExpr (.function (sumQuantityCall filter))]
  exclude := none
  into := none
  tables := [⟨.table ⟨"usage_events", none, none, [], none, false, [], none, none, []⟩, []⟩]
  lateralViews := []
  prewhere := none
  selection := none
  connectBy := []
  groupBy := .expressions [] []
  clusterBy := []
  distributeBy := []
  sortBy := []
  having := none
  namedWindow := []
  qualify := none
  valueTableMode := none
  flavor := .standard

/-- The statement of a `SELECT`. -/
def queryOf (s : Select) : Query := ⟨none, .select s, none, none, none, [], none, none, none, []⟩

/-- `kind = 'Correction'`. -/
def correctionsOnly : Expr := .equal "kind" "Correction"

/-- The text of the statement without a `FILTER`. -/
def sumText : String := "SELECT SUM(quantity) FROM usage_events"

/-- The text of the statement with one. -/
def filterText : String := "SELECT SUM(quantity) FILTER (WHERE kind = 'Correction') FROM usage_events"

/-- A parser for the two statements. -/
def sumLibs : SqlLibs :=
  { SqlLibs.sample with
    parse :=
      fun sql =>
        .ok [.query (queryOf (sumSelect (if sql = sumText then none else some correctionsOnly)))] }

theorem parse_sumText : sumLibs.parse sumText = .ok [.query (queryOf (sumSelect none))] := by
  simp only [sumLibs, if_true]

theorem parse_filterText : sumLibs.parse filterText =
    .ok [.query (queryOf (sumSelect (some correctionsOnly)))] := by
  have hne : filterText ≠ sumText := by decide +kernel
  simp only [sumLibs, if_neg hne]

theorem aggregateOf_sumQuantityCall (filter : Option Expr) :
    aggregateOf sumLibs (sumQuantityCall filter) = some .sum :=
  if_pos (show "SUM".toUpper = "SUM" by decide +kernel)

theorem aggregates_sumSelect (filter : Option Expr) : (sumSelect filter).aggregates sumLibs =
    [(.sum, filter)] := by
  have hitem : SelectItem.aggregate sumLibs (.unnamedExpr (.function (sumQuantityCall filter))) =
      some (.sum, filter) := by
    rw [SelectItem.aggregate, aggregateOf_sumQuantityCall]
    rfl
  exact filterMap_cons_some hitem

theorem inspected_sumSelect (filter : Option Expr) : Inspected sumLibs (queryOf (sumSelect filter))
    (sumSelect filter) where
  orderBy := fun _ h => (nomatch h)
  ctes := rfl
  body := rfl
  distinct := rfl
  namedWindow := rfl
  having := rfl
  qualify := rfl
  clusterBy := rfl
  distributeBy := rfl
  sortBy := rfl
  table := ⟨_, .rawEvents, rfl, rfl, rfl, rfl, rfl⟩
  projection := fun item h => by
    rw [mem_singleton.1 h]
    exact Or.inr ⟨_, .sum, rfl, aggregateOf_sumQuantityCall filter⟩
  groupBy := ⟨[], rfl⟩
  selection := fun _ h => (nomatch h)

theorem bare_sumSelect : Bare (queryOf (sumSelect none)) (sumSelect none) where
  orderBy := rfl
  fetch := rfl
  locks := rfl
  forClause := rfl
  settings := rfl
  formatClause := rfl
  pipeOperators := rfl
  top := rfl
  exclude := rfl
  into := rfl
  lateralViews := rfl
  prewhere := rfl
  connectBy := rfl
  valueTableMode := rfl
  flavor := rfl
  table := fun source h t ht => by
    rw [mem_singleton.1 h] at ht
    cases ht
    exact ⟨rfl, rfl, rfl, rfl, rfl, rfl⟩
  calls := fun func h => by
    cases mem_singleton.1 h
    exact ⟨rfl, rfl, rfl, rfl, rfl, rfl⟩

theorem accepted_statements_documented_of_sum :
    (∃ plan, parseSql sumLibs sumText = .ok plan) ∧ ∀ plan, parseSql sumLibs sumText = .ok plan →
      Documented sumLibs (.query (queryOf (sumSelect none))) := by
  refine ⟨?_, ((accepted_statements_documented sumLibs).1 sumText _ parse_sumText).2
    fun q s hq hinsp _ => ?_⟩
  · rw [parseSql_of_parse parse_sumText]
    exact planStatement_iff.2 ⟨_, _, rfl, inspected_sumSelect none, rfl⟩
  · cases hq
    cases hinsp.body
    exact bare_sumSelect

/-- The `FILTER` of a call is dropped: the statement is accepted with the plan of the one without
it, is not one of the grammar, and means something else. -/
theorem filter_is_dropped :
    ∃ plan, parseSql sumLibs filterText = .ok plan ∧ parseSql sumLibs sumText = .ok plan ∧
      ¬ Documented sumLibs (.query (queryOf (sumSelect (some correctionsOnly)))) ∧
      (sumSelect (some correctionsOnly)).answer groupKeyValue sumLibs
          (fun _ => [sampleEvent "a" "acme" 7200000 5]) ≠
        (sumSelect none).answer groupKeyValue sumLibs
          (fun _ => [sampleEvent "a" "acme" 7200000 5]) := by
  have hplan (filter : Option Expr) : planStatement sumLibs (.query (queryOf (sumSelect filter))) =
      .ok (startPlan .rawEvents []
          ((∅ : AList fun _ : String => AggregationFunction).insert "quantity" .sum)) := by
    have hitem : projectItem sumLibs ⟨[], ∅⟩ (.unnamedExpr (.function (sumQuantityCall filter))) =
        .ok ⟨[], (∅ : AList fun _ : String => AggregationFunction).insert "quantity" .sum⟩ :=
      projectItem_iff.2 (.inr ⟨_, .sum, rfl, aggregateOf_sumQuantityCall filter, rfl⟩)
    exact except_bind_eq_ok.2 ⟨_, rfl, except_bind_eq_ok.2 ⟨(), rfl,
      except_bind_eq_ok.2 ⟨.rawEvents, rfl, except_bind_eq_ok.2 ⟨_,
      except_bind_eq_ok.2 ⟨_, hitem, rfl⟩, except_bind_eq_ok.2 ⟨[], rfl, except_bind_eq_ok.2 ⟨_,
        rfl, rfl⟩⟩⟩⟩⟩⟩
  refine ⟨_, (parseSql_of_parse parse_filterText).trans (hplan _),
    (parseSql_of_parse parse_sumText).trans (hplan _), ?_, ?_⟩
  · rintro ⟨q, s, heq, hinsp, hbare⟩
    cases heq
    cases hinsp.body
    cases (hbare.calls _ mem_cons_self).filter
  · -- the sum without the filter is not in the row with it
    have hanswer (filter : Option Expr) (rows : List UsageEvent) :
        (sumSelect filter).answer groupKeyValue sumLibs (fun _ => rows) =
          some {resultRow groupKeyValue [] [(.sum, filter)] (rows.filter fun _ => true)} := by
      show answerOf groupKeyValue [] [] ((sumSelect filter).aggregates sumLibs) _ = _
      rw [aggregates_sumSelect]
      rfl
    rw [hanswer, hanswer]
    intro heq
    have hrow := Multiset.singleton_inj.1 (Option.some.inj heq)
    have hfive : Cell.aggregate .sum (some 5) ∈
        resultRow groupKeyValue [] [(.sum, none)] [sampleEvent "a" "acme" 7200000 5] :=
      .inr ⟨_, mem_cons_self, rfl⟩
    rcases hrow ▸ hfive with ⟨c, hc, -⟩ | ⟨a, ha, hcell⟩
    · cases hc
    · rw [mem_singleton.1 ha] at hcell
      exact absurd hcell (by decide +kernel)

end UsageDb.Sql
