import UsageDb.Query.Executor
import UsageDb.Lib.Decimal
import UsageDb.Lib.Parse

/-!
# The SQL front end

`src/query/sql.rs`: a statement of a strict subset of SQL is turned into a `QueryPlan`. The
grammar its header gives is

    SELECT [group_cols,...] [SUM(quantity)] [COUNT(*)]
    FROM (usage_events | usage_rollup_hourly)
    [WHERE conjunction-of-equalities-and-ranges]
    [GROUP BY col, col, ...]
    [LIMIT N]

The tree comes from the crate `sqlparser`; its nodes are here with the fields that they have
there, less positions in the text and hints to an optimiser. A node that `sql.rs` only asks for
being there, and one that it does not look at, is kept as its text (`Clause`).
-/

namespace UsageDb.Sql

open Lib

/-! ### The tree -/

/-- A part of a statement by its text. -/
structure Clause where
  text : String
  deriving DecidableEq

/-- `Value`: a literal. -/
inductive SqlValue where
  | singleQuotedString (s : String)
  /-- A number, and whether it was marked as long. -/
  | number (n : String) (long : Bool)
  /-- Any other, with its `Debug` text. -/
  | other (debug : String)
  deriving DecidableEq

/-- `BinaryOperator`. -/
inductive BinaryOperator where
  | and
  | or
  /-- `=`. -/
  | eq
  /-- `>`. -/
  | gt
  /-- `>=`. -/
  | gtEq
  /-- `<`. -/
  | lt
  /-- `<=`. -/
  | ltEq
  /-- Any other, with its `Debug` text. -/
  | other (debug : String)
  deriving DecidableEq

/-- `FunctionArgExpr`. -/
inductive FunctionArgExpr (E : Type) where
  /-- An expression. -/
  | expr (e : E)
  /-- `table.*`. -/
  | qualifiedWildcard (table : Clause)
  /-- `*`. -/
  | wildcard
  /-- `*` with options. -/
  | wildcardWithOptions (options : Clause)

/-- `FunctionArg`. -/
inductive FunctionArg (E : Type) where
  /-- `name => arg`. -/
  | named (name : Clause) (arg : FunctionArgExpr E)
  /-- `expr => arg`. -/
  | exprNamed (name : E) (arg : FunctionArgExpr E)
  /-- An argument by its place. -/
  | unnamed (arg : FunctionArgExpr E)

/-- `FunctionArguments`. -/
inductive FunctionArguments (E : Type) where
  /-- No brackets. -/
  | none
  /-- A query in brackets. -/
  | subquery (query : Clause)
  /-- `FunctionArgumentList`: `DISTINCT` or `ALL`, the arguments, and clauses after them. -/
  | list (duplicateTreatment : Option Clause) (args : List (FunctionArg E)) (clauses : List Clause)

/-- `Function`: a call, over the type of expressions. -/
structure Function (E : Type) where
  /-- `name`, as it is displayed. -/
  name : String
  /-- `uses_odbc_syntax`: the call stands in `{fn …}`. -/
  usesOdbcSyntax : Bool
  /-- `parameters`: a first pair of brackets before the arguments. -/
  parameters : FunctionArguments E
  args : FunctionArguments E
  /-- `filter`: `FILTER (WHERE …)`. -/
  filter : Option E
  /-- `null_treatment`: `IGNORE NULLS` or `RESPECT NULLS`. -/
  nullTreatment : Option Clause
  /-- `over`: `OVER …`. -/
  overClause : Option Clause
  /-- `within_group`: `WITHIN GROUP (ORDER BY …)`. -/
  withinGroup : List Clause

/-- `Expr`. -/
inductive Expr where
  /-- A column name. -/
  | identifier (value : String)
  /-- A name with dots in it, by its parts. -/
  | compoundIdentifier (parts : List String)
  /-- A literal. -/
  | value (v : SqlValue)
  /-- Two expressions with an operator between them. -/
  | binaryOp (left : Expr) (op : BinaryOperator) (right : Expr)
  /-- `expr [NOT] IN (list)`. -/
  | inList (expr : Expr) (list : List Expr) (negated : Bool)
  /-- A call. -/
  | function (func : Function Expr)
  /-- Any other. -/
  | other (text : Clause)

/-- `SelectItem`. -/
inductive SelectItem where
  /-- An expression. -/
  | unnamedExpr (expr : Expr)
  /-- `expr AS name`. -/
  | exprWithAlias (expr : Expr) (name : Clause)
  /-- `expr AS (names)`. -/
  | exprWithAliases (expr : Expr) (names : List Clause)
  /-- `table.*`. -/
  | qualifiedWildcard (table : Clause)
  /-- `*`. -/
  | wildcard (options : Clause)

/-- The fields of `TableFactor::Table`. -/
structure Table where
  /-- `name`, as it is displayed. -/
  name : String
  /-- `alias`. -/
  tableAlias : Option Clause
  /-- `args`: those of a table-valued function. -/
  args : Option Clause
  withHints : List Clause
  /-- `version`: `FOR SYSTEM_TIME AS OF …`. -/
  version : Option Clause
  withOrdinality : Bool
  partitions : List Clause
  jsonPath : Option Clause
  /-- `sample`: `TABLESAMPLE …`. -/
  sample : Option Clause
  indexHints : List Clause

/-- `TableFactor`. -/
inductive TableFactor where
  /-- A table by its name. -/
  | table (t : Table)
  /-- Any other. -/
  | other (text : Clause)

/-- `TableWithJoins`. -/
structure TableWithJoins where
  relation : TableFactor
  joins : List Clause

/-- `GroupByExpr`. -/
inductive GroupByExpr where
  /-- `GROUP BY ALL`. -/
  | all (modifiers : List Clause)
  /-- The expressions, none if there is no such clause, and `WITH ROLLUP` and the like. -/
  | expressions (exprs : List Expr) (modifiers : List Clause)

/-- `SelectFlavor`. -/
inductive SelectFlavor where
  /-- `SELECT … FROM …`. -/
  | standard
  /-- `FROM … SELECT …`. -/
  | fromFirst
  /-- `FROM …`. -/
  | fromFirstNoSelect
  deriving DecidableEq

/-- `Select`. -/
structure Select where
  /-- `distinct`: `DISTINCT` or `ALL`. -/
  distinct : Option Clause
  top : Option Clause
  projection : List SelectItem
  exclude : Option Clause
  into : Option Clause
  /-- `from`. -/
  tables : List TableWithJoins
  lateralViews : List Clause
  prewhere : Option Expr
  /-- `selection`: the `WHERE` clause. -/
  selection : Option Expr
  connectBy : List Clause
  groupBy : GroupByExpr
  clusterBy : List Clause
  distributeBy : List Clause
  sortBy : List Clause
  having : Option Clause
  namedWindow : List Clause
  qualify : Option Clause
  /-- `value_table_mode`: `AS STRUCT` and the like. -/
  valueTableMode : Option Clause
  flavor : SelectFlavor

/-- `SetExpr`. -/
inductive SetExpr where
  /-- A `SELECT`. -/
  | select (s : Select)
  /-- Any other. -/
  | other (text : Clause)

/-- `OrderBy`. -/
inductive OrderBy where
  /-- The expressions, and an `INTERPOLATE` after them. -/
  | expressions (exprs : List Clause) (interpolate : Option Clause)
  /-- `ORDER BY ALL`. -/
  | all (options interpolate : Option Clause)

/-- `Query`. -/
structure Query where
  /-- `with`. -/
  ctes : Option Clause
  body : SetExpr
  orderBy : Option OrderBy
  limitClause : Option Clause
  fetch : Option Clause
  /-- `locks`: `FOR UPDATE` and the like. -/
  locks : List Clause
  /-- `for_clause`: `FOR XML` and the like. -/
  forClause : Option Clause
  settings : Option (List Clause)
  formatClause : Option Clause
  /-- `pipe_operators`: `|> …`. -/
  pipeOperators : List Clause

/-- `Statement`. -/
inductive Statement where
  | query (q : Query)
  /-- Any other. -/
  | other (text : Clause)

/-- What comes from outside: the parser and its texts, and the case mapping of Unicode. -/
structure SqlLibs where
  /-- `Parser::parse_sql` with the `GenericDialect`. -/
  parse : String → Except String (List Statement)
  /-- The text of an expression. -/
  display : Expr → String
  toUppercase : String → String

/-! ### The translation -/

/-- An early return with an error. -/
def reject (bad : Bool) (message : String) : Except String Unit :=
  if bad then .error message else .ok ()

theorem reject_eq_ok {bad : Bool} {message : String} {u : Unit} : reject bad message = .ok u ↔
    bad = false := by
  cases bad <;> simp [reject]

/-- `function_arg_expr`. -/
def functionArgExpr : FunctionArg Expr → Except String Expr
  | .unnamed (.expr e) => .ok e
  | .unnamed .wildcard => .error "wildcard not valid here"
  | .unnamed (.qualifiedWildcard _) => .error "qualified wildcard not valid here"
  | .unnamed (.wildcardWithOptions _) => .error "wildcard with options not valid here"
  | .named _ _ => .error "named function arguments are not supported"
  | .exprNamed _ _ => .error "named expression arguments are not supported"

section

variable (L : SqlLibs)

/-- `parse_aggregate`. -/
def parseAggregate (func : Function Expr) : Except String (String × AggregationFunction) :=
  let name := L.toUppercase func.name
  match func.args with
  | .list duplicateTreatment args clauses => do
    reject duplicateTreatment.isSome (name ++ ": DISTINCT/ALL not supported")
    reject (!clauses.isEmpty) (name ++ ": extra argument clauses not supported")
    match name with
    | "SUM" =>
      match args with
      | [arg] =>
        match ← functionArgExpr arg with
        | .identifier "quantity" => .ok ("quantity", .sum)
        | argExpr => .error ("SUM only supports the `quantity` column; got SUM(" ++
            L.display argExpr ++ ")")
      | _ => .error ("SUM takes exactly one argument, got " ++ toString args.length)
    | "COUNT" =>
      match args with
      | [.unnamed .wildcard] => .ok ("count", .count)
      | [_] => .error "COUNT only supports COUNT(*) in this build — column-counting not implemented"
      | _ => .error ("COUNT takes exactly one argument, got " ++ toString args.length)
    | other => .error ("unsupported aggregate function: " ++ other)
  | _ => .error ("unsupported function arguments for " ++ name)

/-- `extract_literal`. -/
def extractLiteral : Expr → Except String String
  | .value (.singleQuotedString s) => .ok s
  | .value (.number n _) => .ok n
  | .value (.other debug) => .error ("unsupported literal: " ++ debug)
  | val => .error ("expected a literal, got `" ++ L.display val ++ "`")

/-- `apply_field`. -/
def applyField (field : String) (values : List String) (plan : QueryPlan) : QueryPlan :=
  match field, values with
  | "account_id", [value] => { plan with accountId := some value }
  | _, _ => { plan with filters := plan.filters ++ [⟨field, values⟩] }

/-- `apply_eq`. -/
def applyEq (left right : Expr) (plan : QueryPlan) : Except String QueryPlan :=
  match left with
  | .identifier field => do
    let value ← extractLiteral L right
    .ok (applyField field [value] plan)
  | _ => .error "equality: left side must be a column name"

/-- The operators that `apply_range` is called with. -/
inductive RangeOp where
  /-- `>`. -/
  | gt
  /-- `>=`. -/
  | gtEq
  /-- `<`. -/
  | lt
  /-- `<=`. -/
  | ltEq
  deriving DecidableEq

/-- The distance between an inclusive and an exclusive bound. -/
def one : I64 := ⟨1, by decide⟩

/-- Tightens one end of the half-open range of a plan. -/
def RangeOp.tighten (v : I64) (plan : QueryPlan) : RangeOp → QueryPlan
  | .gt => { plan with fromMs := max plan.fromMs (SInt.satAdd v one) }
  | .gtEq => { plan with fromMs := max plan.fromMs v }
  | .lt => { plan with toMs := min plan.toMs v }
  | .ltEq => { plan with toMs := min plan.toMs (SInt.satAdd v one) }

/-- `apply_range`. -/
def applyRange (left : Expr) (op : RangeOp) (right : Expr) (plan : QueryPlan) :
    Except String QueryPlan :=
  match left with
  | .identifier field => do
    reject (field ≠ "timestamp_ms" && field ≠ "hour_start_ms")
      ("range comparison only supported on timestamp_ms / hour_start_ms (got `" ++ field ++ "`)")
    let text ← extractLiteral L right
    match parseSigned 63 text with
    | .ok v => .ok (op.tighten v plan)
    | .error e => .error ("range comparison value must parse as i64: " ++ e.message)
  | _ => .error "range comparison: left side must be a column name"

/-- `extract_filters`. -/
def extractFilters : Expr → QueryPlan → Except String QueryPlan
  | .binaryOp left .and right, plan => do
    let plan ← extractFilters left plan
    extractFilters right plan
  | .binaryOp _ .or _, _ => .error "OR in WHERE is not supported"
  | .binaryOp left .eq right, plan => applyEq L left right plan
  | .binaryOp left .gtEq right, plan => applyRange L left .gtEq right plan
  | .binaryOp left .gt right, plan => applyRange L left .gt right plan
  | .binaryOp left .lt right, plan => applyRange L left .lt right plan
  | .binaryOp left .ltEq right, plan => applyRange L left .ltEq right plan
  | .binaryOp _ (.other debug) _, _ => .error ("unsupported operator `" ++ debug ++ "` in WHERE")
  | .inList left list false, plan =>
    match left with
    | .identifier field => do
      let values ← list.mapM (extractLiteral L)
      .ok (applyField field values plan)
    | _ => .error "IN: left side must be a column name"
  | .inList _ _ true, _ => .error "NOT IN is not supported"
  | expr, _ => .error ("unsupported WHERE expression: " ++ L.display expr)

/-- The checks of the query around the `SELECT`, up to the `SELECT` itself. -/
def selectOf (query : Query) : Except String Select := do
  match query.orderBy with
  | some (.expressions exprs _) => reject (!exprs.isEmpty) "ORDER BY is not supported"
  | some (.all _ _) => .error "ORDER BY is not supported"
  | none => .ok ()
  reject query.ctes.isSome "WITH/CTE is not supported"
  match query.body with
  | .select select => .ok select
  | .other _ => .error "compound queries (UNION/INTERSECT/EXCEPT) are not supported"

/-- The checks of the clauses that are not supported. -/
def checkClauses (select : Select) : Except String Unit := do
  reject select.distinct.isSome "SELECT DISTINCT is not supported"
  reject (!select.namedWindow.isEmpty) "WINDOW clauses are not supported"
  reject select.having.isSome "HAVING is not supported"
  reject select.qualify.isSome "QUALIFY is not supported"
  reject (!select.clusterBy.isEmpty || !select.distributeBy.isEmpty || !select.sortBy.isEmpty)
    "CLUSTER BY / DISTRIBUTE BY / SORT BY are not supported"

/-- The table that is read. -/
def sourceOf (select : Select) : Except String QuerySource :=
  match select.tables with
  | [source] => do
    reject (!source.joins.isEmpty) "JOINs are not supported"
    match source.relation with
    | .table t => do
      reject t.tableAlias.isSome "table aliases are not supported"
      reject t.args.isSome "table-valued function syntax is not supported"
      reject t.version.isSome "AS OF / table version qualifiers are not supported"
      match t.name with
      | "usage_events" => .ok .rawEvents
      | "usage_rollup_hourly" => .ok .rollupHourly
      | name => .error ("unknown table `" ++ name ++ "` (expected usage_events or usage_rollup_hourly)")
    | .other _ => .error "FROM must reference a simple table"
  | _ => .error "exactly one FROM table is required"

/-- What the projection has given so far: the group columns and the metrics. -/
structure Projected where
  /-- `group_by_in_select`. -/
  groupBy : List String
  metrics : AList fun _ : String => AggregationFunction

/-- One item of the projection. -/
def projectItem (p : Projected) : SelectItem → Except String Projected
  | .unnamedExpr (.identifier ident) => .ok { p with groupBy := p.groupBy ++ [ident] }
  | .unnamedExpr (.compoundIdentifier [part]) => .ok { p with groupBy := p.groupBy ++ [part] }
  | .unnamedExpr (.function func) => do
    let (name, metric) ← parseAggregate L func
    .ok { p with metrics := p.metrics.insert name metric }
  | .unnamedExpr expr => .error ("unsupported projection expression: " ++ L.display expr)
  | .exprWithAlias _ _ => .error "column aliases (AS) are not supported"
  | .wildcard _ => .error "SELECT * is not supported — specify columns or aggregates"
  | .qualifiedWildcard _ => .error "qualified wildcards (table.*) are not supported"
  | .exprWithAliases _ _ => .error "multi-alias projections are not supported"

/-- One column of the `GROUP BY` clause. -/
def groupItem (groupBy : List String) : Expr → Except String (List String)
  | .identifier ident => .ok (if ident ∈ groupBy then groupBy else groupBy ++ [ident])
  | expr => .error ("unsupported GROUP BY expression: " ++ L.display expr)

/-- The `GROUP BY` clause, after the group columns of the projection. -/
def groupColumns (groupBy : List String) : GroupByExpr → Except String (List String)
  | .expressions exprs modifiers => do
    reject (!modifiers.isEmpty) "GROUP BY modifiers (ROLLUP/CUBE/etc) are not supported"
    exprs.foldlM (groupItem L) groupBy
  | .all _ => .error "GROUP BY ALL is not supported"

/-- The plan before the `WHERE` clause is read: every account, and `i64::MIN..i64::MAX`. -/
def startPlan (source : QuerySource) (groupBy : List String)
    (metrics : AList fun _ : String => AggregationFunction) :
    QueryPlan where
  source := source
  accountId := none
  fromMs := ⟨-2 ^ 63, by decide⟩
  toMs := ⟨2 ^ 63 - 1, by decide⟩
  filters := []
  groupBy := groupBy
  metrics := metrics

/-- The `WHERE` clause, if there is one. -/
def applySelection (plan : QueryPlan) : Option Expr → Except String QueryPlan
  | some selection => extractFilters L selection plan
  | none => .ok plan

/-- The plan of a statement. -/
def planStatement : Statement → Except String QueryPlan
  | .query query => do
    let select ← selectOf query
    checkClauses select
    let source ← sourceOf select
    let projected ← select.projection.foldlM (projectItem L) ⟨[], ∅⟩
    let groupBy ← groupColumns L projected.groupBy select.groupBy
    let plan ← applySelection L (startPlan source groupBy projected.metrics) select.selection
    match query.limitClause with
    | some limit => .error ("LIMIT is not supported in this build (got `" ++ limit.text ++ "`)")
    | none => .ok plan
  | .other _ => .error "only SELECT statements are supported"

/-- `parse_sql`. -/
def parseSql (sql : String) : Except String QueryPlan := do
  match ← L.parse sql with
  | [stmt] => planStatement L stmt
  | ast => .error ("expected exactly one statement, got " ++ toString ast.length)

end

end UsageDb.Sql
