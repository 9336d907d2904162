import RayClickHouse.FilterScan
import RayClickHouse.Predicates

/-!
Rendering of one SELECT: the gates on a filter and its parameters, the choice of
one binding protocol, and the assembly of the conjuncts. The WHERE condition is
kept as a tree beside its text, so that the text can be scanned and the tree
evaluated.
-/
namespace RayClickHouse.Sql

open Text Lexical TypeText FilterScan Schema Predicates

def internalPrefix : Text := "__ray_clickhouse_".toList

section Filter

variable [UnicodeDatabase]

def matchKeyword : Text → Text → Option Text
  | [], s => some s
  | k :: keyword, c :: rest => if foldUpper c = k then matchKeyword keyword rest else none
  | _ :: _, [] => none

def matchPhrase : List Text → Text → Option Text
  | [], s => some s
  | [word], s => matchKeyword word s
  | word :: words, s => do
      let rest ← matchKeyword word s
      if (rest.head?.map isSpace).getD false then matchPhrase words (rest.dropWhile isSpace)
      else none

def forbiddenClauses : List (List Text) :=
  [["SELECT"], ["FROM"], ["GROUP", "BY"], ["HAVING"], ["ORDER", "BY"], ["LIMIT"], ["UNION"],
    ["WITH"], ["INSERT"], ["UPDATE"], ["DELETE"], ["CREATE"], ["DROP"]].map
      (fun phrase => phrase.map String.toList)

def isWordOption (c : Option Char) : Bool := (c.map isWord).getD false

def matchClause (previous : Option Char) (s : Text) : Bool :=
  !isWordOption previous && forbiddenClauses.any fun phrase =>
    (matchPhrase phrase s).any fun rest => !isWordOption rest.head?

def containsSqlClauseFrom : Option Char → Option Char → Text → Bool
  | _, _, [] => false
  | _, some q, c :: rest =>
      if c = '\\' then
        match rest with
        | [] => false
        | d :: rest' => containsSqlClauseFrom (some d) (some q) rest'
      else containsSqlClauseFrom (some c) (if c = q then none else some q) rest
  | previous, none, c :: rest =>
      if isQuoteChar c then containsSqlClauseFrom (some c) (some c) rest
      else if matchClause previous (c :: rest) then true
      else containsSqlClauseFrom (some c) none rest

def containsSqlClause (value : Text) : Bool := containsSqlClauseFrom none none value

def validateFilter : Option Text → Outcome (Option Text)
  | none => .ok none
  | some value =>
      if strip value = [] then
        Outcome.raise .configuration "filter must be None or a non-empty trusted predicate"
      else if ';' ∈ value ∨ Char.ofNat 0 ∈ value then
        Outcome.raise .configuration "filter must contain one predicate and no semicolon"
      else if containsSqlClause value then
        Outcome.raise .configuration
          "filter must be a predicate; SELECT/GROUP BY/ORDER BY/LIMIT clauses are unsupported"
      else .ok (some (strip value))

def parameterMap (parameters : Bindings) : Outcome Bindings :=
  if [] ∈ parameters.names then
    Outcome.raise .configuration "query parameter names must be non-empty strings"
  else if parameters.names.any internalPrefix.isPrefixOf then
    Outcome.raise .configuration "query parameter names use a reserved prefix"
  else .ok parameters

def validateFilterParameters (filterSql : Option Text) (parameters : Bindings)
    (hasInternalParameters : Bool := false) : Outcome Bool := do
  let values ← parameterMap parameters
  match filterSql with
  | none =>
      if values ≠ [] then Outcome.raise .configuration "query_parameters require filter"
      else .ok false
  | some filter =>
      let b ← filterBindings filter
      let serverNames := b.serverTypes.map Prod.fst
      let used := b.clientNames ++ serverNames
      let missing := used.filter (· ∉ values.names)
      let unused := values.names.filter (· ∉ used)
      if b.clientNames ≠ [] ∧ serverNames ≠ [] then
        Outcome.raise .configuration "mixed client-side and server-side placeholders"
      else if b.ambiguous ∧ (values ≠ [] ∨ hasInternalParameters) then
        Outcome.raise .configuration
          "typed placeholder-looking text in quotes or comments is unsupported"
      else if missing ≠ [] then
        Outcome.raise .configuration "filter references missing parameters" (sortedNames missing)
      else if unused ≠ [] then
        Outcome.raise .configuration "unused query parameters" (sortedNames unused)
      else .ok (serverNames ≠ [] || (hasInternalParameters && b.clientNames == []))

/-- The protocol a pushed predicate must use, none for ambiguous text. -/
def predicateBindingProtocol (filterSql : Option Text) (parameters : Bindings) :
    Outcome (Option Bool) := do
  let _ ← validateFilterParameters filterSql parameters
  match filterSql with
  | none => .ok (some true)
  | some filter =>
      let b ← filterBindings filter
      .ok (if b.ambiguous then none else some (b.clientNames == []))

end Filter

inductive FilterCondition
  | user (text : Text)
  | pushed (text : Text)
  | both (user pushed : Text)
  deriving DecidableEq, Repr

def FilterCondition.text : FilterCondition → Text
  | user t => t
  | pushed t => t
  | both u p => "(".toList ++ u ++ ") AND (".toList ++ p ++ ")".toList

structure EffectiveFilter where
  condition : Option FilterCondition
  values : Bindings
  native : Bool

inductive Clause
  | filter (condition : FilterCondition)
  | partition (names : List Text)
  | range (column : Text) (lower upper : Option Text)
  deriving DecidableEq, Repr

def rangeParts (native : Bool) (column : Text) (lower upper : Option Text) : List Text :=
  lower.toList.map (fun n => quoted column ++ " >= ".toList ++ placeholder native n "Int128".toList) ++
    upper.toList.map (fun n => quoted column ++ " < ".toList ++ placeholder native n "Int128".toList)

def Clause.text (native : Bool) : Clause → Text
  | filter condition => "(".toList ++ condition.text ++ ")".toList
  | partition names =>
      "(".toList ++ quoted "_partition_id".toList ++ " IN (".toList ++
        join ", ".toList (names.map fun n => placeholder native n "String".toList) ++ "))".toList
  | range column lower upper =>
      "(".toList ++ join " AND ".toList (rangeParts native column lower upper) ++ ")".toList

/-- The condition of a query: its clauses joined by AND, or the clauses beside
the range and the range extended to NULL keys. -/
inductive Where
  | conjunction (clauses : List Clause)
  | withNull (nonRange : List Clause) (column : Text) (range : Clause)

def Where.text (native : Bool) : Where → Text
  | conjunction clauses => join " AND ".toList (clauses.map (Clause.text native))
  | withNull nonRange column range =>
      let nullOrRange := "(".toList ++ range.text native ++ " OR (".toList ++ quoted column ++
        " IS NULL))".toList
      if nonRange = [] then nullOrRange
      else "(".toList ++
        join " AND ".toList (nonRange.map (Clause.text native) ++ [nullOrRange]) ++ ")".toList

structure SelectRequest where
  table : QualifiedTable
  columns : List Text
  filterSql : Option Text := none
  parameters : Bindings := []
  partitionIds : Option (List Text) := none
  rangeColumn : Option Text := none
  rangeLower : Option ℤ := none
  rangeUpper : Option ℤ := none
  rangeIncludeNull : Bool := false
  limit : Option ℤ := none
  projection : Option Text := none
  orderBy : Option (List (Text × Bool)) := none
  pushedPredicate : Option CompiledPredicate := none

structure SelectQuery where
  sql : Text
  parameters : Bindings
  serverSide : Bool
  condition : Option Where

section Build

variable [UnicodeDatabase]

/-- Caller bindings first, compiler bindings after them. -/
def effectiveFilter (filterSql : Option Text) (parameters : Bindings)
    (pushedPredicate : Option CompiledPredicate) (hasInternalParameters : Bool) :
    Outcome EffectiveFilter := do
  let filter ← validateFilter filterSql
  let values ← parameterMap parameters
  let native ← validateFilterParameters filter values hasInternalParameters
  match pushedPredicate with
  | none => .ok ⟨filter.map .user, values, native⟩
  | some p =>
      let protocol ← predicateBindingProtocol filter values
      if protocol ≠ some p.native then
        Outcome.raise .configuration "predicate binding protocol disagrees with filter"
      else if p.parameters.names.any (· ∈ values.names) then
        Outcome.raise .configuration "predicate parameter names overlap user bindings"
      else
        .ok ⟨some (match filter with | none => .pushed p.sql | some u => .both u p.sql),
          values.update p.parameters, p.native⟩

def partitionName (index : ℕ) : Text := internalPrefix ++ "partition_".toList ++ ofNat index

def partitionNames (ids : List Text) : List Text := (List.range ids.length).map partitionName

def partitionBindings (ids : List Text) : Bindings := (partitionNames ids).zip (ids.map Value.str)

def rangeLowerName : Text := internalPrefix ++ "range_lower".toList

def rangeUpperName : Text := internalPrefix ++ "range_upper".toList

def rangeBindings (lower upper : Option ℤ) : Bindings :=
  lower.toList.map (fun v => (rangeLowerName, Value.int v)) ++
    upper.toList.map (fun v => (rangeUpperName, Value.int v))

def partitionClause : Option (List Text) → Outcome (List Clause × Bindings)
  | none => .ok ([], [])
  | some [] => Outcome.raise .configuration "partition_ids must not be empty"
  | some ids => .ok ([.partition (partitionNames ids)], partitionBindings ids)

def rangeClause (column : Option Text) (lower upper : Option ℤ) :
    Outcome (Option (Text × Clause) × Bindings) :=
  match column with
  | none => .ok (none, [])
  | some column => do
      let column ← validateIdentifier column "range_column"
      if lower.isNone ∧ upper.isNone then .ok (none, [])
      else
        .ok (some (column, .range column (lower.map fun _ => rangeLowerName)
          (upper.map fun _ => rangeUpperName)), rangeBindings lower upper)

/-- The clauses are compared by their text, as the source compares strings. -/
def whereClause (native : Bool) (includeNull : Bool) (clauses : List Clause)
    (range : Option (Text × Clause)) : Option Where :=
  match range with
  | none => if clauses = [] then none else some (.conjunction clauses)
  | some (column, r) =>
      let all := clauses ++ [r]
      if includeNull then
        some (.withNull (all.filter fun c => c.text native ≠ r.text native) column r)
      else some (.conjunction all)

def orderTerm (term : Text × Bool) : Outcome Text := do
  let column ← validateIdentifier term.1 "order_by column"
  .ok (quoted column ++ (if term.2 then " DESC" else " ASC").toList)

def orderText : Option (List (Text × Bool)) → Outcome Text
  | none => .ok []
  | some [] => .ok []
  | some terms => do
      let rendered ← terms.mapM orderTerm
      .ok (" ORDER BY ".toList ++ join ", ".toList rendered)

def limitText : Option ℤ → Outcome Text
  | none => .ok []
  | some limit =>
      if limit < 0 then Outcome.raise .configuration "limit must be a non-negative integer"
      else .ok (" LIMIT ".toList ++ ofInt limit)

def selectList (request : SelectRequest) : Text :=
  match request.projection with
  | some (c :: rest) => c :: rest
  | _ => join ", ".toList (request.columns.map quoted)

def selectPrefix (request : SelectRequest) : Text :=
  "SELECT ".toList ++ selectList request ++ " FROM ".toList ++ request.table.sql

def whereText (native : Bool) : Option Where → Text
  | none => []
  | some w => " WHERE ".toList ++ w.text native

def hasInternalParameters (request : SelectRequest) : Bool :=
  request.partitionIds.isSome || request.rangeLower.isSome || request.rangeUpper.isSome

def buildSelect (request : SelectRequest) : Outcome SelectQuery := do
  let effective ← effectiveFilter request.filterSql request.parameters request.pushedPredicate
    (hasInternalParameters request)
  let (partition, partitionValues) ← partitionClause request.partitionIds
  let (range, rangeValues) ←
    rangeClause request.rangeColumn request.rangeLower request.rangeUpper
  let clauses := effective.condition.toList.map Clause.filter ++ partition
  let condition := whereClause effective.native request.rangeIncludeNull clauses range
  let order ← orderText request.orderBy
  let limit ← limitText request.limit
  .ok {
    sql := selectPrefix request ++ whereText effective.native condition ++ order ++ limit
    parameters := (effective.values.update partitionValues).update rangeValues
    serverSide := effective.native
    condition := condition
  }

end Build

end RayClickHouse.Sql
