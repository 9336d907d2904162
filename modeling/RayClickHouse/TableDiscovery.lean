import RayClickHouse.Coverage
import RayClickHouse.PlanningCache
import RayClickHouse.TargetReader

/-!
Discovery of what a split read is planned from: the engine and the sorting key,
the partitions of the active parts, and the facts of an integer key under the
filter of the read. On a server that answers from the rows of one table the
partitions and the facts are those of the table; the condition of the aggregate
is the one that the scans of the read will be sent with.
-/
namespace RayClickHouse.TableDiscovery

open Text TypeText Schema Predicates Planning Discovery Metadata Sql ThreeValued Datasource

section Calls

/-- The client is closed in any case; only an interrupt then replaces the result. -/
def withClient {α : Type} (node : Node) (body : Outcome α) : Outcome α :=
  match node.opened with
  | some raised => .error (clientFailure "client initialization" raised)
  | none =>
      match node.closed with
      | some .interrupt => .error interrupted
      | _ => body

def ask (node : Node) (operation : String) (sql : Text) (parameters : Bindings) :
    Outcome (List (List Cell)) :=
  match node.server.answer sql parameters with
  | .ok result => .ok result.rows
  | .error raised => .error (clientFailure operation raised)

variable [UnicodeDatabase]

/-- int() of a value; what it raises is reported like an error of the client. -/
def intOf (operation : String) : Cell → Outcome ℤ
  | .int i => .ok i
  | .bool b => .ok b.toNat
  | .uuid id => .ok id
  | .str s =>
      Outcome.ofOption
        (translate none (lower ("invalid literal for int() with base 10: ".toList ++ s)) operation)
        (toInt s)
  | _ =>
      .error (translate none
        "int() argument must be a string, a bytes-like object or a real number".toList operation)

def optionalInt (operation : String) : Cell → Outcome (Option ℤ)
  | .null => .ok none
  | cell => (intOf operation cell).map some

omit [UnicodeDatabase] in
theorem withClient_eq_ok {α : Type} {node : Node} {body : Outcome α} {a : α} :
    withClient node body = .ok a ↔
      node.opened = none ∧ node.closed ≠ some .interrupt ∧ body = .ok a := by
  unfold withClient
  split
  · rename_i raised hopened
    simp [hopened]
  · rename_i hopened
    split
    · rename_i hclosed
      simp [hclosed]
    · rename_i hclosed
      refine ⟨fun hbody => ⟨hopened, fun h => hclosed h, hbody⟩, fun h => h.2.2⟩

omit [UnicodeDatabase] in
theorem ask_eq_ok {node : Node} {operation : String} {sql : Text} {parameters : Bindings}
    {rows : List (List Cell)} : ask node operation sql parameters = .ok rows ↔
      ∃ result, node.server.answer sql parameters = .ok result ∧ result.rows = rows := by
  unfold ask
  cases node.server.answer sql parameters <;> simp

end Calls

section Tables

def tablesQuery (column : String) : Text :=
  "SELECT ".toList ++ column.toList ++
    " FROM system.tables WHERE database = %(database)s AND name = %(table)s".toList

def notFound {α : Type} (table : QualifiedTable) : Outcome α :=
  Outcome.raise .objectNotFound "ClickHouse table was not found" [table.database, table.table]

def discoverEngine (node : Node) (table : QualifiedTable) : Outcome Text :=
  withClient node do
    let rows ← ask node "engine discovery" (tablesQuery "engine") (tableParameters table)
    match rows with
    | [.str engine :: _] => .ok engine
    | [[]] => .error (translate none "tuple index out of range".toList "engine discovery")
    | _ => notFound table

end Tables

section Partitions

variable [UnicodeDatabase]

def physicalColumnQuery : Text :=
  "SELECT name FROM system.columns WHERE database = %(database)s AND table = %(table)s AND name = '_partition_id'".toList

def partsQuery : Text :=
  "SELECT partition_id, sum(rows), sum(marks), sum(bytes_on_disk) FROM system.parts WHERE active AND database = %(database)s AND table = %(table)s GROUP BY partition_id ORDER BY partition_id".toList

def discoveredPartition : List Cell → Outcome PartitionInfo
  | [.str id, rows, marks, bytesOnDisk] =>
      if id = [] then
        Outcome.raise .discovery "system.parts returned malformed partition metadata"
      else do
        let rows ← intOf "partition discovery" rows
        let marks ← intOf "partition discovery" marks
        let bytesOnDisk ← intOf "partition discovery" bytesOnDisk
        if rows < 0 ∨ marks < 0 ∨ bytesOnDisk < 0 then
          Outcome.raise .discovery "system.parts returned negative partition metadata"
        else .ok ⟨id, some rows.toNat, some marks.toNat, some bytesOnDisk.toNat⟩
  | _ => Outcome.raise .discovery "system.parts returned malformed partition metadata"

def discoverPartitions (node : Node) (table : QualifiedTable) : Outcome (List PartitionInfo) :=
  withClient node do
    let engine ← discoverEngine node table
    if engine ∉ localMergetreeEngines then
      Outcome.raise .discovery "engine is not eligible for partition splitting" [engine]
    else do
      let physical ← ask node "partition discovery" physicalColumnQuery (tableParameters table)
      if physical ≠ [] then
        Outcome.raise .discovery "table has a physical _partition_id column"
      else do
        let rows ← ask node "partition discovery" partsQuery (tableParameters table)
        rows.mapM discoveredPartition

end Partitions

section Facts

variable [UnicodeDatabase]

def rangeRequest (table : QualifiedTable) (column : Text) (filterSql : Option Text)
    (parameters : Bindings) (pushedPredicate : Option CompiledPredicate) : SelectRequest where
  table := table
  columns := [column]
  filterSql := filterSql
  parameters := parameters
  pushedPredicate := pushedPredicate

def aggregateQuery (table : QualifiedTable) (column : Text) : Text :=
  "SELECT count(), min(".toList ++ quoted column ++ "), max(".toList ++ quoted column ++
    "), countIf(isNull(".toList ++ quoted column ++ ")) FROM ".toList ++ table.sql

def rangeHead (table : QualifiedTable) (column : Text) : Text :=
  "SELECT ".toList ++ quoted column ++ " FROM ".toList ++ table.sql

def aggregateSql (table : QualifiedTable) (column : Text) (base : Text) : Outcome Text :=
  let expected := rangeHead table column
  if !expected.isPrefixOf base then
    Outcome.raise .discovery "range filter renderer returned an unexpected query"
  else
    let clause := strip (base.drop expected.length)
    .ok (aggregateQuery table column ++ if clause = [] then [] else ' ' :: clause)

def factsOf (column : TargetColumn) : List (List Cell) → Outcome RangeFacts
  | [[total, minimum, maximum, nullRows]] => do
      let total ← intOf "range discovery" total
      let nullRows ← intOf "range discovery" nullRows
      let minimum ← optionalInt "range discovery" minimum
      let maximum ← optionalInt "range discovery" maximum
      .ok ⟨column.name, column.declaredType, total.toNat, nullRows.toNat, minimum, maximum⟩
  | _ => Outcome.raise .discovery "range aggregate returned malformed metadata"

def discoverRangeFacts (node : Node) (table : QualifiedTable) (column : TargetColumn)
    (filterSql : Option Text) (parameters : Bindings)
    (pushedPredicate : Option CompiledPredicate := none) : Outcome RangeFacts := do
  let integer ← isIntegerRangeColumn column
  if !integer then
    Outcome.raise .discovery "range split currently supports integer columns only"
  else
    withClient node do
      let filter ← validateFilter filterSql
      let base ← buildSelect (rangeRequest table column.name filter parameters pushedPredicate)
      let sql ← aggregateSql table column.name base.sql
      let rows ← ask node "range discovery" sql base.parameters
      factsOf column rows

end Facts

section Aggregates

variable {ρ : Type*} (kept : Multiset ρ) (key : ρ → Option ℤ)

def leastKey : Option ℤ := (kept.filterMap key).toFinset.min

def greatestKey : Option ℤ := (kept.filterMap key).toFinset.max

def keyCell : Option ℤ → Cell
  | some k => .int k
  | none => .null

/-- The row of the aggregate over the kept rows. Without a key both ends are the same value:
NULL for a column that is Nullable, the default of its type for another one. -/
def aggregateRow (keyless : Option ℤ) : List Cell :=
  [.int kept.card, keyCell ((leastKey kept key).or keyless),
    keyCell ((greatestKey kept key).or keyless), .int (kept.countP fun r => key r = none)]

variable {kept key}

theorem leastKey_eq_some {k : ℤ} :
    leastKey kept key = some k ↔ IsLeast {k | ∃ r ∈ kept, key r = some k} k := by
  constructor
  · intro h
    refine ⟨mem_keys.mp (Finset.mem_of_min h), ?_⟩
    intro other hother
    exact Finset.min_le_of_eq (mem_keys.mpr hother) h
  · rintro ⟨hmem, hlower⟩
    obtain ⟨m, hm⟩ := Finset.min_of_mem (mem_keys.mpr hmem)
    have hle : m ≤ k := Finset.min_le_of_eq (mem_keys.mpr hmem) hm
    have hge : k ≤ m := hlower (mem_keys.mp (Finset.mem_of_min hm))
    have hsame : m = k := by omega
    subst hsame
    exact hm

theorem greatestKey_eq_some {k : ℤ} :
    greatestKey kept key = some k ↔ IsGreatest {k | ∃ r ∈ kept, key r = some k} k := by
  constructor
  · intro h
    refine ⟨mem_keys.mp (Finset.mem_of_max h), ?_⟩
    intro other hother
    exact Finset.le_max_of_eq (mem_keys.mpr hother) h
  · rintro ⟨hmem, hupper⟩
    obtain ⟨m, hm⟩ := Finset.max_of_mem (mem_keys.mpr hmem)
    have hle : k ≤ m := Finset.le_max_of_eq (mem_keys.mpr hmem) hm
    have hge : m ≤ k := hupper (mem_keys.mp (Finset.mem_of_max hm))
    have hsame : m = k := by omega
    subst hsame
    exact hm

theorem filterMap_eq_zero (h : ∀ r ∈ kept, key r = none) : kept.filterMap key = 0 := by
  apply Multiset.eq_zero_of_forall_notMem
  intro k hk
  obtain ⟨r, hr, hkey⟩ := (Multiset.mem_filterMap _ _).mp hk
  exact Option.some_ne_none k (hkey.symm.trans (h r hr))

theorem ends_of_keyless (h : ∀ r ∈ kept, key r = none) :
    leastKey kept key = none ∧ greatestKey kept key = none := by
  unfold leastKey greatestKey
  rw [filterMap_eq_zero h]
  exact ⟨rfl, rfl⟩

variable [UnicodeDatabase]

theorem optionalInt_keyCell (operation : String) (k : Option ℤ) :
    optionalInt operation (keyCell k) = .ok k := by
  cases k <;> rfl

variable (kept key) in
/-- The facts that are read from the row of an aggregate. -/
theorem factsOf_aggregateRow (column : TargetColumn) (keyless : Option ℤ) :
    ∃ facts, factsOf column [aggregateRow kept key keyless] = .ok facts ∧
      facts.column = column.name ∧ facts.declaredType = column.declaredType ∧
      FactsExact kept key facts := by
  refine ⟨⟨column.name, column.declaredType, kept.card, kept.countP fun r => key r = none,
    (leastKey kept key).or keyless, (greatestKey kept key).or keyless⟩, ?_, rfl, rfl, ?_⟩
  · unfold factsOf aggregateRow
    simp only [optionalInt_keyCell, intOf]
    rfl
  · refine ⟨rfl, rfl, ?_, ?_, ?_⟩
    · intro k hk
      simp only [leastKey_eq_some.mpr hk, Option.some_or]
    · intro k hk
      simp only [greatestKey_eq_some.mpr hk, Option.some_or]
    · intro hnone
      obtain ⟨hleast, hgreatest⟩ := ends_of_keyless hnone
      simp only [hleast, hgreatest]

end Aggregates

section RangeFacts

variable [UnicodeDatabase] {node : Node} {table : QualifiedTable} {filterSql filter : Option Text}
variable {parameters : Bindings} {pushed : Option CompiledPredicate} {q : SelectQuery}
variable {column : TargetColumn} {name : Text} {facts : RangeFacts}

theorem rangeRequest_condition
    (h : Accepted (rangeRequest table name filter parameters pushed) q) :
    q.condition =
      (filterCondition (filter.map strip) pushed).map fun c => .conjunction [.filter c] := by
  rw [h.condition]
  unfold requestClauses requestRange whereClause
  simp only [rangeRequest, filterText, Option.map_none, Option.getD_none, List.append_nil]
  cases filterCondition (filter.map strip) pushed with
  | none => rfl
  | some condition => rfl

omit [UnicodeDatabase] in
theorem rangeRequest_head :
    selectPrefix (rangeRequest table name filter parameters pushed) = rangeHead table name := by
  have hlist : selectList (rangeRequest table name filter parameters pushed) = quoted name := by
    unfold selectList rangeRequest
    simp only [List.map_cons, List.map_nil]
    exact join_cons _ _ _ |>.trans (List.append_nil _)
  unfold selectPrefix rangeHead
  rw [hlist]
  rfl

omit [UnicodeDatabase] in
/-- A WHERE clause of one condition begins with a space and ends with a parenthesis. -/
theorem strip_condition (native : Bool) (condition : FilterCondition) :
    whereText native (some (.conjunction [.filter condition])) =
      ' ' :: strip (whereText native (some (.conjunction [.filter condition]))) ∧
    strip (whereText native (some (.conjunction [.filter condition]))) ≠ [] := by
  have hshape : whereText native (some (.conjunction [.filter condition])) =
      ' ' :: ("WHERE (".toList ++ condition.text ++ ")".toList) := by
    unfold whereText Where.text
    simp only [List.map_cons, List.map_nil, Clause.text, join_cons, List.flatMap_nil,
      List.append_nil]
    rfl
  have hsolid : Solid ("WHERE (".toList ++ condition.text ++ ")".toList) := by
    constructor
    · intro c hc
      obtain rfl : 'W' = c := Option.some.inj hc
      rfl
    · intro c hc
      have hlast : ("WHERE (".toList ++ condition.text ++ ")".toList).getLast? = some ')' :=
        List.getLast?_concat
      rw [hlast] at hc
      obtain rfl := Option.some.inj hc
      rfl
  have hstrip : strip (' ' :: ("WHERE (".toList ++ condition.text ++ ")".toList)) =
      "WHERE (".toList ++ condition.text ++ ")".toList := strip_of_solid hsolid
  rw [hshape, hstrip]
  exact ⟨rfl, List.cons_ne_nil _ _⟩

/-- The clause cut out of the rendered query is its WHERE clause. -/
theorem aggregateSql_eq (h : Accepted (rangeRequest table name filter parameters pushed) q) :
    aggregateSql table name q.sql =
      .ok (aggregateQuery table name ++ whereText q.serverSide q.condition) := by
  obtain ⟨order, limit, horder, hlimit, hsql⟩ := h.sql
  obtain rfl : [] = order := Except.ok.inj horder
  obtain rfl : [] = limit := Except.ok.inj hlimit
  rw [List.append_nil, List.append_nil, rangeRequest_head] at hsql
  have hfound : (rangeHead table name).isPrefixOf q.sql = true := by
    rw [hsql, List.isPrefixOf_iff_prefix]
    exact List.prefix_append _ _
  unfold aggregateSql
  simp only [hfound, Bool.not_true, Bool.false_eq_true, if_false]
  rw [hsql, List.drop_left, rangeRequest_condition h]
  cases filterCondition (filter.map strip) pushed with
  | none =>
    have hnil : strip (whereText q.serverSide none) = [] := rfl
    rw [Option.map_none, if_pos hnil]
    rfl
  | some condition =>
    obtain ⟨hspace, hne⟩ := strip_condition q.serverSide condition
    rw [Option.map_some, if_neg hne, ← hspace]

variable {ρ : Type*} {v : RowView ρ} {stored : Multiset ρ}

/-- The node answers the aggregate of an integer column from the stored rows, if it answers. -/
def AnswersAggregate (node : Node) (table : QualifiedTable) (column : TargetColumn)
    (filterSql : Option Text) (parameters : Bindings) (pushed : Option CompiledPredicate)
    (v : RowView ρ) (stored : Multiset ρ) : Prop :=
  isIntegerRangeColumn column = .ok true →
  ∀ filter q result, validateFilter filterSql = .ok filter →
    buildSelect (rangeRequest table column.name filter parameters pushed) = .ok q →
    node.server.answer (aggregateQuery table column.name ++ whereText q.serverSide q.condition)
      q.parameters = .ok result →
    ∃ keyless, result.rows =
      [aggregateRow (select stored fun r => q.truth v r) (fun r => v.integer r column.name) keyless]

/-- Without a split the query keeps the rows that filter and predicate keep. -/
theorem select_rangeRequest (hfilter : validateFilter filterSql = .ok filter)
    (hcompiled : ∀ p, pushed = some p → Compiled p)
    (h : buildSelect (rangeRequest table name filter parameters pushed) = .ok q) :
    (select stored fun r => q.truth v r) = select stored fun r => whole v r filterSql pushed := by
  have hsome : filter.isSome = filterSql.isSome := by
    rw [validateFilter_eq_ok hfilter]
    cases filterSql <;> rfl
  apply Multiset.filter_congr
  intro r _
  rw [(accepted_of_buildSelect h).truth_eq_yes v r hcompiled]
  have hadmits : (rangeRequest table name filter parameters pushed).admits v r = true := rfl
  have hwhole : whole v r (rangeRequest table name filter parameters pushed).filterSql
      (rangeRequest table name filter parameters pushed).pushedPredicate =
      whole v r filterSql pushed := by
    unfold whole rangeRequest
    simp only [hsome]
  rw [hwhole, hadmits]
  simp

/-- Range discovery asks one aggregate, under the condition of the read. -/
theorem discoverRangeFacts_eq_ok :
    discoverRangeFacts node table column filterSql parameters pushed = .ok facts ↔
      isIntegerRangeColumn column = .ok true ∧ node.opened = none ∧
      node.closed ≠ some .interrupt ∧
      ∃ filter q result, validateFilter filterSql = .ok filter ∧
        buildSelect (rangeRequest table column.name filter parameters pushed) = .ok q ∧
        node.server.answer (aggregateQuery table column.name ++
          whereText q.serverSide q.condition) q.parameters = .ok result ∧
        factsOf column result.rows = .ok facts := by
  unfold discoverRangeFacts
  rw [Except.bind_eq_ok]
  constructor
  · rintro ⟨integer, hinteger, h⟩
    cases integer with
    | false => simp [Outcome.raise] at h
    | true =>
      obtain ⟨hopened, hclosed, h⟩ := withClient_eq_ok.mp h
      obtain ⟨filter, hfilter, h⟩ := Except.bind_eq_ok.mp h
      obtain ⟨q, hq, h⟩ := Except.bind_eq_ok.mp h
      obtain ⟨sql, hsql, h⟩ := Except.bind_eq_ok.mp h
      rw [aggregateSql_eq (accepted_of_buildSelect hq)] at hsql
      obtain rfl := Except.ok.inj hsql
      obtain ⟨rows, hrows, hfacts⟩ := Except.bind_eq_ok.mp h
      obtain ⟨result, hanswer, rfl⟩ := ask_eq_ok.mp hrows
      exact ⟨hinteger, hopened, hclosed, filter, q, result, hfilter, hq, hanswer, hfacts⟩
  · rintro ⟨hinteger, hopened, hclosed, filter, q, result, hfilter, hq, hanswer, hfacts⟩
    refine ⟨true, hinteger, withClient_eq_ok.mpr ⟨hopened, hclosed, ?_⟩⟩
    refine Except.bind_eq_ok.mpr ⟨filter, hfilter, Except.bind_eq_ok.mpr ⟨q, hq, ?_⟩⟩
    exact Except.bind_eq_ok.mpr ⟨_, aggregateSql_eq (accepted_of_buildSelect hq),
      Except.bind_eq_ok.mpr ⟨result.rows, ask_eq_ok.mpr ⟨result, hanswer, rfl⟩, hfacts⟩⟩

/-- The facts that range discovery returns are those of the rows that the read keeps. -/
theorem discovered_exact (hcompiled : ∀ p, pushed = some p → Compiled p)
    (htruthful : AnswersAggregate node table column filterSql parameters pushed v stored)
    (hfacts : discoverRangeFacts node table column filterSql parameters pushed = .ok facts) :
    facts.column = column.name ∧ facts.declaredType = column.declaredType ∧
      FactsExact (select stored fun r => whole v r filterSql pushed)
        (fun r => v.integer r column.name) facts := by
  obtain ⟨hinteger, -, -, filter, q, result, hfilter, hq, hanswer, hread⟩ :=
    discoverRangeFacts_eq_ok.mp hfacts
  obtain ⟨keyless, hrows⟩ := htruthful hinteger filter q result hfilter hq hanswer
  rw [hrows, select_rangeRequest hfilter hcompiled hq] at hread
  obtain ⟨exact, hexact, hcolumn, htype, hsame⟩ := factsOf_aggregateRow
    (select stored fun r => whole v r filterSql pushed)
    (fun r => v.integer r column.name) column keyless
  obtain rfl := Except.ok.inj (hexact.symm.trans hread)
  exact ⟨hcolumn, htype, hsame⟩

/-- On a server that answers the aggregate from the stored rows, the facts of range discovery
are those of the rows that the scans of the read keep; it returns none when the column holds
no integers, the condition is rejected, or a call fails. -/
theorem range_facts_exact (hcompiled : ∀ p, pushed = some p → Compiled p)
    (htruthful : AnswersAggregate node table column filterSql parameters pushed v stored) :
    (∀ facts, discoverRangeFacts node table column filterSql parameters pushed = .ok facts →
      facts.column = column.name ∧ facts.declaredType = column.declaredType ∧
      FactsExact (select stored fun r => whole v r filterSql pushed)
        (fun r => v.integer r column.name) facts) ∧
    ((∃ facts, discoverRangeFacts node table column filterSql parameters pushed = .ok facts) ↔
      isIntegerRangeColumn column = .ok true ∧ node.opened = none ∧
      node.closed ≠ some .interrupt ∧
      ∃ filter q result, validateFilter filterSql = .ok filter ∧
        buildSelect (rangeRequest table column.name filter parameters pushed) = .ok q ∧
        node.server.answer (aggregateQuery table column.name ++
          whereText q.serverSide q.condition) q.parameters = .ok result) := by
  refine ⟨fun facts hfacts => discovered_exact hcompiled htruthful hfacts, ?_⟩
  constructor
  · rintro ⟨facts, hfacts⟩
    obtain ⟨hinteger, hopened, hclosed, filter, q, result, hfilter, hq, hanswer, -⟩ :=
      discoverRangeFacts_eq_ok.mp hfacts
    exact ⟨hinteger, hopened, hclosed, filter, q, result, hfilter, hq, hanswer⟩
  · rintro ⟨hinteger, hopened, hclosed, filter, q, result, hfilter, hq, hanswer⟩
    obtain ⟨keyless, hrows⟩ := htruthful hinteger filter q result hfilter hq hanswer
    obtain ⟨facts, hfacts, -⟩ := factsOf_aggregateRow (select stored fun r => q.truth v r)
      (fun r => v.integer r column.name) column keyless
    rw [← hrows] at hfacts
    exact ⟨facts, discoverRangeFacts_eq_ok.mpr
      ⟨hinteger, hopened, hclosed, filter, q, result, hfilter, hq, hanswer, hfacts⟩⟩

end RangeFacts

section Example

def filteredView : RowView (Option ℤ) :=
  { exampleView with
    filter := fun r => r.elim .unknown fun k => .ofBool (decide (2 < k)) }

def keyFilter : Text := "k > 2".toList

def exampleAggregates : Node where
  server :=
    { connection := exampleConnection 'a'
      answer := fun _ _ =>
        .ok ⟨[], [aggregateRow
          (select exampleRows fun r => whole filteredView r (some keyFilter) none) id none]⟩ }
  probe := fun _ => .ok none
  representable := fun _ => true

def emptyAggregates : Node :=
  { exampleAggregates with
    server :=
      { connection := exampleConnection 'a'
        answer := fun _ _ => .ok ⟨[], [aggregateRow (0 : Multiset (Option ℤ)) id (some 0)]⟩ } }

def keyColumn : TargetColumn := { name := "k".toList, declaredType := "Int64".toList, position := 1 }

theorem exampleAggregates_truthful :
    @AnswersAggregate asciiDatabase _ exampleAggregates exampleTable keyColumn (some keyFilter) []
      none filteredView exampleRows := by
  intro hinteger filter q result hfilter hq hanswer
  obtain rfl := Except.ok.inj hanswer
  rw [@select_rangeRequest asciiDatabase exampleTable (some keyFilter) filter [] none q
    keyColumn.name _ filteredView exampleRows hfilter (fun p hp => compiled_of_none p hp) hq]
  exact ⟨none, rfl⟩

theorem emptyAggregates_truthful :
    @AnswersAggregate asciiDatabase _ emptyAggregates exampleTable keyColumn (some keyFilter) []
      none filteredView 0 := by
  intro hinteger filter q result hfilter hq hanswer
  obtain rfl := Except.ok.inj hanswer
  exact ⟨some 0, rfl⟩

theorem range_facts_exact_example :
    (∃ facts, @discoverRangeFacts asciiDatabase exampleAggregates exampleTable keyColumn
        (some keyFilter) [] none = .ok facts ∧ facts.minimum = some 5 ∧ facts.nullRows = 0 ∧
      FactsExact (select exampleRows fun r => whole filteredView r (some keyFilter) none)
        (fun r => filteredView.integer r keyColumn.name) facts) ∧
    ∃ facts, @discoverRangeFacts asciiDatabase emptyAggregates exampleTable keyColumn
        (some keyFilter) [] none = .ok facts ∧ facts.minimum = some 0 ∧ facts.totalRows = 0 ∧
      FactsExact (select 0 fun r => whole filteredView r (some keyFilter) none)
        (fun r => filteredView.integer r keyColumn.name) facts := by
  have hcheck : Outcome.check (@discoverRangeFacts asciiDatabase exampleAggregates exampleTable
      keyColumn (some keyFilter) [] none) (fun facts =>
        decide (facts.minimum = some 5 ∧ facts.nullRows = 0)) = true := by
    decide +kernel
  have hempty : Outcome.check (@discoverRangeFacts asciiDatabase emptyAggregates exampleTable
      keyColumn (some keyFilter) [] none) (fun facts =>
        decide (facts.minimum = some 0 ∧ facts.totalRows = 0)) = true := by
    decide +kernel
  constructor
  · obtain ⟨facts, hfacts, hvalues⟩ := Outcome.check_eq_true.mp hcheck
    obtain ⟨hminimum, hnulls⟩ := of_decide_eq_true hvalues
    obtain ⟨-, -, hexact⟩ := (@range_facts_exact asciiDatabase exampleAggregates exampleTable
      (some keyFilter) [] none keyColumn _ filteredView exampleRows
      (fun p hp => compiled_of_none p hp) exampleAggregates_truthful).1 facts hfacts
    exact ⟨facts, hfacts, hminimum, hnulls, hexact⟩
  · obtain ⟨facts, hfacts, hvalues⟩ := Outcome.check_eq_true.mp hempty
    obtain ⟨hminimum, htotal⟩ := of_decide_eq_true hvalues
    obtain ⟨-, -, hexact⟩ := (@range_facts_exact asciiDatabase emptyAggregates exampleTable
      (some keyFilter) [] none keyColumn _ filteredView 0
      (fun p hp => compiled_of_none p hp) emptyAggregates_truthful).1 facts hfacts
    exact ⟨facts, hfacts, hminimum, htotal, hexact⟩

end Example

section Parts

variable [UnicodeDatabase] {ρ : Type*} {node : Node} {table : QualifiedTable}
variable {partitionId : ρ → Text} {stored : Multiset ρ}

structure ActivePart where
  partitionId : Text
  rows : ℕ
  marks : ℕ
  bytesOnDisk : ℕ

def partitionSums (parts : List ActivePart) (id : Text) : PartitionInfo :=
  let group := parts.filter fun part => part.partitionId = id
  ⟨id, some (group.map ActivePart.rows).sum, some (group.map ActivePart.marks).sum,
    some (group.map ActivePart.bytesOnDisk).sum⟩

def groupedParts (parts : List ActivePart) : List PartitionInfo :=
  (sortedNames (parts.map ActivePart.partitionId)).map (partitionSums parts)

def partitionRow (partition : PartitionInfo) : List Cell :=
  [.str partition.partitionId, .int (partition.rows.getD 0), .int (partition.marks.getD 0),
    .int (partition.bytesOnDisk.getD 0)]

/-- The node answers from the active parts, if it answers, and every stored row lies in one of
them. A physical column named like the virtual one hides the ids of the parts. -/
structure AnswersParts (node : Node) (table : QualifiedTable) (partitionId : ρ → Text)
    (stored : Multiset ρ) (parts : List ActivePart) : Prop where
  grouped : ∀ result, node.server.answer partsQuery (tableParameters table) = .ok result →
    result.rows = (groupedParts parts).map partitionRow
  covered : ∀ result, node.server.answer physicalColumnQuery (tableParameters table) =
      .ok result → result.rows = [] →
    ∀ r ∈ stored, partitionId r ∈ parts.map ActivePart.partitionId

theorem discoveredPartition_row {partition read : PartitionInfo} {rows marks bytesOnDisk : ℕ}
    (hrows : partition.rows = some rows) (hmarks : partition.marks = some marks)
    (hbytes : partition.bytesOnDisk = some bytesOnDisk)
    (h : discoveredPartition (partitionRow partition) = .ok read) : read = partition := by
  unfold discoveredPartition partitionRow at h
  simp only [hrows, hmarks, hbytes, Option.getD_some, intOf] at h
  split at h
  · simp [Outcome.raise] at h
  · obtain ⟨a, ha, h⟩ := Except.bind_eq_ok.mp h
    obtain ⟨b, hb, h⟩ := Except.bind_eq_ok.mp h
    obtain ⟨c, hc, h⟩ := Except.bind_eq_ok.mp h
    cases ha
    cases hb
    cases hc
    obtain ⟨-, h⟩ := passed_eq_ok.mp h
    obtain rfl := Except.ok.inj h
    cases partition
    simp only [Int.toNat_natCast, PartitionInfo.mk.injEq, true_and]
    exact ⟨hrows.symm, hmarks.symm, hbytes.symm⟩

omit [UnicodeDatabase] in
theorem nodup_sortedNames (names : List Text) : (sortedNames names).Nodup :=
  (List.mergeSort_perm _ _).nodup_iff.mpr (List.nodup_dedup names)

omit [UnicodeDatabase] in
theorem mem_sortedNames {name : Text} {names : List Text} :
    name ∈ sortedNames names ↔ name ∈ names :=
  (List.mergeSort_perm _ _).mem_iff.trans List.mem_dedup

omit [UnicodeDatabase] in
theorem groupedParts_ids (parts : List ActivePart) :
    (groupedParts parts).map PartitionInfo.partitionId =
      sortedNames (parts.map ActivePart.partitionId) := by
  unfold groupedParts
  rw [List.map_map]
  exact List.map_id _

/-- The discovered partitions are the groups of the active parts, and they are exact. -/
theorem partitions_exact {parts : List ActivePart} {partitions : List PartitionInfo}
    (htruthful : AnswersParts node table partitionId stored parts)
    (h : discoverPartitions node table = .ok partitions) :
    partitions = groupedParts parts ∧ PartitionsExact stored partitionId partitions := by
  obtain ⟨-, -, h⟩ := withClient_eq_ok.mp h
  obtain ⟨engine, -, h⟩ := Except.bind_eq_ok.mp h
  obtain ⟨-, h⟩ := passed_eq_ok.mp h
  obtain ⟨physical, hphysical, h⟩ := Except.bind_eq_ok.mp h
  obtain ⟨hnone, h⟩ := passed_eq_ok.mp h
  obtain ⟨rows, hrows, h⟩ := Except.bind_eq_ok.mp h
  obtain ⟨described, hdescribed, rfl⟩ := ask_eq_ok.mp hphysical
  obtain ⟨result, hresult, rfl⟩ := ask_eq_ok.mp hrows
  rw [htruthful.grouped result hresult] at h
  have hsame : partitions = groupedParts parts := by
    have hall := List.forall₂_map_left_iff.mp (Except.mapM_eq_ok.mp h)
    have hequal : List.Forall₂ Eq (groupedParts parts) partitions := by
      apply forall₂_of_mem hall
      intro partition hpartition read _ hread
      obtain ⟨id, -, rfl⟩ := List.mem_map.mp hpartition
      exact (discoveredPartition_row rfl rfl rfl hread).symm
    rw [List.forall₂_eq_eq_eq] at hequal
    exact hequal.symm
  refine ⟨hsame, ?_⟩
  rw [hsame]
  constructor
  · rw [groupedParts_ids]
    exact nodup_sortedNames _
  · intro r hr
    rw [groupedParts_ids, mem_sortedNames]
    exact htruthful.covered described hdescribed (not_not.mp hnone) r hr

end Parts

end RayClickHouse.TableDiscovery
