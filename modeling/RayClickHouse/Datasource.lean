import RayClickHouse.Discovery
import RayClickHouse.ReadProjection
import RayClickHouse.Sql

/-!
The Datasource of one table: its configuration, the scans it plans from a
planning snapshot, and the regrouping of local shard scans under one budget.
-/
namespace RayClickHouse.Datasource

open Text Schema Predicates Planning Discovery RayClickHouse.Distribution Sql

variable [UnicodeDatabase]

/-- The fields of the read configuration before they are checked. -/
structure ReadSettings where
  connection : ClickHouseConnection
  table : QualifiedTable
  columns : Option (List Text) := none
  filterSql : Option Text := none
  queryParameters : Bindings := []
  orderBy : Option (List (Text × Bool)) := none
  split : SplitMode := .single
  rangeColumn : Option Text := none
  discoveryPolicy : DiscoveryPolicy := .single
  targetTasks : ℤ := 8
  maxTasks : ℤ := 256
  convertDistributedToLocal : Bool := false

def ReadSettings.validate (s : ReadSettings) : Outcome Unit := do
  let _ ← validateFilterParameters s.filterSql s.queryParameters
  if s.split = .range ∧ s.rangeColumn.isNone then
    Outcome.raise .configuration "split='range' requires range_column"
  else if s.split = .auto ∧ s.rangeColumn.isSome then
    Outcome.raise .configuration "split='auto' does not accept range_column"
  else if s.orderBy.isSome ∧ s.split ≠ .single then
    Outcome.raise .configuration "order_by requires split='single'"
  else do
    let _ ← s.rangeColumn.toList.mapM fun c => validateIdentifier c "range_column"
    if s.targetTasks < 1 ∨ s.maxTasks < s.targetTasks then
      Outcome.raise .configuration "max_tasks must be >= target_tasks"
    else .ok ()

/-- A configuration that passed its checks. -/
structure ReadConfig extends ReadSettings where
  accepted : toReadSettings.validate = .ok ()

structure QuerySpec where
  query : SelectQuery
  arrowSchema : ArrowSchema
  operation : String := "read"

/-- One query of a task, and where it is sent. -/
structure Scan where
  connection : ClickHouseConnection
  table : QualifiedTable
  query : QuerySpec
  columns : List Text

structure ReadTask where
  scans : List Scan
  schema : ArrowSchema
  perTaskRowLimit : Option ℤ

/-- A datasource without local sources. A pushed predicate is one the compiler
returned. -/
structure DirectSource where
  config : ReadConfig
  snapshot : DiscoverySnapshot
  projectionColumns : Option (List Text) := config.columns
  pushedPredicate : Option CompiledPredicate := none
  logicalFallback : Bool := false
  compiled : ∀ p, pushedPredicate = some p → Compiled p

structure Source extends DirectSource where
  localSources : List DirectSource := []

def fieldOf (schema : SchemaPlan) (name : Text) : Outcome Field :=
  Outcome.ofOption ⟨.builtin, "KeyError", [name]⟩ (schema.arrowSchema.field? name)

namespace DirectSource

def sourceColumns (s : DirectSource) : List Text :=
  match s.config.columns with
  | some (c :: rest) => c :: rest
  | _ => s.snapshot.schema.arrowSchema.names

def selectedColumns (s : DirectSource) : Outcome (List Text) :=
  let names := s.snapshot.schema.arrowSchema.names
  let unknown := s.sourceColumns.filter (· ∉ names)
  let orderColumns := (s.config.orderBy.getD []).map Prod.fst
  let unknownOrder := orderColumns.filter
    (· ∉ s.snapshot.schema.columns.map TargetColumn.name)
  if unknown ≠ [] then
    Outcome.raise .configuration "unknown ClickHouse columns" (sortedNames unknown)
  else if unknownOrder ≠ [] then
    Outcome.raise .configuration "unknown order_by columns" (sortedNames unknownOrder)
  else .ok (s.projectionColumns.getD s.sourceColumns)

structure Constraint where
  partitionIds : Option (List Text) := none
  rangeLower : Option ℤ := none
  rangeUpper : Option ℤ := none
  includeNull : Bool := false

/-- An empty projection still reads one column, which carries the rows. -/
def scanColumns (s : DirectSource) (columns : List Text) : Outcome (List Text) :=
  match columns with
  | c :: rest => .ok (c :: rest)
  | [] =>
      match s.sourceColumns with
      | c :: _ => .ok [c]
      | [] => Outcome.raise .builtin "tuple index out of range"

def taskRequest (s : DirectSource) (scanColumns : List Text) (projection : Text)
    (constraint : Constraint) : SelectRequest where
  table := s.config.table
  columns := scanColumns
  filterSql := s.config.filterSql
  parameters := s.config.queryParameters
  pushedPredicate := s.pushedPredicate
  partitionIds := constraint.partitionIds
  rangeColumn :=
    if constraint.rangeLower.isSome || constraint.rangeUpper.isSome then
      s.snapshot.rangeFacts.map RangeFacts.column
    else none
  rangeLower := constraint.rangeLower
  rangeUpper := constraint.rangeUpper
  rangeIncludeNull := constraint.includeNull
  projection := some projection
  orderBy := s.config.orderBy

def makeTask (s : DirectSource) (columns : List Text) (perTaskRowLimit : Option ℤ)
    (constraint : Constraint) : Outcome ReadTask := do
  let scanned ← s.scanColumns columns
  let definitions ← scanned.mapM fun name =>
    Outcome.ofOption ⟨.builtin, "KeyError", [name]⟩ (columnNamed s.snapshot.schema.columns name)
  let projection ← renderReadProjection definitions
  let query ← buildSelect (s.taskRequest scanned projection constraint)
  let arrowSchema ← scanned.mapM (fieldOf s.snapshot.schema)
  let schema ← columns.mapM (fieldOf s.snapshot.schema)
  .ok ⟨[⟨s.config.connection, s.config.table, ⟨query, arrowSchema, "read"⟩, columns⟩], schema,
    perTaskRowLimit⟩

end DirectSource

def taskCount (config : ReadConfig) (parallelism : ℤ) : ℕ :=
  (min (min (max 1 parallelism) config.targetTasks) config.maxTasks).toNat

namespace DirectSource

/-- The split constraints of the tasks; an empty plan is one query without any. -/
def constraints (s : DirectSource) (parallelism : ℤ) : Outcome (List Constraint) :=
  let whole : List Constraint := [{}]
  let count := taskCount s.config parallelism
  if s.config.split = .single ∨ s.logicalFallback then .ok whole
  else if s.config.split = .partition ∧ s.snapshot.partitions ≠ [] then
    let groups := groupPartitions s.snapshot.partitions count s.config.maxTasks.toNat
    .ok (if groups = [] then whole else groups.map fun ids => { partitionIds := some ids })
  else
    match s.snapshot.rangeFacts with
    | some facts =>
        if s.config.split = .range ∨ s.config.split = .auto then do
          let ranges ← planIntegerRanges facts count s.config.maxTasks.toNat
          .ok (if ranges = [] then whole
            else ranges.map fun r => ⟨none, r.lower, r.upper, r.includeNull⟩)
        else .ok whole
    | none => .ok whole

def getReadTasks (s : DirectSource) (parallelism : ℤ) (perTaskRowLimit : Option ℤ := none) :
    Outcome (List ReadTask) := do
  let columns ← s.selectedColumns
  let constraints ← s.constraints parallelism
  constraints.mapM (s.makeTask columns perTaskRowLimit)

end DirectSource

def groupReadTasks (tasks : List ReadTask) (schema : ArrowSchema) (rowLimit : Option ℤ) : ReadTask :=
  ⟨tasks.flatMap ReadTask.scans, schema, rowLimit⟩

namespace Source

/-- The budget of one shard: an equal share, at least one task. -/
def shardBudget (s : Source) (parallelism : ℤ) : ℤ :=
  max 1 (taskCount s.config parallelism / s.localSources.length : ℕ)

def shardScans (s : Source) (parallelism : ℤ) : Outcome (List (List ReadTask)) :=
  s.localSources.mapM fun source => source.getReadTasks (s.shardBudget parallelism)

def getReadTasks (s : Source) (parallelism : ℤ) (perTaskRowLimit : Option ℤ := none) :
    Outcome (List ReadTask) :=
  if s.localSources = [] then s.toDirectSource.getReadTasks parallelism perTaskRowLimit
  else do
    let columns ← s.selectedColumns
    let plans ← s.shardScans parallelism
    let scans := plans.flatten
    let groups := roundRobin (min (taskCount s.config parallelism) scans.length) scans
    let schema ← columns.mapM (fieldOf s.snapshot.schema)
    .ok (groups.map fun group => groupReadTasks group schema perTaskRowLimit)

end Source

section Local

/-- The replica of a shard that local reads go to. -/
structure LocalTarget where
  shard : ℕ
  replica : ℕ
  connection : ClickHouseConnection
  table : QualifiedTable
  schema : SchemaPlan
  partitions : Option (List PartitionInfo) := none
  sortingKey : Option Text := none

def orSingle (policy : DiscoveryPolicy) (facts : Outcome RangeFacts) : Outcome (Option RangeFacts) :=
  match facts with
  | .ok facts => .ok (some facts)
  | .error failure =>
      if failure.kind = .discovery ∧ policy ≠ .error then .ok none else .error failure

/-- The range column of a local target: the automatic one, or the configured one. -/
def localRangeColumn (config : ReadConfig) (target : LocalTarget) : Outcome TargetColumn :=
  if config.split = .auto then
    match target.sortingKey with
    | none => Outcome.raise .discovery "local target lacks sorting_key capability"
    | some key => selectAutoRangeColumn key target.schema.columns
  else
    match target.schema.columns.find? fun c => some c.name = config.rangeColumn with
    | none => Outcome.raise .configuration "range_column is not present in the table schema"
    | some column => .ok column

/-- The range facts of a local target. Range discovery is the server's answer. -/
def localRangeFacts (config : ReadConfig)
    (discoverRangeFacts : LocalTarget → TargetColumn → Outcome RangeFacts) (target : LocalTarget) :
    Outcome (Option RangeFacts) :=
  if config.split = .auto ∨ config.split = .range then
    orSingle config.discoveryPolicy (do
      let column ← localRangeColumn config target
      discoverRangeFacts target column)
  else .ok none

def prepareLocalSource (s : DirectSource) (sourceSchema : SchemaPlan)
    (discoverRangeFacts : LocalTarget → TargetColumn → Outcome RangeFacts) (target : LocalTarget) :
    Outcome DirectSource := do
  let config : ReadConfig :=
    { toReadSettings := { s.config.toReadSettings with
        connection := target.connection
        table := target.table
        convertDistributedToLocal := false
        columns := some (match s.config.columns with
          | some (c :: rest) => c :: rest
          | _ => sourceSchema.arrowSchema.names) }
      accepted := s.config.accepted }
  if s.config.split = .partition ∧ target.partitions.isNone ∧ s.config.discoveryPolicy = .error then
    Outcome.raise .discovery "local target lacks physical partition metadata"
  else do
    let facts ← localRangeFacts s.config discoverRangeFacts target
    .ok {
      config := config
      snapshot := ⟨target.schema, "MergeTree".toList, target.partitions.getD [], facts⟩
      projectionColumns := s.projectionColumns
      pushedPredicate := s.pushedPredicate
      compiled := s.compiled
    }

def prepareLocalSources (s : DirectSource) (sourceSchema : SchemaPlan)
    (discoverRangeFacts : LocalTarget → TargetColumn → Outcome RangeFacts)
    (targets : List LocalTarget) : Outcome (List DirectSource) :=
  targets.mapM (prepareLocalSource s sourceSchema discoverRangeFacts)

end Local

end RayClickHouse.Datasource
