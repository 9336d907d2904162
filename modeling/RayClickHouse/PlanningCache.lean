import RayClickHouse.Datasource
import RayClickHouse.RayExpressions

/-!
A datasource as Ray Data holds it: the configuration, the pushed projection and
predicate, and the planning cache, which the first call that needs it fills. A
call changes a datasource only by assignments to its own fields, in the order
of the source, and an error keeps the assignments made before it. What the
discovery calls return is given with each call.
-/
namespace RayClickHouse.Datasource

open Text Schema Predicates Planning Discovery Sql

structure ResolvedDistributed where
  targets : List LocalTarget

/-- What the discovery calls of one call return. -/
structure Answers where
  discoverSchema : Outcome SchemaPlan
  discoverEngine : Outcome Text
  discoverPartitions : Outcome (List PartitionInfo)
  discoverRangeFacts : TargetColumn → Outcome RangeFacts
  discoverSortingKey : Outcome Text
  discoverPredicateContext : Outcome Bool
  resolveDistributed : Outcome ResolvedDistributed
  localRangeFacts : LocalTarget → TargetColumn → Outcome RangeFacts

def localMergetreeEngines : List Text := writeEngines

def singleQueryEngines : List Text := ["View".toList, "Distributed".toList]

def isMergetreeEngine (engine : Text) : Bool :=
  "MergeTree".toList.isSuffixOf engine && decide (engine ≠ "Distributed".toList)

def orElse {α : Type} (policy : DiscoveryPolicy) (missing : α) (facts : Outcome α) : Outcome α :=
  match facts with
  | .ok facts => .ok facts
  | .error failure =>
      if failure.kind = .discovery ∧ policy ≠ .error then .ok missing else .error failure

theorem compilePredicate_native {node : PredicateNode} {schema : SchemaPlan} {native : Bool}
    {compiled : CompiledPredicate} (h : compilePredicate node schema native = .ok (some compiled)) :
    compiled.native = native := by
  unfold compilePredicate at h
  split at h
  · cases h
    rfl
  · simp at h
  · contradiction

theorem compiled_some {node : PredicateNode} {schema : SchemaPlan} {native : Bool}
    {compiled : CompiledPredicate} (h : compilePredicate node schema native = .ok (some compiled)) :
    ∀ p, some compiled = some p → Compiled p := by
  intro p hp
  cases hp
  exact ⟨node, schema, by rw [compilePredicate_native h]; exact h⟩

variable [UnicodeDatabase]

/-- The fields of a datasource. Its local sources are planned when they are made and have no
local sources of their own. -/
structure ClickHouseDatasource where
  config : ReadConfig
  projectionColumns : Option (List Text)
  planningSnapshot : Option DiscoverySnapshot := none
  resolvedDistributed : Option ResolvedDistributed := none
  localSources : List DirectSource := []
  logicalFallback : Bool := false
  predicateNode : Option PredicateNode := none
  pushedPredicate : Option CompiledPredicate := none
  predicateSchema : Option SchemaPlan := none
  predicateExpr : Option RayExpr := none
  compiled : ∀ p, pushedPredicate = some p → Compiled p

abbrev Planner (α : Type) := ExceptT Failure (StateM ClickHouseDatasource) α

namespace Planner

def attempt {α : Type} (x : Outcome α) : Planner α := ExceptT.mk (pure x)

def assign (change : ClickHouseDatasource → ClickHouseDatasource) : Planner Unit := modify change

def call {α : Type} (planner : Planner α) (self : ClickHouseDatasource) :
    Outcome α × ClickHouseDatasource :=
  StateT.run (ExceptT.run planner) self

end Planner

namespace ClickHouseDatasource

def ofConfig (config : ReadConfig) : ClickHouseDatasource where
  config := config
  projectionColumns := config.columns
  compiled := fun _ h => absurd h (Option.some_ne_none _).symm

/-- The datasource with a snapshot, as its local sources and its tasks are made from it. -/
def planned (self : ClickHouseDatasource) (snapshot : DiscoverySnapshot) : DirectSource where
  config := self.config
  snapshot := snapshot
  projectionColumns := self.projectionColumns
  pushedPredicate := self.pushedPredicate
  logicalFallback := self.logicalFallback
  compiled := self.compiled

/-- The shards of a filtered Distributed table without global ordering; none for another source
or one that local reads do not apply to. -/
def resolve (self : ClickHouseDatasource) (answers : Answers) (engine : Text)
    (filter : Option FilterCondition) : Outcome (Option ResolvedDistributed) :=
  let filtered := filter.any fun condition => decide (condition.text ≠ [])
  let ordered := self.config.orderBy.any fun columns => !columns.isEmpty
  if engine = "Distributed".toList ∧ filtered ∧ !ordered then
    match answers.resolveDistributed with
    | .ok resolved => .ok (some resolved)
    | .error failure => if failure.kind = .notApplicable then .ok none else .error failure
  else .ok none

def discoverPartitions (self : ClickHouseDatasource) (answers : Answers) :
    Outcome (List PartitionInfo) :=
  if self.config.split = .partition then
    orElse self.config.discoveryPolicy [] answers.discoverPartitions
  else .ok []

def discoverRange (self : ClickHouseDatasource) (answers : Answers) (schema : SchemaPlan)
    (engine : Text) : Outcome (Option RangeFacts) :=
  match self.config.split with
  | .range =>
      match schema.columns.find? fun c => some c.name = self.config.rangeColumn with
      | none => Outcome.raise .configuration "range_column is not present in the table schema"
      | some column => orSingle self.config.discoveryPolicy (answers.discoverRangeFacts column)
  | .auto =>
      orSingle self.config.discoveryPolicy (do
        if engine ∉ localMergetreeEngines then
          Outcome.raise .discovery "automatic range splitting requires a direct MergeTree table"
        else do
          let sortingKey ← answers.discoverSortingKey
          let column ← selectAutoRangeColumn sortingKey schema.columns
          answers.discoverRangeFacts column)
  | _ => .ok none

/-- The part of `_ensure_planning_snapshot` for views and converted Distributed tables. -/
def planSingleQuery (self : ClickHouseDatasource) (answers : Answers) (schema : SchemaPlan)
    (engine : Text) (filter : Option FilterCondition) : Planner DiscoverySnapshot := do
  let snapshot : DiscoverySnapshot := { schema := schema, engine := engine }
  match ← Planner.attempt (self.resolve answers engine filter) with
  | some resolved =>
    let sources ← Planner.attempt (prepareLocalSources (self.planned snapshot) schema
      answers.localRangeFacts resolved.targets)
    Planner.assign fun s => { s with resolvedDistributed := some resolved }
    Planner.assign fun s => { s with localSources := sources }
  | none => Planner.assign fun s => { s with logicalFallback := true }
  Planner.assign fun s => { s with planningSnapshot := some snapshot }
  return snapshot

def planDirect (self : ClickHouseDatasource) (answers : Answers) (schema : SchemaPlan)
    (engine : Text) : Planner DiscoverySnapshot :=
  if !isMergetreeEngine engine ∧
      ¬ ((self.config.split = .single ∨ self.config.split = .auto) ∧
        engine ∈ singleQueryEngines) then
    Planner.attempt (Outcome.raise .discovery "ClickHouse engine is unsupported" [engine])
  else do
    let partitions ← Planner.attempt (self.discoverPartitions answers)
    let rangeFacts ← Planner.attempt (self.discoverRange answers schema engine)
    let snapshot : DiscoverySnapshot := ⟨schema, engine, partitions, rangeFacts⟩
    Planner.assign fun s => { s with planningSnapshot := some snapshot }
    return snapshot

/-- The schema that a pushed predicate was checked against is not discovered again. -/
def planningSchema (self : ClickHouseDatasource) (answers : Answers) : Outcome SchemaPlan :=
  match self.predicateSchema with
  | some schema => .ok schema
  | none => answers.discoverSchema

def ensurePlanningSnapshot (answers : Answers) : Planner DiscoverySnapshot := do
  let self ← get
  match self.planningSnapshot with
  | some snapshot => return snapshot
  | none =>
    let schema ← Planner.attempt (self.planningSchema answers)
    let engine ← Planner.attempt answers.discoverEngine
    let filter ← Planner.attempt (effectiveFilter self.config.filterSql self.config.queryParameters
      self.pushedPredicate false)
    if self.config.convertDistributedToLocal ∧ engine ∈ singleQueryEngines then
      self.planSingleQuery answers schema engine filter.condition
    else self.planDirect answers schema engine

def selectedColumns (self : ClickHouseDatasource) (snapshot : DiscoverySnapshot) :
    Outcome (List Text) :=
  (self.planned snapshot).selectedColumns

def arrowSchema (answers : Answers) : Planner ArrowSchema := do
  let snapshot ← ensurePlanningSnapshot answers
  let self ← get
  let columns ← Planner.attempt (self.selectedColumns snapshot)
  Planner.attempt (columns.mapM (fieldOf snapshot.schema))

def getReadTasks (answers : Answers) (parallelism : ℤ) (perTaskRowLimit : Option ℤ) :
    Planner (List ReadTask) := do
  let snapshot ← ensurePlanningSnapshot answers
  let self ← get
  let source : Source := { self.planned snapshot with localSources := self.localSources }
  Planner.attempt (source.getReadTasks parallelism perTaskRowLimit)

end ClickHouseDatasource

def mappedColumns (source : DirectSource) :
    Option (List Text) → Outcome (Option (List Text))
  | none => .ok source.projectionColumns
  | some names => do
      let columns ← names.mapM fun name => validateIdentifier name "column"
      .ok (some columns)

def projectedColumns (source : DirectSource) (projectionMap : Option (List Text)) :
    Outcome (Option (List Text)) := do
  let available ← source.selectedColumns
  let columns ← mappedColumns source projectionMap
  let unknown := (columns.getD []).filter (· ∉ available)
  if unknown ≠ [] then
    Outcome.raise .configuration "unknown ClickHouse columns" (sortedNames unknown)
  else .ok columns

def DirectSource.applyProjection (source : DirectSource) (projectionMap : Option (List Text)) :
    Outcome DirectSource := do
  let columns ← projectedColumns source projectionMap
  .ok { source with projectionColumns := columns }

namespace ClickHouseDatasource

/-- The projected copy of the datasource, whose own fields planning may fill. -/
def applyProjection (ray : RayVersion) (answers : Answers) (projectionMap : Option (List Text)) :
    Planner ClickHouseDatasource := do
  if !supportsV1ProjectionPushdown ray then
    Planner.attempt
      (Outcome.raise .configuration "V1 projection is unverified on this Ray release")
  else
    let snapshot ← ensurePlanningSnapshot answers
    let self ← get
    let columns ← Planner.attempt (projectedColumns (self.planned snapshot) projectionMap)
    let sources ← Planner.attempt
      (self.localSources.mapM fun source => source.applyProjection projectionMap)
    return { self with projectionColumns := columns, localSources := sources }

def selectedSchema (self : ClickHouseDatasource) (schema : SchemaPlan) : Outcome SchemaPlan := do
  let selected := self.projectionColumns.getD (match self.config.columns with
    | some (c :: rest) => c :: rest
    | _ => schema.arrowSchema.names)
  let fields ← selected.mapM (fieldOf schema)
  .ok ⟨fields, schema.columns.filter fun column => column.name ∈ selected⟩

def combined (self : ClickHouseDatasource) (decoded : PredicateNode) : PredicateNode :=
  match self.predicateNode with
  | some node => .node .and [node, decoded] .null
  | none => decoded

/-- The schema a predicate is checked against: the planned one, or the one of the predicate
before it. -/
def schemaInHand (self : ClickHouseDatasource) (answers : Answers) : Outcome SchemaPlan :=
  match self.planningSnapshot with
  | some snapshot => .ok snapshot.schema
  | none => self.planningSchema answers

def predicateClone (self : ClickHouseDatasource) (answers : Answers) (node : PredicateNode)
    (schema : SchemaPlan) (predicateExpr : RayExpr) (compiled : CompiledPredicate)
    (hcompiled : ∀ p, some compiled = some p → Compiled p) :
    Outcome (Option ClickHouseDatasource) := do
  let context ← answers.discoverPredicateContext
  if !context then .ok none
  else
    .ok (some {
      config := self.config
      projectionColumns := self.projectionColumns
      predicateNode := some node
      pushedPredicate := some compiled
      predicateSchema := some schema
      predicateExpr := some (combinePredicates self.predicateExpr predicateExpr)
      compiled := hcompiled })

/-- The clone with one more expression, none when the datasource itself is returned. -/
def applyPredicate (self : ClickHouseDatasource) (ray : RayVersion) (answers : Answers)
    (predicateExpr : RayExpr) : Outcome (Option ClickHouseDatasource) :=
  match decodePredicate ray predicateExpr with
  | none => .ok none
  | some decoded => do
      match ← predicateBindingProtocol self.config.filterSql self.config.queryParameters with
      | none => .ok none
      | some protocol =>
          let schema ← self.schemaInHand answers
          let selected ← self.selectedSchema schema
          match hcompiled : compilePredicate (self.combined decoded) selected protocol with
          | .error failure => .error failure
          | .ok none => .ok none
          | .ok (some compiled) =>
              self.predicateClone answers (self.combined decoded) schema predicateExpr compiled
                (compiled_some hcompiled)

end ClickHouseDatasource

end RayClickHouse.Datasource
