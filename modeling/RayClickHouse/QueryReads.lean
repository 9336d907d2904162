import RayClickHouse.FaithfulReads
import RayClickHouse.ParameterValues
import RayClickHouse.Sql
import RayClickHouse.TargetReader
import RayClickHouse.WrappedQuery

/-!
The source of a single query. Its configuration holds an accepted query and
settings that only allow reads; the schema of the result is discovered once, by
the first call that succeeds, and the one task streams the query against it.
-/
namespace RayClickHouse.QueryReads

open Text TypeText Lexical FilterScan Sql Schema Discovery Metadata Query Batches

def sortedItems (d : Bindings) : Bindings := d.insertionSort fun a b => a.1 ≤ b.1

/-- value == 1; another object may equal 1 as well. -/
def isOne (equalsOne : ℕ → Bool) : Value → Bool
  | .int i => i == 1
  | .bool b => b
  | .other tag => equalsOne tag
  | _ => false

def readonlyName : Text := "readonly".toList

structure ReadonlySettings (settings : Bindings) : Prop where
  distinct : settings.names.Nodup
  readonly : (readonlyName, .int 1) ∈ settings

section Settings

theorem nodup_set {values : Bindings} (name : Text) (value : Value) (h : values.names.Nodup) :
    (values.set name value).names.Nodup := by
  rw [Bindings.names_set]
  split
  · exact h
  · rename_i hfresh
    exact List.Nodup.append h (List.nodup_singleton name) (List.disjoint_singleton.mpr hfresh)

theorem nodup_update {values : Bindings} (items : Bindings) (h : values.names.Nodup) :
    (values.update items).names.Nodup := by
  unfold Bindings.update
  induction items generalizing values with
  | nil => exact h
  | cons item rest ih => exact ih (nodup_set item.1 item.2 h)

theorem mem_set (values : Bindings) (name : Text) (value : Value) :
    (name, value) ∈ values.set name value := by
  unfold Bindings.set
  split
  · rename_i hmem
    obtain ⟨item, hitem, hname⟩ := List.mem_map.mp hmem
    exact List.mem_map.mpr ⟨item, hitem, if_pos hname⟩
  · exact List.mem_append_right _ (List.mem_singleton_self _)

theorem readonlySettings_sorted (settings : Bindings) :
    ReadonlySettings (sortedItems ((dictOf settings).set readonlyName (.int 1))) := by
  have hperm := List.perm_insertionSort (fun a b : Text × Value => a.1 ≤ b.1)
    ((dictOf settings).set readonlyName (.int 1))
  constructor
  · have hnodup : (dictOf settings).names.Nodup := nodup_update settings List.nodup_nil
    exact (hperm.map Prod.fst).nodup_iff.mpr (nodup_set _ _ hnodup)
  · exact hperm.mem_iff.mpr (mem_set _ _ _)

theorem ReadonlySettings.get?_dictOf {settings : Bindings} (h : ReadonlySettings settings) :
    (dictOf settings).get? readonlyName = some (.int 1) :=
  Bindings.get?_update_of_mem [] h.distinct h.readonly

end Settings

section Config

variable [UnicodeDatabase]

def ReadingQuery (query : Text) : Prop := ∃ code, queryCode query = .ok code ∧ ReadCode code

def checkedQuery (value : Text) : Outcome {query : Text // ReadingQuery query} :=
  match h : validateReadQuery value with
  | .error failure => .error failure
  | .ok query => .ok ⟨query, (validateReadQuery_eq_ok h).2⟩

def clientSearch : Option Char → Text → Bool
  | _, [] => false
  | previous, c :: rest =>
      (previous != some '%' && (matchParameter (c :: rest)).isSome) || clientSearch (some c) rest

def hiddenText (sql code : Text) : Text :=
  List.zipWith (fun original masked => if masked = ' ' then original else ' ') sql code

def checkParameters (sql : Text) (parameters : Bindings) : Outcome Unit := do
  let _ ← validateFilterParameters (some sql) parameters
  let code ← queryCode sql
  if parameters ≠ [] ∧ clientSearch none (hiddenText sql code) then
    Outcome.raise .configuration "quoted or commented client placeholders are unsupported"
  else if parameters ≠ [] ∧ driverSearch sql then
    Outcome.raise .configuration "typed placeholder-looking query text is unsupported"
  else .ok ()

def managedSettings (equalsOne : ℕ → Bool) (settings : Bindings) :
    Outcome {managed : Bindings // ReadonlySettings managed} :=
  if isOne equalsOne (((dictOf settings).get? readonlyName).getD (.int 1)) then
    .ok ⟨_, readonlySettings_sorted settings⟩
  else Outcome.raise .configuration "query reads require readonly=1"

structure QueryReadConfig where
  connection : ClickHouseConnection
  querySql : Text
  queryParameters : Bindings
  limits : ResourceLimits
  diagnosticFlushLogs : Bool
  readonly : ReadonlySettings connection.settings
  reading : ReadingQuery querySql

def QueryReadConfig.make (equalsOne : ℕ → Bool) (connection : ClickHouseConnection)
    (querySql : Text) (queryParameters : Bindings) (limits : ResourceLimits)
    (diagnosticFlushLogs : Bool) : Outcome QueryReadConfig := do
  let query ← checkedQuery querySql
  checkParameters query.1 (dictOf queryParameters)
  let settings ← managedSettings equalsOne connection.settings
  .ok ⟨{ connection with settings := settings.1 }, query.1, queryParameters, limits,
    diagnosticFlushLogs, settings.2, query.2⟩

end Config

structure Statement where
  sql : Text
  parameters : Bindings
  settings : Bindings

structure QueryNode where
  opened : Option Raised := none
  describe : Statement → Except Raised (List (List Cell))
  probe : Statement → Except Raised (Option ArrowSchema)
  representable : ArrowSchema → Bool
  str : Cell → Text
  newQueryId : String → Text
  closed : Option Raised := none

def querySettings (connection : ClickHouseConnection) (limits : ResourceLimits) : Bindings :=
  ((dictOf connection.settings).set "max_block_size".toList (.int limits.batchRows)).set
    "max_execution_time".toList (.int (max 1 ⌈limits.queryTimeoutSeconds⌉))

section Rows

def cellText (str : Cell → Text) : Option Cell → Text
  | none => []
  | some .null => []
  | some (.str s) => s
  | some cell => str cell

def describedResult (str : Cell → Text) (position : ℕ) : List Cell → Outcome TargetColumn
  | .str name :: .str declared :: more =>
      .ok ⟨name, strip declared, cellText str more[0]?, cellText str more[1]?, position⟩
  | _ => Outcome.raise .schema "ClickHouse DESCRIBE returned malformed metadata"

def parseDescribeRows (str : Cell → Text) (rows : List (List Cell)) :
    Outcome (List TargetColumn) := do
  let columns ← rows.zipIdx.mapM fun p => describedResult str (p.2 + 1) p.1
  if columns = [] ∨ ¬(columns.map TargetColumn.name).Nodup then
    Outcome.raise .schema "ClickHouse DESCRIBE returned no or duplicate columns"
  else .ok (columns.insertionSort fun a b => a.position ≤ b.position)

def received {α : Type} : Except Raised α → Outcome α
  | .ok a => .ok a
  | .error raised => .error (clientFailure "schema discovery" raised)

end Rows

section Discovery

variable [UnicodeDatabase] (node : QueryNode) (config : QueryReadConfig)

def describeStatement : Statement where
  sql := wrapped describeHead config.querySql describeTail
  parameters := dictOf config.queryParameters
  settings := ((querySettings config.connection config.limits).set readonlyName (.int 1)).set
    "query_id".toList (.str (node.newQueryId "query-describe"))

def probeStatement (projection : Text) : Statement where
  sql := wrapped (selectHead projection) config.querySql probeTail
  parameters := dictOf config.queryParameters
  settings := (describeStatement node config).settings.set
    "query_id".toList (.str (node.newQueryId "query-schema-probe"))

def resultColumns : Outcome (List TargetColumn × Text) := do
  let rows ← received (node.describe (describeStatement node config))
  let columns ← parseDescribeRows node.str rows
  if columns.all fun column => isIdentifier column.name then do
    let projection ← renderReadProjection columns
    .ok (columns, projection)
  else Outcome.raise .schema "query results require unique simple column aliases"

def agree (column : TargetColumn) (field : Field) : Outcome Unit := do
  let (_, nullable) ← unwrap column.declaredType
  let compatible ← arrowCompatible field.type column.declaredType
  if !compatible ∨ field.nullable ≠ nullable then
    Outcome.raise .schema "query declaration and Arrow types or nullability disagree"
  else .ok ()

def probedSchema (columns : List TargetColumn) (statement : Statement) : Outcome SchemaPlan := do
  let probe ← received (node.probe statement)
  match probe with
  | none => Outcome.raise .schema "ClickHouse returned a non-Arrow query schema probe"
  | some arrowSchema => do
      let plan ← canonicalSchema node.representable columns arrowSchema none
      let _ ← (columns.zip arrowSchema).mapM fun p => agree p.1 p.2
      .ok plan

def closeDiscovery (result : Outcome SchemaPlan) : Outcome SchemaPlan :=
  closeOver "failed to close query discovery client" node.closed result

def discoverQuerySchema : Outcome SchemaPlan × List Statement :=
  match node.opened with
  | some raised => (.error (clientFailure "client initialization" raised), [])
  | none =>
      match resultColumns node config with
      | .error failure => (closeDiscovery node (.error failure), [describeStatement node config])
      | .ok (columns, projection) =>
          let probe := probeStatement node config projection
          (closeDiscovery node (probedSchema node columns probe),
            [describeStatement node config, probe])

end Discovery

section Source

variable [UnicodeDatabase]

structure ClickHouseQueryDatasource where
  config : QueryReadConfig
  schemaPlan : Option SchemaPlan := none

/-- The read of a query, as a task carries it to a worker. -/
structure QueryTask where
  config : QueryReadConfig
  sql : Text
  arrowSchema : ArrowSchema
  perTaskRowLimit : Option ℤ

inductive Request
  | arrowSchema
  | getReadTasks (parallelism : ℤ) (perTaskRowLimit : Option ℤ)

inductive Answer
  | schema (arrowSchema : ArrowSchema)
  | tasks (tasks : List QueryTask)

structure Reply where
  outcome : Outcome Answer
  sent : List Statement

namespace QueryTask

def statement (task : QueryTask) (queryId : Text) : Statement :=
  let settings := querySettings task.config.connection task.config.limits
  let logged :=
    if task.config.diagnosticFlushLogs then settings.set "log_queries".toList (.int 1) else settings
  let comment := "ray-clickhouse operation=query-read query_id=".toList ++ queryId
  { sql := task.sql
    parameters := dictOf task.config.queryParameters
    settings := (logged.set "query_id".toList (.str queryId)).set "log_comment".toList
      (.str comment) }

def spec (task : QueryTask) : Streaming.QuerySpec where
  arrowSchema := task.arrowSchema
  strictSchema := true
  diagnosticFlushLogs := task.config.diagnosticFlushLogs

def read (task : QueryTask) (nbytes : Batch → ℕ) (server : Streaming.ReadServer) (pulls : ℕ) :
    Except Streaming.Thrown Unit × List Streaming.Event :=
  Streaming.readRun nbytes task.config.limits server task.spec pulls

end QueryTask

namespace ClickHouseQueryDatasource

def schema (d : ClickHouseQueryDatasource) (node : QueryNode) :
    Outcome SchemaPlan × ClickHouseQueryDatasource × List Statement :=
  match d.schemaPlan with
  | some plan => (.ok plan, d, [])
  | none =>
      match discoverQuerySchema node d.config with
      | (.ok plan, sent) => (.ok plan, { d with schemaPlan := some plan }, sent)
      | (.error failure, sent) => (.error failure, d, sent)

def planned (d : ClickHouseQueryDatasource) (plan : SchemaPlan) : Request → Outcome Answer
  | .arrowSchema => .ok (.schema plan.arrowSchema)
  | .getReadTasks _ perTaskRowLimit => do
      let projection ← renderReadProjection plan.columns
      .ok (.tasks [⟨d.config, wrapped (selectHead projection) d.config.querySql selectTail,
        plan.arrowSchema, perTaskRowLimit⟩])

def serve (d : ClickHouseQueryDatasource) (node : QueryNode) (request : Request) :
    Reply × ClickHouseQueryDatasource :=
  match d.schema node with
  | (.error failure, after, sent) => (⟨.error failure, sent⟩, after)
  | (.ok plan, after, sent) => (⟨d.planned plan request, sent⟩, after)

def run : ClickHouseQueryDatasource → List (QueryNode × Request) → List Reply
  | _, [] => []
  | d, (node, request) :: rest => (d.serve node request).1 :: run (d.serve node request).2 rest

end ClickHouseQueryDatasource

end Source

end RayClickHouse.QueryReads
