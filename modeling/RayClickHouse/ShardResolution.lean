import RayClickHouse.EngineScan
import RayClickHouse.KeyedGroups
import RayClickHouse.PlanningCache
import RayClickHouse.TargetReader

/-!
The shards of a Distributed table. The topology names the replicas of every shard;
each shard is read from its least replica, once that node declares and delivers
what the source does.
-/
namespace RayClickHouse.Resolution

open Text Schema Planning Discovery Metadata Datasource PredicateColumns

/-- Resource settings, which change neither rows nor comparisons. -/
def safeSettings : List Text :=
  ["max_threads", "max_memory_usage", "max_bytes_before_external_sort",
    "max_bytes_before_external_group_by", "max_execution_time", "readonly", "log_queries",
    "log_query_threads", "log_comment", "send_timeout", "receive_timeout", "connect_timeout",
    "max_block_size"].map String.toList

def safeClientOptions : List Text :=
  ["verify", "ca_cert", "client_cert", "client_cert_key", "compress"].map String.toList

structure LocalRead where
  connection : ClickHouseConnection
  clientOptions : Bindings := []
  table : QualifiedTable
  schema : SchemaPlan
  filterSql : Text
  split : SplitMode

/-- The nodes that a connection can reach. The source answers the query for its
topology from system.clusters. -/
structure Cluster where
  answer : ClickHouseConnection → Text → Bindings → Except Raised ResultSet
  clusters : Text → Bindings → Except Raised ResultSet
  probe : ClickHouseConnection → Text → Except Raised (Option ArrowSchema)
  representable : ArrowSchema → Bool
  opened : ClickHouseConnection → Option Raised
  closed : ClickHouseConnection → Option Raised

def Cluster.node (c : Cluster) (connection : ClickHouseConnection) : Node where
  server := ⟨connection, c.answer connection⟩
  probe := c.probe connection
  representable := c.representable
  opened := c.opened connection
  closed := c.closed connection

section Topology

/-- The replicas read so far: the pairs seen, and the replicas of each shard. -/
structure Replicas where
  seen : List (ℕ × ℕ) := []
  shards : List (ℕ × List (ℕ ×ₗ Text)) := []

def isHostChar (c : Char) : Bool := c.isAlphanum || c ∈ ['_', '.', ':', '-']

def isHost (host : Text) : Bool := !host.isEmpty && host.all isHostChar

def malformedTopology {α : Type} : Outcome α :=
  Outcome.raise .discovery "malformed shard or replica topology"

def addReplica (username : Text) (replicas : Replicas) (row : Row) : Outcome Replicas :=
  if !row.hasKeys ["shard_num", "replica_num", "host_name", "user"] then
    Outcome.raise .discovery "topology omits required result columns"
  else
    match row.get? "shard_num", row.get? "replica_num", row.get? "host_name" with
    | some (.int shard), some (.int replica), some (.str host) =>
        if shard < 1 ∨ replica < 1 ∨ !isHost host ∨
            (shard.toNat, replica.toNat) ∈ replicas.seen then malformedTopology
        else if row.get? "user" ≠ some (.str username) then
          Outcome.raise .notApplicable "cluster internal identity differs from direct identity"
        else
          .ok ⟨(shard.toNat, replica.toNat) :: replicas.seen,
            KeyedGroups.insert shard.toNat (toLex (replica.toNat, host)) replicas.shards⟩
    | _, _, _ => malformedTopology

def topologyQuery (field : String) : Text :=
  ("SELECT shard_num, replica_num, host_name, user FROM system.clusters WHERE `" ++ field ++
    "` = %(cluster)s").toList

end Topology

section Targets

variable [UnicodeDatabase]

/-- Equality of the dicts that two lists of definitions fill, by name. -/
def sameDefinitions {α : Type} [DecidableEq α] (logical physical : List (Text × α)) : Bool :=
  (logical ++ physical).all fun d =>
    logical.reverse.find? (fun e => e.1 = d.1) = physical.reverse.find? fun e => e.1 = d.1

/-- The partitions and the sorting key, as far as the split asks for them. -/
def splitFacts (server : MetadataServer) (reader : MetadataReader) (split : SplitMode)
    (table : QualifiedTable) (columns : List TargetColumn) :
    Outcome (Option (List PartitionInfo) × Option Text) :=
  match split with
  | .partition => do
      let (parts, _) ← partitions server reader table columns
      .ok (parts, none)
  | .auto => do
      let (key, _) ← sortingKey server reader table
      .ok (none, key)
  | .single | .range => .ok (none, none)

def inspectTarget (node : Node) (request : LocalRead) (profile : List (Text × Text))
    (sourceColumns : List TargetColumn) (table : QualifiedTable) (shard replica : ℕ)
    (reader : MetadataReader) : Outcome LocalTarget := do
  let (found, reader) ← context node.server reader table
  if found ≠ profile then
    Outcome.raise .notApplicable "effective settings differ across selected nodes"
  else do
    let (_, reader) ← describeTable node.server reader table
    let ((engine, _), reader) ← engine node.server reader table
    if engine ∉ localMergetreeEngines then
      Outcome.raise .notApplicable "physical target is not a supported local MergeTree"
    else do
      let (columns, reader) ← columns node.server reader table
      let logical ← sourceColumns.mapM columnDefinition
      let physical ← columns.mapM columnDefinition
      if !sameDefinitions logical physical then
        Outcome.raise .schema "logical and physical column declarations disagree"
      else do
        let names := request.schema.arrowSchema.names
        let schema ← tableSchema node table columns (some names)
        if names.any fun name =>
            schema.arrowSchema.field? name ≠ request.schema.arrowSchema.field? name then
          Outcome.raise .schema "logical and physical Arrow schemas disagree"
        else do
          let (parts, key) ← splitFacts node.server reader request.split table columns
          .ok ⟨shard, replica, node.server.connection, table, schema, parts, key⟩

def directConnection (connection : ClickHouseConnection) (host : Text) (table : QualifiedTable) :
    Outcome ClickHouseConnection :=
  if hhost : host ≠ [] then
    .ok { connection with
      host := host
      database := table.database
      host_nonempty := hhost
      database_valid := table.database_valid }
  else Outcome.raise .configuration "host must not be empty"

def openTarget (cluster : Cluster) (request : LocalRead) (profile : List (Text × Text))
    (sourceColumns : List TargetColumn) (table : QualifiedTable) (shard replica : ℕ)
    (host : Text) : Outcome LocalTarget := do
  let direct ← directConnection request.connection host table
  let node := cluster.node direct
  metadataReader node fun reader =>
    inspectTarget node request profile sourceColumns table shard replica reader

def resolveShards (inspect : ℕ → ℕ → Text → Outcome LocalTarget) :
    List (ℕ × List (ℕ ×ₗ Text)) → List Text → Outcome (List LocalTarget)
  | [], _ => .ok []
  | (shard, options) :: rest, selectedHosts => do
      let option ← Outcome.ofOption ⟨.builtin, "min() arg is an empty sequence", []⟩ options.min?
      let (replica, host) := ofLex option
      if host ∈ selectedHosts then
        Outcome.raise .discovery "distinct shards resolve to the same local endpoint"
      else do
        let target ← inspect shard replica host
        let targets ← resolveShards inspect rest (host :: selectedHosts)
        .ok (target :: targets)

def placedDefinitions (columns : List TargetColumn) :
    Outcome (List ((Text × List Text × Text × Text) × ℤ)) :=
  columns.mapM fun column => do
    let definition ← columnDefinition column
    .ok (definition, column.position)

def topologyFields (field : String) : List (String × FieldKind) :=
  [(field, .str), ("shard_num", .int), ("replica_num", .int), ("host_name", .str), ("user", .str)]

/-- The facts every node is compared with: the target table, the security profile
and the columns of the source. The last two values name the field and the cluster
under which its topology is found. -/
def sourceFacts (cluster : Cluster) (request : LocalRead) (reader : MetadataReader) :
    Outcome ((QualifiedTable × List (Text × Text) × List TargetColumn) × String × Text) := do
  let server := (cluster.node request.connection).server
  let ((engine, definition), reader) ← engine server reader request.table
  if engine ≠ "Distributed".toList then
    Outcome.raise .discovery "source engine changed during local-read planning"
  else do
    let (name, table) ← EngineScan.parseDistributedEngine definition
    let (profile, reader) ← context server reader request.table
    let (sourceColumns, reader) ← columns server reader request.table
    let found ← placedDefinitions sourceColumns
    let planned ← placedDefinitions request.schema.columns
    if found ≠ planned then
      Outcome.raise .schema "source declarations changed during local-read planning"
    else do
      let (fields, reader) ← capability server reader "clusters".toList
      let field := if (fields.lookup "cluster".toList).isSome then "cluster" else "name"
      let _ ← requireFields server reader "clusters" (topologyFields field)
      .ok ((table, profile, sourceColumns), field, name)

def topologyRows (cluster : Cluster) (connection : ClickHouseConnection) (field : String)
    (name : Text) : Outcome (List Row) :=
  query ⟨connection, cluster.clusters⟩ (topologyQuery field) [("cluster".toList, .str name)]

def resolveDistributed (cluster : Cluster) (limit : ℕ) (request : LocalRead) :
    Outcome ResolvedDistributed := do
  let _ ← predicateColumns limit request.filterSql request.schema.columns
  if request.schema.columns.any fun column => column.defaultKind = "ALIAS".toList then
    Outcome.raise .notApplicable "computed aliases require logical-source reading"
  else if request.connection.settings.names.any fun name => name ∉ safeSettings then
    Outcome.raise .notApplicable "query settings are outside the local-read allowlist"
  else if request.clientOptions.names.any fun name => name ∉ safeClientOptions then
    Outcome.raise .notApplicable "client options cannot be safely reused across hosts"
  else if request.clientOptions.get? "verify".toList = some (.bool false) then
    Outcome.raise .notApplicable "local HTTPS routing requires certificate verification"
  else
    metadataReader (cluster.node request.connection) fun reader => do
      let ((table, profile, sourceColumns), field, name) ← sourceFacts cluster request reader
      let rows ← topologyRows cluster request.connection field name
      if rows = [] then
        Outcome.raise .discovery "Distributed cluster metadata is absent or invisible"
      else do
        let replicas ← rows.foldlM (addReplica request.connection.username) {}
        let targets ← resolveShards (openTarget cluster request profile sourceColumns table)
          (KeyedGroups.byKey replicas.shards) []
        .ok ⟨targets⟩

end Targets

end RayClickHouse.Resolution
