import RayClickHouse.Discovery

/-!
Table management of the two opt-in write modes, and the discovery of the write
target that follows it. A confirmed command takes effect, and the catalog
reports the stored table; interrupts of the process are left out.
-/
namespace RayClickHouse.Ddl

open Text Schema Discovery

def createEngines : List Text :=
  ["MergeTree", "ReplacingMergeTree", "SummingMergeTree", "AggregatingMergeTree",
    "CollapsingMergeTree", "VersionedCollapsingMergeTree"].map String.toList

def validateCreateEngine (engine : Text) : Outcome Text := do
  let _ ← validateIdentifier engine "engine"
  if engine ∈ createEngines then .ok engine
  else
    Outcome.raise .configuration
      "create/overwrite currently supports only local MergeTree-family engines"

def quoteIdentifier (value : Text) (name : String) : Outcome Text := do
  let valid ← validateIdentifier value name
  .ok (quoted valid)

def nullableType (value : Text) : Text := TypeText.call "Nullable".toList value

def timestampPrecision : TimeUnit → ℕ
  | .s => 0
  | .ms => 3
  | .us => 6
  | .ns => 9

/-- A missing time zone and an empty one are the same here. -/
def timestampType (unit : TimeUnit) (tz : Option Text) : Text :=
  let zone :=
    match tz with
    | some (c :: rest) => ", '".toList ++ (c :: rest) ++ "'".toList
    | _ => []
  TypeText.call "DateTime64".toList (ofNat (timestampPrecision unit) ++ zone)

mutual

def arrowType : ArrowType → Outcome Text
  | .boolean => .ok "Bool".toList
  | .integer type => .ok type.name
  | .float32 => .ok "Float32".toList
  | .float64 => .ok "Float64".toList
  | .string => .ok "String".toList
  | .largeString => .ok "String".toList
  | .binary | .largeBinary =>
      Outcome.raise .schema "Arrow binary types require an explicit ClickHouse mapping"
  | .date32 => .ok "Date".toList
  | .timestamp unit tz => .ok (timestampType unit tz)
  | .decimal _ precision scale =>
      .ok (TypeText.call "Decimal".toList (ofNat precision ++ ", ".toList ++ ofInt scale))
  | .list value => do
      let inner ← arrowType value
      .ok (TypeText.call "Array".toList inner)
  | .largeList value => do
      let inner ← arrowType value
      .ok (TypeText.call "Array".toList inner)
  | .map key item => do
      let keyType ← arrowType key
      let itemType ← arrowType item
      .ok (TypeText.call "Map".toList (keyType ++ ", ".toList ++ itemType))
  | .struct fields => do
      let parts ← nestedFields fields
      .ok (TypeText.call "Tuple".toList (join ", ".toList parts))
  | .null | .float16 | .dictionary _ _ | .other _ =>
      Outcome.raise .schema "Arrow type cannot be mapped to ClickHouse safely"

def nestedFields : ArrowFields → Outcome (List Text)
  | .nil => .ok []
  | .cons name nullable type rest => do
      let identifier ← quoteIdentifier name "nested field"
      let value ← arrowType type
      let more ← nestedFields rest
      .ok ((identifier ++ " ".toList ++ if nullable then nullableType value else value) :: more)

end

def arrowFieldType (type : ArrowType) (nullable : Bool) : Outcome Text := do
  let value ← arrowType type
  .ok (if nullable then nullableType value else value)

def isTimestamp : ArrowType → Bool
  | .timestamp _ _ => true
  | _ => false

def isStringType : ArrowType → Bool
  | .string | .largeString => true
  | _ => false

def defaultOrderBy (schema : ArrowSchema) : List Text :=
  match schema.find? fun f => isTimestamp f.type with
  | some field => [field.name]
  | none =>
      match schema.find? fun f => !isStringType f.type with
      | some field => [field.name]
      | none => (schema.head?.map Field.name).toList

def renderOrderBy (columns : List Text) : Outcome Text := do
  let quotedColumns ← columns.mapM fun c => quoteIdentifier c "order_by column"
  match quotedColumns with
  | [] => .ok "tuple()".toList
  | [column] => .ok column
  | columns => .ok ("(".toList ++ join ", ".toList columns ++ ")".toList)

structure CreateTable where
  columns : List (Text × Text)
  engine : Text
  sql : Text
  deriving DecidableEq, Repr

def declareColumn (nullable : List Text) (field : Field) : Outcome (Text × Text) := do
  let name ← validateIdentifier field.name "column"
  let type ← arrowFieldType field.type (decide (field.name ∈ nullable))
  .ok (name, type)

def createText (table : QualifiedTable) (columns : List (Text × Text)) (engine order : Text)
    (nullableKey : Bool) : Text :=
  "CREATE TABLE ".toList ++ table.sql ++ " (".toList ++
    join ", ".toList (columns.map fun c => quoted c.1 ++ " ".toList ++ c.2) ++
    ") ENGINE = ".toList ++ engine ++ " ORDER BY ".toList ++ order ++
    if nullableKey then " SETTINGS allow_nullable_key = 1".toList else []

def createSql (table : QualifiedTable) (schema : ArrowSchema) (engine : Text)
    (orderBy nullableColumns : Option (List Text)) : Outcome CreateTable :=
  let nullable := nullableColumns.getD []
  let unknownNullable := nullable.filter (· ∉ schema.names)
  if schema = [] then
    Outcome.raise .schema "create/overwrite requires a non-empty Arrow schema"
  else if unknownNullable ≠ [] then
    Outcome.raise .configuration "nullable_columns are not in the Arrow schema"
      (sortedNames unknownNullable)
  else do
    let columns ← schema.mapM (declareColumn nullable)
    let keys := orderBy.getD (defaultOrderBy schema)
    let unknownOrder := keys.filter (· ∉ schema.names)
    if unknownOrder ≠ [] then
      Outcome.raise .configuration "order_by columns are not in the Arrow schema"
        (sortedNames unknownOrder)
    else do
      let order ← renderOrderBy keys
      .ok ⟨columns, engine, createText table columns engine order (keys.any (· ∈ nullable))⟩

structure StoredTable where
  engine : Text
  columns : List (Text × Text)
  rows : List (List Value) := []
  deriving DecidableEq, Repr

inductive Command
  | drop
  | create (statement : CreateTable)
  deriving DecidableEq, Repr

def Command.sql (table : QualifiedTable) : Command → Text
  | drop => "DROP TABLE ".toList ++ table.sql
  | create statement => statement.sql

/-- The effect of a command; an existing table is not created again. -/
def Command.apply : Command → Option StoredTable → Option StoredTable
  | drop, _ => none
  | create _, some old => some old
  | create statement, none => some ⟨statement.engine, statement.columns, []⟩

/-- What a client call raises, interrupts apart; the message is in lower case. -/
structure ClientError where
  code : Option ℤ
  message : Text

/-- The outcome of every call of a write start: none where the call succeeds. The
count is the first cell of the answer, none for an answer without rows. A command
that raises may still have taken effect. -/
structure TableServer where
  openManagement : Option ClientError := none
  tableCount : Except ClientError (Option ℤ)
  drop : Option ClientError := none
  dropApplied : Bool := false
  create : Option ClientError := none
  createApplied : Bool := false
  closeManagement : Option ClientError := none
  openTarget : Option ClientError := none
  openEngine : Option ClientError := none
  engineQuery : Option ClientError := none
  columnsQuery : Option ClientError := none

inductive ManagementEvent
  | opened
  | counted
  | sent (command : Command)
  | closed
  deriving DecidableEq, Repr

def ManagementEvent.command? : ManagementEvent → Option Command
  | sent command => some command
  | _ => none

structure ManagementRun where
  store : Option StoredTable
  events : List ManagementEvent
  result : Outcome Unit

def ManagementRun.commands (run : ManagementRun) : List Command :=
  run.events.filterMap ManagementEvent.command?

def ambiguous (table : QualifiedTable) : Failure :=
  ⟨.ambiguousTableManagement,
    "ClickHouse overwrite may have dropped the old table without confirming the replacement",
    [table.database, table.table]⟩

def managementFailure (table : QualifiedTable) (dropStarted : Bool) (mode : String)
    (e : ClientError) : Failure :=
  if dropStarted then ambiguous table else translate e.code e.message s!"{mode} table"

/-- Send a command: the store afterwards, and the failure if it raised. -/
def send (command : Command) (answer : Option ClientError) (applied : Bool)
    (store : Option StoredTable) : Option StoredTable × Option ClientError :=
  match answer with
  | none => (command.apply store, none)
  | some e => (if applied then command.apply store else store, some e)

def WriteMode.text : WriteMode → String
  | .append => "append"
  | .create => "create"
  | .overwrite => "overwrite"

section Manage

variable (server : TableServer) (mode : WriteMode) (table : QualifiedTable)

def createTable (statement : CreateTable) (dropStarted : Bool) (events : List ManagementEvent)
    (store : Option StoredTable) : ManagementRun :=
  let (after, raised) := send (.create statement) server.create server.createApplied store
  let result : Outcome Unit :=
    match raised with
    | none => .ok ()
    | some e => .error (managementFailure table dropStarted (WriteMode.text mode) e)
  ⟨after, events ++ [.sent (.create statement)], result⟩

def dropAndCreate (statement : CreateTable) (events : List ManagementEvent)
    (store : Option StoredTable) : ManagementRun :=
  let (after, raised) := send .drop server.drop server.dropApplied store
  match raised with
  | none => createTable server mode table statement true (events ++ [.sent .drop]) after
  | some e =>
      ⟨after, events ++ [.sent .drop], .error (managementFailure table true (WriteMode.text mode) e)⟩

def manage (statement : CreateTable) (store : Option StoredTable) : ManagementRun :=
  let events : List ManagementEvent := [.opened, .counted]
  match server.tableCount with
  | .error e => ⟨store, events, .error (managementFailure table false (WriteMode.text mode) e)⟩
  | .ok count =>
      let found := decide (count.getD 0 ≠ 0)
      if mode = .create ∧ found then
        ⟨store, events, Outcome.raise .configuration "ClickHouse table already exists"
          [table.database, table.table]⟩
      else if mode = .overwrite ∧ found then dropAndCreate server mode table statement events store
      else createTable server mode table statement false events store

/-- The finally block: a client that fails to close is ignored. -/
def closeManagement (run : ManagementRun) : ManagementRun :=
  let result :=
    match server.closeManagement with
    | none => run.result
    | some _ => run.result
  ⟨run.store, run.events ++ [.closed], result⟩

/-- The checks that need no server. -/
def checkedStatement (schema : ArrowSchema) (engine : Text)
    (orderBy nullableColumns : Option (List Text)) : Outcome CreateTable :=
  if mode = .append then
    Outcome.raise .configuration "table management mode must be create or overwrite"
  else do
    let _ ← validateCreateEngine engine
    createSql table schema engine orderBy nullableColumns

def createOrReplaceTable (schema : ArrowSchema) (engine : Text)
    (orderBy nullableColumns : Option (List Text)) (store : Option StoredTable) : ManagementRun :=
  match checkedStatement mode table schema engine orderBy nullableColumns with
  | .error failure => ⟨store, [], .error failure⟩
  | .ok statement =>
      match server.openManagement with
      | some e => ⟨store, [], .error (translate e.code e.message "client initialization")⟩
      | none => closeManagement server (manage server mode table statement store)

end Manage

structure ColumnRow where
  name : Text
  type : Text
  defaultKind : Option Text
  defaultExpression : Option Text
  position : ℤ

def parseDescribeRows (rows : List ColumnRow) : Outcome (List TargetColumn) :=
  if rows.any fun r => r.position < 1 then
    Outcome.raise .schema "ClickHouse column metadata has an invalid position"
  else
    let columns := rows.map fun r =>
      (⟨r.name, strip r.type, r.defaultKind.getD [], r.defaultExpression.getD [], r.position⟩ :
        TargetColumn)
    if columns = [] ∨ ¬(columns.map TargetColumn.name).Nodup then
      Outcome.raise .schema "ClickHouse DESCRIBE returned no or duplicate columns"
    else .ok (columns.mergeSort fun a b => decide (a.position ≤ b.position))

/-- system.columns reports the declared columns at positions from one on. -/
def reportedColumns (columns : List (Text × Text)) : List ColumnRow :=
  columns.zipIdx.map fun p => ⟨p.1.1, p.1.2, some [], some [], p.2 + 1⟩

def discoverEngine (server : TableServer) (table : QualifiedTable) (store : Option StoredTable) :
    Outcome Text :=
  match server.openEngine, server.engineQuery, store with
  | some e, _, _ => .error (translate e.code e.message "client initialization")
  | none, some e, _ => .error (translate e.code e.message "engine discovery")
  | none, none, none =>
      Outcome.raise .objectNotFound "ClickHouse table was not found" [table.database, table.table]
  | none, none, some stored => .ok stored.engine

def discoverTarget (server : TableServer) (table : QualifiedTable) (store : Option StoredTable) :
    Outcome TargetTable :=
  match server.openTarget with
  | some e => .error (translate e.code e.message "client initialization")
  | none => do
      let engine ← discoverEngine server table store
      if engine ∈ writeEngines then
        match server.columnsQuery with
        | some e => .error (translate e.code e.message "target discovery")
        | none => do
            let rows := (store.map fun stored => reportedColumns stored.columns).getD []
            let columns ← parseDescribeRows rows
            .ok ⟨table.database, table.table, engine, columns⟩
      else
        Outcome.raise .schema "engine is outside the write capability profile" [engine]

end RayClickHouse.Ddl
