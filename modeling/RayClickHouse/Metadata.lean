import RayClickHouse.Discovery

/-!
The metadata reader of one node. It caches the fields of system tables, full
descriptions and the policy inventory; the security context compares effective
settings, identity and row policies with the profile of local reads.
-/
namespace RayClickHouse.Metadata

open Text Discovery

/-- A value of a metadata row, as the driver returns it. -/
inductive Cell
  | null
  | bool (b : Bool)
  | int (i : ℤ)
  | str (s : Text)
  | uuid (id : ℕ)
  | other (tag : ℕ)
  deriving DecidableEq, Repr

def Cell.text? : Cell → Option Text
  | str s => some s
  | _ => none

/-- The comparison of a cell with the integer 0, which False equals. -/
def Cell.isZero : Cell → Bool
  | int i => i == 0
  | bool b => !b
  | _ => false

abbrev Row := List (Text × Cell)

namespace Row

def get? (row : Row) (key : String) : Option Cell := row.lookup key.toList

def text? (row : Row) (key : String) : Option Text := (row.get? key).bind Cell.text?

def hasKeys (row : Row) (keys : List String) : Bool := keys.all fun key => (row.get? key).isSome

end Row

structure ResultSet where
  columnNames : List Text
  rows : List (List Cell)

structure MetadataServer where
  connection : ClickHouseConnection
  answer : Text → Bindings → Except Raised ResultSet

structure MetadataReader where
  fields : List (Text × List (Text × Text)) := []
  descriptions : List ((Text × Text) × List Row) := []
  policyInventory : Option (List (ℕ × Text × Text)) := none

def rowsOf (result : ResultSet) : Outcome (List Row) :=
  if result.columnNames = [] ∧ result.rows = [] then .ok []
  else if result.columnNames = [] ∨ ¬result.columnNames.Nodup then
    Outcome.raise .discovery "metadata returned invalid column names"
  else if result.rows.all fun row => row.length == result.columnNames.length then
    .ok (result.rows.map fun row => result.columnNames.zip row)
  else Outcome.raise .discovery "metadata row width disagrees with column names"

def policiesQuery : Text := "SHOW CREATE ROW POLICIES ON *.*".toList

section Reader

variable (server : MetadataServer)

def query (sql : Text) (parameters : Bindings := []) (allowMissing : Bool := false) :
    Outcome (List Row) :=
  match server.answer sql parameters with
  | .ok result => rowsOf result
  | .error .interrupt => .error interrupted
  | .error (.error code message) =>
      if sql = policiesQuery ∧ code = some 62 then
        Outcome.raise .notApplicable "independent policy enumeration is unavailable"
      else if allowMissing ∧ (code = some 47 ∨ code = some 60) then
        Outcome.raise .notApplicable "system metadata source is unavailable"
      else .error (translate code message "local metadata discovery")

def describe (reader : MetadataReader) (table : Text) : Outcome (List Row × MetadataReader) :=
  let key := ("system".toList, table)
  match reader.descriptions.lookup key with
  | some rows => .ok (rows, reader)
  | none => do
      let rows ← query server
        ("DESCRIBE TABLE ".toList ++ quotePart "system".toList ++ ".".toList ++ quotePart table)
        [] true
      let names := rows.filterMap fun row => row.text? "name"
      if rows = [] ∨ (rows.any fun row => (row.text? "name").isNone || (row.text? "type").isNone) ∨
          ¬names.Nodup then
        Outcome.raise .discovery "malformed full-table description"
      else .ok (rows, { reader with descriptions := (key, rows) :: reader.descriptions })

def fieldTypes (rows : List Row) : Outcome (List (Text × Text)) :=
  let fields := rows.filterMap fun row => do
    let name ← row.text? "name"
    let declared ← row.text? "type"
    some (name, declared)
  if fields.length ≠ rows.length ∨ ¬(fields.map Prod.fst).Nodup then
    Outcome.raise .discovery "malformed system-table field capability"
  else .ok fields

def agreedFields (reader : MetadataReader) (table : Text) (described rows : List Row) :
    Outcome (List (Text × Text) × MetadataReader) := do
  let fields ← fieldTypes rows
  if fields = [] then do
    let found ← query server ("EXISTS TABLE system.".toList ++ table)
    match found with
    | [[(_, cell)]] =>
        if cell.isZero then Outcome.raise .notApplicable "required system table is unavailable"
        else Outcome.raise .discovery "system-table metadata is absent or invisible"
    | _ => Outcome.raise .discovery "system-table metadata is absent or invisible"
  else
    let names := fields.map Prod.fst
    let describedNames := described.filterMap fun row => row.text? "name"
    if (names.all fun n => n ∈ describedNames) && (describedNames.all fun n => n ∈ names) then
      .ok (fields, { reader with fields := (table, fields) :: reader.fields })
    else Outcome.raise .discovery "system-table fields disagree with full DESCRIBE"

/-- The fields of a system table; `rows` asks for them when the table is described. -/
def capabilityOf (reader : MetadataReader) (table : Text)
    (rows : MetadataReader → List Row → Outcome (List Row × MetadataReader)) :
    Outcome (List (Text × Text) × MetadataReader) :=
  match reader.fields.lookup table with
  | some fields => .ok (fields, reader)
  | none =>
      match describe server reader table with
      | .ok (described, reader) => do
          let (rows, reader) ← rows reader described
          agreedFields server reader table described rows
      | .error failure =>
          if failure.kind = .notApplicable then
            .ok ([], { reader with fields := (table, []) :: reader.fields })
          else .error failure

def columnsCapability (reader : MetadataReader) : Outcome (List (Text × Text) × MetadataReader) :=
  capabilityOf server reader "columns".toList fun reader described =>
    match query server
      "SELECT name, type FROM system.columns WHERE database = 'system' AND table = 'columns'".toList
      [] true with
    | .ok rows => .ok (rows, reader)
    | .error failure =>
        if failure.kind = .notApplicable then .ok (described, reader) else .error failure

def capability (reader : MetadataReader) (table : Text) :
    Outcome (List (Text × Text) × MetadataReader) :=
  if table = "columns".toList then columnsCapability server reader
  else
    capabilityOf server reader table fun reader described => do
      let (columnFields, reader) ← columnsCapability server reader
      if ["name", "type", "database", "table"].all fun n =>
          (columnFields.lookup n.toList).isSome then do
        let rows ← query server
          "SELECT name, type FROM system.columns WHERE database = 'system' AND table = %(table)s".toList
          [("table".toList, .str table)]
        .ok (rows, reader)
      else .ok (described, reader)

inductive FieldKind
  | str
  | uuid
  | int
  deriving DecidableEq, Repr

def FieldKind.accepts (kind : FieldKind) (declared : Text) : Bool :=
  match kind with
  | str => declared = "String".toList
  | uuid => declared = "UUID".toList
  | int => (IntegerType.ofName declared).isSome

def requireField (reader : MetadataReader) (table : Text) (fields : List (Text × Text))
    (expected : String × FieldKind) : Outcome Unit := do
  let declared ← Outcome.ofOption ⟨.notApplicable, "required metadata field is unavailable", []⟩
    (fields.lookup expected.1.toList)
  let described ←
    match reader.descriptions.lookup ("system".toList, table) with
    | none => .ok declared
    | some description =>
        Outcome.ofOption ⟨.builtin, "StopIteration", []⟩
          ((description.find? fun row => row.text? "name" = some expected.1.toList).bind
            fun row => row.text? "type")
  if declared ≠ described then
    Outcome.raise .discovery "required metadata declarations disagree"
  else if expected.2.accepts declared then .ok ()
  else Outcome.raise .discovery "metadata field has an unexpected declaration"

def requireFields (reader : MetadataReader) (table : String)
    (expected : List (String × FieldKind)) : Outcome MetadataReader := do
  let (fields, reader) ← capability server reader table.toList
  let _ ← expected.mapM (requireField reader table.toList fields)
  .ok reader

def policyOf (row : Row) : Outcome (ℕ × Text × Text) :=
  match row.get? "id", row.text? "database", row.text? "table" with
  | some (.uuid id), some database, some table => .ok (id, database, table)
  | _, _, _ => Outcome.raise .discovery "malformed structured row policy"

def policies (reader : MetadataReader) : Outcome (List (ℕ × Text × Text) × MetadataReader) :=
  match reader.policyInventory with
  | some inventory => .ok (inventory, reader)
  | none => do
      let reader ← requireFields server reader "row_policies"
        [("id", .uuid), ("database", .str), ("table", .str)]
      let created ← query server policiesQuery
      let rows ← query server "SELECT id, database, table FROM system.row_policies".toList
      let inventory ← rows.mapM policyOf
      if created.length ≠ inventory.length ∨
          created.length ≠ (inventory.map Prod.fst).dedup.length then
        Outcome.raise .discovery "row-policy inventory is incomplete or inconsistent"
      else .ok (inventory, { reader with policyInventory := some inventory })

end Reader

section Context

def contextDefaults : List (String × String) :=
  [("final", "0"), ("additional_result_filter", ""), ("additional_table_filters", "\x7b\x7d"),
    ("max_result_rows", "0"), ("max_result_bytes", "0"), ("read_overflow_mode", "throw"),
    ("timeout_overflow_mode", "throw"), ("group_by_overflow_mode", "throw"),
    ("sort_overflow_mode", "throw"), ("select_sequential_consistency", "0"),
    ("skip_unavailable_shards", "0")]

def contextCompare : List String := ["join_use_nulls", "transform_null_in", "timezone"]

def metadataTables : List Text :=
  ["columns", "tables", "clusters", "settings", "row_policies", "parts"].map String.toList

abbrev Effective := List (Text × Text)

namespace Effective

def get? (effective : Effective) (name : String) : Option Text := effective.lookup name.toList

end Effective

def effectiveOf (rows : List Row) : Outcome Effective :=
  if rows.all fun row => row.hasKeys ["name", "value"] then
    let effective := rows.filterMap fun row => do
      let name ← row.text? "name"
      let value ← row.text? "value"
      some (name, value)
    if effective.length ≠ rows.length ∨ ¬(effective.map Prod.fst).Nodup then
      Outcome.raise .discovery "malformed effective settings"
    else .ok effective
  else Outcome.raise .discovery "effective settings omit required result columns"

def checkDefaults (effective : Effective) : Outcome Unit :=
  if contextDefaults.any fun d => (effective.get? d.1).isNone then
    Outcome.raise .notApplicable "required effective setting is unavailable"
  else if contextDefaults.any fun d => effective.get? d.1 ≠ some d.2.toList then
    Outcome.raise .notApplicable "result or replica settings require logical-source reading"
  else .ok ()

def parallelSetting (effective : Effective) : Option String :=
  ["enable_parallel_replicas", "allow_experimental_parallel_reading_from_replicas"].find?
    fun name => (effective.get? name).isSome

def checkParallel (effective : Effective) : Outcome Unit :=
  if (parallelSetting effective).bind effective.get? ≠ some "0".toList then
    Outcome.raise .notApplicable "parallel replica control is unavailable or enabled"
  else if (effective.get? "enable_parallel_replicas").isNone ∧
      effective.get? "max_parallel_replicas" ≠ some "1".toList then
    Outcome.raise .notApplicable "legacy parallel replica routing requires logical reading"
  else if ["enable_parallel_replicas", "allow_experimental_parallel_reading_from_replicas",
      "automatic_parallel_replicas_mode"].any fun name =>
        (effective.get? name).isSome && effective.get? name != some "0".toList then
    Outcome.raise .notApplicable "parallel replica routing requires logical reading"
  else .ok ()

def contextValues (effective : Effective) : List (Text × Text) :=
  (sortedNames (contextDefaults.map (fun d => d.1.toList) ++ contextCompare.map String.toList)).map
    fun name => (name, (effective.lookup name).getD "<unavailable>".toList)

def identityOf (rows : List Row) : Outcome (Text × Text) :=
  match rows with
  | [row] =>
      if row.all fun entry => entry.2.text?.isSome then
        match row.text? "user", row.text? "timezone" with
        | some user, some timezone => .ok (user, timezone)
        | _, _ => Outcome.raise .discovery "invalid effective identity or timezone"
      else Outcome.raise .discovery "invalid effective identity or timezone"
  | _ => Outcome.raise .discovery "invalid effective identity or timezone"

def anyName (name : Text) : Bool := name = [] || name = "*".toList

def checkPolicies (table : QualifiedTable) (inventory : List (ℕ × Text × Text)) : Outcome Unit :=
  if inventory.any fun p => (anyName p.2.1 || p.2.1 = "system".toList) &&
      (anyName p.2.2 || p.2.2 ∈ metadataTables) then
    Outcome.raise .notApplicable "row policies on discovery metadata require logical reading"
  else if inventory.any fun p => (anyName p.2.1 || p.2.1 = table.database) &&
      (anyName p.2.2 || p.2.2 = table.table) then
    Outcome.raise .notApplicable "related row policies require logical-source reading"
  else .ok ()

variable (server : MetadataServer)

def settingsQuery : Text := "SELECT name, value FROM system.settings".toList

def context (reader : MetadataReader) (table : QualifiedTable) :
    Outcome (List (Text × Text) × MetadataReader) := do
  let reader ← requireFields server reader "settings" [("name", .str), ("value", .str)]
  let rows ← query server settingsQuery
  let effective ← effectiveOf rows
  checkDefaults effective
  checkParallel effective
  let identity ← query server "SELECT currentUser() AS user, timezone() AS timezone".toList
  let (user, timezone) ← identityOf identity
  if user ≠ server.connection.username then
    Outcome.raise .notApplicable "effective identity differs from configured identity"
  else do
    let (inventory, reader) ← policies server reader
    checkPolicies table inventory
    .ok (contextValues effective ++ [("server_timezone".toList, timezone)], reader)

end Context

end RayClickHouse.Metadata
