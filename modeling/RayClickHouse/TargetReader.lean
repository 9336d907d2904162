import RayClickHouse.DeclarationKey
import RayClickHouse.Metadata
import RayClickHouse.PredicateColumns
import RayClickHouse.ReadProjection
import Mathlib.Data.List.Sort

/-!
What the metadata reader learns about one table: its engine, its columns, the
Arrow schema of a selection, its partitions and its sorting key. The reader lives
as long as its client, which is closed after use.
-/
namespace RayClickHouse.Metadata

open Text TypeText Schema Planning Discovery DeclarationKey

/-- A node with the client's other answers: the zero-row Arrow probes, and how
opening and closing the client end. -/
structure Node where
  server : MetadataServer
  probe : Text → Except Raised (Option ArrowSchema)
  representable : ArrowSchema → Bool
  opened : Option Raised := none
  closed : Option Raised := none

/-- str.lower(), as far as the search for an ASCII word can tell. -/
def lower (s : Text) : Text := s.map fun c => if c.toNat = 8490 then 'k' else c.toLower

def clientFailure (operation : String) : Raised → Failure
  | .interrupt => interrupted
  | .error code message => translate code message operation

/-- The client is closed once; a failure to close is raised over a result only. -/
def metadataReader {α : Type} (node : Node) (body : MetadataReader → Outcome α) : Outcome α :=
  match node.opened with
  | some raised => .error (clientFailure "client initialization" raised)
  | none =>
      match body {}, node.closed with
      | result, none => result
      | _, some .interrupt => .error interrupted
      | .error failure, some (.error _ _) => .error failure
      | .ok _, some (.error _ _) =>
          Outcome.raise .transport "failed to close local discovery client"

theorem metadataReader_eq_ok {α : Type} {node : Node} {body : MetadataReader → Outcome α} {a : α}
    (h : metadataReader node body = .ok a) : body {} = .ok a := by
  unfold metadataReader at h
  split at h
  · contradiction
  · split at h
    · exact h
    · contradiction
    · contradiction
    · simp [Outcome.raise] at h

def closeOver {α : Type} (message : String) (closed : Option Raised) (result : Outcome α) :
    Outcome α :=
  match result, closed with
  | result, none => result
  | _, some .interrupt => .error interrupted
  | .error failure, some (.error _ _) => .error failure
  | .ok _, some (.error _ _) => Outcome.raise .transport message

theorem closeOver_eq_ok {α : Type} {message : String} {closed : Option Raised}
    {result : Outcome α} {a : α} :
    closeOver message closed result = .ok a ↔ closed = none ∧ result = .ok a := by
  unfold closeOver
  split
  · simp
  · simp
  · simp
  · simp [Outcome.raise]

/-- A check is passed when its condition for an error does not hold. -/
theorem passed_eq_ok {α : Type} {p : Prop} [Decidable p] {kind : ErrorKind} {message : String}
    {names : List Text} {x : Outcome α} {a : α} :
    (if p then Outcome.raise kind message names else x) = .ok a ↔ ¬p ∧ x = .ok a := by
  by_cases hp : p
  · simp [hp, Outcome.raise]
  · simp [hp]

def columnDefinition [UnicodeDatabase] (column : TargetColumn) :
    Outcome (Text × List Text × Text × Text) := do
  let key ← typeDeclarationKey column.declaredType
  .ok (column.name, key, column.defaultKind, column.defaultExpression)

def tableParameters (table : QualifiedTable) : Bindings :=
  [("database".toList, .str table.database), ("table".toList, .str table.table)]

def hasFields (fields : List (Text × Text)) (names : List String) : Bool :=
  names.all fun name => (fields.lookup name.toList).isSome

section Reader

variable (server : MetadataServer)

def describeTable (reader : MetadataReader) (table : QualifiedTable) :
    Outcome (List Row × MetadataReader) :=
  let key := (table.database, table.table)
  match reader.descriptions.lookup key with
  | some rows => .ok (rows, reader)
  | none => do
      let rows ← query server ("DESCRIBE TABLE ".toList ++ table.sql) []
        (decide (table.database = "system".toList))
      let names := rows.filterMap fun row => row.text? "name"
      if rows = [] ∨ (rows.any fun row => (row.text? "name").isNone || (row.text? "type").isNone) ∨
          ¬names.Nodup then
        Outcome.raise .discovery "malformed full-table description"
      else .ok (rows, { reader with descriptions := (key, rows) :: reader.descriptions })

def malformedEngine {α : Type} : Outcome α :=
  Outcome.raise .discovery "malformed table engine metadata"

def showCreate (table : QualifiedTable) : Outcome Text := do
  let created ← query server ("SHOW CREATE TABLE ".toList ++ table.sql)
  match created with
  | [[(_, .str definition)]] =>
      if definition = [] then Outcome.raise .discovery "invalid SHOW CREATE text"
      else .ok definition
  | [[_]] => Outcome.raise .discovery "invalid SHOW CREATE text"
  | _ => Outcome.raise .discovery "malformed SHOW CREATE result"

def engine (reader : MetadataReader) (table : QualifiedTable) :
    Outcome ((Text × Text) × MetadataReader) := do
  let (fields, reader) ← capability server reader "tables".toList
  let reader ← requireFields server reader "tables"
    [("engine", .str), ("database", .str), ("name", .str)]
  let definition := ["engine_full", "create_table_query"].find? fun field =>
    (fields.lookup field.toList).isSome
  let reader ← requireFields server reader "tables" (definition.toList.map fun f => (f, .str))
  let candidates := "engine" :: definition.toList
  let rows ← query server
    ("SELECT ".toList ++ join ", ".toList (candidates.map String.toList) ++
      " FROM system.tables WHERE database = %(database)s AND name = %(table)s".toList)
    (tableParameters table)
  match rows with
  | [] => do
      let _ ← describeTable server reader table
      Outcome.raise .discovery "engine metadata is absent despite native visibility"
  | [row] =>
      if (row.all fun entry => entry.2.text?.any (· ≠ [])) && row.hasKeys candidates then do
        let engine ← Outcome.ofOption ⟨.builtin, "KeyError", []⟩ (row.text? "engine")
        let text ←
          match definition with
          | some field => Outcome.ofOption ⟨.builtin, "KeyError", []⟩ (row.text? field)
          | none => showCreate server table
        .ok ((engine, text), reader)
      else malformedEngine
  | _ => malformedEngine

section Columns

variable [UnicodeDatabase]

def columnFields : List (String × FieldKind) :=
  [("name", .str), ("type", .str), ("position", .int), ("default_kind", .str),
    ("default_expression", .str), ("database", .str), ("table", .str)]

def describedColumn (index : ℕ) (row : Row) : Row :=
  ("position".toList, .int (index + 1)) ::
    ("default_kind".toList, (row.get? "default_type").getD .null) :: row

def malformedColumns {α : Type} : Outcome α :=
  Outcome.raise .discovery "malformed column definition metadata"

def columnOf (row : Row) : Outcome TargetColumn :=
  match row.text? "name", row.text? "type", row.text? "default_kind",
    row.text? "default_expression", row.get? "position" with
  | some name, some declared, some kind, some expression, some (.int position) =>
      if position < 1 then malformedColumns
      else .ok ⟨name, declared, kind, expression, position⟩
  | _, _, _, _, _ => malformedColumns

def describedDefinition (row : Row) :
    Outcome (Option Cell × List Text × Option Cell × Option Cell) := do
  let key ← typeDeclarationKey ((row.text? "type").getD [])
  .ok (row.get? "name", key, row.get? "default_type", row.get? "default_expression")

/-- The rows of system.columns, or the described ones where it lacks a field. -/
def columnRows (reader : MetadataReader) (table : QualifiedTable) (described : List Row) :
    Outcome (List Row × MetadataReader) := do
  let (fields, reader) ← capability server reader "columns".toList
  if hasFields fields (columnFields.map Prod.fst) then do
    let reader ← requireFields server reader "columns" columnFields
    let rows ← query server
      "SELECT name, type, position, default_kind, default_expression FROM system.columns WHERE database = %(database)s AND table = %(table)s ORDER BY position".toList
      (tableParameters table)
    .ok (rows, reader)
  else .ok (described.mapIdx describedColumn, reader)

def columns (reader : MetadataReader) (table : QualifiedTable) :
    Outcome (List TargetColumn × MetadataReader) := do
  let (described, reader) ← describeTable server reader table
  let (rows, reader) ← columnRows server reader table described
  let columns ← rows.mapM columnOf
  if ¬(columns.map TargetColumn.position).Nodup ∨ ¬(columns.map TargetColumn.name).Nodup then
    malformedColumns
  else if columns = [] then Outcome.raise .discovery "column metadata is absent or invisible"
  else do
    let sorted := columns.insertionSort fun a b => a.position ≤ b.position
    let expected ← described.mapM describedDefinition
    let definitions ← sorted.mapM columnDefinition
    if (definitions.map fun d => (some (Cell.str d.1), d.2.1, some (Cell.str d.2.2.1),
        some (Cell.str d.2.2.2))) ≠ expected then
      Outcome.raise .discovery "column metadata disagrees with full DESCRIBE"
    else .ok (sorted, reader)

end Columns

def malformedPartitions {α : Type} : Outcome α :=
  Outcome.raise .discovery "malformed local partition metadata"

/-- The weight of a partition; True and False are integers. -/
def weightOf : Cell → Option ℤ
  | .int i => some i
  | .bool b => some b.toNat
  | _ => none

def partitionOf (weight : Option String) (row : Row) : Outcome PartitionInfo :=
  match row.text? "partition_id", (row.get? "weight").bind weightOf with
  | some id, some w =>
      if id = [] ∨ w < 0 then malformedPartitions
      else
        .ok ⟨id, if weight = some "rows" then some w.toNat else none, none,
          if weight = some "bytes_on_disk" then some w.toNat else none⟩
  | _, _ => malformedPartitions

def partitionProjection : Option String → String
  | some column => s!"sum({column}) AS weight"
  | none => "toUInt64(1) AS weight"

def partitions (reader : MetadataReader) (table : QualifiedTable) (columns : List TargetColumn) :
    Outcome (Option (List PartitionInfo) × MetadataReader) :=
  match capability server reader "parts".toList with
  | .error failure =>
      if failure.kind = .notApplicable then .ok (none, reader) else .error failure
  | .ok (fields, reader) =>
      if !hasFields fields ["partition_id", "active", "database", "table"] ∨
          columns.any fun c => c.name = "_partition_id".toList then
        .ok (none, reader)
      else do
        let reader ← requireFields server reader "parts"
          [("partition_id", .str), ("active", .int), ("database", .str), ("table", .str)]
        let weight := ["bytes_on_disk", "rows"].find? fun name =>
          (fields.lookup name.toList).isSome
        let reader ← requireFields server reader "parts" (weight.toList.map fun w => (w, .int))
        let rows ← query server
          ("SELECT partition_id, ".toList ++ (partitionProjection weight).toList ++
            " FROM system.parts WHERE active AND database = %(database)s AND table = %(table)s GROUP BY partition_id ORDER BY partition_id".toList)
          (tableParameters table)
        let parts ← rows.mapM (partitionOf weight)
        .ok (some parts, reader)

def sortingKey (reader : MetadataReader) (table : QualifiedTable) :
    Outcome (Option Text × MetadataReader) := do
  let (fields, reader) ← capability server reader "tables".toList
  if (fields.lookup "sorting_key".toList).isNone then .ok (none, reader)
  else do
    let reader ← requireFields server reader "tables" [("sorting_key", .str)]
    let rows ← query server
      "SELECT sorting_key FROM system.tables WHERE database = %(database)s AND name = %(table)s".toList
      (tableParameters table)
    match rows with
    | [row] =>
        match row.text? "sorting_key" with
        | some key => .ok (some key, reader)
        | none => Outcome.raise .discovery "malformed local sorting key"
    | _ => Outcome.raise .discovery "malformed local sorting key"

end Reader

section Probe

def selectReadColumns (columns : List TargetColumn) (names : Option (List Text)) :
    Outcome (List TargetColumn) := do
  let selected ← normalizeColumns names
  match selected with
  | none => .ok columns
  | some names =>
      let unknown := names.filter fun name => (columnNamed columns name).isNone
      if unknown ≠ [] then
        Outcome.raise .configuration "unknown ClickHouse columns" (sortedNames unknown)
      else .ok (names.filterMap (columnNamed columns))

def canonicalSchema (representable : ArrowSchema → Bool) (columns : List TargetColumn)
    (arrowSchema : ArrowSchema) (sourceColumns : Option (List TargetColumn)) :
    Outcome SchemaPlan :=
  if arrowSchema.names ≠ columns.map TargetColumn.name then
    Outcome.raise .schema "ClickHouse DESCRIBE and Arrow schemas disagree"
  else if !representable arrowSchema then
    Outcome.raise .schema "ClickHouse schema cannot be represented in Arrow"
  else .ok ⟨arrowSchema, sourceColumns.getD columns⟩

/-- A projection that cannot be rendered is reported as the client's own errors are. -/
def probeProjection (columns : List TargetColumn) : Outcome Text :=
  match renderReadProjection columns with
  | .ok projection => .ok projection
  | .error failure =>
      .error (translate none (lower (failure.message.toList ++ failure.names.flatten))
        "schema discovery")

def tableSchema (node : Node) (table : QualifiedTable) (columns : List TargetColumn)
    (names : Option (List Text)) : Outcome SchemaPlan := do
  let selected ← selectReadColumns columns names
  let projection ← probeProjection selected
  match node.probe ("SELECT ".toList ++ projection ++ " FROM ".toList ++ table.sql ++
      " LIMIT 0".toList) with
  | .error raised => .error (clientFailure "schema discovery" raised)
  | .ok none => Outcome.raise .schema "local schema probe returned a non-Arrow result"
  | .ok (some arrowSchema) =>
      canonicalSchema node.representable selected arrowSchema (some columns)

theorem tableSchema_eq_ok {node : Node} {table : QualifiedTable} {columns : List TargetColumn}
    {names : Option (List Text)} {plan : SchemaPlan}
    (h : tableSchema node table columns names = .ok plan) :
    ∃ selected, selectReadColumns columns names = .ok selected ∧
      plan.arrowSchema.names = selected.map TargetColumn.name ∧ plan.columns = columns := by
  obtain ⟨selected, hselected, h⟩ := Except.bind_eq_ok.mp h
  obtain ⟨projection, -, h⟩ := Except.bind_eq_ok.mp h
  refine ⟨selected, hselected, ?_⟩
  split at h
  · contradiction
  · simp [Outcome.raise] at h
  · rename_i arrowSchema _
    unfold canonicalSchema at h
    split at h
    · simp [Outcome.raise] at h
    · rename_i hnames
      split at h
      · simp [Outcome.raise] at h
      · cases Except.ok.inj h
        exact ⟨not_not.mp hnames, rfl⟩

end Probe

end RayClickHouse.Metadata
