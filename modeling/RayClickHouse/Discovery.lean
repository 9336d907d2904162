import RayClickHouse.Planning
import RayClickHouse.Schema

/-!
What planning knows about a table: its schema and engine, its partitions, and
the facts about an integer range key. The key is the first column of a plain
sorting key.
-/
namespace RayClickHouse.Discovery

open Text TypeText Schema Planning

structure DiscoverySnapshot where
  schema : SchemaPlan
  engine : Text
  partitions : List PartitionInfo := []
  rangeFacts : Option RangeFacts := none

def writeEngines : List Text :=
  ["MergeTree", "ReplicatedMergeTree", "ReplacingMergeTree", "ReplicatedReplacingMergeTree",
    "SummingMergeTree", "ReplicatedSummingMergeTree", "AggregatingMergeTree",
    "ReplicatedAggregatingMergeTree", "CollapsingMergeTree", "ReplicatedCollapsingMergeTree",
    "VersionedCollapsingMergeTree", "ReplicatedVersionedCollapsingMergeTree", "GraphiteMergeTree",
    "ReplicatedGraphiteMergeTree"].map String.toList

/-- Controls that change which rows a query returns, with their neutral values. -/
def predicateRequiredSettings : List (String × String) :=
  [("final", "0"), ("max_result_rows", "0"), ("max_result_bytes", "0"), ("limit", "0"),
    ("offset", "0"), ("additional_result_filter", ""), ("additional_table_filters", "\x7b\x7d"),
    ("read_overflow_mode", "throw"), ("timeout_overflow_mode", "throw"),
    ("group_by_overflow_mode", "throw"), ("sort_overflow_mode", "throw")]

/-- Query-rewriting controls, absent on older servers. -/
def predicateOptionalSettings : List (String × String) :=
  [("page", "0"), ("select", ""), ("filter", ""), ("order", ""), ("sort", "")]

def translate (code : Option ℤ) (message : Text) (operation : String) : Failure :=
  if code = some 516 ∨ code = some 193 ∨ mentions message "authentication" then
    ⟨.authentication, s!"ClickHouse authentication failed during {operation}", []⟩
  else if code = some 497 ∨ code = some 551 ∨ mentions message "not enough privileges" ∨
      mentions message "access denied" then
    ⟨.permission, s!"ClickHouse permission check failed during {operation}", []⟩
  else if code = some 60 ∨ code = some 81 ∨ mentions message "unknown table" ∨
      mentions message "doesn't exist" then
    ⟨.objectNotFound, s!"ClickHouse object was not found during {operation}", []⟩
  else if mentions message "timeout" ∨ mentions message "connection" ∨ mentions message "http" then
    ⟨.transport, s!"ClickHouse transport failed during {operation}", []⟩
  else if operation = "schema discovery" then
    ⟨.schema, "ClickHouse schema discovery failed", []⟩
  else ⟨.discovery, s!"ClickHouse {operation} failed", []⟩

/-- The loop of _is_integer_range_column; every pass reads a shorter type. -/
def isIntegerWithin : ℕ → ClickHouseType → Outcome Bool
  | 0, _ => .ok false
  | fuel + 1, parsed =>
      if parsed.name = "Nullable".toList ∨ parsed.name = "LowCardinality".toList then
        match parsed.arguments with
        | argument :: _ => do
            let inner ← parseType argument
            isIntegerWithin fuel inner
        | [] => Outcome.raise .builtin "tuple index out of range"
      else .ok (IntegerType.ofName parsed.name).isSome

def isIntegerRangeColumn (column : TargetColumn) : Outcome Bool := do
  let parsed ← parseType column.declaredType
  isIntegerWithin (column.declaredType.length + 1) parsed

def isSortingIdentifier (s : Text) : Bool :=
  isIdentifier s ||
    match s with
    | '`' :: rest => rest.getLast? == some '`' && isIdentifier rest.dropLast
    | _ => false

def sortingKeyText (sortingKey : Text) : Text :=
  let key := strip sortingKey
  if "tuple(".toList.isPrefixOf key ∧ key.getLast? = some ')' then
    strip ((key.drop 6).dropLast)
  else key

def notIntegerKey {α : Type*} : Outcome α :=
  Outcome.raise .discovery
    "automatic range splitting requires a physical integer first sorting column"

def selectAutoRangeColumn (sortingKey : Text) (columns : List TargetColumn) :
    Outcome TargetColumn :=
  let parts := ((sortingKeyText sortingKey).splitOn ',').map strip
  if parts.all isSortingIdentifier then
    let names := parts.map (stripChars ['`'])
    if names.any fun n => (columnNamed columns n).isNone then
      Outcome.raise .discovery "sorting key contains a column absent from the schema"
    else
      match names.head?.bind (columnNamed columns) with
      | none => Outcome.raise .builtin "KeyError"
      | some column =>
          if column.defaultKind = "ALIAS".toList then notIntegerKey
          else do
            let integer ← isIntegerRangeColumn column
            if integer then .ok column else notIntegerKey
  else Outcome.raise .discovery "automatic range splitting requires a simple sorting key"

end RayClickHouse.Discovery
