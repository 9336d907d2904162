import RayClickHouse.Arrow
import RayClickHouse.TypeText

/-!
ClickHouse column declarations and the validation of an Arrow schema against a
target table.
-/
namespace RayClickHouse.Schema

open Text TypeText

structure TargetColumn where
  name : Text
  declaredType : Text
  defaultKind : Text := []
  defaultExpression : Text := []
  position : ℤ
  deriving DecidableEq, Repr

/-- str.upper(), as far as a comparison with an ASCII keyword can tell. -/
def upper (s : Text) : Text :=
  s.map fun c => if c.toNat = 305 then 'I' else if c.toNat = 383 then 'S' else c.toUpper

namespace TargetColumn

def insertable (c : TargetColumn) : Bool :=
  upper c.defaultKind ∉ ["MATERIALIZED".toList, "ALIAS".toList]

def hasServerDefault (c : TargetColumn) : Bool :=
  upper c.defaultKind ∈ ["MATERIALIZED".toList, "ALIAS".toList] ||
    (upper c.defaultKind == "DEFAULT".toList && strip c.defaultExpression != [])

end TargetColumn

structure SchemaPlan where
  arrowSchema : ArrowSchema
  columns : List TargetColumn

structure TargetTable where
  database : Text
  table : Text
  engine : Text
  columns : List TargetColumn

def TargetTable.insertableColumns (t : TargetTable) : List TargetColumn :=
  t.columns.filter TargetColumn.insertable

def normalizeColumns : Option (List Text) → Outcome (Option (List Text))
  | none => .ok none
  | some [] => Outcome.raise .configuration "columns must not be empty"
  | some columns => do
      let normalized ← columns.mapM fun c => validateIdentifier c "column"
      if normalized.Nodup then .ok (some normalized)
      else Outcome.raise .configuration "columns must not contain duplicates"

/-- The last declaration of a name, as a dict built from the columns keeps it. -/
def columnNamed (columns : List TargetColumn) (name : Text) : Option TargetColumn :=
  columns.reverse.find? (fun c => c.name = name)

theorem columnNamed_spec {columns : List TargetColumn} {name : Text} {c : TargetColumn}
    (h : columnNamed columns name = some c) : c.name = name ∧ c ∈ columns := by
  unfold columnNamed at h
  refine ⟨?_, ?_⟩
  · simpa using List.find?_some h
  · simpa using List.mem_of_find?_eq_some h

def unwrapWithin : ℕ → ClickHouseType → Bool → Outcome (ClickHouseType × Bool)
  | 0, parsed, nullable => .ok (parsed, nullable)
  | fuel + 1, parsed, nullable =>
      if parsed.name = "Nullable".toList then
        match parsed.arguments with
        | [argument] => do
            let inner ← parseType argument
            unwrapWithin fuel inner true
        | _ => .ok (parsed, nullable)
      else if parsed.name = "LowCardinality".toList then
        match parsed.arguments with
        | [argument] => do
            let inner ← parseType argument
            unwrapWithin fuel inner nullable
        | _ => .ok (parsed, nullable)
      else if parsed.name = "SimpleAggregateFunction".toList then
        match parsed.arguments with
        | [_, argument] => do
            let inner ← parseType argument
            unwrapWithin fuel inner nullable
        | _ => .ok (parsed, nullable)
      else .ok (parsed, nullable)

def unwrap (declared : Text) : Outcome (ClickHouseType × Bool) := do
  let parsed ← parseType declared
  unwrapWithin (declared.length + 1) parsed false

def stripQuotes (s : Text) : Text := stripChars ['\'', '"'] s

def timestampTimezone (parsed : ClickHouseType) : Option Text :=
  if parsed.name = "DateTime".toList then parsed.arguments.head?.map stripQuotes
  else if parsed.name = "DateTime64".toList then
    match parsed.arguments with
    | [_, zone] => some (stripQuotes zone)
    | _ => none
  else none

/-- After an opening backquote: what follows the closing one, a doubled
backquote being part of the name. -/
def afterBackquoted : Text → Option Text
  | [] => none
  | '`' :: '`' :: rest => afterBackquoted rest
  | '`' :: rest => some rest
  | _ :: rest => afterBackquoted rest

def tupleField (argument : Text) : Option (Text × Text) := do
  let after ←
    match argument with
    | '`' :: rest =>
        match afterBackquoted rest with
        | some after => if after.length + 1 = rest.length then none else some after
        | none => none
    | _ => (takeIdentifier argument).map Prod.snd
  let type := after.dropWhile isSpace
  if (after.head?.map isSpace).getD false ∧ type ≠ [] ∧ '\n' ∉ type then
    some (argument.take (argument.length - after.length), type)
  else none

def tupleArgumentType (argument : Text) : Text :=
  ((tupleField argument).map Prod.snd).getD argument

def textTypeNames : List Text :=
  ["String", "Enum8", "Enum16", "UUID", "IPv4", "IPv6", "FixedString"].map String.toList

section Compatible

variable [UnicodeDatabase]

def decimalMatches (arguments : List Text) (precision : ℕ) (scale : ℤ) : Bool :=
  match arguments with
  | [p, s] => toInt p == some (precision : ℤ) && toInt s == some scale
  | _ => false

mutual

def arrowCompatible (dtype : ArrowType) (declared : Text) : Outcome Bool := do
  let (parsed, _) ← unwrap declared
  if parsed.name ∈ textTypeNames then
    .ok (dtype == .string || dtype == .binary)
  else
    match IntegerType.ofName parsed.name with
    | some t => .ok (dtype == .integer t)
    | none =>
      if parsed.name = "Float32".toList then .ok (dtype == .float32)
      else if parsed.name = "Float64".toList then .ok (dtype == .float64)
      else if parsed.name = "Bool".toList then .ok (dtype == .boolean)
      else if parsed.name = "Date".toList ∨ parsed.name = "Date32".toList then
        .ok (dtype == .date32)
      else if parsed.name = "DateTime".toList ∨ parsed.name = "DateTime64".toList then
        match dtype with
        | .timestamp _ tz => .ok (tz == timestampTimezone parsed)
        | _ => .ok false
      else if parsed.name = "Decimal".toList then
        match dtype with
        | .decimal _ precision scale => .ok (decimalMatches parsed.arguments precision scale)
        | _ => .ok false
      else if parsed.name = "Array".toList then
        match parsed.arguments, dtype with
        | [argument], .list value => arrowCompatible value argument
        | [argument], .largeList value => arrowCompatible value argument
        | _, _ => .ok false
      else if parsed.name = "Map".toList then
        match parsed.arguments, dtype with
        | [k, v], .map key item => do
            if ← arrowCompatible key k then arrowCompatible item v else .ok false
        | _, _ => .ok false
      else if parsed.name = "Tuple".toList then
        match dtype with
        | .struct fields =>
            if parsed.arguments.length = fields.length then
              fieldsCompatible fields parsed.arguments
            else .ok false
        | _ => .ok false
      else .ok false

def fieldsCompatible (fields : ArrowFields) (arguments : List Text) : Outcome Bool :=
  match fields, arguments with
  | .cons _ _ type rest, argument :: more => do
      if ← arrowCompatible type (tupleArgumentType argument) then fieldsCompatible rest more
      else .ok false
  | _, _ => .ok true

end

def validateColumn (source : ArrowSchema) (column : TargetColumn) : Outcome TargetColumn :=
  match source.field? column.name with
  | none => Outcome.raise .schema "source schema is missing columns" [column.name]
  | some field => do
      if ← arrowCompatible field.type column.declaredType then .ok column
      else Outcome.raise .write "Arrow type is incompatible with ClickHouse" [column.name]

def validateSourceSchema (source : ArrowSchema) (target : TargetTable)
    (columns : Option (List Text)) : Outcome (List TargetColumn) := do
  let normalized ← normalizeColumns columns
  let selected := normalized.getD source.names
  let insertable := target.insertableColumns
  let missing := selected.filter fun n => n ∉ source.names
  let unknown := selected.filter fun n => (columnNamed insertable n).isNone
  let missingRequired :=
    (insertable.filter fun c => c.name ∉ selected && !c.hasServerDefault).map TargetColumn.name
  if missing ≠ [] then Outcome.raise .schema "source schema is missing columns" missing
  else if unknown ≠ [] then Outcome.raise .schema "source columns are not insertable" unknown
  else if missingRequired ≠ [] then
    Outcome.raise .schema "source schema is missing required columns" missingRequired
  else (selected.filterMap (columnNamed insertable)).mapM (validateColumn source)

theorem validateColumn_succeeds {source : ArrowSchema} {column : TargetColumn} {field : Field}
    (hfield : source.field? column.name = some field) :
    (∃ v, validateColumn source column = .ok v) ↔
      arrowCompatible field.type column.declaredType = .ok true := by
  unfold validateColumn
  rw [hfield]
  simp only
  cases arrowCompatible field.type column.declaredType with
  | error failure => simp [bind, Except.bind]
  | ok compatible =>
    cases compatible with
    | true => simp [bind, Except.bind]
    | false => simp [bind, Except.bind, Outcome.raise]

/-- A plan exists exactly for a selection of insertable source columns that leaves
out no column the target requires, each of a compatible type. -/
theorem validateSourceSchema_succeeds {source : ArrowSchema} {target : TargetTable}
    {columns normalized : Option (List Text)}
    (hnormalized : normalizeColumns columns = .ok normalized) :
    (∃ plan, validateSourceSchema source target columns = .ok plan) ↔
      (∀ n ∈ normalized.getD source.names, n ∈ source.names ∧
        (columnNamed target.insertableColumns n).isSome = true) ∧
      (∀ c ∈ target.insertableColumns,
        c.name ∈ normalized.getD source.names ∨ c.hasServerDefault = true) ∧
      ∀ c ∈ (normalized.getD source.names).filterMap (columnNamed target.insertableColumns),
        ∃ v, validateColumn source c = .ok v := by
  have hmissing : (normalized.getD source.names).filter (fun n => decide (n ∉ source.names)) = [] ↔
      ∀ n ∈ normalized.getD source.names, n ∈ source.names := by
    simp only [List.filter_eq_nil_iff, decide_eq_true_eq, not_not]
  have hunknown : (normalized.getD source.names).filter
        (fun n => (columnNamed target.insertableColumns n).isNone) = [] ↔
      ∀ n ∈ normalized.getD source.names,
        (columnNamed target.insertableColumns n).isSome = true := by
    simp only [List.filter_eq_nil_iff, Option.isNone_iff_eq_none, Option.isSome_iff_ne_none, ne_eq]
  have hrequired : (target.insertableColumns.filter fun c =>
        decide (c.name ∉ normalized.getD source.names) && !c.hasServerDefault).map
          TargetColumn.name = [] ↔
      ∀ c ∈ target.insertableColumns,
        c.name ∈ normalized.getD source.names ∨ c.hasServerDefault = true := by
    simp only [List.map_eq_nil_iff, List.filter_eq_nil_iff, Bool.and_eq_true, decide_eq_true_eq,
      Bool.not_eq_true', not_and, Bool.not_eq_false]
    constructor
    · intro h c hc
      by_cases hin : c.name ∈ normalized.getD source.names
      · exact Or.inl hin
      · exact Or.inr (h c hc hin)
    · intro h c hc hin
      exact (h c hc).resolve_left hin
  unfold validateSourceSchema
  simp only [hnormalized, bind, Except.bind, ne_eq, hmissing, hunknown, hrequired]
  by_cases h₁ : ∀ n ∈ normalized.getD source.names, n ∈ source.names
  · by_cases h₂ : ∀ n ∈ normalized.getD source.names,
        (columnNamed target.insertableColumns n).isSome = true
    · by_cases h₃ : ∀ c ∈ target.insertableColumns,
          c.name ∈ normalized.getD source.names ∨ c.hasServerDefault = true
      · rw [if_neg (not_not.mpr h₁), if_neg (not_not.mpr h₂), if_neg (not_not.mpr h₃),
          Except.mapM_succeeds]
        constructor
        · intro hall
          exact ⟨fun n hn => ⟨h₁ n hn, h₂ n hn⟩, h₃, hall⟩
        · rintro ⟨-, -, hall⟩
          exact hall
      · rw [if_neg (not_not.mpr h₁), if_neg (not_not.mpr h₂), if_pos h₃]
        refine iff_of_false (by simp [Outcome.raise]) ?_
        rintro ⟨-, h, -⟩
        exact h₃ h
    · rw [if_neg (not_not.mpr h₁), if_pos h₂]
      refine iff_of_false (by simp [Outcome.raise]) ?_
      rintro ⟨h, -, -⟩
      exact h₂ fun n hn => (h n hn).2
  · rw [if_pos h₁]
    refine iff_of_false (by simp [Outcome.raise]) ?_
    rintro ⟨h, -, -⟩
    exact h₁ fun n hn => (h n hn).1

end Compatible

end RayClickHouse.Schema
