import RayClickHouse.Schema

/-!
The SELECT list of a read: a column whose transport type differs from its
declaration is cast to it under its own name.
-/
namespace RayClickHouse.Schema

open Text TypeText

def unsupportedType {α : Type*} (value : Text) : Outcome α :=
  Outcome.raise .schema "unsupported ClickHouse type" [value]

def invalidType {α : Type*} (value : Text) : Outcome α :=
  Outcome.raise .schema "invalid ClickHouse type" [value]

def stringTransportNames : List Text :=
  ["UUID", "IPv4", "IPv6", "Enum8", "Enum16"].map String.toList

def directTransportNames : List Text :=
  (["String", "FixedString"].map String.toList ++ integerTypeNames) ++
    ["Float32", "Float64", "Bool", "Date32", "DateTime", "DateTime64", "Decimal", "Decimal32",
      "Decimal64", "Decimal128"].map String.toList

def transportWithin : ℕ → Text → Outcome Text
  | 0, value => unsupportedType value
  | fuel + 1, value => do
      let parsed ← parseType value
      if parsed.name = "Date".toList then .ok "Date32".toList
      else if parsed.name ∈ stringTransportNames then .ok "String".toList
      else if parsed.name ∈ directTransportNames then .ok (strip value)
      else if parsed.name ∈ ["Nullable", "LowCardinality", "Array"].map String.toList then
        match parsed.arguments with
        | [argument] => do
            let inner ← transportWithin fuel argument
            .ok (call parsed.name inner)
        | _ => invalidType value
      else if parsed.name = "Map".toList then
        match parsed.arguments with
        | [key, item] => do
            let k ← transportWithin fuel key
            let v ← transportWithin fuel item
            .ok (call "Map".toList (join ", ".toList [k, v]))
        | _ => invalidType value
      else if parsed.name = "Tuple".toList then
        if parsed.arguments = [] then invalidType value
        else do
          let rendered ← parsed.arguments.mapM fun argument =>
            match tupleField argument with
            | none => transportWithin fuel argument
            | some (name, type) => do
                let inner ← transportWithin fuel type
                .ok (name ++ " ".toList ++ inner)
          .ok (call "Tuple".toList (join ", ".toList rendered))
      else if parsed.name = "SimpleAggregateFunction".toList then
        match parsed.arguments with
        | [function, argument] => do
            let inner ← transportWithin fuel argument
            .ok (call "SimpleAggregateFunction".toList (join ", ".toList [function, inner]))
        | _ => unsupportedType value
      else unsupportedType value

def transportTypeExpression (value : Text) : Outcome Text :=
  transportWithin (value.length + 1) value

def renderReadColumn (column : TargetColumn) : Outcome Text := do
  let transport ← transportTypeExpression column.declaredType
  if transport = strip column.declaredType then .ok (quoted column.name)
  else
    .ok ("CAST(".toList ++ quoted column.name ++ " AS ".toList ++ transport ++ ") AS ".toList ++
      quoted column.name)

def renderReadProjection (columns : List TargetColumn) : Outcome Text := do
  let projection ← columns.mapM renderReadColumn
  .ok (join ", ".toList projection)

end RayClickHouse.Schema
