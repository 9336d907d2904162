import RayClickHouse.Models

/-!
ClickHouse declarations as text: splitting an argument list at its top-level
commas and reading a type name with its arguments. Commas and parentheses
inside quoted text belong to the quoted text.
-/
namespace RayClickHouse.TypeText

open Text

structure ClickHouseType where
  name : Text
  arguments : List Text := []
  deriving DecidableEq, Repr

def isQuote (c : Char) : Bool := c == '\'' || c == '"' || c == '`'

def unbalanced {α : Type*} (value : Text) : Outcome α :=
  Outcome.raise .schema "unbalanced ClickHouse type" [value]

def emptyArgument {α : Type*} (value : Text) : Outcome α :=
  Outcome.raise .schema "empty ClickHouse type argument" [value]

/-- The scan of split_type_arguments: the open quote, the parenthesis depth, the
argument read so far and the finished arguments. A backslash inside quotes
takes the next character with it. -/
def splitFrom (value : Text) : Option Char → ℕ → Text → List Text → Text → Outcome (List Text)
  | some _, _, _, _, [] => unbalanced value
  | some q, depth, current, parts, c :: rest =>
      if c = '\\' then
        match rest with
        | [] => unbalanced value
        | d :: rest' => splitFrom value (some q) depth (current ++ [c, d]) parts rest'
      else splitFrom value (if c = q then none else some q) depth (current ++ [c]) parts rest
  | none, depth, current, parts, [] =>
      if depth ≠ 0 then unbalanced value
      else if strip current = [] then emptyArgument value
      else .ok (parts ++ [strip current])
  | none, depth, current, parts, c :: rest =>
      if isQuote c then splitFrom value (some c) depth (current ++ [c]) parts rest
      else if c = '(' then splitFrom value none (depth + 1) (current ++ [c]) parts rest
      else if c = ')' then
        if depth = 0 then unbalanced value
        else splitFrom value none (depth - 1) (current ++ [c]) parts rest
      else if c = ',' ∧ depth = 0 then
        if strip current = [] then emptyArgument value
        else splitFrom value none depth [] (parts ++ [strip current]) rest
      else splitFrom value none depth (current ++ [c]) parts rest

def splitTypeArguments (value : Text) : Outcome (List Text) := splitFrom value none 0 [] [] value

def parseType (value : Text) : Outcome ClickHouseType :=
  let text := strip value
  if text = [] then Outcome.raise .schema "ClickHouse type must not be empty"
  else
    match splitOnce "(".toList text with
    | none => .ok ⟨text, []⟩
    | some (before, after) =>
        if after.getLast? = some ')' then do
          let arguments ← splitTypeArguments after.dropLast
          .ok ⟨strip before, arguments⟩
        else Outcome.raise .schema "invalid ClickHouse type" [value]

def integerTypeNames : List Text :=
  ["Int8", "Int16", "Int32", "Int64", "UInt8", "UInt16", "UInt32", "UInt64"].map String.toList

def scalarParameterTypes : List Text :=
  ["String", "Bool", "Float32", "Float64", "Date", "Date32"].map String.toList ++ integerTypeNames

def call (name : Text) (arguments : Text) : Text := name ++ "(".toList ++ arguments ++ ")".toList

section Parameters

variable [UnicodeDatabase]

def isTimezoneLiteral (s : Text) : Bool :=
  match s with
  | '\'' :: rest =>
      rest.getLast? == some '\'' && rest.dropLast != [] &&
        rest.dropLast.all (fun c => isIdentPart c || "./+:-".toList.contains c)
  | _ => false

def decimalParameter (name : Text) (arguments : List Text) : Option Text := do
  let fixed :=
    if name = "Decimal32".toList then some 9
    else if name = "Decimal64".toList then some 18
    else if name = "Decimal128".toList then some 38
    else none
  let (precision, scale) ←
    match fixed, arguments with
    | none, [p, s] => do
        let precision ← toInt p
        let scale ← toInt s
        pure (precision, scale)
    | some p, [s] => do
        let scale ← toInt s
        pure ((p : ℤ), scale)
    | _, _ => none
  if 1 ≤ precision ∧ precision ≤ 38 ∧ 0 ≤ scale ∧ scale ≤ precision then
    some (call name (join ",".toList (arguments.map strip)))
  else none

def dateTimeParameter (name : Text) (arguments : List Text) : Option Text := do
  let plain := decide (name = "DateTime".toList)
  let values ←
    if plain then (if arguments.length > 1 then none else some arguments)
    else
      match arguments with
      | precision :: zone => do
          let n ← toInt precision
          if zone.length ≤ 1 ∧ 0 ≤ n ∧ n ≤ 9 then some (ofInt n :: zone) else none
      | [] => none
  let expected := if plain then 0 else 1
  let zoned := (values.getLast?.map isTimezoneLiteral).getD false
  if values.length > expected ∧ zoned = false then none
  else some (if values = [] then name else call name (join ",".toList values))

def parameterTypeWithin : ℕ → Text → Option Text
  | 0, _ => none
  | fuel + 1, value =>
      match parseType value with
      | .error _ => none
      | .ok ⟨name, arguments⟩ =>
          if name ∈ scalarParameterTypes ∧ arguments = [] then some name
          else if name = "Nullable".toList then
            match arguments with
            | [argument] => do
                let inner ← parameterTypeWithin fuel argument
                if "Nullable(".toList.isPrefixOf inner then none else some (call name inner)
            | _ => none
          else if name = "FixedString".toList then
            match arguments with
            | [argument] => do
                let length ← toInt argument
                if 0 < length then some (call name (ofInt length)) else none
            | _ => none
          else if name ∈ ["Decimal", "Decimal32", "Decimal64", "Decimal128"].map String.toList then
            decimalParameter name arguments
          else if name = "DateTime".toList ∨ name = "DateTime64".toList then
            dateTimeParameter name arguments
          else none

/-- An argument is shorter than the type it belongs to, so its length bounds
the nesting. -/
def parameterType (value : Text) : Outcome Text :=
  Outcome.ofOption ⟨.configuration, "unsupported server-side parameter type", []⟩
    (parameterTypeWithin (value.length + 1) value)

end Parameters

end RayClickHouse.TypeText
