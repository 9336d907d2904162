import RayClickHouse.ConnectiveReading
import RayClickHouse.PredicateTokens
import RayClickHouse.Sql

/-!
The recogniser of row-local predicates. The source keeps only the set of column
names it met; here every comparison is kept, and the names are collected from
what was read.
-/
namespace RayClickHouse.PredicateColumns

open Text Schema TypeText Connectives PredicateTokens

inductive Operand [UnicodeDatabase]
  | constant (t : Token)
  | column (c : TargetColumn)
  deriving DecidableEq

inductive Condition [UnicodeDatabase]
  | between (negated : Bool) (column : TargetColumn) (low high : Token)
  | like (negated : Bool) (column : TargetColumn) (pattern : Token)
  | inList (negated : Bool) (column : TargetColumn) (items : List Token)
  | isNull (operand : Operand) (negated : Bool)
  | compare (left : Operand) (operator : Token) (right : Operand)
  deriving DecidableEq

variable [UnicodeDatabase]

namespace Operand

def names : Operand → List Text
  | constant _ => []
  | column c => [c.name]

end Operand

namespace Condition

def names : Condition → List Text
  | between _ c _ _ => [c.name]
  | like _ c _ => [c.name]
  | inList _ c _ => [c.name]
  | isNull operand _ => operand.names
  | compare left _ right => left.names ++ right.names

end Condition

def searchWords (words : List Text) : Option Char → Text → Bool
  | _, [] => false
  | previous, c :: rest =>
      (!Sql.isWordOption previous && words.any fun word =>
        word.isPrefixOf (c :: rest) &&
          !Sql.isWordOption ((c :: rest).drop word.length).head?) ||
        searchWords words (some c) rest

def identifierWords : List Text := ["Identifier".toList]

def compositeWords : List Text :=
  ["Array", "Tuple", "Map", "Nested", "JSON", "Object"].map String.toList

def constantWords : List Text := ["NULL", "TRUE", "FALSE"].map String.toList

def comparisonSymbols : List Text :=
  ["=", "==", "!=", "<>", "<=", ">=", "<", ">"].map String.toList

def notApplicable (message : String) : Failure := ⟨.notApplicable, message, []⟩

def spells (value : String) (t : Token) : Bool := upper t.text = value.toList

def take (value : String) : List Token → Option (List Token)
  | [] => none
  | t :: rest => if spells value t then some rest else none

def takeNot (ts : List Token) : Bool × List Token :=
  match take "NOT" ts with
  | some rest => (true, rest)
  | none => (false, ts)

def constantToken (stringOnly : Bool) (t : Token) : Outcome Bool :=
  match t.kind with
  | .parameter =>
      if t.text.head? = some '{' ∧ searchWords identifierWords none t.text = true then
        .error (notApplicable "identifier bindings require logical-source reading")
      else .ok true
  | .string => .ok true
  | .number => .ok !stringOnly
  | .word => .ok (!stringOnly && decide (upper t.text ∈ constantWords))
  | _ => .ok false

def requireConstant (message : String) (stringOnly : Bool) :
    List Token → Outcome (Token × List Token)
  | [] => .error (notApplicable message)
  | t :: rest =>
      match constantToken stringOnly t with
      | .error failure => .error failure
      | .ok true => .ok (t, rest)
      | .ok false => .error (notApplicable message)

def requireToken (message value : String) (ts : List Token) : Outcome (List Token) :=
  Outcome.ofOption (notApplicable message) (take value ts)

def eligible (c : TargetColumn) : Bool :=
  c.defaultKind ≠ "ALIAS".toList && !searchWords compositeWords none c.declaredType

def columnToken (columns : List TargetColumn) (t : Token) : Option TargetColumn :=
  if t.kind = .word ∨ t.kind = .quoted then
    (columnNamed columns (stripChars ['`', '"'] t.text)).filter eligible
  else none

def atom (columns : List TargetColumn) : List Token → Outcome (Operand × List Token)
  | [] => .error (notApplicable "incomplete predicate")
  | t :: rest =>
      match constantToken false t with
      | .error failure => .error failure
      | .ok true => .ok (.constant t, rest)
      | .ok false =>
          match columnToken columns t with
          | some c => .ok (.column c, rest)
          | none => .error (notApplicable "predicate requires a physical scalar column")

def requireColumn (message : String) : Operand → Outcome TargetColumn
  | .constant _ => .error (notApplicable message)
  | .column c => .ok c

def isStringColumn (c : TargetColumn) : Outcome Bool :=
  (fun p => decide (p.1.name ∈ ["String".toList, "FixedString".toList])) <$> unwrap c.declaredType

def requireString (message : String) (c : TargetColumn) : Outcome Unit :=
  match isStringColumn c with
  | .error failure => .error failure
  | .ok true => .ok ()
  | .ok false => .error (notApplicable message)

def betweenMessage : String := "BETWEEN requires a column and constant bounds"

def betweenTail (negated : Bool) (operand : Operand) (ts : List Token) :
    Outcome (Condition × List Token) := do
  let c ← requireColumn betweenMessage operand
  let (low, ts) ← requireConstant betweenMessage false ts
  let ts ← requireToken betweenMessage "AND" ts
  let (high, ts) ← requireConstant betweenMessage false ts
  return (.between negated c low high, ts)

def likeMessage : String := "LIKE requires a string column and fixed pattern"

def likeTail (negated : Bool) (operand : Operand) (ts : List Token) :
    Outcome (Condition × List Token) := do
  let c ← requireColumn likeMessage operand
  requireString likeMessage c
  let (pattern, ts) ← requireConstant likeMessage true ts
  return (.like negated c pattern, ts)

def inMessage : String := "IN requires a column and nonempty scalar list"

def moreItems : List Token → Outcome (List Token × List Token)
  | [] => .ok ([], [])
  | [t] =>
      if spells "," t then
        .error (notApplicable "IN requires constant scalar list elements")
      else .ok ([], [t])
  | t :: u :: rest =>
      if spells "," t then do
        let (item, _) ← requireConstant "IN requires constant scalar list elements" false [u]
        let (items, after) ← moreItems rest
        return (item :: items, after)
      else .ok ([], t :: u :: rest)

def inTail (negated : Bool) (operand : Operand) (ts : List Token) :
    Outcome (Condition × List Token) := do
  let c ← requireColumn inMessage operand
  let ts ← requireToken inMessage "(" ts
  let (first, ts) ← requireConstant inMessage false ts
  let (items, ts) ← moreItems ts
  let ts ← requireToken "IN requires a constant scalar list" ")" ts
  return (.inList negated c (first :: items), ts)

def isTail (operand : Operand) (ts : List Token) : Outcome (Condition × List Token) := do
  let after ← requireToken "unsupported IS predicate" "NULL" (takeNot ts).2
  return (.isNull operand (takeNot ts).1, after)

def compareTail (columns : List TargetColumn) (operand : Operand) :
    List Token → Outcome (Condition × List Token)
  | [] => .error (notApplicable "predicate requires a comparison")
  | t :: rest =>
      if upper t.text ∈ comparisonSymbols then do
        let (right, after) ← atom columns rest
        return (.compare operand t right, after)
      else .error (notApplicable "predicate requires a comparison")

/-- What follows the first operand of a comparison and an optional NOT. -/
def comparisonTail (columns : List TargetColumn) (operand : Operand) (negated : Bool)
    (ts : List Token) : Outcome (Condition × List Token) :=
  match take "BETWEEN" ts with
  | some after => betweenTail negated operand after
  | none =>
      match take "LIKE" ts with
      | some after => likeTail negated operand after
      | none =>
          match take "IN" ts with
          | some after => inTail negated operand after
          | none =>
              if negated then .error (notApplicable "unsupported negated predicate")
              else
                match take "IS" ts with
                | some after => isTail operand after
                | none => compareTail columns operand ts

def comparison (columns : List TargetColumn) (ts : List Token) :
    Outcome (Condition × List Token) := do
  let (operand, after) ← atom columns ts
  comparisonTail columns operand (takeNot after).1 (takeNot after).2

def role (t : Token) : Role :=
  if spells "NOT" t then .negate
  else if spells "(" t then .opening
  else if spells ")" t then .closing
  else if spells "AND" t then .conjoin
  else if spells "OR" t then .disjoin
  else .plain

def reader (columns : List TargetColumn) : Reader Token Failure Condition where
  role := role
  atomic := comparison columns
  unclosed := notApplicable "unsupported predicate parentheses"
  nested := notApplicable "predicate nesting exceeds the supported profile"

def mentioned (f : Formula Condition) : Finset Text :=
  (f.leaves.flatMap Condition.names).toFinset

/-- The columns of a predicate. The limit is the interpreter's on nested terms. -/
def predicateColumns (limit : ℕ) (text : Text) (columns : List TargetColumn) :
    Outcome (Finset Text) := do
  let ts ← tokens text
  let (f, rest) ← (reader columns).expression limit ts
  if rest ≠ [] ∨ mentioned f = ∅ then
    .error (notApplicable "predicate is outside the comparison profile")
  else .ok (mentioned f)

end RayClickHouse.PredicateColumns
