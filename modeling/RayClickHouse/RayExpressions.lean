import RayClickHouse.Predicates

/-!
Dataset expressions as they reach the connector. A tree of the supported public
node classes is copied into a predicate node, one of another class or too large
is refused as a whole, and a reported predicate grows by conjunction.
-/
namespace RayClickHouse.Predicates

inductive RayExpr
  | column (name : Text)
  | literal (value : Value)
  | binary (op : Op) (left right : RayExpr)
  | unary (op : Op) (operand : RayExpr)
  | other

def isBinaryOp : Op → Bool
  | .compare _ | .and | .or => true
  | _ => false

def isUnaryOp : Op → Bool
  | .not | .isNull | .isNotNull => true
  | _ => false

def literalNode : Value → Option PredicateNode
  | .other _ => none
  | value => some (.node .literal [] value)

def decodeFrom : RayExpr → ℕ → ℕ → Option PredicateNode × ℕ
  | expr, depth, before =>
      let visited := before + 1
      if visited > 256 ∨ depth > 32 then (none, visited)
      else
        match expr with
        | .column name => (some (.node .column [] (.str name)), visited)
        | .literal value => (literalNode value, visited)
        | .binary op left right =>
            if isBinaryOp op then
              let (l, visited) := decodeFrom left (depth + 1) visited
              let (r, visited) := decodeFrom right (depth + 1) visited
              (l.bind fun a => r.map fun b => .node op [a, b] .null, visited)
            else (none, visited)
        | .unary op operand =>
            if isUnaryOp op then
              let (child, visited) := decodeFrom operand (depth + 1) visited
              (child.map fun a => .node op [a] .null, visited)
            else (none, visited)
        | .other => (none, visited)

/-- The numbers of a final Ray release, none for any other build. -/
abbrev RayVersion := Option (ℕ × ℕ × ℕ)

def supportsPredicatePushdown (ray : RayVersion) : Bool :=
  ray == some (2, 58, 0) || ray == some (2, 59, 0)

def supportsV1ProjectionPushdown (ray : RayVersion) : Bool :=
  ray == some (2, 58, 0) || ray == some (2, 59, 0)

def decodePredicate (ray : RayVersion) (expression : RayExpr) : Option PredicateNode :=
  if supportsPredicatePushdown ray then (decodeFrom expression 0 0).1 else none

def combinePredicates (previous : Option RayExpr) (expression : RayExpr) : RayExpr :=
  match previous with
  | none => expression
  | some earlier => .binary .and earlier expression

end RayClickHouse.Predicates
