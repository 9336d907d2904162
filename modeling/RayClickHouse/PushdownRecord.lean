import RayClickHouse.RayExpressions

/-!
What a clone was made for: the expressions and the projections that were
accepted along its ancestry, oldest first, and what they amount to.
-/
namespace RayClickHouse.Datasource

open Predicates

inductive Accepted
  | predicate (expr : RayExpr)
  | projection (projectionMap : Option (List Text))

section Record

variable (ray : RayVersion)

def conjoin : Option PredicateNode → List Accepted → Option PredicateNode
  | node, [] => node
  | node, .projection _ :: rest => conjoin node rest
  | node, .predicate expr :: rest =>
      match node, decodePredicate ray expr with
      | some earlier, some decoded => conjoin (some (.node .and [earlier, decoded] .null)) rest
      | none, some decoded => conjoin (some decoded) rest
      | node, none => conjoin node rest

def reported : Option RayExpr → List Accepted → Option RayExpr
  | expr, [] => expr
  | expr, .projection _ :: rest => reported expr rest
  | expr, .predicate next :: rest => reported (some (combinePredicates expr next)) rest

def lastProjection : Option (List Text) → List Accepted → Option (List Text)
  | columns, [] => columns
  | columns, .predicate _ :: rest => lastProjection columns rest
  | columns, .projection none :: rest => lastProjection columns rest
  | _, .projection (some names) :: rest => lastProjection (some names) rest

theorem conjoin_append (node : Option PredicateNode) (first rest : List Accepted) :
    conjoin ray node (first ++ rest) = conjoin ray (conjoin ray node first) rest := by
  induction first generalizing node with
  | nil => rfl
  | cons accepted first ih =>
    cases accepted with
    | projection _ => exact ih _
    | predicate expr =>
      simp only [List.cons_append, conjoin]
      cases node <;> cases decodePredicate ray expr <;> exact ih _

theorem reported_append (expr : Option RayExpr) (first rest : List Accepted) :
    reported expr (first ++ rest) = reported (reported expr first) rest := by
  induction first generalizing expr with
  | nil => rfl
  | cons accepted first ih => cases accepted <;> exact ih _

theorem lastProjection_append (columns : Option (List Text)) (first rest : List Accepted) :
    lastProjection columns (first ++ rest) =
      lastProjection (lastProjection columns first) rest := by
  induction first generalizing columns with
  | nil => rfl
  | cons accepted first ih =>
    cases accepted with
    | predicate _ => exact ih _
    | projection projectionMap => cases projectionMap <;> exact ih _

theorem lastProjection_eq_none {columns : Option (List Text)} {accepted : List Accepted}
    (h : lastProjection columns accepted = none) : columns = none := by
  induction accepted generalizing columns with
  | nil => exact h
  | cons first rest ih =>
    cases first with
    | predicate _ => exact ih h
    | projection projectionMap =>
      cases projectionMap with
      | none => exact ih h
      | some names => exact absurd (ih h) (Option.some_ne_none _)

end Record

end RayClickHouse.Datasource
