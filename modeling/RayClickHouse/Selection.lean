import RayClickHouse.ParameterValues
import RayClickHouse.ThreeValued

/-!
The rows a query selects. Its condition is evaluated in three-valued logic with
the returned parameters looked up by name; the caller's filter and the pushed
predicate are opaque. An accepted query keeps a row exactly when both hold and
the split constraint of the request admits the row.
-/
namespace RayClickHouse.Sql

open Text Lexical TypeText FilterScan Schema Predicates ThreeValued

/-- How a row is read: its partition, its integer columns, and the two opaque conditions. -/
structure RowView (ρ : Type*) where
  partitionId : ρ → Text
  integer : ρ → Text → Option ℤ
  filter : ρ → Truth
  predicate : ρ → Truth

section Truth

variable {ρ : Type*} (v : RowView ρ) (parameters : Bindings) (r : ρ)

def FilterCondition.truth : FilterCondition → Truth
  | user _ => v.filter r
  | pushed _ => v.predicate r
  | both _ _ => (v.filter r).and (v.predicate r)

def compareBound (test : ℤ → ℤ → Bool) (value : Option ℤ) (bound : Option Value) : Truth :=
  match value, bound with
  | some k, some (.int b) => .ofBool (test k b)
  | _, _ => .unknown

def Clause.truth : Clause → Truth
  | filter condition => condition.truth v r
  | partition names =>
      .ofBool (names.any fun n => parameters.get? n == some (.str (v.partitionId r)))
  | range column lower upper =>
      .all (lower.toList.map (fun n =>
          compareBound (fun k b => decide (b ≤ k)) (v.integer r column) (parameters.get? n)) ++
        upper.toList.map (fun n =>
          compareBound (fun k b => decide (k < b)) (v.integer r column) (parameters.get? n)))

def Where.truth : Where → Truth
  | conjunction clauses => .all (clauses.map (Clause.truth v parameters r))
  | withNull nonRange column range =>
      .all (nonRange.map (Clause.truth v parameters r) ++
        [(range.truth v parameters r).or (.ofBool (v.integer r column).isNone)])

def SelectQuery.truth (q : SelectQuery) : Truth :=
  match q.condition with
  | none => .yes
  | some w => w.truth v q.parameters r

/-- The filter AND the predicate, as far as they are given. -/
def whole (filter : Option Text) (pushed : Option CompiledPredicate) : Truth :=
  (if filter.isSome then v.filter r else .yes).and (if pushed.isSome then v.predicate r else .yes)

/-- The integer lies within the bounds; NULL only where it is included. -/
def withinBounds (lower upper : Option ℤ) (includeNull : Bool) (value : Option ℤ) : Bool :=
  match value with
  | none => includeNull
  | some k => lower.all (fun b => decide (b ≤ k)) && upper.all (fun b => decide (k < b))

def SelectRequest.admits (request : SelectRequest) : Bool :=
  (request.partitionIds.all fun ids => decide (v.partitionId r ∈ ids)) &&
    request.rangeColumn.all fun column =>
      !(request.rangeLower.isSome || request.rangeUpper.isSome) ||
        withinBounds request.rangeLower request.rangeUpper request.rangeIncludeNull
          (v.integer r column)

end Truth

section Clauses

variable {ρ : Type*} (v : RowView ρ) (r : ρ) {request : SelectRequest} {q : SelectQuery}

theorem partition_truth (h : NoOverwrite request q) {ids : List Text}
    (hids : request.partitionIds = some ids) :
    Clause.truth v q.parameters r (.partition (partitionNames ids)) = .yes ↔
      v.partitionId r ∈ ids := by
  have hvalues := h.partition ids hids
  have hlen : (partitionNames ids).length = (ids.map Value.str).length := by
    simp [partitionNames]
  rw [Clause.truth, Truth.ofBool_eq_yes, List.any_eq_true]
  constructor
  · rintro ⟨n, hn, hvalue⟩
    rw [← names_partitionBindings] at hn
    obtain ⟨b, hb, rfl⟩ := List.mem_map.mp hn
    rw [hvalues b hb, beq_iff_eq, Option.some.injEq] at hvalue
    obtain ⟨id, hid, heq⟩ := List.mem_map.mp (List.of_mem_zip hb).2
    rw [hvalue, Value.str.injEq] at heq
    exact heq ▸ hid
  · intro hid
    have hmem : Value.str (v.partitionId r) ∈ (partitionBindings ids).map Prod.snd := by
      rw [partitionBindings, List.map_snd_zip (le_of_eq hlen.symm)]
      exact List.mem_map_of_mem hid
    obtain ⟨b, hb, heq⟩ := List.mem_map.mp hmem
    refine ⟨b.1, names_partitionBindings ids ▸ Bindings.mem_names hb, ?_⟩
    rw [hvalues b hb, heq]
    exact beq_self_eq_true _

/-- A generated range, extended to NULL keys or not. -/
theorem range_truth (h : NoOverwrite request q) {column : Text}
    (hcolumn : request.rangeColumn = some column)
    (hclause : RangeClause column request.rangeLower request.rangeUpper) :
    Clause.truth v q.parameters r (rangeOf column request.rangeLower request.rangeUpper) = .yes ↔
      withinBounds request.rangeLower request.rangeUpper false (v.integer r column) = true := by
  have hvalues := h.range (by simp [hcolumn])
  have hlower : ∀ b, request.rangeLower = some b →
      q.parameters.get? rangeLowerName = some (.int b) := by
    intro b hb
    exact hvalues (rangeLowerName, .int b) (by simp [rangeBindings, hb])
  have hupper : ∀ b, request.rangeUpper = some b →
      q.parameters.get? rangeUpperName = some (.int b) := by
    intro b hb
    exact hvalues (rangeUpperName, .int b) (by simp [rangeBindings, hb])
  have hbounded := hclause.bounded
  cases hl : request.rangeLower with
  | none =>
    cases hu : request.rangeUpper with
    | none => simp [hl, hu] at hbounded
    | some u =>
      cases hk : v.integer r column <;>
        simp [rangeOf, Clause.truth, hupper u hu, compareBound, hk, withinBounds]
  | some l =>
    cases hu : request.rangeUpper with
    | none =>
      cases hk : v.integer r column <;>
        simp [rangeOf, Clause.truth, hlower l hl, compareBound, hk, withinBounds]
    | some u =>
      cases hk : v.integer r column <;>
        simp [rangeOf, Clause.truth, hlower l hl, hupper u hu, compareBound, hk, withinBounds]

end Clauses

section Query

variable [UnicodeDatabase] {ρ : Type*} (v : RowView ρ) (r : ρ) {request : SelectRequest}
  {q : SelectQuery}

/-- The clauses beside the range hold when filter and predicate do and the
partition is listed. -/
theorem Accepted.clauses_truth (h : Accepted request q) (hcompiled : CompiledRequest request) :
    Truth.all ((requestClauses request).map (Clause.truth v q.parameters r)) = .yes ↔
      whole v r request.filterSql request.pushedPredicate = .yes ∧
        (request.partitionIds.all fun ids => decide (v.partitionId r ∈ ids)) = true := by
  have hkept := h.noOverwrite hcompiled
  have hfilter : Truth.all (((filterCondition (filterText request)
      request.pushedPredicate).toList.map Clause.filter).map (Clause.truth v q.parameters r)) =
      whole v r request.filterSql request.pushedPredicate := by
    cases hf : request.filterSql <;> cases hp : request.pushedPredicate <;>
      simp [filterText, hf, filterCondition, Clause.truth, FilterCondition.truth, whole]
  rw [requestClauses, List.map_append, Truth.all_append, Truth.and_eq_yes, hfilter]
  apply and_congr_right
  intro _
  cases hids : request.partitionIds with
  | none => simp
  | some ids =>
    have hpartition := partition_truth v r hkept hids
    simpa using hpartition

/-- An accepted query keeps a row exactly when the filter and the predicate hold
and the split constraint admits the row. -/
theorem Accepted.truth_eq_yes (h : Accepted request q) (hcompiled : CompiledRequest request) :
    q.truth v r = .yes ↔ whole v r request.filterSql request.pushedPredicate = .yes ∧
      request.admits v r = true := by
  have hkept := h.noOverwrite hcompiled
  have hclauses := h.clauses_truth v r hcompiled
  rw [SelectRequest.admits, Bool.and_eq_true, ← and_assoc, ← hclauses]
  unfold SelectQuery.truth
  rw [h.condition_eq hcompiled]
  cases hrange : requestRange request with
  | none =>
    have hnone : request.rangeColumn.all (fun column =>
        !(request.rangeLower.isSome || request.rangeUpper.isSome) ||
          withinBounds request.rangeLower request.rangeUpper request.rangeIncludeNull
            (v.integer r column)) = true := by
      unfold requestRange at hrange
      cases hcolumn : request.rangeColumn with
      | none => rfl
      | some column =>
        rw [hcolumn] at hrange
        simp only at hrange
        split at hrange
        · contradiction
        · rename_i hbounds
          simp [hbounds]
    rw [hnone]
    by_cases hnil : requestClauses request = []
    · simp [hnil]
    · simp [hnil, Where.truth]
  | some p =>
    obtain ⟨column, c⟩ := p
    obtain ⟨hclause, rfl⟩ := h.range column c hrange
    have hcolumn : request.rangeColumn = some column := by
      unfold requestRange at hrange
      cases hc : request.rangeColumn with
      | none => simp [hc] at hrange
      | some c' =>
        rw [hc] at hrange
        simp only at hrange
        split at hrange
        · simp only [Option.some.injEq, Prod.mk.injEq] at hrange
          rw [hrange.1]
        · contradiction
    have hbounds : (request.rangeLower.isSome || request.rangeUpper.isSome) = true := by
      simpa using hclause.bounded
    have htruth := range_truth v r hkept hcolumn hclause
    rw [hcolumn, Option.all_some, hbounds, Bool.not_true, Bool.false_or]
    cases hnull : request.rangeIncludeNull with
    | false =>
      simp only [Bool.false_eq_true, if_false, Where.truth, List.map_append, Truth.all_append,
        List.map_cons, List.map_nil, Truth.all_cons, Truth.all_nil, Truth.and_yes, Truth.and_eq_yes]
      rw [htruth]
    | true =>
      simp only [if_true, Where.truth, Truth.all_append, Truth.all_cons, Truth.all_nil,
        Truth.and_yes, Truth.and_eq_yes, Truth.or_eq_yes, Truth.ofBool_eq_yes]
      rw [htruth]
      apply and_congr_right
      intro _
      cases v.integer r column <;> simp [withinBounds]

end Query

end RayClickHouse.Sql
