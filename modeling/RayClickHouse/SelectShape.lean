import RayClickHouse.SelectText

/-!
The assembly of an accepted query. No clause beside the range is lost by the
text comparison, the filter stands behind its opening parentheses, and all that
follows it is generated text with the placeholders of the request.
-/
namespace RayClickHouse.Sql

open Text Lexical TypeText FilterScan Schema Predicates

section Clauses

theorem renders_head {native : Bool} {schema : SchemaPlan} {node : PredicateNode}
    {s s' : CompileState} {sql : Text} (h : Renders native schema node s sql s') :
    ∃ rest, sql = '(' :: rest := by
  cases h with
  | and => exact ⟨_, rfl⟩
  | or => exact ⟨_, rfl⟩
  | not => exact ⟨_, rfl⟩
  | isNull => exact ⟨_, rfl⟩
  | isNotNull => exact ⟨_, rfl⟩
  | column => exact ⟨_, rfl⟩
  | literalFirst h =>
    obtain ⟨_, _, _, _, _, _, rfl⟩ := renderComparison_eq_ok h
    exact ⟨_, rfl⟩
  | columnFirst h =>
    obtain ⟨_, _, _, _, _, _, rfl⟩ := renderComparison_eq_ok h
    exact ⟨_, rfl⟩

theorem compiled_head {p : CompiledPredicate} (h : Compiled p) : ∃ rest, p.sql = '(' :: rest := by
  obtain ⟨_, _, _, hrenders, _⟩ := h.renders
  exact renders_head hrenders

structure RangeClause (column : Text) (lower upper : Option ℤ) : Prop where
  identifier : isIdentifier column = true
  bounded : lower.isSome ∨ upper.isSome

def rangeOf (column : Text) (lower upper : Option ℤ) : Clause :=
  .range column (lower.map fun _ => rangeLowerName) (upper.map fun _ => rangeUpperName)

theorem rangeClause_eq_ok {column : Option Text} {lower upper : Option ℤ}
    {range : Option (Text × Clause)} {values : Bindings}
    (h : rangeClause column lower upper = .ok (range, values)) :
    ((column = none ∨ lower = none ∧ upper = none) ∧ range = none ∧ values = []) ∨
      ∃ c, column = some c ∧ RangeClause c lower upper ∧
        range = some (c, rangeOf c lower upper) ∧ values = rangeBindings lower upper := by
  unfold rangeClause at h
  cases column with
  | none =>
    cases Except.ok.inj h
    exact Or.inl ⟨Or.inl rfl, rfl, rfl⟩
  | some c =>
    obtain ⟨c', hvalid, hrest⟩ := Except.bind_eq_ok.mp h
    obtain ⟨rfl, hidentifier⟩ := validateIdentifier_eq_ok hvalid
    split at hrest
    · rename_i hnone
      cases Except.ok.inj hrest
      exact Or.inl ⟨Or.inr (by simpa using hnone), rfl, rfl⟩
    · rename_i hsome
      cases Except.ok.inj hrest
      refine Or.inr ⟨c', rfl, ⟨hidentifier, ?_⟩, rfl, rfl⟩
      cases lower <;> cases upper <;> simp at hsome ⊢

theorem partitionClause_eq_ok {ids : Option (List Text)} {clauses : List Clause} {values : Bindings}
    (h : partitionClause ids = .ok (clauses, values)) :
    (ids = none ∧ clauses = [] ∧ values = []) ∨
      ∃ is, ids = some is ∧ is ≠ [] ∧ clauses = [.partition (partitionNames is)] ∧
        values = partitionBindings is := by
  unfold partitionClause at h
  split at h
  · cases Except.ok.inj h
    exact Or.inl ⟨rfl, rfl, rfl⟩
  · simp [Outcome.raise] at h
  · rename_i is hne
    cases Except.ok.inj h
    exact Or.inr ⟨is, rfl, fun hnil => hne (by rw [hnil]), rfl, rfl⟩

variable (native : Bool)

theorem rangeOf_text {column : Text} {lower upper : Option ℤ} (h : RangeClause column lower upper) :
    ∃ d rest, (rangeOf column lower upper).text native =
      '(' :: (quoted column ++ ' ' :: d :: rest) ∧ (d = '>' ∨ d = '<') := by
  obtain ⟨_, hbounded⟩ := h
  cases lower with
  | some v =>
    refine ⟨'>', '=' :: ' ' :: (placeholder native rangeLowerName "Int128".toList ++
      ((upper.toList.map fun _ => quoted column ++ " < ".toList ++
        placeholder native rangeUpperName "Int128".toList).flatMap (" AND ".toList ++ ·) ++
          ")".toList)), ?_, Or.inl rfl⟩
    cases upper <;> simp [rangeOf, Clause.text, rangeParts, join_cons]
  | none =>
    cases upper with
    | some v =>
      refine ⟨'<', ' ' :: (placeholder native rangeUpperName "Int128".toList ++ ")".toList), ?_,
        Or.inr rfl⟩
      simp [rangeOf, Clause.text, rangeParts, join_cons]
    | none => simp at hbounded

theorem isIdentifier_partitionName (index : ℕ) : isIdentifier (partitionName index) = true := by
  unfold partitionName
  exact isIdentifier_numbered (by decide) index

theorem partition_text_ne {column : Text} {lower upper : Option ℤ} (names : List Text)
    (h : RangeClause column lower upper) :
    (Clause.partition names).text native ≠ (rangeOf column lower upper).text native := by
  obtain ⟨d, rest, hrange, hd⟩ := rangeOf_text native h
  rw [hrange]
  intro heq
  have hsplit : "_partition_id".toList ++ '`' :: (" IN (".toList ++
      join ", ".toList (names.map fun n => placeholder native n "String".toList) ++ "))".toList) =
      column ++ '`' :: (' ' :: d :: rest) := by
    simpa [Clause.text, quoted] using heq
  obtain ⟨_, _, htail⟩ := append_cons_inj hsplit (isIdentifier_mem (by decide))
    (isIdentifier_mem h.identifier) (by decide) (by decide)
  have hthird : 'I' = d := (List.cons.inj (List.cons.inj htail).2).1
  rcases hd with rfl | rfl <;> contradiction

theorem parenthesized_text_ne {column inner : Text} {lower upper : Option ℤ}
    (h : RangeClause column lower upper) :
    '(' :: '(' :: inner ≠ (rangeOf column lower upper).text native := by
  obtain ⟨d, rest, hrange, _⟩ := rangeOf_text native h
  rw [hrange]
  simp [quoted]

end Clauses

section Assembly

variable [UnicodeDatabase] (native : Bool)

/-- No filter clause reads like a generated range. -/
theorem filter_text_ne {filter : Option Text} {pushed : Option CompiledPredicate}
    (parameters : Bindings) (internal : Bool) {condition : FilterCondition} {column : Text}
    {lower upper : Option ℤ} (hrange : RangeClause column lower upper)
    (hcondition : filterCondition filter pushed = some condition)
    (haccepted : ∀ f, filter = some f → ∃ b, FilterAccepted f parameters internal b)
    (hcompiled : ∀ p, pushed = some p → Compiled p) :
    (Clause.filter condition).text native ≠ (rangeOf column lower upper).text native := by
  cases filter with
  | none =>
    cases pushed with
    | none => simp [filterCondition] at hcondition
    | some p =>
      cases Option.some.inj hcondition
      obtain ⟨rest, hrest⟩ := compiled_head (hcompiled p rfl)
      simp only [Clause.text, FilterCondition.text, hrest]
      exact parenthesized_text_ne native hrange
  | some f =>
    cases pushed with
    | some p =>
      cases Option.some.inj hcondition
      exact parenthesized_text_ne native hrange
    | none =>
      cases Option.some.inj hcondition
      obtain ⟨b, hb⟩ := haccepted f rfl
      intro heq
      have hinner : f = join " AND ".toList (rangeParts native column
          (lower.map fun _ => rangeLowerName) (upper.map fun _ => rangeUpperName)) := by
        simpa [Clause.text, FilterCondition.text, rangeOf] using heq
      subst hinner
      refine rangeParts_not_accepted hrange.identifier ?_ hb
      cases lower with
      | some v => exact Or.inl rfl
      | none =>
        cases upper with
        | some v => exact Or.inr ⟨rfl, rfl⟩
        | none =>
          have hnone := hrange.bounded
          simp at hnone

def filterText (request : SelectRequest) : Option Text := request.filterSql.map strip

def nullExtended (request : SelectRequest) : Bool :=
  request.rangeIncludeNull && request.rangeColumn.isSome &&
    (request.rangeLower.isSome || request.rangeUpper.isSome)

def rangeNames (request : SelectRequest) : List Text :=
  if request.rangeColumn.isSome then
    (rangeBindings request.rangeLower request.rangeUpper).names
  else []

def generatedNames (request : SelectRequest) : List Text :=
  pushedNames request.pushedPredicate ++ (request.partitionIds.map partitionNames).getD [] ++
    rangeNames request

def requestClauses (request : SelectRequest) : List Clause :=
  (filterCondition (filterText request) request.pushedPredicate).toList.map Clause.filter ++
    (request.partitionIds.map fun ids => [Clause.partition (partitionNames ids)]).getD []

def requestRange (request : SelectRequest) : Option (Text × Clause) :=
  match request.rangeColumn with
  | none => none
  | some column =>
      if request.rangeLower.isSome || request.rangeUpper.isSome then
        some (column, rangeOf column request.rangeLower request.rangeUpper)
      else none

structure Accepted (request : SelectRequest) (q : SelectQuery) : Prop where
  effective : ∃ e, effectiveFilter request.filterSql request.parameters request.pushedPredicate
    (hasInternalParameters request) = .ok e ∧ q.serverSide = e.native ∧
    q.parameters = (e.values.update
      ((request.partitionIds.map partitionBindings).getD [])).update
      (if request.rangeColumn.isSome then rangeBindings request.rangeLower request.rangeUpper
        else [])
  partitions : request.partitionIds ≠ some []
  range : ∀ column r, requestRange request = some (column, r) →
    RangeClause column request.rangeLower request.rangeUpper ∧
      r = rangeOf column request.rangeLower request.rangeUpper
  condition : q.condition =
    whereClause q.serverSide request.rangeIncludeNull (requestClauses request) (requestRange request)
  sql : ∃ order limit, orderText request.orderBy = .ok order ∧ limitText request.limit = .ok limit ∧
    q.sql = selectPrefix request ++ whereText q.serverSide q.condition ++ order ++ limit

theorem accepted_of_buildSelect {request : SelectRequest} {q : SelectQuery}
    (h : buildSelect request = .ok q) : Accepted request q := by
  obtain ⟨e, he, h₁⟩ := Except.bind_eq_ok.mp h
  obtain ⟨⟨partition, partitionValues⟩, hpartition, h₂⟩ := Except.bind_eq_ok.mp h₁
  obtain ⟨⟨range, rangeValues⟩, hrange, h₃⟩ := Except.bind_eq_ok.mp h₂
  obtain ⟨order, horder, h₄⟩ := Except.bind_eq_ok.mp h₃
  obtain ⟨limit, hlimit, h₅⟩ := Except.bind_eq_ok.mp h₄
  cases Except.ok.inj h₅
  obtain ⟨_, hcondition, _, _⟩ := effectiveFilter_eq_ok he
  have hpart : partition = (request.partitionIds.map fun ids =>
      [Clause.partition (partitionNames ids)]).getD [] ∧
      partitionValues = (request.partitionIds.map partitionBindings).getD [] ∧
      request.partitionIds ≠ some [] := by
    rcases partitionClause_eq_ok hpartition with ⟨hids, rfl, rfl⟩ | ⟨is, hids, hne, rfl, rfl⟩
    · simp [hids]
    · simp [hids, hne]
  have hran : range = requestRange request ∧
      rangeValues = (if request.rangeColumn.isSome then
        rangeBindings request.rangeLower request.rangeUpper else []) ∧
      ∀ column r, requestRange request = some (column, r) →
        RangeClause column request.rangeLower request.rangeUpper ∧
          r = rangeOf column request.rangeLower request.rangeUpper := by
    rcases rangeClause_eq_ok hrange with ⟨hnone, rfl, rfl⟩ | ⟨c, hc, hclause, rfl, rfl⟩
    · rcases hnone with hnone | ⟨hlower, hupper⟩
      · simp [requestRange, hnone]
      · cases hcolumn : request.rangeColumn <;> simp [requestRange, hcolumn, hlower, hupper,
          rangeBindings]
    · have hreq : requestRange request =
          some (c, rangeOf c request.rangeLower request.rangeUpper) := by
        have hb := hclause.bounded
        simp only [requestRange, hc]
        rw [if_pos (by simpa using hb)]
      refine ⟨hreq.symm, by simp [hc], ?_⟩
      intro column r hcr
      rw [hreq] at hcr
      cases Option.some.inj hcr
      exact ⟨hclause, rfl⟩
  obtain ⟨rfl, rfl, hids⟩ := hpart
  obtain ⟨rfl, rfl, hrangeSpec⟩ := hran
  refine ⟨⟨e, he, rfl, rfl⟩, hids, hrangeSpec, ?_, order, limit, horder, hlimit, rfl⟩
  simp only [requestClauses, filterText, hcondition]

end Assembly

end RayClickHouse.Sql
