import RayClickHouse.BindingNames

/-!
What the literals of a predicate tree decide. Two trees of one shape compile to
the same text and the same columns, since a literal only ever enters the list of
parameters, and the name of a placeholder depends on the length of that list.
-/
namespace RayClickHouse.Predicates

open Text Schema

/-- Trees that differ in nothing but the values of their literals. -/
inductive SameShape : PredicateNode → PredicateNode → Prop
  | node {op : Op} {children others : List PredicateNode} {value other : Value}
      (hvalue : op ≠ .literal → value = other)
      (hchildren : List.Forall₂ SameShape children others) :
      SameShape (.node op children value) (.node op others other)

def literal? : PredicateNode → Option Value
  | .node .literal _ value => some value
  | _ => none

mutual

/-- The literals from left to right, with a TRUE for each column that stands as a condition. -/
def boundValues : PredicateNode → List Value
  | .node .literal _ value => [value]
  | .node .column _ _ => [.bool true]
  | .node .isNull children _ => children.filterMap literal?
  | .node .isNotNull children _ => children.filterMap literal?
  | .node (.compare _) children _ => children.filterMap literal?
  | .node .and children _ => boundValuesAll children
  | .node .or children _ => boundValuesAll children
  | .node .not children _ => boundValuesAll children
  | .node (.other _) children _ => boundValuesAll children

def boundValuesAll : List PredicateNode → List Value
  | [] => []
  | child :: rest => boundValues child ++ boundValuesAll rest

end

/-- The placeholders of the text are the names of the parameters, each once, and
the values behind them are those of the tree. -/
structure WellBound (node : PredicateNode) (p : CompiledPredicate) : Prop where
  names_nodup : p.parameters.names.Nodup
  placeholders : Sql.substituted p.native p.sql = some p.parameters.names
  values : p.parameters.map Prod.snd = boundValues node

section TwoRuns

variable {native : Bool} {schema : SchemaPlan}

structure Agrees (s t : CompileState) : Prop where
  length_eq : s.parameters.length = t.parameters.length
  used_eq : s.used = t.used

theorem Agrees.visit {s t : CompileState} (h : Agrees s t) : Agrees s.visit t.visit :=
  ⟨h.length_eq, h.used_eq⟩

theorem Agrees.use {s t : CompileState} (h : Agrees s t) (name : Text) :
    Agrees (s.use name) (t.use name) := by
  refine ⟨by simpa using h.length_eq, ?_⟩
  unfold CompileState.use
  rw [h.used_eq]
  by_cases hmem : name ∈ t.used
  · simpa only [if_pos hmem] using h.used_eq
  · simp only [if_neg hmem]

theorem columnType_sameShape {node other : PredicateNode} (h : SameShape node other) :
    columnType schema node = columnType schema other := by
  cases h with
  | @node op _ _ value _ hvalue _ =>
    by_cases hop : op = .literal
    · subst hop
      simp [columnType]
    · obtain rfl := hvalue hop
      cases op <;> cases value <;> rfl

theorem bind_agrees {value other : Value} {declared : ScalarType} {dtype : ArrowType}
    {op : Comparison} {s s' t t' : CompileState} {bound bound' : Text} (h : Agrees s t)
    (hs : bind native value declared dtype op s = .ok (bound, s'))
    (ht : bind native other declared dtype op t = .ok (bound', t')) :
    bound = bound' ∧ Agrees s' t' := by
  obtain ⟨-, hbound, hparameters, hused⟩ := bind_eq_ok hs
  obtain ⟨-, hbound', hparameters', hused'⟩ := bind_eq_ok ht
  refine ⟨by rw [hbound, hbound', h.length_eq], ?_, by rw [hused, hused', h.used_eq]⟩
  rw [hparameters, hparameters', List.length_append, List.length_append, h.length_eq,
    List.length_singleton, List.length_singleton]

theorem comparison_agrees {c : Comparison} {column column' : PredicateNode} {value other : Value}
    {s s' t t' : CompileState} {sql sql' : Text} (h : Agrees s t)
    (hcolumn : SameShape column column')
    (hs : renderComparison native schema c column value s = .ok (sql, s'))
    (ht : renderComparison native schema c column' other t = .ok (sql', t')) :
    sql = sql' ∧ Agrees s' t' := by
  obtain ⟨name, declared, dtype, bound, htype, hbind, rfl⟩ := renderComparison_eq_ok hs
  obtain ⟨name', declared', dtype', bound', htype', hbind', rfl⟩ := renderComparison_eq_ok ht
  rw [columnType_sameShape hcolumn, htype'] at htype
  simp only [Except.ok.injEq, Prod.mk.injEq] at htype
  obtain ⟨rfl, rfl, rfl⟩ := htype
  obtain ⟨rfl, hagrees⟩ := bind_agrees (h.use name') hbind hbind'
  exact ⟨rfl, hagrees⟩

/-- Two passes over trees of one shape write the same text. -/
theorem Renders.agrees {node other : PredicateNode} {s s' t t' : CompileState} {sql sql' : Text}
    (h : Renders native schema node s sql s') (h' : Renders native schema other t sql' t')
    (hshape : SameShape node other) (hagrees : Agrees s t) : sql = sql' ∧ Agrees s' t' := by
  induction h generalizing other t sql' t' with
  | and _ _ ihl ihr =>
    obtain ⟨_, _ | ⟨hl, _ | ⟨hr, _ | _⟩⟩⟩ := hshape
    cases h' with
    | and hl' hr' =>
      obtain ⟨rfl, hmiddle⟩ := ihl hl' hl hagrees.visit
      obtain ⟨rfl, hlast⟩ := ihr hr' hr hmiddle
      exact ⟨rfl, hlast⟩
  | or _ _ ihl ihr =>
    obtain ⟨_, _ | ⟨hl, _ | ⟨hr, _ | _⟩⟩⟩ := hshape
    cases h' with
    | or hl' hr' =>
      obtain ⟨rfl, hmiddle⟩ := ihl hl' hl hagrees.visit
      obtain ⟨rfl, hlast⟩ := ihr hr' hr hmiddle
      exact ⟨rfl, hlast⟩
  | not _ ih =>
    obtain ⟨_, _ | ⟨hchild, _ | _⟩⟩ := hshape
    cases h' with
    | not hchild' =>
      obtain ⟨rfl, hlast⟩ := ih hchild' hchild hagrees.visit
      exact ⟨rfl, hlast⟩
  | isNull hcolumn =>
    obtain ⟨_, _ | ⟨hchild, _ | _⟩⟩ := hshape
    cases h' with
    | isNull hcolumn' =>
      rw [columnType_sameShape hchild, hcolumn'] at hcolumn
      simp only [Except.ok.injEq, Prod.mk.injEq] at hcolumn
      obtain ⟨rfl, -, -⟩ := hcolumn
      exact ⟨rfl, hagrees.visit.use _⟩
  | isNotNull hcolumn =>
    obtain ⟨_, _ | ⟨hchild, _ | _⟩⟩ := hshape
    cases h' with
    | isNotNull hcolumn' =>
      rw [columnType_sameShape hchild, hcolumn'] at hcolumn
      simp only [Except.ok.injEq, Prod.mk.injEq] at hcolumn
      obtain ⟨rfl, -, -⟩ := hcolumn
      exact ⟨rfl, hagrees.visit.use _⟩
  | column hcolumn hbind =>
    rw [columnType_sameShape hshape] at hcolumn
    cases hshape with
    | node hvalue hchildren =>
      cases h' with
      | column hcolumn' hbind' =>
        rw [hcolumn'] at hcolumn
        simp only [Except.ok.injEq, Prod.mk.injEq] at hcolumn
        obtain ⟨rfl, -, -⟩ := hcolumn
        obtain ⟨rfl, hlast⟩ := bind_agrees (hagrees.visit.use _) hbind hbind'
        exact ⟨rfl, hlast⟩
  | literalFirst hcomparison =>
    obtain ⟨_, _ | ⟨hliteral, _ | ⟨hcolumn, _ | _⟩⟩⟩ := hshape
    have hcolumn' := hcolumn
    cases hliteral
    cases hcolumn
    cases h' with
    | literalFirst hcomparison' =>
      exact comparison_agrees hagrees.visit hcolumn' hcomparison hcomparison'
  | columnFirst hcomparison =>
    obtain ⟨_, _ | ⟨hcolumn, _ | ⟨hliteral, _ | _⟩⟩⟩ := hshape
    have hcolumn' := hcolumn
    cases hliteral
    cases hcolumn
    cases h' with
    | columnFirst hcomparison' =>
      exact comparison_agrees hagrees.visit hcolumn' hcomparison hcomparison'

end TwoRuns

section Values

variable {native : Bool} {schema : SchemaPlan}

/-- Generated text shows its placeholders to the protocol it is written for. -/
theorem substituted_generated {text : Text} {names : List Text}
    (h : Generated native text names) : Sql.substituted native text = some names := by
  cases native with
  | true =>
    have hscan := NativeScan.nativeScan_generated h (Nat.le_refl _)
    simp only [Sql.substituted, if_true, NativeScan.nativeNames, hscan]
  | false =>
    obtain ⟨t, hrun, hmode, hkeys⟩ := PercentFormat.run_generated (s := {}) rfl h
    rw [Sql.substituted, if_neg (by simp), PercentFormat.formatNames_eq_some]
    exact ⟨t, hrun, hmode, by simpa using hkeys⟩

theorem literal?_of_columnType {node : PredicateNode} {r : Text × ScalarType × ArrowType}
    (h : columnType schema node = .ok r) : literal? node = none := by
  obtain ⟨op, children, value⟩ := node
  cases op with
  | literal => simp [columnType] at h
  | _ => rfl

theorem values_bind {value : Value} {declared : ScalarType} {dtype : ArrowType}
    {op : Comparison} {s s' : CompileState} {bound : Text}
    (h : bind native value declared dtype op s = .ok (bound, s')) :
    s'.parameters.map Prod.snd = s.parameters.map Prod.snd ++ [value] := by
  obtain ⟨-, -, hparameters, -⟩ := bind_eq_ok h
  rw [hparameters, List.map_append, List.map_singleton]

theorem values_comparison {c : Comparison} {column : PredicateNode} {value : Value}
    {s s' : CompileState} {sql : Text}
    (h : renderComparison native schema c column value s = .ok (sql, s')) :
    s'.parameters.map Prod.snd = s.parameters.map Prod.snd ++ [value] := by
  obtain ⟨name, _, _, _, _, hbind, _⟩ := renderComparison_eq_ok h
  rw [values_bind hbind, CompileState.parameters_use]

/-- A pass over a tree appends the values of the tree, in their order. -/
theorem Renders.values {node : PredicateNode} {s s' : CompileState} {sql : Text}
    (h : Renders native schema node s sql s') :
    s'.parameters.map Prod.snd = s.parameters.map Prod.snd ++ boundValues node := by
  induction h with
  | and _ _ ihl ihr =>
    rw [ihr, ihl, CompileState.parameters_visit, boundValues, boundValuesAll, boundValuesAll,
      boundValuesAll, List.append_nil, List.append_assoc]
  | or _ _ ihl ihr =>
    rw [ihr, ihl, CompileState.parameters_visit, boundValues, boundValuesAll, boundValuesAll,
      boundValuesAll, List.append_nil, List.append_assoc]
  | not _ ih =>
    rw [ih, CompileState.parameters_visit, boundValues, boundValuesAll, boundValuesAll,
      List.append_nil]
  | isNull hcolumn =>
    rw [CompileState.parameters_use, CompileState.parameters_visit, boundValues]
    simp [literal?_of_columnType hcolumn]
  | isNotNull hcolumn =>
    rw [CompileState.parameters_use, CompileState.parameters_visit, boundValues]
    simp [literal?_of_columnType hcolumn]
  | column _ hbind =>
    rw [values_bind hbind, CompileState.parameters_use, CompileState.parameters_visit, boundValues]
  | literalFirst hcomparison =>
    rw [values_comparison hcomparison, CompileState.parameters_visit, boundValues]
    simp [literal?]
  | columnFirst hcomparison =>
    rw [values_comparison hcomparison, CompileState.parameters_visit, boundValues]
    simp [literal?, List.filterMap_cons]

theorem compilePredicate_eq_ok {node : PredicateNode} {p : CompiledPredicate}
    (h : compilePredicate node schema native = .ok (some p)) :
    p.native = native ∧ ∃ state, Renders native schema node {} p.sql state ∧
      p.parameters = state.parameters ∧ p.columns = state.used := by
  unfold compilePredicate at h
  split at h
  · rename_i sql state hrender
    have hp := Option.some.inj (Except.ok.inj h)
    subst hp
    exact ⟨rfl, state, renders_of_render hrender, rfl, rfl⟩
  · simp at h
  · simp at h

theorem wellBound_of_compiled {node : PredicateNode} {p : CompiledPredicate}
    (h : compilePredicate node schema native = .ok (some p)) : WellBound node p := by
  obtain ⟨hnative, state, hrenders, hparameters, -⟩ := compilePredicate_eq_ok h
  have hcompiled : Compiled p := ⟨node, schema, hnative ▸ h⟩
  refine ⟨hcompiled.nodup, substituted_generated (generated_of_compiled hcompiled), ?_⟩
  rw [hparameters, hrenders.values]
  rfl

end Values

/-- The literals of a tree have no influence on the text, and each is bound to
the placeholder that stands for it. -/
theorem literals_never_in_text (schema : SchemaPlan) (native : Bool) (node other : PredicateNode)
    (p q : CompiledPredicate) (hshape : SameShape node other)
    (hp : compilePredicate node schema native = .ok (some p))
    (hq : compilePredicate other schema native = .ok (some q)) :
    p.sql = q.sql ∧ p.columns = q.columns ∧ WellBound node p ∧ WellBound other q := by
  obtain ⟨-, s, hrenders, -, hcolumns⟩ := compilePredicate_eq_ok hp
  obtain ⟨-, t, hrenders', -, hcolumns'⟩ := compilePredicate_eq_ok hq
  obtain ⟨hsql, hagrees⟩ := hrenders.agrees hrenders' hshape ⟨rfl, rfl⟩
  refine ⟨hsql, ?_, wellBound_of_compiled hp, wellBound_of_compiled hq⟩
  rw [hcolumns, hcolumns', hagrees.used_eq]

def eventsSchema : SchemaPlan :=
  { arrowSchema := [⟨"id".toList, .integer ⟨true, .w64⟩, false⟩, ⟨"flag".toList, .boolean, false⟩]
    columns := [{ name := "id".toList, declaredType := "Int64".toList, position := 1 },
      { name := "flag".toList, declaredType := "Bool".toList, position := 2 }] }

def boundedTree (bound excluded : ℤ) : PredicateNode :=
  .node .and [.node .and [.node (.compare .lt) [.node .literal [] (.int bound),
      .node .column [] (.str "id".toList)] .null, .node .column [] (.str "flag".toList)] .null,
    .node (.compare .ne) [.node .column [] (.str "id".toList),
      .node .literal [] (.int excluded)] .null] .null

def boundedPredicate (bound excluded : ℤ) : CompiledPredicate :=
  { sql := ("(((`id` > \x7b__ray_clickhouse_expr_0:Int64\x7d) AND " ++
      "(`flag` = \x7b__ray_clickhouse_expr_1:Bool\x7d)) AND " ++
      "(`id` != \x7b__ray_clickhouse_expr_2:Int64\x7d))").toList
    parameters := [(expressionName 0, .int bound), (expressionName 1, .bool true),
      (expressionName 2, .int excluded)]
    columns := ["id".toList, "flag".toList]
    native := true }

theorem boundedTree_sameShape (bound excluded bound' excluded' : ℤ) :
    SameShape (boundedTree bound excluded) (boundedTree bound' excluded') := by
  have hcolumn : ∀ name, SameShape (.node .column [] name) (.node .column [] name) :=
    fun name => .node (fun _ => rfl) .nil
  have hliteral : ∀ i j, SameShape (.node .literal [] (.int i)) (.node .literal [] (.int j)) :=
    fun i j => .node (fun h => absurd rfl h) .nil
  apply SameShape.node (fun _ => rfl)
  refine .cons ?_ (.cons ?_ .nil)
  · apply SameShape.node (fun _ => rfl)
    refine .cons ?_ (.cons (hcolumn _) .nil)
    exact .node (fun _ => rfl) (.cons (hliteral bound bound') (.cons (hcolumn _) .nil))
  · exact .node (fun _ => rfl) (.cons (hcolumn _) (.cons (hliteral excluded excluded') .nil))

theorem two_bounded_predicates :
    (boundedPredicate 3 5).sql = (boundedPredicate (-7) 0).sql ∧
      (boundedPredicate 3 5).columns = (boundedPredicate (-7) 0).columns ∧
      WellBound (boundedTree 3 5) (boundedPredicate 3 5) ∧
      WellBound (boundedTree (-7) 0) (boundedPredicate (-7) 0) := by
  apply literals_never_in_text eventsSchema true
  · exact boundedTree_sameShape 3 5 (-7) 0
  · decide +kernel
  · decide +kernel

end RayClickHouse.Predicates
