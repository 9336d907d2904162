import RayClickHouse.Schema

/-!
Compilation of a Dataset predicate tree to one SQL condition. Only a small
scalar profile is translated, and a tree is translated completely or not at
all. Literals are bound to numbered parameters in the order of rendering.
-/
namespace RayClickHouse.Predicates

open Text TypeText Schema

inductive Comparison
  | eq
  | ne
  | lt
  | le
  | gt
  | ge
  deriving DecidableEq, Repr

namespace Comparison

def symbol : Comparison → Text
  | eq => "=".toList
  | ne => "!=".toList
  | lt => "<".toList
  | le => "<=".toList
  | gt => ">".toList
  | ge => ">=".toList

def reverse : Comparison → Comparison
  | eq => eq
  | ne => ne
  | lt => gt
  | le => ge
  | gt => lt
  | ge => le

end Comparison

inductive Op
  | and
  | or
  | not
  | isNull
  | isNotNull
  | column
  | literal
  | compare (c : Comparison)
  | other (name : Text)
  deriving DecidableEq, Repr

inductive PredicateNode
  | node (op : Op) (children : List PredicateNode) (value : Value)

namespace PredicateNode

def op : PredicateNode → Op
  | node op _ _ => op

def value : PredicateNode → Value
  | node _ _ value => value

end PredicateNode

structure CompiledPredicate where
  sql : Text
  parameters : Bindings
  columns : List Text
  native : Bool
  deriving DecidableEq

/-- The declared types a predicate column may have, wrappers removed. -/
inductive ScalarType
  | integer (t : IntegerType)
  | bool
  | string
  deriving DecidableEq, Repr

namespace ScalarType

def name : ScalarType → Text
  | integer t => t.name
  | bool => "Bool".toList
  | string => "String".toList

def ofName (name : Text) : Option ScalarType :=
  if name = "Bool".toList then some bool
  else if name = "String".toList then some string
  else (IntegerType.ofName name).map integer

end ScalarType

/-- Why compilation stops: the tree is outside the profile, or a declaration of
the schema does not parse. -/
inductive Rejection
  | unsupported
  | failed (failure : Failure)
  deriving DecidableEq

structure CompileState where
  parameters : Bindings := []
  used : List Text := []
  visited : ℕ := 0

def bareTypeWithin : ℕ → ClickHouseType → Except Rejection ClickHouseType
  | 0, parsed => .ok parsed
  | fuel + 1, parsed =>
      if parsed.name = "Nullable".toList ∨ parsed.name = "LowCardinality".toList then
        match parsed.arguments with
        | [argument] =>
            match parseType argument with
            | .error failure => .error (.failed failure)
            | .ok inner => bareTypeWithin fuel inner
        | _ => .error .unsupported
      else .ok parsed

def bareType (declared : Text) : Except Rejection ClickHouseType :=
  match parseType declared with
  | .error failure => .error (.failed failure)
  | .ok parsed => bareTypeWithin (declared.length + 1) parsed

def valueType : ArrowType → ArrowType
  | .dictionary _ value => value
  | dtype => dtype

def ScalarType.accepts : ScalarType → ArrowType → Bool
  | .integer t, dtype => dtype == .integer t
  | .bool, dtype => dtype == .boolean
  | .string, dtype => dtype == .string || dtype == .binary

def columnType (schema : SchemaPlan) (node : PredicateNode) :
    Except Rejection (Text × ScalarType × ArrowType) :=
  match node with
  | .node .column _ (.str name) =>
      if isIdentifier name then
        match columnNamed schema.columns name, schema.arrowSchema.field? name with
        | some column, some field =>
            if column.defaultKind = "ALIAS".toList then .error .unsupported
            else do
              let parsed ← bareType column.declaredType
              let dtype := valueType field.type
              match ScalarType.ofName parsed.name with
              | some declared =>
                  if parsed.arguments = [] ∧ declared.accepts dtype then
                    .ok (name, declared, dtype)
                  else .error .unsupported
              | none => .error .unsupported
        | _, _ => .error .unsupported
      else .error .unsupported
  | _ => .error .unsupported

/-- Ray builds integer literals as Arrow Int64 scalars, and Arrow compares UInt64
columns with them by a cast that raises; neither is repaired here. -/
def bindable : Value → ScalarType → ArrowType → Comparison → Bool
  | .int i, .integer t, _, _ =>
      decide (t ≠ ⟨false, .w64⟩) && decide (t.Contains i) &&
        decide (-2 ^ 63 ≤ i ∧ i < 2 ^ 63)
  | .bool _, .bool, _, op => op == .eq || op == .ne
  | .str _, .string, dtype, op => (op == .eq || op == .ne) && dtype == .string
  | .bytes _, .string, dtype, op => (op == .eq || op == .ne) && dtype == .binary
  | _, _, _, _ => false

def expressionPrefix : Text := "__ray_clickhouse_expr_".toList

def expressionName (index : ℕ) : Text := expressionPrefix ++ ofNat index

def bind (native : Bool) (value : Value) (declared : ScalarType) (dtype : ArrowType)
    (op : Comparison) (state : CompileState) : Except Rejection (Text × CompileState) :=
  if bindable value declared dtype op then
    let name := expressionName state.parameters.length
    .ok (placeholder native name declared.name,
      { state with parameters := state.parameters ++ [(name, value)] })
  else .error .unsupported

def CompileState.use (state : CompileState) (name : Text) : CompileState :=
  if name ∈ state.used then state else { state with used := state.used ++ [name] }

def renderComparison (native : Bool) (schema : SchemaPlan) (c : Comparison)
    (column : PredicateNode) (value : Value) (state : CompileState) :
    Except Rejection (Text × CompileState) := do
  let (name, declared, dtype) ← columnType schema column
  let (bound, state) ← bind native value declared dtype c (state.use name)
  .ok ("(".toList ++ quoted name ++ " ".toList ++ c.symbol ++ " ".toList ++ bound ++ ")".toList,
    state)

/-- The pass over the tree: counts the visited nodes, bounds the depth and
threads the parameters from left to right. -/
def render (native : Bool) (schema : SchemaPlan) (node : PredicateNode) (depth : ℕ)
    (state₀ : CompileState) : Except Rejection (Text × CompileState) :=
  let state := { state₀ with visited := state₀.visited + 1 }
  if state.visited > 256 ∨ depth > 32 then .error .unsupported
  else
    match node with
    | .node .and [left, right] _ => do
        let (l, state) ← render native schema left (depth + 1) state
        let (r, state) ← render native schema right (depth + 1) state
        .ok ("(".toList ++ l ++ " AND ".toList ++ r ++ ")".toList, state)
    | .node .or [left, right] _ => do
        let (l, state) ← render native schema left (depth + 1) state
        let (r, state) ← render native schema right (depth + 1) state
        .ok ("(".toList ++ l ++ " OR ".toList ++ r ++ ")".toList, state)
    | .node .not [child] _ => do
        let (c, state) ← render native schema child (depth + 1) state
        .ok ("(NOT ".toList ++ c ++ ")".toList, state)
    | .node .isNull [child] _ => do
        let (name, _) ← columnType schema child
        .ok ("(".toList ++ quoted name ++ " IS NULL)".toList, state.use name)
    | .node .isNotNull [child] _ => do
        let (name, _) ← columnType schema child
        .ok ("(".toList ++ quoted name ++ " IS NOT NULL)".toList, state.use name)
    | .node .column children value => do
        let (name, declared, _) ← columnType schema (.node .column children value)
        if declared = .bool then
          let (bound, state) ← bind native (.bool true) declared .boolean .eq (state.use name)
          .ok ("(".toList ++ quoted name ++ " = ".toList ++ bound ++ ")".toList, state)
        else .error .unsupported
    | .node (.compare c) [.node .literal _ value, .node .column children name] _ =>
        renderComparison native schema c.reverse (.node .column children name) value state
    | .node (.compare c) [.node .column children name, .node .literal _ value] _ =>
        renderComparison native schema c (.node .column children name) value state
    | _ => .error .unsupported

def compilePredicate (node : PredicateNode) (schema : SchemaPlan) (native : Bool) :
    Outcome (Option CompiledPredicate) :=
  match render native schema node 0 {} with
  | .ok (sql, state) => .ok (some ⟨sql, state.parameters, state.used, native⟩)
  | .error .unsupported => .ok none
  | .error (.failed failure) => .error failure

def Compiled (p : CompiledPredicate) : Prop :=
  ∃ node schema, compilePredicate node schema p.native = .ok (some p)

section Leaves

variable {native : Bool} {schema : SchemaPlan}

/-- A column reference the profile accepts, with its declaration and its field. -/
theorem columnType_eq_ok {node : PredicateNode} {name : Text} {declared : ScalarType}
    {dtype : ArrowType} (h : columnType schema node = .ok (name, declared, dtype)) :
    isIdentifier name = true ∧ ∃ column field parsed,
      columnNamed schema.columns name = some column ∧ schema.arrowSchema.field? name = some field ∧
        column.defaultKind ≠ "ALIAS".toList ∧ bareType column.declaredType = .ok parsed ∧
        ScalarType.ofName parsed.name = some declared ∧ parsed.arguments = [] ∧
        declared.accepts dtype = true ∧ dtype = valueType field.type := by
  unfold columnType at h
  split at h
  · split at h
    · rename_i hvalid
      split at h
      · rename_i column field hcolumn hfield
        split at h
        · contradiction
        · rename_i halias
          obtain ⟨parsed, hbare, hrest⟩ := Except.bind_eq_ok.mp h
          simp only at hrest
          split at hrest
          · rename_i declared' hdeclared
            split at hrest
            · rename_i hok
              simp only [Except.ok.injEq, Prod.mk.injEq] at hrest
              obtain ⟨rfl, rfl, rfl⟩ := hrest
              exact ⟨hvalid, column, field, parsed, hcolumn, hfield, halias, hbare, hdeclared,
                hok.1, hok.2, rfl⟩
            · contradiction
          · contradiction
      · contradiction
    · contradiction
  · contradiction

/-- A literal is bound to the next numbered parameter. -/
theorem bind_eq_ok {value : Value} {declared : ScalarType} {dtype : ArrowType} {op : Comparison}
    {s s' : CompileState} {bound : Text}
    (h : bind native value declared dtype op s = .ok (bound, s')) :
    bindable value declared dtype op = true ∧
      bound = placeholder native (expressionName s.parameters.length) declared.name ∧
      s'.parameters = s.parameters ++ [(expressionName s.parameters.length, value)] ∧
      s'.used = s.used := by
  unfold bind at h
  split at h
  · rename_i hbindable
    simp only [Except.ok.injEq, Prod.mk.injEq] at h
    obtain ⟨rfl, rfl⟩ := h
    exact ⟨hbindable, rfl, rfl, rfl⟩
  · contradiction

theorem renderComparison_eq_ok {c : Comparison} {column : PredicateNode} {value : Value}
    {s s' : CompileState} {sql : Text}
    (h : renderComparison native schema c column value s = .ok (sql, s')) :
    ∃ name declared dtype bound, columnType schema column = .ok (name, declared, dtype) ∧
      bind native value declared dtype c (s.use name) = .ok (bound, s') ∧
      sql = "(".toList ++ quoted name ++ " ".toList ++ c.symbol ++ " ".toList ++ bound ++
        ")".toList := by
  obtain ⟨⟨name, declared, dtype⟩, hcolumn, hrest⟩ := Except.bind_eq_ok.mp h
  obtain ⟨⟨bound, s₁⟩, hbind, heq⟩ := Except.bind_eq_ok.mp hrest
  cases Except.ok.inj heq
  exact ⟨name, declared, dtype, bound, hcolumn, hbind, rfl⟩

end Leaves

def CompileState.visit (state : CompileState) : CompileState :=
  { state with visited := state.visited + 1 }

@[simp] theorem CompileState.parameters_visit (state : CompileState) :
    state.visit.parameters = state.parameters := rfl

@[simp] theorem CompileState.used_visit (state : CompileState) : state.visit.used = state.used := rfl

@[simp] theorem CompileState.parameters_use (state : CompileState) (name : Text) :
    (state.use name).parameters = state.parameters := by
  unfold use
  split <;> rfl

theorem CompileState.mem_used_use (state : CompileState) (name other : Text) :
    other ∈ (state.use name).used ↔ other ∈ state.used ∨ other = name := by
  unfold use
  split
  · rename_i h
    constructor
    · exact Or.inl
    · rintro (h' | rfl)
      · exact h'
      · exact h
  · simp

/-- What a successful pass over a tree does, one rule for each shape of the
profile: the text it renders and the state it leaves. -/
inductive Renders (native : Bool) (schema : SchemaPlan) :
    PredicateNode → CompileState → Text → CompileState → Prop
  | and {left right : PredicateNode} {value : Value} {s s₁ s₂ : CompileState} {l r : Text} :
      Renders native schema left s.visit l s₁ → Renders native schema right s₁ r s₂ →
      Renders native schema (.node .and [left, right] value) s
        ("(".toList ++ l ++ " AND ".toList ++ r ++ ")".toList) s₂
  | or {left right : PredicateNode} {value : Value} {s s₁ s₂ : CompileState} {l r : Text} :
      Renders native schema left s.visit l s₁ → Renders native schema right s₁ r s₂ →
      Renders native schema (.node .or [left, right] value) s
        ("(".toList ++ l ++ " OR ".toList ++ r ++ ")".toList) s₂
  | not {child : PredicateNode} {value : Value} {s s₁ : CompileState} {c : Text} :
      Renders native schema child s.visit c s₁ →
      Renders native schema (.node .not [child] value) s ("(NOT ".toList ++ c ++ ")".toList) s₁
  | isNull {child : PredicateNode} {value : Value} {s : CompileState} {name : Text}
      {declared : ScalarType} {dtype : ArrowType} :
      columnType schema child = .ok (name, declared, dtype) →
      Renders native schema (.node .isNull [child] value) s
        ("(".toList ++ quoted name ++ " IS NULL)".toList) (s.visit.use name)
  | isNotNull {child : PredicateNode} {value : Value} {s : CompileState} {name : Text}
      {declared : ScalarType} {dtype : ArrowType} :
      columnType schema child = .ok (name, declared, dtype) →
      Renders native schema (.node .isNotNull [child] value) s
        ("(".toList ++ quoted name ++ " IS NOT NULL)".toList) (s.visit.use name)
  | column {children : List PredicateNode} {value : Value} {s s₁ : CompileState} {name bound : Text}
      {dtype : ArrowType} :
      columnType schema (.node .column children value) = .ok (name, .bool, dtype) →
      bind native (.bool true) .bool .boolean .eq (s.visit.use name) = .ok (bound, s₁) →
      Renders native schema (.node .column children value) s
        ("(".toList ++ quoted name ++ " = ".toList ++ bound ++ ")".toList) s₁
  | literalFirst {c : Comparison} {children children' : List PredicateNode}
      {value value' v : Value} {s s₁ : CompileState} {sql : Text} :
      renderComparison native schema c.reverse (.node .column children value') value s.visit =
        .ok (sql, s₁) →
      Renders native schema
        (.node (.compare c) [.node .literal children' value, .node .column children value'] v) s
        sql s₁
  | columnFirst {c : Comparison} {children children' : List PredicateNode}
      {value value' v : Value} {s s₁ : CompileState} {sql : Text} :
      renderComparison native schema c (.node .column children value') value s.visit =
        .ok (sql, s₁) →
      Renders native schema
        (.node (.compare c) [.node .column children value', .node .literal children' value] v) s
        sql s₁

theorem renders_of_render {native : Bool} {schema : SchemaPlan} {node : PredicateNode} {depth : ℕ}
    {s s' : CompileState} {sql : Text} (h : render native schema node depth s = .ok (sql, s')) :
    Renders native schema node s sql s' := by
  induction hsize : sizeOf node using Nat.strong_induction_on generalizing node depth s s' sql with
  | _ n ih =>
    unfold render at h
    simp only at h
    split at h
    · contradiction
    · split at h
      · obtain ⟨⟨l, s₁⟩, hl, hrest⟩ := Except.bind_eq_ok.mp h
        obtain ⟨⟨r, s₂⟩, hr, heq⟩ := Except.bind_eq_ok.mp hrest
        cases Except.ok.inj heq
        refine .and (ih _ ?_ hl rfl) (ih _ ?_ hr rfl) <;>
          simp only [← hsize, PredicateNode.node.sizeOf_spec, List.cons.sizeOf_spec] <;> omega
      · obtain ⟨⟨l, s₁⟩, hl, hrest⟩ := Except.bind_eq_ok.mp h
        obtain ⟨⟨r, s₂⟩, hr, heq⟩ := Except.bind_eq_ok.mp hrest
        cases Except.ok.inj heq
        refine .or (ih _ ?_ hl rfl) (ih _ ?_ hr rfl) <;>
          simp only [← hsize, PredicateNode.node.sizeOf_spec, List.cons.sizeOf_spec] <;> omega
      · obtain ⟨⟨c, s₁⟩, hc, heq⟩ := Except.bind_eq_ok.mp h
        cases Except.ok.inj heq
        refine .not (ih _ ?_ hc rfl)
        simp only [← hsize, PredicateNode.node.sizeOf_spec, List.cons.sizeOf_spec]
        omega
      · obtain ⟨⟨name, declared, dtype⟩, hcolumn, heq⟩ := Except.bind_eq_ok.mp h
        cases Except.ok.inj heq
        exact .isNull hcolumn
      · obtain ⟨⟨name, declared, dtype⟩, hcolumn, heq⟩ := Except.bind_eq_ok.mp h
        cases Except.ok.inj heq
        exact .isNotNull hcolumn
      · obtain ⟨⟨name, declared, dtype⟩, hcolumn, hrest⟩ := Except.bind_eq_ok.mp h
        simp only at hrest
        split at hrest
        · rename_i hbool
          subst hbool
          obtain ⟨⟨bound, s₁⟩, hbind, heq⟩ := Except.bind_eq_ok.mp hrest
          cases Except.ok.inj heq
          exact .column hcolumn hbind
        · contradiction
      · exact .literalFirst h
      · exact .columnFirst h
      · contradiction

/-- The tree, the schema and the whole pass behind a compiled predicate. -/
theorem Compiled.renders {p : CompiledPredicate} (h : Compiled p) :
    ∃ node schema state, Renders p.native schema node {} p.sql state ∧
      p.parameters = state.parameters ∧ p.columns = state.used := by
  obtain ⟨node, schema, hcompile⟩ := h
  refine ⟨node, schema, ?_⟩
  unfold compilePredicate at hcompile
  split at hcompile
  · rename_i sql state hrender
    have hp := Option.some.inj (Except.ok.inj hcompile)
    have hsql : p.sql = sql := by rw [← hp]
    have hparameters : p.parameters = state.parameters := by rw [← hp]
    have hcolumns : p.columns = state.used := by rw [← hp]
    exact ⟨state, hsql ▸ renders_of_render hrender, hparameters, hcolumns⟩
  · simp at hcompile
  · simp at hcompile

end RayClickHouse.Predicates
