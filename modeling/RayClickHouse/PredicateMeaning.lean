import RayClickHouse.DeclaredScalars
import RayClickHouse.ThreeValued

/-!
What a predicate means on a row, on both sides of its compilation: the tree as a
Dataset filter evaluates it, and the condition the recogniser reads from the SQL
as a server evaluates it with named parameters. Comparisons with NULL are unknown
on both sides, and null tests are two-valued. Shapes outside the profile mean
nothing.
-/
namespace RayClickHouse.PredicateMeaning

open Text Schema Connectives PredicateTokens PredicateColumns Predicates PredicateReading
open FilterScan ThreeValued

/-- The values of the columns in a row. -/
abbrev Row := Text → Value

section Values

def test : Comparison → ℤ → ℤ → Bool
  | .eq, i, j => i = j
  | .ne, i, j => i ≠ j
  | .lt, i, j => i < j
  | .le, i, j => i ≤ j
  | .gt, i, j => j < i
  | .ge, i, j => j ≤ i

/-- Other values are compared for equality only. -/
def testEqual : Comparison → Bool → Option Truth
  | .eq, same => some (.ofBool same)
  | .ne, same => some (.ofBool !same)
  | _, _ => none

def compareValues (c : Comparison) : Value → Value → Option Truth
  | .null, _ => some .unknown
  | _, .null => some .unknown
  | .int i, .int j => some (.ofBool (test c i j))
  | .bool a, .bool b => testEqual c (a = b)
  | .str s, .str t => testEqual c (s = t)
  | .bytes s, .bytes t => testEqual c (s = t)
  | _, _ => none

theorem test_reverse (c : Comparison) (i j : ℤ) : test c.reverse j i = test c i j := by
  cases c <;> simp [test, Comparison.reverse, eq_comm]

theorem testEqual_reverse (c : Comparison) (same : Bool) :
    testEqual c.reverse same = testEqual c same := by
  cases c <;> rfl

/-- Swapping the operands is undone by the reversed comparison. -/
theorem compareValues_reverse (c : Comparison) (a b : Value) :
    compareValues c.reverse b a = compareValues c a b := by
  cases a <;> cases b <;>
    simp [compareValues, test_reverse, testEqual_reverse, eq_comm]

end Values

section Trees

def operandValue (row : Row) : PredicateNode → Option Value
  | .node .literal _ value => some value
  | .node .column _ (.str name) => some (row name)
  | _ => none

def ofBoolean : Value → Option Truth
  | .null => some .unknown
  | .bool b => some (.ofBool b)
  | _ => none

def isNullValue (negated : Bool) (v : Value) : Truth := .ofBool (decide (v = .null) != negated)

def nodeTruth (row : Row) : PredicateNode → Option Truth
  | .node .and [left, right] _ => Option.map₂ Truth.and (nodeTruth row left) (nodeTruth row right)
  | .node .or [left, right] _ => Option.map₂ Truth.or (nodeTruth row left) (nodeTruth row right)
  | .node .not [child] _ => (nodeTruth row child).map Truth.not
  | .node .isNull [child] _ => (operandValue row child).map (isNullValue false)
  | .node .isNotNull [child] _ => (operandValue row child).map (isNullValue true)
  | .node .column children value => (operandValue row (.node .column children value)).bind ofBoolean
  | .node (.compare c) [left, right] _ => do
      compareValues c (← operandValue row left) (← operandValue row right)
  | _ => none

end Trees

section Conditions

def formulaTruth {α : Type*} (leaf : α → Option Truth) : Formula α → Option Truth
  | .leaf a => leaf a
  | .neg f => (formulaTruth leaf f).map Truth.not
  | .conj f g => Option.map₂ Truth.and (formulaTruth leaf f) (formulaTruth leaf g)
  | .disj f g => Option.map₂ Truth.or (formulaTruth leaf f) (formulaTruth leaf g)

variable [UnicodeDatabase]

def parameterName (t : Token) : Option Text :=
  match matchParameter t.text with
  | some (name, _) => some name
  | none => (matchServerParameter t.text).map Prod.fst

def comparisons : List Comparison := [.eq, .ne, .lt, .le, .gt, .ge]

def symbolComparison (t : Token) : Option Comparison := comparisons.find? (·.symbol = t.text)

def conditionOperand (row : Row) (parameters : Bindings) : Operand → Option Value
  | .constant t => (parameterName t).bind parameters.get?
  | .column c => some (row c.name)

/-- The meaning of the conditions the compiler writes. -/
def conditionTruth (row : Row) (parameters : Bindings) : Condition → Option Truth
  | .isNull operand negated =>
      (conditionOperand row parameters operand).map (isNullValue negated)
  | .compare left operator right => do
      let c ← symbolComparison operator
      compareValues c (← conditionOperand row parameters left)
        (← conditionOperand row parameters right)
  | _ => none

def sqlTruth (row : Row) (parameters : Bindings) (f : Formula Condition) : Option Truth :=
  formulaTruth (conditionTruth row parameters) f

theorem symbolComparison_symbol (c : Comparison) :
    symbolComparison (symbolToken c.symbol (comparison_symbol c)) = some c := by
  cases c <;> rfl

theorem parameterName_bound (native : Bool) {name type : Text} (hname : isIdentifier name = true)
    (hne : type ≠ []) (htype : ∀ c ∈ type, notBrace c = true) :
    parameterName (boundToken native name type) = some name := by
  cases native with
  | false =>
    have hmatch := matchParameter_placeholder hname []
    rw [List.append_nil] at hmatch
    have htext : (boundToken false name type).text = clientPlaceholder name := rfl
    rw [parameterName, htext, hmatch]
  | true =>
    have hnone : matchParameter (serverPlaceholder name type) = none :=
      matchParameter_plain (by simp)
    have hmatch := matchServerParameter_placeholder hname hne htype []
    rw [List.append_nil] at hmatch
    have htext : (boundToken true name type).text = serverPlaceholder name type := rfl
    rw [parameterName, htext, hnone, hmatch]
    rfl

end Conditions

section Rows

/-- The values a column of a declared scalar type and an Arrow type holds. -/
inductive Inhabits : ScalarType → ArrowType → Value → Prop
  | null {declared dtype} : Inhabits declared dtype .null
  | integer {t dtype i} : t.Contains i → Inhabits (.integer t) dtype (.int i)
  | bool {dtype b} : Inhabits .bool dtype (.bool b)
  | string {s} : Inhabits .string .string (.str s)
  | binary {bs} : Inhabits .string .binary (.bytes bs)

def RowFits (schema : SchemaPlan) (row : Row) : Prop :=
  ∀ node name declared dtype, columnType schema node = .ok (name, declared, dtype) →
    Inhabits declared dtype (row name)

/-- A bound literal is comparable with every value of its column. -/
theorem compareValues_defined {v lit : Value} {declared : ScalarType} {dtype : ArrowType}
    {c : Comparison} (hv : Inhabits declared dtype v) (h : bindable lit declared dtype c = true) :
    ∃ t, compareValues c v lit = some t := by
  cases hv with
  | null => exact ⟨.unknown, rfl⟩
  | integer hi =>
    cases lit <;> simp only [bindable, Bool.false_eq_true] at h
    exact ⟨_, rfl⟩
  | bool =>
    cases lit <;> simp only [bindable, Bool.false_eq_true] at h
    cases c <;> simp only [Bool.or_eq_true, beq_iff_eq, reduceCtorEq, or_self] at h
    · exact ⟨_, rfl⟩
    · exact ⟨_, rfl⟩
  | string =>
    cases lit <;> simp only [bindable, Bool.false_eq_true, Bool.and_eq_true] at h
    · cases c <;> simp only [Bool.or_eq_true, beq_iff_eq, reduceCtorEq, or_self, false_and] at h
      · exact ⟨_, rfl⟩
      · exact ⟨_, rfl⟩
    · exact absurd h.2 (by decide)
  | binary =>
    cases lit <;> simp only [bindable, Bool.false_eq_true, Bool.and_eq_true] at h
    · exact absurd h.2 (by decide)
    · cases c <;> simp only [Bool.or_eq_true, beq_iff_eq, reduceCtorEq, or_self, false_and] at h
      · exact ⟨_, rfl⟩
      · exact ⟨_, rfl⟩

/-- A Bool column is its own comparison with true. -/
theorem ofBoolean_compare {dtype : ArrowType} {v : Value} (h : Inhabits .bool dtype v) :
    ∃ t, ofBoolean v = some t ∧ compareValues .eq v (.bool true) = some t := by
  cases h with
  | null => exact ⟨.unknown, rfl, rfl⟩
  | @bool _ b =>
    refine ⟨.ofBool b, rfl, ?_⟩
    cases b <;> rfl

end Rows

end RayClickHouse.PredicateMeaning
