import RayClickHouse.PredicateColumns

/-!
The grammar of the local predicates over two kinds of terminals, constants and
columns, the terminals the code accepts, and what each of the recogniser's small
readers takes.
-/
namespace RayClickHouse.PredicateGrammar

open Text Schema TypeText Connectives PredicateTokens PredicateColumns

variable [UnicodeDatabase]

/-- Which tokens stand for a constant, where LIKE admits strings and parameters
only, and which for a column. -/
structure Terminals where
  constant : Bool → Token → Prop
  column : Token → TargetColumn → Prop

inductive Negation : Bool → List Token → Prop
  | absent : Negation false []
  | present {t : Token} : spells "NOT" t = true → Negation true [t]

inductive OperandText (T : Terminals) : Operand → Token → Prop
  | constant {t : Token} : T.constant false t → OperandText T (.constant t) t
  | column {t : Token} {c : TargetColumn} : T.column t c → OperandText T (.column c) t

inductive MoreItems (T : Terminals) : List Token → List Token → Prop
  | nil : MoreItems T [] []
  | cons {s t : Token} {items us : List Token} : spells "," s = true → T.constant false t →
      MoreItems T items us → MoreItems T (t :: items) (s :: t :: us)

/-- A declared type whose outermost name, wrappers removed, is a string type. -/
def StringTyped (c : TargetColumn) : Prop := isStringColumn c = .ok true

inductive Atomic (T : Terminals) : Condition → List Token → Prop
  | between {k b low a high : Token} {c : TargetColumn} {negated : Bool} {ns : List Token} :
      T.column k c → Negation negated ns → spells "BETWEEN" b = true → T.constant false low →
      spells "AND" a = true → T.constant false high →
      Atomic T (.between negated c low high) (k :: (ns ++ [b, low, a, high]))
  | like {k l p : Token} {c : TargetColumn} {negated : Bool} {ns : List Token} :
      T.column k c → StringTyped c → Negation negated ns → spells "LIKE" l = true →
      T.constant true p → Atomic T (.like negated c p) (k :: (ns ++ [l, p]))
  | inList {k i o first close : Token} {c : TargetColumn} {negated : Bool}
      {ns items us : List Token} :
      T.column k c → Negation negated ns → spells "IN" i = true → spells "(" o = true →
      T.constant false first → MoreItems T items us → spells ")" close = true →
      Atomic T (.inList negated c (first :: items))
        (k :: (ns ++ i :: o :: first :: (us ++ [close])))
  | isNull {k i n : Token} {x : Operand} {negated : Bool} {ns : List Token} :
      OperandText T x k → spells "IS" i = true → Negation negated ns → spells "NULL" n = true →
      Atomic T (.isNull x negated) (k :: i :: (ns ++ [n]))
  | compare {k op m : Token} {x y : Operand} :
      OperandText T x k → upper op.text ∈ comparisonSymbols → OperandText T y m →
      Atomic T (.compare x op y) [k, op, m]

def accepted (columns : List TargetColumn) : Terminals where
  constant stringOnly t := constantToken stringOnly t = .ok true
  column t c := constantToken false t = .ok false ∧ columnToken columns t = some c

/-- Derivable from the grammar, with at least one column and these columns. -/
def Derivable (T : Terminals) (ts : List Token) (S : Finset Text) : Prop :=
  ∃ f, Derives role (Atomic T) .expression f ts ∧ mentioned f = S ∧ S ≠ ∅

section Tokens

theorem spells_iff {value : String} {t : Token} :
    spells value t = true ↔ upper t.text = value.toList := decide_eq_true_iff

theorem spells_unique {v w : String} {t : Token} (hv : spells v t = true)
    (hw : spells w t = true) : v = w := by
  have heq : v.toList = w.toList := (spells_iff.mp hv).symm.trans (spells_iff.mp hw)
  exact String.toList_inj.mp heq

theorem spells_eq_false {v w : String} {t : Token} (hv : spells v t = true) (hne : v ≠ w) :
    spells w t = false := by
  apply Bool.eq_false_iff.mpr
  intro hw
  exact hne (spells_unique hv hw)

theorem symbol_not_spelled {w : String} {t : Token} (h : upper t.text ∈ comparisonSymbols)
    (hne : w.toList ∉ comparisonSymbols) : spells w t = false := by
  apply Bool.eq_false_iff.mpr
  intro hw
  rw [spells_iff.mp hw] at h
  exact hne h

theorem take_eq_some {value : String} {ts rest : List Token} :
    take value ts = some rest ↔ ∃ t, ts = t :: rest ∧ spells value t = true := by
  cases ts with
  | nil => simp [take]
  | cons t tail =>
    simp only [take, List.cons.injEq]
    by_cases h : spells value t = true
    · simp only [h, if_true, Option.some.injEq]
      constructor
      · rintro rfl
        exact ⟨t, ⟨rfl, rfl⟩, h⟩
      · rintro ⟨-, ⟨-, rfl⟩, -⟩
        rfl
    · simp only [h]
      constructor
      · intro hnone
        cases hnone
      · rintro ⟨u, ⟨rfl, -⟩, hu⟩
        exact absurd hu h

theorem take_cons {value : String} {t : Token} (h : spells value t = true) (rest : List Token) :
    take value (t :: rest) = some rest := take_eq_some.mpr ⟨t, rfl, h⟩

theorem take_other {value : String} {t : Token} (h : spells value t = false) (rest : List Token) :
    take value (t :: rest) = none := by
  simp [take, h]

theorem takeNot_spec (ts : List Token) :
    ∃ ns, ts = ns ++ (takeNot ts).2 ∧ Negation (takeNot ts).1 ns := by
  unfold takeNot
  cases h : take "NOT" ts with
  | none => exact ⟨[], rfl, .absent⟩
  | some rest =>
    obtain ⟨t, rfl, ht⟩ := take_eq_some.mp h
    exact ⟨[t], rfl, .present ht⟩

theorem takeNot_append {negated : Bool} {ns : List Token} (h : Negation negated ns) {t : Token}
    (ht : spells "NOT" t = false) (rest : List Token) :
    takeNot (ns ++ t :: rest) = (negated, t :: rest) := by
  cases h with
  | absent => simp only [takeNot, List.nil_append, take_other ht]
  | present hn => simp only [takeNot, List.singleton_append, take_cons hn]

theorem requireConstant_eq_ok {message : String} {stringOnly : Bool} {ts rest : List Token}
    {t : Token} : requireConstant message stringOnly ts = .ok (t, rest) ↔
      ts = t :: rest ∧ constantToken stringOnly t = .ok true := by
  cases ts with
  | nil => simp [requireConstant]
  | cons u tail =>
    simp only [requireConstant, List.cons.injEq]
    cases hu : constantToken stringOnly u with
    | error failure =>
      constructor
      · intro h
        cases h
      · rintro ⟨⟨rfl, rfl⟩, ht⟩
        rw [hu] at ht
        cases ht
    | ok answer =>
      cases answer with
      | false =>
        constructor
        · intro h
          cases h
        · rintro ⟨⟨rfl, rfl⟩, ht⟩
          rw [hu] at ht
          cases ht
      | true =>
        simp only [Except.ok.injEq, Prod.mk.injEq]
        constructor
        · rintro ⟨rfl, rfl⟩
          exact ⟨⟨rfl, rfl⟩, hu⟩
        · rintro ⟨⟨rfl, rfl⟩, -⟩
          exact ⟨rfl, rfl⟩

theorem requireToken_eq_ok {message value : String} {ts rest : List Token} :
    requireToken message value ts = .ok rest ↔ ∃ t, ts = t :: rest ∧ spells value t = true := by
  rw [← take_eq_some]
  unfold requireToken
  cases take value ts with
  | none => simp [Outcome.ofOption]
  | some after => simp [Outcome.ofOption]

theorem atom_eq_ok {columns : List TargetColumn} {ts rest : List Token} {x : Operand} :
    atom columns ts = .ok (x, rest) ↔
      ∃ t, ts = t :: rest ∧ OperandText (accepted columns) x t := by
  cases ts with
  | nil => simp [atom]
  | cons t tail =>
    simp only [atom, List.cons.injEq]
    cases ht : constantToken false t with
    | error failure =>
      constructor
      · intro h
        cases h
      · rintro ⟨u, ⟨rfl, -⟩, hu⟩
        cases hu with
        | constant h => cases ht.symm.trans h
        | column h => cases ht.symm.trans h.1
    | ok answer =>
      cases answer with
      | true =>
        simp only [Except.ok.injEq, Prod.mk.injEq]
        constructor
        · rintro ⟨rfl, rfl⟩
          exact ⟨t, ⟨rfl, rfl⟩, .constant ht⟩
        · rintro ⟨u, ⟨rfl, rfl⟩, hu⟩
          cases hu with
          | constant h => exact ⟨rfl, rfl⟩
          | column h => cases ht.symm.trans h.1
      | false =>
        cases hc : columnToken columns t with
        | none =>
          constructor
          · intro h
            cases h
          · rintro ⟨u, ⟨rfl, -⟩, hu⟩
            cases hu with
            | constant h => cases ht.symm.trans h
            | column h => cases hc.symm.trans h.2
        | some c =>
          simp only [Except.ok.injEq, Prod.mk.injEq]
          constructor
          · rintro ⟨rfl, rfl⟩
            exact ⟨t, ⟨rfl, rfl⟩, .column ⟨ht, hc⟩⟩
          · rintro ⟨u, ⟨rfl, rfl⟩, hu⟩
            cases hu with
            | constant h => cases ht.symm.trans h
            | column h =>
              cases hc.symm.trans h.2
              exact ⟨rfl, rfl⟩

theorem requireColumn_eq_ok {message : String} {x : Operand} {c : TargetColumn} :
    requireColumn message x = .ok c ↔ x = .column c := by
  cases x <;> simp [requireColumn]

omit [UnicodeDatabase] in
theorem requireString_eq_ok {message : String} {c : TargetColumn} :
    requireString message c = .ok () ↔ StringTyped c := by
  unfold requireString StringTyped
  cases isStringColumn c with
  | error failure => simp
  | ok answer => cases answer <;> simp

end Tokens

end RayClickHouse.PredicateGrammar
