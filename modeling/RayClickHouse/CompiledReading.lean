import RayClickHouse.PredicateMeaning
import RayClickHouse.ParameterValues

/-!
Compiled predicates read back. The recogniser of local predicates accepts every
text the compiler returns, with the columns the compiler recorded, and the
condition it reads has the truth value of the compiled tree on every row.
-/
namespace RayClickHouse.PredicateMeaning

open Text Schema Connectives PredicateTokens PredicateColumns PredicateGrammar Predicates
open PredicateReading FilterScan ThreeValued Replacement

section Heights

def height : PredicateNode → ℕ
  | .node .and [left, right] _ => max (height left) (height right) + 1
  | .node .or [left, right] _ => max (height left) (height right) + 1
  | .node .not [child] _ => height child + 1
  | _ => 0

theorem render_height {native : Bool} {schema : SchemaPlan} {node : PredicateNode} {depth : ℕ}
    {s : CompileState} {r : Text × CompileState} (h : render native schema node depth s = .ok r) :
    depth + height node ≤ 32 := by
  induction hsize : sizeOf node using Nat.strong_induction_on generalizing node depth s r with
  | _ n ih =>
    unfold render at h
    simp only at h
    split at h
    · contradiction
    · rename_i hbounds
      split at h
      · obtain ⟨⟨l, s₁⟩, hl, hrest⟩ := Except.bind_eq_ok.mp h
        obtain ⟨⟨r, s₂⟩, hr, -⟩ := Except.bind_eq_ok.mp hrest
        simp only [PredicateNode.node.sizeOf_spec, List.cons.sizeOf_spec] at hsize
        have hleft := ih _ (by omega) hl rfl
        have hright := ih _ (by omega) hr rfl
        simp only [height]
        omega
      · obtain ⟨⟨l, s₁⟩, hl, hrest⟩ := Except.bind_eq_ok.mp h
        obtain ⟨⟨r, s₂⟩, hr, -⟩ := Except.bind_eq_ok.mp hrest
        simp only [PredicateNode.node.sizeOf_spec, List.cons.sizeOf_spec] at hsize
        have hleft := ih _ (by omega) hl rfl
        have hright := ih _ (by omega) hr rfl
        simp only [height]
        omega
      · obtain ⟨⟨c, s₁⟩, hc, -⟩ := Except.bind_eq_ok.mp h
        simp only [PredicateNode.node.sizeOf_spec, List.cons.sizeOf_spec] at hsize
        have hchild := ih _ (by omega) hc rfl
        simp only [height]
        omega
      · simp only [height]
        omega
      · simp only [height]
        omega
      · simp only [height]
        omega
      · simp only [height]
        omega
      · simp only [height]
        omega
      · cases h

end Heights

section Leaves

variable [UnicodeDatabase] {schema : SchemaPlan} {node : PredicateNode} {name : Text}
variable {declared : ScalarType} {dtype : ArrowType}

omit [UnicodeDatabase] in
/-- Only a column node has a column type. -/
theorem columnType_node (h : columnType schema node = .ok (name, declared, dtype)) :
    ∃ children, node = .node .column children (.str name) := by
  unfold columnType at h
  split at h
  · rename_i children given
    split at h
    · split at h
      · split at h
        · cases h
        · obtain ⟨parsed, -, hrest⟩ := Except.bind_eq_ok.mp h
          simp only at hrest
          split at hrest
          · split at hrest
            · cases hrest
              exact ⟨children, rfl⟩
            · cases hrest
          · cases hrest
      · cases h
    · cases h
  · cases h

omit [UnicodeDatabase] in
theorem scalar_brace (h : declared ∈ scalarTypes) :
    declared.name ≠ [] ∧ ∀ c ∈ declared.name, notBrace c = true := by
  have hidentifier := (scalar_plain h).1
  refine ⟨isIdentifier_ne_nil hidentifier, ?_⟩
  intro c hc
  have hpart := isIdentifier_mem hidentifier c hc
  simp only [notBrace, Bool.and_eq_true, bne_iff_ne]
  constructor
  · rintro rfl
    exact absurd hpart (by decide)
  · rintro rfl
    exact absurd hpart (by decide)

omit [UnicodeDatabase] in
/-- A generated placeholder does not mention Identifier. -/
theorem not_identifier_placeholder (i : ℕ) (h : declared ∈ scalarTypes) :
    ¬ "Identifier".toList <:+: serverPlaceholder (expressionName i) declared.name := by
  intro hinfix
  have hshape : serverPlaceholder (expressionName i) declared.name =
      ('{' :: expressionName i) ++ ':' :: (declared.name ++ ['}']) := by
    simp [serverPlaceholder]
  rw [hshape] at hinfix
  rcases infix_apart (by decide) hinfix with hname | htype
  · have hmem : 'I' ∈ '{' :: expressionName i := hname.subset (by decide)
    rcases List.mem_cons.mp hmem with hbrace | hmem
    · cases hbrace
    · rcases List.mem_append.mp hmem with hmem | hmem
      · exact absurd hmem (by decide)
      · have hdigit := Nat.isDigit_of_mem_toDigits (by omega) (by omega) hmem
        exact absurd hdigit (by decide)
  · apply (scalar_plain h).2.2
    apply infix_before (by decide) _ htype
    intro c hc
    rw [List.mem_singleton.mp hc]
    decide

/-- The recogniser takes a generated placeholder for a constant. -/
theorem bound_constant (native : Bool) (i : ℕ) (h : declared ∈ scalarTypes) :
    constantToken false (boundToken native (expressionName i) declared.name) = .ok true := by
  have hsearch : ¬ ((boundToken native (expressionName i) declared.name).text.head? = some '{' ∧
      searchWords identifierWords none
        (boundToken native (expressionName i) declared.name).text = true) := by
    rintro ⟨hhead, hfound⟩
    cases native with
    | false => cases hhead
    | true =>
      obtain ⟨w, hw, hinfix⟩ := infix_of_searchWords hfound
      rw [List.mem_singleton.mp hw] at hinfix
      exact not_identifier_placeholder i h hinfix
  show (if _ ∧ _ then _ else _) = _
  exact if_neg hsearch

theorem name_column {c : TargetColumn} {columns : List TargetColumn}
    (hname : isIdentifier name = true) (hcolumn : columnNamed columns name = some c)
    (heligible : eligible c = true) : (accepted columns).column (nameToken name) c := by
  refine ⟨rfl, ?_⟩
  have hspec := columnNamed_spec hcolumn
  apply columnToken_of_known (Or.inr rfl)
  · exact ⟨hspec.1.symm ▸ hcolumn, heligible⟩
  · have hquotes : ∀ d ∈ name, d ∉ ['`', '"'] := by
      intro d hd hmem
      obtain ⟨hback, hdouble, -⟩ := identifier_unquoted hname d hd
      simp only [List.mem_cons, List.not_mem_nil, or_false] at hmem
      rcases hmem with h | h
      · exact hback h
      · exact hdouble h
    have hstrip : stripChars ['`', '"'] (quoted name) = name :=
      (stripChars_wrapped (by simp) name).trans (stripChars_self hquotes)
    rw [hspec.1]
    exact hstrip

theorem name_head (name : Text) :
    role (nameToken name) ≠ .negate ∧ role (nameToken name) ≠ .opening := by
  have hkind : Delimited (nameToken name) := Or.inr (Or.inl rfl)
  constructor
  · intro hrole
    have hspells := spells_not_of_role hrole
    rw [not_spelled_of_kind hkind (by decide)] at hspells
    cases hspells
  · intro hrole
    have hspells := spells_opening_of_role hrole
    rw [not_spelled_of_kind hkind (by decide)] at hspells
    cases hspells

end Leaves

section Conditions

variable [UnicodeDatabase] {native : Bool} {schema : SchemaPlan} {node : PredicateNode}
variable {name : Text} {declared : ScalarType} {dtype : ArrowType}

def boundCondition (native : Bool) (column : TargetColumn) (c : Comparison) (i : ℕ)
    (declared : ScalarType) : Condition :=
  .compare (.column column) (symbolToken c.symbol (comparison_symbol c))
    (.constant (boundToken native (expressionName i) declared.name))

omit [UnicodeDatabase] in
theorem comparison_upper (c : Comparison) : upper c.symbol ∈ comparisonSymbols := by
  cases c <;> decide

theorem bound_text (native : Bool) (c : Comparison) (i : ℕ)
    (h : columnType schema node = .ok (name, declared, dtype)) :
    ∃ column, column.name = name ∧ TermText schema.columns 2
      ("(".toList ++ quoted name ++ " ".toList ++ c.symbol ++ " ".toList ++
        placeholder native (expressionName i) declared.name ++ ")".toList)
      (.leaf (boundCondition native column c i declared)) := by
  obtain ⟨column, hnamed, heligible, hscalar⟩ := column_eligible h
  have hname := (columnType_eq_ok h).1
  obtain ⟨hne, hbrace⟩ := scalar_brace hscalar
  have hatomic : Atomic (accepted schema.columns) (boundCondition native column c i declared)
      [nameToken name, symbolToken c.symbol (comparison_symbol c),
        boundToken native (expressionName i) declared.name] :=
    .compare (.column (name_column hname hnamed heligible)) (comparison_upper c)
      (.constant (bound_constant native i hscalar))
  have hbound := (Spelt.placeholder native (isIdentifier_expressionName i) hne hbrace).append
    Spelt.closed
  have hspelt := Spelt.column hname (Spelt.comparison c hbound.space).space
  refine ⟨column, (columnNamed_spec hnamed).1, ?_⟩
  have hgroup : Spelt ((quoted name ++ " ".toList ++ c.symbol ++ " ".toList ++
      placeholder native (expressionName i) declared.name) ++ ")".toList)
      ([nameToken name, symbolToken c.symbol (comparison_symbol c),
        boundToken native (expressionName i) declared.name] ++ [closeToken]) := by
    simpa using hspelt
  have hterm := TermText.atomic hgroup hatomic (by
    intro t ht
    cases ht
    exact name_head name)
  simpa only [List.append_assoc] using hterm

theorem null_text {negated : Bool} {tail : Text}
    (htail : Spelt (" IS".toList ++ tail ++ ")".toList) (nullTokens negated ++ [closeToken]))
    (h : columnType schema node = .ok (name, declared, dtype)) :
    ∃ column, column.name = name ∧ TermText schema.columns 2
      ("(".toList ++ (quoted name ++ (" IS".toList ++ tail) ++ ")".toList))
      (.leaf (.isNull (.column column) negated)) := by
  obtain ⟨column, hnamed, heligible, -⟩ := column_eligible h
  have hname := (columnType_eq_ok h).1
  have hnegation : Negation negated
      (if negated then [keyword "NOT" not_keyword] else []) := by
    cases negated with
    | false => exact .absent
    | true => exact .present (spells_keyword not_keyword)
  have hatomic : Atomic (accepted schema.columns) (.isNull (.column column) negated)
      (nameToken name :: nullTokens negated) :=
    .isNull (.column (name_column hname hnamed heligible)) (spells_keyword is_keyword)
      hnegation (spells_keyword null_keyword)
  have hspelt : Spelt (quoted name ++ ' ' :: ("IS".toList ++ tail ++ ")".toList)) _ :=
    Spelt.column hname htail
  refine ⟨column, (columnNamed_spec hnamed).1, ?_⟩
  apply TermText.atomic _ hatomic
  · intro t ht
    cases ht
    exact name_head name
  · simpa using hspelt

/-- The condition compares the column with the value of the name. -/
theorem sqlTruth_bound {row : Row} {values : Bindings} {column : TargetColumn} {c : Comparison}
    {i : ℕ} {v : Value} (hscalar : declared ∈ scalarTypes)
    (hvalue : values.get? (expressionName i) = some v) :
    sqlTruth row values (.leaf (boundCondition native column c i declared)) =
      compareValues c (row column.name) v := by
  obtain ⟨hne, hbrace⟩ := scalar_brace hscalar
  simp only [sqlTruth, formulaTruth, boundCondition, conditionTruth, conditionOperand,
    symbolComparison_symbol, parameterName_bound native (isIdentifier_expressionName i) hne hbrace,
    Option.bind_eq_bind, Option.bind_some, hvalue]

end Conditions

section Translation

variable [UnicodeDatabase] {native : Bool} {schema : SchemaPlan}
variable {node left right : PredicateNode} {s s₁ s₂ : CompileState} {sql l r : Text}
variable {f g : Formula Condition}

theorem mentioned_conj (f g : Formula Condition) :
    mentioned (.conj f g) = mentioned f ∪ mentioned g := by
  simp [mentioned, Formula.leaves]

theorem mentioned_disj (f g : Formula Condition) :
    mentioned (.disj f g) = mentioned f ∪ mentioned g := by
  simp [mentioned, Formula.leaves]

def Binds (values parameters : Bindings) : Prop :=
  ∀ b ∈ parameters, values.get? b.1 = some b.2

/-- On every fitting row the condition has the truth value of the tree. -/
def SameTruth (schema : SchemaPlan) (parameters : Bindings) (node : PredicateNode)
    (f : Formula Condition) : Prop :=
  ∀ row values, RowFits schema row → Binds values parameters →
    ∃ t, nodeTruth row node = some t ∧ sqlTruth row values f = some t

/-- What the rendering of a tree gives: a text that reads as a condition, whose
columns are those recorded and whose truth is the tree's. -/
structure Translates (schema : SchemaPlan) (node : PredicateNode) (s : CompileState) (sql : Text)
    (s' : CompileState) (f : Formula Condition) : Prop where
  text : TermText schema.columns (2 * height node + 2) sql f
  names : ∀ n, n ∈ s'.used ↔ n ∈ s.used ∨ n ∈ mentioned f
  nonempty : (mentioned f).Nonempty
  grows : s.parameters ⊆ s'.parameters
  meaning : SameTruth schema s'.parameters node f

theorem SameTruth.grow {parameters more : Bindings} (h : SameTruth schema parameters node f)
    (hsubset : parameters ⊆ more) : SameTruth schema more node f := by
  intro row values hrow hbinds
  exact h row values hrow fun b hb => hbinds b (hsubset hb)

theorem Translates.and {value : Value} (hl : Translates schema left s.visit l s₁ f)
    (hr : Translates schema right s₁ r s₂ g) :
    Translates schema (.node .and [left, right] value) s
      ("(".toList ++ l ++ " AND ".toList ++ r ++ ")".toList) s₂ (.conj f g) where
  text := by
    have hleft : TermText schema.columns (2 * max (height left) (height right) + 2) l f :=
      hl.text.deeper (by omega)
    have hright : TermText schema.columns (2 * max (height left) (height right) + 2) r g :=
      hr.text.deeper (by omega)
    apply (hleft.conj hright).deeper
    simp only [height]
    omega
  names := by
    intro n
    rw [hr.names, hl.names, mentioned_conj, Finset.mem_union, CompileState.used_visit, or_assoc]
  nonempty := by
    rw [mentioned_conj]
    exact hl.nonempty.mono Finset.subset_union_left
  grows := List.Subset.trans hl.grows hr.grows
  meaning := by
    intro row values hrow hbinds
    obtain ⟨t, ht, hf⟩ := hl.meaning.grow hr.grows row values hrow hbinds
    obtain ⟨u, hu, hg⟩ := hr.meaning row values hrow hbinds
    refine ⟨t.and u, ?_, ?_⟩
    · simp only [nodeTruth, ht, hu, Option.map₂_some_some]
    · simp only [sqlTruth, formulaTruth] at hf hg ⊢
      rw [hf, hg]
      rfl

theorem Translates.or {value : Value} (hl : Translates schema left s.visit l s₁ f)
    (hr : Translates schema right s₁ r s₂ g) :
    Translates schema (.node .or [left, right] value) s
      ("(".toList ++ l ++ " OR ".toList ++ r ++ ")".toList) s₂ (.disj f g) where
  text := by
    have hleft : TermText schema.columns (2 * max (height left) (height right) + 2) l f :=
      hl.text.deeper (by omega)
    have hright : TermText schema.columns (2 * max (height left) (height right) + 2) r g :=
      hr.text.deeper (by omega)
    apply (hleft.disj hright).deeper
    simp only [height]
    omega
  names := by
    intro n
    rw [hr.names, hl.names, mentioned_disj, Finset.mem_union, CompileState.used_visit, or_assoc]
  nonempty := by
    rw [mentioned_disj]
    exact hl.nonempty.mono Finset.subset_union_left
  grows := List.Subset.trans hl.grows hr.grows
  meaning := by
    intro row values hrow hbinds
    obtain ⟨t, ht, hf⟩ := hl.meaning.grow hr.grows row values hrow hbinds
    obtain ⟨u, hu, hg⟩ := hr.meaning row values hrow hbinds
    refine ⟨t.or u, ?_, ?_⟩
    · simp only [nodeTruth, ht, hu, Option.map₂_some_some]
    · simp only [sqlTruth, formulaTruth] at hf hg ⊢
      rw [hf, hg]
      rfl

theorem Translates.not {value : Value} (h : Translates schema left s.visit l s₁ f) :
    Translates schema (.node .not [left] value) s ("(NOT ".toList ++ l ++ ")".toList) s₁
      (.neg f) where
  text := by
    apply h.text.neg.deeper
    simp only [height]
    omega
  names := h.names
  nonempty := h.nonempty
  grows := h.grows
  meaning := by
    intro row values hrow hbinds
    obtain ⟨t, ht, hf⟩ := h.meaning row values hrow hbinds
    refine ⟨t.not, ?_, ?_⟩
    · simp only [nodeTruth, ht, Option.map_some]
    · simp only [sqlTruth, formulaTruth] at hf ⊢
      rw [hf]
      rfl

theorem mentioned_column {column : TargetColumn} {a : Condition} (h : a.names = [column.name]) :
    mentioned (.leaf a) = {column.name} := by
  simp [mentioned, Formula.leaves, h]

/-- A null test of a column. -/
theorem Translates.nullTest {negated : Bool} {op : Op} {value : Value} {child : PredicateNode}
    {name tail : Text} {declared : ScalarType} {dtype : ArrowType}
    (htail : Spelt (" IS".toList ++ tail ++ ")".toList) (nullTokens negated ++ [closeToken]))
    (hheight : height (.node op [child] value) = 0)
    (htruth : ∀ row, nodeTruth row (.node op [child] value) =
      (operandValue row child).map (isNullValue negated))
    (h : columnType schema child = .ok (name, declared, dtype)) :
    ∃ f, Translates schema (.node op [child] value) s
      ("(".toList ++ (quoted name ++ (" IS".toList ++ tail) ++ ")".toList)) (s.visit.use name) f := by
  obtain ⟨column, hname, htext⟩ := null_text htail h
  obtain ⟨children, rfl⟩ := columnType_node h
  have hmentioned : mentioned (.leaf (.isNull (.column column) negated)) = {column.name} :=
    mentioned_column rfl
  refine ⟨.leaf (.isNull (.column column) negated), ?_, ?_, ?_, ?_, ?_⟩
  · rw [hheight]
    exact htext
  · intro n
    rw [CompileState.mem_used_use, hmentioned, hname,
      Finset.mem_singleton, CompileState.used_visit]
  · rw [hmentioned]
    exact Finset.singleton_nonempty _
  · rw [CompileState.parameters_use, CompileState.parameters_visit]
    exact List.Subset.refl _
  · intro row values _ _
    refine ⟨isNullValue negated (row name), ?_, ?_⟩
    · rw [htruth]
      rfl
    · rw [← hname]
      rfl

/-- A column compared with a literal that is bound to the next name. -/
theorem Translates.bound {node child : PredicateNode} {c : Comparison} {name bound : Text}
    {declared : ScalarType} {dtype dtype' : ArrowType} {value : Value}
    (hheight : height node = 0) (hcolumn : columnType schema child = .ok (name, declared, dtype'))
    (hbind : Predicates.bind native value declared dtype c (s.visit.use name) = .ok (bound, s₁))
    (htruth : ∀ row, RowFits schema row → ∃ t, nodeTruth row node = some t ∧
      compareValues c (row name) value = some t) :
    ∃ f, Translates schema node s
      ("(".toList ++ quoted name ++ " ".toList ++ c.symbol ++ " ".toList ++ bound ++ ")".toList)
      s₁ f := by
  obtain ⟨-, hbound, hparameters, hused⟩ := bind_eq_ok hbind
  obtain ⟨-, -, -, hscalar⟩ := column_eligible hcolumn
  obtain ⟨column, hname, htext⟩ := bound_text native c (s.visit.use name).parameters.length hcolumn
  rw [← hbound] at htext
  have hmentioned : mentioned (.leaf (boundCondition native column c
      (s.visit.use name).parameters.length declared)) = {column.name} := mentioned_column rfl
  refine ⟨.leaf (boundCondition native column c (s.visit.use name).parameters.length declared),
    ?_, ?_, ?_, ?_, ?_⟩
  · rw [hheight]
    exact htext
  · intro n
    rw [hused, CompileState.mem_used_use, hmentioned, hname,
      Finset.mem_singleton, CompileState.used_visit]
  · rw [hmentioned]
    exact Finset.singleton_nonempty _
  · rw [hparameters, CompileState.parameters_use, CompileState.parameters_visit]
    exact List.subset_append_left _ _
  · intro row values hrow hbinds
    obtain ⟨t, ht, hcompare⟩ := htruth row hrow
    have hvalue : values.get? (expressionName (s.visit.use name).parameters.length) =
        some value := by
      apply hbinds (_, value)
      rw [hparameters]
      exact List.mem_append_right _ (List.mem_singleton_self _)
    refine ⟨t, ht, ?_⟩
    rw [sqlTruth_bound hscalar hvalue, hname]
    exact hcompare

/-- Every rendered tree reads back as a condition with its columns and its truth. -/
theorem translates_of_renders {s' : CompileState} (h : Renders native schema node s sql s') :
    ∃ f, Translates schema node s sql s' f := by
  induction h with
  | and _ _ ihl ihr =>
    obtain ⟨f, hf⟩ := ihl
    obtain ⟨g, hg⟩ := ihr
    exact ⟨_, hf.and hg⟩
  | or _ _ ihl ihr =>
    obtain ⟨f, hf⟩ := ihl
    obtain ⟨g, hg⟩ := ihr
    exact ⟨_, hf.or hg⟩
  | not _ ih =>
    obtain ⟨f, hf⟩ := ih
    exact ⟨_, hf.not⟩
  | @isNull child value s name declared dtype hcolumn =>
    have htail : Spelt (" IS".toList ++ " NULL".toList ++ ")".toList)
        (nullTokens false ++ [closeToken]) := Spelt.isNull
    have hheight : height (.node .isNull [child] value) = 0 := rfl
    have htest := Translates.nullTest (s := s) htail hheight (fun row => rfl) hcolumn
    have hshape : "(".toList ++ quoted name ++ " IS NULL)".toList =
        "(".toList ++ (quoted name ++ (" IS".toList ++ " NULL".toList) ++ ")".toList) := by
      simp
    rw [hshape]
    exact htest
  | @isNotNull child value s name declared dtype hcolumn =>
    have htail : Spelt (" IS".toList ++ " NOT NULL".toList ++ ")".toList)
        (nullTokens true ++ [closeToken]) := Spelt.isNotNull
    have hheight : height (.node .isNotNull [child] value) = 0 := rfl
    have htest := Translates.nullTest (s := s) htail hheight (fun row => rfl) hcolumn
    have hshape : "(".toList ++ quoted name ++ " IS NOT NULL)".toList =
        "(".toList ++ (quoted name ++ (" IS".toList ++ " NOT NULL".toList) ++ ")".toList) := by
      simp
    rw [hshape]
    exact htest
  | @column children value s s₁ name bound dtype hcolumn hbind =>
    have hheight : height (.node .column children value) = 0 := rfl
    have hbool := Translates.bound hheight hcolumn hbind (by
      intro row hrow
      obtain ⟨given, hnode⟩ := columnType_node hcolumn
      obtain ⟨t, ht, hcompare⟩ := ofBoolean_compare (hrow _ _ _ _ hcolumn)
      rw [hnode]
      exact ⟨t, ht, hcompare⟩)
    have hshape : "(".toList ++ quoted name ++ " = ".toList ++ bound ++ ")".toList =
        "(".toList ++ quoted name ++ " ".toList ++ Comparison.eq.symbol ++ " ".toList ++ bound ++
          ")".toList := by
      simp [Comparison.symbol]
    rw [hshape]
    exact hbool
  | @literalFirst c children children' value value' v s s₁ sql hcomparison =>
    obtain ⟨name, declared, dtype, bound, hcolumn, hbind, rfl⟩ :=
      renderComparison_eq_ok hcomparison
    refine Translates.bound rfl hcolumn hbind ?_
    intro row hrow
    obtain ⟨given, hnode⟩ := columnType_node hcolumn
    obtain ⟨-, rfl, rfl⟩ := PredicateNode.node.inj hnode
    obtain ⟨t, ht⟩ := compareValues_defined (hrow _ _ _ _ hcolumn) (bind_eq_ok hbind).1
    refine ⟨t, ?_, ht⟩
    rw [compareValues_reverse] at ht
    exact ht
  | @columnFirst c children children' value value' v s s₁ sql hcomparison =>
    obtain ⟨name, declared, dtype, bound, hcolumn, hbind, rfl⟩ :=
      renderComparison_eq_ok hcomparison
    refine Translates.bound rfl hcolumn hbind ?_
    intro row hrow
    obtain ⟨given, hnode⟩ := columnType_node hcolumn
    obtain ⟨-, rfl, rfl⟩ := PredicateNode.node.inj hnode
    obtain ⟨t, ht⟩ := compareValues_defined (hrow _ _ _ _ hcolumn) (bind_eq_ok hbind).1
    exact ⟨t, ht, ht⟩

end Translation

end RayClickHouse.PredicateMeaning
