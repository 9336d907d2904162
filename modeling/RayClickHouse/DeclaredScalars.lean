import RayClickHouse.PredicatePieces
import RayClickHouse.Replacement
import RayClickHouse.TransportReading

/-!
The declarations of predicate columns. Where only Nullable and LowCardinality
stand around a scalar type, the text holds no name of a composite type, so the
recogniser's search for one finds nothing and every column the compiler uses is
one the recogniser reads.
-/
namespace RayClickHouse.PredicateReading

open Text TypeText Schema Connectives PredicateTokens PredicateColumns PredicateGrammar Predicates
open Replacement

section Words

variable [UnicodeDatabase] {words : List Text}

theorem infix_of_searchWords {previous : Option Char} {s : Text}
    (h : searchWords words previous s = true) : ∃ w ∈ words, w <:+: s := by
  induction s generalizing previous with
  | nil => cases h
  | cons c rest ih =>
    rw [searchWords, Bool.or_eq_true] at h
    rcases h with h | h
    · simp only [Bool.and_eq_true, List.any_eq_true] at h
      obtain ⟨-, w, hw, hprefix, -⟩ := h
      exact ⟨w, hw, (List.isPrefixOf_iff_prefix.mp hprefix).isInfix⟩
    · obtain ⟨w, hw, hinfix⟩ := ih h
      exact ⟨w, hw, hinfix.trans (List.suffix_cons c rest).isInfix⟩

theorem not_searchWords {previous : Option Char} {s : Text} (h : ∀ w ∈ words, ¬ w <:+: s) :
    searchWords words previous s = false := by
  apply Bool.eq_false_iff.mpr
  intro hsearch
  obtain ⟨w, hw, hinfix⟩ := infix_of_searchWords hsearch
  exact h w hw hinfix

end Words

section Scalars

def scalarTypes : List ScalarType := .bool :: .string :: IntegerType.all.map .integer

theorem ofName_eq_some {name : Text} {declared : ScalarType}
    (h : ScalarType.ofName name = some declared) :
    name = declared.name ∧ declared ∈ scalarTypes := by
  unfold ScalarType.ofName at h
  by_cases hbool : name = "Bool".toList
  · rw [if_pos hbool] at h
    cases h
    exact ⟨hbool, by simp [scalarTypes]⟩
  · rw [if_neg hbool] at h
    by_cases hstring : name = "String".toList
    · rw [if_pos hstring] at h
      cases h
      exact ⟨hstring, by simp [scalarTypes]⟩
    · rw [if_neg hstring] at h
      obtain ⟨t, ht, rfl⟩ := Option.map_eq_some_iff.mp h
      have hname : t.name = name := by
        simpa using List.find?_some ht
      have hmem := List.mem_of_find?_eq_some ht
      refine ⟨hname.symm, ?_⟩
      simp only [scalarTypes, List.mem_cons, List.mem_map]
      exact Or.inr (Or.inr ⟨t, hmem, rfl⟩)

/-- Names of scalar types are plain words that mention nothing else. -/
theorem scalarTypes_plain : (scalarTypes.all fun declared =>
    isIdentifier declared.name && compositeWords.all (fun w => !decide (w <:+: declared.name)) &&
      !decide ("Identifier".toList <:+: declared.name)) = true := by
  decide

theorem scalar_plain {declared : ScalarType} (h : declared ∈ scalarTypes) :
    isIdentifier declared.name = true ∧ (∀ w ∈ compositeWords, ¬ w <:+: declared.name) ∧
      ¬ "Identifier".toList <:+: declared.name := by
  have hall := List.all_eq_true.mp scalarTypes_plain declared h
  simp only [Bool.and_eq_true, Bool.not_eq_true', decide_eq_false_iff_not, List.all_eq_true] at hall
  exact ⟨hall.1.1, hall.1.2, hall.2⟩

end Scalars

section Wrappers

/-- A single argument is the list without the white space around it. -/
theorem single_argument {t part : Text} (h : splitTypeArguments t = .ok [part]) : part = strip t := by
  have hpass := transparent_of_single h t 0 [] [] [] le_rfl
  rw [List.append_nil, List.nil_append] at hpass
  have hread : splitFrom t none 0 t [] [] = .ok [part] := hpass.symm.trans h
  rw [splitFrom_stop, if_neg (by simp)] at hread
  by_cases hnil : strip t = []
  · rw [if_pos hnil] at hread
    cases hread
  · rw [if_neg hnil] at hread
    cases hread
    rfl

def Plain (w : Text) : Prop := w ≠ [] ∧ ∀ c ∈ w, isIdentPart c = true

theorem Plain.not_mem {w : Text} (h : Plain w) {c : Char} (hc : isIdentPart c = false) : c ∉ w := by
  intro hmem
  rw [h.2 c hmem] at hc
  cases hc

theorem Plain.not_space {w : Text} (h : Plain w) {spaces : Text}
    (hspaces : ∀ c ∈ spaces, isSpace c = true) : ∀ c ∈ spaces, c ∉ w := by
  intro c hc hmem
  have hspace := hspaces c hc
  rw [Ddl.isSpace_of_isIdentPart (h.2 c hmem)] at hspace
  cases hspace

theorem infix_strip {w value : Text} (hw : Plain w) (h : w <:+: value) : w <:+: strip value := by
  obtain ⟨before, after, hsplit, hbefore, hafter⟩ := strip_decompose value
  rw [hsplit] at h
  exact infix_after hw.1 (hw.not_space hbefore) (infix_before hw.1 (hw.not_space hafter) h)

variable {w : Text}

/-- A word in a type text stands in its name or in one of its arguments. -/
theorem infix_parsed {value : Text} {parsed : ClickHouseType} (hw : Plain w)
    (hparse : parseType value = .ok parsed) (hname : isIdentifier parsed.name = true)
    (h : w <:+: value) :
    w <:+: parsed.name ∨ ∃ x, splitTypeArguments x = .ok parsed.arguments ∧ w <:+: x := by
  have hstrip := infix_strip hw h
  rcases parseType_form hparse hname with ⟨heq, -⟩ | ⟨gap, x, heq, hgap, hsplit⟩
  · rw [heq] at hstrip
    exact Or.inl hstrip
  · rw [heq, ← List.append_assoc] at hstrip
    rcases infix_apart (hw.not_mem (by decide)) hstrip with hstrip | hstrip
    · exact Or.inl (infix_before hw.1 (hw.not_space hgap) hstrip)
    · have hx : w <:+: x := by
        apply infix_before hw.1 _ hstrip
        intro c hc
        rw [List.mem_singleton.mp hc]
        exact hw.not_mem (by decide)
      exact Or.inr ⟨x, hsplit, hx⟩

theorem splitFrom_grows {value current s : Text} {q : Option Char} {depth : ℕ}
    {parts result : List Text} (h : splitFrom value q depth current parts s = .ok result) :
    parts.length < result.length := by
  fun_induction splitFrom value q depth current parts s with
  | case1 | case2 | case5 | case6 | case10 | case12 => cases h
  | case7 =>
    cases h
    simp
  | case3 | case4 | case8 | case9 | case11 | case14 =>
    rename_i ih
    exact ih h
  | case13 =>
    rename_i ih
    have hlonger := ih h
    rw [List.length_append] at hlonger
    omega

theorem arguments_ne_nil {x : Text} {parts : List Text} (h : splitTypeArguments x = .ok parts) :
    parts ≠ [] := by
  rintro rfl
  exact absurd (splitFrom_grows h) (by simp)

theorem scalar_text {value : Text} {parsed : ClickHouseType} {declared : ScalarType}
    (hw : Plain w) (hparse : parseType value = .ok parsed) (harguments : parsed.arguments = [])
    (hdeclared : ScalarType.ofName parsed.name = some declared) (h : w <:+: value) :
    w <:+: declared.name := by
  obtain ⟨hname, hmem⟩ := ofName_eq_some hdeclared
  have hidentifier : isIdentifier parsed.name = true := hname ▸ (scalar_plain hmem).1
  rcases infix_parsed hw hparse hidentifier h with h | ⟨x, hsplit, -⟩
  · exact hname ▸ h
  · exact absurd harguments (arguments_ne_nil hsplit)

/-- Nothing but the wrappers stands around the scalar type of a declaration. -/
theorem infix_bare {fuel : ℕ} {value : Text} {parsed bare : ClickHouseType}
    {declared : ScalarType} (hw : Plain w) (hnullable : ¬ w <:+: "Nullable".toList)
    (hlow : ¬ w <:+: "LowCardinality".toList) (hparse : parseType value = .ok parsed)
    (hbare : bareTypeWithin fuel parsed = .ok bare) (harguments : bare.arguments = [])
    (hdeclared : ScalarType.ofName bare.name = some declared) (h : w <:+: value) :
    w <:+: declared.name := by
  induction fuel generalizing value parsed with
  | zero =>
    cases hbare
    exact scalar_text hw hparse harguments hdeclared h
  | succ fuel ih =>
    simp only [bareTypeWithin] at hbare
    by_cases hwrapper : parsed.name = "Nullable".toList ∨ parsed.name = "LowCardinality".toList
    · rw [if_pos hwrapper] at hbare
      split at hbare
      · rename_i argument hsingle
        cases hargument : parseType argument with
        | error e =>
          rw [hargument] at hbare
          cases hbare
        | ok inner =>
          rw [hargument] at hbare
          have hname : isIdentifier parsed.name = true ∧ ¬ w <:+: parsed.name := by
            rcases hwrapper with hwrapper | hwrapper
            · rw [hwrapper]
              exact ⟨by decide, hnullable⟩
            · rw [hwrapper]
              exact ⟨by decide, hlow⟩
          rcases infix_parsed hw hparse hname.1 h with h | ⟨x, hsplit, hx⟩
          · exact absurd h hname.2
          · rw [hsingle] at hsplit
            rw [single_argument hsplit] at hargument
            exact ih hargument hbare (infix_strip hw hx)
      · cases hbare
    · rw [if_neg hwrapper] at hbare
      cases hbare
      exact scalar_text hw hparse harguments hdeclared h

theorem compositeWords_plain : (compositeWords.all fun w => decide (w ≠ []) && w.all isIdentPart &&
    !decide (w <:+: "Nullable".toList) && !decide (w <:+: "LowCardinality".toList)) = true := by
  decide

end Wrappers

section Columns

variable [UnicodeDatabase] {schema : SchemaPlan} {node : PredicateNode} {name : Text}
variable {declared : ScalarType} {dtype : ArrowType}

/-- A declaration the compiler accepts mentions no composite type. -/
theorem not_composite {value : Text} {bare : ClickHouseType} (hbare : bareType value = .ok bare)
    (harguments : bare.arguments = []) (hdeclared : ScalarType.ofName bare.name = some declared) :
    searchWords compositeWords none value = false := by
  apply not_searchWords
  intro w hw hinfix
  have hall := List.all_eq_true.mp compositeWords_plain w hw
  simp only [Bool.and_eq_true, decide_eq_true_eq, Bool.not_eq_true', decide_eq_false_iff_not,
    List.all_eq_true] at hall
  obtain ⟨⟨⟨hne, hpart⟩, hnullable⟩, hlow⟩ := hall
  unfold bareType at hbare
  cases hparse : parseType value with
  | error e =>
    rw [hparse] at hbare
    cases hbare
  | ok parsed =>
    rw [hparse] at hbare
    have hname := infix_bare ⟨hne, hpart⟩ hnullable hlow hparse hbare harguments hdeclared hinfix
    exact (scalar_plain (ofName_eq_some hdeclared).2).2.1 w hw hname

/-- Every column of a compiled predicate is one the recogniser reads. -/
theorem column_eligible (h : columnType schema node = .ok (name, declared, dtype)) :
    ∃ c, columnNamed schema.columns name = some c ∧ eligible c = true ∧ declared ∈ scalarTypes := by
  obtain ⟨-, c, field, bare, hcolumn, -, halias, hbare, hdeclared, harguments, -⟩ :=
    columnType_eq_ok h
  refine ⟨c, hcolumn, ?_, (ofName_eq_some hdeclared).2⟩
  simp only [eligible, Bool.and_eq_true, Bool.not_eq_true', decide_eq_true_eq]
  exact ⟨halias, not_composite hbare harguments hdeclared⟩

end Columns

end RayClickHouse.PredicateReading
