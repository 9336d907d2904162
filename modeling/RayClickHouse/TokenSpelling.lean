import RayClickHouse.ComparisonRefusals

/-!
What the texts of the tokens are compared with: quoted texts, parameters and
numbers are never spelled like a keyword or a bracket, and stripping the quotes
of a plainly quoted name gives the name.
-/
namespace RayClickHouse.PredicateGrammar

open Text Schema PredicateTokens PredicateColumns FilterScan

variable [UnicodeDatabase]

section Spelling

def fixedTexts : List Text :=
  ["NOT", "AND", "OR", "(", ")", ",", "BETWEEN", "LIKE", "IN", "IS", "NULL"].map String.toList ++
    comparisonSymbols

def openers : Text := ['\'', '`', '"', '%', '{']

omit [UnicodeDatabase] in
theorem fixedTexts_heads :
    (fixedTexts.all fun w => w.head?.all fun c => !openers.contains c) = true := by
  decide

omit [UnicodeDatabase] in
theorem upper_head {s : Text} {c : Char} (h : s.head? = some c) (hc : upper [c] = [c]) :
    (upper s).head? = some c := by
  cases s with
  | nil => cases h
  | cons d rest =>
    cases h
    exact congrArg List.head? (show upper (c :: rest) = c :: upper rest by
      have hfirst : upper (c :: rest) = upper [c] ++ upper rest := rfl
      rw [hfirst, hc]
      rfl)

omit [UnicodeDatabase] in
theorem upper_not_fixed {s : Text} {c : Char} (h : s.head? = some c)
    (hc : c ∈ openers) : upper s ∉ fixedTexts := by
  have hsame : upper [c] = [c] := by
    simp only [openers, List.mem_cons, List.not_mem_nil, or_false] at hc
    rcases hc with rfl | rfl | rfl | rfl | rfl <;> decide
  have hhead := upper_head h hsame
  intro hmem
  have hall := List.all_eq_true.mp fixedTexts_heads _ hmem
  rw [hhead] at hall
  simp only [Option.all_some, Bool.not_eq_true', List.contains_eq_mem, decide_eq_false_iff_not]
    at hall
  exact hall hc

def Delimited (t : Token) : Prop := t.kind = .string ∨ t.kind = .quoted ∨ t.kind = .parameter

theorem upper_not_fixed_of_kind {t : Token} (h : Delimited t) : upper t.text ∉ fixedTexts := by
  have hspelled := t.spelled
  rcases h with h | h | h
  · rw [h] at hspelled
    exact upper_not_fixed hspelled (by decide)
  · rw [h] at hspelled
    rcases hspelled with hq | hq
    · exact upper_not_fixed hq (by decide)
    · exact upper_not_fixed hq (by decide)
  · rw [h] at hspelled
    rcases hspelled with hq | hq
    · exact upper_not_fixed hq (by decide)
    · exact upper_not_fixed hq (by decide)

theorem not_spelled_of_kind {t : Token} (h : Delimited t) {w : String}
    (hw : w.toList ∈ fixedTexts) : spells w t = false := by
  apply Bool.eq_false_iff.mpr
  intro hspells
  apply upper_not_fixed_of_kind h
  rw [spells_iff.mp hspells]
  exact hw

omit [UnicodeDatabase] in
theorem upper_cons_head {c u : Char} {rest more : Text} (h : upper (c :: rest) = u :: more)
    (hI : u ≠ 'I') (hS : u ≠ 'S') : c.toUpper = u := by
  simp only [upper, List.map_cons, List.cons.injEq] at h
  obtain ⟨h, -⟩ := h
  by_cases h305 : c.toNat = 305
  · rw [if_pos h305] at h
    exact absurd h.symm hI
  · rw [if_neg h305] at h
    by_cases h383 : c.toNat = 383
    · rw [if_pos h383] at h
      exact absurd h.symm hS
    · rwa [if_neg h383] at h

omit [UnicodeDatabase] in
theorem eq_parenthesis_of_toUpper {c : Char} (h : c.toUpper = '(') : c = '(' := by
  have hupper := Char.isUpper_toUpper_eq_isAlpha c
  rw [h] at hupper
  have hlower : ¬ c.isLower = true := by
    intro hc
    rw [Char.isAlpha, hc, Bool.or_true] at hupper
    exact absurd hupper (by decide)
  rwa [Char.toUpper_eq_of_not_isLower hlower] at h

theorem not_decimal_of_isAlpha {c : Char} (h : c.isAlpha = true) : isDecimal c = false := by
  have hpart : isIdentPart c = true := by
    simp [isIdentPart, Char.isAlphanum, h]
  unfold isDecimal
  rw [UnicodeDatabase.decimal_ascii c (ascii_of_isIdentPart hpart)]
  have hdigit : c.isDigit = false := by
    simp only [Char.isAlpha, Char.isUpper, Char.isLower, Char.isDigit, Bool.or_eq_true,
      Bool.and_eq_true, decide_eq_true_eq, UInt32.le_iff_toNat_le, ge_iff_le,
      Bool.and_eq_false_iff, decide_eq_false_iff_not] at h ⊢
    have hnine : '9'.val.toNat = 57 := rfl
    have hupper : 'A'.val.toNat = 65 := rfl
    have hlower : 'a'.val.toNat = 97 := rfl
    omega
  rw [hdigit]
  rfl

theorem number_not_operator {t : Token} (h : t.kind = .number) :
    spells "NOT" t = false ∧ spells "(" t = false := by
  have hspelled := t.spelled
  rw [h] at hspelled
  obtain ⟨c, hc, hclass⟩ := hspelled
  cases htext : t.text with
  | nil =>
    rw [htext] at hc
    cases hc
  | cons d rest =>
    rw [htext] at hc
    cases hc
    constructor
    · apply Bool.eq_false_iff.mpr
      intro hspells
      have heq : upper (c :: rest) = 'N' :: "OT".toList := htext ▸ spells_iff.mp hspells
      have hN := upper_cons_head heq (by decide) (by decide)
      have halpha : c.isAlpha = true := by
        rw [← Char.isUpper_toUpper_eq_isAlpha, hN]
        decide
      rcases hclass with rfl | rfl | rfl | hdecimal
      · exact absurd halpha (by decide)
      · exact absurd halpha (by decide)
      · exact absurd halpha (by decide)
      · rw [not_decimal_of_isAlpha halpha] at hdecimal
        cases hdecimal
    · apply Bool.eq_false_iff.mpr
      intro hspells
      have heq : upper (c :: rest) = ['('] := htext ▸ spells_iff.mp hspells
      have hopen := eq_parenthesis_of_toUpper (upper_cons_head heq (by decide) (by decide))
      subst hopen
      rcases hclass with h | h | h | hdecimal
      · exact absurd h (by decide)
      · exact absurd h (by decide)
      · exact absurd h (by decide)
      · unfold isDecimal at hdecimal
        rw [UnicodeDatabase.decimal_ascii '(' (by decide)] at hdecimal
        exact absurd hdecimal (by decide)

theorem word_not_opening {t : Token} (h : t.kind = .word) : spells "(" t = false := by
  have hspelled := t.spelled
  rw [h] at hspelled
  apply Bool.eq_false_iff.mpr
  intro hspells
  have heq := spells_iff.mp hspells
  cases htext : t.text with
  | nil =>
    rw [htext] at heq
    cases heq
  | cons d rest =>
    rw [htext] at heq
    have hopen := eq_parenthesis_of_toUpper
      (upper_cons_head (show upper (d :: rest) = '(' :: [] from heq) (by decide) (by decide))
    subst hopen
    have hpart := isIdentifier_mem hspelled '(' (htext ▸ List.mem_cons_self ..)
    exact absurd hpart (by decide)

end Spelling

end RayClickHouse.PredicateGrammar
