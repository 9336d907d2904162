import RayClickHouse.FilterSegments
import RayClickHouse.Predicates

/-!
The text the connector generates around a filter. It is a sequence of plain
text, quoted columns before a space and placeholders, in the spelling of the
chosen protocol. What the driver finds in such a text is what its placeholders say.
-/
namespace RayClickHouse

open Text Lexical FilterScan Schema Predicates

def plainChar (c : Char) : Bool := isIdentPart c || " (),<>=!".toList.contains c

inductive Fragment
  | plain (text : Text)
  | column (name : Text)
  | parameter (name type : Text)
  deriving DecidableEq, Repr

namespace Fragment

def text (native : Bool) : Fragment → Text
  | plain t => t
  | column name => quoted name ++ " ".toList
  | parameter name type => placeholder native name type

def WellFormed : Fragment → Prop
  | plain t => t.all plainChar = true
  | column name => isIdentifier name = true
  | parameter name type => isIdentifier name = true ∧ isIdentifier type = true

def parameterName? : Fragment → Option Text
  | parameter name _ => some name
  | _ => none

end Fragment

/-- A text made of well-formed fragments, with the names of its placeholders in order. -/
def Generated (native : Bool) (text : Text) (names : List Text) : Prop :=
  ∃ fragments : List Fragment, text = fragments.flatMap (Fragment.text native) ∧
    names = fragments.filterMap Fragment.parameterName? ∧ ∀ f ∈ fragments, f.WellFormed

namespace Generated

variable (native : Bool)

theorem nil : Generated native [] [] := ⟨[], rfl, rfl, by simp⟩

theorem plain (t : Text) (h : t.all plainChar = true) : Generated native t [] :=
  ⟨[.plain t], by simp [Fragment.text], rfl, by simpa [Fragment.WellFormed] using h⟩

theorem column (name : Text) (h : isIdentifier name = true) :
    Generated native (quoted name ++ " ".toList) [] :=
  ⟨[.column name], by simp [Fragment.text], rfl, by simpa [Fragment.WellFormed] using h⟩

theorem parameter (name type : Text) (hname : isIdentifier name = true)
    (htype : isIdentifier type = true) :
    Generated native (placeholder native name type) [name] :=
  ⟨[.parameter name type], by simp [Fragment.text], rfl,
    by simpa [Fragment.WellFormed] using ⟨hname, htype⟩⟩

variable {native}

theorem append {s t : Text} {ms ns : List Text} (hs : Generated native s ms)
    (ht : Generated native t ns) : Generated native (s ++ t) (ms ++ ns) := by
  obtain ⟨fs, rfl, rfl, hfs⟩ := hs
  obtain ⟨gs, rfl, rfl, hgs⟩ := ht
  refine ⟨fs ++ gs, by simp, by simp, ?_⟩
  intro f hf
  rcases List.mem_append.mp hf with hf | hf
  · exact hfs f hf
  · exact hgs f hf

end Generated

section Scan

theorem quote_not_identPart {name : Text} (h : isIdentifier name = true) :
    '`' ∉ name ∧ '\\' ∉ name :=
  ⟨isIdentifier_not_mem h (by decide), isIdentifier_not_mem h (by decide)⟩

/-- A quoted text without its quote and without escapes is closed where it ends. -/
theorem scanQuote_plain {q : Char} {body after : Text} (hbody : q ∉ body) (hescape : '\\' ∉ body)
    (hq : q ≠ '\\') (hafter : after.head? ≠ some q) :
    scanQuote q (body ++ q :: after) = some (body ++ [q], after) := by
  induction body with
  | nil =>
    cases after with
    | nil => simp [scanQuote, hq]
    | cons d rest =>
      have hd : d ≠ q := by simpa using hafter
      simp [scanQuote, hq, hd]
  | cons c body ih =>
    simp only [List.mem_cons, not_or] at hbody hescape
    have hrest := ih hbody.2 hescape.2
    have hc : c ≠ '\\' := Ne.symm hescape.1
    have hcq : c ≠ q := Ne.symm hbody.1
    cases body with
    | nil =>
      simp only [List.nil_append, List.cons_append] at hrest ⊢
      simp [scanQuote, hc, hcq, hrest]
    | cons d body =>
      simp only [List.cons_append] at hrest ⊢
      simp [scanQuote, hc, hcq, hrest]

/-- A quoted column is one lexeme unless a backquote follows it. -/
theorem nextLexeme_quoted {name after : Text} (h : isIdentifier name = true)
    (hafter : after.head? ≠ some '`') :
    nextLexeme '`' (name ++ '`' :: after) = .ok (.quoted (quoted name), after) := by
  obtain ⟨hquote, hescape⟩ := quote_not_identPart h
  unfold nextLexeme
  rw [if_pos (by decide), scanQuote_plain hquote hescape (by decide) hafter]
  simp [quoted]

theorem nextLexeme_plain {c : Char} (h : plainChar c = true) (rest : Text) :
    nextLexeme c rest = .ok (.code c, rest) := by
  have hne : ∀ d : Char, plainChar d = false → c ≠ d := by
    rintro d hd rfl
    rw [h] at hd
    contradiction
  have hquote : isQuoteChar c = false := by
    simp [isQuoteChar, hne '\'' (by decide), hne '"' (by decide), hne '`' (by decide)]
  have hline : startsLineComment c rest = false := by
    simp [startsLineComment, hne '-' (by decide), hne '#' (by decide)]
  unfold nextLexeme
  rw [if_neg (by simp [hquote]), if_neg (by simp [hne '/' (by decide)]), if_neg (by simp [hline])]

theorem nextSegment_plain {c : Char} (h : plainChar c = true) (rest : Text) :
    nextSegment c rest = .ok (.plain c, rest) := by
  have hpercent : c ≠ '%' := by
    rintro rfl
    revert h
    decide
  have hbrace : c ≠ '{' := by
    rintro rfl
    revert h
    decide
  unfold nextSegment
  rw [nextLexeme_plain h]
  simp only [nextCode, @matchParameter_plain c rest (fun hp => hpercent hp.1),
    if_neg hbrace, hpercent, false_and, if_false]

theorem nextLexeme_percent (rest : Text) : nextLexeme '%' rest = .ok (.code '%', rest) := by
  unfold nextLexeme
  rw [if_neg (by decide), if_neg (by simp), if_neg (by simp [startsLineComment])]

theorem nextLexeme_brace (rest : Text) : nextLexeme '{' rest = .ok (.code '{', rest) := by
  unfold nextLexeme
  rw [if_neg (by decide), if_neg (by simp), if_neg (by simp [startsLineComment])]

end Scan

section Compiled

/-- The name of a scalar type is an identifier. -/
theorem isIdentifier_scalarName (t : ScalarType) : isIdentifier t.name = true := by
  cases t with
  | integer t =>
    obtain ⟨signed, width⟩ := t
    cases signed <;> cases width <;> decide
  | bool => decide
  | string => decide

theorem isIdentPart_digit {c : Char} (h : c.isDigit = true) : isIdentPart c = true := by
  simp [isIdentPart, Char.isAlphanum, h]

theorem isIdentifier_append {s t : Text} (hs : isIdentifier s = true)
    (ht : ∀ c ∈ t, isIdentPart c = true) : isIdentifier (s ++ t) = true := by
  cases s with
  | nil => simp [isIdentifier] at hs
  | cons c rest =>
    simp only [isIdentifier, Bool.and_eq_true, List.all_eq_true] at hs
    simp only [List.cons_append, isIdentifier, hs.1, Bool.true_and, List.all_append,
      Bool.and_eq_true, List.all_eq_true]
    exact ⟨hs.2, ht⟩

theorem ofNat_identPart (n : ℕ) : ∀ c ∈ ofNat n, isIdentPart c = true := by
  intro c hc
  exact isIdentPart_digit (Nat.isDigit_of_mem_toDigits (by omega) (by omega) hc)

/-- A numbered name with an identifier before the number is an identifier. -/
theorem isIdentifier_numbered {start : Text} (h : isIdentifier start = true) (n : ℕ) :
    isIdentifier (start ++ ofNat n) = true := isIdentifier_append h (ofNat_identPart n)

theorem isIdentifier_expressionName (n : ℕ) : isIdentifier (expressionName n) = true :=
  isIdentifier_numbered (by decide) n

theorem plainChar_symbol (c : Comparison) : c.symbol.all plainChar = true := by
  cases c <;> decide

variable {native : Bool} {schema : SchemaPlan}

theorem generated_bind {value : Value} {declared : ScalarType} {dtype : ArrowType}
    {op : Comparison} {s s' : CompileState} {bound : Text}
    (h : Predicates.bind native value declared dtype op s = .ok (bound, s')) :
    ∃ names, Generated native bound names ∧
      s'.parameters.names = s.parameters.names ++ names := by
  obtain ⟨_, hbound, hparameters, _⟩ := bind_eq_ok h
  refine ⟨[expressionName s.parameters.length], ?_, by simp [hparameters, Bindings.names]⟩
  rw [hbound]
  exact .parameter _ _ _ (isIdentifier_expressionName _) (isIdentifier_scalarName declared)

theorem generated_comparison {c : Comparison} {column : PredicateNode} {value : Value}
    {s s' : CompileState} {sql : Text}
    (h : renderComparison native schema c column value s = .ok (sql, s')) :
    ∃ names, Generated native sql names ∧
      s'.parameters.names = s.parameters.names ++ names := by
  obtain ⟨name, declared, dtype, bound, hcolumn, hbind, rfl⟩ := renderComparison_eq_ok h
  obtain ⟨names, hbound, hnames⟩ := generated_bind hbind
  refine ⟨names, ?_, by simpa using hnames⟩
  have hcol := Generated.column native _ (columnType_eq_ok hcolumn).1
  have hopen := Generated.plain native "(".toList (by decide)
  have hspace := Generated.plain native " ".toList (by decide)
  have hclose := Generated.plain native ")".toList (by decide)
  have hsymbol := Generated.plain native c.symbol (plainChar_symbol c)
  simpa using ((((hopen.append hcol).append hsymbol).append hspace).append hbound).append hclose

/-- Rendering only writes fragments, and binds their placeholders in order. -/
theorem generated_of_renders {node : PredicateNode} {s s' : CompileState} {sql : Text}
    (h : Renders native schema node s sql s') :
    ∃ names, Generated native sql names ∧
      s'.parameters.names = s.parameters.names ++ names := by
  have hopen := Generated.plain native "(".toList (by decide)
  have hclose := Generated.plain native ")".toList (by decide)
  induction h with
  | and _ _ ihl ihr =>
    obtain ⟨ms, hl, hms⟩ := ihl
    obtain ⟨ns, hr, hns⟩ := ihr
    refine ⟨ms ++ ns, ?_, by rw [hns, hms]; simp⟩
    have hand := Generated.plain native " AND ".toList (by decide)
    simpa using (((hopen.append hl).append hand).append hr).append hclose
  | or _ _ ihl ihr =>
    obtain ⟨ms, hl, hms⟩ := ihl
    obtain ⟨ns, hr, hns⟩ := ihr
    refine ⟨ms ++ ns, ?_, by rw [hns, hms]; simp⟩
    have hor := Generated.plain native " OR ".toList (by decide)
    simpa using (((hopen.append hl).append hor).append hr).append hclose
  | not _ ih =>
    obtain ⟨names, hc, hnames⟩ := ih
    refine ⟨names, ?_, by simpa using hnames⟩
    have hnot := Generated.plain native "(NOT ".toList (by decide)
    simpa using (hnot.append hc).append hclose
  | isNull hcolumn =>
    have hcol := Generated.column native _ (columnType_eq_ok hcolumn).1
    have hnull := Generated.plain native "IS NULL)".toList (by decide)
    exact ⟨[], by simpa using (hopen.append hcol).append hnull, by simp⟩
  | isNotNull hcolumn =>
    have hcol := Generated.column native _ (columnType_eq_ok hcolumn).1
    have hnull := Generated.plain native "IS NOT NULL)".toList (by decide)
    exact ⟨[], by simpa using (hopen.append hcol).append hnull, by simp⟩
  | column hcolumn hbind =>
    obtain ⟨names, hbound, hnames⟩ := generated_bind hbind
    refine ⟨names, ?_, by simpa using hnames⟩
    have hcol := Generated.column native _ (columnType_eq_ok hcolumn).1
    have heq := Generated.plain native "= ".toList (by decide)
    simpa using (((hopen.append hcol).append heq).append hbound).append hclose
  | literalFirst h =>
    obtain ⟨names, hsql, hnames⟩ := generated_comparison h
    exact ⟨names, hsql, by simpa using hnames⟩
  | columnFirst h =>
    obtain ⟨names, hsql, hnames⟩ := generated_comparison h
    exact ⟨names, hsql, by simpa using hnames⟩

/-- A compiled predicate is generated text that mentions exactly its parameters. -/
theorem generated_of_compiled {p : CompiledPredicate} (h : Compiled p) :
    Generated p.native p.sql p.parameters.names := by
  obtain ⟨node, schema, state, hrenders, hparameters, _⟩ := h.renders
  obtain ⟨names, hgenerated, hnames⟩ := generated_of_renders hrenders
  have hall : state.parameters.names = names := hnames
  rw [hparameters, hall]
  exact hgenerated

end Compiled

end RayClickHouse
