import RayClickHouse.ConnectiveFrames
import RayClickHouse.PredicateTerminals
import RayClickHouse.Predicates
import RayClickHouse.TokenStreams

/-!
The pieces the predicate compiler writes, as the recogniser reads them: brackets,
keywords, quoted columns, comparison symbols and placeholders are one token each,
and a text that reads as a term does so inside any connective.
-/
namespace RayClickHouse.PredicateReading

open Text FilterScan Schema Connectives PredicateTokens PredicateColumns PredicateGrammar
open Predicates (Comparison)

section Tokens

variable [UnicodeDatabase]

/-- The text of a token is read as that token in front of the rest. -/
theorem tokens_taken {a : Alternative} {t : Token} {rest : Text} (hkind : t.kind = a.kind)
    (h : a.takes (t.text ++ rest) = some (t.text, rest))
    (hhead : ∀ c, t.text.head? = some c → isSpace c = false) :
    tokens (t.text ++ rest) = (t :: ·) <$> tokens rest := by
  obtain ⟨-, hne⟩ := Alternative.takes_spec h
  obtain ⟨c, w, hw⟩ := List.exists_cons_of_ne_nil hne
  have hw : t.text = c :: w := hw
  have hc : isSpace c = false := hhead c (by rw [hw]; rfl)
  have htoken : tokenAt (c :: (w ++ rest)) = some (t, rest) := by
    rw [← List.cons_append, ← hw]
    rw [hw] at h ⊢
    have hof := ofHead_takes h
    refine tokenAt_eq_some.mpr ⟨?_, ?_⟩
    · rw [hof, hkind]
    · rw [hof, hw]
      exact h
  rw [hw, List.cons_append]
  exact tokens_token hc htoken

def symbolToken (symbol : Text) (h : symbol ∈ symbols) : Token := ⟨.symbol, symbol, h⟩

def wordToken (word : Text) (h : isIdentifier word = true) : Token := ⟨.word, word, h⟩

def nameToken (name : Text) : Token := ⟨.quoted, quoted name, Or.inl rfl⟩

omit [UnicodeDatabase] in
theorem placeholder_head (native : Bool) (name type : Text) :
    (placeholder native name type).head? = some '%' ∨
      (placeholder native name type).head? = some '{' := by
  cases native with
  | false => exact Or.inl rfl
  | true => exact Or.inr rfl

def boundToken (native : Bool) (name type : Text) : Token :=
  ⟨.parameter, placeholder native name type, placeholder_head native name type⟩

theorem tokens_word {word : Text} (h : isIdentifier word = true) {rest : Text}
    (hrest : ∀ c, rest.head? = some c → isIdentPart c = false) :
    tokens (word ++ rest) = (wordToken word h :: ·) <$> tokens rest := by
  apply tokens_taken (t := wordToken word h) (a := .word) rfl
  · exact matchWord_eq_some.mpr ⟨rfl, h, hrest⟩
  · intro c hc
    exact Ddl.isSpace_of_isIdentPart (isIdentifier_mem h c (List.mem_of_mem_head? hc))

omit [UnicodeDatabase] in
theorem quoting_name {name : Text} (h : ∀ c ∈ name, c ≠ '`' ∧ c ≠ '\\') {rest : Text}
    (hrest : rest.head? ≠ some '`') :
    Quoting '`' (name ++ '`' :: rest) (name ++ ['`'], rest) := by
  induction name with
  | nil =>
    apply Quoting.close
    intro hhead
    exact absurd hhead hrest
  | cons c name ih =>
    obtain ⟨hquote, hslash⟩ := h c (List.mem_cons_self ..)
    exact .step hquote hslash (ih fun d hd => h d (List.mem_cons_of_mem _ hd))

omit [UnicodeDatabase] in
/-- No character of an identifier quotes or escapes. -/
theorem identifier_unquoted {name : Text} (h : isIdentifier name = true) :
    ∀ c ∈ name, c ≠ '`' ∧ c ≠ '"' ∧ c ≠ '\\' := by
  intro c hc
  have hpart := isIdentifier_mem h c hc
  refine ⟨?_, ?_, ?_⟩ <;>
  · rintro rfl
    exact absurd hpart (by decide)

theorem tokens_column {name : Text} (h : isIdentifier name = true) {rest : Text}
    (hrest : rest.head? ≠ some '`') :
    tokens (quoted name ++ rest) = (nameToken name :: ·) <$> tokens rest := by
  apply tokens_taken (t := nameToken name) (a := .backquoted) rfl
  · have hname : ∀ c ∈ name, c ≠ '`' ∧ c ≠ '\\' := by
      intro c hc
      obtain ⟨hback, -, hslash⟩ := identifier_unquoted h c hc
      exact ⟨hback, hslash⟩
    have hshape : quoted name ++ rest = '`' :: (name ++ '`' :: rest) := by simp [quoted]
    show matchQuote '`' (quoted name ++ rest) = _
    rw [hshape]
    exact matchQuote_eq_some.mpr ⟨_, _, rfl, quoting_name hname hrest, rfl⟩
  · intro c hc
    cases hc
    decide

theorem tokens_placeholder (native : Bool) {name type : Text} (hname : isIdentifier name = true)
    (hne : type ≠ []) (htype : ∀ c ∈ type, notBrace c = true) (rest : Text) :
    tokens (placeholder native name type ++ rest) =
      (boundToken native name type :: ·) <$> tokens rest := by
  cases native with
  | false =>
    apply tokens_taken (t := boundToken false name type) (a := .client) rfl
    · exact matchClient_eq_some.mpr ⟨name, rest, rfl, hname, rfl⟩
    · intro c hc
      cases hc
      decide
  | true =>
    apply tokens_taken (t := boundToken true name type) (a := .typed) rfl
    · have hshape : serverPlaceholder name type = typedPlaceholder name [] type := by
        simp [serverPlaceholder, typedPlaceholder]
      show matchTyped (serverPlaceholder name type ++ rest) =
        some (serverPlaceholder name type, rest)
      rw [hshape]
      exact matchTyped_eq_some.mpr
        ⟨name, [], type, rest, rfl, hname, by simp, hne, htype, rfl⟩
    · intro c hc
      cases hc
      decide

omit [UnicodeDatabase] in
theorem matchSymbol_bracket {c : Char} (hc : c = '(' ∨ c = ')') (rest : Text) :
    matchSymbol (c :: rest) = some ([c], rest) := by
  rcases hc with rfl | rfl <;> simp [matchSymbol, symbols, List.isPrefixOf]

omit [UnicodeDatabase] in
theorem matchSymbol_comparison (c : Comparison) (rest : Text) :
    matchSymbol (c.symbol ++ ' ' :: rest) = some (c.symbol, ' ' :: rest) := by
  cases c <;> simp [matchSymbol, symbols, List.isPrefixOf, Comparison.symbol]

omit [UnicodeDatabase] in
theorem opening_symbol : ['('] ∈ symbols := by decide

omit [UnicodeDatabase] in
theorem closing_symbol : [')'] ∈ symbols := by decide

omit [UnicodeDatabase] in
theorem comparison_symbol (c : Comparison) : c.symbol ∈ symbols := by
  cases c <;> decide

def openToken : Token := symbolToken ['('] opening_symbol

def closeToken : Token := symbolToken [')'] closing_symbol

theorem tokens_opening (rest : Text) : tokens ('(' :: rest) = (openToken :: ·) <$> tokens rest := by
  apply tokens_taken (t := openToken) (a := .symbol) rfl
  · exact matchSymbol_bracket (Or.inl rfl) rest
  · intro c hc
    cases hc
    decide

theorem tokens_closing (rest : Text) : tokens (')' :: rest) = (closeToken :: ·) <$> tokens rest := by
  apply tokens_taken (t := closeToken) (a := .symbol) rfl
  · exact matchSymbol_bracket (Or.inr rfl) rest
  · intro c hc
    cases hc
    decide

theorem tokens_comparison (c : Comparison) (rest : Text) :
    tokens (c.symbol ++ ' ' :: rest) =
      (symbolToken c.symbol (comparison_symbol c) :: ·) <$> tokens (' ' :: rest) := by
  apply tokens_taken (t := symbolToken c.symbol (comparison_symbol c)) (a := .symbol) rfl
  · exact matchSymbol_comparison c rest
  · intro d hd
    have hd : c.symbol.head? = some d := hd
    cases c <;>
    · cases hd
      decide

end Tokens

section Spelt

variable [UnicodeDatabase]

/-- A text is read as these tokens, whatever follows it. -/
def Spelt (text : Text) (ts : List Token) : Prop :=
  ∀ rest, tokens (text ++ rest) = (ts ++ ·) <$> tokens rest

variable {text text' : Text} {ts us : List Token}

theorem Spelt.nil : Spelt [] [] := by
  intro rest
  rw [List.nil_append]
  cases tokens rest <;> rfl

theorem Spelt.append (h : Spelt text ts) (h' : Spelt text' us) :
    Spelt (text ++ text') (ts ++ us) := by
  intro rest
  rw [List.append_assoc, h, h']
  cases tokens rest with
  | error e => rfl
  | ok vs => exact congrArg Except.ok (List.append_assoc ts us vs).symm

/-- A token before a text whose tokens are known. -/
theorem Spelt.cons {t : Token} (h : Spelt text' us)
    (hfirst : ∀ rest, tokens (text ++ (text' ++ rest)) = (t :: ·) <$> tokens (text' ++ rest)) :
    Spelt (text ++ text') (t :: us) := by
  intro rest
  rw [List.append_assoc, hfirst, h]
  cases tokens rest <;> rfl

theorem Spelt.space (h : Spelt text ts) : Spelt (' ' :: text) ts := by
  intro rest
  rw [List.cons_append, tokens_space (by decide)]
  exact h rest

theorem Spelt.opened : Spelt ['('] [openToken] := by
  intro rest
  rw [List.singleton_append, tokens_opening]
  cases tokens rest <;> rfl

theorem Spelt.closed : Spelt [')'] [closeToken] := by
  intro rest
  rw [List.singleton_append, tokens_closing]
  cases tokens rest <;> rfl

theorem Spelt.word {word : Text} (hword : isIdentifier word = true) {c : Char}
    (hc : isIdentPart c = false) (h : Spelt (c :: text) ts) :
    Spelt (word ++ c :: text) (wordToken word hword :: ts) := by
  apply Spelt.cons h
  intro rest
  apply tokens_word hword
  intro d hd
  cases hd
  exact hc

theorem Spelt.column {name : Text} (hname : isIdentifier name = true) (h : Spelt (' ' :: text) ts) :
    Spelt (quoted name ++ ' ' :: text) (nameToken name :: ts) := by
  apply Spelt.cons h
  intro rest
  exact tokens_column hname (by simp)

theorem Spelt.comparison (c : Comparison) (h : Spelt (' ' :: text) ts) :
    Spelt (c.symbol ++ ' ' :: text) (symbolToken c.symbol (comparison_symbol c) :: ts) := by
  apply Spelt.cons h
  intro rest
  exact tokens_comparison c _

theorem Spelt.placeholder (native : Bool) {name type : Text} (hname : isIdentifier name = true)
    (hne : type ≠ []) (htype : ∀ c ∈ type, notBrace c = true) :
    Spelt (placeholder native name type) [boundToken native name type] := by
  intro rest
  rw [tokens_placeholder native hname hne htype]
  cases tokens rest <;> rfl

end Spelt

section Keywords

variable [UnicodeDatabase]

omit [UnicodeDatabase] in
theorem keyword_identifier {word : String}
    (h : word ∈ ["AND", "OR", "NOT", "IS", "NULL"]) : isIdentifier word.toList = true := by
  simp only [List.mem_cons, List.not_mem_nil, or_false] at h
  rcases h with rfl | rfl | rfl | rfl | rfl <;> decide

def keyword (word : String) (h : word ∈ ["AND", "OR", "NOT", "IS", "NULL"]) : Token :=
  wordToken word.toList (keyword_identifier h)

theorem spells_keyword {word : String} (h : word ∈ ["AND", "OR", "NOT", "IS", "NULL"]) :
    spells word (keyword word h) = true := by
  apply spells_iff.mpr
  simp only [List.mem_cons, List.not_mem_nil, or_false] at h
  rcases h with rfl | rfl | rfl | rfl | rfl <;> rfl

theorem role_opening : role openToken = .opening := rfl

theorem role_closing : role closeToken = .closing := rfl

omit [UnicodeDatabase] in
theorem and_keyword : "AND" ∈ ["AND", "OR", "NOT", "IS", "NULL"] := by decide

omit [UnicodeDatabase] in
theorem or_keyword : "OR" ∈ ["AND", "OR", "NOT", "IS", "NULL"] := by decide

omit [UnicodeDatabase] in
theorem not_keyword : "NOT" ∈ ["AND", "OR", "NOT", "IS", "NULL"] := by decide

omit [UnicodeDatabase] in
theorem is_keyword : "IS" ∈ ["AND", "OR", "NOT", "IS", "NULL"] := by decide

omit [UnicodeDatabase] in
theorem null_keyword : "NULL" ∈ ["AND", "OR", "NOT", "IS", "NULL"] := by decide

theorem role_and : role (keyword "AND" and_keyword) = .conjoin := rfl

theorem role_or : role (keyword "OR" or_keyword) = .disjoin := rfl

theorem role_not : role (keyword "NOT" not_keyword) = .negate := rfl

theorem Spelt.keyword {word : String} (hword : word ∈ ["AND", "OR", "NOT", "IS", "NULL"])
    {text : Text} {ts : List Token} {c : Char} (hc : isIdentPart c = false)
    (h : Spelt (c :: text) ts) :
    Spelt (word.toList ++ c :: text) (PredicateReading.keyword word hword :: ts) :=
  Spelt.word (keyword_identifier hword) hc h

theorem Spelt.and : Spelt " AND ".toList [PredicateReading.keyword "AND" and_keyword] := by
  have h := (Spelt.keyword and_keyword (by decide) Spelt.nil.space).space
  exact h

theorem Spelt.or : Spelt " OR ".toList [PredicateReading.keyword "OR" or_keyword] := by
  have h := (Spelt.keyword or_keyword (by decide) Spelt.nil.space).space
  exact h

theorem Spelt.negation : Spelt "(NOT ".toList
    [openToken, PredicateReading.keyword "NOT" not_keyword] := by
  have h := Spelt.opened.append (Spelt.keyword not_keyword (by decide) Spelt.nil.space)
  exact h

def nullTokens (negated : Bool) : List Token :=
  keyword "IS" is_keyword ::
    ((if negated then [keyword "NOT" not_keyword] else []) ++ [keyword "NULL" null_keyword])

theorem Spelt.isNull : Spelt " IS NULL)".toList (nullTokens false ++ [closeToken]) := by
  have hnull := Spelt.keyword null_keyword (by decide) Spelt.closed
  have h := (Spelt.keyword is_keyword (by decide) hnull.space).space
  exact h

theorem Spelt.isNotNull : Spelt " IS NOT NULL)".toList (nullTokens true ++ [closeToken]) := by
  have hnull := Spelt.keyword null_keyword (by decide) Spelt.closed
  have hnot := Spelt.keyword not_keyword (by decide) hnull.space
  have h := (Spelt.keyword is_keyword (by decide) hnot.space).space
  exact h

end Keywords

section Terms

variable [UnicodeDatabase] {columns : List TargetColumn}

/-- Whatever the recogniser of a comparison reads, it reads in front of any text. -/
theorem reader_steady (columns : List TargetColumn) : (reader columns).Steady where
  consumes := by
    intro ts a rest h
    obtain ⟨used, hsplit, hatomic⟩ := comparison_sound h
    refine ⟨used, ?_, hsplit⟩
    cases hatomic <;> simp
  extended := by
    intro ts a rest extra h
    obtain ⟨used, rfl, hatomic⟩ := comparison_sound h
    rw [List.append_assoc]
    exact comparison_complete hatomic (rest ++ extra)

/-- A text that reads as a term within a bound, whatever follows it. -/
def TermText (columns : List TargetColumn) (depth : ℕ) (text : Text) (f : Formula Condition) :
    Prop :=
  ∃ ts, Spelt text ts ∧ (reader columns).ReadsAs depth f ts .term

variable {depth : ℕ} {text left right : Text} {f g : Formula Condition}

theorem TermText.deeper (h : TermText columns depth text f) {deeper : ℕ} (hle : depth ≤ deeper) :
    TermText columns deeper text f := by
  obtain ⟨ts, hspelt, hread⟩ := h
  exact ⟨ts, hspelt, hread.deeper hle⟩

theorem Spelt.group {ts : List Token} (h : Spelt text ts) :
    Spelt ("(".toList ++ text ++ ")".toList) (openToken :: (ts ++ [closeToken])) := by
  have hgroup := (Spelt.opened.append h).append Spelt.closed
  rwa [List.append_assoc] at hgroup

theorem TermText.conj (hf : TermText columns depth left f) (hg : TermText columns depth right g) :
    TermText columns (depth + 1)
      ("(".toList ++ left ++ " AND ".toList ++ right ++ ")".toList) (.conj f g) := by
  obtain ⟨ls, hleft, hf⟩ := hf
  obtain ⟨rs, hright, hg⟩ := hg
  refine ⟨openToken :: ((ls ++ keyword "AND" and_keyword :: rs) ++ [closeToken]), ?_, ?_⟩
  · have hspelt := ((hleft.append Spelt.and).append hright).group
    simpa only [List.append_assoc, List.singleton_append] using hspelt
  · apply Reader.ReadsAs.group role_opening role_closing
    intro rest hstops
    rw [List.append_assoc, List.cons_append]
    exact Reader.ReadsAs.conjunction (reader_steady columns) role_and hf hg hstops

theorem TermText.disj (hf : TermText columns depth left f) (hg : TermText columns depth right g) :
    TermText columns (depth + 1)
      ("(".toList ++ left ++ " OR ".toList ++ right ++ ")".toList) (.disj f g) := by
  obtain ⟨ls, hleft, hf⟩ := hf
  obtain ⟨rs, hright, hg⟩ := hg
  refine ⟨openToken :: ((ls ++ keyword "OR" or_keyword :: rs) ++ [closeToken]), ?_, ?_⟩
  · have hspelt := ((hleft.append Spelt.or).append hright).group
    simpa only [List.append_assoc, List.singleton_append] using hspelt
  · apply Reader.ReadsAs.group role_opening role_closing
    intro rest hstops
    rw [List.append_assoc, List.cons_append]
    exact Reader.ReadsAs.disjunction (reader_steady columns) role_or hf hg hstops

theorem TermText.neg (hf : TermText columns depth text f) :
    TermText columns (depth + 2) ("(NOT ".toList ++ text ++ ")".toList) (.neg f) := by
  obtain ⟨ts, hspelt, hf⟩ := hf
  refine ⟨openToken :: ((keyword "NOT" not_keyword :: ts) ++ [closeToken]), ?_, ?_⟩
  · exact (Spelt.negation.append hspelt).append Spelt.closed
  · apply Reader.ReadsAs.group role_opening role_closing
    intro rest hstops
    exact Reader.ReadsAs.expression (hf.negation role_not) hstops

/-- A comparison between brackets. -/
theorem TermText.atomic {ts : List Token} {a : Condition}
    (hspelt : Spelt (text ++ ")".toList) (ts ++ [closeToken])) (h : Atomic (accepted columns) a ts)
    (hhead : ∀ t, ts.head? = some t → role t ≠ .negate ∧ role t ≠ .opening) :
    TermText columns 2 ("(".toList ++ (text ++ ")".toList)) (.leaf a) := by
  refine ⟨openToken :: (ts ++ [closeToken]), Spelt.opened.append hspelt, ?_⟩
  apply Reader.ReadsAs.group role_opening role_closing
  intro rest hstops
  refine Reader.ReadsAs.expression ?_ hstops
  intro after
  have hread := comparison_complete h after
  obtain ⟨t, us, rfl⟩ : ∃ t us, ts = t :: us := by
    cases h <;> exact ⟨_, _, rfl⟩
  obtain ⟨hneg, hopen⟩ := hhead t rfl
  rw [List.cons_append, Reader.term_leaf (reader columns) hneg hopen, ← List.cons_append]
  exact Reader.leafAt_eq_ok.mpr ⟨a, hread, rfl⟩

/-- A whole text that is read may stand between brackets. -/
theorem TermText.whole {ts : List Token} (htokens : tokens text = .ok ts)
    (h : (reader columns).expression depth ts = .ok (f, [])) :
    TermText columns (depth + 1) ("(".toList ++ text ++ ")".toList) f := by
  refine ⟨openToken :: (ts ++ [closeToken]), ?_,
    Reader.ReadsAs.whole (reader_steady columns) role_opening role_closing h⟩
  intro rest
  have hshape : "(".toList ++ text ++ ")".toList ++ rest = '(' :: (text ++ ')' :: rest) := by simp
  rw [hshape, tokens_opening, tokens_behind htokens, tokens_closing]
  cases tokens rest with
  | error e => rfl
  | ok us => simp

end Terms

end RayClickHouse.PredicateReading
