import RayClickHouse.EngineText
import RayClickHouse.ParameterLexemes

/-!
What the keyword gate of a filter keeps out. The gate follows quotes but not comments,
so it can miss a clause behind a comment that leaves a quote open, and a clause of two
words with a comment or a quoted text between them. It misses no other clause.
-/
namespace RayClickHouse.Sql

open Text Lexical TypeText FilterScan EngineScan

variable [UnicodeDatabase]

/-- A forbidden clause begins between the two texts. -/
def ClauseAt (before after : Text) : Prop := matchClause before.getLast? after = true

def ClauseFree (code : Text) : Prop :=
  ∀ before after, code = before ++ after → ¬ ClauseAt before after

/-- A clause of the masked text that the gate does not see: the quotes before it, with
those of the comments, leave one open, or its words are not separated by white space
alone. -/
def HiddenClause (value : Text) : Prop :=
  ∃ front back, Lexes value (front ++ back) ∧ ClauseAt (codeText front) (codeText back) ∧
    (quoteAfter none (plainText front) ≠ none ∨ ¬ ClauseAt (plainText front) (plainText back))

def SpacesApart : Prop := ∀ c, isSpace c = true → isWord c = false

section Clauses

variable {previous : Option Char} {words : List Text} {s t rest : Text} {c : Char}

omit [UnicodeDatabase] in
theorem matchKeyword_append {word : Text} (h : matchKeyword word s = some rest) (t : Text) :
    matchKeyword word (s ++ t) = some (rest ++ t) := by
  induction word generalizing s with
  | nil =>
    obtain rfl := Option.some.inj h
    rfl
  | cons k word ih =>
    cases s with
    | nil => contradiction
    | cons c s =>
      rw [matchKeyword] at h
      rw [List.cons_append, matchKeyword]
      split at h
      · rename_i hfold
        rw [if_pos hfold]
        exact ih h
      · contradiction

omit [UnicodeDatabase] in
theorem matchPhrase_nil (hword : ∀ w ∈ words, w ≠ []) (hne : words ≠ []) :
    matchPhrase words [] = none := by
  cases words with
  | nil => contradiction
  | cons word words =>
    obtain ⟨k, more, rfl⟩ := List.exists_cons_of_ne_nil (hword word (List.mem_cons_self ..))
    cases words <;> rfl

omit [UnicodeDatabase] in
/-- A phrase stays where it is when the text goes on. -/
theorem matchPhrase_append (hwords : ∀ w ∈ words, w ≠ []) (h : matchPhrase words s = some rest)
    (t : Text) : matchPhrase words (s ++ t) = some (rest ++ t) := by
  induction words generalizing s with
  | nil =>
    obtain rfl := Option.some.inj h
    rfl
  | cons word words ih =>
    cases words with
    | nil => exact matchKeyword_append h t
    | cons next words =>
      obtain ⟨after, hword, hrest⟩ := Option.bind_eq_some_iff.mp h
      split at hrest
      · rename_i hspace
        have hdrop : after.dropWhile isSpace ≠ [] := by
          intro hnil
          rw [hnil, matchPhrase_nil (fun w hw => hwords w (List.mem_cons_of_mem _ hw))
            (List.cons_ne_nil _ _)] at hrest
          contradiction
        have hempty : (after.dropWhile isSpace).isEmpty = false := by
          simpa [List.isEmpty_iff] using hdrop
        have hmore := ih (fun w hw => hwords w (List.mem_cons_of_mem _ hw)) hrest
        refine Option.bind_eq_some_iff.mpr ⟨after ++ t, matchKeyword_append hword t, ?_⟩
        cases after with
        | nil => contradiction
        | cons c after =>
          rw [if_pos (by simpa using hspace), List.dropWhile_append, hempty]
          exact hmore
      · contradiction

omit [UnicodeDatabase] in
theorem forbiddenClauses_words : ∀ phrase ∈ forbiddenClauses, ∀ w ∈ phrase, w ≠ [] := by
  decide

omit [UnicodeDatabase] in
theorem forbiddenClauses_ne_nil : ∀ phrase ∈ forbiddenClauses, phrase ≠ [] := by
  decide

theorem matchClause_eq_true : matchClause previous s = true ↔ isWordOption previous = false ∧
    ∃ phrase ∈ forbiddenClauses, ∃ rest, matchPhrase phrase s = some rest ∧
      isWordOption rest.head? = false := by
  simp [matchClause, Option.any_eq_true]

/-- A clause stays a clause before white space. -/
theorem matchClause_append (hspaces : SpacesApart) (h : matchClause previous s = true)
    (ht : ∀ c ∈ t, isSpace c = true) : matchClause previous (s ++ t) = true := by
  obtain ⟨hprevious, phrase, hphrase, rest, hmatch, hrest⟩ := matchClause_eq_true.mp h
  refine matchClause_eq_true.mpr ⟨hprevious, phrase, hphrase, rest ++ t,
    matchPhrase_append (forbiddenClauses_words phrase hphrase) hmatch t, ?_⟩
  cases rest with
  | cons c rest => exact hrest
  | nil =>
    cases t with
    | nil => rfl
    | cons c t => exact hspaces c (ht c (List.mem_cons_self ..))

theorem matchClause_nil : matchClause previous [] = false := by
  rw [Bool.eq_false_iff]
  intro h
  obtain ⟨-, phrase, hphrase, rest, hmatch, -⟩ := matchClause_eq_true.mp h
  rw [matchPhrase_nil (forbiddenClauses_words phrase hphrase)
    (forbiddenClauses_ne_nil phrase hphrase)] at hmatch
  contradiction

def clauseLetters : List Char := ['S', 'F', 'G', 'H', 'O', 'L', 'U', 'W', 'I', 'D', 'C']

omit [UnicodeDatabase] in
theorem forbiddenClauses_head : ∀ phrase ∈ forbiddenClauses, ∃ k more words,
    phrase = (k :: more) :: words ∧ k ∈ clauseLetters := by
  intro phrase hphrase
  have hall : forbiddenClauses.all (fun phrase =>
      (phrase.head?.bind List.head?).any clauseLetters.contains) = true := by
    decide
  have hany := List.all_eq_true.mp hall phrase hphrase
  rw [Option.any_eq_true] at hany
  obtain ⟨k, hk, hletter⟩ := hany
  obtain ⟨word, hword, hhead⟩ := Option.bind_eq_some_iff.mp hk
  obtain ⟨words, rfl⟩ := List.head?_eq_some_iff.mp hword
  obtain ⟨more, rfl⟩ := List.head?_eq_some_iff.mp hhead
  exact ⟨k, more, words, rfl, by simpa using hletter⟩

theorem matchClause_head (h : matchClause previous (c :: s) = true) :
    foldUpper c ∈ clauseLetters := by
  obtain ⟨-, phrase, hphrase, rest, hmatch, -⟩ := matchClause_eq_true.mp h
  obtain ⟨k, more, words, rfl, hk⟩ := forbiddenClauses_head phrase hphrase
  have hfold : foldUpper c = k := by
    by_contra hne
    cases words with
    | nil => simp [matchPhrase, matchKeyword, hne] at hmatch
    | cons next words => simp [matchPhrase, matchKeyword, hne] at hmatch
  rw [hfold]
  exact hk

theorem matchClause_not_quote (h : matchClause previous (c :: s) = true) :
    isQuoteChar c = false := by
  have hhead := matchClause_head h
  rw [Bool.eq_false_iff]
  intro hc
  simp only [isQuoteChar, Bool.or_eq_true, beq_iff_eq] at hc
  rcases hc with (rfl | rfl) | rfl
  · revert hhead
    decide
  · revert hhead
    decide
  · revert hhead
    decide

theorem matchClause_not_blank (h : matchClause previous (c :: s) = true) : c ≠ ' ' := by
  rintro rfl
  have hhead := matchClause_head h
  revert hhead
  decide

end Clauses

section Scan

variable {before after filter accepted : Text}

omit [UnicodeDatabase] in
theorem getLast?_cons_or (c : Char) (s : Text) (previous : Option Char) :
    (c :: s).getLast?.or previous = s.getLast?.or (some c) := by
  rw [List.getLast?_cons]
  cases s.getLast? <;> rfl

theorem containsSqlClauseFrom_inside {previous : Option Char} {q c : Char} (hescape : c ≠ '\\')
    (rest : Text) : containsSqlClauseFrom previous (some q) (c :: rest) =
      containsSqlClauseFrom (some c) (if c = q then none else some q) rest := by
  cases rest <;> simp [containsSqlClauseFrom, hescape]

/-- The scan finds a clause wherever it is outside quotes. -/
theorem containsSqlClauseFrom_clause (quote : Option Char)
    (hquote : ∀ q, quote = some q → isQuote q = true) (before : Text) :
    ∀ previous, quoteAfter quote before = none →
      matchClause (before.getLast?.or previous) after = true →
        containsSqlClauseFrom previous quote (before ++ after) = true := by
  refine quote_induction (motive := fun quote before => ∀ previous,
    quoteAfter quote before = none → matchClause (before.getLast?.or previous) after = true →
      containsSqlClauseFrom previous quote (before ++ after) = true)
    ?_ ?_ ?_ ?_ ?_ ?_ ?_ quote hquote before
  · intro quote previous hclosed hclause
    obtain rfl : quote = none := hclosed
    cases after with
    | nil => simp [matchClause_nil] at hclause
    | cons c rest =>
      have hc : isQuoteChar c = false := matchClause_not_quote hclause
      have hmatch : matchClause previous (c :: rest) = true := hclause
      simp [containsSqlClauseFrom, hc, hmatch]
  · intro q previous hclosed
    simp [quoteAfter] at hclosed
  · intro q c rest ih previous hclosed hclause
    rw [quoteAfter, if_pos rfl] at hclosed
    rw [getLast?_cons_or, getLast?_cons_or] at hclause
    simpa [containsSqlClauseFrom] using ih (some c) hclosed hclause
  · intro q rest hq ih previous hclosed hclause
    rw [quoteAfter_close hq] at hclosed
    rw [getLast?_cons_or] at hclause
    have hescape : q ≠ '\\' := by
      rintro rfl
      contradiction
    rw [List.cons_append, containsSqlClauseFrom_inside hescape, if_pos rfl]
    exact ih (some q) hclosed hclause
  · intro q c rest hescape hc ih previous hclosed hclause
    rw [quoteAfter_inside hescape hc] at hclosed
    rw [getLast?_cons_or] at hclause
    rw [List.cons_append, containsSqlClauseFrom_inside hescape, if_neg hc]
    exact ih (some c) hclosed hclause
  · intro c rest hc ih previous hclosed hclause
    rw [quoteAfter_open hc] at hclosed
    rw [getLast?_cons_or] at hclause
    have hopen : isQuoteChar c = true := hc
    simp only [List.cons_append, containsSqlClauseFrom, if_pos hopen]
    exact ih (some c) hclosed hclause
  · intro c rest hc ih previous hclosed hclause
    rw [quoteAfter_code hc] at hclosed
    rw [getLast?_cons_or] at hclause
    have hcode : ¬ isQuoteChar c = true := Bool.eq_false_iff.mp hc
    simp only [List.cons_append, containsSqlClauseFrom, if_neg hcode]
    split
    · rfl
    · exact ih (some c) hclosed hclause

theorem containsSqlClause_clause (hclosed : quoteAfter none before = none)
    (hclause : ClauseAt before after) : containsSqlClause (before ++ after) = true := by
  refine containsSqlClauseFrom_clause none (by simp) before none hclosed ?_
  rw [Option.or_none]
  exact hclause

omit [UnicodeDatabase] in
theorem quoteAfter_spaces {lead : Text} (hlead : ∀ c ∈ lead, isSpace c = true) (s : Text) :
    quoteAfter none (lead ++ s) = quoteAfter none s := by
  induction lead with
  | nil => rfl
  | cons c lead ih =>
    have hc : isQuote c = false := (quietChar_eq_true.mp
      (quietChar_of_isSpace (hlead c (List.mem_cons_self ..)))).1
    rw [List.cons_append, quoteAfter_code hc]
    exact ih fun d hd => hlead d (List.mem_cons_of_mem _ hd)

/-- White space around a text hides no clause of it. -/
theorem containsSqlClause_spaced (hspaces : SpacesApart) {lead trail : Text}
    (hlead : ∀ c ∈ lead, isSpace c = true) (htrail : ∀ c ∈ trail, isSpace c = true)
    (hclosed : quoteAfter none before = none) (hclause : ClauseAt before after) :
    containsSqlClause (lead ++ (before ++ after) ++ trail) = true := by
  have hshape : lead ++ (before ++ after) ++ trail = (lead ++ before) ++ (after ++ trail) := by simp
  have hlast : isWordOption (lead ++ before).getLast? = false := by
    have hbefore : isWordOption before.getLast? = false := (matchClause_eq_true.mp hclause).1
    cases hlastBefore : before.getLast? with
    | some c =>
      rw [hlastBefore] at hbefore
      rw [List.getLast?_append, hlastBefore]
      exact hbefore
    | none =>
      rw [List.getLast?_eq_none_iff.mp hlastBefore, List.append_nil]
      cases hlastLead : lead.getLast? with
      | none => rfl
      | some c => exact hspaces c (hlead c (List.mem_of_getLast? hlastLead))
  rw [hshape]
  apply containsSqlClause_clause
  · rw [quoteAfter_spaces hlead]
    exact hclosed
  · obtain ⟨-, hrest⟩ := matchClause_eq_true.mp (matchClause_append hspaces hclause htrail)
    exact matchClause_eq_true.mpr ⟨hlast, hrest⟩

theorem validateFilter_some (h : validateFilter (some filter) = .ok (some accepted)) :
    accepted = strip filter ∧ containsSqlClause filter = false := by
  have hstrip := validateFilter_eq_ok h
  refine ⟨Option.some.inj hstrip, ?_⟩
  unfold validateFilter at h
  simp only at h
  split at h
  · contradiction
  · split at h
    · contradiction
    · split at h
      · contradiction
      · rename_i hclause
        exact Bool.eq_false_iff.mpr hclause

end Scan

section Agreement

variable {value : Text} {ls : List Lexeme}

end Agreement

section Gate

variable {filter accepted : Text} {parameters : Bindings} {internal native : Bool}

/-- The masked text of an accepted filter is free of clauses exactly when no clause is
hidden from the gate. -/
theorem clauseFree_iff (hspaces : SpacesApart)
    (hfilter : validateFilter (some filter) = .ok (some accepted))
    (hparameters : validateFilterParameters (some accepted) parameters internal = .ok native) :
    ∃ code, queryCode accepted = .ok code ∧ (ClauseFree code ↔ ¬ HiddenClause accepted) := by
  obtain ⟨b, haccepted, -⟩ := validateFilterParameters_some hparameters
  obtain ⟨ls, hls⟩ := lexable_of_bindings haccepted.scanned
  refine ⟨codeText ls, queryCode_eq_ok.mpr ⟨ls, hls, rfl⟩, ?_⟩
  constructor
  · rintro hfree ⟨front, back, hlexes, hclause, -⟩
    obtain rfl := hls.unique hlexes
    exact hfree _ _ (codeText_append ..) hclause
  · intro hhidden before after hcode hclause
    obtain ⟨hstrip, hgate⟩ := validateFilter_some hfilter
    cases after with
    | nil =>
      have hnil : matchClause before.getLast? [] = true := hclause
      rw [matchClause_nil] at hnil
      contradiction
    | cons c after =>
      obtain ⟨front, back, rfl, rfl, rfl⟩ := codeText_split hcode (matchClause_not_blank hclause)
      have hseen : quoteAfter none (plainText front) = none ∧
          ClauseAt (plainText front) (plainText (.code c :: back)) := by
        by_contra hcon
        refine hhidden ⟨front, .code c :: back, hls, hclause, ?_⟩
        rwa [not_and_or] at hcon
      obtain ⟨lead, trail, hdecompose, hlead, htrail⟩ := strip_decompose filter
      have htext : strip filter = plainText front ++ plainText (.code c :: back) := by
        rw [← hstrip, hls.text, plainText_append]
      rw [htext] at hdecompose
      have hfound := containsSqlClause_spaced hspaces hlead htrail hseen.1 hseen.2
      rw [← hdecompose, hgate] at hfound
      contradiction

end Gate

section Example

omit [UnicodeDatabase]

theorem asciiDatabase_spacesApart : @SpacesApart asciiDatabase := by
  intro c hc
  rw [Bool.eq_false_iff]
  intro hword
  have hpart : isIdentPart c = true := by
    rw [isIdentPart, Bool.or_eq_true]
    rcases Bool.or_eq_true_iff.mp hword with halnum | hunderscore
    · exact Or.inl (Bool.and_eq_true_iff.mp halnum).2
    · exact Or.inr hunderscore
  rw [Ddl.isSpace_of_isIdentPart hpart] at hc
  contradiction

def shieldedSelect : Text := "a = 1 /* ' */ AND b IN (SELECT 1) /* ' */".toList

theorem shieldedSelect_clause : ∃ code, queryCode shieldedSelect = .ok code ∧
    (@ClauseFree asciiDatabase code ↔ ¬ @HiddenClause asciiDatabase shieldedSelect) := by
  have hfilter : Outcome.check (@validateFilter asciiDatabase (some shieldedSelect))
      (fun filter => filter == some shieldedSelect) = true := by
    decide +kernel
  have hparameters : Outcome.check (@validateFilterParameters asciiDatabase
      (some shieldedSelect) [] false) (fun native => native == false) = true := by
    decide +kernel
  obtain ⟨_, hfilter, heq⟩ := Outcome.check_eq_true.mp hfilter
  obtain ⟨native, hparameters, -⟩ := Outcome.check_eq_true.mp hparameters
  rw [eq_of_beq heq] at hfilter
  exact @clauseFree_iff asciiDatabase _ _ _ _ _ asciiDatabase_spacesApart hfilter hparameters

example : Outcome.check (queryCode shieldedSelect)
    (fun code => code == "a = 1         AND b IN (SELECT 1)        ".toList) = true := by
  decide +kernel

end Example

end RayClickHouse.Sql
