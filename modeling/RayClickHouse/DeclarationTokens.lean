import RayClickHouse.DeclarationKey

/-!
The tokens of a declaration that is laid out. Where no quoted text escapes a line feed
they are its lexemes; where one does, a quote stands among them as a token of its own.
-/
namespace RayClickHouse.DeclarationKey

open Text TypeText PredicateTokens

section Parts

variable {q : Char} {rest : Text}

def breaks : LiteralPart q → Bool
  | .escaped c => c == '\n'
  | _ => false

def partsText (pieces : List (LiteralPart q)) : Text := pieces.flatMap LiteralPart.text

theorem partsText_cons (piece : LiteralPart q) (pieces : List (LiteralPart q)) :
    partsText (piece :: pieces) = piece.text ++ partsText pieces := rfl

theorem literal_text (l : Literal) : l.text = l.quote :: (partsText l.parts ++ [l.quote]) := rfl

/-- Without an escaped line feed the pattern reads up to the closing quote. -/
theorem quotedRest_parts (hq : q ≠ '\\') {pieces : List (LiteralPart q)}
    (hclean : pieces.any breaks = false) (hrest : rest.head? ≠ some q) :
    quotedRest q (partsText pieces ++ q :: rest) = some (partsText pieces ++ [q], rest) := by
  induction pieces with
  | nil => exact quotedRest_close hrest
  | cons piece pieces ih =>
    rw [List.any_cons, Bool.or_eq_false_iff] at hclean
    have hread := ih hclean.2
    rw [partsText_cons, List.append_assoc]
    cases piece with
    | plain c h =>
      show quotedRest q (c :: (partsText pieces ++ q :: rest)) = _
      rw [quotedRest_plain h.1 h.2, hread]
      rfl
    | escaped c =>
      have hc : c ≠ '\n' := by
        intro heq
        rw [heq] at hclean
        simp [breaks] at hclean
      show quotedRest q ('\\' :: c :: (partsText pieces ++ q :: rest)) = _
      rw [quotedRest_escaped hq hc, hread]
      rfl
    | doubled =>
      show quotedRest q (q :: q :: (partsText pieces ++ q :: rest)) = _
      rw [quotedRest_doubled, hread]
      rfl

/-- Across an escaped line feed the pattern never reads: it fails, or it stops inside a
doubled quote and fails behind it. -/
theorem quotedRest_broken (hq : q ≠ '\\') {pieces : List (LiteralPart q)}
    (hbroken : pieces.any breaks = true) :
    quotedRest q (partsText pieces ++ rest) = none ∨
      ∃ read s, quotedRest q (partsText pieces ++ rest) = some (read, q :: s) ∧
        quotedRest q s = none := by
  induction pieces with
  | nil => simp at hbroken
  | cons piece pieces ih =>
    rw [List.any_cons, Bool.or_eq_true] at hbroken
    rw [partsText_cons, List.append_assoc]
    cases piece with
    | plain c h =>
      have hread := ih (hbroken.resolve_left (by simp [breaks]))
      show quotedRest q (c :: (partsText pieces ++ rest)) = none ∨
        ∃ read s, quotedRest q (c :: (partsText pieces ++ rest)) = _ ∧ _
      rw [quotedRest_plain h.1 h.2]
      obtain hnone | ⟨read, s, hsome, hs⟩ := hread
      · rw [hnone]
        exact Or.inl rfl
      · rw [hsome]
        exact Or.inr ⟨c :: read, s, rfl, hs⟩
    | escaped c =>
      show quotedRest q ('\\' :: c :: (partsText pieces ++ rest)) = none ∨
        ∃ read s, quotedRest q ('\\' :: c :: (partsText pieces ++ rest)) = _ ∧ _
      by_cases hc : c = '\n'
      · rw [hc, quotedRest_lineFeed hq]
        exact Or.inl rfl
      · have hread := ih (hbroken.resolve_left (by simpa [breaks] using hc))
        rw [quotedRest_escaped hq hc]
        obtain hnone | ⟨read, s, hsome, hs⟩ := hread
        · rw [hnone]
          exact Or.inl rfl
        · rw [hsome]
          exact Or.inr ⟨'\\' :: c :: read, s, rfl, hs⟩
    | doubled =>
      have hread := ih (hbroken.resolve_left (by simp [breaks]))
      show quotedRest q (q :: q :: (partsText pieces ++ rest)) = none ∨
        ∃ read s, quotedRest q (q :: q :: (partsText pieces ++ rest)) = _ ∧ _
      rw [quotedRest_doubled]
      obtain hnone | ⟨read, s, hsome, hs⟩ := hread
      · rw [hnone]
        exact Or.inr ⟨[q], partsText pieces ++ rest, rfl, hnone⟩
      · rw [hsome]
        exact Or.inr ⟨q :: q :: read, s, rfl, hs⟩

end Parts

section Escapes

variable {c d q : Char} {s t rest : Text}

theorem escapesLineFeed_within (hc : c ≠ '\\') :
    escapesLineFeed (some q) (c :: rest) =
      escapesLineFeed (if c = q then none else some q) rest := by
  by_cases hq : c = q
  · rw [hq] at hc ⊢
    cases rest <;> simp [escapesLineFeed, hc]
  · cases rest <;> simp [escapesLineFeed, hc, hq]

theorem escapesLineFeed_escape :
    escapesLineFeed (some q) ('\\' :: d :: rest) =
      (d == '\n' || escapesLineFeed (some q) rest) := by
  rw [escapesLineFeed, if_pos rfl]

theorem escapesLineFeed_open (hc : isQuote c = true) :
    escapesLineFeed none (c :: rest) = escapesLineFeed (some c) rest := by
  cases rest <;> simp [escapesLineFeed, hc]

/-- Text without quotes escapes nothing. -/
theorem escapesLineFeed_code (h : ∀ c ∈ s, isQuote c = false) :
    escapesLineFeed none (s ++ rest) = escapesLineFeed none rest := by
  induction s with
  | nil => rfl
  | cons c s ih =>
    have hc := h c (List.mem_cons_self ..)
    have hstep : escapesLineFeed none (c :: (s ++ rest)) = escapesLineFeed none (s ++ rest) := by
      cases s ++ rest <;> simp [escapesLineFeed, hc]
    rw [List.cons_append, hstep]
    exact ih fun d hd => h d (List.mem_cons_of_mem _ hd)

theorem escapesLineFeed_parts (hq : isQuote q = true) (pieces : List (LiteralPart q)) :
    escapesLineFeed (some q) (partsText pieces ++ q :: rest) =
      (pieces.any breaks || escapesLineFeed none rest) := by
  have hne := ne_backslash hq
  induction pieces with
  | nil =>
    show escapesLineFeed (some q) (q :: rest) = _
    rw [escapesLineFeed_within hne, if_pos rfl]
    rfl
  | cons piece pieces ih =>
    rw [partsText_cons, List.append_assoc, List.any_cons, Bool.or_assoc, ← ih]
    cases piece with
    | plain c h =>
      show escapesLineFeed (some q) (c :: (partsText pieces ++ q :: rest)) = _
      rw [escapesLineFeed_within h.2, if_neg h.1]
      rfl
    | escaped c => exact escapesLineFeed_escape
    | doubled =>
      show escapesLineFeed (some q) (q :: q :: (partsText pieces ++ q :: rest)) = _
      rw [escapesLineFeed_within hne, if_pos rfl, escapesLineFeed_open hq]
      rfl

theorem escapesLineFeed_literal (l : Literal) :
    escapesLineFeed none (l.text ++ rest) =
      (l.parts.any breaks || escapesLineFeed none rest) := by
  have htext : l.text ++ rest = l.quote :: (partsText l.parts ++ l.quote :: rest) := by
    rw [literal_text]
    simp
  rw [htext, escapesLineFeed_open l.quoted, escapesLineFeed_parts l.quoted]

end Escapes

section Lexemes

variable [UnicodeDatabase] {c d q : Char} {t rest : Text}

theorem isDecimal_not_start (h : isDecimal c = true) : isIdentStart c = false := by
  by_contra hstart
  rw [Bool.not_eq_false] at hstart
  have hascii : c.toNat < 128 :=
    FilterScan.ascii_of_isIdentPart (isIdentPart_of_isIdentStart hstart)
  rw [isDecimal_ascii hascii] at h
  unfold isIdentStart at hstart
  simp only [Char.isAlpha, Char.isUpper, Char.isLower, Char.isDigit, Bool.or_eq_true,
    Bool.and_eq_true, decide_eq_true_eq, UInt32.le_iff_toNat_le, ge_iff_le, beq_iff_eq] at h hstart
  have hnine : '9'.val.toNat = 57 := rfl
  have hupper : 'A'.val.toNat = 65 := rfl
  have hlower : 'a'.val.toNat = 97 := rfl
  obtain (hletter | hletter) | heq := hstart
  · omega
  · omega
  · rw [heq] at h
    revert h
    decide

theorem isWordy_not_quote (h : isWordy c = true) : isQuote c = false := by
  by_contra hquote
  rw [Bool.not_eq_false] at hquote
  obtain ⟨hstart, hdecimal, _⟩ := isQuote_not_wordy hquote
  unfold isWordy at h
  rw [hdecimal, Bool.or_false] at h
  obtain rfl | rfl | rfl := isQuote_cases hquote
  · revert h
    decide
  · revert h
    decide
  · revert h
    decide

/-- What follows an identifier or a number does not go on with it. -/
theorem Apart.head (h : Apart t rest) (hc : t.getLast? = some c) (hwordy : isWordy c = true) :
    ∀ d, rest.head? = some d → isIdentPart d = false ∧ isDecimal d = false := by
  intro d hd
  have hnot : ¬isWordy d = true := fun hd' => (h c d hc hd).1 ⟨hwordy, hd'⟩
  unfold isWordy at hnot
  rw [Bool.not_eq_true, Bool.or_eq_false_iff] at hnot
  exact hnot

omit [UnicodeDatabase] in
theorem last_mem {t : Text} (hne : t ≠ []) : ∃ c ∈ t, t.getLast? = some c :=
  ⟨t.getLast hne, List.getLast_mem hne, List.getLast?_eq_some_getLast hne⟩

theorem declarationToken_word (h : isIdentifier t = true) (hrest : Apart t rest) :
    declarationToken (t ++ rest) = some (t, rest) := by
  have hne := isIdentifier_ne_nil h
  obtain ⟨c, hmem, hlast⟩ := last_mem hne
  have hwordy : isWordy c = true := by
    unfold isWordy
    rw [isIdentifier_mem h c hmem, Bool.true_or]
  have hread := takeIdentifier_append h fun d hd => (hrest.head hlast hwordy d hd).1
  cases t with
  | nil => exact absurd rfl hne
  | cons first tail =>
    have hfirst : isWordy first = true := by
      unfold isWordy
      rw [isIdentifier_mem h first (List.mem_cons_self ..), Bool.true_or]
    rw [List.cons_append] at hread ⊢
    rw [declarationToken_code (isWordy_not_quote hfirst), hread]
    rfl

theorem declarationToken_number (hne : t ≠ []) (h : ∀ c ∈ t, isDecimal c = true)
    (hrest : Apart t rest) : declarationToken (t ++ rest) = some (t, rest) := by
  obtain ⟨c, hmem, hlast⟩ := last_mem hne
  have hwordy : ∀ d ∈ t, isWordy d = true := by
    intro d hd
    unfold isWordy
    rw [h d hd, Bool.or_true]
  have hstop := hrest.head hlast (hwordy c hmem)
  obtain ⟨htake, hdrop⟩ := takeWhile_append_stop h fun d hd => (hstop d hd).2
  have hdigits : matchDigits (t ++ rest) = some (t, rest) := by
    unfold matchDigits
    rw [htake, hdrop, if_neg hne]
  cases t with
  | nil => exact absurd rfl hne
  | cons first tail =>
    have hfirst := List.mem_cons_self (a := first) (l := tail)
    rw [List.cons_append] at hdigits ⊢
    rw [declarationToken_code (isWordy_not_quote (hwordy first hfirst)), hdigits]
    simp [takeIdentifier, isDecimal_not_start (h first hfirst)]

theorem declarationToken_mark (hspace : isSpace c = false) (hquote : isQuote c = false)
    (hwordy : isWordy c = false) : declarationToken (c :: rest) = some ([c], rest) := by
  unfold isWordy at hwordy
  rw [Bool.or_eq_false_iff] at hwordy
  have hstart : isIdentStart c = false := by
    by_contra hstart
    rw [Bool.not_eq_false] at hstart
    rw [isIdentPart_of_isIdentStart hstart] at hwordy
    exact absurd hwordy.1 (by decide)
  rw [declarationToken_code hquote]
  simp [takeIdentifier, matchDigits, matchVisible, hstart, hwordy.2, hspace]

theorem declarationToken_literal {l : Literal} (hclean : l.parts.any breaks = false)
    (hrest : Apart l.text rest) : declarationToken (l.text ++ rest) = some (l.text, rest) := by
  have hlast : l.text.getLast? = some l.quote := by
    rw [literal_text, ← List.cons_append, List.getLast?_concat]
  have hhead : rest.head? ≠ some l.quote := by
    intro hhead
    exact (hrest _ _ hlast hhead).2 ⟨l.quoted, rfl⟩
  have htext : l.text ++ rest = l.quote :: (partsText l.parts ++ l.quote :: rest) := by
    rw [literal_text]
    simp
  rw [htext, declarationToken_quote l.quoted,
    quotedRest_parts (ne_backslash l.quoted) hclean hhead]
  rfl

/-- A lexeme has no quotes, or it is a quoted text. -/
theorem Lexeme.quotes (h : Lexeme t) :
    (∀ c ∈ t, isQuote c = false) ∨ ∃ l : Literal, t = l.text := by
  cases h with
  | word hname =>
    refine Or.inl fun c hc => isWordy_not_quote ?_
    unfold isWordy
    rw [isIdentifier_mem hname c hc, Bool.true_or]
  | number hne hdigits =>
    refine Or.inl fun c hc => isWordy_not_quote ?_
    unfold isWordy
    rw [hdigits c hc, Bool.or_true]
  | @mark c hspace hquote hwordy =>
    refine Or.inl fun d hd => ?_
    rw [List.mem_singleton.mp hd]
    exact hquote
  | literal l => exact Or.inr ⟨l, rfl⟩

theorem Lexeme.escapes_append (h : Lexeme t) :
    escapesLineFeed none (t ++ rest) =
      (escapesLineFeed none t || escapesLineFeed none rest) := by
  have hself : escapesLineFeed none t = escapesLineFeed none (t ++ []) := by
    rw [List.append_nil]
  rw [hself]
  obtain hcode | ⟨l, ht⟩ := h.quotes
  · rw [escapesLineFeed_code hcode, escapesLineFeed_code hcode]
    rfl
  · rw [ht, escapesLineFeed_literal, escapesLineFeed_literal]
    simp [escapesLineFeed]

/-- The lexeme is read as a token, or it is a quoted text that escapes a line feed. -/
theorem Lexeme.token (h : Lexeme t) (hrest : Apart t rest) :
    (declarationToken (t ++ rest) = some (t, rest) ∧ escapesLineFeed none t = false) ∨
      ∃ l : Literal, t = l.text ∧ l.parts.any breaks = true := by
  have hself : escapesLineFeed none t = escapesLineFeed none (t ++ []) := by
    rw [List.append_nil]
  rw [hself]
  obtain hcode | ⟨l, ht⟩ := h.quotes
  · refine Or.inl ⟨?_, escapesLineFeed_code hcode⟩
    cases h with
    | word hname => exact declarationToken_word hname hrest
    | number hne hdigits => exact declarationToken_number hne hdigits hrest
    | mark hspace hquote hwordy => exact declarationToken_mark hspace hquote hwordy
    | literal l =>
      have hopening := hcode l.quote (List.mem_cons_self ..)
      rw [l.quoted] at hopening
      contradiction
  · rw [ht] at hrest ⊢
    cases hbreaks : l.parts.any breaks with
    | true => exact Or.inr ⟨l, rfl, hbreaks⟩
    | false =>
      refine Or.inl ⟨declarationToken_literal hbreaks hrest, ?_⟩
      rw [escapesLineFeed_literal, hbreaks]
      rfl

/-- No lexeme is a quote alone. -/
theorem Lexeme.ne_quote (h : Lexeme t) (hq : isQuote q = true) : t ≠ [q] := by
  intro heq
  cases h with
  | word hname =>
    have hpart := isIdentifier_mem hname q (by rw [heq]; exact List.mem_singleton_self q)
    have hwordy : isWordy q = true := by
      unfold isWordy
      rw [hpart, Bool.true_or]
    rw [isWordy_not_quote hwordy] at hq
    contradiction
  | number hne hdigits =>
    have hdecimal := hdigits q (by rw [heq]; exact List.mem_singleton_self q)
    rw [(isQuote_not_wordy hq).2.1] at hdecimal
    contradiction
  | @mark c hspace hquote hwordy =>
    have hcq : c = q := List.singleton_inj.mp heq
    rw [hcq, hq] at hquote
    contradiction
  | literal l =>
    have hlength := congrArg List.length heq
    simp [literal_text] at hlength

end Lexemes

section Layouts

variable [SpacedDatabase] {s t rest : Text} {ts us : List Text}

theorem spaces_not_quotes {spaces : Text} (h : ∀ c ∈ spaces, isSpace c = true) :
    ∀ c ∈ spaces, isQuote c = false := fun c hc => (isSpace_not_code (h c hc)).1

theorem escapesLineFeed_spaces {spaces : Text} (h : ∀ c ∈ spaces, isSpace c = true) :
    escapesLineFeed none spaces = false := by
  have hcode : escapesLineFeed none (spaces ++ []) = escapesLineFeed none [] :=
    escapesLineFeed_code (spaces_not_quotes h)
  rwa [List.append_nil] at hcode

/-- The tokens of a declaration whose quoted texts escape no line feed. -/
theorem LaidOut.tokens (h : LaidOut ts s) (hclean : escapesLineFeed none s = false) :
    declarationTokens s = ts := by
  induction h with
  | spaces hblank =>
    have hskip := declarationTokens_spaces (s := []) hblank
    rw [List.append_nil] at hskip
    rw [hskip]
    rfl
  | cons hblank hlexeme hapart hrest ih =>
    rw [escapesLineFeed_code (spaces_not_quotes hblank)] at hclean
    rw [declarationTokens_spaces hblank]
    obtain ⟨htoken, hescapes⟩ | ⟨l, ht, hbreaks⟩ := hlexeme.token hapart
    · rw [hlexeme.escapes_append, hescapes, Bool.false_or] at hclean
      rw [declarationTokens_some htoken, ih hclean]
    · rw [ht, escapesLineFeed_literal, hbreaks] at hclean
      contradiction

/-- A quoted text with an escaped line feed leaves a quote as a token. -/
theorem LaidOut.quote_token (h : LaidOut ts s) (hbroken : escapesLineFeed none s = true) :
    ∃ q, isQuote q = true ∧ [q] ∈ declarationTokens s := by
  induction h with
  | spaces hblank =>
    rw [escapesLineFeed_spaces hblank] at hbroken
    contradiction
  | @cons spaces t rest ts hblank hlexeme hapart hrest ih =>
    rw [escapesLineFeed_code (spaces_not_quotes hblank)] at hbroken
    rw [declarationTokens_spaces hblank]
    obtain ⟨htoken, hescapes⟩ | ⟨l, ht, hbreaks⟩ := hlexeme.token hapart
    · rw [hlexeme.escapes_append, hescapes, Bool.false_or] at hbroken
      obtain ⟨q, hq, hmem⟩ := ih hbroken
      rw [declarationTokens_some htoken]
      exact ⟨q, hq, List.mem_cons_of_mem _ hmem⟩
    · have htext : t ++ rest = l.quote :: (partsText l.parts ++ l.quote :: rest) := by
        rw [ht, literal_text]
        simp
      have halone : ∀ after, quotedRest l.quote after = none →
          declarationToken (l.quote :: after) = some ([l.quote], after) := by
        intro after hnone
        rw [declarationToken_quote l.quoted, hnone]
      refine ⟨l.quote, l.quoted, ?_⟩
      rw [htext]
      obtain hnone | ⟨read, after, hsome, hnone⟩ :=
        @quotedRest_broken _ (l.quote :: rest) (ne_backslash l.quoted) _ hbreaks
      · rw [declarationTokens_some (halone _ hnone)]
        exact List.mem_cons_self ..
      · have hfirst : declarationToken (l.quote :: (partsText l.parts ++ l.quote :: rest)) =
            some (l.quote :: read, l.quote :: after) := by
          rw [declarationToken_quote l.quoted, hsome]
        rw [declarationTokens_some hfirst, declarationTokens_some (halone _ hnone)]
        exact List.mem_cons_of_mem _ (List.mem_cons_self ..)

theorem LaidOut.lexemes (h : LaidOut ts s) : ∀ t ∈ ts, Lexeme t := by
  induction h with
  | spaces => simp
  | cons _ hlexeme _ _ ih =>
    intro t ht
    obtain rfl | hmem := List.mem_cons.mp ht
    · exact hlexeme
    · exact ih t hmem

/-- What a declaration escapes depends on its lexemes alone. -/
theorem LaidOut.escapes (h : LaidOut ts s) :
    escapesLineFeed none s = ts.any fun t => escapesLineFeed none t := by
  induction h with
  | spaces hblank => exact escapesLineFeed_spaces hblank
  | cons hblank hlexeme _ _ ih =>
    rw [escapesLineFeed_code (spaces_not_quotes hblank), hlexeme.escapes_append, ih, List.any_cons]

/-- The lexemes of a declaration, when its quoted texts escape no line feed, are known
from its tokens, whatever the other declaration is. -/
theorem tokens_eq_iff {a b : Text} (ha : LaidOut ts a) (hb : LaidOut us b)
    (hclean : escapesLineFeed none a = false) :
    declarationTokens a = declarationTokens b ↔ ts = us := by
  rw [ha.tokens hclean]
  constructor
  · intro heq
    cases hescapes : escapesLineFeed none b with
    | false => rw [heq, hb.tokens hescapes]
    | true =>
      obtain ⟨q, hq, hmem⟩ := hb.quote_token hescapes
      rw [← heq] at hmem
      exact absurd rfl ((ha.lexemes _ hmem).ne_quote hq)
  · intro heq
    rw [hb.tokens, heq]
    rw [hb.escapes, ← heq, ← ha.escapes, hclean]

end Layouts

end RayClickHouse.DeclarationKey
