import RayClickHouse.DeclarationBreaks

/-!
The key ignores white space outside quotes and nothing else, exactly for declarations
whose quoted texts escape no line feed. For any other one a blank is inserted into the
quoted text, and the longer declaration has the same key.
-/
namespace RayClickHouse.DeclarationKey

open Text TypeText PredicateTokens

section Inside

variable {c d q : Char} {s t rest : Text}

def inside : Option Char → Text → ℕ
  | _, [] => 0
  | some _, [_] => 1
  | some q, c :: d :: rest =>
      if c = '\\' then inside (some q) rest + 2
      else if c = q then inside none (d :: rest) + 1
      else inside (some q) (d :: rest) + 1
  | none, c :: rest => if isQuote c then inside (some c) rest else inside none rest

theorem inside_within (hc : c ≠ '\\') :
    inside (some q) (c :: rest) = inside (if c = q then none else some q) rest + 1 := by
  by_cases hq : c = q
  · rw [hq] at hc ⊢
    cases rest <;> simp [inside, hc]
  · cases rest <;> simp [inside, hc, hq]

theorem inside_escape : inside (some q) ('\\' :: d :: rest) = inside (some q) rest + 2 := by
  rw [inside, if_pos rfl]

theorem inside_open (hc : isQuote c = true) : inside none (c :: rest) = inside (some c) rest := by
  cases rest <;> simp [inside, hc]

theorem inside_code (h : ∀ c ∈ s, isQuote c = false) :
    inside none (s ++ rest) = inside none rest := by
  induction s with
  | nil => rfl
  | cons c s ih =>
    have hc := h c (List.mem_cons_self ..)
    have hstep : inside none (c :: (s ++ rest)) = inside none (s ++ rest) := by
      cases s ++ rest <;> simp [inside, hc]
    rw [List.cons_append, hstep]
    exact ih fun d hd => h d (List.mem_cons_of_mem _ hd)

def weight : LiteralPart q → ℕ
  | .plain _ _ => 1
  | .escaped _ => 2
  | .doubled => 1

theorem inside_literal (l : Literal) :
    inside none (l.text ++ rest) = (l.parts.map weight).sum + 1 + inside none rest := by
  have hne := ne_backslash l.quoted
  have hparts : ∀ pieces : List (LiteralPart l.quote),
      inside (some l.quote) (partsText pieces ++ l.quote :: rest) =
        (pieces.map weight).sum + 1 + inside none rest := by
    intro pieces
    induction pieces with
    | nil =>
      show inside (some l.quote) (l.quote :: rest) = _
      rw [inside_within hne, if_pos rfl]
      simp
      omega
    | cons piece pieces ih =>
      rw [partsText_cons, List.append_assoc, List.map_cons, List.sum_cons]
      cases piece with
      | plain c h =>
        show inside (some l.quote) (c :: (partsText pieces ++ l.quote :: rest)) = _
        rw [inside_within h.2, if_neg h.1, ih, weight]
        omega
      | escaped c =>
        show inside (some l.quote) ('\\' :: c :: (partsText pieces ++ l.quote :: rest)) = _
        rw [inside_escape, ih, weight]
        omega
      | doubled =>
        show inside (some l.quote)
          (l.quote :: l.quote :: (partsText pieces ++ l.quote :: rest)) = _
        rw [inside_within hne, if_pos rfl, inside_open l.quoted, ih, weight]
        omega
  have htext : l.text ++ rest = l.quote :: (partsText l.parts ++ l.quote :: rest) := by
    rw [literal_text]
    simp
  rw [htext, inside_open l.quoted, hparts]

end Inside

section Acceptance

variable {value value' current current' s t rest rest' : Text} {quote : Option Char} {depth : ℕ}
  {parts : List Text}

def Accepted (result : Outcome (List Text)) : Prop := ∃ arguments, result = .ok arguments

theorem accepted_iff : Accepted (splitFrom value quote depth current parts s) ↔
    ¬Refused quote depth current s := by
  have hfails : FailsWhen (splitFrom value quote depth current parts s)
      (Refused quote depth current s) := splitFrom_failsWhen
  rw [← hfails.2]
  cases splitFrom value quote depth current parts s with
  | ok arguments => simp [Accepted]
  | error e => simp [Accepted]

/-- Of the argument read so far it only matters whether it is blank. -/
theorem accepted_of_blank
    (h : (∀ c ∈ current, isSpace c = true) ↔ ∀ c ∈ current', isSpace c = true)
    (haccepted : Accepted (splitFrom value quote depth current parts s)) :
    Accepted (splitFrom value' quote depth current' parts s) := by
  rw [accepted_iff] at haccepted ⊢
  unfold Refused EmptyFrom at haccepted ⊢
  rwa [← h]

def Follows (s t : Text) : Prop :=
  ∀ (value value' : Text) (depth : ℕ) (current : Text) (parts : List Text),
    Accepted (splitFrom value none depth current parts s) →
      Accepted (splitFrom value' none depth current parts t)

theorem Follows.code (h : Follows rest rest') {c : Char} (hc : isQuote c = false) :
    Follows (c :: rest) (c :: rest') := by
  intro value value' depth current parts haccepted
  rw [splitFrom_code, if_neg (by simp [hc])] at haccepted ⊢
  split at haccepted
  · next hopen =>
    rw [if_pos hopen]
    exact h _ _ _ _ _ haccepted
  · next hopen =>
    rw [if_neg hopen]
    split at haccepted
    · next hclose =>
      rw [if_pos hclose]
      split at haccepted
      · obtain ⟨arguments, hok⟩ := haccepted
        contradiction
      · next hdepth =>
        rw [if_neg hdepth]
        exact h _ _ _ _ _ haccepted
    · next hclose =>
      rw [if_neg hclose]
      split at haccepted
      · next hcomma =>
        rw [if_pos hcomma]
        split at haccepted
        · obtain ⟨arguments, hok⟩ := haccepted
          contradiction
        · next hcurrent =>
          rw [if_neg hcurrent]
          exact h _ _ _ _ _ haccepted
      · next hcomma =>
        rw [if_neg hcomma]
        exact h _ _ _ _ _ haccepted

theorem Follows.append (h : Follows rest rest') (hs : ∀ c ∈ s, isQuote c = false) :
    Follows (s ++ rest) (s ++ rest') := by
  induction s with
  | nil => exact h
  | cons c s ih =>
    exact (ih fun d hd => hs d (List.mem_cons_of_mem _ hd)).code (hs c (List.mem_cons_self ..))

theorem Follows.transparent (h : Follows rest rest') (ht : Transparent 0 t) :
    Follows (t ++ rest) (t ++ rest') := by
  intro value value' depth current parts haccepted
  rw [ht _ _ _ _ _ (Nat.zero_le depth)] at haccepted ⊢
  exact h _ _ _ _ _ haccepted

/-- One argument in the place of another. -/
theorem Follows.replace (hs : Argument s) (ht : Argument t) : Follows (s ++ rest) (t ++ rest) := by
  intro value value' depth current parts haccepted
  rw [hs.transparent _ _ _ _ _ (Nat.zero_le depth)] at haccepted
  rw [ht.transparent _ _ _ _ _ (Nat.zero_le depth)]
  have hvisible : ∀ u, Argument u → ¬∀ c ∈ current ++ u, isSpace c = true := by
    intro u hu hblank
    cases u with
    | nil => exact hu.nonempty rfl
    | cons c u =>
      have hspace := hblank c (List.mem_append_right _ (List.mem_cons_self ..))
      rw [hu.solid.head c rfl] at hspace
      contradiction
  exact accepted_of_blank (iff_of_false (hvisible s hs) (hvisible t ht)) haccepted

end Acceptance

section Widening

variable {q : Char}

/-- The first escaped line feed of a quoted text. -/
theorem first_break {pieces : List (LiteralPart q)} (h : pieces.any breaks = true) :
    ∃ before after, pieces = before ++ .escaped '\n' :: after ∧ before.any breaks = false := by
  induction pieces with
  | nil => simp at h
  | cons piece pieces ih =>
    by_cases hpiece : breaks piece = true
    · cases piece with
      | plain c hc => simp [breaks] at hpiece
      | escaped c =>
        have hc : c = '\n' := by simpa [breaks] using hpiece
        rw [hc]
        exact ⟨[], pieces, rfl, rfl⟩
      | doubled => simp [breaks] at hpiece
    · rw [List.any_cons, Bool.or_eq_true] at h
      obtain ⟨before, after, heq, hbefore⟩ := ih (h.resolve_left hpiece)
      refine ⟨piece :: before, after, by rw [heq, List.cons_append], ?_⟩
      rw [List.any_cons, hbefore, Bool.or_false]
      exact Bool.eq_false_iff.mpr hpiece

/-- The pieces before an escaped line feed, with the opening quote. -/
theorem whole_parts (hq : q ≠ '\\') {pieces : List (LiteralPart q)}
    (h : pieces.any breaks = false) : Whole (partsText pieces) := by
  induction pieces with
  | nil => exact Whole.nil
  | cons piece pieces ih =>
    rw [List.any_cons, Bool.or_eq_false_iff] at h
    rw [partsText_cons]
    cases piece with
    | plain c hc => exact Whole.plain hc.2 (ih h.2)
    | escaped c =>
      have hc : c ≠ '\n' := by
        intro heq
        rw [heq] at h
        simp [breaks] at h
      exact Whole.escaped hc (ih h.2)
    | doubled => exact Whole.plain hq (Whole.plain hq (ih h.2))

theorem blank_plain (hq : isQuote q = true) : ' ' ≠ q ∧ ' ' ≠ '\\' := by
  refine ⟨?_, by decide⟩
  intro heq
  rw [← heq] at hq
  contradiction

/-- A blank behind an escaped line feed widens the quoted text and leaves the tokens. -/
theorem Literal.widen [SpacedDatabase] (l : Literal) (h : l.parts.any breaks = true) :
    ∃ l' : Literal, l'.quote = l.quote ∧
      (∀ rest, declarationTokens (l'.text ++ rest) = declarationTokens (l.text ++ rest)) ∧
      ∀ rest, inside none (l'.text ++ rest) = inside none (l.text ++ rest) + 1 := by
  obtain ⟨before, after, hparts, hbefore⟩ := first_break h
  have hne := ne_backslash l.quoted
  have hwhole : Entered (l.quote :: partsText before) :=
    Or.inl (Whole.plain hne (whole_parts hne hbefore))
  obtain ⟨ts, hts⟩ := hwhole.tokens
  refine ⟨⟨l.quote, l.quoted,
    before ++ .escaped '\n' :: .plain ' ' (blank_plain l.quoted) :: after⟩, rfl, ?_, ?_⟩
  · intro rest
    have hold : l.text ++ rest = l.quote :: partsText before ++
        lineFeed (partsText after ++ l.quote :: rest) := by
      rw [literal_text, hparts]
      simp [partsText, LiteralPart.text, lineFeed]
    have hnew : Literal.text ⟨l.quote, l.quoted,
          before ++ .escaped '\n' :: .plain ' ' (blank_plain l.quoted) :: after⟩ ++ rest =
        l.quote :: partsText before ++ lineFeed (' ' :: (partsText after ++ l.quote :: rest)) := by
      rw [literal_text]
      simp [partsText, LiteralPart.text, lineFeed]
    rw [hold, hnew, hts, hts, declarationTokens_none (declarationToken_space (by decide))]
  · intro rest
    rw [inside_literal, inside_literal, hparts]
    simp [weight]
    omega

variable [SpacedDatabase] {s t rest : Text} {ts : List Text}

theorem Lexeme.inside_append (h : Lexeme t) :
    inside none (t ++ rest) = inside none t + inside none rest := by
  have hself : inside none t = inside none (t ++ []) := by
    rw [List.append_nil]
  rw [hself]
  obtain hcode | ⟨l, ht⟩ := h.quotes
  · rw [inside_code hcode, inside_code hcode]
    simp [inside]
  · rw [ht, inside_literal, inside_literal]
    simp [inside]

/-- How much is quoted depends on the lexemes alone. -/
theorem LaidOut.inside_eq (h : LaidOut ts s) : inside none s = (ts.map (inside none)).sum := by
  induction h with
  | @spaces s hblank =>
    have hcode : inside none (s ++ []) = inside none [] := inside_code (spaces_not_quotes hblank)
    rw [List.append_nil] at hcode
    rw [hcode]
    rfl
  | cons hblank hlexeme _ _ ih =>
    rw [inside_code (spaces_not_quotes hblank), hlexeme.inside_append, ih, List.map_cons,
      List.sum_cons]

theorem Lexeme.ne_nil (h : Lexeme t) : t ≠ [] := by
  cases h with
  | word hname => exact isIdentifier_ne_nil hname
  | number hne _ => exact hne
  | mark => simp
  | literal l => simp [literal_text]

theorem head_spaced {spaces : Text} (h : Lexeme t) (more : Text) :
    (spaces ++ (t ++ rest)).head? = (spaces ++ (t ++ more)).head? := by
  cases spaces with
  | nil =>
    rw [List.nil_append, List.nil_append, List.head?_append_of_ne_nil _ h.ne_nil,
      List.head?_append_of_ne_nil _ h.ne_nil]
  | cons c spaces => rfl

/-- For a declaration that escapes a line feed there is another with more quoted and the
same tokens. -/
theorem LaidOut.widen (h : LaidOut ts s) (hbroken : escapesLineFeed none s = true) :
    ∃ us b, LaidOut us b ∧ b.head? = s.head? ∧ declarationTokens b = declarationTokens s ∧
      inside none b = inside none s + 1 ∧ Follows s b := by
  induction h with
  | spaces hblank =>
    rw [escapesLineFeed_spaces hblank] at hbroken
    contradiction
  | @cons spaces t rest ts hblank hlexeme hapart hrest ih =>
    have hquotes := spaces_not_quotes hblank
    rw [escapesLineFeed_code hquotes] at hbroken
    obtain ⟨htoken, hescapes⟩ | ⟨l, ht, hbreaks⟩ := hlexeme.token hapart
    · rw [hlexeme.escapes_append, hescapes, Bool.false_or] at hbroken
      obtain ⟨us, b, hlaid, hhead, htokens, hinside, hfollows⟩ := ih hbroken
      have hapart' : Apart t b := by
        intro c d hc hd
        rw [hhead] at hd
        exact hapart c d hc hd
      have htoken' : declarationToken (t ++ b) = some (t, b) := by
        obtain ⟨hread, _⟩ | ⟨l, ht, hbreaks⟩ := hlexeme.token hapart'
        · exact hread
        · have hself : escapesLineFeed none (l.text ++ []) = false := by
            rw [List.append_nil, ← ht, hescapes]
          rw [escapesLineFeed_literal, hbreaks] at hself
          contradiction
      refine ⟨t :: us, spaces ++ (t ++ b), LaidOut.cons hblank hlexeme hapart' hlaid,
        head_spaced hlexeme rest, ?_, ?_, ?_⟩
      · rw [declarationTokens_spaces hblank, declarationTokens_spaces hblank,
          declarationTokens_some htoken, declarationTokens_some htoken', htokens]
      · rw [inside_code hquotes, inside_code hquotes, hlexeme.inside_append,
          hlexeme.inside_append, hinside]
        omega
      · refine Follows.append ?_ hquotes
        obtain hcode | ⟨l, ht⟩ := hlexeme.quotes
        · exact hfollows.append hcode
        · rw [ht]
          exact hfollows.transparent l.argument.transparent
    · obtain ⟨l', hquote, htokens, hinside⟩ := Literal.widen l hbreaks
      have hapart' : Apart l'.text rest := by
        have hlast : ∀ k : Literal, k.text.getLast? = some k.quote := by
          intro k
          rw [literal_text, ← List.cons_append, List.getLast?_concat]
        intro c d hc hd
        apply hapart c d _ hd
        rw [ht, hlast, ← hquote, ← hlast, hc]
      refine ⟨l'.text :: ts, spaces ++ (l'.text ++ rest),
        LaidOut.cons hblank (Lexeme.literal l') hapart' hrest, ?_, ?_, ?_, ?_⟩
      · rw [ht]
        cases spaces with
        | nil =>
          show some l'.quote = some l.quote
          rw [hquote]
        | cons c spaces => rfl
      · rw [declarationTokens_spaces hblank, declarationTokens_spaces hblank, ht, htokens]
      · rw [inside_code hquotes, inside_code hquotes, ht, hinside]
      · rw [ht]
        exact Follows.append (Follows.replace l.argument l'.argument) hquotes

end Widening

section Key

variable [SpacedDatabase] {a b : Text} {ts us : List Text}

theorem typeDeclarationKey_of_balanced (h : ∃ arguments, splitTypeArguments a = .ok arguments) :
    typeDeclarationKey a = .ok (declarationTokens a) := by
  obtain ⟨arguments, hok⟩ := h
  unfold typeDeclarationKey
  rw [hok]
  rfl

theorem key_eq_iff (ha : Declared a) (hb : Declared b) :
    typeDeclarationKey a = typeDeclarationKey b ↔ declarationTokens a = declarationTokens b := by
  rw [typeDeclarationKey_of_balanced ha.balanced, typeDeclarationKey_of_balanced hb.balanced,
    Except.ok.injEq]

/-- The key of a declaration ignores white space outside quotes and nothing else exactly
when no quoted text of it escapes a line feed. -/
theorem keyIgnoresSpacing_iff (ha : Declared a) :
    KeyIgnoresSpacing a ↔ escapesLineFeed none a = false := by
  obtain ⟨ts, hts⟩ := ha.laidOut
  constructor
  · intro hkey
    by_contra hbroken
    rw [Bool.not_eq_false] at hbroken
    obtain ⟨us, b, hlaid, _, htokens, hinside, hfollows⟩ := hts.widen hbroken
    have hb : Declared b := ⟨hfollows a b 0 [] [] ha.balanced, us, hlaid⟩
    have hsame := ((hkey b hb).1).mp ((key_eq_iff ha hb).mpr htokens.symm)
    obtain ⟨vs, hva, hvb⟩ := hsame
    rw [hva.inside_eq, hvb.inside_eq] at hinside
    omega
  · intro hclean b hb
    obtain ⟨us, hus⟩ := hb.laidOut
    refine ⟨?_, ?_⟩
    · rw [key_eq_iff ha hb, tokens_eq_iff hts hus hclean]
      constructor
      · intro heq
        rw [← heq] at hus
        exact ⟨ts, hts, hus⟩
      · intro ⟨vs, hva, hvb⟩
        have hsame : ts = vs := (hts.tokens hclean).symm.trans (hva.tokens hclean)
        exact (tokens_eq_iff hts hus hclean).mp ((tokens_eq_iff hts hvb hclean).mpr hsame)
    · intro ts' us' hts' hus' hquoted hkey
      apply hquoted
      rw [(tokens_eq_iff hts' hus' hclean).mp ((key_eq_iff ha hb).mp hkey)]

end Key

section Example

@[reducible] def asciiSpaced : SpacedDatabase where
  toUnicodeDatabase := asciiDatabase
  space_not_decimal := by
    intro c h
    have hdigit : c.isDigit = false := by
      by_contra hdigit
      rw [Bool.not_eq_false] at hdigit
      have hpart : isIdentPart c = true := by
        unfold isIdentPart Char.isAlphanum
        rw [hdigit, Bool.or_true, Bool.true_or]
      rw [Ddl.isSpace_of_isIdentPart hpart] at h
      contradiction
    show (if c.isDigit then some (c.toNat - '0'.toNat) else none) = none
    rw [hdigit]
    rfl

theorem LaidOut.next [UnicodeDatabase] {t rest : Text} {ts : List Text} (hlexeme : Lexeme t)
    (hapart : Apart t rest) (h : LaidOut ts rest) : LaidOut (t :: ts) (t ++ rest) := by
  have hnone : ∀ c ∈ ([] : Text), isSpace c = true := by simp
  exact LaidOut.cons hnone hlexeme hapart h

/-- Punctuation stands apart from whatever comes before and after it. -/
theorem apart_mark [UnicodeDatabase] {c : Char} {t rest : Text} (hquote : isQuote c = false)
    (hwordy : isWordy c = false) : Apart [c] rest ∧ Apart t (c :: rest) := by
  constructor
  · intro d e hd he
    have hdc : c = d := Option.some.inj hd
    rw [← hdc]
    exact ⟨fun h => by simp [hwordy] at h, fun h => by simp [hquote] at h⟩
  · intro d e hd he
    have hec : c = e := Option.some.inj he
    rw [← hec]
    refine ⟨fun h => by simp [hwordy] at h, fun h => ?_⟩
    rw [h.2, hquote] at h
    exact absurd h.1 (by decide)

theorem paren_mark : @Lexeme asciiDatabase ['('] ∧ @Lexeme asciiDatabase [')'] := by
  let _ := asciiDatabase
  exact ⟨Lexeme.mark (by decide) (by decide) (by decide),
    Lexeme.mark (by decide) (by decide) (by decide)⟩

def enumOf (l : Literal) : Text := "Enum8".toList ++ (['('] ++ (l.text ++ ([')'] ++ [])))

theorem enumOf_laidOut (l : Literal) :
    @LaidOut asciiDatabase ["Enum8".toList, ['('], l.text, [')']] (enumOf l) := by
  let _ := asciiDatabase
  have hend : LaidOut [] [] := LaidOut.spaces (by simp)
  have hclose : LaidOut [[')']] ([')'] ++ []) :=
    LaidOut.next paren_mark.2 (@apart_mark _ _ [] _ (by decide) (by decide)).1 hend
  have hlabel : LaidOut [l.text, [')']] (l.text ++ ([')'] ++ [])) :=
    LaidOut.next (Lexeme.literal l) (apart_mark (by decide) (by decide)).2 hclose
  have hopen : LaidOut [['('], l.text, [')']] (['('] ++ (l.text ++ ([')'] ++ []))) :=
    LaidOut.next paren_mark.1 (@apart_mark _ _ [] _ (by decide) (by decide)).1 hlabel
  exact LaidOut.next (Lexeme.word (by decide)) (apart_mark (by decide) (by decide)).2 hopen

theorem enumOf_declared {l : Literal}
    (h : ∃ arguments, splitTypeArguments (enumOf l) = .ok arguments) :
    @Declared asciiDatabase (enumOf l) := by
  let _ := asciiDatabase
  exact ⟨h, _, enumOf_laidOut l⟩

def plainLabel : Literal := ⟨'\'', rfl, [.plain 'x' (by decide)]⟩

def brokenLabel : Literal := ⟨'\'', rfl, [.escaped '\n', .plain 'x' (by decide)]⟩

def widerLabel : Literal :=
  ⟨'\'', rfl, [.escaped '\n', .plain ' ' (by decide), .plain 'x' (by decide)]⟩

theorem plainLabel_key : @KeyIgnoresSpacing asciiDatabase (enumOf plainLabel) :=
  (@keyIgnoresSpacing_iff asciiSpaced (enumOf plainLabel)
    (enumOf_declared ⟨["Enum8('x')".toList], by decide +kernel⟩)).mpr (by decide)

/-- Two labels that differ in a blank behind an escaped line feed have one key. -/
theorem broken_labels_share_key :
    @Declared asciiDatabase (enumOf brokenLabel) ∧ @Declared asciiDatabase (enumOf widerLabel) ∧
      @typeDeclarationKey asciiDatabase (enumOf brokenLabel) =
        @typeDeclarationKey asciiDatabase (enumOf widerLabel) ∧
      ¬@DifferInSpacing asciiDatabase (enumOf brokenLabel) (enumOf widerLabel) := by
  refine ⟨enumOf_declared ⟨[enumOf brokenLabel], by decide +kernel⟩,
    enumOf_declared ⟨[enumOf widerLabel], by decide +kernel⟩, by decide +kernel, ?_⟩
  intro ⟨ts, hbroken, hwider⟩
  have hless := @LaidOut.inside_eq asciiSpaced _ _ hbroken
  have hmore := @LaidOut.inside_eq asciiSpaced _ _ hwider
  rw [← hless] at hmore
  revert hmore
  decide

end Example

end RayClickHouse.DeclarationKey
