import RayClickHouse.Lexical

/-!
Parentheses under the quote and comment rules. The partner of a parenthesis is
found by scanning lexemes with a depth. A text put between two parentheses leaves
them partners exactly when its own parentheses balance without closing below its
start and its last lexeme does not go on into what follows.
-/
namespace RayClickHouse.Lexical

open Text

def closeParenFrom : ℕ → ℕ → Text → Option Text
  | _, _, [] => none
  | 0, _, _ :: _ => none
  | fuel + 1, depth, c :: rest =>
      match nextLexeme c rest with
      | .error _ => none
      | .ok (l, after) =>
          if l = .code '(' then closeParenFrom fuel (depth + 1) after
          else if l = .code ')' then
            match depth with
            | 0 => some after
            | depth + 1 => closeParenFrom fuel depth after
          else closeParenFrom fuel depth after

def closeParen (s : Text) : Option Text := closeParenFrom s.length 0 s

/-- The depth a text ends in, none when a quote, a comment or a closing
parenthesis leads out of it. -/
def depthFrom : ℕ → ℕ → Text → Option ℕ
  | _, depth, [] => some depth
  | 0, _, _ :: _ => none
  | fuel + 1, depth, c :: rest =>
      match nextLexeme c rest with
      | .error _ => none
      | .ok (l, after) =>
          if l.isLineComment ∧ after = [] then none
          else if l = .code '(' then depthFrom fuel (depth + 1) after
          else if l = .code ')' then
            match depth with
            | 0 => none
            | depth + 1 => depthFrom fuel depth after
          else depthFrom fuel depth after

/-- Parentheses that balance within the text, outside quotes and comments, and
no comment left open at its end. -/
def selfContained (s : Text) : Bool := depthFrom s.length 0 s == some 0

def closingFrom : ℕ → ℕ → Text → Option Text
  | _, _, [] => none
  | 0, _, _ :: _ => none
  | fuel + 1, position, c :: rest =>
      match nextLexeme c rest with
      | .error _ => none
      | .ok (l, after) =>
          if position = 0 then if l = .code '(' then closeParen after else none
          else if l.text.length ≤ position then closingFrom fuel (position - l.text.length) after
          else none

def closingParen (s : Text) (position : ℕ) : Option ℕ :=
  (closingFrom s.length position s).map fun after => s.length - after.length - 1

section Open

/-- A quote without its end in a text can only end in what follows it. -/
theorem scanQuote_open {q : Char} {s more body after : Text} (h : scanQuote q s = none)
    (hmore : scanQuote q (s ++ more) = some (body, after)) : after.length < more.length := by
  induction s using scanQuote.induct q generalizing body after with
  | case1 =>
    obtain ⟨heq, hne⟩ := scanQuote_eq_some hmore
    have hlen := congrArg List.length heq
    have hpos := List.length_pos_iff.mpr hne
    simp only [List.nil_append, List.length_append] at hlen
    omega
  | case2 c hc =>
    rw [scanQuote, if_pos hc] at h
    contradiction
  | case3 c hc =>
    cases more with
    | nil => simp [scanQuote, hc] at hmore
    | cons d rest =>
      simp only [List.cons_append, List.nil_append, scanQuote] at hmore
      split at hmore
      · obtain ⟨p, hp, heq⟩ := Option.map_eq_some_iff.mp hmore
        have hlen := congrArg List.length (scanQuote_eq_some hp).1
        simp only [Prod.mk.injEq] at heq
        simp only [List.length_append, heq.2] at hlen
        simp only [List.length_cons]
        omega
      · rename_i hescape
        rw [if_neg (fun heq => hc ⟨hescape, heq⟩)] at hmore
        obtain ⟨p, hp, heq⟩ := Option.map_eq_some_iff.mp hmore
        obtain ⟨htext, hne⟩ := scanQuote_eq_some hp
        have hlen := congrArg List.length htext
        have hpos := List.length_pos_iff.mpr hne
        simp only [Prod.mk.injEq] at heq
        simp only [List.length_append, heq.2] at hlen
        omega
  | case4 d rest ih =>
    simp only [scanQuote, if_true, Option.map_eq_none_iff] at h
    simp only [List.cons_append, scanQuote, if_true] at hmore
    obtain ⟨p, hp, heq⟩ := Option.map_eq_some_iff.mp hmore
    simp only [Prod.mk.injEq] at heq
    exact heq.2 ▸ ih h hp
  | case5 rest hc ih =>
    simp only [scanQuote, if_neg hc, if_true, Option.map_eq_none_iff] at h
    simp only [List.cons_append, scanQuote, if_neg hc, if_true] at hmore
    obtain ⟨p, hp, heq⟩ := Option.map_eq_some_iff.mp hmore
    simp only [Prod.mk.injEq] at heq
    exact heq.2 ▸ ih h hp
  | case6 d rest hq hc => simp [scanQuote, hc, hq] at h
  | case7 c d rest hc hq ih =>
    simp only [scanQuote, if_neg hc, if_neg hq, Option.map_eq_none_iff] at h
    simp only [List.cons_append, scanQuote, if_neg hc, if_neg hq] at hmore
    obtain ⟨p, hp, heq⟩ := Option.map_eq_some_iff.mp hmore
    simp only [Prod.mk.injEq] at heq
    exact heq.2 ▸ ih h hp

/-- A separator absent from a text can only end in what follows it. -/
theorem splitOnce_open {separator s more before after : Text} (hsep : separator ≠ [])
    (h : splitOnce separator s = none)
    (hmore : splitOnce separator (s ++ more) = some (before, after)) :
    after.length < more.length := by
  have hlength : ∀ {t b a : Text}, splitOnce separator t = some (b, a) →
      b.length + separator.length + a.length = t.length := by
    intro t b a ht
    have := congrArg List.length (splitOnce_eq_some ht)
    simp only [List.length_append] at this
    omega
  have hpos := List.length_pos_iff.mpr hsep
  induction s generalizing before with
  | nil =>
    have hlen := hlength hmore
    simp only [List.nil_append] at hlen
    omega
  | cons c rest ih =>
    simp only [splitOnce] at h
    split at h
    · contradiction
    · rename_i hprefix
      rw [List.cons_append] at hmore
      simp only [splitOnce] at hmore
      split at hmore
      · rename_i hprefix'
        simp only [Option.some.injEq, Prod.mk.injEq] at hmore
        by_contra hcon
        have hlen := congrArg List.length hmore.2
        have hle := (List.isPrefixOf_iff_prefix.mp hprefix').length_le
        simp only [List.length_drop, List.length_cons, List.length_append] at hlen hle
        have hshort : separator <+: c :: rest := by
          refine List.prefix_of_prefix_length_le (List.isPrefixOf_iff_prefix.mp hprefix')
            (List.prefix_append (c :: rest) more) ?_
          simp only [List.length_cons]
          omega
        exact hprefix (List.isPrefixOf_iff_prefix.mpr hshort)
      · obtain ⟨p, hp, heq⟩ := Option.map_eq_some_iff.mp hmore
        simp only [Prod.mk.injEq] at heq
        simp only [Option.map_eq_none_iff] at h
        obtain ⟨p₁, p₂⟩ := p
        exact ih h (by rw [hp, ← heq.2])

/-- A lexeme that a text leaves open takes part of what follows with it. -/
theorem nextLexeme_open {c : Char} {rest more after : Text} {l : Lexeme}
    (hopen : (∃ e, nextLexeme c rest = .error e) ∨
      ∃ t, nextLexeme c rest = .ok (.lineComment t, []))
    (hne : more ≠ []) (hhead : more.head? ≠ some '\n')
    (h : nextLexeme c (rest ++ more) = .ok (l, after)) :
    after.length < more.length ∧ ∀ d, l ≠ .code d := by
  unfold nextLexeme at h hopen
  split at h
  · rename_i hquote
    simp only [if_pos hquote] at hopen
    split at h
    · contradiction
    · rename_i body after' hscan
      simp only [Except.ok.injEq, Prod.mk.injEq] at h
      obtain ⟨rfl, rfl⟩ := h
      refine ⟨?_, by simp⟩
      cases hrest : scanQuote c rest with
      | none => exact scanQuote_open hrest hscan
      | some p => simp [hrest] at hopen
  · rename_i hquote
    simp only [if_neg hquote] at hopen
    split at h
    · rename_i hcomment
      split at h
      · contradiction
      · rename_i body after' hsplit
        simp only [Except.ok.injEq, Prod.mk.injEq] at h
        obtain ⟨rfl, rfl⟩ := h
        refine ⟨?_, by simp⟩
        cases rest with
        | nil =>
          simp only [List.nil_append] at hsplit
          have hlen := congrArg List.length (splitOnce_eq_some hsplit)
          have htail := List.length_tail (l := more)
          have hpos := List.length_pos_iff.mpr hne
          simp only [List.length_append] at hlen
          omega
        | cons d rest' =>
          have hcomment' : c = '/' ∧ (d :: rest').head? = some '*' := by simpa using hcomment
          simp only [if_pos hcomment', List.tail_cons] at hopen
          cases hrest : splitOnce "*/".toList rest' with
          | none => exact splitOnce_open (by decide) hrest (by simpa using hsplit)
          | some p =>
            simp only [hrest] at hopen
            rcases hopen with ⟨e, he⟩ | ⟨t, ht⟩
            · contradiction
            · simp at ht
    · rename_i hcomment
      have hcomment' : ¬ (c = '/' ∧ rest.head? = some '*') := by
        rintro ⟨hc, hstar⟩
        apply hcomment
        cases rest with
        | nil => simp at hstar
        | cons d rest' => exact ⟨hc, by simpa using hstar⟩
      simp only [if_neg hcomment'] at hopen
      by_cases hline : startsLineComment c rest = true
      · simp only [if_pos hline] at hopen
        have hline' : startsLineComment c (rest ++ more) = true := by
          cases rest with
          | nil =>
            have hc : c = '#' := by simpa [startsLineComment] using hline
            simp [startsLineComment, hc]
          | cons d rest' => simpa [startsLineComment] using hline
        rw [if_pos hline'] at h
        simp only [Except.ok.injEq, Prod.mk.injEq] at h
        obtain ⟨rfl, rfl⟩ := h
        refine ⟨?_, by simp⟩
        have hall : ∀ x ∈ c :: rest, notLineFeed x = true := by
          rcases hopen with ⟨e, he⟩ | ⟨t, ht⟩
          · contradiction
          · simp only [Except.ok.injEq, Prod.mk.injEq] at ht
            exact List.dropWhile_eq_nil_iff.mp ht.2
        rw [← List.cons_append, List.dropWhile_append_of_pos hall]
        cases more with
        | nil => exact absurd rfl hne
        | cons d more' =>
          have hd : notLineFeed d = true := by
            simpa [notLineFeed] using hhead
          simp only [List.dropWhile_cons, hd, if_true, List.length_cons]
          exact Nat.lt_succ_of_le (List.length_dropWhile_le _ _)
      · simp [if_neg hline] at hopen

end Open

section Scan

variable {fuel depth : ℕ}

/-- The text after the partner is a proper suffix of the scanned text. -/
theorem closeParenFrom_length {s after : Text} (h : closeParenFrom fuel depth s = some after) :
    after.length < s.length := by
  induction fuel generalizing depth s with
  | zero => cases s <;> simp [closeParenFrom] at h
  | succ fuel ih =>
    cases s with
    | nil => simp [closeParenFrom] at h
    | cons c rest =>
      simp only [closeParenFrom] at h
      split at h
      · contradiction
      · rename_i l after' hlex
        have hlen := nextLexeme_length hlex
        have hstep : ∀ {d : ℕ}, closeParenFrom fuel d after' = some after →
            after.length < (c :: rest).length := by
          intro d hd
          have := ih hd
          simp only [List.length_cons]
          omega
        split at h
        · exact hstep h
        · split at h
          · split at h
            · cases Option.some.inj h
              simp only [List.length_cons]
              omega
            · exact hstep h
          · exact hstep h

theorem closeParenFrom_suffix {s after : Text} (h : closeParenFrom fuel depth s = some after) :
    after <:+ s := by
  induction fuel generalizing depth s with
  | zero => cases s <;> simp [closeParenFrom] at h
  | succ fuel ih =>
    cases s with
    | nil => simp [closeParenFrom] at h
    | cons c rest =>
      simp only [closeParenFrom] at h
      split at h
      · contradiction
      · rename_i l after' hlex
        have hsuffix : after' <:+ c :: rest := ⟨l.text, (nextLexeme_text hlex).1.symm⟩
        split at h
        · exact (ih h).trans hsuffix
        · split at h
          · split at h
            · cases Option.some.inj h
              exact hsuffix
            · exact (ih h).trans hsuffix
          · exact (ih h).trans hsuffix

theorem closeParenFrom_nil {post : Text} :
    closeParenFrom (fuel + 1) depth (')' :: post) = some post ↔ depth = 0 := by
  have hlex : nextLexeme ')' post = .ok (.code ')', post) := by
    unfold nextLexeme
    rw [if_neg (by decide), if_neg (by simp), if_neg (by simp [startsLineComment])]
  cases depth with
  | zero => simp [closeParenFrom, hlex]
  | succ depth =>
    simp only [closeParenFrom, hlex, Nat.add_eq_zero_iff, one_ne_zero, and_false, iff_false]
    intro h
    have := closeParenFrom_length (by simpa using h)
    omega

/-- A parenthesis put behind a text is the partner of the one before it exactly
when the text comes back to the outer depth by itself. -/
theorem closeParenFrom_append {fuel' : ℕ} {s post : Text} (hfuel : s.length ≤ fuel')
    (hfuel' : s.length + 1 ≤ fuel) :
    closeParenFrom fuel depth (s ++ ')' :: post) = some post ↔
      depthFrom fuel' depth s = some 0 := by
  induction fuel' generalizing fuel depth s with
  | zero =>
    have hnil : s = [] := List.length_eq_zero_iff.mp (Nat.le_zero.mp hfuel)
    subst hnil
    obtain ⟨fuel, rfl⟩ : ∃ n, fuel = n + 1 := ⟨fuel - 1, by omega⟩
    rw [List.nil_append, closeParenFrom_nil]
    simp [depthFrom]
  | succ fuel' ih =>
    obtain ⟨fuel, rfl⟩ : ∃ n, fuel = n + 1 := ⟨fuel - 1, by omega⟩
    cases s with
    | nil =>
      rw [List.nil_append, closeParenFrom_nil]
      simp [depthFrom]
    | cons c rest =>
      simp only [List.length_cons] at hfuel hfuel'
      rw [List.cons_append]
      by_cases hopen : (∃ e, nextLexeme c rest = .error e) ∨
          ∃ t, nextLexeme c rest = .ok (.lineComment t, [])
      · -- the lexeme goes on into what follows: the parenthesis is not read
        have hdepth : depthFrom (fuel' + 1) depth (c :: rest) = none := by
          rcases hopen with ⟨e, he⟩ | ⟨t, ht⟩
          · simp [depthFrom, he]
          · simp [depthFrom, ht, Lexeme.isLineComment]
        rw [hdepth]
        simp only [reduceCtorEq, iff_false]
        intro h
        simp only [closeParenFrom] at h
        split at h
        · contradiction
        · rename_i l after hlex
          obtain ⟨hlen, hcode⟩ := nextLexeme_open hopen (by simp) (by simp) hlex
          rw [if_neg (hcode '('), if_neg (hcode ')')] at h
          have hshort := closeParenFrom_length h
          simp only [List.length_cons] at hlen
          omega
      · cases hlex : nextLexeme c rest with
        | error e => exact absurd (Or.inl ⟨e, hlex⟩) hopen
        | ok p =>
          obtain ⟨l, after⟩ := p
          have hline : ¬ (l.isLineComment ∧ after = []) := by
            rintro ⟨hl, rfl⟩
            cases l <;> simp [Lexeme.isLineComment] at hl
            exact hopen (Or.inr ⟨_, hlex⟩)
          have hmore : nextLexeme c (rest ++ ')' :: post) = .ok (l, after ++ ')' :: post) := by
            refine nextLexeme_append _ hlex fun hnil => ⟨?_, ?_⟩
            · simpa [hnil] using hline
            · intro d hd
              cases Option.some.inj hd
              decide
          have hlen := nextLexeme_length hlex
          have hrec : ∀ d, closeParenFrom fuel d (after ++ ')' :: post) = some post ↔
              depthFrom fuel' d after = some 0 := fun d => ih (by omega) (by omega)
          simp only [closeParenFrom, depthFrom, hlex, hmore, if_neg hline]
          split
          · exact hrec _
          · split
            · cases depth with
              | zero =>
                simp only [Option.some.injEq, reduceCtorEq, iff_false]
                intro heq
                have := congrArg List.length heq
                simp only [List.length_append, List.length_cons] at this
                omega
              | succ depth => exact hrec depth
            · exact hrec depth

theorem closeParen_append (s post : Text) :
    closeParen (s ++ ')' :: post) = some post ↔ selfContained s = true := by
  unfold closeParen selfContained
  rw [closeParenFrom_append (Nat.le_refl _) (by simp only [List.length_append, List.length_cons]; omega)]
  simp

end Scan

end RayClickHouse.Lexical
