import RayClickHouse.QueryCode

/-!
Which texts the lexemes are. A lexeme is determined by its own text and by the one
character behind it, so a list of lexemes is the reading of its text exactly when each
of them may stand before the next.
-/
namespace RayClickHouse.Lexical

open Text

inductive Closes (q : Char) : Text → Prop
  | close : Closes q [q]
  | escape {c : Char} {s : Text} : Closes q s → Closes q ('\\' :: c :: s)
  | doubled {s : Text} : Closes q s → Closes q (q :: q :: s)
  | plain {c : Char} {s : Text} : c ≠ '\\' → c ≠ q → Closes q s → Closes q (c :: s)

/-- What the text of a lexeme is, and which character may come next. -/
def WellLexed : Lexeme → Option Char → Prop
  | .quoted t, next =>
      ∃ q body, t = q :: body ∧ isQuoteChar q = true ∧ Closes q body ∧ next ≠ some q
  | .blockComment t, _ =>
      ∃ body, t = "/*".toList ++ (body ++ "*/".toList) ∧
        splitOnce "*/".toList (body ++ "*/".toList) = some (body, [])
  | .lineComment t, next =>
      (∃ more, t = '#' :: more ∨ t = '-' :: '-' :: more) ∧ (∀ c ∈ t, notLineFeed c = true) ∧
        (next = none ∨ next = some '\n')
  | .code c, next =>
      isQuoteChar c = false ∧ c ≠ '#' ∧ (c = '/' → next ≠ some '*') ∧ (c = '-' → next ≠ some '-')

def Chained : List Lexeme → Prop
  | [] => True
  | l :: ls => WellLexed l (plainText ls).head? ∧ Chained ls

section Quotes

variable {q c : Char} {s body after : Text}

theorem Closes.ne_nil (h : Closes q s) : s ≠ [] := by
  cases h <;> exact List.cons_ne_nil _ _

/-- A closed quote before another opening of the same quote is a doubled quote. -/
theorem Closes.glue {t : Text} (h : Closes q s) (ht : Closes q t) : Closes q (s ++ q :: t) := by
  induction h with
  | close => exact .doubled ht
  | escape _ ih => exact .escape ih
  | doubled _ ih => exact .doubled ih
  | plain hescape hc _ ih => exact .plain hescape hc ih

theorem closes_of_scanQuote (h : scanQuote q s = some (body, after)) :
    Closes q body ∧ after.head? ≠ some q := by
  induction s using scanQuote.induct q generalizing body after with
  | case1 => simp [scanQuote] at h
  | case2 c hc =>
    simp only [scanQuote, if_pos hc, Option.some.injEq, Prod.mk.injEq] at h
    obtain ⟨rfl, rfl⟩ := h
    rw [hc.2]
    exact ⟨.close, by simp⟩
  | case3 c hc => simp [scanQuote, hc] at h
  | case4 d rest ih =>
    simp only [scanQuote, if_true] at h
    obtain ⟨p, hp, heq⟩ := Option.map_eq_some_iff.mp h
    obtain ⟨rfl, rfl⟩ := Prod.mk.inj heq
    exact ⟨.escape (ih hp).1, (ih hp).2⟩
  | case5 rest hc ih =>
    simp only [scanQuote, if_neg hc, if_true] at h
    obtain ⟨p, hp, heq⟩ := Option.map_eq_some_iff.mp h
    obtain ⟨rfl, rfl⟩ := Prod.mk.inj heq
    exact ⟨.doubled (ih hp).1, (ih hp).2⟩
  | case6 d rest hq hc =>
    simp only [scanQuote, if_neg hc, if_neg hq, if_true, Option.some.injEq, Prod.mk.injEq] at h
    obtain ⟨rfl, rfl⟩ := h
    exact ⟨.close, by simpa using hq⟩
  | case7 c d rest hc hq ih =>
    simp only [scanQuote, if_neg hc, if_neg hq] at h
    obtain ⟨p, hp, heq⟩ := Option.map_eq_some_iff.mp h
    obtain ⟨rfl, rfl⟩ := Prod.mk.inj heq
    exact ⟨.plain hc hq (ih hp).1, (ih hp).2⟩

theorem Closes.scanQuote (h : Closes q body) (hq : q ≠ '\\') (hafter : after.head? ≠ some q) :
    scanQuote q (body ++ after) = some (body, after) := by
  induction h with
  | close =>
    cases after with
    | nil => simp [Lexical.scanQuote, hq]
    | cons d after =>
      have hd : d ≠ q := by simpa using hafter
      simp [Lexical.scanQuote, hq, hd]
  | escape _ ih => simp [Lexical.scanQuote, ih]
  | doubled _ ih => simp [Lexical.scanQuote, hq, ih]
  | @plain c s hescape hc hclosed ih =>
    obtain ⟨d, s, rfl⟩ := List.exists_cons_of_ne_nil hclosed.ne_nil
    simp only [List.cons_append] at ih
    simp [Lexical.scanQuote, hescape, hc, ih]

end Quotes

section Forms

variable {c : Char} {rest after : Text} {l : Lexeme} {ls ms : List Lexeme} {value : Text}

theorem splitOnce_truncate {separator body : Text}
    (h : splitOnce separator (body ++ separator ++ after) = some (body, after)) :
    splitOnce separator (body ++ separator) = some (body, []) := by
  induction body with
  | nil =>
    cases separator with
    | nil => rfl
    | cons d separator =>
      have hprefix : (d :: separator).isPrefixOf (d :: separator) = true :=
        List.isPrefixOf_iff_prefix.mpr (List.prefix_refl _)
      rw [List.nil_append, splitOnce, if_pos hprefix, List.drop_length]
  | cons b body ih =>
    simp only [List.cons_append, splitOnce] at h ⊢
    split at h
    · simp at h
    · rename_i hprefix
      obtain ⟨⟨before, more⟩, hrest, heq⟩ := Option.map_eq_some_iff.mp h
      obtain ⟨hbefore, hmore⟩ := Prod.mk.inj heq
      obtain rfl := (List.cons.inj hbefore).2
      have hshort : ¬ separator.isPrefixOf (b :: (before ++ separator)) = true := by
        intro hcon
        apply hprefix
        have hlong := (List.isPrefixOf_iff_prefix.mp hcon).trans
          (List.prefix_append (b :: (before ++ separator)) after)
        exact List.isPrefixOf_iff_prefix.mpr hlong
      subst hmore
      rw [if_neg hshort, ih hrest]
      rfl

theorem isQuoteChar_ne (h : isQuoteChar c = true) : c ≠ '\\' ∧ c ≠ '/' ∧ c ≠ '-' ∧ c ≠ '#' := by
  refine ⟨?_, ?_, ?_, ?_⟩
  · rintro rfl
    contradiction
  · rintro rfl
    contradiction
  · rintro rfl
    contradiction
  · rintro rfl
    contradiction

/-- A lexeme is well formed where it is read. -/
theorem wellLexed_of_next (h : nextLexeme c rest = .ok (l, after)) : WellLexed l after.head? := by
  have htext := (nextLexeme_text h).1
  unfold nextLexeme at h
  split at h
  · rename_i hq
    split at h
    · contradiction
    · rename_i body after' hscan
      obtain ⟨rfl, rfl⟩ := Prod.mk.inj (Except.ok.inj h)
      obtain ⟨hcloses, hnext⟩ := closes_of_scanQuote hscan
      exact ⟨c, body, rfl, hq, hcloses, hnext⟩
  · rename_i hq
    split at h
    · split at h
      · contradiction
      · rename_i body after' hsplit
        obtain ⟨rfl, rfl⟩ := Prod.mk.inj (Except.ok.inj h)
        have hshape := splitOnce_eq_some hsplit
        rw [hshape] at hsplit
        exact ⟨body, by simp, splitOnce_truncate hsplit⟩
    · rename_i hopen
      split at h
      · rename_i hline
        obtain ⟨rfl, rfl⟩ := Prod.mk.inj (Except.ok.inj h)
        refine ⟨?_, fun d hd => List.mem_takeWhile_imp hd, ?_⟩
        · simp only [startsLineComment, Bool.or_eq_true, Bool.and_eq_true, beq_iff_eq] at hline
          obtain ⟨rfl, hdash⟩ | rfl := hline
          · obtain ⟨more, rfl⟩ := List.head?_eq_some_iff.mp hdash
            exact ⟨more.takeWhile notLineFeed, Or.inr rfl⟩
          · exact ⟨rest.takeWhile notLineFeed, Or.inl rfl⟩
        · cases hdrop : ((c :: rest).dropWhile notLineFeed).head? with
          | none => exact Or.inl rfl
          | some d =>
            have hnot := List.head?_dropWhile_not notLineFeed (c :: rest)
            rw [hdrop] at hnot
            have hd : d = '\n' := by simpa [notLineFeed] using hnot
            exact Or.inr (congrArg some hd)
      · rename_i hline
        obtain ⟨rfl, rfl⟩ := Prod.mk.inj (Except.ok.inj h)
        simp only [startsLineComment, Bool.or_eq_true, Bool.and_eq_true, beq_iff_eq, not_or,
          not_and] at hline
        exact ⟨Bool.eq_false_iff.mpr hq, hline.2, fun hslash hstar => hopen ⟨hslash, hstar⟩,
          hline.1⟩

theorem WellLexed.text_ne_nil {next : Option Char} (h : WellLexed l next) : l.text ≠ [] := by
  cases l with
  | quoted t =>
    obtain ⟨q, body, rfl, -⟩ := h
    exact List.cons_ne_nil _ _
  | blockComment t =>
    obtain ⟨body, rfl, -⟩ := h
    exact List.cons_ne_nil _ _
  | lineComment t =>
    obtain ⟨⟨more, rfl | rfl⟩, -⟩ := h
    · exact List.cons_ne_nil _ _
    · exact List.cons_ne_nil _ _
  | code c => exact List.cons_ne_nil _ _

theorem lineFeed_stops (hs : ∀ d ∈ value, notLineFeed d = true)
    (hafter : after.head? = none ∨ after.head? = some '\n') :
    (value ++ after).takeWhile notLineFeed = value ∧
      (value ++ after).dropWhile notLineFeed = after := by
  rw [List.takeWhile_append_of_pos hs, List.dropWhile_append_of_pos hs]
  cases after with
  | nil => simp
  | cons d after =>
    have hd : d = '\n' := by simpa using hafter
    simp [hd, notLineFeed]

/-- A well formed lexeme is read where it stands. -/
theorem WellLexed.next (h : WellLexed l after.head?) (hne : l.text ++ after = c :: rest) :
    nextLexeme c rest = .ok (l, after) := by
  unfold nextLexeme
  cases l with
  | quoted t =>
    obtain ⟨q, body, rfl, hq, hcloses, hnext⟩ := h
    obtain ⟨rfl, htail⟩ := List.cons.inj hne
    have hrest : rest = body ++ after := htail.symm
    rw [if_pos hq, hrest, hcloses.scanQuote (isQuoteChar_ne hq).1 hnext]
  | blockComment t =>
    obtain ⟨body, rfl, hsplit⟩ := h
    obtain ⟨rfl, htail⟩ := List.cons.inj hne
    have hrest : rest = '*' :: (body ++ "*/".toList ++ after) := htail.symm
    rw [if_neg (by decide), hrest, if_pos ⟨rfl, rfl⟩, List.tail_cons, splitOnce_append after hsplit]
    simp
  | lineComment t =>
    obtain ⟨hstart, hall, hnext⟩ := h
    obtain ⟨htake, hdrop⟩ := lineFeed_stops hall hnext
    have hline : startsLineComment c rest = true ∧ isQuoteChar c = false ∧ c ≠ '/' := by
      obtain ⟨more, rfl | rfl⟩ := hstart
      · obtain ⟨rfl, -⟩ := List.cons.inj hne
        exact ⟨rfl, rfl, by decide⟩
      · obtain ⟨rfl, rfl⟩ := List.cons.inj hne
        exact ⟨rfl, rfl, by decide⟩
    rw [Lexeme.text] at hne
    rw [hne] at htake hdrop
    rw [if_neg (by simp [hline.2.1]), if_neg fun hopen => hline.2.2 hopen.1, if_pos hline.1,
      htake, hdrop]
  | code d =>
    obtain ⟨hq, hhash, hslash, hdash⟩ := h
    obtain ⟨rfl, rfl⟩ := List.cons.inj hne
    have hline : startsLineComment d after = false := by
      simp only [startsLineComment, Bool.or_eq_false_iff, Bool.and_eq_false_iff,
        beq_eq_false_iff_ne]
      exact ⟨not_and_or.mp fun hcon => hdash hcon.1 hcon.2, hhash⟩
    exact (if_neg (by simp [hq])).trans ((if_neg fun hopen => hslash hopen.1 hopen.2).trans
      (if_neg (by simp [hline])))

theorem lexes_iff : Lexes value ls ↔ value = plainText ls ∧ Chained ls := by
  constructor
  · intro h
    refine ⟨h.text, ?_⟩
    induction h with
    | nil => trivial
    | @cons c rest after l ls hnext hrest ih =>
      refine ⟨?_, ih⟩
      rw [← hrest.text]
      exact wellLexed_of_next hnext
  · rintro ⟨rfl, hchained⟩
    induction ls with
    | nil => exact .nil
    | cons l ls ih =>
      obtain ⟨hwell, hrest⟩ := hchained
      obtain ⟨c, rest, htext⟩ : ∃ c rest, l.text ++ plainText ls = c :: rest :=
        List.exists_cons_of_ne_nil (List.append_ne_nil_of_left_ne_nil hwell.text_ne_nil _)
      rw [plainText_cons, htext]
      exact .cons (hwell.next htext) (ih hrest)

end Forms

section Removal

variable {front back : List Lexeme} {l : Lexeme} {c : Char}

def Silent : Lexeme → Prop
  | .code c => isSpace c = true
  | _ => True

theorem silent_head {d : Char} (hback : ∀ l ∈ back, Silent l) (hchained : Chained back)
    (h : (plainText back).head? = some d) :
    isSpace d = true ∨ isQuoteChar d = true ∨ d = '/' ∨ d = '-' ∨ d = '#' := by
  cases back with
  | nil => contradiction
  | cons l back =>
    obtain ⟨hwell, -⟩ := hchained
    have hsilent := hback l (List.mem_cons_self ..)
    cases l with
    | quoted t =>
      obtain ⟨q, body, rfl, hq, -⟩ := hwell
      obtain rfl := Option.some.inj h
      exact Or.inr (Or.inl hq)
    | blockComment t =>
      obtain ⟨body, rfl, -⟩ := hwell
      obtain rfl := Option.some.inj h
      exact Or.inr (Or.inr (Or.inl rfl))
    | lineComment t =>
      obtain ⟨⟨more, rfl | rfl⟩, -⟩ := hwell
      · obtain rfl := Option.some.inj h
        exact Or.inr (Or.inr (Or.inr (Or.inr rfl)))
      · obtain rfl := Option.some.inj h
        exact Or.inr (Or.inr (Or.inr (Or.inl rfl)))
    | code c =>
      obtain rfl := Option.some.inj h
      exact Or.inl hsilent

/-- A silent text that begins with a quote begins with a quoted text. -/
theorem silent_quote {q : Char} (hq : isQuoteChar q = true) (hback : ∀ l ∈ back, Silent l)
    (hchained : Chained back) (h : (plainText back).head? = some q) :
    ∃ body more, back = .quoted (q :: body) :: more ∧ Closes q body ∧
      (plainText more).head? ≠ some q ∧ Chained more := by
  obtain ⟨-, hslash, hdash, hhash⟩ := isQuoteChar_ne hq
  cases back with
  | nil => contradiction
  | cons l back =>
    obtain ⟨hwell, hchained⟩ := hchained
    have hsilent := hback l (List.mem_cons_self ..)
    cases l with
    | quoted t =>
      obtain ⟨q', body, rfl, -, hcloses, hnext⟩ := hwell
      obtain rfl := Option.some.inj h
      exact ⟨body, back, rfl, hcloses, hnext, hchained⟩
    | blockComment t =>
      obtain ⟨body, rfl, -⟩ := hwell
      exact absurd (Option.some.inj h).symm hslash
    | lineComment t =>
      obtain ⟨⟨more, rfl | rfl⟩, -⟩ := hwell
      · exact absurd (Option.some.inj h).symm hhash
      · exact absurd (Option.some.inj h).symm hdash
    | code c =>
      obtain rfl := Option.some.inj h
      rw [hwell.1] at hq
      contradiction

/-- A silent text that begins with a dash begins with a comment. -/
theorem silent_dash (hback : ∀ l ∈ back, Silent l) (hchained : Chained back)
    (h : (plainText back).head? = some '-') :
    ∃ t more, back = .lineComment ('-' :: t) :: more := by
  cases back with
  | nil => contradiction
  | cons l back =>
    obtain ⟨hwell, -⟩ := hchained
    have hsilent := hback l (List.mem_cons_self ..)
    cases l with
    | quoted t =>
      obtain ⟨q, body, rfl, hq, -⟩ := hwell
      obtain rfl := Option.some.inj h
      contradiction
    | blockComment t =>
      obtain ⟨body, rfl, -⟩ := hwell
      exact absurd (Option.some.inj h) (by decide)
    | lineComment t =>
      obtain ⟨⟨more, rfl | rfl⟩, -⟩ := hwell
      · exact absurd (Option.some.inj h) (by decide)
      · exact ⟨_, back, rfl⟩
    | code c =>
      obtain rfl := Option.some.inj h
      exact absurd (show isSpace '-' = true from hsilent) (by decide)

/-- What the masked text becomes when a character between the two lists is taken out:
a dash in front of a comment joins the comment. -/
def Joined (front back : List Lexeme) (code : Text) : Prop :=
  code = codeText front ++ codeText back ∨
    ∃ first, front = first ++ [.code '-'] ∧ code = codeText first ++ ' ' :: codeText back

theorem Joined.cons {code : Text} (h : Joined front back code) (l : Lexeme) :
    Joined (l :: front) back (l.mask ++ code) := by
  obtain rfl | ⟨first, rfl, rfl⟩ := h
  · left
    rw [codeText_cons, List.append_assoc]
  · right
    refine ⟨l :: first, rfl, ?_⟩
    rw [codeText_cons, List.append_assoc]

/-- The lexeme before the semicolon meets the one behind it. -/
theorem chained_meeting (hwell : WellLexed l (some ';')) (hback : ∀ l ∈ back, Silent l)
    (h : Chained back) : ∃ ls, plainText ls = l.text ++ plainText back ∧ Chained ls ∧
      Joined [l] back (codeText ls) := by
  by_cases hnext : WellLexed l (plainText back).head?
  · exact ⟨l :: back, rfl, ⟨hnext, h⟩, Or.inl (by simp)⟩
  · cases l with
    | quoted t =>
      obtain ⟨q, body, rfl, hq, hcloses, -⟩ := hwell
      have hhead : (plainText back).head? = some q := by
        by_contra hne
        exact hnext ⟨q, body, rfl, hq, hcloses, hne⟩
      obtain ⟨body', more, rfl, hcloses', hmore, hchained⟩ := silent_quote hq hback h hhead
      refine ⟨.quoted (q :: (body ++ q :: body')) :: more, ?_, ?_, ?_⟩
      · simp [Lexeme.text]
      · exact ⟨⟨q, _, rfl, hq, hcloses.glue hcloses', hmore⟩, hchained⟩
      · left
        simp [Lexeme.mask, List.replicate_add, List.replicate_succ]
    | blockComment t => exact absurd hwell hnext
    | lineComment t =>
      obtain ⟨-, -, hcon | hcon⟩ := hwell
      · contradiction
      · exact absurd (Option.some.inj hcon) (by decide)
    | code c =>
      obtain ⟨hq, hhash, -, -⟩ := hwell
      have hclash : (c = '/' ∧ (plainText back).head? = some '*') ∨
          (c = '-' ∧ (plainText back).head? = some '-') := by
        by_contra hcon
        rw [not_or, not_and, not_and] at hcon
        exact hnext ⟨hq, hhash, hcon.1, hcon.2⟩
      obtain ⟨rfl, hstar⟩ | ⟨rfl, hdash⟩ := hclash
      · have hnone : ¬ (isSpace '*' = true ∨ isQuoteChar '*' = true ∨ '*' = '/' ∨ '*' = '-' ∨
            '*' = '#') := by
          decide
        exact absurd (silent_head hback h hstar) hnone
      · obtain ⟨t, more, rfl⟩ := silent_dash hback h hdash
        obtain ⟨⟨-, hall, hend⟩, hchained⟩ := h
        refine ⟨.lineComment ('-' :: '-' :: t) :: more, rfl, ⟨⟨⟨t, Or.inr rfl⟩, ?_, hend⟩, hchained⟩,
          Or.inr ⟨[], rfl, rfl⟩⟩
        rw [List.forall_mem_cons]
        exact ⟨rfl, hall⟩

/-- Taking out a semicolon before silent lexemes joins at most two lexemes. -/
theorem chained_removal (hback : ∀ l ∈ back, Silent l)
    (h : Chained (front ++ .code ';' :: back)) :
    ∃ ls, plainText ls = plainText front ++ plainText back ∧ Chained ls ∧
      Joined front back (codeText ls) := by
  induction front with
  | nil => exact ⟨back, rfl, h.2, Or.inl rfl⟩
  | cons l front ih =>
    obtain ⟨hwell, hrest⟩ := h
    cases front with
    | nil =>
      obtain ⟨ls, hplain, hchained, hjoined⟩ := chained_meeting hwell hback hrest.2
      refine ⟨ls, ?_, hchained, hjoined⟩
      rw [hplain, plainText_cons, plainText_nil, List.append_nil]
    | cons m front =>
      obtain ⟨ls, hplain, hchained, hjoined⟩ := ih hrest
      have hne : m.text ≠ [] := hrest.1.text_ne_nil
      have hhead : ∀ more : Text, (plainText (m :: front) ++ more).head? = m.text.head? := by
        intro more
        rw [plainText_cons, List.append_assoc, List.head?_append_of_ne_nil _ hne]
      refine ⟨l :: ls, ?_, ⟨?_, hchained⟩, ?_⟩
      · rw [plainText_cons, hplain, ← List.append_assoc]
        rfl
      · have hsame : (plainText (m :: front ++ .code ';' :: back)).head? = m.text.head? := by
          rw [plainText_append, hhead]
        rw [hplain, hhead, ← hsame]
        exact hwell
      · rw [codeText_cons]
        exact hjoined.cons l

end Removal

end RayClickHouse.Lexical
