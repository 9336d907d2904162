import RayClickHouse.Errors

/-!
The quote and comment rules that the SQL gates share. A lexeme is one quoted
text, one comment or a single character of code; a quoted text escapes its own
quote by a backslash or by doubling it, and a line comment ends before its line
feed. Reading a lexeme is stable under what follows it, except for a line
comment that the end of the text leaves open.
-/
namespace RayClickHouse.Lexical

open Text

inductive Lexeme
  | quoted (text : Text)
  | blockComment (text : Text)
  | lineComment (text : Text)
  | code (c : Char)
  deriving DecidableEq, Repr

inductive LexError
  | unterminatedQuote
  | unterminatedComment
  deriving DecidableEq, Repr

namespace Lexeme

def text : Lexeme → Text
  | quoted t => t
  | blockComment t => t
  | lineComment t => t
  | code c => [c]

def isLineComment : Lexeme → Bool
  | lineComment _ => true
  | _ => false

end Lexeme

def isQuoteChar (c : Char) : Bool := c == '\'' || c == '"' || c == '`'

def scanQuote (q : Char) : Text → Option (Text × Text)
  | [] => none
  | [c] => if c ≠ '\\' ∧ c = q then some ([c], []) else none
  | c :: d :: rest =>
      if c = '\\' then (scanQuote q rest).map fun p => (c :: d :: p.1, p.2)
      else if c = q then
        if d = q then (scanQuote q rest).map fun p => (c :: d :: p.1, p.2)
        else some ([c], d :: rest)
      else (scanQuote q (d :: rest)).map fun p => (c :: p.1, p.2)

def startsLineComment (c : Char) (rest : Text) : Bool :=
  (c == '-' && rest.head? == some '-') || c == '#'

def notLineFeed (c : Char) : Bool := c != '\n'

def nextLexeme (c : Char) (rest : Text) : Except LexError (Lexeme × Text) :=
  if isQuoteChar c then
    match scanQuote c rest with
    | none => .error .unterminatedQuote
    | some (body, after) => .ok (.quoted (c :: body), after)
  else if c = '/' ∧ rest.head? = some '*' then
    match splitOnce "*/".toList rest.tail with
    | none => .error .unterminatedComment
    | some (body, after) => .ok (.blockComment ("/*".toList ++ body ++ "*/".toList), after)
  else if startsLineComment c rest then
    .ok (.lineComment ((c :: rest).takeWhile notLineFeed), (c :: rest).dropWhile notLineFeed)
  else .ok (.code c, rest)

/-- What may follow a lexeme at the end of a text without joining it. -/
def seam (d : Char) : Bool := !(isQuoteChar d || d == '*' || d == '-')

section Split

theorem splitOnce_eq_some {separator s before after : Text}
    (h : splitOnce separator s = some (before, after)) :
    s = before ++ separator ++ after := by
  induction s generalizing before with
  | nil =>
    simp only [splitOnce] at h
    split at h
    · rename_i hnil
      simp only [Option.some.injEq, Prod.mk.injEq] at h
      obtain ⟨rfl, rfl⟩ := h
      simp [hnil]
    · contradiction
  | cons c rest ih =>
    simp only [splitOnce] at h
    split at h
    · rename_i hprefix
      simp only [Option.some.injEq, Prod.mk.injEq] at h
      obtain ⟨rfl, rfl⟩ := h
      obtain ⟨tail, htail⟩ := List.isPrefixOf_iff_prefix.mp hprefix
      rw [← htail]
      simp
    · obtain ⟨⟨b, a⟩, hrest, heq⟩ := Option.map_eq_some_iff.mp h
      simp only [Prod.mk.injEq] at heq
      obtain ⟨rfl, rfl⟩ := heq
      rw [ih hrest]
      simp

/-- The first occurrence of a separator stays the first one in a longer text. -/
theorem splitOnce_append {separator s before after : Text} (more : Text)
    (h : splitOnce separator s = some (before, after)) :
    splitOnce separator (s ++ more) = some (before, after ++ more) := by
  induction s generalizing before with
  | nil =>
    simp only [splitOnce] at h
    split at h
    · rename_i hnil
      simp only [Option.some.injEq, Prod.mk.injEq] at h
      obtain ⟨rfl, rfl⟩ := h
      subst hnil
      cases more <;> simp [splitOnce]
    · contradiction
  | cons c rest ih =>
    have hsplit := splitOnce_eq_some h
    simp only [splitOnce] at h
    rw [List.cons_append, splitOnce]
    split at h
    · rename_i hprefix
      simp only [Option.some.injEq, Prod.mk.injEq] at h
      obtain ⟨rfl, rfl⟩ := h
      have hp := List.isPrefixOf_iff_prefix.mp hprefix
      have hmore : separator.isPrefixOf (c :: (rest ++ more)) = true :=
        List.isPrefixOf_iff_prefix.mpr (hp.trans (List.prefix_append (c :: rest) more))
      rw [if_pos hmore, ← List.cons_append, List.drop_append_of_le_length hp.length_le]
    · rename_i hprefix
      obtain ⟨⟨b, a⟩, hrest, heq⟩ := Option.map_eq_some_iff.mp h
      simp only [Prod.mk.injEq] at heq
      obtain ⟨rfl, rfl⟩ := heq
      have hlen : separator.length ≤ (c :: rest).length := by
        rw [hsplit]
        simp only [List.length_append]
        omega
      have hmore : separator.isPrefixOf (c :: (rest ++ more)) = false := by
        by_contra hcon
        have hp := List.isPrefixOf_iff_prefix.mp (Bool.not_eq_false _ ▸ hcon)
        have hshort : separator <+: c :: rest :=
          List.prefix_of_prefix_length_le hp (List.prefix_append (c :: rest) more) hlen
        exact hprefix (List.isPrefixOf_iff_prefix.mpr hshort)
      rw [if_neg (by simp [hmore]), ih hrest]
      rfl

end Split

section Quote

theorem scanQuote_eq_some {q : Char} {s body after : Text}
    (h : scanQuote q s = some (body, after)) : s = body ++ after ∧ body ≠ [] := by
  induction s using scanQuote.induct q generalizing body after with
  | case1 => simp [scanQuote] at h
  | case2 c hc =>
    simp only [scanQuote, if_pos hc, Option.some.injEq, Prod.mk.injEq] at h
    obtain ⟨rfl, rfl⟩ := h
    simp
  | case3 c hc => simp [scanQuote, hc] at h
  | case4 d rest ih =>
    simp only [scanQuote, if_true] at h
    obtain ⟨p, hp, heq⟩ := Option.map_eq_some_iff.mp h
    simp only [Prod.mk.injEq] at heq
    obtain ⟨rfl, rfl⟩ := heq
    exact ⟨by simpa using (ih hp).1, by simp⟩
  | case5 rest hc ih =>
    simp only [scanQuote, if_neg hc, if_true] at h
    obtain ⟨p, hp, heq⟩ := Option.map_eq_some_iff.mp h
    simp only [Prod.mk.injEq] at heq
    obtain ⟨rfl, rfl⟩ := heq
    exact ⟨by simpa using (ih hp).1, by simp⟩
  | case6 d rest hq hc =>
    simp only [scanQuote, if_neg hc, if_neg hq, if_true, Option.some.injEq, Prod.mk.injEq] at h
    obtain ⟨rfl, rfl⟩ := h
    simp
  | case7 c d rest hc hq ih =>
    simp only [scanQuote, if_neg hc, if_neg hq] at h
    obtain ⟨p, hp, heq⟩ := Option.map_eq_some_iff.mp h
    simp only [Prod.mk.injEq] at heq
    obtain ⟨rfl, rfl⟩ := heq
    exact ⟨by simpa using (ih hp).1, by simp⟩

/-- A closed quoted text stays closed there unless the same quote follows it. -/
theorem scanQuote_append {q : Char} {s body after : Text} (more : Text)
    (h : scanQuote q s = some (body, after)) (hseam : after = [] → more.head? ≠ some q) :
    scanQuote q (s ++ more) = some (body, after ++ more) := by
  induction s using scanQuote.induct q generalizing body after with
  | case1 => simp [scanQuote] at h
  | case2 c hc =>
    simp only [scanQuote, if_pos hc, Option.some.injEq, Prod.mk.injEq] at h
    obtain ⟨rfl, rfl⟩ := h
    cases more with
    | nil => simpa [scanQuote] using hc
    | cons d rest =>
      have hd : d ≠ c := by simpa [hc.2] using hseam rfl
      have hq : d ≠ q := hc.2 ▸ hd
      simp only [List.singleton_append, scanQuote, if_neg hc.1, if_pos hc.2, if_neg hq,
        List.nil_append]
  | case3 c hc => simp [scanQuote, hc] at h
  | case4 d rest ih =>
    simp only [scanQuote, if_true] at h
    obtain ⟨p, hp, heq⟩ := Option.map_eq_some_iff.mp h
    simp only [Prod.mk.injEq] at heq
    obtain ⟨rfl, rfl⟩ := heq
    simp only [List.cons_append, scanQuote, if_true, ih hp hseam, Option.map_some]
  | case5 rest hc ih =>
    simp only [scanQuote, if_neg hc, if_true] at h
    obtain ⟨p, hp, heq⟩ := Option.map_eq_some_iff.mp h
    simp only [Prod.mk.injEq] at heq
    obtain ⟨rfl, rfl⟩ := heq
    simp only [List.cons_append, scanQuote, if_neg hc, if_true, ih hp hseam, Option.map_some]
  | case6 d rest hq hc =>
    simp only [scanQuote, if_neg hc, if_neg hq, if_true, Option.some.injEq, Prod.mk.injEq] at h
    obtain ⟨rfl, rfl⟩ := h
    simp only [List.cons_append, scanQuote, if_neg hc, if_true, if_neg hq]
  | case7 c d rest hc hq ih =>
    simp only [scanQuote, if_neg hc, if_neg hq] at h
    obtain ⟨p, hp, heq⟩ := Option.map_eq_some_iff.mp h
    simp only [Prod.mk.injEq] at heq
    obtain ⟨rfl, rfl⟩ := heq
    have hmore := ih hp hseam
    simp only [List.cons_append] at hmore
    simp only [List.cons_append, scanQuote, if_neg hc, if_neg hq, hmore, Option.map_some]

end Quote

section Step

/-- A lexeme is not empty and its text is consumed exactly. -/
theorem nextLexeme_text {c : Char} {rest after : Text} {l : Lexeme}
    (h : nextLexeme c rest = .ok (l, after)) : c :: rest = l.text ++ after ∧ l.text ≠ [] := by
  unfold nextLexeme at h
  split at h
  · split at h
    · contradiction
    · rename_i body after' hscan
      simp only [Except.ok.injEq, Prod.mk.injEq] at h
      obtain ⟨rfl, rfl⟩ := h
      simp [Lexeme.text, (scanQuote_eq_some hscan).1]
  · split at h
    · rename_i hopen
      split at h
      · contradiction
      · rename_i body after' hsplit
        simp only [Except.ok.injEq, Prod.mk.injEq] at h
        obtain ⟨rfl, rfl⟩ := h
        cases rest with
        | nil => simp at hopen
        | cons d rest' =>
          have hd : d = '*' := by simpa using hopen.2
          have htail := splitOnce_eq_some hsplit
          simp only [List.tail_cons] at htail
          simp [Lexeme.text, hopen.1, hd, htail]
    · split at h
      · rename_i hline
        simp only [Except.ok.injEq, Prod.mk.injEq] at h
        obtain ⟨rfl, rfl⟩ := h
        have hc : notLineFeed c = true := by
          simp only [startsLineComment, Bool.or_eq_true, Bool.and_eq_true, beq_iff_eq] at hline
          rcases hline with ⟨rfl, _⟩ | rfl <;> decide
        refine ⟨(List.takeWhile_append_dropWhile).symm, ?_⟩
        simp [Lexeme.text, hc]
      · simp only [Except.ok.injEq, Prod.mk.injEq] at h
        obtain ⟨rfl, rfl⟩ := h
        simp [Lexeme.text]

theorem nextLexeme_length {c : Char} {rest after : Text} {l : Lexeme}
    (h : nextLexeme c rest = .ok (l, after)) : after.length ≤ rest.length := by
  obtain ⟨heq, hne⟩ := nextLexeme_text h
  have hlen := congrArg List.length heq
  have hpos := List.length_pos_iff.mpr hne
  simp only [List.length_cons, List.length_append] at hlen
  omega

/-- Reading a lexeme does not look past a seam, nor past the text after it. -/
theorem nextLexeme_append {c : Char} {rest after : Text} {l : Lexeme} (more : Text)
    (h : nextLexeme c rest = .ok (l, after))
    (hseam : after = [] → l.isLineComment = false ∧ ∀ d, more.head? = some d → seam d = true) :
    nextLexeme c (rest ++ more) = .ok (l, after ++ more) := by
  have hhead : ∀ q, isQuoteChar q = true → after = [] → more.head? ≠ some q := by
    intro q hq hafter hcon
    have := (hseam hafter).2 q hcon
    simp [seam, hq] at this
  unfold nextLexeme at h ⊢
  split at h
  · rename_i hq
    rw [if_pos hq]
    split at h
    · contradiction
    · rename_i body after' hscan
      simp only [Except.ok.injEq, Prod.mk.injEq] at h
      obtain ⟨rfl, rfl⟩ := h
      rw [scanQuote_append more hscan (hhead c hq)]
  · rename_i hq
    rw [if_neg hq]
    split at h
    · rename_i hopen
      cases rest with
      | nil => simp at hopen
      | cons d rest' =>
        have hopen' : c = '/' ∧ ((d :: rest') ++ more).head? = some '*' := by simpa using hopen
        rw [if_pos hopen']
        split at h
        · contradiction
        · rename_i body after' hsplit
          simp only [Except.ok.injEq, Prod.mk.injEq] at h
          obtain ⟨rfl, rfl⟩ := h
          simp only [List.tail_cons] at hsplit
          simp only [List.cons_append, List.tail_cons, splitOnce_append more hsplit]
    · rename_i hopen
      split at h
      · rename_i hline
        simp only [Except.ok.injEq, Prod.mk.injEq] at h
        obtain ⟨rfl, rfl⟩ := h
        have hne : (c :: rest).dropWhile notLineFeed ≠ [] := by
          intro hnil
          simpa [Lexeme.isLineComment] using (hseam hnil).1
        have hopen' : ¬ (c = '/' ∧ (rest ++ more).head? = some '*') := by
          rintro ⟨rfl, _⟩
          simp [startsLineComment] at hline
        have hline' : startsLineComment c (rest ++ more) = true := by
          cases rest with
          | nil =>
            have hc : c = '#' := by simpa [startsLineComment] using hline
            simp [startsLineComment, hc]
          | cons d rest' => simpa [startsLineComment] using hline
        rw [if_neg hopen', if_pos hline', ← List.cons_append]
        have hany : ¬ ∀ x ∈ c :: rest, notLineFeed x = true := by
          intro hall
          exact hne (List.dropWhile_eq_nil_iff.mpr hall)
        rw [List.takeWhile_append, List.dropWhile_append]
        have hlen : ((c :: rest).takeWhile notLineFeed).length ≠ (c :: rest).length := by
          intro heq
          apply hany
          have hfull : (c :: rest).takeWhile notLineFeed = c :: rest :=
            (List.takeWhile_prefix notLineFeed).eq_of_length heq
          exact List.takeWhile_eq_self_iff.mp hfull
        rw [if_neg hlen]
        have hempty : ((c :: rest).dropWhile notLineFeed).isEmpty = false := by
          simpa [List.isEmpty_iff] using hne
        simp [hempty]
      · rename_i hline
        simp only [Except.ok.injEq, Prod.mk.injEq] at h
        obtain ⟨rfl, rfl⟩ := h
        have hopen' : ¬ (c = '/' ∧ (rest ++ more).head? = some '*') := by
          rintro ⟨rfl, hstar⟩
          cases rest with
          | nil =>
            have := (hseam rfl).2 '*' (by simpa using hstar)
            simp [seam] at this
          | cons d rest' => exact hopen ⟨rfl, by simpa using hstar⟩
        have hline' : ¬ startsLineComment c (rest ++ more) = true := by
          intro hcon
          apply hline
          cases rest with
          | nil =>
            simp only [startsLineComment, List.nil_append, Bool.or_eq_true, Bool.and_eq_true,
              beq_iff_eq] at hcon ⊢
            rcases hcon with ⟨_, hdash⟩ | hhash
            · have := (hseam rfl).2 '-' hdash
              simp [seam] at this
            · exact Or.inr hhash
          | cons d rest' => simpa [startsLineComment] using hcon
        rw [if_neg hopen', if_neg hline']

end Step

end RayClickHouse.Lexical
