import RayClickHouse.Parens
import RayClickHouse.TypeScan

/-!
Texts that the scan for parentheses passes over: behind them it goes on at the depth
at which it came in. Such texts can be put into a list in parentheses without
moving its end.
-/
namespace RayClickHouse.Lexical

open Text

theorem depthFrom_fuel {fuel fuel' depth : ℕ} {s : Text} (h : s.length ≤ fuel)
    (h' : s.length ≤ fuel') : depthFrom fuel depth s = depthFrom fuel' depth s := by
  induction fuel generalizing fuel' depth s with
  | zero =>
    rw [List.length_eq_zero_iff.mp (Nat.le_zero.mp h)]
    cases fuel' with
    | zero => rfl
    | succ fuel' => rfl
  | succ fuel ih =>
    cases s with
    | nil => cases fuel' <;> rfl
    | cons c rest =>
      cases fuel' with
      | zero => simp at h'
      | succ fuel' =>
        simp only [List.length_cons, Nat.add_le_add_iff_right] at h h'
        unfold depthFrom
        cases hlex : nextLexeme c rest with
        | error e => rfl
        | ok p =>
          obtain ⟨l, after⟩ := p
          have hafter := nextLexeme_length hlex
          have hrec : ∀ d, depthFrom fuel d after = depthFrom fuel' d after :=
            fun d => ih (hafter.trans h) (hafter.trans h')
          simp only [hrec]

def depthOf (depth : ℕ) (s : Text) : Option ℕ := depthFrom s.length depth s

theorem depthOf_nil (depth : ℕ) : depthOf depth [] = some depth := rfl

/-- One lexeme other than a parenthesis or a comment that goes on to the end. -/
theorem depthOf_lexeme {depth : ℕ} {c : Char} {rest after : Text} {l : Lexeme}
    (hlex : nextLexeme c rest = .ok (l, after)) (hline : l.isLineComment = false)
    (hopen : l ≠ .code '(') (hclose : l ≠ .code ')') :
    depthOf depth (c :: rest) = depthOf depth after := by
  have hcomment : ¬ (l.isLineComment = true ∧ after = []) := by simp [hline]
  unfold depthOf
  rw [List.length_cons, depthFrom, hlex]
  simp only [if_neg hcomment, if_neg hopen, if_neg hclose]
  exact depthFrom_fuel (nextLexeme_length hlex) (Nat.le_refl _)

def codeChar (c : Char) : Bool :=
  !(isQuoteChar c || c == '/' || c == '-' || c == '#' || c == '(' || c == ')')

theorem codeChar_eq_true {c : Char} :
    codeChar c = true ↔ isQuoteChar c = false ∧ c ≠ '/' ∧ c ≠ '-' ∧ c ≠ '#' ∧ c ≠ '(' ∧ c ≠ ')' := by
  simp only [codeChar, Bool.not_eq_true', Bool.or_eq_false_iff, beq_eq_false_iff_ne, ne_eq,
    and_assoc]

theorem nextLexeme_code {c : Char} {rest : Text} (hquote : isQuoteChar c = false) (hslash : c ≠ '/')
    (hline : startsLineComment c rest = false) : nextLexeme c rest = .ok (.code c, rest) := by
  unfold nextLexeme
  rw [if_neg (by simp [hquote]), if_neg fun h => hslash h.1, if_neg (by simp [hline])]

theorem depthOf_plain {depth : ℕ} {c : Char} (h : codeChar c = true) (rest : Text) :
    depthOf depth (c :: rest) = depthOf depth rest := by
  obtain ⟨hquote, hslash, hminus, hhash, hopen, hclose⟩ := codeChar_eq_true.mp h
  refine depthOf_lexeme (nextLexeme_code hquote hslash ?_) rfl ?_ ?_
  · simp [startsLineComment, hminus, hhash]
  · exact fun heq => hopen (Lexeme.code.inj heq)
  · exact fun heq => hclose (Lexeme.code.inj heq)

def noQuote (rest : Text) : Prop := ∀ c, rest.head? = some c → isQuoteChar c = false

/-- The scan passes over the text to whatever follows it, other than a quote. -/
def Steady (t : Text) : Prop :=
  ∀ depth rest, noQuote rest → depthOf depth (t ++ rest) = depthOf depth rest

section Steady

variable {s t : Text}

theorem Steady.nil : Steady [] := by
  intro depth rest _
  rw [List.nil_append]

theorem Steady.plain (hs : ∀ c ∈ s, codeChar c = true) (ht : Steady t) : Steady (s ++ t) := by
  intro depth rest hrest
  induction s with
  | nil => exact ht depth rest hrest
  | cons c s ih =>
    rw [List.cons_append, List.cons_append, depthOf_plain (hs c (List.mem_cons_self ..))]
    exact ih fun d hd => hs d (List.mem_cons_of_mem _ hd)

theorem Steady.of_plain (hs : ∀ c ∈ s, codeChar c = true) : Steady s := by
  have h := Steady.plain hs Steady.nil
  rwa [List.append_nil] at h

theorem noQuote_append (hs : noQuote s) (ht : noQuote t) : noQuote (s ++ t) := by
  intro c hc
  cases s with
  | nil => exact ht c hc
  | cons d s => exact hs c hc

theorem Steady.append (hs : Steady s) (ht : Steady t) (hhead : noQuote t) : Steady (s ++ t) := by
  intro depth rest hrest
  rw [List.append_assoc, hs _ _ (noQuote_append hhead hrest), ht _ _ hrest]

theorem noQuote_cons {c : Char} (h : isQuoteChar c = false) (rest : Text) : noQuote (c :: rest) := by
  intro d hd
  rw [← Option.some.inj hd]
  exact h

/-- A steady text in parentheses. -/
theorem Steady.parens (h : Steady t) : Steady ('(' :: (t ++ [')'])) := by
  intro depth rest hrest
  have hopen : nextLexeme '(' (t ++ [')'] ++ rest) = .ok (.code '(', t ++ [')'] ++ rest) :=
    nextLexeme_code rfl (by decide) (by simp [startsLineComment])
  have hclose : nextLexeme ')' rest = .ok (.code ')', rest) :=
    nextLexeme_code rfl (by decide) (by simp [startsLineComment])
  have hinner : depthOf depth ('(' :: (t ++ [')'] ++ rest)) =
      depthOf (depth + 1) (t ++ [')'] ++ rest) := by
    unfold depthOf
    rw [List.length_cons, depthFrom, hopen]
    simp only [Lexeme.isLineComment, Bool.false_eq_true, false_and, if_false, if_true]
  have houter : depthOf (depth + 1) (')' :: rest) = depthOf depth rest := by
    unfold depthOf
    rw [List.length_cons, depthFrom, hclose]
    simp [Lexeme.isLineComment]
  rw [List.cons_append, hinner, List.append_assoc, List.singleton_append,
    h _ _ (noQuote_cons rfl _), houter]

end Steady

/-- A quoted text whose quote is not closed inside is one lexeme. -/
theorem scanQuote_staysOpen {q : Char} {body : Text} (hq : q ≠ '\\')
    (h : TypeText.staysOpen q body = true) {rest : Text} (hrest : rest.head? ≠ some q) :
    scanQuote q (body ++ q :: rest) = some (body ++ [q], rest) := by
  induction body using TypeText.staysOpen.induct with
  | case1 =>
    cases rest with
    | nil => simp [scanQuote, hq]
    | cons d rest =>
      have hd : d ≠ q := fun heq => hrest (by rw [heq]; rfl)
      simp [scanQuote, hq, hd]
  | case2 =>
    rw [TypeText.staysOpen, if_pos rfl] at h
    contradiction
  | case3 d rest' ih =>
    rw [TypeText.staysOpen, if_pos rfl] at h
    rw [List.cons_append, List.cons_append, scanQuote, if_pos rfl, ih h]
    rfl
  | case4 c rest' hc ih =>
    have hopen : c ≠ q ∧ TypeText.staysOpen q rest' = true := by
      unfold TypeText.staysOpen at h
      rw [if_neg hc, Bool.and_eq_true, bne_iff_ne] at h
      exact h
    have htail := ih hopen.2
    cases hmore : rest' ++ q :: rest with
    | nil => simp at hmore
    | cons d more =>
      rw [hmore] at htail
      rw [List.cons_append, hmore, scanQuote, if_neg hc, if_neg hopen.1, htail]
      rfl

theorem Steady.literal {q : Char} {body : Text} (hq : isQuoteChar q = true)
    (h : TypeText.staysOpen q body = true) : Steady (q :: body ++ [q]) := by
  intro depth rest hrest
  have hescape : q ≠ '\\' := by
    rintro rfl
    contradiction
  have hhead : rest.head? ≠ some q := by
    intro heq
    rw [hrest q heq] at hq
    contradiction
  have hlex : nextLexeme q (body ++ q :: rest) = .ok (.quoted (q :: (body ++ [q])), rest) := by
    unfold nextLexeme
    rw [if_pos hq, scanQuote_staysOpen hescape h hhead]
  have htext : q :: body ++ [q] ++ rest = q :: (body ++ q :: rest) := by simp
  rw [htext]
  exact depthOf_lexeme hlex rfl (by simp) (by simp)

/-- A steady text closes every parenthesis it opens and no other. -/
theorem Steady.selfContained {t : Text} (h : Steady t) : selfContained t = true := by
  have hend := h 0 [] (by simp [noQuote])
  rw [List.append_nil, depthOf_nil] at hend
  unfold Lexical.selfContained
  rw [show depthFrom t.length 0 t = some 0 from hend]
  rfl

end RayClickHouse.Lexical
