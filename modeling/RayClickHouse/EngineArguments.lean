import RayClickHouse.EngineSearch

/-!
What the scan of the arguments does with a constant, with balanced text, and with
any text whose quotes are closed.
-/
namespace RayClickHouse.EngineScan

open Text TypeText

section Arguments

variable {depth : ℕ} {args : List Text} {current rest : Text}

def isSilent (c : Char) : Bool := !isQuote c && c != '(' && c != ')' && c != ','

theorem readArguments_silent {s : Text} (h : ∀ c ∈ s, isSilent c = true) :
    readArguments none depth args current (s ++ rest) =
      readArguments none depth args (current ++ s) rest := by
  induction s generalizing current with
  | nil => rw [List.nil_append, List.append_nil]
  | cons c s ih =>
    have hc := h c (List.mem_cons_self ..)
    simp only [isSilent, Bool.and_eq_true, Bool.not_eq_true', bne_iff_ne, ne_eq] at hc
    obtain ⟨⟨⟨hquote, hopen⟩, hclose⟩, hcomma⟩ := hc
    rw [List.cons_append, readArguments_code, if_neg (by simp [hquote]), if_neg hopen,
      if_neg hclose, if_neg (fun h => hcomma h.1), ih fun d hd => h d (List.mem_cons_of_mem _ hd),
      List.append_assoc, List.singleton_append]

theorem readArguments_quoted {q : Char} (hq : isQuote q = true) {value : Text}
    (h : ∀ c ∈ value, c ≠ q ∧ c ≠ '\\') :
    readArguments none depth args current (q :: (value ++ [q]) ++ rest) =
      readArguments none depth args (current ++ q :: (value ++ [q])) rest := by
  have hinside : ∀ (value current : Text), (∀ c ∈ value, c ≠ q ∧ c ≠ '\\') →
      readArguments (some q) depth args current (value ++ q :: rest) =
        readArguments none depth args (current ++ (value ++ [q])) rest := by
    intro value
    induction value with
    | nil =>
      intro current _
      exact readArguments_close hq
    | cons c value ih =>
      intro current hvalue
      obtain ⟨hne, hescape⟩ := hvalue c (List.mem_cons_self ..)
      rw [List.cons_append, readArguments_inside hescape hne,
        ih _ fun d hd => hvalue d (List.mem_cons_of_mem _ hd)]
      simp
  have hshape : q :: (value ++ [q]) ++ rest = q :: (value ++ q :: rest) := by simp
  rw [hshape, readArguments_code, if_pos hq, hinside value _ h]
  simp

def loudChars : Text := ['\'', '"', '`', '(', ')', ',']

theorem isSilent_of_class {p : Char → Bool} (hp : (loudChars.all fun d => !p d) = true) {c : Char}
    (h : p c = true) : isSilent c = true := by
  by_contra hc
  have hmem : c ∈ loudChars := by
    simp only [isSilent, isQuote, Bool.and_eq_true, Bool.not_eq_true', bne_iff_ne, ne_eq,
      Bool.or_eq_false_iff, beq_eq_false_iff_ne] at hc
    simp only [loudChars, List.mem_cons, List.not_mem_nil, or_false]
    tauto
  have hnot := List.all_eq_true.mp hp c hmem
  rw [h] at hnot
  cases hnot

theorem isSilent_of_isIdentPart {c : Char} (h : isIdentPart c = true) : isSilent c = true :=
  isSilent_of_class (by decide) h

theorem isSilent_of_isSpace {c : Char} (h : isSpace c = true) : isSilent c = true :=
  isSilent_of_class (by decide) h

theorem readArguments_constant (c : Constant) :
    readArguments none depth args current (c.text ++ rest) =
      readArguments none depth args (current ++ c.text) rest := by
  obtain ⟨spelling, value, hsupported⟩ := c
  cases spelling with
  | bare =>
    apply readArguments_silent
    intro d hd
    exact isSilent_of_isIdentPart (isIdentifier_mem hsupported d hd)
  | single =>
    apply readArguments_quoted rfl
    intro d hd
    exact ⟨(hsupported d hd).1, (hsupported d hd).2.1⟩
  | back =>
    apply readArguments_quoted rfl
    intro d hd
    exact ⟨(hsupported d hd).1, (hsupported d hd).2.1⟩
  | double =>
    apply readArguments_quoted rfl
    intro d hd
    exact ⟨(hsupported d hd).1, (hsupported d hd).2.1⟩

theorem readArguments_argument {c : Constant} {a : Text} (h : ArgumentText c a) :
    readArguments none depth args current (a ++ rest) =
      readArguments none depth args (current ++ a) rest := by
  cases h with
  | mk left right hleft hright =>
    rw [List.append_assoc, List.append_assoc,
      readArguments_silent fun d hd => isSilent_of_isSpace (hleft d hd), readArguments_constant,
      readArguments_silent fun d hd => isSilent_of_isSpace (hright d hd)]
    simp

theorem readArguments_comma : readArguments none 1 args current (',' :: rest) =
    readArguments none 1 (args ++ [strip current]) [] rest := by
  rw [readArguments_code]
  rfl

theorem readArguments_end :
    readArguments none 1 args current (')' :: rest) = ⟨none, 0, args ++ [strip current]⟩ := by
  rw [readArguments_code]
  rfl

end Arguments

section Balance

theorem nestingAfter_open {c : Char} {depth : ℕ} {rest : Text} (hc : isQuote c = true) :
    nestingAfter none depth (c :: rest) = nestingAfter (some c) depth rest := by
  rw [nestingAfter_code, if_pos hc]

/-- Balanced text leaves the scan at its depth; it may finish arguments on the way. -/
theorem readArguments_balanced {quote : Option Char}
    (hquote : ∀ q, quote = some q → isQuote q = true) {s : Text} {depth last : ℕ}
    (h : nestingAfter quote depth s = some (none, last)) (args : List Text) (current : Text) :
    ∃ found current', ∀ rest, readArguments quote (depth + 1) args current (s ++ rest) =
      readArguments none (last + 1) (args ++ found) current' rest := by
  revert h args current depth
  refine quote_induction (motive := fun quote s => ∀ {depth : ℕ},
    nestingAfter quote depth s = some (none, last) → ∀ args current, ∃ found current', ∀ rest,
      readArguments quote (depth + 1) args current (s ++ rest) =
        readArguments none (last + 1) (args ++ found) current' rest)
    ?nil ?stuck ?escape ?close ?inside ?opening ?code quote hquote s
  case nil =>
    intro quote depth h args current
    cases h
    refine ⟨[], current, fun rest => ?_⟩
    rw [List.append_nil, List.nil_append]
  case stuck =>
    intro q depth h
    cases h
  case escape =>
    intro q c rest ih depth h args current
    obtain ⟨found, current', hread⟩ := ih h args (current ++ ['\\', c])
    refine ⟨found, current', fun more => ?_⟩
    rw [List.cons_append, List.cons_append, readArguments_escape]
    exact hread more
  case close =>
    intro q rest hq ih depth h args current
    rw [nestingAfter_close hq] at h
    obtain ⟨found, current', hread⟩ := ih h args (current ++ [q])
    refine ⟨found, current', fun more => ?_⟩
    rw [List.cons_append, readArguments_close hq]
    exact hread more
  case inside =>
    intro q c rest hescape hc ih depth h args current
    rw [nestingAfter_inside hescape hc] at h
    obtain ⟨found, current', hread⟩ := ih h args (current ++ [c])
    refine ⟨found, current', fun more => ?_⟩
    rw [List.cons_append, readArguments_inside hescape hc]
    exact hread more
  case opening =>
    intro c rest hc ih depth h args current
    rw [nestingAfter_open hc] at h
    obtain ⟨found, current', hread⟩ := ih h args (current ++ [c])
    refine ⟨found, current', fun more => ?_⟩
    rw [List.cons_append, readArguments_code, if_pos hc]
    exact hread more
  case code =>
    intro c rest hc ih depth h args current
    rw [nestingAfter_code, if_neg (by simp [hc])] at h
    by_cases hopen : c = '('
    · rw [if_pos hopen] at h
      obtain ⟨found, current', hread⟩ := ih h args (current ++ [c])
      refine ⟨found, current', fun more => ?_⟩
      rw [List.cons_append, readArguments_code, if_neg (by simp [hc]), if_pos hopen]
      exact hread more
    · rw [if_neg hopen] at h
      by_cases hclose : c = ')'
      · rw [if_pos hclose] at h
        cases depth with
        | zero => cases h
        | succ below =>
          obtain ⟨found, current', hread⟩ := ih h args (current ++ [c])
          refine ⟨found, current', fun more => ?_⟩
          rw [List.cons_append, readArguments_code, if_neg (by simp [hc]), if_neg hopen,
            if_pos hclose, if_neg (by omega)]
          exact hread more
      · rw [if_neg hclose] at h
        by_cases hcomma : c = ',' ∧ depth + 1 = 1
        · obtain ⟨found, current', hread⟩ := ih h (args ++ [strip current]) []
          refine ⟨strip current :: found, current', fun more => ?_⟩
          rw [List.cons_append, readArguments_code, if_neg (by simp [hc]), if_neg hopen,
            if_neg hclose, if_pos hcomma, hread more, List.append_assoc, List.singleton_append]
        · obtain ⟨found, current', hread⟩ := ih h args (current ++ [c])
          refine ⟨found, current', fun more => ?_⟩
          rw [List.cons_append, readArguments_code, if_neg (by simp [hc]), if_neg hopen,
            if_neg hclose, if_neg hcomma]
          exact hread more

/-- Text whose quotes are closed either finishes the call, or is passed. -/
theorem readArguments_through {quote : Option Char}
    (hquote : ∀ q, quote = some q → isQuote q = true) {s : Text} (h : quoteAfter quote s = none)
    (depth : ℕ) (args : List Text) (current : Text) :
    (∃ found, ∀ rest, readArguments quote (depth + 1) args current (s ++ rest) =
      ⟨none, 0, found⟩) ∨
    ∃ depth' args' current', ∀ rest, readArguments quote (depth + 1) args current (s ++ rest) =
      readArguments none (depth' + 1) args' current' rest := by
  revert h depth args current
  refine quote_induction (motive := fun quote s => quoteAfter quote s = none →
    ∀ depth args current,
      (∃ found, ∀ rest, readArguments quote (depth + 1) args current (s ++ rest) =
        ⟨none, 0, found⟩) ∨
      ∃ depth' args' current', ∀ rest, readArguments quote (depth + 1) args current (s ++ rest) =
        readArguments none (depth' + 1) args' current' rest)
    ?nil ?stuck ?escape ?close ?inside ?opening ?code quote hquote s
  case nil =>
    intro quote h depth args current
    cases h
    exact Or.inr ⟨depth, args, current, fun rest => rfl⟩
  case stuck =>
    intro q h
    cases h
  case escape =>
    intro q c rest ih h depth args current
    simp only [List.cons_append, readArguments_escape]
    exact ih h depth args _
  case close =>
    intro q rest hq ih h depth args current
    simp only [List.cons_append, readArguments_close hq]
    exact ih ((quoteAfter_close hq).symm.trans h) depth args _
  case inside =>
    intro q c rest hescape hc ih h depth args current
    simp only [List.cons_append, readArguments_inside hescape hc]
    exact ih ((quoteAfter_inside hescape hc).symm.trans h) depth args _
  case opening =>
    intro c rest hc ih h depth args current
    simp only [List.cons_append, readArguments_code, hc, if_true]
    exact ih ((quoteAfter_open hc).symm.trans h) depth args _
  case code =>
    intro c rest hc ih h depth args current
    have hrest := ih ((quoteAfter_code hc).symm.trans h)
    simp only [List.cons_append, readArguments_code, hc, Bool.false_eq_true, if_false]
    by_cases hopen : c = '('
    · simp only [hopen, if_true]
      exact hrest (depth + 1) args _
    · simp only [hopen, if_false]
      by_cases hclose : c = ')'
      · simp only [hclose, if_true]
        cases depth with
        | zero => exact Or.inl ⟨args ++ [strip current], fun rest => rfl⟩
        | succ below =>
          simp only [show below + 1 + 1 ≠ 1 by omega, if_false]
          exact hrest below args _
      · simp only [hclose, if_false]
        by_cases hcomma : c = ',' ∧ depth + 1 = 1
        · simp only [hcomma, and_self, if_true]
          have hdepth : depth = 0 := by omega
          subst hdepth
          exact hrest 0 (args ++ [strip current]) []
        · simp only [hcomma, if_false]
          exact hrest depth args _

end Balance

end RayClickHouse.EngineScan
