import RayClickHouse.DeclarationTokens

/-!
What an escaped line feed does to the key. No token reaches across it, so the line feed is
skipped like white space outside quotes, and one more blank behind it changes the
quoted text and not the key.
-/
namespace RayClickHouse.DeclarationKey

open Text TypeText PredicateTokens

section Whole

/-- A text in which every backslash has a character to escape, and none escapes a line
feed. -/
inductive Whole : Text → Prop
  | nil : Whole []
  | plain {c : Char} {s : Text} : c ≠ '\\' → Whole s → Whole (c :: s)
  | escaped {c : Char} {s : Text} : c ≠ '\n' → Whole s → Whole ('\\' :: c :: s)

def Entered (s : Text) : Prop := Whole s ∨ ∃ c rest, s = c :: rest ∧ Whole rest

def lineFeed (v : Text) : Text := '\\' :: '\n' :: v

variable {c q : Char} {s rest : Text}

theorem Whole.tail (h : Whole (c :: s)) (hc : c ≠ '\\') : Whole s := by
  cases h with
  | plain _ hs => exact hs
  | escaped => exact absurd rfl hc

theorem Entered.tail (h : Entered (c :: s)) : Entered s := by
  obtain hwhole | ⟨d, rest, heq, hrest⟩ := h
  · cases hwhole with
    | plain _ hs => exact Or.inl hs
    | escaped _ hs => exact Or.inr ⟨_, _, rfl, hs⟩
  · rw [List.cons.injEq] at heq
    rw [heq.2]
    exact Or.inl hrest

theorem Entered.whole_tail (h : Entered (c :: s)) (hc : c ≠ '\\') : Whole s := by
  obtain hwhole | ⟨d, rest, heq, hrest⟩ := h
  · exact hwhole.tail hc
  · rw [List.cons.injEq] at heq
    rw [heq.2]
    exact hrest

theorem Whole.dropWhile {p : Char → Bool} (hp : p '\\' = false) (h : Whole s) :
    Whole (s.dropWhile p) := by
  induction h with
  | nil => exact Whole.nil
  | @plain c s hc hs ih =>
    rw [List.dropWhile_cons]
    split
    · exact ih
    · exact Whole.plain hc hs
  | @escaped c s hc hs ih =>
    rw [List.dropWhile_cons, if_neg (by simp [hp])]
    exact Whole.escaped hc hs

/-- A run of characters stops at the backslash. -/
theorem takeWhile_lineFeed {p : Char → Bool} (hp : p '\\' = false) (v : Text) :
    (s ++ lineFeed v).takeWhile p = s.takeWhile p ∧
      (s ++ lineFeed v).dropWhile p = s.dropWhile p ++ lineFeed v := by
  induction s with
  | nil => simp [lineFeed, hp]
  | cons c s ih =>
    rw [List.cons_append, List.takeWhile_cons, List.dropWhile_cons, List.takeWhile_cons,
      List.dropWhile_cons, ih.1, ih.2]
    split
    · exact ⟨rfl, rfl⟩
    · exact ⟨rfl, rfl⟩

/-- The rest of a quoted text before an escaped line feed: the pattern fails whatever
follows, or it closes before. -/
theorem Whole.read (hq : q ≠ '\\') (h : Whole s) :
    (∀ v, quotedRest q (s ++ lineFeed v) = none) ∨
      ∃ read after, Whole after ∧ after.length < s.length ∧
        ∀ v, quotedRest q (s ++ lineFeed v) = some (read, after ++ lineFeed v) := by
  induction hn : s.length using Nat.strong_induction_on generalizing s with
  | _ n ih =>
    cases h with
    | nil => exact Or.inl fun v => quotedRest_lineFeed hq
    | @escaped c s hc hs =>
      rw [List.length_cons, List.length_cons] at hn
      have hstep : ∀ v, quotedRest q ('\\' :: c :: s ++ lineFeed v) =
          (quotedRest q (s ++ lineFeed v)).map fun p => ('\\' :: c :: p.1, p.2) :=
        fun v => quotedRest_escaped hq hc
      obtain hnone | ⟨read, after, hafter, hlt, hsome⟩ := ih s.length (by omega) hs rfl
      · refine Or.inl fun v => ?_
        rw [hstep, hnone]
        rfl
      · refine Or.inr ⟨'\\' :: c :: read, after, hafter, by omega, fun v => ?_⟩
        rw [hstep, hsome]
        rfl
    | @plain c s hc hs =>
      rw [List.length_cons] at hn
      by_cases hclose : c = q
      · rw [hclose]
        by_cases hdouble : s.head? = some q
        · obtain ⟨more, hmore⟩ := List.head?_eq_some_iff.mp hdouble
          rw [hmore, List.length_cons] at hn
          rw [hmore] at hs
          have htail : Whole more := hs.tail hq
          have hstep : ∀ v, quotedRest q (q :: s ++ lineFeed v) =
              ((quotedRest q (more ++ lineFeed v)).map
                fun p => (q :: q :: p.1, p.2)).orElse
                  fun _ => some ([q], q :: (more ++ lineFeed v)) := by
            intro v
            rw [hmore]
            exact quotedRest_doubled
          obtain hnone | ⟨read, after, hafter, hlt, hsome⟩ := ih more.length (by omega) htail rfl
          · refine Or.inr ⟨[q], q :: more, hs, by rw [List.length_cons]; omega, fun v => ?_⟩
            rw [hstep, hnone]
            rfl
          · refine Or.inr ⟨q :: q :: read, after, hafter, by omega, fun v => ?_⟩
            rw [hstep, hsome]
            rfl
        · refine Or.inr ⟨[q], s, hs, by omega, fun v => ?_⟩
          apply quotedRest_close
          cases s with
          | nil =>
            intro heq
            exact hq (Option.some.inj heq).symm
          | cons d s => exact hdouble
      · have hstep : ∀ v, quotedRest q (c :: s ++ lineFeed v) =
            (quotedRest q (s ++ lineFeed v)).map fun p => (c :: p.1, p.2) :=
          fun v => quotedRest_plain hclose hc
        obtain hnone | ⟨read, after, hafter, hlt, hsome⟩ := ih s.length (by omega) hs rfl
        · refine Or.inl fun v => ?_
          rw [hstep, hnone]
          rfl
        · refine Or.inr ⟨c :: read, after, hafter, by omega, fun v => ?_⟩
          rw [hstep, hsome]
          rfl

end Whole

section Crossing

variable [SpacedDatabase] {c q : Char} {s : Text}

/-- A token outside quotes is a character with a run of characters of one class. -/
theorem declarationToken_run (hquote : isQuote c = false) (hspace : isSpace c = false) :
    ∃ p : Char → Bool, p '\\' = false ∧ (c = '\\' → ∀ d, p d = false) ∧
      ∀ s, declarationToken (c :: s) = some (c :: s.takeWhile p, s.dropWhile p) := by
  by_cases hstart : isIdentStart c = true
  · refine ⟨isIdentPart, by decide, ?_, fun s => ?_⟩
    · intro heq
      rw [heq] at hstart
      exact absurd hstart (by decide)
    · rw [declarationToken_code hquote]
      simp [takeIdentifier, hstart]
  · have hname : ∀ s, takeIdentifier (c :: s) = none := fun s => by
      simp [takeIdentifier, hstart]
    by_cases hdecimal : isDecimal c = true
    · have hbackslash : isDecimal '\\' = false := by
        rw [isDecimal_ascii (by decide)]
        decide
      refine ⟨isDecimal, hbackslash, ?_, fun s => ?_⟩
      · intro heq
        rw [heq, hbackslash] at hdecimal
        contradiction
      · rw [declarationToken_code hquote, hname]
        simp [matchDigits, hdecimal]
    · refine ⟨fun _ => false, rfl, fun _ _ => rfl, fun s => ?_⟩
      have hnone : s.takeWhile (fun _ => false) = [] ∧ s.dropWhile (fun _ => false) = s := by
        cases s <;> simp
      rw [declarationToken_code hquote, hname, hnone.1, hnone.2]
      simp [matchDigits, matchVisible, hdecimal, hspace]

/-- The tokens before an escaped line feed, and then those of what follows: it is skipped
as white space is. -/
theorem Entered.tokens (h : Entered s) :
    ∃ ts, ∀ v, declarationTokens (s ++ lineFeed v) = ts ++ declarationTokens v := by
  induction hn : s.length using Nat.strong_induction_on generalizing s with
  | _ n ih =>
    cases s with
    | nil =>
      refine ⟨[['\\']], fun v => ?_⟩
      have hbackslash : declarationToken (lineFeed v) = some (['\\'], '\n' :: v) := by
        apply declarationToken_mark (by decide) (by decide)
        unfold isWordy
        rw [isDecimal_ascii (by decide)]
        decide
      rw [List.nil_append, declarationTokens_some hbackslash,
        declarationTokens_none (declarationToken_space (by decide))]
      rfl
    | cons c s =>
      rw [List.length_cons] at hn
      by_cases hquote : isQuote c = true
      · have hwhole := h.whole_tail (ne_backslash hquote)
        obtain hnone | ⟨read, after, hafter, hlt, hsome⟩ := hwhole.read (ne_backslash hquote)
        · obtain ⟨ts, hts⟩ := ih s.length (by omega) h.tail rfl
          refine ⟨[c] :: ts, fun v => ?_⟩
          have htoken : declarationToken (c :: (s ++ lineFeed v)) =
              some ([c], s ++ lineFeed v) := by
            rw [declarationToken_quote hquote, hnone]
          rw [List.cons_append, declarationTokens_some htoken, hts]
          rfl
        · obtain ⟨ts, hts⟩ := ih after.length (by omega) (Or.inl hafter) rfl
          refine ⟨(c :: read) :: ts, fun v => ?_⟩
          have htoken : declarationToken (c :: (s ++ lineFeed v)) =
              some (c :: read, after ++ lineFeed v) := by
            rw [declarationToken_quote hquote, hsome]
          rw [List.cons_append, declarationTokens_some htoken, hts]
          rfl
      · rw [Bool.not_eq_true] at hquote
        by_cases hspace : isSpace c = true
        · obtain ⟨ts, hts⟩ := ih s.length (by omega) h.tail rfl
          refine ⟨ts, fun v => ?_⟩
          rw [List.cons_append, declarationTokens_none (declarationToken_space hspace), hts]
        · rw [Bool.not_eq_true] at hspace
          obtain ⟨p, hp, halone, hread⟩ := declarationToken_run hquote hspace
          have hrest : Entered (s.dropWhile p) := by
            by_cases hc : c = '\\'
            · rw [List.dropWhile_eq_self_iff.mpr fun _ => by simp [halone hc]]
              exact h.tail
            · exact Or.inl ((h.whole_tail hc).dropWhile hp)
          have hlength : (s.dropWhile p).length < n := by
            have hle := (List.dropWhile_sublist p (l := s)).length_le
            omega
          obtain ⟨ts, hts⟩ := ih _ hlength hrest rfl
          refine ⟨(c :: s.takeWhile p) :: ts, fun v => ?_⟩
          obtain ⟨htake, hdrop⟩ := takeWhile_lineFeed (s := s) hp v
          have htoken : declarationToken (c :: (s ++ lineFeed v)) =
              some (c :: s.takeWhile p, s.dropWhile p ++ lineFeed v) := by
            rw [hread, htake, hdrop]
          rw [List.cons_append, declarationTokens_some htoken, hts]
          rfl

end Crossing

end RayClickHouse.DeclarationKey
