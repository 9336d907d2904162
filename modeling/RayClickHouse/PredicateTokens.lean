import RayClickHouse.FilterScan

/-!
The tokens of a local-read predicate. Every alternative of the pattern is a
matcher that returns what it consumed and the rest; the first alternative that
matches decides, as in the regular expression.
-/
namespace RayClickHouse.PredicateTokens

open Text FilterScan

inductive Kind
  | string
  | quoted
  | parameter
  | number
  | word
  | symbol
  deriving DecidableEq, Repr

abbrev Match := Option (Text × Text)

/-- The rest of `'(?:[^'\\]|\\.|'')*'` after its first quote. A doubled quote is
read as a pair when the pattern can still close after it. -/
def quotedRest (q : Char) : Text → Match
  | [] => none
  | [c] => if c = q then some ([c], []) else none
  | c :: d :: rest =>
      if c = q then
        let paired := if d = q then (quotedRest q rest).map fun p => (c :: d :: p.1, p.2) else none
        paired.orElse fun _ => some ([c], d :: rest)
      else if c = '\\' then
        if d = '\n' then none else (quotedRest q rest).map fun p => (c :: d :: p.1, p.2)
      else (quotedRest q (d :: rest)).map fun p => (c :: p.1, p.2)

def matchQuote (q : Char) : Text → Match
  | [] => none
  | c :: rest => if c = q then (quotedRest q rest).map fun p => (c :: p.1, p.2) else none

def matchClient (s : Text) : Match :=
  (matchParameter s).map fun p => (clientPlaceholder p.1, p.2)

def matchTyped : Text → Match
  | '{' :: rest => do
      let (name, tail) ← takeIdentifier rest
      match tail.dropWhile isSpace with
      | ':' :: typed =>
          (takeBraced typed).map fun p =>
            ('{' :: (name ++ tail.takeWhile isSpace ++ ':' :: (p.1 ++ ['}'])), p.2)
      | _ => none
  | _ => none

def matchWord (s : Text) : Match := takeIdentifier s

def symbols : List Text :=
  ["<=", ">=", "!=", "<>", "==", "(", ")", ",", "=", "<", ">"].map String.toList

def matchSymbol (s : Text) : Match :=
  (symbols.find? (·.isPrefixOf s)).map fun symbol => (symbol, s.drop symbol.length)

def takeSign : Text → Text × Text
  | c :: rest => if c = '+' ∨ c = '-' then ([c], rest) else ([], c :: rest)
  | [] => ([], [])

section Numbers

variable [UnicodeDatabase]

def takeMantissa (s : Text) : Match :=
  match s.takeWhile isDecimal, s.dropWhile isDecimal with
  | [], '.' :: rest =>
      if rest.takeWhile isDecimal = [] then none
      else some ('.' :: rest.takeWhile isDecimal, rest.dropWhile isDecimal)
  | [], _ => none
  | whole, '.' :: rest =>
      some (whole ++ '.' :: rest.takeWhile isDecimal, rest.dropWhile isDecimal)
  | whole, rest => some (whole, rest)

def takeExponent : Text → Text × Text
  | [] => ([], [])
  | e :: rest =>
      let signed := takeSign rest
      if (e = 'e' ∨ e = 'E') ∧ signed.2.takeWhile isDecimal ≠ [] then
        (e :: (signed.1 ++ signed.2.takeWhile isDecimal), signed.2.dropWhile isDecimal)
      else ([], e :: rest)

def matchNumber (s : Text) : Match :=
  let signed := takeSign s
  (takeMantissa signed.2).map fun p =>
    (signed.1 ++ p.1 ++ (takeExponent p.2).1, (takeExponent p.2).2)

def Spelled : Kind → Text → Prop
  | .string, s => s.head? = some '\''
  | .quoted, s => s.head? = some '`' ∨ s.head? = some '"'
  | .parameter, s => s.head? = some '%' ∨ s.head? = some '{'
  | .number, s => ∃ c, s.head? = some c ∧ (c = '+' ∨ c = '-' ∨ c = '.' ∨ isDecimal c = true)
  | .word, s => isIdentifier s = true
  | .symbol, s => s ∈ symbols

structure Token where
  kind : Kind
  text : Text
  spelled : Spelled kind text
  deriving DecidableEq

omit [UnicodeDatabase] in
theorem matchQuote_head {q : Char} {s : Text} {p : Text × Text} (h : matchQuote q s = some p) :
    p.1.head? = some q := by
  cases s with
  | nil => cases h
  | cons c rest =>
    simp only [matchQuote] at h
    by_cases hc : c = q
    · rw [if_pos hc] at h
      obtain ⟨r, -, rfl⟩ := Option.map_eq_some_iff.mp h
      exact congrArg some hc
    · rw [if_neg hc] at h
      cases h

theorem matchString_spelled {s : Text} :
    ∀ p ∈ matchQuote '\'' s, Spelled .string p.1 := fun _ h => matchQuote_head h

theorem matchBackquote_spelled {s : Text} : ∀ p ∈ matchQuote '`' s, Spelled .quoted p.1 :=
  fun _ h => Or.inl (matchQuote_head h)

theorem matchDoubleQuote_spelled {s : Text} : ∀ p ∈ matchQuote '"' s, Spelled .quoted p.1 :=
  fun _ h => Or.inr (matchQuote_head h)

theorem matchClient_spelled {s : Text} : ∀ p ∈ matchClient s, Spelled .parameter p.1 := by
  intro p h
  obtain ⟨r, -, rfl⟩ := Option.map_eq_some_iff.mp h
  exact Or.inl rfl

theorem matchTyped_spelled {s : Text} : ∀ p ∈ matchTyped s, Spelled .parameter p.1 := by
  intro p h
  unfold matchTyped at h
  split at h
  · obtain ⟨r, -, h⟩ := Option.bind_eq_some_iff.mp h
    dsimp only at h
    split at h
    · obtain ⟨b, -, rfl⟩ := Option.map_eq_some_iff.mp h
      exact Or.inr rfl
    · cases h
  · cases h

theorem matchWord_spelled {s : Text} : ∀ p ∈ matchWord s, Spelled .word p.1 :=
  fun _ h => (takeIdentifier_eq_some h).2.1

theorem matchSymbol_spelled {s : Text} : ∀ p ∈ matchSymbol s, Spelled .symbol p.1 := by
  intro p h
  obtain ⟨symbol, hfind, rfl⟩ := Option.map_eq_some_iff.mp h
  exact List.mem_of_find?_eq_some hfind

theorem takeMantissa_head {s : Text} {p : Text × Text} (h : takeMantissa s = some p) :
    ∃ c, p.1.head? = some c ∧ (c = '.' ∨ isDecimal c = true) := by
  unfold takeMantissa at h
  cases hwhole : s.takeWhile isDecimal with
  | nil =>
    cases hrest : s.dropWhile isDecimal with
    | nil => simp [hwhole, hrest] at h
    | cons c rest =>
      by_cases hc : c = '.'
      · subst hc
        simp only [hwhole, hrest] at h
        by_cases hnone : rest.takeWhile isDecimal = []
        · rw [if_pos hnone] at h
          cases h
        · rw [if_neg hnone] at h
          cases h
          exact ⟨'.', rfl, Or.inl rfl⟩
      · simp [hwhole, hrest, hc] at h
  | cons d whole =>
    have hd : isDecimal d = true := List.mem_takeWhile_imp (hwhole ▸ List.mem_cons_self ..)
    refine ⟨d, ?_, Or.inr hd⟩
    cases hrest : s.dropWhile isDecimal with
    | nil =>
      simp only [hwhole, hrest, Option.some.injEq] at h
      rw [← h]
      rfl
    | cons c rest =>
      by_cases hc : c = '.'
      · subst hc
        simp only [hwhole, hrest, Option.some.injEq] at h
        rw [← h]
        rfl
      · simp [hwhole, hrest, hc] at h
        rw [← h]
        rfl

theorem matchNumber_spelled {s : Text} : ∀ p ∈ matchNumber s, Spelled .number p.1 := by
  intro p h
  obtain ⟨r, hmantissa, rfl⟩ := Option.map_eq_some_iff.mp h
  obtain ⟨c, hc, hclass⟩ := takeMantissa_head hmantissa
  have hsign : (takeSign s).1 = [] ∨ (takeSign s).1 = ['+'] ∨ (takeSign s).1 = ['-'] := by
    cases s with
    | nil => exact Or.inl rfl
    | cons d rest =>
      simp only [takeSign]
      by_cases hd : d = '+' ∨ d = '-'
      · rw [if_pos hd]
        rcases hd with rfl | rfl
        · exact Or.inr (Or.inl rfl)
        · exact Or.inr (Or.inr rfl)
      · rw [if_neg hd]
        exact Or.inl rfl
  rcases hsign with hsign | hsign | hsign
  · refine ⟨c, ?_, Or.inr (Or.inr hclass)⟩
    simp [hsign, List.head?_append, hc]
  · refine ⟨'+', ?_, Or.inl rfl⟩
    simp [hsign]
  · refine ⟨'-', ?_, Or.inr (Or.inl rfl)⟩
    simp [hsign]

def asToken (kind : Kind) (m : Match) (h : ∀ p ∈ m, Spelled kind p.1) : Option (Token × Text) :=
  m.pmap (fun p hp => (⟨kind, p.1, hp⟩, p.2)) h

def tokenAt (s : Text) : Option (Token × Text) :=
  [asToken .string (matchQuote '\'' s) matchString_spelled,
    asToken .quoted (matchQuote '`' s) matchBackquote_spelled,
    asToken .quoted (matchQuote '"' s) matchDoubleQuote_spelled,
    asToken .parameter (matchClient s) matchClient_spelled,
    asToken .parameter (matchTyped s) matchTyped_spelled,
    asToken .number (matchNumber s) matchNumber_spelled,
    asToken .word (matchWord s) matchWord_spelled,
    asToken .symbol (matchSymbol s) matchSymbol_spelled].findSome? id

def unsupportedSyntax : Failure := ⟨.notApplicable, "unsupported expression syntax", []⟩

def tokensWithin : ℕ → Text → Outcome (List Token)
  | _, [] => .ok []
  | 0, _ :: _ => .error unsupportedSyntax
  | fuel + 1, c :: rest =>
      if isSpace c then tokensWithin fuel (rest.dropWhile isSpace)
      else
        match tokenAt (c :: rest) with
        | none => .error unsupportedSyntax
        | some (token, after) => (token :: ·) <$> tokensWithin fuel after

def tokens (s : Text) : Outcome (List Token) := tokensWithin s.length s

end Numbers

end RayClickHouse.PredicateTokens
