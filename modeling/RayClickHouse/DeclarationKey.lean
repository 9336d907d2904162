import RayClickHouse.PredicateTokens
import RayClickHouse.TypeRefusals

/-!
The key under which declarations are compared: the tokens of the text, once its
arguments are balanced. A declaration is also laid out, as identifiers, numbers,
punctuation and quoted texts with white space between them.
-/
namespace RayClickHouse.DeclarationKey

open Text TypeText PredicateTokens

/-- The tables with one more of their facts: white space is no decimal digit. -/
class SpacedDatabase extends UnicodeDatabase where
  space_not_decimal : ∀ c : Char, isSpace c = true → toUnicodeDatabase.decimal c = none

section Key

variable [UnicodeDatabase]

def matchDigits (s : Text) : Match :=
  if s.takeWhile isDecimal = [] then none else some (s.takeWhile isDecimal, s.dropWhile isDecimal)

def matchVisible : Text → Match
  | [] => none
  | c :: rest => if isSpace c then none else some ([c], rest)

def declarationToken (s : Text) : Match :=
  [matchQuote '\'' s, matchQuote '`' s, matchQuote '"' s, takeIdentifier s, matchDigits s,
    matchVisible s].findSome? id

/-- findall: where no alternative matches, the search goes on behind the character. -/
def findallWithin : ℕ → Text → List Text
  | _, [] => []
  | 0, _ :: _ => []
  | fuel + 1, c :: rest =>
      match declarationToken (c :: rest) with
      | none => findallWithin fuel rest
      | some (token, after) => token :: findallWithin fuel after

def declarationTokens (s : Text) : List Text := findallWithin s.length s

def typeDeclarationKey (value : Text) : Outcome (List Text) := do
  let _ ← splitTypeArguments value
  .ok (declarationTokens value)

end Key

section Layout

variable [UnicodeDatabase]

def isWordy (c : Char) : Bool := isIdentPart c || isDecimal c

/-- An identifier, a number, a punctuation mark or a quoted text. -/
inductive Lexeme : Text → Prop
  | word {name : Text} : isIdentifier name = true → Lexeme name
  | number {digits : Text} : digits ≠ [] → (∀ c ∈ digits, isDecimal c = true) → Lexeme digits
  | mark {c : Char} : isSpace c = false → isQuote c = false → isWordy c = false → Lexeme [c]
  | literal (l : Literal) : Lexeme l.text

/-- What follows belongs to another lexeme: no identifier or number goes on, and no quoted
text is joined to another. -/
def Apart (t next : Text) : Prop :=
  ∀ c d, t.getLast? = some c → next.head? = some d →
    ¬(isWordy c = true ∧ isWordy d = true) ∧ ¬(isQuote c = true ∧ c = d)

/-- The text consists of the lexemes in their order, with white space between them. -/
inductive LaidOut : List Text → Text → Prop
  | spaces {s : Text} : (∀ c ∈ s, isSpace c = true) → LaidOut [] s
  | cons {spaces t rest : Text} {ts : List Text} : (∀ c ∈ spaces, isSpace c = true) → Lexeme t →
      Apart t rest → LaidOut ts rest → LaidOut (t :: ts) (spaces ++ (t ++ rest))

/-- Two texts that differ in white space outside quotes alone. -/
def DifferInSpacing (a b : Text) : Prop := ∃ ts, LaidOut ts a ∧ LaidOut ts b

/-- A declaration: a balanced list of arguments, laid out in lexemes. -/
structure Declared (s : Text) : Prop where
  balanced : ∃ arguments, splitTypeArguments s = .ok arguments
  laidOut : ∃ ts, LaidOut ts s

omit [UnicodeDatabase] in
/-- Enum labels, time zones and quoted field names. -/
def quotedTexts (ts : List Text) : List Text := ts.filter fun t => t.head?.any isQuote

omit [UnicodeDatabase] in
def escapesLineFeed : Option Char → Text → Bool
  | _, [] => false
  | some _, [_] => false
  | some q, c :: d :: rest =>
      if c = '\\' then d == '\n' || escapesLineFeed (some q) rest
      else if c = q then escapesLineFeed none (d :: rest)
      else escapesLineFeed (some q) (d :: rest)
  | none, c :: rest =>
      if isQuote c then escapesLineFeed (some c) rest else escapesLineFeed none rest

/-- The key of the declaration ignores white space outside quotes and nothing else. -/
def KeyIgnoresSpacing (a : Text) : Prop :=
  ∀ b, Declared b → (typeDeclarationKey a = typeDeclarationKey b ↔ DifferInSpacing a b) ∧
    ∀ ts us, LaidOut ts a → LaidOut us b → quotedTexts ts ≠ quotedTexts us →
      typeDeclarationKey a ≠ typeDeclarationKey b

end Layout

section Quotes

variable {c d q : Char} {s rest : Text}

theorem quotedRest_plain (hq : c ≠ q) (hc : c ≠ '\\') :
    quotedRest q (c :: s) = (quotedRest q s).map fun p => (c :: p.1, p.2) := by
  cases s with
  | nil => simp [quotedRest, hq]
  | cons d rest => simp [quotedRest, hq, hc]

theorem quotedRest_escaped (hq : q ≠ '\\') (hd : d ≠ '\n') :
    quotedRest q ('\\' :: d :: s) = (quotedRest q s).map fun p => ('\\' :: d :: p.1, p.2) := by
  simp [quotedRest, hq.symm, hd]

theorem quotedRest_lineFeed (hq : q ≠ '\\') : quotedRest q ('\\' :: '\n' :: s) = none := by
  simp [quotedRest, hq.symm]

theorem quotedRest_doubled :
    quotedRest q (q :: q :: s) =
      ((quotedRest q s).map fun p => (q :: q :: p.1, p.2)).orElse fun _ => some ([q], q :: s) := by
  simp [quotedRest]

theorem quotedRest_close (h : s.head? ≠ some q) : quotedRest q (q :: s) = some ([q], s) := by
  cases s with
  | nil => simp [quotedRest]
  | cons d rest =>
    have hd : d ≠ q := by
      intro heq
      rw [heq] at h
      exact h rfl
    simp [quotedRest, hd]

/-- The pattern consumes at least its closing quote. -/
theorem quotedRest_length (hq : q ≠ '\\') {p : Text × Text} (h : quotedRest q s = some p) :
    p.2.length < s.length := by
  induction hn : s.length using Nat.strong_induction_on generalizing s p with
  | _ n ih =>
    cases s with
    | nil =>
      rw [quotedRest] at h
      contradiction
    | cons c rest =>
      rw [List.length_cons] at hn
      by_cases hclose : c = q
      · rw [hclose] at h
        by_cases hdouble : rest.head? = some q
        · obtain ⟨more, hrest⟩ := List.head?_eq_some_iff.mp hdouble
          rw [hrest, List.length_cons] at hn
          rw [hrest, quotedRest_doubled] at h
          cases hpaired : quotedRest q more with
          | none =>
            rw [hpaired] at h
            simp only [Option.map_none, Option.orElse_none, Option.some.injEq] at h
            rw [← h, List.length_cons]
            omega
          | some r =>
            have hr := ih more.length (by omega) hpaired rfl
            rw [hpaired] at h
            simp only [Option.map_some, Option.orElse_some, Option.some.injEq] at h
            rw [← h]
            show r.2.length < n
            omega
        · rw [quotedRest_close hdouble, Option.some.injEq] at h
          rw [← h]
          show rest.length < n
          omega
      · by_cases hescape : c = '\\'
        · rw [hescape] at h
          cases rest with
          | nil => simp [quotedRest, hq.symm] at h
          | cons d more =>
            rw [List.length_cons] at hn
            by_cases hd : d = '\n'
            · rw [hd, quotedRest_lineFeed hq] at h
              contradiction
            · rw [quotedRest_escaped hq hd] at h
              obtain ⟨r, hr, hp⟩ := Option.map_eq_some_iff.mp h
              have hlt := ih more.length (by omega) hr rfl
              rw [← hp]
              show r.2.length < n
              omega
        · rw [quotedRest_plain hclose hescape] at h
          obtain ⟨r, hr, hp⟩ := Option.map_eq_some_iff.mp h
          have hlt := ih rest.length (by omega) hr rfl
          rw [← hp]
          show r.2.length < n
          omega

theorem ne_backslash (hq : isQuote q = true) : q ≠ '\\' := by
  intro heq
  rw [heq] at hq
  contradiction

end Quotes

section Tokens

variable {c q : Char} {s t rest : Text}

theorem isQuote_cases (h : isQuote q = true) : q = '\'' ∨ q = '"' ∨ q = '`' := by
  simp only [isQuote, Bool.or_eq_true, beq_iff_eq] at h
  tauto

theorem matchQuote_ne (h : c ≠ q) : matchQuote q (c :: rest) = none := by
  rw [matchQuote, if_neg h]

section Database

variable [UnicodeDatabase]

theorem isDecimal_ascii (h : c.toNat < 128) : isDecimal c = c.isDigit := by
  unfold isDecimal
  rw [UnicodeDatabase.decimal_ascii c h]
  cases c.isDigit with
  | true => rfl
  | false => rfl

theorem isQuote_not_wordy (h : isQuote q = true) :
    isIdentStart q = false ∧ isDecimal q = false ∧ isSpace q = false := by
  have hascii : q.toNat < 128 := by
    obtain rfl | rfl | rfl := isQuote_cases h <;> decide
  rw [isDecimal_ascii hascii]
  obtain rfl | rfl | rfl := isQuote_cases h <;> decide

/-- At a quote the token is the quoted text, or the quote alone where the pattern fails. -/
theorem declarationToken_quote (h : isQuote q = true) :
    declarationToken (q :: rest) =
      match quotedRest q rest with
      | some p => some (q :: p.1, p.2)
      | none => some ([q], rest) := by
  obtain ⟨hstart, hdecimal, hspace⟩ := isQuote_not_wordy h
  have hname : takeIdentifier (q :: rest) = none := by
    simp [takeIdentifier, hstart]
  have hdigits : matchDigits (q :: rest) = none := by
    simp [matchDigits, hdecimal]
  have hvisible : matchVisible (q :: rest) = some ([q], rest) := by
    simp [matchVisible, hspace]
  unfold declarationToken
  rw [hname, hdigits, hvisible]
  obtain rfl | rfl | rfl := isQuote_cases h
  · cases hrest : quotedRest '\'' rest <;> simp [matchQuote, hrest]
  · cases hrest : quotedRest '"' rest <;> simp [matchQuote, hrest]
  · cases hrest : quotedRest '`' rest <;> simp [matchQuote, hrest]

/-- Outside quotes the token is an identifier, a number or a single character. -/
theorem declarationToken_code (h : isQuote c = false) :
    declarationToken (c :: rest) =
      [takeIdentifier (c :: rest), matchDigits (c :: rest), matchVisible (c :: rest)].findSome?
        id := by
  have hne : ∀ q, isQuote q = true → matchQuote q (c :: rest) = none := by
    intro q hq
    apply matchQuote_ne
    intro heq
    rw [heq, hq] at h
    contradiction
  unfold declarationToken
  rw [hne '\'' rfl, hne '`' rfl, hne '"' rfl]
  rfl

theorem isSpace_not_code (h : isSpace c = true) :
    isQuote c = false ∧ isIdentStart c = false := by
  constructor
  · by_contra hquote
    rw [Bool.not_eq_false] at hquote
    rw [(isQuote_not_wordy hquote).2.2] at h
    contradiction
  · by_contra hstart
    rw [Bool.not_eq_false] at hstart
    rw [Ddl.isSpace_of_isIdentPart (isIdentPart_of_isIdentStart hstart)] at h
    contradiction

/-- A match leaves less than the whole text. -/
theorem declarationToken_length {p : Text × Text} (h : declarationToken s = some p) :
    p.2.length < s.length := by
  cases s with
  | nil => simp [declarationToken, matchQuote, takeIdentifier, matchDigits, matchVisible] at h
  | cons c rest =>
    rw [List.length_cons]
    by_cases hquote : isQuote c = true
    · rw [declarationToken_quote hquote] at h
      cases hrest : quotedRest c rest with
      | none =>
        simp only [hrest, Option.some.injEq] at h
        rw [← h]
        exact Nat.lt_succ_self rest.length
      | some r =>
        have hlt := quotedRest_length (ne_backslash hquote) hrest
        simp only [hrest, Option.some.injEq] at h
        rw [← h]
        show r.2.length < rest.length + 1
        omega
    · rw [declarationToken_code (Bool.eq_false_iff.mpr hquote)] at h
      obtain ⟨m, hm, hp⟩ := List.exists_of_findSome?_eq_some h
      simp only [id] at hp
      simp only [List.mem_cons, List.not_mem_nil, or_false] at hm
      obtain heq | heq | heq := hm
      · rw [heq] at hp
        obtain ⟨hsplit, hname, _⟩ := takeIdentifier_eq_some hp
        have hlength := congrArg List.length hsplit
        have hpos := List.length_pos_of_ne_nil (isIdentifier_ne_nil hname)
        rw [List.length_append, List.length_cons] at hlength
        omega
      · rw [heq, matchDigits] at hp
        split at hp
        · contradiction
        · next hne =>
          have hlength := congrArg List.length
            (List.takeWhile_append_dropWhile (p := isDecimal) (l := c :: rest))
          have hpos := List.length_pos_of_ne_nil hne
          rw [List.length_append, List.length_cons] at hlength
          rw [← Option.some.inj hp]
          show ((c :: rest).dropWhile isDecimal).length < rest.length + 1
          omega
      · rw [heq, matchVisible] at hp
        split at hp
        · contradiction
        · rw [← Option.some.inj hp]
          exact Nat.lt_succ_self rest.length

theorem findallWithin_fuel {fuel : ℕ} (h : s.length ≤ fuel) :
    findallWithin fuel s = declarationTokens s := by
  unfold declarationTokens
  induction hn : s.length using Nat.strong_induction_on generalizing s fuel with
  | _ n ih =>
    cases s with
    | nil =>
      rw [← hn]
      cases fuel <;> rfl
    | cons c rest =>
      rw [List.length_cons] at h hn
      obtain ⟨more, rfl⟩ : ∃ more, fuel = more + 1 := ⟨fuel - 1, by omega⟩
      rw [← hn, findallWithin, findallWithin]
      cases htoken : declarationToken (c :: rest) with
      | none =>
        simp only
        rw [ih rest.length (by omega) (by omega) rfl]
      | some p =>
        have hlt := declarationToken_length htoken
        rw [List.length_cons] at hlt
        have hmore : findallWithin more p.2 = findallWithin p.2.length p.2 :=
          ih p.2.length (by omega) (by omega) rfl
        have hrest : findallWithin rest.length p.2 = findallWithin p.2.length p.2 :=
          ih p.2.length (by omega) (by omega) rfl
        simp only
        rw [hmore, hrest]

theorem declarationTokens_none (h : declarationToken (c :: rest) = none) :
    declarationTokens (c :: rest) = declarationTokens rest := by
  rw [declarationTokens, List.length_cons, findallWithin, h]
  exact findallWithin_fuel (Nat.le_refl _)

theorem declarationTokens_some {after : Text} (h : declarationToken s = some (t, after)) :
    declarationTokens s = t :: declarationTokens after := by
  have hlt := declarationToken_length h
  cases s with
  | nil => simp at hlt
  | cons c rest =>
    rw [List.length_cons] at hlt
    rw [declarationTokens, List.length_cons, findallWithin, h]
    simp only
    rw [findallWithin_fuel]
    show after.length ≤ rest.length
    simp only at hlt
    omega

end Database

section Spaces

variable [SpacedDatabase] {spaces : Text}

theorem declarationToken_space (h : isSpace c = true) : declarationToken (c :: rest) = none := by
  obtain ⟨hquote, hstart⟩ := isSpace_not_code h
  have hdecimal : isDecimal c = false := by
    unfold isDecimal
    rw [SpacedDatabase.space_not_decimal c h]
    rfl
  rw [declarationToken_code hquote]
  simp [takeIdentifier, matchDigits, matchVisible, hstart, hdecimal, h]

theorem declarationTokens_spaces (h : ∀ c ∈ spaces, isSpace c = true) :
    declarationTokens (spaces ++ s) = declarationTokens s := by
  induction spaces with
  | nil => rfl
  | cons c spaces ih =>
    rw [List.cons_append,
      declarationTokens_none (declarationToken_space (h c (List.mem_cons_self ..)))]
    exact ih fun d hd => h d (List.mem_cons_of_mem _ hd)

end Spaces

end Tokens

end RayClickHouse.DeclarationKey
