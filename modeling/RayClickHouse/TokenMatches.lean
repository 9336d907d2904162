import RayClickHouse.TokenSpelling
import RayClickHouse.TypeRoundTrip

/-!
The matchers of the predicate tokens, one by one. Each takes a prefix that is
not empty, and takes the same one when a closing bracket and any text are put
behind; for a quoted text this needs that the rest does not begin with its quote.
-/
namespace RayClickHouse.PredicateTokens

open Text FilterScan PredicateGrammar

section Scanning

theorem takeWhile_stop {p : Char → Bool} {c : Char} (hc : p c = false) (s extra : Text) :
    (s ++ c :: extra).takeWhile p = s.takeWhile p := by
  induction s with
  | nil => simp [hc]
  | cons d s ih =>
    by_cases hd : p d = true
    · simp [hd, ih]
    · simp [hd]

theorem dropWhile_stop {p : Char → Bool} {c : Char} (hc : p c = false) (s extra : Text) :
    (s ++ c :: extra).dropWhile p = s.dropWhile p ++ c :: extra := by
  induction s with
  | nil => simp [hc]
  | cons d s ih =>
    by_cases hd : p d = true
    · simp [hd, ih]
    · simp [hd]

/-- What a matcher takes is a prefix that is not empty. -/
def Takes (s : Text) (p : Text × Text) : Prop := s = p.1 ++ p.2 ∧ p.1 ≠ []

def behind (extra : Text) (p : Text × Text) : Text × Text := (p.1, p.2 ++ ')' :: extra)

end Scanning

section Quotes

variable {q : Char} {s : Text} {p : Text × Text}

/-- What is taken of a quoted text behind its first quote. It ends at a quote that
cannot be paired with the next character. -/
inductive Quoting (q : Char) : Text → Text × Text → Prop
  | close {rest : Text} : (rest.head? = some q → quotedRest q rest.tail = none) →
      Quoting q (q :: rest) ([q], rest)
  | pair {rest : Text} {p : Text × Text} : Quoting q rest p →
      Quoting q (q :: q :: rest) (q :: q :: p.1, p.2)
  | escape {d : Char} {rest : Text} {p : Text × Text} : q ≠ '\\' → d ≠ '\n' → Quoting q rest p →
      Quoting q ('\\' :: d :: rest) ('\\' :: d :: p.1, p.2)
  | step {c : Char} {rest : Text} {p : Text × Text} : c ≠ q → c ≠ '\\' → Quoting q rest p →
      Quoting q (c :: rest) (c :: p.1, p.2)

theorem quoting_of_quotedRest (h : quotedRest q s = some p) : Quoting q s p := by
  induction hlength : s.length using Nat.strong_induction_on generalizing s p with
  | _ n ih =>
    match s with
    | [] => cases h
    | [c] =>
      simp only [quotedRest] at h
      by_cases hc : c = q
      · subst hc
        rw [if_pos rfl] at h
        cases h
        exact .close (by simp)
      · rw [if_neg hc] at h
        cases h
    | c :: d :: rest =>
      simp only [List.length_cons] at hlength
      simp only [quotedRest] at h
      by_cases hc : c = q
      · subst hc
        rw [if_pos rfl] at h
        by_cases hd : d = c
        · subst hd
          rw [if_pos rfl] at h
          cases hrest : quotedRest d rest with
          | none =>
            rw [hrest] at h
            cases h
            exact .close fun _ => hrest
          | some r =>
            rw [hrest] at h
            cases h
            exact .pair (ih rest.length (by omega) hrest rfl)
        · rw [if_neg hd] at h
          cases h
          apply Quoting.close
          intro hhead
          exact absurd (Option.some.inj hhead) hd
      · rw [if_neg hc] at h
        by_cases hslash : c = '\\'
        · subst hslash
          rw [if_pos rfl] at h
          by_cases hd : d = '\n'
          · rw [if_pos hd] at h
            cases h
          · rw [if_neg hd] at h
            obtain ⟨r, hr, rfl⟩ := Option.map_eq_some_iff.mp h
            exact .escape (Ne.symm hc) hd (ih rest.length (by omega) hr rfl)
        · rw [if_neg hslash] at h
          obtain ⟨r, hr, rfl⟩ := Option.map_eq_some_iff.mp h
          exact .step hc hslash (ih (d :: rest).length (by simp only [List.length_cons]; omega) hr rfl)

theorem quotedRest_of_quoting (h : Quoting q s p) : quotedRest q s = some p := by
  induction h with
  | @close rest hend =>
    cases rest with
    | nil => simp [quotedRest]
    | cons d rest =>
      simp only [quotedRest, if_true]
      by_cases hd : d = q
      · subst hd
        simp only [if_true]
        rw [show quotedRest d rest = none from hend rfl]
        rfl
      · rw [if_neg hd]
        rfl
  | pair _ ih =>
    simp only [quotedRest, if_true, ih]
    rfl
  | escape hq hd _ ih =>
    simp only [quotedRest, if_neg (Ne.symm hq), if_true, if_neg hd, ih]
    rfl
  | @step c rest p hc hslash hrest ih =>
    cases rest with
    | nil => cases hrest
    | cons d rest =>
      simp only [quotedRest, if_neg hc, if_neg hslash, ih]
      rfl

theorem Quoting.takes (h : Quoting q s p) : Takes s p := by
  induction h with
  | close => exact ⟨rfl, by simp⟩
  | pair _ ih | escape _ _ _ ih | step _ _ _ ih =>
    obtain ⟨hsplit, -⟩ := ih
    exact ⟨by simp [← hsplit], by simp⟩

theorem Quoting.unpaired (h : Quoting q s p) (hq : p.2.head? = some q) :
    quotedRest q p.2.tail = none := by
  induction h with
  | close hend => exact hend hq
  | pair _ ih | escape _ _ _ ih | step _ _ _ ih => exact ih hq

theorem Quoting.behind (h : Quoting q s p) (hq : q ≠ ')') (hrest : p.2.head? ≠ some q)
    (extra : Text) : Quoting q (s ++ ')' :: extra) (behind extra p) := by
  induction h with
  | @close rest hend =>
    apply Quoting.close
    intro hhead
    cases rest with
    | nil => exact absurd (Option.some.inj hhead).symm hq
    | cons d rest => exact absurd hhead hrest
  | pair _ ih => exact .pair (ih hrest)
  | escape hslash hd _ ih => exact .escape hslash hd (ih hrest)
  | step hc hslash _ ih => exact .step hc hslash (ih hrest)

theorem matchQuote_eq_some : matchQuote q s = some p ↔
    ∃ rest r, s = q :: rest ∧ Quoting q rest r ∧ p = (q :: r.1, r.2) := by
  cases s with
  | nil => simp [matchQuote]
  | cons c rest =>
    simp only [matchQuote, List.cons.injEq]
    by_cases hc : c = q
    · subst hc
      rw [if_pos rfl, Option.map_eq_some_iff]
      constructor
      · rintro ⟨r, hr, rfl⟩
        exact ⟨rest, r, ⟨rfl, rfl⟩, quoting_of_quotedRest hr, rfl⟩
      · rintro ⟨_, r, ⟨-, rfl⟩, hr, rfl⟩
        exact ⟨r, quotedRest_of_quoting hr, rfl⟩
    · rw [if_neg hc]
      constructor
      · intro h
        cases h
      · rintro ⟨_, _, ⟨hq, -⟩, -⟩
        exact absurd hq hc

theorem matchQuote_takes (h : matchQuote q s = some p) : Takes s p := by
  obtain ⟨rest, r, rfl, hr, rfl⟩ := matchQuote_eq_some.mp h
  exact ⟨by simp [← hr.takes.1], by simp⟩

/-- Behind a quoted text no other begins with the same quote. -/
theorem matchQuote_unpaired (h : matchQuote q s = some p) (hq : p.2.head? = some q) :
    matchQuote q p.2 = none := by
  obtain ⟨rest, r, rfl, hr, rfl⟩ := matchQuote_eq_some.mp h
  have hend := hr.unpaired hq
  cases hafter : r.2 with
  | nil => rfl
  | cons c after =>
    rw [hafter] at hq hend
    have hc : c = q := Option.some.inj hq
    simp only [matchQuote, if_pos hc]
    rw [show quotedRest q after = none from hend]
    rfl

theorem matchQuote_behind (h : matchQuote q s = some p) (hq : q ≠ ')')
    (hrest : p.2.head? ≠ some q) (extra : Text) :
    matchQuote q (s ++ ')' :: extra) = some (behind extra p) := by
  obtain ⟨rest, r, rfl, hr, rfl⟩ := matchQuote_eq_some.mp h
  exact matchQuote_eq_some.mpr ⟨_, _, rfl, hr.behind hq hrest extra, rfl⟩

end Quotes

section Parameters

variable {s : Text} {p : Text × Text}

theorem matchClient_eq_some : matchClient s = some p ↔
    ∃ name after, s = clientPlaceholder name ++ after ∧ isIdentifier name = true ∧
      p = (clientPlaceholder name, after) := by
  unfold matchClient
  rw [Option.map_eq_some_iff]
  constructor
  · rintro ⟨⟨name, after⟩, h, rfl⟩
    obtain ⟨hsplit, hname⟩ := matchParameter_eq_some h
    exact ⟨name, after, hsplit, hname, rfl⟩
  · rintro ⟨name, after, rfl, hname, rfl⟩
    exact ⟨(name, after), matchParameter_placeholder hname after, rfl⟩

def typedPlaceholder (name spaces type : Text) : Text :=
  '{' :: (name ++ spaces ++ ':' :: (type ++ ['}']))

theorem dropWhile_spaces {spaces : Text} (hspaces : ∀ c ∈ spaces, isSpace c = true) (after : Text) :
    (spaces ++ ':' :: after).dropWhile isSpace = ':' :: after ∧
      (spaces ++ ':' :: after).takeWhile isSpace = spaces := by
  rw [List.dropWhile_append_of_pos hspaces, List.takeWhile_append_of_pos hspaces]
  have hcolon : isSpace ':' = false := by decide
  simp [hcolon]

theorem matchTyped_eq_some : matchTyped s = some p ↔
    ∃ name spaces type after, s = typedPlaceholder name spaces type ++ after ∧
      isIdentifier name = true ∧ (∀ c ∈ spaces, isSpace c = true) ∧ type ≠ [] ∧
        (∀ c ∈ type, notBrace c = true) ∧ p = (typedPlaceholder name spaces type, after) := by
  constructor
  · intro h
    unfold matchTyped at h
    split at h
    · rename_i rest
      obtain ⟨⟨name, tail⟩, hname, htyped⟩ := Option.bind_eq_some_iff.mp h
      obtain ⟨rfl, hidentifier, -⟩ := takeIdentifier_eq_some hname
      dsimp only at htyped
      split at htyped
      · rename_i typed hdrop
        obtain ⟨⟨type, after⟩, hbraced, rfl⟩ := Option.map_eq_some_iff.mp htyped
        obtain ⟨rfl, hne, hbody⟩ := takeBraced_eq_some hbraced
        refine ⟨name, tail.takeWhile isSpace, type, after, ?_, hidentifier, ?_, hne, hbody, rfl⟩
        · have hsplit := @List.takeWhile_append_dropWhile _ isSpace tail
          rw [hdrop] at hsplit
          simp only [typedPlaceholder, List.cons_append, List.append_assoc, List.nil_append]
          rw [hsplit]
        · intro c hc
          exact List.mem_takeWhile_imp hc
      · cases htyped
    · cases h
  · rintro ⟨name, spaces, type, after, rfl, hname, hspaces, hne, hbody, rfl⟩
    have hcolon : ∀ c, (spaces ++ ':' :: (type ++ '}' :: after)).head? = some c →
        isIdentPart c = false := by
      intro c hc
      cases spaces with
      | nil =>
        cases hc
        decide
      | cons d spaces =>
        cases hc
        have hd := hspaces c (List.mem_cons_self ..)
        apply Bool.eq_false_iff.mpr
        intro hpart
        rw [Ddl.isSpace_of_isIdentPart hpart] at hd
        cases hd
    have htake := takeIdentifier_append hname hcolon
    obtain ⟨hdrop, hwhite⟩ := dropWhile_spaces hspaces (type ++ '}' :: after)
    have hshape : typedPlaceholder name spaces type ++ after =
        '{' :: (name ++ (spaces ++ ':' :: (type ++ '}' :: after))) := by
      simp [typedPlaceholder]
    rw [hshape]
    simp only [matchTyped, htake, Option.bind_eq_bind, Option.bind_some, hdrop, hwhite,
      takeBraced_append hne hbody, Option.map_some, typedPlaceholder]

end Parameters

section Words

variable {s : Text} {p : Text × Text}

theorem matchWord_eq_some : matchWord s = some p ↔
    s = p.1 ++ p.2 ∧ isIdentifier p.1 = true ∧ ∀ c, p.2.head? = some c → isIdentPart c = false := by
  constructor
  · exact takeIdentifier_eq_some
  · rintro ⟨rfl, hname, hrest⟩
    exact takeIdentifier_append hname hrest

theorem isPrefixOf_behind {symbol : Text} (hsymbol : symbol ∈ symbols) (hs : s ≠ [])
    (extra : Text) : symbol.isPrefixOf (s ++ ')' :: extra) = symbol.isPrefixOf s := by
  obtain ⟨c, s, rfl⟩ := List.exists_cons_of_ne_nil hs
  simp only [symbols, List.map_cons, List.map_nil, List.mem_cons, List.not_mem_nil, or_false]
    at hsymbol
  cases s with
  | nil =>
    rcases hsymbol with rfl | rfl | rfl | rfl | rfl | rfl | rfl | rfl | rfl | rfl | rfl <;>
      simp [List.isPrefixOf]
  | cons d s =>
    rcases hsymbol with rfl | rfl | rfl | rfl | rfl | rfl | rfl | rfl | rfl | rfl | rfl <;>
      simp [List.isPrefixOf]

theorem matchSymbol_takes (h : matchSymbol s = some p) : Takes s p := by
  obtain ⟨symbol, hfind, rfl⟩ := Option.map_eq_some_iff.mp h
  have hprefix : symbol.isPrefixOf s = true := by
    simpa using List.find?_some hfind
  obtain ⟨rest, rfl⟩ := List.isPrefixOf_iff_prefix.mp hprefix
  refine ⟨by simp, ?_⟩
  intro hnil
  have hmem := List.mem_of_find?_eq_some hfind
  have hnil : symbol = [] := hnil
  subst hnil
  exact absurd hmem (by decide)

theorem matchSymbol_behind (h : matchSymbol s = some p) (extra : Text) :
    matchSymbol (s ++ ')' :: extra) = some (behind extra p) := by
  have hs : s ≠ [] := by
    intro hnil
    obtain ⟨hsplit, hne⟩ := matchSymbol_takes h
    rw [hnil] at hsplit
    exact hne (List.append_eq_nil_iff.mp hsplit.symm).1
  obtain ⟨symbol, hfind, rfl⟩ := Option.map_eq_some_iff.mp h
  have hsame : symbols.find? (·.isPrefixOf (s ++ ')' :: extra)) = some symbol := by
    rw [← hfind]
    apply List.find?_congr
    intro w hw
    exact isPrefixOf_behind hw hs extra
  have hprefix : symbol.isPrefixOf s = true := by
    simpa using List.find?_some hfind
  obtain ⟨rest, rfl⟩ := List.isPrefixOf_iff_prefix.mp hprefix
  unfold matchSymbol
  rw [hsame]
  simp [behind]

end Words

section Numbers

variable [UnicodeDatabase] {s : Text} {p : Text × Text}

theorem not_decimal_ascii {c : Char} (hc : c.toNat < 128) (hdigit : c.isDigit = false) :
    isDecimal c = false := by
  unfold isDecimal
  rw [UnicodeDatabase.decimal_ascii c hc, hdigit]
  rfl

theorem not_decimal_closing : isDecimal ')' = false :=
  not_decimal_ascii (by decide) (by decide)

omit [UnicodeDatabase] in
theorem takeSign_behind (s extra : Text) :
    takeSign (s ++ ')' :: extra) = behind extra (takeSign s) := by
  cases s with
  | nil => rfl
  | cons c s =>
    simp only [List.cons_append, takeSign]
    by_cases hc : c = '+' ∨ c = '-'
    · rw [if_pos hc, if_pos hc]
      rfl
    · rw [if_neg hc, if_neg hc]
      rfl

omit [UnicodeDatabase] in
theorem takeSign_split (s : Text) : s = (takeSign s).1 ++ (takeSign s).2 := by
  cases s with
  | nil => rfl
  | cons c s =>
    simp only [takeSign]
    by_cases hc : c = '+' ∨ c = '-'
    · rw [if_pos hc]
      rfl
    · rw [if_neg hc]
      rfl

theorem takeMantissa_spec (h : takeMantissa s = some p) : Takes s p ∧
    ∀ extra, takeMantissa (s ++ ')' :: extra) = some (behind extra p) := by
  have hsplit := @List.takeWhile_append_dropWhile _ isDecimal s
  have hstop := not_decimal_closing
  unfold takeMantissa at h
  unfold takeMantissa
  simp only [takeWhile_stop hstop, dropWhile_stop hstop]
  cases hwhole : s.takeWhile isDecimal with
  | nil =>
    cases hrest : s.dropWhile isDecimal with
    | nil => simp [hwhole, hrest] at h
    | cons c rest =>
      by_cases hc : c = '.'
      · subst hc
        simp only [hwhole, hrest] at h
        by_cases hnone : rest.takeWhile isDecimal = []
        · rw [if_pos hnone] at h
          cases h
        · rw [if_neg hnone] at h
          cases h
          have hrejoin := @List.takeWhile_append_dropWhile _ isDecimal rest
          refine ⟨⟨?_, by simp⟩, fun extra => ?_⟩
          · rw [← hsplit, hwhole, hrest]
            simp [hrejoin]
          · simp only [List.cons_append, takeWhile_stop hstop, dropWhile_stop hstop,
              if_neg hnone]
            rfl
      · simp [hwhole, hrest, hc] at h
  | cons d whole =>
    cases hrest : s.dropWhile isDecimal with
    | nil =>
      simp only [hwhole, hrest, Option.some.injEq] at h
      subst h
      refine ⟨⟨?_, by simp⟩, fun extra => ?_⟩
      · rw [← hsplit, hwhole, hrest]
      · simp [behind]
    | cons c rest =>
      by_cases hc : c = '.'
      · subst hc
        simp only [hwhole, hrest, Option.some.injEq] at h
        subst h
        have hrejoin := @List.takeWhile_append_dropWhile _ isDecimal rest
        refine ⟨⟨?_, by simp⟩, fun extra => ?_⟩
        · rw [← hsplit, hwhole, hrest]
          simp [hrejoin]
        · simp only [List.cons_append, takeWhile_stop hstop, dropWhile_stop hstop]
          rfl
      · simp [hwhole, hrest, hc] at h
        subst h
        refine ⟨⟨?_, by simp⟩, fun extra => ?_⟩
        · rw [← hsplit, hwhole, hrest]
        · simp [behind, hc]

theorem takeExponent_spec (s extra : Text) : s = (takeExponent s).1 ++ (takeExponent s).2 ∧
    takeExponent (s ++ ')' :: extra) = behind extra (takeExponent s) := by
  cases s with
  | nil => exact ⟨rfl, rfl⟩
  | cons e rest =>
    have hsplit := @List.takeWhile_append_dropWhile _ isDecimal (takeSign rest).2
    simp only [List.cons_append, takeExponent, takeSign_behind, behind,
      takeWhile_stop not_decimal_closing, dropWhile_stop not_decimal_closing]
    by_cases he : (e = 'e' ∨ e = 'E') ∧ (takeSign rest).2.takeWhile isDecimal ≠ []
    · rw [if_pos he, if_pos he]
      refine ⟨?_, rfl⟩
      simp only [List.cons_append, List.append_assoc, hsplit]
      rw [← takeSign_split]
    · rw [if_neg he, if_neg he]
      exact ⟨rfl, rfl⟩

theorem matchNumber_spec (h : matchNumber s = some p) : Takes s p ∧
    ∀ extra, matchNumber (s ++ ')' :: extra) = some (behind extra p) := by
  unfold matchNumber at h
  obtain ⟨r, hmantissa, rfl⟩ := Option.map_eq_some_iff.mp h
  obtain ⟨⟨hsplit, hne⟩, hbehind⟩ := takeMantissa_spec hmantissa
  refine ⟨⟨?_, by simp [hne]⟩, fun extra => ?_⟩
  · have hexponent := (takeExponent_spec r.2 []).1
    simp only [List.append_assoc]
    rw [← hexponent, ← hsplit, ← takeSign_split]
  · simp only [matchNumber, takeSign_behind, behind, hbehind, Option.map_some,
      (takeExponent_spec r.2 extra).2]

end Numbers

end RayClickHouse.PredicateTokens
