import RayClickHouse.TokenMatches

/-!
The tokens of a text in front of a closing bracket. The first character settles
which alternative of the pattern can match, so the order of the alternatives does
not matter, and a text that is read alone is read the same way between brackets.
-/
namespace RayClickHouse.PredicateTokens

open Text FilterScan PredicateGrammar

inductive Alternative
  | string
  | backquoted
  | doubleQuoted
  | client
  | typed
  | number
  | word
  | symbol
  deriving DecidableEq

namespace Alternative

def all : List Alternative :=
  [string, backquoted, doubleQuoted, client, typed, number, word, symbol]

def kind : Alternative → Kind
  | string => .string
  | backquoted => .quoted
  | doubleQuoted => .quoted
  | client => .parameter
  | typed => .parameter
  | number => .number
  | word => .word
  | symbol => .symbol

def quote : Alternative → Option Char
  | string => some '\''
  | backquoted => some '`'
  | doubleQuoted => some '"'
  | _ => none

variable [UnicodeDatabase]

def takes : Alternative → Text → Match
  | string => matchQuote '\''
  | backquoted => matchQuote '`'
  | doubleQuoted => matchQuote '"'
  | client => matchClient
  | typed => matchTyped
  | number => matchNumber
  | word => matchWord
  | symbol => matchSymbol

def ofHead (c : Char) : Alternative :=
  if c = '\'' then string
  else if c = '`' then backquoted
  else if c = '"' then doubleQuoted
  else if c = '%' then client
  else if c = '{' then typed
  else if c = '+' ∨ c = '-' ∨ c = '.' ∨ isDecimal c = true then number
  else if isIdentStart c then word
  else symbol

theorem spelled (a : Alternative) (s : Text) : ∀ p ∈ a.takes s, Spelled a.kind p.1 := by
  cases a with
  | string => exact matchString_spelled
  | backquoted => exact matchBackquote_spelled
  | doubleQuoted => exact matchDoubleQuote_spelled
  | client => exact matchClient_spelled
  | typed => exact matchTyped_spelled
  | number => exact matchNumber_spelled
  | word => exact matchWord_spelled
  | symbol => exact matchSymbol_spelled

def token (a : Alternative) (s : Text) : Option (Token × Text) :=
  asToken a.kind (a.takes s) (a.spelled s)

variable {a : Alternative} {s : Text} {p : Text × Text}

theorem takes_spec (h : a.takes s = some p) : Takes s p := by
  cases a with
  | string | backquoted | doubleQuoted => exact matchQuote_takes h
  | client =>
    obtain ⟨name, after, rfl, -, rfl⟩ := matchClient_eq_some.mp h
    exact ⟨rfl, by simp [clientPlaceholder]⟩
  | typed =>
    obtain ⟨name, spaces, type, after, rfl, -, -, -, -, rfl⟩ := matchTyped_eq_some.mp h
    exact ⟨rfl, by simp [typedPlaceholder]⟩
  | number => exact (matchNumber_spec h).1
  | word =>
    obtain ⟨hsplit, hname, -⟩ := matchWord_eq_some.mp h
    exact ⟨hsplit, isIdentifier_ne_nil hname⟩
  | symbol => exact matchSymbol_takes h

theorem takes_unpaired {q : Char} (h : a.takes s = some p) (hquote : a.quote = some q)
    (hq : p.2.head? = some q) : a.takes p.2 = none := by
  cases a with
  | string | backquoted | doubleQuoted =>
    cases hquote
    exact matchQuote_unpaired h hq
  | client | typed | number | word | symbol => cases hquote

theorem takes_behind (h : a.takes s = some p) (hrest : ∀ q, a.quote = some q → p.2.head? ≠ some q)
    (extra : Text) : a.takes (s ++ ')' :: extra) = some (behind extra p) := by
  cases a with
  | string | backquoted | doubleQuoted =>
    exact matchQuote_behind h (by decide) (hrest _ rfl) extra
  | client =>
    obtain ⟨name, after, rfl, hname, rfl⟩ := matchClient_eq_some.mp h
    exact matchClient_eq_some.mpr ⟨name, after ++ ')' :: extra, by simp, hname, rfl⟩
  | typed =>
    obtain ⟨name, spaces, type, after, rfl, hname, hspaces, hne, htype, rfl⟩ :=
      matchTyped_eq_some.mp h
    exact matchTyped_eq_some.mpr
      ⟨name, spaces, type, after ++ ')' :: extra, List.append_assoc .., hname, hspaces, hne, htype, rfl⟩
  | number => exact (matchNumber_spec h).2 extra
  | word =>
    obtain ⟨rfl, hname, hstop⟩ := matchWord_eq_some.mp h
    refine matchWord_eq_some.mpr ⟨List.append_assoc .., hname, ?_⟩
    intro c hc
    cases hafter : p.2 with
    | nil =>
      simp only [behind, hafter, List.nil_append, List.head?_cons, Option.some.injEq] at hc
      subst hc
      decide
    | cons d after =>
      simp only [behind, hafter, List.cons_append, List.head?_cons] at hc
      apply hstop
      rw [hafter]
      exact hc
  | symbol => exact matchSymbol_behind h extra

end Alternative

section Heads

variable [UnicodeDatabase] {c : Char}

theorem ofHead_number (h : c = '+' ∨ c = '-' ∨ c = '.' ∨ isDecimal c = true) :
    Alternative.ofHead c = .number := by
  have hother : ∀ d ∈ openers, c ≠ d := by
    rintro d hd rfl
    simp only [openers, List.mem_cons, List.not_mem_nil, or_false] at hd
    rcases hd with rfl | rfl | rfl | rfl | rfl <;>
    · rcases h with h | h | h | h
      · exact absurd h (by decide)
      · exact absurd h (by decide)
      · exact absurd h (by decide)
      · rw [not_decimal_ascii (by decide) (by decide)] at h
        cases h
  unfold Alternative.ofHead
  rw [if_neg (hother _ (by decide)), if_neg (hother _ (by decide)), if_neg (hother _ (by decide)),
    if_neg (hother _ (by decide)), if_neg (hother _ (by decide)), if_pos h]

def symbolHeads : List Char := ['<', '>', '!', '=', '(', ')', ',']

def Ordinary (c : Char) : Prop :=
  c ∉ openers ∧ c ≠ '+' ∧ c ≠ '-' ∧ c ≠ '.' ∧ isDecimal c = false

theorem ofHead_ordinary (h : Ordinary c) :
    Alternative.ofHead c = if isIdentStart c then .word else .symbol := by
  obtain ⟨hopen, hplus, hminus, hpoint, hdecimal⟩ := h
  have hother : ∀ d ∈ openers, c ≠ d := by
    rintro d hd rfl
    exact hopen hd
  unfold Alternative.ofHead
  rw [if_neg (hother _ (by decide)), if_neg (hother _ (by decide)), if_neg (hother _ (by decide)),
    if_neg (hother _ (by decide)), if_neg (hother _ (by decide))]
  rw [if_neg (by simp [hplus, hminus, hpoint, hdecimal])]

theorem ofHead_word (h : isIdentStart c = true) : Alternative.ofHead c = .word := by
  have hne : ∀ d, isIdentStart d = false → c ≠ d := by
    rintro d hd rfl
    rw [h] at hd
    cases hd
  have hdecimal : isDecimal c = false := by
    simp only [isIdentStart, Bool.or_eq_true, beq_iff_eq] at h
    rcases h with h | rfl
    · exact not_decimal_of_isAlpha h
    · exact not_decimal_ascii (by decide) (by decide)
  have hordinary : Ordinary c := by
    refine ⟨?_, hne _ (by decide), hne _ (by decide), hne _ (by decide), hdecimal⟩
    intro hmem
    simp only [openers, List.mem_cons, List.not_mem_nil, or_false] at hmem
    rcases hmem with rfl | rfl | rfl | rfl | rfl <;> exact absurd h (by decide)
  rw [ofHead_ordinary hordinary, if_pos h]

omit [UnicodeDatabase] in
theorem symbolHeads_ascii : (symbolHeads.all fun d => !openers.contains d && d != '+' && d != '-' &&
    d != '.' && decide (d.toNat < 128) && !d.isDigit && !isIdentStart d) = true := by
  decide

theorem ofHead_symbol (h : c ∈ symbolHeads) : Alternative.ofHead c = .symbol := by
  have hall := List.all_eq_true.mp symbolHeads_ascii c h
  simp only [Bool.and_eq_true, Bool.not_eq_true', bne_iff_ne, decide_eq_true_eq,
    List.contains_eq_mem, decide_eq_false_iff_not] at hall
  obtain ⟨⟨⟨⟨⟨⟨hopen, hplus⟩, hminus⟩, hpoint⟩, hascii⟩, hdigit⟩, hstart⟩ := hall
  have hordinary : Ordinary c := ⟨hopen, hplus, hminus, hpoint, not_decimal_ascii hascii hdigit⟩
  rw [ofHead_ordinary hordinary, hstart]
  rfl

omit [UnicodeDatabase] in
theorem symbol_heads :
    (symbols.all fun w => w.head?.all fun d => symbolHeads.contains d) = true := by
  decide

theorem ofHead_takes {a : Alternative} {s : Text} {p : Text × Text}
    (h : a.takes (c :: s) = some p) : Alternative.ofHead c = a := by
  cases a with
  | string | backquoted | doubleQuoted =>
    simp only [Alternative.takes] at h
    obtain ⟨rest, r, hsplit, -, -⟩ := matchQuote_eq_some.mp h
    cases hsplit
    rfl
  | client =>
    obtain ⟨name, after, hsplit, -, -⟩ := matchClient_eq_some.mp h
    cases hsplit
    rfl
  | typed =>
    obtain ⟨name, spaces, type, after, hsplit, -⟩ := matchTyped_eq_some.mp h
    cases hsplit
    rfl
  | number =>
    obtain ⟨d, hd, hclass⟩ := matchNumber_spelled p h
    obtain ⟨hsplit, -⟩ := (matchNumber_spec h).1
    have hcd : c = d := by
      have hhead := congrArg List.head? hsplit
      rw [List.head?_append, hd] at hhead
      exact Option.some.inj hhead
    rw [hcd]
    exact ofHead_number hclass
  | word =>
    simp only [Alternative.takes, matchWord, takeIdentifier] at h
    by_cases hc : isIdentStart c = true
    · exact ofHead_word hc
    · rw [if_neg hc] at h
      cases h
  | symbol =>
    have hmem := matchSymbol_spelled p h
    obtain ⟨hsplit, hne⟩ := matchSymbol_takes h
    obtain ⟨d, w, hw⟩ := List.exists_cons_of_ne_nil hne
    have hcd : c = d := by
      rw [hw] at hsplit
      exact (List.cons.inj hsplit).1
    have hall := List.all_eq_true.mp symbol_heads _ hmem
    rw [hw] at hall
    apply ofHead_symbol
    rw [hcd]
    simpa using hall

end Heads

section Tokens

variable [UnicodeDatabase] {c : Char} {s after : Text} {t : Token}

theorem asToken_eq_some {kind : Kind} {m : Match} {h : ∀ p ∈ m, Spelled kind p.1} :
    asToken kind m h = some (t, after) ↔ t.kind = kind ∧ m = some (t.text, after) := by
  unfold asToken
  rw [Option.pmap_eq_some_iff]
  constructor
  · rintro ⟨p, hp, rfl, heq⟩
    cases heq
    exact ⟨rfl, rfl⟩
  · rintro ⟨rfl, rfl⟩
    exact ⟨_, h _ rfl, rfl, rfl⟩

theorem tokenAt_eq (s : Text) : tokenAt s = Alternative.all.findSome? (·.token s) := rfl

omit [UnicodeDatabase] in
theorem findSome?_only {α β : Type*} {f : α → Option β} {a : α} {l : List α} (ha : a ∈ l)
    (h : ∀ x ∈ l, x ≠ a → f x = none) : l.findSome? f = f a := by
  induction l with
  | nil => cases ha
  | cons x l ih =>
    rw [List.findSome?_cons]
    by_cases hx : x = a
    · subst hx
      cases hfx : f x with
      | some b => rfl
      | none =>
        rw [List.findSome?_eq_none_iff]
        intro y hy
        by_cases hyx : y = x
        · rw [hyx, hfx]
        · exact h y (List.mem_cons_of_mem _ hy) hyx
    · rw [h x (List.mem_cons_self ..) hx]
      have hmem := (List.mem_cons.mp ha).resolve_left (Ne.symm hx)
      exact ih hmem fun y hy => h y (List.mem_cons_of_mem _ hy)

/-- The token at a position is what the alternative of its first character takes. -/
theorem tokenAt_eq_some : tokenAt (c :: s) = some (t, after) ↔
    t.kind = (Alternative.ofHead c).kind ∧
      (Alternative.ofHead c).takes (c :: s) = some (t.text, after) := by
  have hmem : Alternative.ofHead c ∈ Alternative.all := by
    cases Alternative.ofHead c <;> decide
  have honly : tokenAt (c :: s) = (Alternative.ofHead c).token (c :: s) := by
    rw [tokenAt_eq]
    apply findSome?_only hmem
    intro a _ hne
    cases htoken : a.token (c :: s) with
    | none => rfl
    | some r =>
      have htakes := (asToken_eq_some.mp htoken).2
      exact absurd (ofHead_takes htakes).symm hne
  rw [honly]
  exact asToken_eq_some

theorem tokenAt_split (h : tokenAt (c :: s) = some (t, after)) :
    c :: s = t.text ++ after ∧ after.length ≤ s.length := by
  obtain ⟨-, htakes⟩ := tokenAt_eq_some.mp h
  obtain ⟨hsplit, hne⟩ := Alternative.takes_spec htakes
  have hsum := congrArg List.length hsplit
  have hpos : 0 < t.text.length := List.length_pos_iff.mpr hne
  simp only [List.length_cons, List.length_append] at hsum
  exact ⟨hsplit, by omega⟩

theorem tokensWithin_enough {fuel : ℕ} (h : s.length ≤ fuel) : tokensWithin fuel s = tokens s := by
  suffices hsame : ∀ m n s, List.length s ≤ m → List.length s ≤ n →
      tokensWithin m s = tokensWithin n s by
    exact hsame fuel s.length s h le_rfl
  intro m
  induction m with
  | zero =>
    intro n s hm hn
    have hnil : s = [] := List.length_eq_zero_iff.mp (Nat.le_zero.mp hm)
    subst hnil
    cases n <;> rfl
  | succ m ih =>
    intro n s hm hn
    cases s with
    | nil => cases n <;> rfl
    | cons c s =>
      simp only [List.length_cons] at hm hn
      obtain ⟨n, rfl⟩ : ∃ k, n = k + 1 := ⟨n - 1, by omega⟩
      simp only [tokensWithin]
      by_cases hc : isSpace c = true
      · rw [if_pos hc, if_pos hc]
        have hdrop := List.length_dropWhile_le isSpace s
        apply ih n
        · omega
        · omega
      · rw [if_neg hc, if_neg hc]
        cases htoken : tokenAt (c :: s) with
        | none => rfl
        | some r =>
          obtain ⟨t, after⟩ := r
          obtain ⟨-, hshort⟩ := tokenAt_split htoken
          have hrest := ih n after (by omega) (by omega)
          simp only [hrest]

theorem tokens_token (hc : isSpace c = false) (h : tokenAt (c :: s) = some (t, after)) :
    tokens (c :: s) = (t :: ·) <$> tokens after := by
  have hshort := (tokenAt_split h).2
  have hstep : tokens (c :: s) = (t :: ·) <$> tokensWithin s.length after := by
    simp only [tokens, List.length_cons, tokensWithin, hc, Bool.false_eq_true, if_false, h]
  rw [hstep, tokensWithin_enough hshort]

theorem tokens_none (hc : isSpace c = false) (h : tokenAt (c :: s) = none) :
    tokens (c :: s) = .error unsupportedSyntax := by
  simp only [tokens, List.length_cons, tokensWithin, hc, Bool.false_eq_true, if_false, h]

theorem tokens_skip (hc : isSpace c = true) (s : Text) :
    tokens (c :: s) = tokens (s.dropWhile isSpace) := by
  have hstep : tokens (c :: s) = tokensWithin s.length (s.dropWhile isSpace) := by
    simp only [tokens, List.length_cons, tokensWithin, hc, if_true]
  rw [hstep, tokensWithin_enough (List.length_dropWhile_le isSpace s)]

theorem tokens_dropWhile (s : Text) : tokens (s.dropWhile isSpace) = tokens s := by
  cases s with
  | nil => rfl
  | cons c s =>
    by_cases hc : isSpace c = true
    · rw [tokens_skip hc, List.dropWhile_cons_of_pos hc]
    · rw [List.dropWhile_cons_of_neg hc]

@[simp] theorem tokens_nil : tokens [] = .ok [] := rfl

theorem tokens_space (hc : isSpace c = true) (s : Text) : tokens (c :: s) = tokens s := by
  rw [tokens_skip hc, tokens_dropWhile]

/-- A rest that is read does not begin with the quote that closed the text before it. -/
theorem unpaired_of_tokens {a : Alternative} {ts : List Token}
    (h : a.takes s = some (t.text, after)) (hafter : tokens after = .ok ts) :
    ∀ q, a.quote = some q → after.head? ≠ some q := by
  intro q hquote hq
  have hnone := Alternative.takes_unpaired h hquote hq
  obtain ⟨rest, rfl⟩ : ∃ rest, after = q :: rest := by
    cases after with
    | nil => cases hq
    | cons d rest =>
      cases hq
      exact ⟨rest, rfl⟩
  have hof : Alternative.ofHead q = a ∧ isSpace q = false := by
    cases a with
    | string | backquoted | doubleQuoted =>
      cases hquote
      exact ⟨rfl, by decide⟩
    | client | typed | number | word | symbol => cases hquote
  have htoken : tokenAt (q :: rest) = none := by
    cases htoken : tokenAt (q :: rest) with
    | none => rfl
    | some r =>
      obtain ⟨-, htakes⟩ := tokenAt_eq_some.mp (show tokenAt (q :: rest) = some (r.1, r.2) from htoken)
      rw [hof.1] at htakes
      cases hnone.symm.trans htakes
  rw [tokens_none hof.2 htoken] at hafter
  cases hafter

/-- A text that is read alone is read the same way in front of a closing bracket. -/
theorem tokens_behind {ts : List Token} (h : tokens s = .ok ts) (extra : Text) :
    tokens (s ++ ')' :: extra) = (ts ++ ·) <$> tokens (')' :: extra) := by
  induction hlength : s.length using Nat.strong_induction_on generalizing s ts with
  | _ n ih =>
    cases s with
    | nil =>
      cases h
      rw [List.nil_append]
      cases tokens (')' :: extra) <;> rfl
    | cons c s =>
      rw [List.length_cons] at hlength
      by_cases hc : isSpace c = true
      · rw [tokens_space hc] at h
        rw [List.cons_append, tokens_space hc]
        exact ih s.length (by omega) h rfl
      · have hsolid := Bool.eq_false_iff.mpr hc
        cases htoken : tokenAt (c :: s) with
        | none =>
          rw [tokens_none hsolid htoken] at h
          cases h
        | some r =>
          obtain ⟨t, after⟩ := r
          rw [tokens_token hsolid htoken] at h
          cases hafter : tokens after with
          | error e =>
            rw [hafter] at h
            cases h
          | ok us =>
            rw [hafter] at h
            cases h
            obtain ⟨hkind, htakes⟩ := tokenAt_eq_some.mp htoken
            have hlong := Alternative.takes_behind htakes (unpaired_of_tokens htakes hafter) extra
            have hnext : tokenAt (c :: (s ++ ')' :: extra)) = some (t, after ++ ')' :: extra) :=
              tokenAt_eq_some.mpr ⟨hkind, hlong⟩
            have hshort := (tokenAt_split htoken).2
            rw [List.cons_append, tokens_token hsolid hnext,
              ih after.length (by omega) hafter rfl]
            cases tokens (')' :: extra) <;> rfl

end Tokens

end RayClickHouse.PredicateTokens
