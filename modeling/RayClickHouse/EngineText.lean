import RayClickHouse.EngineScan

/-!
Which cluster and table the extraction reads. Quotes close and parentheses nest
as in the engine definitions of the server; the arguments are constants in the
supported spellings.
-/
namespace RayClickHouse.EngineScan

open Text TypeText

def quoteAfter : Option Char → Text → Option Char
  | quote, [] => quote
  | some q, [c] => if c = '\\' then some q else if c = q then none else some q
  | some q, c :: d :: rest =>
      if c = '\\' then quoteAfter (some q) rest
      else if c = q then quoteAfter none (d :: rest)
      else quoteAfter (some q) (d :: rest)
  | none, c :: rest => if isQuote c then quoteAfter (some c) rest else quoteAfter none rest

/-- The open quote and the depth after a text, or none when a parenthesis outside
quotes closes nothing. -/
def nestingAfter : Option Char → ℕ → Text → Option (Option Char × ℕ)
  | quote, depth, [] => some (quote, depth)
  | some q, depth, [c] =>
      if c = '\\' then some (some q, depth)
      else if c = q then some (none, depth) else some (some q, depth)
  | some q, depth, c :: d :: rest =>
      if c = '\\' then nestingAfter (some q) depth rest
      else if c = q then nestingAfter none depth (d :: rest)
      else nestingAfter (some q) depth (d :: rest)
  | none, depth, c :: rest =>
      if isQuote c then nestingAfter (some c) depth rest
      else if c = '(' then nestingAfter none (depth + 1) rest
      else if c = ')' then
        match depth with
        | 0 => none
        | below + 1 => nestingAfter none below rest
      else nestingAfter none depth rest

def CallAt (s : Text) : Prop :=
  ∃ gap after, s = callName ++ (gap ++ '(' :: after) ∧ ∀ c ∈ gap, isSpace c = true

/-- A call of Distributed outside quotes, be it at the end of a longer word. -/
def MentionsCall (s : Text) : Prop :=
  ∃ before after, s = before ++ after ∧ quoteAfter none before = none ∧ CallAt after

/-- A text before the engine: its quotes are closed, and every call of
Distributed outside quotes continues a longer word. -/
structure EnginePrefix [UnicodeDatabase] (s : Text) : Prop where
  closed : quoteAfter none s = none
  word : ∀ before after, s = before ++ after → quoteAfter none before = none → CallAt after →
    ∃ c, before.getLast? = some c ∧ isWord c = true

inductive Spelling
  | bare
  | single
  | back
  | double

namespace Spelling

def spell : Spelling → Text → Text
  | bare, value => value
  | single, value => '\'' :: (value ++ ['\''])
  | back, value => '`' :: (value ++ ['`'])
  | double, value => '"' :: (value ++ ['"'])

def Admits (q : Char) (value : Text) : Prop :=
  ∀ c ∈ value, c ≠ q ∧ c ≠ '\\' ∧ c ≠ '{' ∧ c ≠ '}'

def Supports : Spelling → Text → Prop
  | bare, value => isIdentifier value = true
  | single, value => Admits '\'' value
  | back, value => Admits '`' value
  | double, value => Admits '"' value

end Spelling

structure Constant where
  spelling : Spelling
  value : Text
  supported : spelling.Supports value

def Constant.text (c : Constant) : Text := c.spelling.spell c.value

structure NameConstant extends Constant where
  identifier : isIdentifier value = true

inductive ArgumentText (c : Constant) : Text → Prop
  | mk (left right : Text) : (∀ d ∈ left, isSpace d = true) → (∀ d ∈ right, isSpace d = true) →
      ArgumentText c (left ++ (c.text ++ right))

/-- The arguments after the third: none, or a comma and a balanced text with its
quotes closed. -/
def Further (more : Text) : Prop :=
  more = [] ∨ ∃ m, more = ',' :: m ∧ nestingAfter none 0 m = some (none, 0)

def engineText (before cluster database table more suffix : Text) : Text :=
  before ++ (callName ++ '(' ::
    (cluster ++ ',' :: (database ++ ',' :: (table ++ (more ++ ')' :: suffix)))))

/-- The extraction reads the given target, whatever the spelling of the table, the
further arguments and the text after the call. -/
def ReadsTarget (before : Text) (cluster : Constant) : Prop :=
  ∀ (database table : NameConstant) (a b c more suffix : Text), ArgumentText cluster a →
    ArgumentText database.toConstant b → ArgumentText table.toConstant c → Further more →
    parseDistributedEngine (engineText before a b c more suffix) =
      .ok (cluster.value, ⟨database.value, table.value, database.identifier, table.identifier⟩)

def EndsPlain (value : Text) : Prop :=
  (∀ c, value.head? = some c → c ∉ quoteChars) ∧ ∀ c, value.getLast? = some c → c ∉ quoteChars

section Quotes

variable {c q : Char} {rest : Text}

theorem quoteAfter_close (hq : isQuote q = true) :
    quoteAfter (some q) (q :: rest) = quoteAfter none rest := by
  have hne : q ≠ '\\' := by
    rintro rfl
    cases hq
  cases rest <;> simp [quoteAfter, hne]

theorem quoteAfter_inside (hescape : c ≠ '\\') (hc : c ≠ q) :
    quoteAfter (some q) (c :: rest) = quoteAfter (some q) rest := by
  cases rest <;> simp [quoteAfter, hescape, hc]

theorem quoteAfter_open (hc : isQuote c = true) :
    quoteAfter none (c :: rest) = quoteAfter (some c) rest := by
  cases rest <;> simp [quoteAfter, hc]

theorem quoteAfter_code (hc : isQuote c = false) :
    quoteAfter none (c :: rest) = quoteAfter none rest := by
  cases rest <;> simp [quoteAfter, hc]

theorem nestingAfter_close (hq : isQuote q = true) {depth : ℕ} :
    nestingAfter (some q) depth (q :: rest) = nestingAfter none depth rest := by
  have hne : q ≠ '\\' := by
    rintro rfl
    cases hq
  cases rest <;> simp [nestingAfter, hne]

theorem nestingAfter_inside (hescape : c ≠ '\\') (hc : c ≠ q) {depth : ℕ} :
    nestingAfter (some q) depth (c :: rest) = nestingAfter (some q) depth rest := by
  cases rest <;> simp [nestingAfter, hescape, hc]

theorem nestingAfter_code {depth : ℕ} : nestingAfter none depth (c :: rest) =
    if isQuote c then nestingAfter (some c) depth rest
    else if c = '(' then nestingAfter none (depth + 1) rest
    else if c = ')' then
      match depth with
      | 0 => none
      | below + 1 => nestingAfter none below rest
    else nestingAfter none depth rest := by
  cases rest <;> rfl

/-- A scan over quoted text, by what may come next: the end, an escape, the
closing quote, another character, an opening quote, or code. -/
theorem quote_induction {motive : Option Char → Text → Prop}
    (nil : ∀ quote, motive quote [])
    (stuck : ∀ q, motive (some q) ['\\'])
    (escape : ∀ q c rest, motive (some q) rest → motive (some q) ('\\' :: c :: rest))
    (close : ∀ q rest, isQuote q = true → motive none rest → motive (some q) (q :: rest))
    (inside : ∀ q c rest, c ≠ '\\' → c ≠ q → motive (some q) rest → motive (some q) (c :: rest))
    (opening : ∀ c rest, isQuote c = true → motive (some c) rest → motive none (c :: rest))
    (code : ∀ c rest, isQuote c = false → motive none rest → motive none (c :: rest))
    (quote : Option Char) (hquote : ∀ q, quote = some q → isQuote q = true) (s : Text) :
    motive quote s := by
  induction hlen : s.length using Nat.strong_induction_on generalizing quote s with
  | _ n ih =>
    cases s with
    | nil => exact nil quote
    | cons c rest =>
      simp only [List.length_cons] at hlen
      cases quote with
      | none =>
        by_cases hc : isQuote c = true
        · apply opening c rest hc
          apply ih rest.length (by omega) (some c) _ rest rfl
          intro q hq
          cases hq
          exact hc
        · apply code c rest (Bool.eq_false_iff.mpr hc)
          apply ih rest.length (by omega) none _ rest rfl
          intro q hq
          cases hq
      | some q =>
        have hq := hquote q rfl
        by_cases hescape : c = '\\'
        · subst hescape
          cases rest with
          | nil => exact stuck q
          | cons d rest =>
            simp only [List.length_cons] at hlen
            exact escape q d rest (ih rest.length (by omega) (some q) hquote rest rfl)
        · by_cases hclose : c = q
          · subst hclose
            apply close c rest hq
            apply ih rest.length (by omega) none _ rest rfl
            intro q hq
            cases hq
          · exact inside q c rest hescape hclose
              (ih rest.length (by omega) (some q) hquote rest rfl)

end Quotes

end RayClickHouse.EngineScan
