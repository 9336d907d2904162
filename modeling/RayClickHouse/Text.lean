import Mathlib

/-!
Python strings as lists of code points, with the str methods and the regular
expression classes the connector uses. White space and the identifier classes
are fixed sets; the alphanumeric and decimal tables depend on the interpreter's
Unicode version and are parameters constrained on ASCII only.
-/
namespace RayClickHouse

abbrev Text := List Char

instance : LawfulBEq Text := inferInstance

/-- The Unicode tables behind `\w`, `\d` and int(). -/
class UnicodeDatabase where
  isAlnum : Char → Bool
  decimal : Char → Option ℕ
  isAlnum_ascii : ∀ c : Char, c.toNat < 128 → isAlnum c = c.isAlphanum
  decimal_ascii : ∀ c : Char, c.toNat < 128 →
    decimal c = if c.isDigit then some (c.toNat - '0'.toNat) else none

/-- The tables restricted to ASCII, on which every interpreter agrees. -/
@[reducible] def asciiDatabase : UnicodeDatabase where
  isAlnum c := decide (c.toNat < 128) && c.isAlphanum
  decimal c := if c.isDigit then some (c.toNat - '0'.toNat) else none
  isAlnum_ascii c h := by simp [h]
  decimal_ascii _ _ := rfl

namespace Text

def isSpace (c : Char) : Bool :=
  let n := c.toNat
  decide (9 ≤ n ∧ n ≤ 13) || decide (28 ≤ n ∧ n ≤ 32) || n == 133 || n == 160 || n == 5760 ||
    decide (8192 ≤ n ∧ n ≤ 8202) || n == 8232 || n == 8233 || n == 8239 || n == 8287 || n == 12288

def isIdentStart (c : Char) : Bool := c.isAlpha || c == '_'

def isIdentPart (c : Char) : Bool := c.isAlphanum || c == '_'

def isWord [UnicodeDatabase] (c : Char) : Bool := UnicodeDatabase.isAlnum c || c == '_'

def isDecimal [UnicodeDatabase] (c : Char) : Bool := (UnicodeDatabase.decimal c).isSome

/-- A full match of `[A-Za-z_][A-Za-z0-9_]*`. -/
def isIdentifier : Text → Bool
  | [] => false
  | c :: rest => isIdentStart c && rest.all isIdentPart

def takeIdentifier : Text → Option (Text × Text)
  | [] => none
  | c :: rest =>
      if isIdentStart c then some (c :: rest.takeWhile isIdentPart, rest.dropWhile isIdentPart)
      else none

def lstrip (s : Text) : Text := s.dropWhile isSpace

def rstrip (s : Text) : Text := s.rdropWhile isSpace

def strip (s : Text) : Text := rstrip (lstrip s)

def stripChars (chars : Text) (s : Text) : Text :=
  (s.dropWhile (fun c => chars.contains c)).rdropWhile (fun c => chars.contains c)

def join (separator : Text) (parts : List Text) : Text := separator.intercalate parts

def splitOnce (separator : Text) : Text → Option (Text × Text)
  | [] => if separator = [] then some ([], []) else none
  | c :: rest =>
      if separator.isPrefixOf (c :: rest) then some ([], (c :: rest).drop separator.length)
      else (splitOnce separator rest).map (fun p => (c :: p.1, p.2))

def search (matchAt : Text → Bool) : Text → Bool
  | [] => matchAt []
  | c :: rest => matchAt (c :: rest) || search matchAt rest

/-- The letter a pattern in capitals compares under re.IGNORECASE: besides the
52 ASCII letters, four other characters fold to an ASCII letter. -/
def foldUpper (c : Char) : Char :=
  if c.toNat = 304 ∨ c.toNat = 305 then 'I'
  else if c.toNat = 383 then 'S'
  else if c.toNat = 8490 then 'K'
  else c.toUpper

def ofNat (n : ℕ) : Text := Nat.toDigits 10 n

def ofInt : ℤ → Text
  | .ofNat n => ofNat n
  | .negSucc n => '-' :: ofNat (n + 1)

def intDigits [UnicodeDatabase] : ℕ → Text → Option ℕ
  | acc, [] => some acc
  | acc, '_' :: rest =>
      match rest with
      | [] => none
      | d :: rest' => (UnicodeDatabase.decimal d).bind fun v => intDigits (10 * acc + v) rest'
  | acc, c :: rest => (UnicodeDatabase.decimal c).bind fun v => intDigits (10 * acc + v) rest

def toInt [UnicodeDatabase] (s : Text) : Option ℤ :=
  match strip s with
  | [] => none
  | '-' :: d :: rest =>
      (UnicodeDatabase.decimal d).bind fun v => (intDigits v rest).map fun n => -(n : ℤ)
  | '+' :: d :: rest =>
      (UnicodeDatabase.decimal d).bind fun v => (intDigits v rest).map fun n => (n : ℤ)
  | d :: rest => (UnicodeDatabase.decimal d).bind fun v => (intDigits v rest).map fun n => (n : ℤ)

def sortedNames (names : List Text) : List Text :=
  names.dedup.mergeSort (fun a b => decide (a ≤ b))

theorem isIdentPart_of_isIdentStart {c : Char} (h : isIdentStart c = true) :
    isIdentPart c = true := by
  simp only [isIdentStart, isIdentPart, Char.isAlphanum, Bool.or_eq_true] at h ⊢
  rcases h with h | h
  · exact Or.inl (Or.inl h)
  · exact Or.inr h

theorem isIdentifier_mem {s : Text} (h : isIdentifier s = true) :
    ∀ c ∈ s, isIdentPart c = true := by
  cases s with
  | nil => simp
  | cons first rest =>
    simp only [isIdentifier, Bool.and_eq_true, List.all_eq_true] at h
    intro c hc
    rcases List.mem_cons.mp hc with rfl | hc
    · exact isIdentPart_of_isIdentStart h.1
    · exact h.2 c hc

theorem isIdentifier_ne_nil {s : Text} (h : isIdentifier s = true) : s ≠ [] := by
  rintro rfl
  simp [isIdentifier] at h

/-- A class of characters is excluded from identifiers when it meets no letter,
digit or underscore. -/
theorem isIdentifier_not_mem {s : Text} (h : isIdentifier s = true) {c : Char}
    (hc : isIdentPart c = false) : c ∉ s := by
  intro hmem
  rw [isIdentifier_mem h c hmem] at hc
  contradiction

theorem takeIdentifier_append {name rest : Text} (h : isIdentifier name = true)
    (hrest : ∀ c, rest.head? = some c → isIdentPart c = false) :
    takeIdentifier (name ++ rest) = some (name, rest) := by
  cases name with
  | nil => simp [isIdentifier] at h
  | cons first tail =>
    simp only [isIdentifier, Bool.and_eq_true, List.all_eq_true] at h
    have hstop : rest.takeWhile isIdentPart = [] ∧ rest.dropWhile isIdentPart = rest := by
      cases rest with
      | nil => simp
      | cons c cs => simp [hrest c rfl]
    simp only [List.cons_append, takeIdentifier, h.1, if_true,
      List.takeWhile_append_of_pos h.2, List.dropWhile_append_of_pos h.2, hstop.1, hstop.2,
      List.append_nil]

theorem takeIdentifier_eq_some {s name rest : Text} (h : takeIdentifier s = some (name, rest)) :
    s = name ++ rest ∧ isIdentifier name = true ∧
      ∀ c, rest.head? = some c → isIdentPart c = false := by
  cases s with
  | nil => simp [takeIdentifier] at h
  | cons first tail =>
    simp only [takeIdentifier] at h
    split at h
    · rename_i hfirst
      simp only [Option.some.injEq, Prod.mk.injEq] at h
      obtain ⟨rfl, rfl⟩ := h
      refine ⟨by simp [List.takeWhile_append_dropWhile], ?_, ?_⟩
      · simp only [isIdentifier, hfirst, Bool.true_and, List.all_eq_true]
        intro c hc
        exact List.mem_takeWhile_imp hc
      · intro c hc
        have := List.head?_dropWhile_not isIdentPart tail
        rw [hc] at this
        simpa using this
    · contradiction

structure Solid (s : Text) : Prop where
  head : ∀ c, s.head? = some c → isSpace c = false
  last : ∀ c, s.getLast? = some c → isSpace c = false

theorem strip_of_solid {s : Text} (h : Solid s) : strip s = s := by
  have hleft : lstrip s = s := by
    cases s with
    | nil => rfl
    | cons c rest =>
      unfold lstrip
      rw [List.dropWhile_cons_of_neg]
      rw [h.head c rfl]
      exact Bool.false_ne_true
  unfold strip rstrip
  rw [hleft, List.rdropWhile_eq_self_iff]
  intro hne
  rw [h.last _ (List.getLast?_eq_getLast_of_ne_nil hne)]
  exact Bool.false_ne_true

theorem join_cons (separator part : Text) (parts : List Text) :
    join separator (part :: parts) = part ++ parts.flatMap (separator ++ ·) := by
  unfold join
  induction parts generalizing part with
  | nil => simp
  | cons p rest ih =>
    rw [List.intercalate_cons_cons, ih]
    simp

/-- What precedes a character outside a class is determined when it lies in it. -/
theorem append_cons_inj {p : Char → Bool} {s t rest rest' : Text} {c d : Char}
    (h : s ++ c :: rest = t ++ d :: rest') (hs : ∀ x ∈ s, p x = true) (ht : ∀ x ∈ t, p x = true)
    (hc : p c = false) (hd : p d = false) : s = t ∧ c = d ∧ rest = rest' := by
  induction s generalizing t with
  | nil =>
    cases t with
    | nil => simpa using h
    | cons x t =>
      simp only [List.nil_append, List.cons_append, List.cons.injEq] at h
      rw [h.1, ht x (List.mem_cons_self ..)] at hc
      contradiction
  | cons x s ih =>
    cases t with
    | nil =>
      simp only [List.nil_append, List.cons_append, List.cons.injEq] at h
      rw [← h.1, hs x (List.mem_cons_self ..)] at hd
      contradiction
    | cons y t =>
      simp only [List.cons_append, List.cons.injEq] at h
      obtain ⟨rfl, htail⟩ := h
      obtain ⟨rfl, hcd⟩ := ih htail (fun z hz => hs z (List.mem_cons_of_mem _ hz))
        (fun z hz => ht z (List.mem_cons_of_mem _ hz))
      exact ⟨rfl, hcd⟩

section StripChars

variable {chars s : Text}

/-- A stripped character around a text makes no difference. -/
theorem stripChars_wrapped {q : Char} (hq : q ∈ chars) (s : Text) :
    stripChars chars (q :: (s ++ [q])) = stripChars chars s := by
  have hq' : chars.contains q = true := by simpa using hq
  have hleft : (q :: (s ++ [q])).dropWhile (fun c => chars.contains c) =
      (s ++ [q]).dropWhile (fun c => chars.contains c) := by
    rw [List.dropWhile_cons_of_pos hq']
  unfold stripChars
  rw [hleft, List.dropWhile_append]
  by_cases hempty : (s.dropWhile fun c => chars.contains c).isEmpty = true
  · rw [if_pos hempty, List.isEmpty_iff.mp hempty, List.dropWhile_cons_of_pos hq']
    rfl
  · rw [if_neg hempty, List.rdropWhile_concat, if_pos hq']

theorem stripChars_eq_self_iff : stripChars chars s = s ↔
    (∀ c, s.head? = some c → c ∉ chars) ∧ ∀ c, s.getLast? = some c → c ∉ chars := by
  constructor
  · intro h
    have hleft : s.dropWhile (fun c => chars.contains c) = s := by
      apply (List.dropWhile_suffix _).eq_of_length_le
      have hlength := congrArg List.length h
      have hle := (List.rdropWhile_prefix (fun c => chars.contains c)
        (s.dropWhile fun c => chars.contains c)).length_le
      unfold stripChars at hlength
      omega
    constructor
    · intro c hc hmem
      cases s with
      | nil => cases hc
      | cons d rest =>
        cases hc
        have hkept := List.dropWhile_eq_self_iff.mp hleft (by simp)
        simp [hmem] at hkept
    · intro c hc hmem
      unfold stripChars at h
      rw [hleft] at h
      have hne : s ≠ [] := by
        rintro rfl
        cases hc
      have hkept := List.rdropWhile_eq_self_iff.mp h hne
      rw [List.getLast?_eq_some_getLast hne] at hc
      cases hc
      simp [hmem] at hkept
  · rintro ⟨hhead, hlast⟩
    have hleft : s.dropWhile (fun c => chars.contains c) = s := by
      cases s with
      | nil => rfl
      | cons c rest =>
        have hc := hhead c rfl
        simp [hc]
    unfold stripChars
    rw [hleft]
    apply List.rdropWhile_eq_self_iff.mpr
    intro hne
    have hc := hlast _ (List.getLast?_eq_some_getLast hne)
    simpa using hc

theorem stripChars_self (h : ∀ c ∈ s, c ∉ chars) : stripChars chars s = s :=
  stripChars_eq_self_iff.mpr
    ⟨fun c hc => h c (List.mem_of_head? hc), fun c hc => h c (List.mem_of_getLast? hc)⟩

end StripChars

section Search

variable {matchAt : Text → Bool}

theorem search_eq_true {s : Text} :
    search matchAt s = true ↔ ∃ before after, s = before ++ after ∧ matchAt after = true := by
  induction s with
  | nil =>
    constructor
    · intro h
      exact ⟨[], [], rfl, h⟩
    · rintro ⟨before, after, heq, hmatch⟩
      obtain ⟨-, rfl⟩ := List.append_eq_nil_iff.mp heq.symm
      exact hmatch
  | cons c rest ih =>
    simp only [search, Bool.or_eq_true, ih]
    constructor
    · rintro (h | ⟨before, after, rfl, hmatch⟩)
      · exact ⟨[], c :: rest, rfl, h⟩
      · exact ⟨c :: before, after, rfl, hmatch⟩
    · rintro ⟨before, after, heq, hmatch⟩
      cases before with
      | nil =>
        left
        simpa only [List.nil_append] using heq ▸ hmatch
      | cons b before =>
        right
        simp only [List.cons_append, List.cons.injEq] at heq
        exact ⟨before, after, heq.2, hmatch⟩

end Search

end Text

end RayClickHouse
