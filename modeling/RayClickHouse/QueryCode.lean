import RayClickHouse.Lexical

/-!
The masked code of a text. Quoted text and comments become blanks of their own
length, so positions are kept; a text is read into lexemes from its left end, and
a character of the mask that is no blank is a character of code.
-/
namespace RayClickHouse.Lexical

open Text

def Lexeme.mask : Lexeme → Text
  | .quoted t => List.replicate t.length ' '
  | .blockComment t => List.replicate t.length ' '
  | .lineComment t => List.replicate t.length ' '
  | .code c => [c]

def lexemesFrom : ℕ → Text → Except LexError (List Lexeme)
  | _, [] => .ok []
  | 0, _ :: _ => .ok []
  | fuel + 1, c :: rest => do
      let (l, after) ← nextLexeme c rest
      let ls ← lexemesFrom fuel after
      .ok (l :: ls)

def queryCode (value : Text) : Outcome Text :=
  match lexemesFrom value.length value with
  | .error .unterminatedQuote => Outcome.raise .configuration "unterminated query quote"
  | .error .unterminatedComment => Outcome.raise .configuration "unterminated query comment"
  | .ok ls => .ok (ls.flatMap Lexeme.mask)

inductive Lexes : Text → List Lexeme → Prop
  | nil : Lexes [] []
  | cons {c : Char} {rest after : Text} {l : Lexeme} {ls : List Lexeme} :
      nextLexeme c rest = .ok (l, after) → Lexes after ls → Lexes (c :: rest) (l :: ls)

def plainText (ls : List Lexeme) : Text := ls.flatMap Lexeme.text

def codeText (ls : List Lexeme) : Text := ls.flatMap Lexeme.mask

section Lexing

variable {value rest : Text} {ls ms : List Lexeme} {c : Char}

theorem lexemesFrom_eq_ok {fuel : ℕ} (hfuel : value.length ≤ fuel) :
    lexemesFrom fuel value = .ok ls ↔ Lexes value ls := by
  induction fuel generalizing value ls with
  | zero =>
    obtain rfl : value = [] := List.length_eq_zero_iff.mp (by omega)
    constructor
    · intro h
      obtain rfl := Except.ok.inj h
      exact .nil
    · intro h
      cases h
      rfl
  | succ fuel ih =>
    cases value with
    | nil =>
      constructor
      · intro h
        obtain rfl := Except.ok.inj h
        exact .nil
      · intro h
        cases h
        rfl
    | cons c rest =>
      rw [List.length_cons] at hfuel
      constructor
      · intro h
        obtain ⟨⟨l, after⟩, hnext, hrest⟩ := Except.bind_eq_ok.mp h
        obtain ⟨tail, htail, heq⟩ := Except.bind_eq_ok.mp hrest
        obtain rfl := Except.ok.inj heq
        have hlength := nextLexeme_length hnext
        exact .cons hnext ((ih (by omega)).mp htail)
      · intro h
        cases h with
        | cons hnext htail =>
          have hlength := nextLexeme_length hnext
          exact Except.bind_eq_ok.mpr ⟨_, hnext,
            Except.bind_eq_ok.mpr ⟨_, (ih (by omega)).mpr htail, rfl⟩⟩

theorem queryCode_eq_ok {code : Text} :
    queryCode value = .ok code ↔ ∃ ls, Lexes value ls ∧ code = codeText ls := by
  constructor
  · intro h
    unfold queryCode at h
    split at h
    · contradiction
    · contradiction
    · rename_i ls hls
      exact ⟨ls, (lexemesFrom_eq_ok (Nat.le_refl _)).mp hls, (Except.ok.inj h).symm⟩
  · rintro ⟨ls, hls, rfl⟩
    unfold queryCode
    rw [(lexemesFrom_eq_ok (Nat.le_refl _)).mpr hls]
    rfl

theorem Lexes.text (h : Lexes value ls) : value = plainText ls := by
  induction h with
  | nil => rfl
  | cons hnext _ ih =>
    rw [(nextLexeme_text hnext).1, ih]
    rfl

theorem Lexes.unique (h : Lexes value ls) (h' : Lexes value ms) : ls = ms := by
  induction h generalizing ms with
  | nil =>
    cases h'
    rfl
  | cons hnext _ ih =>
    cases h' with
    | cons hnext' htail =>
      obtain ⟨rfl, rfl⟩ := Prod.mk.inj (Except.ok.inj (hnext.symm.trans hnext'))
      rw [ih htail]

end Lexing

section Mask

variable {ls ms : List Lexeme} {l : Lexeme}

@[simp] theorem plainText_nil : plainText [] = [] := rfl

@[simp] theorem plainText_cons : plainText (l :: ls) = l.text ++ plainText ls := rfl

@[simp] theorem plainText_append : plainText (ls ++ ms) = plainText ls ++ plainText ms :=
  List.flatMap_append

@[simp] theorem codeText_nil : codeText [] = [] := rfl

@[simp] theorem codeText_cons : codeText (l :: ls) = l.mask ++ codeText ls := rfl

@[simp] theorem codeText_append : codeText (ls ++ ms) = codeText ls ++ codeText ms :=
  List.flatMap_append

theorem mask_length (l : Lexeme) : l.mask.length = l.text.length := by
  cases l <;> simp [Lexeme.mask, Lexeme.text]

/-- A character of a mask is the one of the code, or a blank. -/
theorem mask_cases (l : Lexeme) : (∃ c, l = .code c) ∨ ∀ c ∈ l.mask, c = ' ' := by
  cases l with
  | quoted t => exact Or.inr fun c hc => List.eq_of_mem_replicate hc
  | blockComment t => exact Or.inr fun c hc => List.eq_of_mem_replicate hc
  | lineComment t => exact Or.inr fun c hc => List.eq_of_mem_replicate hc
  | code c => exact Or.inl ⟨c, rfl⟩

/-- A character of the masked text that is no blank begins a lexeme of code. -/
theorem codeText_split {before after : Text} {c : Char}
    (h : codeText ls = before ++ c :: after) (hc : c ≠ ' ') :
    ∃ front back, ls = front ++ .code c :: back ∧ before = codeText front ∧
      after = codeText back := by
  induction ls generalizing before with
  | nil => simp at h
  | cons l ls ih =>
    rw [codeText_cons] at h
    obtain ⟨more, rfl, hmore⟩ | ⟨more, hmask, hmore⟩ := List.append_eq_append_iff.mp h
    · obtain ⟨front, back, rfl, rfl, rfl⟩ := ih hmore
      exact ⟨l :: front, back, rfl, rfl, rfl⟩
    · cases more with
      | nil =>
        have hrest : codeText ls = [] ++ c :: after := hmore.symm
        obtain ⟨front, back, rfl, hbefore, rfl⟩ := ih hrest
        refine ⟨l :: front, back, rfl, ?_, rfl⟩
        rw [codeText_cons, ← hbefore, hmask, List.append_nil, List.append_nil]
      | cons d more =>
        obtain ⟨rfl, hafter⟩ := List.cons.inj hmore
        obtain ⟨d, rfl⟩ | hblank := mask_cases l
        · obtain ⟨rfl, hsingle⟩ : before = [] ∧ more = [] ∧ c = d := by
            cases before with
            | nil => simpa [Lexeme.mask, eq_comm, and_comm] using hmask
            | cons e before => simp [Lexeme.mask] at hmask
          obtain ⟨rfl, rfl⟩ := hsingle
          exact ⟨[], ls, rfl, rfl, hafter⟩
        · exact absurd (hblank c (by rw [hmask]; simp)) hc

end Mask

end RayClickHouse.Lexical
