import RayClickHouse.Lexical
import RayClickHouse.TypeText

/-!
The binding scanner of a filter. It walks the text segment by segment (quoted
text, comment, client placeholder, typed server placeholder or one character of
code) and collects the parameter names each protocol would need. A comment
counts for the client protocol only; placeholder-looking text inside quotes or
comments makes the filter ambiguous.
-/
namespace RayClickHouse.FilterScan

open Text Lexical TypeText

variable [UnicodeDatabase]

inductive Segment
  | quoted (text : Text)
  | comment (text : Text) (line : Bool)
  | client (name : Text)
  | server (name : Text) (type : Text)
  | plain (c : Char)
  deriving DecidableEq, Repr

namespace Segment

def text : Segment → Text
  | quoted t => t
  | comment t _ => t
  | client name => clientPlaceholder name
  | server name type => serverPlaceholder name type
  | plain c => [c]

/-- Quoted text and comments, which the scanner does not read as code. -/
def hidden : Segment → Option Text
  | quoted t => some t
  | comment t _ => some t
  | _ => none

def isLineComment : Segment → Bool
  | comment _ line => line
  | _ => false

end Segment

def matchParameter : Text → Option (Text × Text)
  | '%' :: '(' :: rest =>
      match takeIdentifier rest with
      | some (name, ')' :: 's' :: after) => some (name, after)
      | _ => none
  | _ => none

def notBrace (c : Char) : Bool := c != '{' && c != '}'

def takeBraced (s : Text) : Option (Text × Text) :=
  match s.takeWhile notBrace, s.dropWhile notBrace with
  | [], _ => none
  | body, c :: after => if c = '}' then some (body, after) else none
  | _, [] => none

def matchServerParameter : Text → Option (Text × Text × Text)
  | '{' :: rest =>
      match takeIdentifier rest with
      | some (name, ':' :: typed) => (takeBraced typed).map fun p => (name, p.1, p.2)
      | _ => none
  | _ => none

def matchDriverParameter : Text → Option Text
  | '{' :: rest =>
      match rest.takeWhile isWord, rest.dropWhile isWord with
      | _ :: _, ':' :: typed => (takeBraced typed).map Prod.snd
      | _, _ => none
  | _ => none

def driverSearch (s : Text) : Bool := search (fun t => (matchDriverParameter t).isSome) s

/-- The names of all client placeholders of a text. No match contains a second
percent sign, so the matches found at every position are those of finditer. -/
def parameterNames : Text → List Text
  | [] => []
  | c :: rest =>
      match matchParameter (c :: rest) with
      | some (name, _) => name :: parameterNames rest
      | none => parameterNames rest

def nextCode (c : Char) (rest : Text) : Outcome (Segment × Text) :=
  match matchParameter (c :: rest) with
  | some (name, after) => .ok (.client name, after)
  | none =>
      if c = '{' then
        match matchServerParameter (c :: rest) with
        | none => Outcome.raise .configuration "malformed server-side parameter placeholder"
        | some (name, type, after) => .ok (.server name type, after)
      else if c = '%' ∧ (rest.head? = some '(' ∨ rest.head? = some 's') then
        Outcome.raise .configuration "unsupported client-side parameter placeholder"
      else .ok (.plain c, rest)

def nextSegment (c : Char) (rest : Text) : Outcome (Segment × Text) :=
  match nextLexeme c rest with
  | .error .unterminatedQuote => Outcome.raise .configuration "unterminated filter quote"
  | .error .unterminatedComment => Outcome.raise .configuration "unterminated filter comment"
  | .ok (.quoted t, after) => .ok (.quoted t, after)
  | .ok (.blockComment t, after) => .ok (.comment t false, after)
  | .ok (.lineComment t, after) => .ok (.comment t true, after)
  | .ok (.code _, _) => nextCode c rest

structure FilterBindings where
  clientNames : List Text := []
  commentClientNames : List Text := []
  serverTypes : List (Text × Text) := []
  ambiguous : Bool := false
  deriving DecidableEq, Repr

namespace FilterBindings

def add (b : FilterBindings) : Segment → Outcome FilterBindings
  | .quoted t => .ok { b with ambiguous := b.ambiguous || driverSearch t }
  | .comment t _ => .ok { b with
      commentClientNames := b.commentClientNames ++ parameterNames t
      ambiguous := b.ambiguous || driverSearch t }
  | .client name => .ok { b with clientNames := b.clientNames ++ [name] }
  | .server name type => do
      let hint ← parameterType type
      match b.serverTypes.lookup name with
      | some known =>
          if known = hint then .ok b
          else Outcome.raise .configuration "repeated parameter has conflicting types"
      | none => .ok { b with serverTypes := b.serverTypes ++ [(name, hint)] }
  | .plain _ => .ok b

/-- Client formatting includes comments; server binding leaves them untouched. -/
def finish (b : FilterBindings) : FilterBindings :=
  if b.serverTypes = [] then { b with clientNames := b.clientNames ++ b.commentClientNames } else b

end FilterBindings

def filterBindingsFrom : ℕ → FilterBindings → Text → Outcome FilterBindings
  | _, b, [] => .ok b
  | 0, b, _ :: _ => .ok b
  | fuel + 1, b, c :: rest => do
      let (segment, after) ← nextSegment c rest
      let b' ← b.add segment
      filterBindingsFrom fuel b' after

def filterBindings (value : Text) : Outcome FilterBindings := do
  let b ← filterBindingsFrom value.length {} value
  .ok b.finish

section Ascii

omit [UnicodeDatabase] in
theorem ascii_of_isIdentPart {c : Char} (h : isIdentPart c = true) : c.toNat < 128 := by
  simp only [isIdentPart, Char.isAlphanum, Char.isAlpha, Char.isUpper, Char.isLower, Char.isDigit,
    Bool.or_eq_true, Bool.and_eq_true, decide_eq_true_eq, UInt32.le_iff_toNat_le, beq_iff_eq,
    ge_iff_le] at h
  have htoNat : c.toNat = c.val.toNat := rfl
  rcases h with ((h | h) | h) | h
  · exact lt_of_le_of_lt (htoNat ▸ h.2) (by decide)
  · exact lt_of_le_of_lt (htoNat ▸ h.2) (by decide)
  · exact lt_of_le_of_lt (htoNat ▸ h.2) (by decide)
  · subst h
    decide

theorem isWord_of_isIdentPart {c : Char} (h : isIdentPart c = true) : isWord c = true := by
  unfold isWord
  rw [UnicodeDatabase.isAlnum_ascii c (ascii_of_isIdentPart h)]
  exact h

@[simp] theorem isWord_colon : isWord ':' = false := by
  unfold isWord
  rw [UnicodeDatabase.isAlnum_ascii ':' (by decide)]
  decide

end Ascii

section Match

omit [UnicodeDatabase]

theorem matchParameter_eq_some {s name after : Text} (h : matchParameter s = some (name, after)) :
    s = clientPlaceholder name ++ after ∧ isIdentifier name = true := by
  unfold matchParameter at h
  split at h
  · rename_i rest
    split at h
    · rename_i name' after' htake
      simp only [Option.some.injEq, Prod.mk.injEq] at h
      obtain ⟨rfl, rfl⟩ := h
      obtain ⟨hrest, hname, _⟩ := takeIdentifier_eq_some htake
      simp [clientPlaceholder, hrest, hname]
    · contradiction
  · contradiction

theorem matchParameter_placeholder {name : Text} (h : isIdentifier name = true) (after : Text) :
    matchParameter (clientPlaceholder name ++ after) = some (name, after) := by
  have htake : takeIdentifier (name ++ (')' :: 's' :: after)) = some (name, ')' :: 's' :: after) :=
    takeIdentifier_append h (by simp [isIdentPart])
  have hshape : clientPlaceholder name ++ after = '%' :: '(' :: (name ++ (')' :: 's' :: after)) := by
    simp [clientPlaceholder]
  rw [hshape]
  simp [matchParameter, htake]

theorem takeBraced_eq_some {s body after : Text} (h : takeBraced s = some (body, after)) :
    s = body ++ '}' :: after ∧ body ≠ [] ∧ ∀ c ∈ body, notBrace c = true := by
  have hsplit := @List.takeWhile_append_dropWhile _ notBrace s
  unfold takeBraced at h
  cases htake : s.takeWhile notBrace with
  | nil => simp [htake] at h
  | cons b bs =>
    cases hdrop : s.dropWhile notBrace with
    | nil => simp [htake, hdrop] at h
    | cons c rest =>
      simp only [htake, hdrop] at h
      split at h
      · rename_i hc
        simp only [Option.some.injEq, Prod.mk.injEq] at h
        obtain ⟨rfl, rfl⟩ := h
        refine ⟨by rw [← hc, ← hdrop, ← htake, hsplit], by simp, ?_⟩
        intro d hd
        rw [← htake] at hd
        exact List.mem_takeWhile_imp hd
      · contradiction

theorem takeBraced_append {body : Text} (hne : body ≠ []) (h : ∀ c ∈ body, notBrace c = true)
    (after : Text) : takeBraced (body ++ '}' :: after) = some (body, after) := by
  have htake : (body ++ '}' :: after).takeWhile notBrace = body := by
    rw [List.takeWhile_append_of_pos h]
    simp [notBrace]
  have hdrop : (body ++ '}' :: after).dropWhile notBrace = '}' :: after := by
    rw [List.dropWhile_append_of_pos h]
    simp [notBrace]
  unfold takeBraced
  rw [htake, hdrop]
  cases body with
  | nil => exact absurd rfl hne
  | cons c rest => rfl

theorem matchServerParameter_eq_some {s name type after : Text}
    (h : matchServerParameter s = some (name, type, after)) :
    s = serverPlaceholder name type ++ after ∧ isIdentifier name = true ∧ type ≠ [] ∧
      ∀ c ∈ type, notBrace c = true := by
  unfold matchServerParameter at h
  split at h
  · rename_i rest
    split at h
    · rename_i name' typed htake
      obtain ⟨p, hp, heq⟩ := Option.map_eq_some_iff.mp h
      simp only [Prod.mk.injEq] at heq
      obtain ⟨rfl, rfl, rfl⟩ := heq
      obtain ⟨hrest, hname, _⟩ := takeIdentifier_eq_some htake
      obtain ⟨htyped, hne, hbody⟩ := takeBraced_eq_some hp
      refine ⟨?_, hname, hne, hbody⟩
      rw [hrest, htyped]
      simp [serverPlaceholder]
    · contradiction
  · contradiction

theorem matchServerParameter_placeholder {name type : Text} (hname : isIdentifier name = true)
    (hne : type ≠ []) (htype : ∀ c ∈ type, notBrace c = true) (after : Text) :
    matchServerParameter (serverPlaceholder name type ++ after) = some (name, type, after) := by
  have htake : takeIdentifier (name ++ ':' :: (type ++ '}' :: after)) =
      some (name, ':' :: (type ++ '}' :: after)) :=
    takeIdentifier_append hname (by simp [isIdentPart])
  have hshape : serverPlaceholder name type ++ after =
      '{' :: (name ++ ':' :: (type ++ '}' :: after)) := by simp [serverPlaceholder]
  rw [hshape]
  simp [matchServerParameter, htake, takeBraced_append hne htype]

theorem matchParameter_plain {c : Char} {rest : Text}
    (h : ¬ (c = '%' ∧ rest.head? = some '(')) : matchParameter (c :: rest) = none := by
  unfold matchParameter
  split
  · rename_i heq
    simp only [List.cons.injEq] at heq
    exact absurd ⟨heq.1, by simp [heq.2]⟩ h
  · rfl

end Match

section Driver

/-- What the driver's pattern matches: word characters, a colon and a run
without braces, between braces. -/
theorem matchDriverParameter_eq_some {s after : Text} :
    matchDriverParameter s = some after ↔
      ∃ name body, s = '{' :: (name ++ ':' :: (body ++ '}' :: after)) ∧ name ≠ [] ∧
        (∀ c ∈ name, isWord c = true) ∧ body ≠ [] ∧ ∀ c ∈ body, notBrace c = true := by
  constructor
  · intro h
    unfold matchDriverParameter at h
    split at h
    · rename_i rest
      split at h
      · rename_i n ns typed htake hdrop
        obtain ⟨p, hp, heq⟩ := Option.map_eq_some_iff.mp h
        obtain ⟨htyped, hne, hbody⟩ := takeBraced_eq_some hp
        refine ⟨n :: ns, p.1, ?_, by simp, ?_, hne, hbody⟩
        · rw [← heq, ← htyped, ← hdrop, ← htake, List.takeWhile_append_dropWhile]
        · intro c hc
          rw [← htake] at hc
          exact List.mem_takeWhile_imp hc
      · contradiction
    · contradiction
  · rintro ⟨name, body, rfl, hname, hword, hbody, hbrace⟩
    have htake : (name ++ ':' :: (body ++ '}' :: after)).takeWhile isWord = name := by
      rw [List.takeWhile_append_of_pos hword]
      simp
    have hdrop : (name ++ ':' :: (body ++ '}' :: after)).dropWhile isWord =
        ':' :: (body ++ '}' :: after) := by
      rw [List.dropWhile_append_of_pos hword]
      simp
    cases name with
    | nil => exact absurd rfl hname
    | cons n ns =>
      simp only [matchDriverParameter, htake, hdrop, takeBraced_append hbody hbrace,
        Option.map_some]

theorem driverSearch_eq_true {s : Text} :
    driverSearch s = true ↔
      ∃ before name body after, s = before ++ '{' :: (name ++ ':' :: (body ++ '}' :: after)) ∧
        name ≠ [] ∧ (∀ c ∈ name, isWord c = true) ∧ body ≠ [] ∧ ∀ c ∈ body, notBrace c = true := by
  unfold driverSearch
  rw [search_eq_true]
  constructor
  · rintro ⟨before, rest, rfl, hmatch⟩
    obtain ⟨after, hafter⟩ := Option.isSome_iff_exists.mp hmatch
    obtain ⟨name, body, rfl, h⟩ := matchDriverParameter_eq_some.mp hafter
    exact ⟨before, name, body, after, rfl, h⟩
  · rintro ⟨before, name, body, after, rfl, h⟩
    refine ⟨before, _, rfl, ?_⟩
    rw [matchDriverParameter_eq_some.mpr ⟨name, body, rfl, h⟩]
    rfl

end Driver

end RayClickHouse.FilterScan
