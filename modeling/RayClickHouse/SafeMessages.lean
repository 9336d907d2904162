import RayClickHouse.QueryGate
import RayClickHouse.Replacement
import RayClickHouse.SecretStrings

/-!
Messages without secrets. Authorization tokens and URLs are taken out first, then
every collected string in its plain and its encoded forms, longer ones first. The
text that is left holds none of them, although each replacement works on the
result of the ones before and inserts text of its own.
-/
namespace RayClickHouse.Diagnostics

open Text Sql Replacement

section Encodings

def hex (width n : ℕ) : Text :=
  List.replicate (width - (Nat.toDigits 16 n).length) '0' ++ Nat.toDigits 16 n

def reprQuote (s : Text) : Char := if '\'' ∈ s ∧ '"' ∉ s then '"' else '\''

def reprChar (plain : Char → Bool) (q c : Char) : Text :=
  if c = q ∨ c = '\\' then ['\\', c]
  else if c = '\t' then "\\t".toList
  else if c = '\n' then "\\n".toList
  else if c = '\r' then "\\r".toList
  else if plain c then [c]
  else if c.toNat < 256 then "\\x".toList ++ hex 2 c.toNat
  else if c.toNat < 65536 then "\\u".toList ++ hex 4 c.toNat
  else "\\U".toList ++ hex 8 c.toNat

def reprBody (plain : Char → Bool) (s : Text) : Text := s.flatMap (reprChar plain (reprQuote s))

def asciiPlain (c : Char) : Bool := decide (32 ≤ c.toNat ∧ c.toNat < 127)

/-- str.encode(), each byte as the character of its number. -/
def encode (s : Text) : Text :=
  s.flatMap fun c => (String.utf8EncodeChar c).map fun b => Char.ofNat b.toNat

def alwaysSafe (c : Char) : Bool := c.isAlphanum || ['_', '.', '-', '~'].contains c

def quoteByte (b : Char) : Text :=
  if alwaysSafe b then [b] else '%' :: (hex 2 b.toNat).map Char.toUpper

def quote (s : Text) : Text := (encode s).flatMap quoteByte

def quotePlus (s : Text) : Text :=
  (encode s).flatMap fun b => if b = ' ' then ['+'] else quoteByte b

/-- The set of the forms in which a message may show a secret. -/
def secretForms (interpreter : Interpreter) (secret : Text) : List Text :=
  [secret, reprBody interpreter.isPrintable secret, reprBody asciiPlain secret,
    reprBody asciiPlain (encode secret), quote secret, quotePlus secret].foldl setAdd []

end Encodings

section Substitutions

/-- re.sub with a pattern that reads at least one character: the match at a position,
after the given character, is what replaces it and its length. -/
def substituteFrom (matchAt : Option Char → Text → Option (Text × ℕ)) :
    ℕ → Option Char → Text → Text
  | _, _, [] => []
  | skip + 1, _, c :: rest => substituteFrom matchAt skip (some c) rest
  | 0, previous, c :: rest =>
      match matchAt previous (c :: rest) with
      | some (replacement, length) =>
          replacement ++ substituteFrom matchAt (length - 1) (some c) rest
      | none => c :: substituteFrom matchAt 0 (some c) rest

def substitute (matchAt : Option Char → Text → Option (Text × ℕ)) (s : Text) : Text :=
  substituteFrom matchAt 0 none s

def marker : Text := "<redacted>".toList

def urlMarker : Text := "<redacted-url>".toList

def isTokenChar (c : Char) : Bool :=
  (foldUpper c).isUpper || c.isDigit || ['.', '_', '~', '+', '/', '=', '-'].contains c

def matchCredentials (rest : Text) : Option ℕ :=
  let spaces := rest.takeWhile isSpace
  let token := (rest.dropWhile isSpace).takeWhile isTokenChar
  if spaces = [] ∨ token = [] then none else some (spaces.length + token.length)

def matchScheme (s : Text) (scheme : String) : Option (Text × ℕ) := do
  let rest ← matchKeyword scheme.toList s
  let length ← matchCredentials rest
  some (s.take scheme.length ++ ' ' :: marker, scheme.length + length)

def matchAuthorization [UnicodeDatabase] (previous : Option Char) (s : Text) : Option (Text × ℕ) :=
  if isWordOption previous then none
  else (matchScheme s "BASIC").or (matchScheme s "BEARER")

def isUrlChar (c : Char) : Bool := !isSpace c && !(['\'', '"', '<', '>'].contains c)

def matchUrlWith (scheme : String) (s : Text) : Option (Text × ℕ) :=
  if scheme.toList.isPrefixOf s then
    let path := (s.drop scheme.length).takeWhile isUrlChar
    if path = [] then none else some (urlMarker, scheme.length + path.length)
  else none

def matchUrl (_ : Option Char) (s : Text) : Option (Text × ℕ) :=
  (matchUrlWith "https://" s).or (matchUrlWith "http://" s)

end Substitutions

section Messages

variable [UnicodeDatabase] (interpreter : Interpreter)

def redact (message secret : Text) : Text :=
  (longestFirst interpreter (secretForms interpreter secret)).foldl
    (fun message value => replace value marker message) message

def safeReadMessage (message : Text) (secrets : List Text) : Text :=
  (secrets.foldl (redact interpreter)
    (substitute matchUrl (substitute matchAuthorization message))).take 1000

end Messages

/-- A word that no marker can bring into a text. -/
structure Foreign (w : Text) : Prop where
  nonempty : w ≠ []
  opening : '<' ∉ w
  closing : '>' ∉ w
  inner : ¬ w <:+: "redacted".toList

section Forms

variable {interpreter : Interpreter} {secret : Text}

theorem reprChar_ne_nil (plain : Char → Bool) (q c : Char) : reprChar plain q c ≠ [] := by
  unfold reprChar
  repeat' split
  all_goals simp

theorem quoteByte_ne_nil (b : Char) : quoteByte b ≠ [] := by
  unfold quoteByte
  split <;> simp

theorem flatMap_ne_nil {f : Char → Text} (hf : ∀ c, f c ≠ []) {s : Text} (hs : s ≠ []) :
    s.flatMap f ≠ [] := by
  cases s with
  | nil => exact absurd rfl hs
  | cons c rest => simp [hf c]

theorem encode_ne_nil {s : Text} (hs : s ≠ []) : encode s ≠ [] := by
  apply flatMap_ne_nil _ hs
  intro c
  simp

theorem foldl_setAdd (values : List Text) (set : List Text) (v : Text) :
    v ∈ values.foldl setAdd set ↔ v ∈ set ∨ v ∈ values := by
  induction values generalizing set with
  | nil => simp
  | cons value rest ih => rw [List.foldl_cons, ih, mem_setAdd, List.mem_cons, or_assoc]

theorem secretForms_ne_nil (hs : secret ≠ []) : ∀ v ∈ secretForms interpreter secret, v ≠ [] := by
  intro v hv
  rw [secretForms, foldl_setAdd] at hv
  simp only [List.not_mem_nil, false_or, List.mem_cons, or_false] at hv
  rcases hv with rfl | rfl | rfl | rfl | rfl | rfl
  · exact hs
  · exact flatMap_ne_nil (reprChar_ne_nil _ _) hs
  · exact flatMap_ne_nil (reprChar_ne_nil _ _) hs
  · exact flatMap_ne_nil (reprChar_ne_nil _ _) (encode_ne_nil hs)
  · exact flatMap_ne_nil quoteByte_ne_nil (encode_ne_nil hs)
  · apply flatMap_ne_nil _ (encode_ne_nil hs)
    intro b
    split
    · simp
    · exact quoteByte_ne_nil b

theorem secret_mem_forms : secret ∈ secretForms interpreter secret := by
  rw [secretForms, foldl_setAdd]
  simp

end Forms

section Redaction

variable {interpreter : Interpreter} {w message : Text}

theorem marker_shape : marker = '<' :: "redacted".toList ++ ['>'] := rfl

/-- A replacement does not bring a foreign word back. -/
theorem foldl_replace_absent (hw : Foreign w) {values : List Text} (hvalues : ∀ v ∈ values, v ≠ [])
    (h : ¬ w <:+: message) :
    ¬ w <:+: values.foldl (fun message value => replace value marker message) message := by
  induction values generalizing message with
  | nil => exact h
  | cons v rest ih =>
    apply ih (fun v hv => hvalues v (List.mem_cons_of_mem _ hv))
    rw [marker_shape]
    exact replace_absent (hvalues v (List.mem_cons_self ..)) hw.opening hw.closing hw.inner h

/-- A foreign word among the replaced values is gone in the end. -/
theorem foldl_replace_removed (hw : Foreign w) {values : List Text}
    (hvalues : ∀ v ∈ values, v ≠ []) (hmem : w ∈ values) :
    ¬ w <:+: values.foldl (fun message value => replace value marker message) message := by
  induction values generalizing message with
  | nil => exact absurd hmem List.not_mem_nil
  | cons v rest ih =>
    have hrest : ∀ v ∈ rest, v ≠ [] := fun v hv => hvalues v (List.mem_cons_of_mem _ hv)
    rcases List.mem_cons.mp hmem with rfl | hmem
    · apply foldl_replace_absent hw hrest
      rw [marker_shape]
      exact replace_removed hw.nonempty hw.opening hw.closing hw.inner
    · exact ih hrest hmem

theorem mem_longestFirst {set : List Text} {v : Text} :
    v ∈ longestFirst interpreter set ↔ v ∈ set :=
  (longestFirst_perm interpreter set).mem_iff

theorem redact_absent (hw : Foreign w) {secret : Text} (hs : secret ≠ []) (h : ¬ w <:+: message) :
    ¬ w <:+: redact interpreter message secret := by
  apply foldl_replace_absent hw _ h
  intro v hv
  exact secretForms_ne_nil hs v (mem_longestFirst.mp hv)

theorem redact_removed (hw : Foreign w) {secret : Text} (hs : secret ≠ [])
    (hform : w ∈ secretForms interpreter secret) : ¬ w <:+: redact interpreter message secret := by
  apply foldl_replace_removed hw
  · intro v hv
    exact secretForms_ne_nil hs v (mem_longestFirst.mp hv)
  · exact mem_longestFirst.mpr hform

theorem foldl_redact_absent (hw : Foreign w) {secrets : List Text} (hs : ∀ s ∈ secrets, s ≠ [])
    (h : ¬ w <:+: message) : ¬ w <:+: secrets.foldl (redact interpreter) message := by
  induction secrets generalizing message with
  | nil => exact h
  | cons s rest ih =>
    exact ih (fun t ht => hs t (List.mem_cons_of_mem _ ht))
      (redact_absent hw (hs s (List.mem_cons_self ..)) h)

theorem foldl_redact_removed (hw : Foreign w) {secrets : List Text} (hs : ∀ s ∈ secrets, s ≠ [])
    {secret : Text} (hmem : secret ∈ secrets) (hform : w ∈ secretForms interpreter secret) :
    ¬ w <:+: secrets.foldl (redact interpreter) message := by
  induction secrets generalizing message with
  | nil => exact absurd hmem List.not_mem_nil
  | cons s rest ih =>
    have hrest : ∀ t ∈ rest, t ≠ [] := fun t ht => hs t (List.mem_cons_of_mem _ ht)
    rcases List.mem_cons.mp hmem with rfl | hmem
    · rw [List.foldl_cons]
      exact foldl_redact_absent hw hrest
        (redact_removed hw (hs secret (List.mem_cons_self ..)) hform)
    · exact ih hrest hmem

/-- No form of a secret is left in the text, whatever the message and the other secrets are. -/
theorem safeReadMessage_free [UnicodeDatabase] (hw : Foreign w) {secrets : List Text}
    (hs : ∀ s ∈ secrets, s ≠ []) {secret : Text} (hmem : secret ∈ secrets)
    (hform : w ∈ secretForms interpreter secret) :
    ¬ w <:+: safeReadMessage interpreter message secrets := by
  intro hinfix
  apply foldl_redact_removed hw hs hmem hform
  exact hinfix.trans (List.take_prefix 1000 _).isInfix

end Redaction

end RayClickHouse.Diagnostics
