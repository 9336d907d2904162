import RayClickHouse.TypeText

/-!
Extraction of the three target arguments from the definition of a Distributed
table. The scan looks for the call outside quotes, and then collects the
arguments at its own depth up to the closing parenthesis.
-/
namespace RayClickHouse.EngineScan

open Text TypeText

def callName : Text := "Distributed".toList

/-- A match of `\bDistributed\s*\(` on the rest of the text. Nothing precedes
the letter D in the slice, so the word boundary always holds. -/
def matchCall (s : Text) : Option Text :=
  if callName.isPrefixOf s then
    match (s.drop callName.length).dropWhile isSpace with
    | [] => none
    | c :: after => if c = '(' then some after else none
  else none

inductive Search
  | found (after : Text)
  | unterminated
  | absent
  deriving DecidableEq

def findCall : Option Char → Text → Search
  | none, [] => .absent
  | some _, [] => .unterminated
  | some q, [c] => if c = '\\' then .unterminated else if c = q then .absent else .unterminated
  | some q, c :: d :: rest =>
      if c = '\\' then findCall (some q) rest
      else if c = q then
        if d = q then findCall (some q) rest else findCall none (d :: rest)
      else findCall (some q) (d :: rest)
  | none, c :: rest =>
      if isQuote c then findCall (some c) rest
      else
        match matchCall (c :: rest) with
        | some after => .found after
        | none => findCall none rest

/-- The state in which the scan of the arguments stops. -/
structure Arguments where
  quote : Option Char
  depth : ℕ
  args : List Text
  deriving DecidableEq

/-- The scan after the call: the open quote, the depth, the finished arguments,
and the argument read so far. -/
def readArguments : Option Char → ℕ → List Text → Text → Text → Arguments
  | quote, depth, args, _, [] => ⟨quote, depth, args⟩
  | some q, depth, args, current, [c] =>
      if c = '\\' then ⟨some q, depth, args⟩
      else if c = q then readArguments none depth args (current ++ [c]) []
      else ⟨some q, depth, args⟩
  | some q, depth, args, current, c :: d :: rest =>
      if c = '\\' then readArguments (some q) depth args (current ++ [c, d]) rest
      else if c = q then
        if d = q then readArguments (some q) depth args (current ++ [c, d]) rest
        else readArguments none depth args (current ++ [c]) (d :: rest)
      else readArguments (some q) depth args (current ++ [c]) (d :: rest)
  | none, depth, args, current, c :: rest =>
      if isQuote c then readArguments (some c) depth args (current ++ [c]) rest
      else if c = '(' then readArguments none (depth + 1) args (current ++ [c]) rest
      else if c = ')' then
        if depth = 1 then ⟨none, 0, args ++ [strip current]⟩
        else readArguments none (depth - 1) args (current ++ [c]) rest
      else if c = ',' ∧ depth = 1 then readArguments none depth (args ++ [strip current]) [] rest
      else readArguments none depth args (current ++ [c]) rest

def isQuotedConstant (q : Char) (s : Text) : Bool :=
  match s with
  | [] => false
  | c :: rest =>
      c == q && rest.getLast? == some q && rest.dropLast.all fun d => d != q && d != '\\'

def isConstant (s : Text) : Bool :=
  isIdentifier s || isQuotedConstant '\'' s || isQuotedConstant '`' s || isQuotedConstant '"' s

def quoteChars : Text := ['\'', '`', '"']

def constantValue (argument : Text) : Outcome Text :=
  if !isConstant argument then
    Outcome.raise .notApplicable "Distributed target is not a supported constant"
  else if '{' ∈ stripChars quoteChars argument ∨ '}' ∈ stripChars quoteChars argument then
    Outcome.raise .notApplicable "unresolved Distributed target macro"
  else .ok (stripChars quoteChars argument)

def targetTable (database table : Text) : Outcome QualifiedTable :=
  if hdatabase : isIdentifier database = true then
    if htable : isIdentifier table = true then .ok ⟨database, table, hdatabase, htable⟩
    else Outcome.raise .notApplicable "target identifiers are outside the simple-name profile"
  else Outcome.raise .notApplicable "target identifiers are outside the simple-name profile"

def targetConstants : List Text → Outcome (Text × QualifiedTable)
  | cluster :: database :: table :: _ => do
      let cluster ← constantValue cluster
      let database ← constantValue database
      let table ← constantValue table
      let target ← targetTable database table
      return (cluster, target)
  | _ => Outcome.raise .notApplicable "Distributed target is not an explicit constant triple"

def malformedEngine : Failure := ⟨.discovery, "malformed Distributed engine metadata", []⟩

def parseDistributedEngine (text : Text) : Outcome (Text × QualifiedTable) :=
  match findCall none text with
  | .unterminated => .error malformedEngine
  | .absent =>
      Outcome.raise .notApplicable "Distributed target is not an explicit constant triple"
  | .found after =>
      let scanned := readArguments none 1 [] [] after
      if scanned.quote ≠ none ∨ scanned.depth ≠ 0 then .error malformedEngine
      else targetConstants scanned.args

section Search

variable {c d q : Char} {rest : Text}

theorem findCall_escape :
    findCall (some q) ('\\' :: c :: rest) = findCall (some q) rest := by
  simp [findCall]

/-- A doubled quote leaves the scan where closing and opening again would. -/
theorem findCall_close (hq : isQuote q = true) :
    findCall (some q) (q :: rest) = findCall none rest := by
  have hne : q ≠ '\\' := by
    rintro rfl
    cases hq
  cases rest with
  | nil => simp [findCall, hne]
  | cons d rest =>
    by_cases hd : d = q
    · subst hd
      simp [findCall, hne, hq]
    · simp [findCall, hne, hd]

theorem findCall_inside (hescape : c ≠ '\\') (hc : c ≠ q) :
    findCall (some q) (c :: rest) = findCall (some q) rest := by
  cases rest with
  | nil => simp [findCall, hescape, hc]
  | cons d rest => simp [findCall, hescape, hc]

theorem findCall_open (hc : isQuote c = true) :
    findCall none (c :: rest) = findCall (some c) rest := by
  cases rest <;> simp [findCall, hc]

theorem findCall_code (hc : isQuote c = false) (hcall : matchCall (c :: rest) = none) :
    findCall none (c :: rest) = findCall none rest := by
  cases rest <;> simp [findCall, hc, hcall]

theorem findCall_found {after : Text} (hc : isQuote c = false)
    (hcall : matchCall (c :: rest) = some after) : findCall none (c :: rest) = .found after := by
  cases rest <;> simp [findCall, hc, hcall]

end Search

section Arguments

variable {c q : Char} {depth : ℕ} {args : List Text} {current rest : Text}

theorem readArguments_escape :
    readArguments (some q) depth args current ('\\' :: c :: rest) =
      readArguments (some q) depth args (current ++ ['\\', c]) rest := by
  simp [readArguments]

theorem readArguments_close (hq : isQuote q = true) :
    readArguments (some q) depth args current (q :: rest) =
      readArguments none depth args (current ++ [q]) rest := by
  have hne : q ≠ '\\' := by
    rintro rfl
    cases hq
  cases rest with
  | nil => simp [readArguments, hne]
  | cons d rest =>
    by_cases hd : d = q
    · subst hd
      simp [readArguments, hne, hq]
    · simp [readArguments, hne, hd]

theorem readArguments_inside (hescape : c ≠ '\\') (hc : c ≠ q) :
    readArguments (some q) depth args current (c :: rest) =
      readArguments (some q) depth args (current ++ [c]) rest := by
  cases rest with
  | nil => simp [readArguments, hescape, hc]
  | cons d rest => simp [readArguments, hescape, hc]

theorem readArguments_code :
    readArguments none depth args current (c :: rest) =
      if isQuote c then readArguments (some c) depth args (current ++ [c]) rest
      else if c = '(' then readArguments none (depth + 1) args (current ++ [c]) rest
      else if c = ')' then
        if depth = 1 then ⟨none, 0, args ++ [strip current]⟩
        else readArguments none (depth - 1) args (current ++ [c]) rest
      else if c = ',' ∧ depth = 1 then readArguments none depth (args ++ [strip current]) [] rest
      else readArguments none depth args (current ++ [c]) rest := by
  cases rest <;> rfl

end Arguments

end RayClickHouse.EngineScan
