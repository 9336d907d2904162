import RayClickHouse.Errors
import RayClickHouse.Json

/-!
The candidate record of a release: the commit, the run that built it, the two
distribution files with their digests and sizes, and the two artifacts that
hold the files and the test evidence. Every check raises ValueError, and the
version is the one that pyproject.toml declares.
-/
namespace RayClickHouse.Release

open Text Json

def REPOSITORY : Text := "jiangxt2/ray-clickhouse".toList

def PROJECT : Text := "ray-clickhouse".toList

def require (test : Bool) (message : String) (names : List Text) : Outcome Unit :=
  if test then .ok () else Outcome.raise .builtin message names

def takePositive : Text → Option (Text × Text)
  | [] => none
  | c :: rest =>
      if c.isDigit ∧ c ≠ '0' then
        some (c :: rest.takeWhile Char.isDigit, rest.dropWhile Char.isDigit)
      else none

def isFormalVersion (version : Text) : Bool :=
  match takePositive version with
  | some (_, '.' :: minor) =>
      decide (minor = ['0']) ||
        match takePositive minor with
        | some (_, []) => true
        | _ => false
  | _ => false

def requireFormalVersion (version : Text) : Outcome Unit :=
  require (isFormalVersion version)
    "development versions cannot produce or promote formal releases" []

def isHex (c : Char) : Bool := c.isDigit || (decide ('a' ≤ c) && decide (c ≤ 'f'))

def isHexText (length : ℕ) (s : Text) : Bool := decide (s.length = length) && s.all isHex

def splitLinesFrom (line : Text) : Text → List Text
  | [] => if line = [] then [] else [line]
  | '\r' :: '\n' :: rest => line :: splitLinesFrom [] rest
  | c :: rest =>
      if c.toNat ∈ [10, 11, 12, 13, 28, 29, 30, 133, 8232, 8233] then
        line :: splitLinesFrom [] rest
      else splitLinesFrom (line ++ [c]) rest

def splitLines (s : Text) : List Text := splitLinesFrom [] s

def sumsLine (line : Text) : Option (Text × Text) :=
  let digest := line.take 64
  match line.drop 64 with
  | ' ' :: mark :: name =>
      if isHexText 64 digest ∧ (mark = ' ' ∨ mark = '*') ∧ name ≠ [] ∧ name.all (!isSpace ·) then
        some (digest, name)
      else none
  | _ => none

/-- The last component of a path of no white space is the whole of it. -/
def isFileName (name : Text) : Bool := !name.contains '/' && decide (name ≠ ['.'])

def endsWith (suffix s : Text) : Bool := suffix.isSuffixOf s

def isWheel (version name : Text) : Bool :=
  let lead := "ray_clickhouse-".toList ++ version ++ "-".toList
  let body := name.drop lead.length
  let tags := body.take (body.length - 4)
  lead.isPrefixOf name && endsWith ".whl".toList body && !tags.isEmpty &&
    tags.all fun c => isIdentPart c || c == '.' || c == '-'

def parseSumsFrom (number : ℕ) (result : List (Text × Text)) :
    List Text → Outcome (List (Text × Text))
  | [] => .ok result
  | line :: rest =>
      if line = [] then parseSumsFrom (number + 1) result rest
      else
        match sumsLine line with
        | none => Outcome.raise .builtin "invalid SHA256SUMS line" [Text.ofNat number]
        | some (digest, name) =>
            if !isFileName name || (result.map Prod.fst).contains name then
              Outcome.raise .builtin "invalid or duplicate release filename" [name]
            else parseSumsFrom (number + 1) (result ++ [(name, digest)]) rest

def parseSha256sums (version text : Text) : Outcome (List (Text × Text)) := do
  let result ← parseSumsFrom 1 [] (splitLines text)
  require (decide (result.length = 2))
    "SHA256SUMS must contain exactly one wheel and one source archive" []
  let names := result.map Prod.fst
  match names.filter (endsWith ".whl".toList), names.filter (endsWith ".tar.gz".toList) with
  | [wheel], [source] => do
      require (isWheel version wheel) "SHA256SUMS wheel does not match ray-clickhouse" [version]
      require (decide (source = "ray_clickhouse-".toList ++ version ++ ".tar.gz".toList))
        "SHA256SUMS source archive does not match ray-clickhouse" [version]
      .ok result
  | _, _ =>
      Outcome.raise .builtin "SHA256SUMS must contain one wheel and one .tar.gz source archive"

/-- The text of a value in an f-string, up to a character that no checksum has. -/
def shown : Json → Text
  | .str s => s
  | .int n => Text.ofInt n
  | .bool b => if b then "True".toList else "False".toList
  | .null => "None".toList
  | .float _ => ".".toList
  | .array _ => "[".toList
  | .object _ => "\x7b".toList

section Fields

variable [UnicodeDatabase]

/-- int(value), which refuses truth values by name. -/
def integer (value : Json) (name : Text) : Outcome ℤ :=
  let invalid := Outcome.raise .builtin "must be a positive integer" [name]
  match value with
  | .int n => .ok n
  | .float (.finite q) => .ok (q.num.tdiv q.den)
  | .float (.infinite _) => Outcome.raise .builtin "cannot convert float infinity to integer"
  | .str s =>
      match toInt s with
      | some n => .ok n
      | none => invalid
  | _ => invalid

def positiveInt (value : Json) (name : Text) : Outcome ℤ := do
  let parsed ← integer value name
  require (decide (1 ≤ parsed)) "must be a positive integer" [name]
  .ok parsed

def fullSha (value : Json) (name : Text) : Outcome Text :=
  match value with
  | .str s =>
      if isHexText 40 s then .ok s
      else Outcome.raise .builtin "must be a full lowercase commit SHA" [name]
  | _ => Outcome.raise .builtin "must be a full lowercase commit SHA" [name]

def digest (value : Json) (name : Text) : Outcome Text :=
  match value with
  | .str s =>
      if "sha256:".toList.isPrefixOf s ∧ isHexText 64 (s.drop 7) then .ok s
      else Outcome.raise .builtin "must be a sha256 digest" [name]
  | _ => Outcome.raise .builtin "must be a sha256 digest" [name]

def artifactOf (url : Text) : Option Text := do
  let lead := "https://github.com/jiangxt2/ray-clickhouse/actions/runs/".toList
  let middle := "/artifacts/".toList
  guard (lead.isPrefixOf url)
  let (_, afterRun) ← takePositive (url.drop lead.length)
  guard (middle.isPrefixOf afterRun)
  let (artifact, rest) ← takePositive (afterRun.drop middle.length)
  guard (rest = [])
  return artifact

def artifactUrl (value : Json) (artifactId : ℤ) (name : Text) : Outcome Text :=
  match value with
  | .str s =>
      if (artifactOf s).bind toInt = some artifactId then .ok s
      else Outcome.raise .builtin "artifact_url does not match its artifact ID" [name]
  | _ => Outcome.raise .builtin "artifact_url is invalid" [name]

def validateArtifact (artifact : List (Text × Json)) (name : Text) : Outcome Unit := do
  let artifactId ← positiveInt (get artifact "artifact_id") (name ++ " artifact_id".toList)
  let _ ← digest (get artifact "artifact_digest") (name ++ " artifact_digest".toList)
  let _ ← artifactUrl (get artifact "artifact_url") artifactId name
  .ok ()

def sumsText (files : List (Text × Json)) : Text :=
  join ['\n'] (files.map fun field => shown field.2 ++ "  ".toList ++ field.1)

def validateFiles (version : Text) (distribution : List (Text × Json)) : Outcome Unit := do
  match get distribution "files" with
  | .object files => do
      let _ ← parseSha256sums version (sumsText files)
      match get distribution "file_sizes" with
      | .object sizes => do
          require ((keys sizes).all (keys files).contains && (keys files).all (keys sizes).contains)
            "candidate record distribution file sizes are incomplete" []
          sizes.forM fun size => do
            let _ ← positiveInt size.2 ("size for ".toList ++ size.1)
            .ok ()
      | _ => Outcome.raise .builtin "candidate record distribution file sizes are incomplete"
  | _ => Outcome.raise .builtin "candidate record is missing distribution files"

def validateCandidateRecord (version : Text) (record : List (Text × Json)) : Outcome Unit := do
  requireFormalVersion version
  require (eq (get record "schema_version") (.int 1) &&
      eq (get record "repository") (.str REPOSITORY))
    "candidate record schema or repository is invalid" []
  let _ ← fullSha (get record "candidate_sha") "candidate_sha".toList
  let _ ← positiveInt (get record "source_run_id") "source_run_id".toList
  match get record "distribution", get record "clickhouse_evidence" with
  | .object distribution, .object evidence => do
      validateArtifact distribution "distribution".toList
      validateFiles version distribution
      validateArtifact evidence "evidence".toList
  | _, _ => Outcome.raise .builtin "candidate record is missing artifact identities"

end Fields

end RayClickHouse.Release
