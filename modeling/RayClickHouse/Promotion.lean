import RayClickHouse.ReleaseRecords
import RayClickHouse.SortedJson

/-!
Promotion receipts. Each stage of a release writes one receipt, which repeats
the candidate's identity and names the receipt of the stage before it by its
operation, its run and its artifact. A receipt is written by one command, from
a candidate record, the state observed outside and, after the first stage, the
predecessor's receipt.
-/
namespace RayClickHouse.Release

open Text Json

inductive Operation
  | dryRun
  | testpypi
  | releaseTag
  | pypi
  | githubRelease
  deriving DecidableEq, Repr

namespace Operation

def text : Operation → Text
  | dryRun => "dry-run".toList
  | testpypi => "testpypi".toList
  | releaseTag => "release-tag".toList
  | pypi => "pypi".toList
  | githubRelease => "github-release".toList

def predecessor : Operation → Option Operation
  | dryRun => none
  | testpypi => some dryRun
  | releaseTag => some testpypi
  | pypi => some releaseTag
  | githubRelease => some pypi

end Operation

def OPERATIONS : List Operation := [.dryRun, .testpypi, .releaseTag, .pypi, .githubRelease]

def operationOf : Json → Option Operation
  | .str s => OPERATIONS.find? fun operation => decide (operation.text = s)
  | _ => none

theorem operationOf_eq_some {value : Json} {operation : Operation} :
    operationOf value = some operation ↔ value = .str operation.text := by
  constructor
  · intro h
    cases value with
    | str s =>
      have htext := List.find?_some h
      rw [decide_eq_true_iff] at htext
      rw [htext]
    | _ => contradiction
  · rintro rfl
    cases operation <;> rfl

structure Document where
  fields : List (Text × Json)
  fields_distinct : distinct (.object fields) = true

def entry (key : String) (value : Json) : Text × Json := (key.toList, value)

section Receipts

variable (version : Text)

def tag : Text := 'v' :: version

def indexUrl (host : String) : Text :=
  "https://".toList ++ host.toList ++ "/pypi/ray-clickhouse/".toList ++ version ++ "/json".toList

def dryRunState : Json :=
  .object [entry "operation" (.str "dry-run".toList), entry "pypi" (.str "absent".toList),
    entry "testpypi" (.str "absent".toList), entry "tag" (.str "absent".toList)]

def validateIndexState (host : String) (state files : List (Text × Json)) (operation : Text) :
    Outcome Unit :=
  require (eq (get state "index_url") (.str (indexUrl version host)) &&
      eq (get state "project") (.str PROJECT) && eq (get state "version") (.str version) &&
      eq (get state "files") (.object files))
    "external file identity is incomplete" [operation]

def validateReleaseState (state files : List (Text × Json)) (candidateSha : Text) : Outcome Unit :=
  match get state "assets" with
  | .object assets =>
      require (eq (get state "tag") (.str (tag version)) &&
          eq (get state "target") (.str candidateSha) &&
          (files.all fun file => eq ((lookup file.1 assets).getD .null) file.2) &&
          (keys assets).all ("SHA256SUMS".toList :: keys files).contains &&
          ("SHA256SUMS".toList :: keys files).all (keys assets).contains &&
          isHexText 64 (shown (get assets "SHA256SUMS")))
        "GitHub Release external asset identity is incomplete" []
  | _ => Outcome.raise .builtin "GitHub Release external asset identity is incomplete"

def validateExternalState (operation : Operation) (state : List (Text × Json))
    (candidateSha : Text) (files : List (Text × Json)) : Outcome Unit := do
  require (eq (get state "operation") (.str operation.text))
    "external state operation does not match receipt operation" []
  match operation with
  | .dryRun => require (eq (.object state) dryRunState) "dry-run external state is incomplete" []
  | .testpypi => validateIndexState version "test.pypi.org" state files operation.text
  | .pypi => validateIndexState version "pypi.org" state files operation.text
  | .releaseTag => do
      require (eq (get state "tag") (.str (tag version)) &&
          eq (get state "tag_type") (.str "annotated".toList))
        "release-tag external state is invalid" []
      require (eq (get state "target") (.str candidateSha))
        "release-tag target does not match candidate SHA" []
  | .githubRelease => validateReleaseState version state files candidateSha

variable [UnicodeDatabase]

/-- The first stage names no predecessor, and every other names the one before it. -/
def validatePredecessor (operation : Operation) (predecessor : Json) : Outcome Unit :=
  match operation.predecessor, predecessor with
  | none, .null => .ok ()
  | none, _ => Outcome.raise .builtin "dry-run receipt must not have a predecessor"
  | some expected, .object link => do
      require (eq (get link "operation") (.str expected.text)) "predecessor must be" [expected.text]
      let _ ← positiveInt (get link "run_id") "predecessor run_id".toList
      let _ ← positiveInt (get link "artifact_id") "predecessor artifact_id".toList
      let _ ← digest (get link "artifact_digest") "predecessor artifact_digest".toList
      .ok ()
  | some expected, _ =>
      Outcome.raise .builtin "receipt requires predecessor" [operation.text, expected.text]

def validateRecordIdentity (candidateRecord : Json) : Outcome Unit :=
  match candidateRecord with
  | .object record => do
      let _ ← positiveInt (get record "artifact_id") "candidate record id".toList
      let _ ← digest (get record "artifact_digest") "candidate record digest".toList
      .ok ()
  | _ => Outcome.raise .builtin "promotion receipt candidate_record is invalid"

def candidateOf (receipt : List (Text × Json)) : List (Text × Json) :=
  [entry "schema_version" (.int 1), entry "repository" (.str REPOSITORY),
    entry "candidate_sha" (get receipt "candidate_sha"),
    entry "source_run_id" (get receipt "source_run_id"),
    entry "distribution" (get receipt "distribution"),
    entry "clickhouse_evidence" (get receipt "clickhouse_evidence")]

def validatePromotionReceipt (receipt : List (Text × Json)) : Outcome Unit := do
  require (eq (get receipt "schema_version") (.int 1) &&
      eq (get receipt "repository") (.str REPOSITORY))
    "promotion receipt schema or repository is invalid" []
  match operationOf (get receipt "operation") with
  | none => Outcome.raise .builtin "promotion receipt operation is invalid"
  | some operation => do
      let _ ← positiveInt (get receipt "run_id") "promotion run_id".toList
      let _ ← positiveInt (get receipt "source_run_id") "promotion source_run_id".toList
      let candidateSha ← fullSha (get receipt "candidate_sha") "promotion candidate_sha".toList
      validateRecordIdentity (get receipt "candidate_record")
      validatePredecessor operation (get receipt "predecessor")
      require (eq (get receipt "result") (.str "success".toList) ||
          eq (get receipt "result") (.str "recovered".toList))
        "promotion receipt result must be success or recovered" []
      validateCandidateRecord version (candidateOf receipt)
      match get receipt "external_state" with
      | .object externalState =>
          match get receipt "distribution" with
          | .object distribution =>
              match get distribution "files" with
              | .object files =>
                  validateExternalState version operation externalState candidateSha files
              | _ => Outcome.raise .builtin "promotion receipt distribution identity is invalid"
          | _ => Outcome.raise .builtin "promotion receipt distribution identity is invalid"
      | _ => Outcome.raise .builtin "promotion receipt external_state is invalid"

def receiptOf (operation : Operation) (runId : ℤ) (candidate : List (Text × Json))
    (candidateRecordId : ℤ) (candidateRecordDigest : Text) (predecessor : Json)
    (externalState : List (Text × Json)) (result : Text) : List (Text × Json) :=
  [entry "schema_version" (.int 1), entry "repository" (.str REPOSITORY),
    entry "operation" (.str operation.text), entry "run_id" (.int runId),
    entry "candidate_sha" (get candidate "candidate_sha"),
    entry "source_run_id" (get candidate "source_run_id"),
    entry "candidate_record" (.object [entry "artifact_id" (.int candidateRecordId),
      entry "artifact_digest" (.str candidateRecordDigest)]),
    entry "predecessor" predecessor,
    entry "distribution" (get candidate "distribution"),
    entry "clickhouse_evidence" (get candidate "clickhouse_evidence"),
    entry "external_state" (.object externalState), entry "result" (.str result)]

def createPromotionReceipt (operation : Operation) (runId : ℤ) (candidate : List (Text × Json))
    (candidateRecordId : ℤ) (candidateRecordDigest : Text) (predecessor : Json)
    (externalState : List (Text × Json)) (result : Text) : Outcome (List (Text × Json)) := do
  validateCandidateRecord version candidate
  let receipt := receiptOf operation runId candidate candidateRecordId candidateRecordDigest
    predecessor externalState result
  validatePromotionReceipt version receipt
  .ok receipt

def validateReceiptAgainstCandidate (receipt candidate : List (Text × Json))
    (candidateRecordId : ℤ) (candidateRecordDigest : Text) (expectedRunId : Option ℤ) :
    Outcome Unit := do
  validatePromotionReceipt version receipt
  validateCandidateRecord version candidate
  match expectedRunId with
  | none => .ok ()
  | some runId =>
      require (eq (get receipt "run_id") (.int runId))
        "promotion receipt run ID does not match workflow run" []
  ["candidate_sha", "source_run_id", "distribution", "clickhouse_evidence"].forM fun field =>
    require (eq (get receipt field) (get candidate field))
      "promotion receipt does not match candidate" [field.toList]
  match get receipt "candidate_record" with
  | .object candidateRecord =>
      require (eq (get candidateRecord "artifact_id") (.int candidateRecordId) &&
          eq (get candidateRecord "artifact_digest") (.str candidateRecordDigest))
        "promotion receipt candidate record identity does not match" []
  | _ => Outcome.raise .builtin "promotion receipt candidate record is invalid"

/-- The arguments of create-promotion-receipt, with the files they name already read. -/
structure Invocation where
  operation : Operation
  runId : ℤ
  candidate : Document
  candidateRecordId : ℤ
  candidateRecordDigest : Text
  predecessor : Option Document
  predecessorRunId : Option ℤ
  predecessorArtifactId : Option ℤ
  predecessorArtifactDigest : Option Text
  externalState : Document
  recovered : Bool

def Invocation.result (args : Invocation) : Text :=
  if args.recovered then "recovered".toList else "success".toList

def linkOf (operation runId : Json) (artifactId : ℤ) (artifactDigest : Text) :
    List (Text × Json) :=
  [entry "operation" operation, entry "run_id" runId, entry "artifact_id" (.int artifactId),
    entry "artifact_digest" (.str artifactDigest)]

/-- The predecessor value of the receipt, or the errors the command prints. -/
def predecessorValue (args : Invocation) : Outcome (Except (List String) Json) :=
  match args.predecessor with
  | none => .ok (.ok .null)
  | some predecessor => do
      validatePromotionReceipt version predecessor.fields
      match args.predecessorRunId, args.predecessorArtifactId, args.predecessorArtifactDigest with
      | some runId, some artifactId, some artifactDigest => do
          validateReceiptAgainstCandidate version predecessor.fields args.candidate.fields
            args.candidateRecordId args.candidateRecordDigest (some runId)
          .ok (.ok (.object (linkOf (get predecessor.fields "operation")
            (get predecessor.fields "run_id") artifactId artifactDigest)))
      | _, _, _ => .ok (.error ["predecessor artifact identity is required"])

/-- `_run_command` for create-promotion-receipt: the errors it returns, or what it writes. -/
def runCommand (args : Invocation) : Outcome (Except (List String) Json) := do
  requireFormalVersion version
  match ← predecessorValue version args with
  | .error errors => .ok (.error errors)
  | .ok predecessor => do
      let createdReceipt ← createPromotionReceipt version args.operation args.runId
        args.candidate.fields args.candidateRecordId args.candidateRecordDigest predecessor
        args.externalState.fields args.result
      .ok (.ok (sorted (.object createdReceipt)))

end Receipts

end RayClickHouse.Release
