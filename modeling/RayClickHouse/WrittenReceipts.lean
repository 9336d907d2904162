import RayClickHouse.Promotion

/-!
What a written receipt says. Read back, it has the operation and the run of its
invocation, the fields of the candidate and, after the first stage, the name of
a receipt that passed against the same candidate.
-/
namespace RayClickHouse.Release

open Text Json

theorem require_eq_ok {test : Bool} {message : String} {names : List Text} :
    require test message names = .ok () ↔ test = true := by
  cases test <;> simp [require, Outcome.raise]

theorem eq_str {value : Json} {s : Text} : eq value (.str s) = true ↔ value = .str s := by
  cases value <;> simp [eq, numeric]

theorem eq_int_int {a b : ℤ} : eq (.int a) (.int b) = true ↔ a = b := by
  simp [eq, numeric, Numeric.eq_iff]

theorem forM_eq_ok {α : Type} {f : α → Outcome Unit} {items : List α} :
    items.forM f = .ok () ↔ ∀ item ∈ items, f item = .ok () := by
  induction items with
  | nil => simp [List.forM, pure, Except.pure]
  | cons item rest ih =>
    rw [List.forM, Except.bind_eq_ok, List.forall_mem_cons, ih]
    constructor
    · intro ⟨_, hitem, hrest⟩
      exact ⟨hitem, hrest⟩
    · intro ⟨hitem, hrest⟩
      exact ⟨(), hitem, hrest⟩

/-- The fields in which a receipt repeats its candidate. -/
def candidateFields : List String :=
  ["candidate_sha", "source_run_id", "distribution", "clickhouse_evidence"]

def Linked (p r : List (Text × Json)) : Prop :=
  ∃ link, get r "predecessor" = .object link ∧ get link "operation" = get p "operation" ∧
    get link "run_id" = get p "run_id"

def SameCandidate (p r : List (Text × Json)) : Prop :=
  ∀ field ∈ "candidate_record" :: candidateFields, Alike (get p field) (get r field)

section Receipt

variable {operation : Operation} {runId : ℤ} {candidate : List (Text × Json)}
  {candidateRecordId : ℤ} {candidateRecordDigest : Text} {predecessor : Json}
  {externalState : List (Text × Json)} {result : Text}

theorem receiptOf_keys : (keys (receiptOf operation runId candidate candidateRecordId
    candidateRecordDigest predecessor externalState result)).Nodup := by
  simp only [receiptOf, keys, entry, List.map_cons, List.map_nil]
  decide

end Receipt

def Invocation.receipt (args : Invocation) (predecessor : Json) : List (Text × Json) :=
  receiptOf args.operation args.runId args.candidate.fields args.candidateRecordId
    args.candidateRecordDigest predecessor args.externalState.fields args.result

theorem linkOf_keys {operation runId : Json} {artifactId : ℤ} {artifactDigest : Text} :
    (keys (linkOf operation runId artifactId artifactDigest)).Nodup := by
  simp only [linkOf, keys, entry, List.map_cons, List.map_nil]
  decide

def recordOf (artifactId : ℤ) (artifactDigest : Text) : List (Text × Json) :=
  [entry "artifact_id" (.int artifactId), entry "artifact_digest" (.str artifactDigest)]

theorem recordOf_keys {artifactId : ℤ} {artifactDigest : Text} :
    (keys (recordOf artifactId artifactDigest)).Nodup := by
  simp only [keys, recordOf, entry, List.map_cons, List.map_nil]
  decide

def Invocation.written (args : Invocation) (predecessor : Json) : List (Text × Json) :=
  sortFields (sortedFields (args.receipt predecessor))

section Written

variable (args : Invocation) (predecessor : Json)

theorem written_get (key : String) : get (args.written predecessor) key =
    sorted (get (args.receipt predecessor) key) :=
  get_sorted receiptOf_keys key

theorem written_operation :
    get (args.written predecessor) "operation" = .str args.operation.text := by
  rw [written_get]
  rfl

theorem written_runId : get (args.written predecessor) "run_id" = .int args.runId := by
  rw [written_get]
  rfl

theorem written_predecessor :
    get (args.written predecessor) "predecessor" = sorted predecessor := by
  rw [written_get]
  rfl

theorem written_record : get (args.written predecessor) "candidate_record" =
    sorted (.object (recordOf args.candidateRecordId args.candidateRecordDigest)) := by
  rw [written_get]
  rfl

theorem written_candidate {field : String} (h : field ∈ candidateFields) :
    get (args.written predecessor) field = sorted (get args.candidate.fields field) := by
  rw [written_get]
  simp only [candidateFields, List.mem_cons, List.not_mem_nil, or_false] at h
  rcases h with rfl | rfl | rfl | rfl
  · rfl
  · rfl
  · rfl
  · rfl

theorem record_get {record : List (Text × Json)} {artifactId : ℤ} {artifactDigest : Text}
    (h : sorted (.object (recordOf artifactId artifactDigest)) = .object record) :
    get record "artifact_id" = .int artifactId ∧
      get record "artifact_digest" = .str artifactDigest := by
  rw [sorted, Json.object.injEq] at h
  rw [← h, get_sorted recordOf_keys, get_sorted recordOf_keys]
  exact ⟨rfl, rfl⟩

theorem linked_written {args before : Invocation} {value value' : Json} {artifactId : ℤ}
    {artifactDigest : Text}
    (h : value = .object (linkOf (get (before.written value') "operation")
      (get (before.written value') "run_id") artifactId artifactDigest)) :
    Linked (before.written value') (args.written value) := by
  rw [written_operation, written_runId] at h
  refine ⟨_, by rw [written_predecessor, h, sorted], ?_, ?_⟩
  · rw [get_sorted linkOf_keys, written_operation]
    rfl
  · rw [get_sorted linkOf_keys, written_runId]
    rfl

theorem distinct_written (args : Invocation) (value : Json) {field : String}
    (h : field ∈ "candidate_record" :: candidateFields) :
    distinct (get (args.written value) field) = true := by
  rcases List.mem_cons.mp h with rfl | h
  · rw [written_record]
    apply distinct_sorted
    exact distinct_object.mpr ⟨recordOf_keys, by simp [recordOf, entry, distinct]⟩
  · rw [written_candidate args value h]
    exact distinct_sorted (distinct_get args.candidate.fields_distinct field)

end Written

section Validators

variable [UnicodeDatabase] {version : Text}

theorem validatePredecessor_eq_ok {operation : Operation} {predecessor : Json}
    (h : validatePredecessor operation predecessor = .ok ()) :
    (operation.predecessor = none ∧ predecessor = .null) ∨
    ∃ expected link, operation.predecessor = some expected ∧ predecessor = .object link ∧
      get link "operation" = .str expected.text := by
  unfold validatePredecessor at h
  split at h
  · exact Or.inl ⟨‹_›, rfl⟩
  · contradiction
  · rename_i expected link hexpected
    obtain ⟨_, hoperation, _⟩ := Except.bind_eq_ok.mp h
    exact Or.inr ⟨expected, link, hexpected, rfl, eq_str.mp (require_eq_ok.mp hoperation)⟩
  · contradiction

theorem validatePromotionReceipt_eq_ok {receipt : List (Text × Json)} {operation : Operation}
    (hoperation : get receipt "operation" = .str operation.text)
    (h : validatePromotionReceipt version receipt = .ok ()) :
    validatePredecessor operation (get receipt "predecessor") = .ok () := by
  unfold validatePromotionReceipt at h
  obtain ⟨_, _, h⟩ := Except.bind_eq_ok.mp h
  rw [operationOf_eq_some.mpr hoperation] at h
  obtain ⟨_, _, h⟩ := Except.bind_eq_ok.mp h
  obtain ⟨_, _, h⟩ := Except.bind_eq_ok.mp h
  obtain ⟨_, _, h⟩ := Except.bind_eq_ok.mp h
  obtain ⟨_, _, h⟩ := Except.bind_eq_ok.mp h
  obtain ⟨_, hpredecessor, _⟩ := Except.bind_eq_ok.mp h
  exact hpredecessor

/-- A receipt that passes against a candidate carries its identity and the run asked for. -/
theorem validateReceiptAgainstCandidate_eq_ok {receipt candidate : List (Text × Json)}
    {candidateRecordId runId : ℤ} {candidateRecordDigest : Text}
    (h : validateReceiptAgainstCandidate version receipt candidate candidateRecordId
      candidateRecordDigest (some runId) = .ok ()) :
    (∀ field ∈ candidateFields, eq (get receipt field) (get candidate field) = true) ∧
    ∃ record, get receipt "candidate_record" = .object record ∧
      eq (get record "artifact_id") (.int candidateRecordId) = true ∧
      get record "artifact_digest" = .str candidateRecordDigest := by
  unfold validateReceiptAgainstCandidate at h
  obtain ⟨_, _, h⟩ := Except.bind_eq_ok.mp h
  obtain ⟨_, _, h⟩ := Except.bind_eq_ok.mp h
  obtain ⟨_, _, h⟩ := Except.bind_eq_ok.mp h
  obtain ⟨_, hfields, h⟩ := Except.bind_eq_ok.mp h
  constructor
  · intro field hfield
    exact require_eq_ok.mp (forM_eq_ok.mp hfields field hfield)
  · split at h
    · rename_i record hrecord
      rw [require_eq_ok, Bool.and_eq_true, eq_str] at h
      exact ⟨record, hrecord, h⟩
    · contradiction

/-- What the command writes is the receipt of its arguments, which names a predecessor as its
operation asks. -/
theorem runCommand_eq_ok {args : Invocation} {json : Json}
    (h : runCommand version args = .ok (.ok json)) :
    ∃ predecessor, predecessorValue version args = .ok (.ok predecessor) ∧
      validatePredecessor args.operation predecessor = .ok () ∧
      json = .object (args.written predecessor) := by
  unfold runCommand at h
  obtain ⟨_, _, h⟩ := Except.bind_eq_ok.mp h
  obtain ⟨value, hvalue, h⟩ := Except.bind_eq_ok.mp h
  cases value with
  | error errors => simp at h
  | ok predecessor =>
    obtain ⟨receipt, hcreated, h⟩ := Except.bind_eq_ok.mp h
    unfold createPromotionReceipt at hcreated
    obtain ⟨_, _, hcreated⟩ := Except.bind_eq_ok.mp hcreated
    obtain ⟨_, hvalid, hcreated⟩ := Except.bind_eq_ok.mp hcreated
    simp only [Except.ok.injEq] at hcreated h
    refine ⟨predecessor, hvalue, ?_, ?_⟩
    · exact validatePromotionReceipt_eq_ok rfl hvalid
    · rw [← h, ← hcreated, sorted]
      rfl

/-- A predecessor value is null without a predecessor, and names the one there is. -/
theorem predecessorValue_eq_ok {args : Invocation} {predecessor : Json}
    (h : predecessorValue version args = .ok (.ok predecessor)) :
    (args.predecessor = none ∧ predecessor = .null) ∨
    ∃ document runId artifactId artifactDigest, args.predecessor = some document ∧
      validateReceiptAgainstCandidate version document.fields args.candidate.fields
        args.candidateRecordId args.candidateRecordDigest (some runId) = .ok () ∧
      predecessor = .object (linkOf (get document.fields "operation")
        (get document.fields "run_id") artifactId artifactDigest) := by
  unfold predecessorValue at h
  split at h
  · rename_i hnone
    simp only [Except.ok.injEq] at h
    exact Or.inl ⟨hnone, h.symm⟩
  · rename_i document hdocument
    obtain ⟨_, _, h⟩ := Except.bind_eq_ok.mp h
    split at h
    · rename_i runId artifactId artifactDigest _ _ _
      obtain ⟨_, hvalid, h⟩ := Except.bind_eq_ok.mp h
      simp only [Except.ok.injEq] at h
      exact Or.inr ⟨document, runId, artifactId, artifactDigest, hdocument, hvalid, h.symm⟩
    · simp at h

end Validators

end RayClickHouse.Release
