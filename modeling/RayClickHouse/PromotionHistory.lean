import RayClickHouse.Ledger
import RayClickHouse.WrittenReceipts

/-!
Histories of promotion. Whatever candidates and predecessors the invocations of
the command are given, a written receipt is linked to an earlier one of the
stage before it that carries the same candidate, so that a whole chain from the
dry run precedes it.
-/
namespace RayClickHouse.Release

open Text Json

section Stages

structure Promoted (p r : List (Text × Json)) : Prop where
  linked : Linked p r
  candidate : SameCandidate p r
  stage : ∃ earlier later : Operation, later.predecessor = some earlier ∧
    get p "operation" = .str earlier.text ∧ get r "operation" = .str later.text

def Started (r : List (Text × Json)) : Prop := get r "operation" = .str Operation.dryRun.text

def stagesFrom (operation : Operation) : List Operation :=
  OPERATIONS.dropWhile fun other => decide (other ≠ operation)

theorem stagesFrom_cons {earlier later : Operation} (h : later.predecessor = some earlier) :
    stagesFrom earlier = earlier :: stagesFrom later := by
  cases later <;> cases h <;> rfl

theorem text_injective {a b : Operation} (h : Json.str a.text = .str b.text) : a = b := by
  have ha : operationOf (.str a.text) = some a := operationOf_eq_some.mpr rfl
  have hb : operationOf (.str a.text) = some b := operationOf_eq_some.mpr h
  rw [ha] at hb
  exact Option.some.inj hb

/-- A chain from a stage on has the operations that follow it, in order. -/
theorem stages_of_chain {r : List (Text × Json)} {rest : List (List (Text × Json))}
    {operation : Operation} (hchain : (r :: rest).IsChain Promoted)
    (hoperation : get r "operation" = .str operation.text) :
    (r :: rest).map (get · "operation") <+:
      (stagesFrom operation).map fun stage => .str stage.text := by
  induction rest generalizing r operation with
  | nil =>
    rw [List.map_cons, List.map_nil, hoperation]
    cases operation <;> exact List.prefix_append _ _
  | cons r' rest ih =>
    obtain ⟨hpromoted, htail⟩ := List.isChain_cons_cons.mp hchain
    obtain ⟨earlier, later, hpredecessor, hearlier, hlater⟩ := hpromoted.stage
    rw [hoperation] at hearlier
    rw [text_injective hearlier, stagesFrom_cons hpredecessor, List.map_cons, List.map_cons,
      hoperation, text_injective hearlier]
    exact List.cons_prefix_cons.mpr ⟨rfl, ih htail hlater⟩

end Stages

section Histories

variable [UnicodeDatabase] (version : Text)

def writeReceipt (args : Invocation) : Option (List (Text × Json)) :=
  match runCommand version args with
  | .ok (.ok (.object fields)) => some fields
  | _ => none

def readsReceipt (args : Invocation) (receipt : List (Text × Json)) : Prop :=
  ∃ document, args.predecessor = some document ∧ document.fields = receipt

/-- The receipts of a finite sequence of invocations whose predecessors were written before. -/
abbrev History : List (List (Text × Json)) → Prop := Ledger (writeReceipt version) readsReceipt

variable {version}

theorem writeReceipt_eq_some {args : Invocation} {receipt : List (Text × Json)}
    (h : writeReceipt version args = some receipt) :
    ∃ predecessor, predecessorValue version args = .ok (.ok predecessor) ∧
      validatePredecessor args.operation predecessor = .ok () ∧
      receipt = args.written predecessor := by
  unfold writeReceipt at h
  split at h
  · rename_i fields hrun
    obtain ⟨predecessor, hvalue, hvalid, hwritten⟩ := runCommand_eq_ok hrun
    cases hwritten
    cases h
    exact ⟨predecessor, hvalue, hvalid, rfl⟩
  · contradiction

theorem sameCandidate_written {args before : Invocation} {value value' : Json} {runId : ℤ}
    (h : validateReceiptAgainstCandidate version (before.written value') args.candidate.fields
      args.candidateRecordId args.candidateRecordDigest (some runId) = .ok ()) :
    SameCandidate (before.written value') (args.written value) := by
  obtain ⟨hfields, record, hrecord, hid, hdigest⟩ := validateReceiptAgainstCandidate_eq_ok h
  intro field hfield
  rcases List.mem_cons.mp hfield with rfl | hfield
  · left
    rw [written_record] at hrecord
    obtain ⟨hsameid, hsamedigest⟩ := record_get hrecord
    rw [hsameid, eq_int_int] at hid
    rw [hsamedigest, Json.str.injEq] at hdigest
    rw [written_record, written_record, hid, hdigest]
  · right
    rw [written_candidate args value hfield]
    exact eq_sorted (distinct_get args.candidate.fields_distinct field) (hfields field hfield)

/-- A written receipt is one of the first stage, or follows one that was written before. -/
theorem promoted_of_written {before : List (List (Text × Json))} {receipt : List (Text × Json)}
    {args : Invocation} (hbefore : History version before)
    (hwritten : writeReceipt version args = some receipt)
    (hreads : ∀ p, readsReceipt args p → p ∈ before) :
    Started receipt ∨ ∃ p ∈ before, Promoted p receipt := by
  obtain ⟨value, hvalue, hvalid, rfl⟩ := writeReceipt_eq_some hwritten
  rcases validatePredecessor_eq_ok hvalid with
    ⟨hnone, -⟩ | ⟨expected, link, hexpected, hlink, hname⟩
  · left
    rw [Started, written_operation]
    cases hoperation : args.operation <;> simp_all [Operation.predecessor]
  · right
    rcases predecessorValue_eq_ok hvalue with
      ⟨-, hnull⟩ | ⟨document, runId, artifactId, artifactDigest, hdocument, hagainst, hobject⟩
    · rw [hnull] at hlink
      contradiction
    · have hmem : document.fields ∈ before := hreads _ ⟨document, hdocument, rfl⟩
      obtain ⟨earlier, later, rfl⟩ := List.append_of_mem hmem
      obtain ⟨-, args', hwritten', -⟩ := hbefore.written
      obtain ⟨value', -, -, hfields⟩ := writeReceipt_eq_some hwritten'
      have hoperation : get link "operation" = get document.fields "operation" := by
        rw [hobject, Json.object.injEq] at hlink
        rw [← hlink]
        rfl
      refine ⟨document.fields, hmem, ?_, ?_, expected, args.operation, hexpected, ?_, ?_⟩
      · rw [hfields] at hobject ⊢
        exact linked_written hobject
      · rw [hfields] at hagainst ⊢
        exact sameCandidate_written hagainst
      · rw [← hoperation, hname]
      · exact written_operation args value

theorem exists_written {written : List (List (Text × Json))} {receipt : List (Text × Json)}
    (h : History version written) (hmem : receipt ∈ written) :
    ∃ args value, receipt = Invocation.written args value := by
  obtain ⟨before, after, rfl⟩ := List.append_of_mem hmem
  obtain ⟨-, args, hwritten, -⟩ := h.written
  obtain ⟨value, -, -, hreceipt⟩ := writeReceipt_eq_some hwritten
  exact ⟨args, value, hreceipt⟩

/-- Along a chain of written receipts, any two carry the same candidate. -/
theorem sameCandidate_of_chain {written chain : List (List (Text × Json))}
    (h : History version written) (hmem : ∀ r ∈ chain, r ∈ written)
    (hchain : chain.IsChain SameCandidate) : ∀ p ∈ chain, ∀ r ∈ chain, SameCandidate p r := by
  have htrans : Trans SameCandidate SameCandidate SameCandidate :=
    ⟨fun hp hr field hfield => (hp field hfield).trans (hr field hfield)⟩
  have hpairs : chain.Pairwise SameCandidate := hchain.pairwise
  have hswapped : chain.Pairwise (flip SameCandidate) := by
    refine hpairs.imp_of_mem fun {p r} hp hr hsame field hfield => ?_
    obtain ⟨_, _, hp⟩ := exists_written h (hmem p hp)
    obtain ⟨_, _, hr⟩ := exists_written h (hmem r hr)
    apply (hsame field hfield).symm
    · rw [hp]
      exact distinct_written _ _ hfield
    · rw [hr]
      exact distinct_written _ _ hfield
  intro p hp r hr
  exact hpairs.forall_of_forall_of_flip (fun _ _ _ _ => Or.inl rfl) hswapped hp hr

/-- Every receipt of a history ends a chain of receipts that were written before it, in this
order: they are the receipts of all the stages before its own, each linked to the next by
operation and run, and they all carry one candidate. -/
theorem promotion_chain {before after : List (List (Text × Json))} {receipt : List (Text × Json)}
    (h : History version (before ++ receipt :: after)) :
    ∃ chain : List (List (Text × Json)), chain.Sublist before ∧
      (chain ++ [receipt]).map (get · "operation") <+:
        OPERATIONS.map (fun stage => .str stage.text) ∧
      (chain ++ [receipt]).IsChain Linked ∧
      ∀ p ∈ chain ++ [receipt], ∀ r ∈ chain ++ [receipt], SameCandidate p r := by
  have hlinks : ∀ before receipt args, History version before →
      writeReceipt version args = some receipt → (∀ p, readsReceipt args p → p ∈ before) →
      Started receipt ∨ ∃ p ∈ before, Promoted p receipt :=
    fun _ _ _ hbefore hwritten hreads => promoted_of_written hbefore hwritten hreads
  obtain ⟨chain, hsub, hchain, first, rest, hfirst, hstart⟩ := h.chain hlinks
  refine ⟨chain, hsub, ?_, hchain.imp fun _ _ hpromoted => hpromoted.linked, ?_⟩
  · rw [hfirst] at hchain ⊢
    exact stages_of_chain hchain hstart
  · apply sameCandidate_of_chain h
    · intro r hr
      rcases List.mem_append.mp hr with hr | hr
      · exact List.mem_append_left _ (hsub.subset hr)
      · rw [List.mem_singleton.mp hr]
        exact List.mem_append_right _ (List.mem_cons_self ..)
    · exact hchain.imp fun _ _ hpromoted => hpromoted.candidate

end Histories

section Example

def exampleVersion : Text := "1.1".toList

def exampleArtifact (number : ℕ) : List (Text × Json) :=
  [entry "artifact_id" (.int number),
    entry "artifact_digest" (.str ("sha256:".toList ++ List.replicate 64 'b')),
    entry "artifact_url" (.str
      ("https://github.com/jiangxt2/ray-clickhouse/actions/runs/11/artifacts/".toList ++
        Text.ofNat number))]

def exampleFiles (wheel source : Json) : Json :=
  .object [entry "ray_clickhouse-1.1-py3-none-any.whl" wheel,
    entry "ray_clickhouse-1.1.tar.gz" source]

def exampleSums : Json :=
  exampleFiles (.str (List.replicate 64 'c')) (.str (List.replicate 64 'd'))

def exampleCandidate : List (Text × Json) :=
  [entry "schema_version" (.int 1), entry "repository" (.str REPOSITORY),
    entry "candidate_sha" (.str (List.replicate 40 'a')), entry "source_run_id" (.int 11),
    entry "distribution" (.object (exampleArtifact 12 ++
      [entry "files" exampleSums, entry "file_sizes" (exampleFiles (.int 5) (.int 7))])),
    entry "clickhouse_evidence" (.object (exampleArtifact 13))]

def dryRunArgs : Invocation where
  operation := .dryRun
  runId := 100
  candidate := ⟨exampleCandidate, by decide +kernel⟩
  candidateRecordId := 14
  candidateRecordDigest := "sha256:".toList ++ List.replicate 64 'b'
  predecessor := none
  predecessorRunId := none
  predecessorArtifactId := none
  predecessorArtifactDigest := none
  externalState :=
    ⟨[entry "operation" (.str "dry-run".toList), entry "pypi" (.str "absent".toList),
      entry "testpypi" (.str "absent".toList), entry "tag" (.str "absent".toList)],
      by decide +kernel⟩
  recovered := false

def dryRunReceipt : List (Text × Json) :=
  (@writeReceipt asciiDatabase exampleVersion dryRunArgs).getD []

def dryRunDocument : Document := ⟨dryRunReceipt, by decide +kernel⟩

theorem dryRun_written :
    @writeReceipt asciiDatabase exampleVersion dryRunArgs = some dryRunReceipt := by
  have hsome : (@writeReceipt asciiDatabase exampleVersion dryRunArgs).isSome = true := by
    decide +kernel
  exact (Option.some_get hsome).symm.trans (congrArg some (Option.get_eq_getD _))

def testpypiArgs : Invocation :=
  { dryRunArgs with
    operation := .testpypi
    runId := 101
    predecessor := some dryRunDocument
    predecessorRunId := some 100
    predecessorArtifactId := some 201
    predecessorArtifactDigest := some ("sha256:".toList ++ List.replicate 64 'b')
    externalState :=
      ⟨[entry "operation" (.str "testpypi".toList),
        entry "index_url" (.str (indexUrl exampleVersion "test.pypi.org")),
        entry "project" (.str PROJECT), entry "version" (.str exampleVersion),
        entry "files" exampleSums], by decide +kernel⟩ }

def testpypiReceipt : List (Text × Json) :=
  (@writeReceipt asciiDatabase exampleVersion testpypiArgs).getD []

theorem testpypi_written :
    @writeReceipt asciiDatabase exampleVersion testpypiArgs = some testpypiReceipt := by
  have hsome : (@writeReceipt asciiDatabase exampleVersion testpypiArgs).isSome = true := by
    decide +kernel
  exact (Option.some_get hsome).symm.trans (congrArg some (Option.get_eq_getD _))

theorem example_history :
    @History asciiDatabase exampleVersion ([dryRunReceipt] ++ testpypiReceipt :: []) := by
  have hfirst : @History asciiDatabase exampleVersion
      ([] ++ (@writeReceipt asciiDatabase exampleVersion dryRunArgs).toList) := by
    apply Ledger.invoke dryRunArgs Ledger.start
    intro _ ⟨document, hsome, _⟩
    have hnone : dryRunArgs.predecessor = none := rfl
    rw [hnone] at hsome
    contradiction
  rw [dryRun_written] at hfirst
  have hsecond : @History asciiDatabase exampleVersion
      ([dryRunReceipt] ++ (@writeReceipt asciiDatabase exampleVersion testpypiArgs).toList) := by
    apply Ledger.invoke testpypiArgs hfirst
    intro receipt ⟨document, hsome, hreceipt⟩
    have hdocument : testpypiArgs.predecessor = some dryRunDocument := rfl
    rw [hdocument, Option.some.injEq] at hsome
    rw [← hsome] at hreceipt
    have hfields : dryRunDocument.fields = dryRunReceipt := by
      simp only [dryRunDocument]
    rw [hfields] at hreceipt
    exact List.mem_singleton.mpr hreceipt.symm
  rwa [testpypi_written] at hsecond

/-- The second of two receipts of a candidate. -/
theorem testpypi_chain : ∃ chain : List (List (Text × Json)), chain.Sublist [dryRunReceipt] ∧
    (chain ++ [testpypiReceipt]).map (get · "operation") <+:
      OPERATIONS.map (fun stage => .str stage.text) ∧
    (chain ++ [testpypiReceipt]).IsChain Linked ∧
    ∀ p ∈ chain ++ [testpypiReceipt], ∀ r ∈ chain ++ [testpypiReceipt], SameCandidate p r :=
  @promotion_chain asciiDatabase exampleVersion [dryRunReceipt] [] testpypiReceipt example_history

end Example

end RayClickHouse.Release
