import RayClickHouse.StreamFidelity

/-!
How a read ends: which errors the except and finally clauses raise, and exactly when
the whole read is faithful.
-/
namespace RayClickHouse.Streaming

open Text Batches Generators

section Endings

variable {nbytes : Batch → ℕ} {limits : ResourceLimits} {server : ReadServer} {query : QuerySpec}

theorem translate_ne_closeFailure (code : Option ℤ) (message : Text) (operation : String)
    (h : operation = "Arrow query" ∨ operation = "read client initialization") :
    InsertSession.translate code message operation ≠ closeFailure := by
  unfold InsertSession.translate closeFailure
  rcases h with rfl | rfl
  all_goals
    split
    · decide
    split
    · decide
    split
    · decide
    rw [if_neg (by decide)]
    decide

/-- The connector's own errors inside the try clause are read errors. -/
theorem validateTable_failed {t : ArrowTable} {schema : ArrowSchema} {failure : Failure}
    (h : validateTable server t schema = .error (.failed failure)) : failure.kind = .read := by
  unfold validateTable readError at h
  split at h
  · cases h
    rfl
  · split at h
    · contradiction
    · split at h
      · contradiction
      · cases h
        rfl
      · rename_i raised _
        cases raised with
        | interrupt => cases h
        | error code message => cases h

theorem holdsNull_error {t : ArrowTable} {fields : List Field} {thrown : Thrown}
    (h : holdsNull t fields = .error thrown) : ∃ code message, thrown = .other code message := by
  induction fields with
  | nil => simp [holdsNull] at h
  | cons field rest ih =>
    unfold holdsNull at h
    split at h
    · exact ih h
    · rcases Except.bind_eq_error.mp h with h | ⟨nulls, -, h⟩
      · unfold columnNulls at h
        split at h
        · contradiction
        · exact ⟨_, _, (Except.error.inj h).symm⟩
      · split at h
        · contradiction
        · exact ih h

theorem canonicalTable_failed {item : Delivered} {failure : Failure}
    (h : canonicalTable server query item = .error (.failed failure)) : failure.kind = .read := by
  cases item with
  | foreign =>
    simp only [canonicalTable, readError] at h
    cases h
    rfl
  | broken raised =>
    simp only [canonicalTable] at h
    cases raised with
    | interrupt => cases h
    | error code message => cases h
  | table t =>
    simp only [canonicalTable] at h
    split at h
    · rcases Except.bind_eq_error.mp h with h | ⟨_, -, h⟩
      · unfold checkStrict readError at h
        split at h
        · cases h
          rfl
        · rcases Except.bind_eq_error.mp h with h | ⟨null, -, h⟩
          · obtain ⟨code, message, heq⟩ := holdsNull_error h
            cases heq
          · split at h
            · cases h
              rfl
            · contradiction
      · exact validateTable_failed h
    · rcases Except.bind_eq_error.mp h with h | ⟨_, -, h⟩
      · contradiction
      · exact validateTable_failed h

theorem loopEnd_failed {items : List Delivered} {failure : Failure}
    (h : loopEnd server query items = some (.failed failure)) : failure.kind = .read := by
  induction items with
  | nil =>
    unfold loopEnd at h
    obtain ⟨raised, -, hraised⟩ := Option.map_eq_some_iff.mp h
    cases raised with
    | interrupt => cases hraised
    | error code message => cases hraised
  | cons item rest ih =>
    unfold loopEnd at h
    split at h
    · exact ih h
    · rename_i hitem
      rw [Option.some.inj h] at hitem
      exact canonicalTable_failed hitem

theorem ofRaised_ne_failed (raised : Raised) (failure : Failure) :
    Thrown.ofRaised raised ≠ .failed failure := by
  cases raised with
  | interrupt => exact Thrown.noConfusion
  | error code message => exact Thrown.noConfusion

theorem tryEnd_failed {pulls : ℕ} {failure : Failure}
    (h : tryEnd nbytes limits server query pulls = some (.failed failure)) :
    failure.kind = .read := by
  unfold tryEnd at h
  split at h
  · exact absurd (Option.some.inj h) (ofRaised_ne_failed _ _)
  · exact absurd (Option.some.inj h) (ofRaised_ne_failed _ _)
  · split at h
    · exact loopEnd_failed h
    · cases h

theorem closeDiagnostics_error {α : Type} {d : DiagnosticServer} {result : Except Thrown α}
    {thrown : Thrown} (h : closeDiagnostics d result = .error thrown) :
    thrown = .signal ∨ result = .error thrown := by
  unfold closeDiagnostics at h
  split at h
  · exact Or.inl (Except.error.inj h).symm
  · exact Or.inr h

theorem passing_error {α : Type} {fallback : α} {answer : Except Raised α} {thrown : Thrown}
    (h : passing fallback answer = .error thrown) : thrown = .signal := by
  unfold passing at h
  split at h
  · contradiction
  · exact (Except.error.inj h).symm
  · contradiction

theorem lookupAttempts_error {d : DiagnosticServer} {left : ℕ} {thrown : Thrown}
    (h : lookupAttempts d left = .error thrown) : thrown = .signal := by
  induction left with
  | zero => contradiction
  | succ left ih =>
    unfold lookupAttempts at h
    split at h
    · exact (Except.error.inj h).symm
    · contradiction
    · exact ih h
    · contradiction

/-- Only a signal gets out of the lookup. -/
theorem lookupQueryDiagnostic_error {d : DiagnosticServer} {flushLogs : Bool} {thrown : Thrown}
    (h : lookupQueryDiagnostic d flushLogs = .error thrown) : thrown = .signal := by
  unfold lookupQueryDiagnostic at h
  split at h
  · exact (Except.error.inj h).symm
  · contradiction
  · rcases closeDiagnostics_error h with h | h
    · exact h
    · split at h
      · rcases Except.bind_eq_error.mp h with h | ⟨_, -, h⟩
        · exact passing_error h
        · rcases Except.bind_eq_error.mp h with h | ⟨table, -, h⟩
          · rcases Except.bind_eq_error.mp h with h | ⟨rows, -, h⟩
            · exact passing_error h
            · contradiction
          · cases table with
            | none => contradiction
            | some table => exact lookupAttempts_error h
      · rcases Except.bind_eq_error.mp h with h | ⟨_, -, h⟩
        · contradiction
        · rcases Except.bind_eq_error.mp h with h | ⟨table, -, h⟩
          · rcases Except.bind_eq_error.mp h with h | ⟨rows, -, h⟩
            · exact passing_error h
            · contradiction
          · cases table with
            | none => contradiction
            | some table => exact lookupAttempts_error h

theorem closingResult_ok {raised : Option Thrown} {recorded : Bool}
    (h : closingResult server raised recorded = .ok ()) : raised = none := by
  unfold closingResult at h
  split at h
  · contradiction
  · contradiction
  · cases raised with
    | none => rfl
    | some raised => contradiction

/-- A recorded failure is kept over a failure to close. -/
theorem closingResult_recorded {raised : Thrown} (hraised : raised ≠ .failed closeFailure) :
    closingResult server (some raised) true ≠ .error (.failed closeFailure) := by
  intro h
  unfold closingResult at h
  split at h
  · cases h
  · contradiction
  · exact hraised (Except.error.inj h)

theorem closingResult_unrecorded {raised : Option Thrown}
    (hraised : raised ≠ some (.failed closeFailure)) :
    closingResult server raised false = .error (.failed closeFailure) ↔
      ∃ code message, server.closeClient = some (.error code message) := by
  constructor
  · intro h
    unfold closingResult at h
    split at h
    · cases h
    · rename_i code message hclose _
      exact ⟨code, message, hclose⟩
    · cases raised with
      | none => cases h
      | some raised => exact absurd (congrArg some (Except.error.inj h)) hraised
  · rintro ⟨code, message, hclose⟩
    unfold closingResult
    rw [hclose]

/-- A read whose try clause raised never succeeds. -/
theorem readResult_ok {thrown : Option Thrown} (h : readResult server query thrown = .ok ()) :
    thrown = none := by
  cases thrown with
  | none => rfl
  | some thrown => exact absurd (closingResult_ok h) (Option.some_ne_none _)

theorem handledResult_translated {thrown : Thrown} (h : thrown.isOrdinary = true)
    {row : Option (List (String × Value))}
    (hlookup : lookupQueryDiagnostic server.diagnostics query.diagnosticFlushLogs = .ok row) :
    handledResult server query thrown = ((translated "Arrow query" thrown, true), [.looked]) := by
  cases thrown with
  | generatorExit => contradiction
  | signal => contradiction
  | failed failure => simp only [handledResult, hlookup]
  | other code message => simp only [handledResult, hlookup]

theorem handledResult_interrupted {thrown interruption : Thrown} (h : thrown.isOrdinary = true)
    (hlookup : lookupQueryDiagnostic server.diagnostics query.diagnosticFlushLogs =
      .error interruption) :
    handledResult server query thrown = ((interruption, false), [.looked]) := by
  cases thrown with
  | generatorExit => contradiction
  | signal => contradiction
  | failed failure => simp only [handledResult, hlookup]
  | other code message => simp only [handledResult, hlookup]

theorem handledResult_cancelled {thrown : Thrown} (h : thrown.isOrdinary = false) :
    handledResult server query thrown = ((thrown, true), []) := by
  cases thrown with
  | generatorExit => rfl
  | signal => rfl
  | failed failure => contradiction
  | other code message => contradiction

theorem translated_ne_closeFailure {thrown : Thrown}
    (hread : ∀ failure, thrown = .failed failure → failure.kind = .read) :
    translated "Arrow query" thrown ≠ .failed closeFailure := by
  cases thrown with
  | generatorExit => exact Thrown.noConfusion
  | signal => exact Thrown.noConfusion
  | failed failure =>
    intro h
    have hkind := hread failure rfl
    rw [Thrown.failed.inj h] at hkind
    contradiction
  | other code message =>
    intro h
    exact translate_ne_closeFailure code message _ (Or.inl rfl) (Thrown.failed.inj h)

/-- The close error stands for no other failure, a lookup cut short by a signal excepted. -/
theorem readResult_closeFailure {thrown : Option Thrown}
    (hread : ∀ failure, thrown = some (.failed failure) → failure.kind = .read) :
    readResult server query thrown = .error (.failed closeFailure) ↔
      (∃ code message, server.closeClient = some (.error code message)) ∧
        (thrown = none ∨ (∃ t, thrown = some t ∧ t.isOrdinary = true) ∧
          lookupQueryDiagnostic server.diagnostics query.diagnosticFlushLogs = .error .signal) := by
  cases thrown with
  | none =>
    have hclose := @closingResult_unrecorded server none (Option.some_ne_none _).symm
    exact hclose.trans ⟨fun h => ⟨h, Or.inl rfl⟩, fun h => h.1⟩
  | some thrown =>
    simp only [readResult]
    cases hordinary : thrown.isOrdinary with
    | false =>
      rw [handledResult_cancelled hordinary]
      have hne : thrown ≠ .failed closeFailure := by
        rintro rfl
        contradiction
      refine ⟨fun h => absurd h (closingResult_recorded hne), ?_⟩
      rintro ⟨-, h | ⟨⟨t, ht, htrue⟩, -⟩⟩
      · contradiction
      · rw [← Option.some.inj ht, hordinary] at htrue
        contradiction
    | true =>
      cases hlookup : lookupQueryDiagnostic server.diagnostics query.diagnosticFlushLogs with
      | ok row =>
        rw [handledResult_translated hordinary hlookup]
        have hne := translated_ne_closeFailure fun failure h => hread failure (congrArg some h)
        refine ⟨fun h => absurd h (closingResult_recorded hne), ?_⟩
        rintro ⟨-, h | ⟨-, h⟩⟩
        · contradiction
        · contradiction
      | error interruption =>
        rw [handledResult_interrupted hordinary hlookup, lookupQueryDiagnostic_error hlookup]
        have hclose := @closingResult_unrecorded server (some .signal)
          (fun h => Thrown.noConfusion (Option.some.inj h))
        exact hclose.trans ⟨fun h => ⟨h, Or.inr ⟨⟨thrown, rfl, hordinary⟩, rfl⟩⟩, fun h => h.1⟩

/-- The lookup runs exactly for the errors that are translated. -/
theorem handledEvents_looked (thrown : Option Thrown) :
    (handledEvents server query thrown).countP Event.isLooked = 0 ↔
      ∀ t, thrown = some t → t.isOrdinary = false := by
  cases thrown with
  | none => exact ⟨fun _ t h => by contradiction, fun _ => rfl⟩
  | some thrown =>
    unfold handledEvents
    cases hordinary : thrown.isOrdinary with
    | false =>
      simp only [handledResult_cancelled hordinary]
      refine ⟨fun _ t ht => ?_, fun _ => rfl⟩
      rw [← Option.some.inj ht, hordinary]
    | true =>
      refine ⟨fun h => ?_, fun h => ?_⟩
      · cases hlookup : lookupQueryDiagnostic server.diagnostics query.diagnosticFlushLogs with
        | ok row => simp [handledResult_translated hordinary hlookup, Event.isLooked] at h
        | error interruption => simp [handledResult_interrupted hordinary hlookup, Event.isLooked] at h
      · have := h thrown rfl
        rw [hordinary] at this
        contradiction

end Endings

end RayClickHouse.Streaming
