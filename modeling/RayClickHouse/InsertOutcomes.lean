import RayClickHouse.InsertSession

/-!
What a failed insert is reported as. The classes are told apart by the error code
and, for an exception without one, by words of its message alone.
-/
namespace RayClickHouse.InsertSession

open Text Batches

def NamesDenial (message : Text) : Prop :=
  mentions message "authentication" ∨ mentions message "not enough privileges" ∨
    mentions message "access denied"

def NamesTransport (message : Text) : Prop :=
  mentions message "timeout" ∨ mentions message "connection" ∨ mentions message "http"

def DenialCode (code : Option ℤ) : Prop :=
  code = some 516 ∨ code = some 193 ∨ code = some 497 ∨ code = some 551

instance (message : Text) : Decidable (NamesDenial message) := by
  unfold NamesDenial
  infer_instance

instance (message : Text) : Decidable (NamesTransport message) := by
  unfold NamesTransport
  infer_instance

theorem not_denialCode_none : ¬DenialCode none := by
  intro h
  unfold DenialCode at h
  simp at h

section Translate

variable {code : Option ℤ} {message : Text} {operation : String}

/-- Neither of the first two tests holds. -/
theorem denial_tests_fail (hcode : ¬DenialCode code) (hdenied : ¬NamesDenial message) :
    ¬(code = some 516 ∨ code = some 193 ∨ mentions message "authentication") ∧
      ¬(code = some 497 ∨ code = some 551 ∨ mentions message "not enough privileges" ∨
        mentions message "access denied") := by
  unfold DenialCode at hcode
  unfold NamesDenial at hdenied
  simp only [not_or] at hcode hdenied ⊢
  obtain ⟨h516, h193, h497, h551⟩ := hcode
  obtain ⟨hauthentication, hprivileges, haccess⟩ := hdenied
  exact ⟨⟨h516, h193, hauthentication⟩, h497, h551, hprivileges, haccess⟩

theorem translate_of_denied (h : DenialCode code ∨ NamesDenial message) :
    (translate code message operation).kind = .authentication ∨
      (translate code message operation).kind = .permission := by
  unfold translate
  split
  · exact Or.inl rfl
  · next hauthentication =>
    rw [if_pos ?_]
    · exact Or.inr rfl
    · unfold DenialCode NamesDenial at h
      tauto

theorem translate_of_transport (hcode : ¬DenialCode code) (hdenied : ¬NamesDenial message)
    (h : NamesTransport message) : (translate code message operation).kind = .transport := by
  obtain ⟨hauthentication, hpermission⟩ := denial_tests_fail hcode hdenied
  unfold NamesTransport at h
  unfold translate
  rw [if_neg hauthentication, if_neg hpermission, if_pos h]

theorem translate_of_other (hcode : ¬DenialCode code) (hdenied : ¬NamesDenial message)
    (h : ¬NamesTransport message) :
    (translate code message operation).kind = .write ∨
      (translate code message operation).kind = .read := by
  obtain ⟨hauthentication, hpermission⟩ := denial_tests_fail hcode hdenied
  unfold NamesTransport at h
  unfold translate
  rw [if_neg hauthentication, if_neg hpermission, if_neg h]
  split
  · exact Or.inl rfl
  · exact Or.inr rfl

/-- The tests run in this order: known codes and the words of a denial, then the
words of a transport failure. -/
theorem translate_transport_iff :
    (translate code message operation).kind = .transport ↔
      ¬DenialCode code ∧ ¬NamesDenial message ∧ NamesTransport message := by
  constructor
  · intro h
    by_cases hdenied : DenialCode code ∨ NamesDenial message
    · obtain hkind | hkind := translate_of_denied hdenied
      · rw [hkind] at h
        contradiction
      · rw [hkind] at h
        contradiction
    · rw [not_or] at hdenied
      refine ⟨hdenied.1, hdenied.2, ?_⟩
      by_contra hwords
      obtain hkind | hkind := translate_of_other hdenied.1 hdenied.2 hwords
      · rw [hkind] at h
        contradiction
      · rw [hkind] at h
        contradiction
  · intro h
    exact translate_of_transport h.1 h.2.1 h.2.2

theorem translate_kind_ne_ambiguous :
    (translate code message operation).kind ≠ .ambiguousWrite := by
  unfold translate
  split
  · simp
  · split
    · simp
    · split
      · simp
      · split
        · simp
        · simp

end Translate

namespace ClickHouseInsertSession

section Failures

variable {server : InsertServer} {session : ClickHouseInsertSession}
  {history : List InsertRequest} {batch : Batch} {code : Option ℤ} {message : Text}

theorem insert_snd_of_error (hclient : session.client = true)
    (h : server.insertArrow history (session.request server history batch) =
      some (.error code message)) :
    (session.insert server history batch).2 =
      if (translate code message "Arrow insert").kind = .transport then
        Outcome.raise .ambiguousWrite
          "ClickHouse insert outcome is unknown after a transport failure"
      else .error (translate code message "Arrow insert") := by
  unfold insert
  rw [if_pos hclient]
  simp only [h]
  split
  · rfl
  · rfl

/-- A request that raised never counts as confirmed, and it is ambiguous exactly
when the translation is a transport failure. -/
theorem insert_raises (hclient : session.client = true)
    (h : server.insertArrow history (session.request server history batch) =
      some (.error code message)) :
    ∃ e, (session.insert server history batch).2 = .error e ∧
      (e.kind = .ambiguousWrite ↔
        ¬DenialCode code ∧ ¬NamesDenial message ∧ NamesTransport message) := by
  rw [insert_snd_of_error hclient h]
  by_cases hkind : (translate code message "Arrow insert").kind = .transport
  · rw [if_pos hkind]
    exact ⟨_, rfl, iff_of_true rfl (translate_transport_iff.mp hkind)⟩
  · rw [if_neg hkind]
    refine ⟨_, rfl, iff_of_false translate_kind_ne_ambiguous ?_⟩
    intro hwords
    exact hkind (translate_transport_iff.mpr hwords)

/-- A failure without an error code is reported as ambiguous, and every other report
has a coded rejection behind it, exactly when a message without a code names a
transport failure and no denial. -/
theorem definite_failure_coded_iff (hclient : session.client = true)
    (h : server.insertArrow history (session.request server history batch) =
      some (.error code message)) :
    ((code = none → ∃ e, (session.insert server history batch).2 = .error e ∧
        e.kind = .ambiguousWrite) ∧
      ∀ e, (session.insert server history batch).2 = .error e → e.kind ≠ .ambiguousWrite →
        code ≠ none) ↔
      (code = none → ¬NamesDenial message ∧ NamesTransport message) := by
  obtain ⟨raised, hraised, hambiguous⟩ := insert_raises hclient h
  constructor
  · intro hclaim hcode
    obtain ⟨e, he, hkind⟩ := hclaim.1 hcode
    have heq : raised = e := by
      rw [hraised] at he
      exact Except.error.inj he
    rw [← heq] at hkind
    exact (hambiguous.mp hkind).2
  · intro hwords
    have hkind : code = none → raised.kind = .ambiguousWrite := by
      intro hcode
      refine hambiguous.mpr ⟨?_, hwords hcode⟩
      rw [hcode]
      exact not_denialCode_none
    refine ⟨fun hcode => ⟨raised, hraised, hkind hcode⟩, ?_⟩
    intro e he hother hcode
    have heq : raised = e := by
      rw [hraised] at he
      exact Except.error.inj he
    exact hother (heq ▸ hkind hcode)

end Failures

section Example

theorem exampleWriter_database : isIdentifier "db".toList = true := by decide

def exampleWriter : ClickHouseInsertSession :=
  { connection :=
      { host := "h".toList
        database := "db".toList
        host_nonempty := List.cons_ne_nil _ _
        database_valid := exampleWriter_database
        username_nonempty := defaultUsername_nonempty
        port_bounds := defaultPort_bounds }
    limits := {}
    database := "db".toList
    table := "t".toList
    insertMode := .sync
    client := true }

theorem exampleTable_rows : ∀ row ∈ ([] : List (List ArrowValue)), row.length = 0 := by simp

def exampleInsert : Batch := ⟨⟨[], [], 0, exampleTable_rows⟩, 0, 0⟩

def brokenServer (message : String) : InsertServer where
  getClient := none
  insertArrow := fun _ _ => some (.error none message.toList)
  closeClient := none
  newQueryId := fun _ => "q".toList

theorem reset_connection_ambiguous :
    ∃ e, (exampleWriter.insert (brokenServer "connection reset") [] exampleInsert).2 = .error e ∧
      e.kind = .ambiguousWrite :=
  ((definite_failure_coded_iff rfl rfl).mpr fun _ => by decide).1 rfl

/-- A lost connection whose message has none of the words is reported as a rejection. -/
theorem broken_pipe_rejected :
    (brokenServer "[errno 32] broken pipe").insertArrow []
        (exampleWriter.request (brokenServer "[errno 32] broken pipe") [] exampleInsert) =
      some (.error none "[errno 32] broken pipe".toList) ∧
    (exampleWriter.insert (brokenServer "[errno 32] broken pipe") [] exampleInsert).2 =
      .error ⟨.write, "ClickHouse rejected an Arrow insert batch", []⟩ := by
  refine ⟨rfl, ?_⟩
  rw [insert_snd_of_error rfl rfl]
  decide +kernel

end Example

end ClickHouseInsertSession

end RayClickHouse.InsertSession
