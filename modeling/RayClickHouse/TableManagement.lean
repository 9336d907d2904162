import RayClickHouse.Ddl

/-!
The protocol of table management: which commands are sent, how every exit of the
destructive sequence is classified, and that the client is closed.
-/
namespace RayClickHouse.Ddl

open Text

structure Protocol (server : TableServer) (mode : WriteMode) (statement : CreateTable)
    (run : ManagementRun) : Prop where
  /-- At most one DROP, then at most one CREATE. -/
  order : run.commands = [] ∨ run.commands = [.drop] ∨ run.commands = [.create statement] ∨
    run.commands = [.drop, .create statement]
  dropped : Command.drop ∈ run.commands →
    mode = .overwrite ∧ ∃ count, server.tableCount = .ok (some count) ∧ count ≠ 0
  confirmed : run.result = .ok () ↔
    Command.create statement ∈ run.commands ∧ server.create = none
  classified : ∀ failure, run.result = .error failure →
    (failure.kind = .ambiguousTableManagement ↔ Command.drop ∈ run.commands)

/-- A client error is never reported as an ambiguous replacement. -/
theorem translate_kind (code : Option ℤ) (message : Text) (operation : String) :
    (Discovery.translate code message operation).kind ≠ .ambiguousTableManagement := by
  unfold Discovery.translate
  split_ifs <;> simp

section Manage

variable {server : TableServer} {mode : WriteMode} {table : QualifiedTable}
  {statement : CreateTable} {store : Option StoredTable}

theorem managementFailure_kind (dropStarted : Bool) (operation : String) (e : ClientError) :
    (managementFailure table dropStarted operation e).kind = .ambiguousTableManagement ↔
      dropStarted = true := by
  unfold managementFailure
  cases dropStarted with
  | true => simp [ambiguous]
  | false => simpa using translate_kind e.code e.message s!"{operation} table"

theorem createTable_commands (dropStarted : Bool) (events : List ManagementEvent) :
    (createTable server mode table statement dropStarted events store).commands =
      events.filterMap ManagementEvent.command? ++ [.create statement] := by
  unfold createTable ManagementRun.commands
  rw [List.filterMap_append]
  rfl

/-- A creation succeeds exactly when the server confirms it. -/
theorem createTable_result (dropStarted : Bool) (events : List ManagementEvent) :
    (createTable server mode table statement dropStarted events store).result =
      match server.create with
      | none => .ok ()
      | some e => .error (managementFailure table dropStarted (WriteMode.text mode) e) := by
  unfold createTable send
  cases server.create with
  | none => rfl
  | some e => rfl

/-- The last command keeps the protocol, whether or not a DROP came before it. -/
theorem createTable_protocol {dropStarted : Bool} {events : List ManagementEvent}
    (hevents : events.filterMap ManagementEvent.command? = if dropStarted then [.drop] else [])
    (hdropped : dropStarted = true →
      mode = .overwrite ∧ ∃ count, server.tableCount = .ok (some count) ∧ count ≠ 0) :
    Protocol server mode statement
      (createTable server mode table statement dropStarted events store) := by
  have hcommands : (createTable server mode table statement dropStarted events store).commands =
      (if dropStarted then [.drop] else []) ++ [.create statement] := by
    rw [createTable_commands, hevents]
  have hmem : Command.drop ∈
      (createTable server mode table statement dropStarted events store).commands ↔
        dropStarted = true := by
    rw [hcommands]
    cases dropStarted <;> simp
  refine ⟨?_, fun h => hdropped (hmem.mp h), ?_, ?_⟩
  · rw [hcommands]
    cases dropStarted <;> simp
  · rw [hcommands, createTable_result]
    cases server.create with
    | none => simp
    | some e => simp
  · intro failure hfailure
    rw [createTable_result] at hfailure
    rw [hmem]
    cases hc : server.create with
    | none => simp [hc] at hfailure
    | some e =>
      simp only [hc, Except.error.injEq] at hfailure
      rw [← hfailure]
      exact managementFailure_kind dropStarted (WriteMode.text mode) e

theorem dropAndCreate_protocol {events : List ManagementEvent}
    (hevents : events.filterMap ManagementEvent.command? = []) (hmode : mode = .overwrite)
    (hcount : ∃ count, server.tableCount = .ok (some count) ∧ count ≠ 0) :
    Protocol server mode statement
      (dropAndCreate server mode table statement events store) := by
  have hsent : (events ++ [ManagementEvent.sent .drop]).filterMap ManagementEvent.command? =
      [.drop] := by
    rw [List.filterMap_append, hevents]
    rfl
  unfold dropAndCreate send
  cases server.drop with
  | none => exact createTable_protocol (by simpa using hsent) fun _ => ⟨hmode, hcount⟩
  | some e =>
    refine ⟨.inr (.inl hsent), fun _ => ⟨hmode, hcount⟩, ?_, ?_⟩
    · simp only [ManagementRun.commands, hsent]
      simp
    · intro failure hfailure
      simp only [Except.error.injEq] at hfailure
      rw [← hfailure]
      simp only [ManagementRun.commands, hsent, managementFailure_kind, List.mem_singleton]

/-- A run that ends before its first command. -/
theorem Protocol.of_failure {events : List ManagementEvent} {failure : Failure}
    (hevents : events.filterMap ManagementEvent.command? = [])
    (hkind : failure.kind ≠ .ambiguousTableManagement) :
    Protocol server mode statement ⟨store, events, .error failure⟩ := by
  refine ⟨.inl hevents, ?_, ?_, ?_⟩
  · simp [ManagementRun.commands, hevents]
  · simp [ManagementRun.commands, hevents]
  · intro other hother
    simp only [Except.error.injEq] at hother
    rw [← hother]
    simp [ManagementRun.commands, hevents, hkind]

theorem manage_protocol :
    Protocol server mode statement (manage server mode table statement store) := by
  unfold manage
  cases hcount : server.tableCount with
  | error e =>
    refine Protocol.of_failure rfl ?_
    rw [ne_eq, managementFailure_kind]
    simp
  | ok count =>
    simp only [decide_eq_true_eq]
    split_ifs with hcreate hoverwrite
    · exact Protocol.of_failure rfl (by simp)
    · refine dropAndCreate_protocol rfl hoverwrite.1 ?_
      cases count with
      | none => exact absurd rfl hoverwrite.2
      | some n => exact ⟨n, hcount, hoverwrite.2⟩
    · exact createTable_protocol rfl (by simp)

/-- A failure to close is swallowed. -/
theorem closeManagement_eq (run : ManagementRun) :
    closeManagement server run = ⟨run.store, run.events ++ [.closed], run.result⟩ := by
  unfold closeManagement
  cases server.closeManagement <;> rfl

/-- Closing the client changes neither the commands nor the result. -/
theorem closeManagement_protocol {run : ManagementRun}
    (h : Protocol server mode statement run) :
    Protocol server mode statement (closeManagement server run) := by
  have hcommands : (closeManagement server run).commands = run.commands := by
    simp [closeManagement_eq, ManagementRun.commands, ManagementEvent.command?]
  have hresult : (closeManagement server run).result = run.result := by
    rw [closeManagement_eq]
  refine ⟨?_, ?_, ?_, ?_⟩
  · rw [hcommands]
    exact h.order
  · rw [hcommands]
    exact h.dropped
  · rw [hcommands, hresult]
    exact h.confirmed
  · rw [hcommands, hresult]
    exact h.classified

theorem dropAndCreate_events (events : List ManagementEvent) :
    ∃ commands : List Command, (dropAndCreate server mode table statement events store).events =
      events ++ commands.map ManagementEvent.sent := by
  unfold dropAndCreate send
  cases server.drop with
  | none =>
    refine ⟨[.drop, .create statement], ?_⟩
    simp [createTable]
  | some e => exact ⟨[.drop], rfl⟩

/-- Between its opening and its closing a client only counts and sends. -/
theorem manage_events (server : TableServer) (mode : WriteMode) (table : QualifiedTable)
    (statement : CreateTable) (store : Option StoredTable) :
    ∃ commands : List Command, (manage server mode table statement store).events =
      .opened :: .counted :: commands.map ManagementEvent.sent := by
  unfold manage
  cases server.tableCount with
  | error e => exact ⟨[], rfl⟩
  | ok count =>
    simp only
    split_ifs
    · exact ⟨[], rfl⟩
    · exact dropAndCreate_events _
    · exact ⟨[.create statement], rfl⟩

variable {schema : ArrowSchema} {engine : Text} {orderBy nullableColumns : Option (List Text)}

theorem createOrReplaceTable_of_error {failure : Failure}
    (h : checkedStatement mode table schema engine orderBy nullableColumns = .error failure) :
    createOrReplaceTable server mode table schema engine orderBy nullableColumns store =
      ⟨store, [], .error failure⟩ := by
  unfold createOrReplaceTable
  rw [h]

theorem createOrReplaceTable_of_open
    (h : checkedStatement mode table schema engine orderBy nullableColumns = .ok statement)
    (hopen : server.openManagement = none) :
    createOrReplaceTable server mode table schema engine orderBy nullableColumns store =
      closeManagement server (manage server mode table statement store) := by
  unfold createOrReplaceTable
  rw [h, hopen]

theorem createOrReplaceTable_of_closed {e : ClientError}
    (h : checkedStatement mode table schema engine orderBy nullableColumns = .ok statement)
    (hopen : server.openManagement = some e) :
    createOrReplaceTable server mode table schema engine orderBy nullableColumns store =
      ⟨store, [], .error (Discovery.translate e.code e.message "client initialization")⟩ := by
  unfold createOrReplaceTable
  rw [h, hopen]

theorem createOrReplaceTable_protocol
    (h : checkedStatement mode table schema engine orderBy nullableColumns = .ok statement) :
    Protocol server mode statement
      (createOrReplaceTable server mode table schema engine orderBy nullableColumns store) := by
  cases hopen : server.openManagement with
  | none =>
    rw [createOrReplaceTable_of_open h hopen]
    exact closeManagement_protocol manage_protocol
  | some e =>
    rw [createOrReplaceTable_of_closed h hopen]
    exact Protocol.of_failure rfl (translate_kind e.code e.message "client initialization")

/-- The client is closed once, as the last event, if it was opened at all. -/
theorem createOrReplaceTable_closed
    (h : checkedStatement mode table schema engine orderBy nullableColumns = .ok statement) :
    (server.openManagement = none → ∃ commands : List Command,
      (createOrReplaceTable server mode table schema engine orderBy nullableColumns store).events =
        [.opened, .counted] ++ commands.map ManagementEvent.sent ++ [.closed]) ∧
    (server.openManagement ≠ none →
      (createOrReplaceTable server mode table schema engine orderBy nullableColumns store).events =
        []) := by
  constructor
  · intro hopen
    obtain ⟨commands, hcommands⟩ := manage_events server mode table statement store
    refine ⟨commands, ?_⟩
    rw [createOrReplaceTable_of_open h hopen, closeManagement_eq, hcommands]
    rfl
  · intro hopen
    obtain ⟨e, he⟩ := Option.ne_none_iff_exists'.mp hopen
    rw [createOrReplaceTable_of_closed h he]

theorem createOrReplaceTable_ignores_close (answer : Option ClientError) :
    createOrReplaceTable { server with closeManagement := answer } mode table schema engine orderBy
        nullableColumns store =
      createOrReplaceTable server mode table schema engine orderBy nullableColumns store := by
  cases h : checkedStatement mode table schema engine orderBy nullableColumns with
  | error failure =>
    rw [createOrReplaceTable_of_error h, createOrReplaceTable_of_error h]
  | ok statement =>
    unfold createOrReplaceTable
    rw [h]
    simp only [closeManagement_eq]
    rfl

end Manage

/-- Table management sends at most one DROP, then at most one CREATE, classifies every
failure after the DROP as ambiguous and no other, and closes the client it opened. -/
theorem table_management_protocol (server : TableServer) (mode : WriteMode)
    (table : QualifiedTable) (schema : ArrowSchema) (engine : Text)
    (orderBy nullableColumns : Option (List Text)) (store : Option StoredTable) :
    let run := createOrReplaceTable server mode table schema engine orderBy nullableColumns store
    (∀ failure, checkedStatement mode table schema engine orderBy nullableColumns = .error failure →
      run = ⟨store, [], .error failure⟩) ∧
    (∀ statement,
      checkedStatement mode table schema engine orderBy nullableColumns = .ok statement →
        Protocol server mode statement run ∧
        (server.openManagement = none → ∃ commands : List Command,
          run.events = [.opened, .counted] ++ commands.map ManagementEvent.sent ++ [.closed]) ∧
        (server.openManagement ≠ none → run.events = [])) ∧
    (∀ answer, createOrReplaceTable { server with closeManagement := answer } mode table schema
      engine orderBy nullableColumns store = run) := by
  refine ⟨fun _ h => createOrReplaceTable_of_error h, fun _ h => ?_, fun answer => ?_⟩
  · exact ⟨createOrReplaceTable_protocol h, createOrReplaceTable_closed h⟩
  · exact createOrReplaceTable_ignores_close answer

end RayClickHouse.Ddl
