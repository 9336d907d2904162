import RayClickHouse.CreatedTarget

/-!
What a failing overwrite leaves of the old table. The checks before the DROP cover
the statement only; those of the selection and of the declared types come after the
table was replaced.
-/
namespace RayClickHouse.Datasink

open Text TypeText Schema Ddl Discovery

section Managed

variable {server : TableServer} {table : QualifiedTable} {schema : ArrowSchema} {engine : Text}
  {orderBy nullableColumns : Option (List Text)} {statement : CreateTable}
  {store : Option StoredTable}

/-- A CREATE leaves an existing table as it is. -/
theorem createTable_store {mode : WriteMode} {dropStarted : Bool} {events : List ManagementEvent}
    {old : StoredTable} :
    (createTable server mode table statement dropStarted events (some old)).store = some old := by
  unfold createTable send
  cases server.create with
  | none => rfl
  | some e =>
    simp only
    split
    · rfl
    · rfl

/-- Without a DROP the old table stays. -/
theorem manage_store {mode : WriteMode} {old : StoredTable}
    (h : Command.drop ∉ (manage server mode table statement (some old)).commands) :
    (manage server mode table statement (some old)).store = some old := by
  unfold manage at h ⊢
  cases hcount : server.tableCount with
  | error e => rfl
  | ok count =>
    rw [hcount] at h
    simp only at h ⊢
    split_ifs at h ⊢ with hcreate hoverwrite
    · rfl
    · exfalso
      apply h
      unfold dropAndCreate send
      cases server.drop with
      | none =>
        rw [createTable_commands]
        simp [ManagementEvent.command?]
      | some e => simp [ManagementRun.commands, ManagementEvent.command?]
    · exact createTable_store

/-- A table that is found is dropped; when both commands are confirmed the declared table
is there instead. -/
theorem manage_found {count : ℤ} (hcount : server.tableCount = .ok (some count))
    (hne : count ≠ 0) :
    Command.drop ∈ (manage server .overwrite table statement store).commands ∧
      ((manage server .overwrite table statement store).result = .ok () ↔
        server.drop = none ∧ server.create = none) ∧
      ((manage server .overwrite table statement store).result = .ok () →
        (manage server .overwrite table statement store).store =
          some ⟨statement.engine, statement.columns, []⟩) := by
  have hmanage : manage server .overwrite table statement store =
      dropAndCreate server .overwrite table statement [.opened, .counted] store := by
    unfold manage
    rw [hcount]
    simp only
    rw [if_neg (by simp), if_pos (by simp [hne])]
  rw [hmanage]
  unfold dropAndCreate send
  cases server.drop with
  | some e => simp [ManagementRun.commands, ManagementEvent.command?]
  | none =>
    simp only
    rw [createTable_commands, createTable_result]
    refine ⟨by simp [ManagementEvent.command?], ?_⟩
    cases hcreate : server.create with
    | some e => simp
    | none =>
      refine ⟨by simp, fun _ => ?_⟩
      unfold createTable send
      rw [hcreate]
      rfl

end Managed

section Start

variable (sink : ClickHouseDataSink) (server : TableServer) (schema : ArrowSchema)
  (store : Option StoredTable)

def ClickHouseDataSink.management : ManagementRun :=
  createOrReplaceTable server sink.writeMode sink.table schema sink.engine sink.orderBy
    sink.nullableColumns store

/-- The management without a DROP, and the management of a table that is found. -/
theorem management_cases (hmode : sink.writeMode = .overwrite) :
    (¬ Replaces sink server schema ∧
      Command.drop ∉ (sink.management server schema store).commands ∧
      ∀ old, store = some old → (sink.management server schema store).store = some old) ∨
    ∃ statement, sink.statement schema = .ok statement ∧ Replaces sink server schema ∧
      Command.drop ∈ (sink.management server schema store).commands ∧
      ((sink.management server schema store).result = .ok () ↔
        server.drop = none ∧ server.create = none) ∧
      ((sink.management server schema store).result = .ok () →
        (sink.management server schema store).store =
          some ⟨statement.engine, statement.columns, []⟩) := by
  have hunsent : ∀ failure, sink.management server schema store = ⟨store, [], .error failure⟩ →
      Command.drop ∉ (sink.management server schema store).commands ∧
        ∀ old, store = some old → (sink.management server schema store).store = some old := by
    intro failure hrun
    rw [hrun]
    exact ⟨List.not_mem_nil, fun _ hold => hold⟩
  cases hstatement : sink.statement schema with
  | error failure =>
    left
    refine ⟨?_, hunsent failure (createOrReplaceTable_of_error hstatement)⟩
    rintro ⟨⟨statement, hok⟩, -, -⟩
    rw [hstatement] at hok
    contradiction
  | ok statement =>
    cases hopen : server.openManagement with
    | some e =>
      left
      refine ⟨?_, hunsent _ (createOrReplaceTable_of_closed hstatement hopen)⟩
      rintro ⟨-, hnone, -⟩
      rw [hopen] at hnone
      contradiction
    | none =>
      have hrun : sink.management server schema store =
          closeManagement server (manage server sink.writeMode sink.table statement store) :=
        createOrReplaceTable_of_open hstatement hopen
      have hcommands : (sink.management server schema store).commands =
          (manage server sink.writeMode sink.table statement store).commands := by
        rw [hrun, closeManagement_eq]
        simp [ManagementRun.commands, ManagementEvent.command?]
      have hkept : (sink.management server schema store).store =
          (manage server sink.writeMode sink.table statement store).store ∧
          (sink.management server schema store).result =
            (manage server sink.writeMode sink.table statement store).result := by
        rw [hrun, closeManagement_eq]
        exact ⟨rfl, rfl⟩
      rw [hcommands, hkept.1, hkept.2]
      by_cases hfound : ∃ count, server.tableCount = .ok (some count) ∧ count ≠ 0
      · right
        obtain ⟨count, hcount, hne⟩ := hfound
        rw [hmode]
        exact ⟨statement, rfl, ⟨⟨statement, hstatement⟩, hopen, count, hcount, hne⟩,
          manage_found hcount hne⟩
      · left
        have hdrop : Command.drop ∉
            (manage server sink.writeMode sink.table statement store).commands := by
          intro hmem
          exact hfound (manage_protocol.dropped hmem).2
        refine ⟨fun h => hfound h.2.2, hdrop, ?_⟩
        rintro old rfl
        exact manage_store hdrop

variable [UnicodeDatabase]

theorem onWriteStart_overwrite (hmode : sink.writeMode = .overwrite) :
    sink.onWriteStart server (some schema) store =
      match (sink.management server schema store).result with
      | .error failure => ⟨sink, (sink.management server schema store).store,
          (sink.management server schema store).commands, .error failure⟩
      | .ok () =>
          ⟨(sink.planTarget server (some schema) (sink.management server schema store).store).1,
            (sink.management server schema store).store,
            (sink.management server schema store).commands,
            (sink.planTarget server (some schema) (sink.management server schema store).store).2⟩ := by
  unfold ClickHouseDataSink.onWriteStart
  simp only [hmode, reduceCtorEq, if_false]
  unfold ClickHouseDataSink.management
  rewrite [hmode]
  rfl

theorem onWriteStart_commands (hmode : sink.writeMode = .overwrite) :
    (sink.onWriteStart server (some schema) store).commands =
      (sink.management server schema store).commands ∧
    (sink.onWriteStart server (some schema) store).store =
      (sink.management server schema store).store := by
  rw [onWriteStart_overwrite sink server schema store hmode]
  split
  · exact ⟨rfl, rfl⟩
  · exact ⟨rfl, rfl⟩

/-- A failing overwrite never silently loses the old table exactly when, wherever a table
is replaced, everything in the arguments is acceptable and the discovery that follows a
confirmed replacement is answered. -/
theorem keepsOldTable_iff (hmode : sink.writeMode = .overwrite) :
    KeepsOldTable sink server schema store ↔
      (Replaces sink server schema → FullyAcceptable sink schema ∧
        (server.drop = none → server.create = none → Discoverable server)) := by
  obtain ⟨hcommands, hstore⟩ := onWriteStart_commands sink server schema store hmode
  unfold KeepsOldTable
  simp only [hcommands, hstore]
  rcases management_cases sink server schema store hmode with
    ⟨hnot, hdrop, hold⟩ | ⟨statement, hstatement, hreplaces, hdrop, hresult, hcreated⟩
  · refine iff_of_true ⟨fun _ _ _ => ⟨hdrop, hold⟩, fun h => absurd h hdrop⟩ ?_
    exact fun h => absurd h hnot
  · have hchecked : (∀ other, sink.statement schema = .ok other →
        sink.checkDeclared schema other = .ok ()) ↔ FullyAcceptable sink schema := by
      have hanswering : Discoverable answeringServer := ⟨rfl, rfl, rfl, rfl⟩
      have hplan : sink.checkDeclared schema statement = .ok () ↔
          Discoverable answeringServer ∧ FullyAcceptable sink schema :=
        planTarget_created hstatement
      constructor
      · intro hall
        exact (hplan.mp (hall statement hstatement)).2
      · intro hfull other hother
        obtain rfl : statement = other := Except.ok.inj (hstatement.symm.trans hother)
        exact hplan.mpr ⟨hanswering, hfull⟩
    have hprotocol : Protocol server sink.writeMode statement
        (sink.management server schema store) := createOrReplaceTable_protocol hstatement
    have hplanned : server.drop = none → server.create = none →
        (sink.onWriteStart server (some schema) store).result =
          (sink.planTarget server (some schema)
            (some ⟨statement.engine, statement.columns, []⟩)).2 := by
      intro hnodrop hnocreate
      have hok := hresult.mpr ⟨hnodrop, hnocreate⟩
      rw [onWriteStart_overwrite sink server schema store hmode, hok, hcreated hok]
    constructor
    · rintro ⟨hsafe, hchecks⟩ -
      have hfull := hchecked.mp (hchecks hdrop)
      refine ⟨hfull, fun hnodrop hnocreate => ?_⟩
      by_contra hdiscoverable
      obtain ⟨hengine, declarations, order, hcreation⟩ := checkedStatement_creation hstatement
      rw [← hcreation.engine_eq] at hengine
      obtain ⟨failure, hfailure, hkind⟩ := discoverTarget_unanswered sink.table
        ⟨statement.engine, statement.columns, []⟩ hdiscoverable hengine
      refine (hsafe failure ?_ hkind).1 hdrop
      rw [hplanned hnodrop hnocreate]
      unfold ClickHouseDataSink.planTarget
      rw [hfailure]
    · intro hcondition
      obtain ⟨hfull, hanswered⟩ := hcondition hreplaces
      refine ⟨?_, fun _ => hchecked.mpr hfull⟩
      intro failure hfailure hkind
      exfalso
      cases hmanaged : (sink.management server schema store).result with
      | error earlier =>
        rw [onWriteStart_overwrite sink server schema store hmode, hmanaged] at hfailure
        rw [← Except.error.inj hfailure] at hkind
        exact hkind ((hprotocol.classified earlier hmanaged).mpr hdrop)
      | ok u =>
        obtain ⟨hnodrop, hnocreate⟩ := hresult.mp hmanaged
        rw [hplanned hnodrop hnocreate,
          (planTarget_created hstatement).mpr ⟨hanswered hnodrop hnocreate, hfull⟩] at hfailure
        contradiction

end Start

section Example

theorem eventsHost_nonempty : "node".toList ≠ [] := by decide

def eventsSink (columns : Option (List Text)) : ClickHouseDataSink where
  connection :=
    { host := "node".toList
      database := "analytics".toList
      host_nonempty := eventsHost_nonempty
      database_valid := eventsTable_database
      username_nonempty := defaultUsername_nonempty
      port_bounds := defaultPort_bounds }
  table := eventsTable
  writeMode := .overwrite
  columns := columns
  limits :=
    { batchRows_bounds := defaultBatchRows_bounds
      batchBytes_bounds := defaultBatchBytes_bounds
      queryTimeout_bounds := defaultQueryTimeout_bounds }

def tagsColumns : List (Text × Text) :=
  [("id".toList, "UInt64".toList), ("tags".toList, "Array(Int8)".toList)]

theorem eventsSink_statement (columns : Option (List Text)) :
    ∃ sql, (eventsSink columns).statement tagsSchema =
      .ok ⟨tagsColumns, "MergeTree".toList, sql⟩ := by
  have hcheck : Outcome.check (checkedStatement .overwrite eventsTable tagsSchema
      "MergeTree".toList none none) (fun statement => decide (statement.columns = tagsColumns ∧
        statement.engine = "MergeTree".toList)) = true := by
    decide +kernel
  obtain ⟨⟨columns, engine, sql⟩, h, htest⟩ := Outcome.check_eq_true.mp hcheck
  obtain ⟨rfl, rfl⟩ := of_decide_eq_true htest
  exact ⟨sql, h⟩

def oldTable : StoredTable := ⟨"MergeTree".toList, [("id".toList, "UInt64".toList)], [[.null]]⟩

/-- Without a selection the overwrite of the table of tags is safe. -/
theorem eventsSink_keeps : @KeepsOldTable asciiDatabase (eventsSink none) answeringServer tagsSchema
    (some oldTable) := by
  refine (@keepsOldTable_iff (eventsSink none) answeringServer tagsSchema (some oldTable)
    asciiDatabase rfl).mpr fun _ => ⟨⟨by decide, ⟨none, rfl, fun _ => Iff.rfl⟩, by decide⟩, ?_⟩
  exact fun _ _ => ⟨rfl, rfl, rfl, rfl⟩

theorem tagsColumns_solid : ∀ column ∈ tagsColumns, Solid column.2 := by
  intro column hcolumn
  rcases List.mem_cons.mp hcolumn with rfl | hcolumn
  · refine ⟨fun c hc => ?_, fun c hc => ?_⟩
    · rw [← Option.some.inj hc]
      rfl
    · rw [← Option.some.inj hc]
      rfl
  · rw [List.mem_singleton.mp hcolumn]
    refine ⟨fun c hc => ?_, fun c hc => ?_⟩
    · rw [← Option.some.inj hc]
      rfl
    · rw [← Option.some.inj hc]
      rfl

/-- A new table that needs both columns rejects the selection of one. -/
theorem partial_selection_rejected : ∃ failure,
    @validateSourceSchema asciiDatabase tagsSchema ⟨"analytics".toList, "events".toList,
      "MergeTree".toList, reportedTarget tagsColumns⟩ (some ["id".toList]) = .error failure ∧
      failure.kind = .schema := by
  have hcheck : Outcome.checkFailure (@validateSourceSchema asciiDatabase tagsSchema
      ⟨"analytics".toList, "events".toList, "MergeTree".toList, reportedTarget tagsColumns⟩
      (some ["id".toList])) (fun failure => decide (failure.kind = .schema)) = true := by
    decide +kernel
  obtain ⟨failure, hfailure, hkind⟩ := Outcome.checkFailure_eq_true.mp hcheck
  exact ⟨failure, hfailure, of_decide_eq_true hkind⟩

/-- The plan for the selection of one column fails on the new table. -/
theorem partial_plan : ∃ failure,
    (@ClickHouseDataSink.planTarget asciiDatabase (eventsSink (some ["id".toList])) answeringServer
      (some tagsSchema) (some ⟨"MergeTree".toList, tagsColumns, []⟩)).2 = .error failure ∧
      failure.kind = .schema := by
  have hanswering : Discoverable answeringServer := ⟨rfl, rfl, rfl, rfl⟩
  have hdiscover := discoverTarget_answered eventsTable ⟨"MergeTree".toList, tagsColumns, []⟩
    hanswering (by decide) (List.cons_ne_nil _ _) tagsColumns_solid
  rw [if_pos (by decide)] at hdiscover
  obtain ⟨failure, hfailure, hkind⟩ := partial_selection_rejected
  exact ⟨failure, @planTarget_rejected _ _ asciiDatabase (eventsSink (some ["id".toList])) _ _ _
    hdiscover hfailure, hkind⟩

/-- A selection of one of the two columns: the table is dropped and replaced before the
selection is found to leave out a column of the new table. -/
theorem partial_selection_drops : ¬ ∀ (sink : ClickHouseDataSink) (server : TableServer)
    (schema : ArrowSchema) (store : Option StoredTable), sink.writeMode = .overwrite →
    @KeepsOldTable asciiDatabase sink server schema store := by
  intro hclaim
  have hkeeps := hclaim (eventsSink (some ["id".toList])) answeringServer tagsSchema
    (some oldTable) rfl
  obtain ⟨sql, hstatement⟩ := eventsSink_statement (some ["id".toList])
  have hreplaces : Replaces (eventsSink (some ["id".toList])) answeringServer tagsSchema :=
    ⟨⟨_, hstatement⟩, rfl, 1, rfl, by decide⟩
  rcases management_cases (eventsSink (some ["id".toList])) answeringServer tagsSchema
    (some oldTable) rfl with ⟨hnot, -⟩ | ⟨statement, hsame, -, hdrop, hresult, hcreated⟩
  · exact hnot hreplaces
  · have hok := hresult.mpr ⟨rfl, rfl⟩
    have hrun := @onWriteStart_overwrite (eventsSink (some ["id".toList])) answeringServer tagsSchema
      (some oldTable) asciiDatabase rfl
    rw [hok, hcreated hok] at hrun
    obtain rfl := Except.ok.inj (hsame.symm.trans hstatement)
    obtain ⟨failure, hplan, hkind⟩ := partial_plan
    refine (hkeeps.1 failure ?_ ?_).1 ?_
    · rw [hrun]
      exact hplan
    · rw [hkind]
      decide
    · rw [hrun]
      exact hdrop

end Example

end RayClickHouse.Datasink
