import RayClickHouse.QueryHeads
import RayClickHouse.QueryReads

/-!
Whole runs of a query source. Every statement of a run only reads: its settings say
so, and between its head and its tail stands the code of one reading statement, unless
a type that the server describes leaves a quote or a comment open in the head. The
calls fail until one of them discovers the schema; from then on all of them succeed
with that schema, and every block that a task hands over has it.
-/
namespace RayClickHouse.QueryReads

open Text Lexical Sql Schema Discovery Metadata Query Batches Streaming

section Statements

variable [UnicodeDatabase] {node : QueryNode} {config : QueryReadConfig}

inductive Frame : List TargetColumn → Text → Text → Prop
  | describe : Frame [] describeHead describeTail
  | probe {columns : List TargetColumn} {projection : Text}
      (hnames : ∀ column ∈ columns, isIdentifier column.name = true)
      (hprojection : renderReadProjection columns = .ok projection) :
      Frame columns (selectHead projection) probeTail
  | read {columns : List TargetColumn} {projection : Text}
      (hnames : ∀ column ∈ columns, isIdentifier column.name = true)
      (hprojection : renderReadProjection columns = .ok projection) :
      Frame columns (selectHead projection) selectTail

section Frames

omit [UnicodeDatabase]

variable {columns : List TargetColumn} {head tail : Text}

theorem Frame.plain (h : Frame columns head tail) : tail.all isPlain = true := by
  cases h with
  | describe => exact describeTail_plain
  | probe => exact probeTail_plain
  | read => exact selectTail_plain

/-- The types that a head casts to decide whether it has a mask. -/
theorem Frame.masked (h : Frame columns head tail)
    (hcasts : ∀ column ∈ columns, CastTerminated column) :
    ∃ headCode, queryCode head = .ok headCode := by
  cases h with
  | describe => exact ⟨describeHead, queryCode_plain describeHead_plain⟩
  | probe hnames hprojection =>
    exact (terminated_selectHead hnames hcasts hprojection).queryCode
  | read hnames hprojection =>
    exact (terminated_selectHead hnames hcasts hprojection).queryCode

end Frames

/-- A statement that reads the query of a configuration and nothing else. -/
structure Reads (config : QueryReadConfig) (statement : Statement) : Prop where
  readonly : statement.settings.get? readonlyName = some (.int 1)
  parameters : statement.parameters = dictOf config.queryParameters
  text : ∃ columns head tail code, Frame columns head tail ∧
    statement.sql = wrapped head config.querySql tail ∧
    queryCode config.querySql = .ok code ∧ ReadCode code ∧
    ((∀ column ∈ columns, CastTerminated column) →
      ∃ headCode, queryCode head = .ok headCode ∧
        queryCode statement.sql = .ok (wrapped headCode code tail))

theorem reads_wrapped {columns : List TargetColumn} {head tail : Text} {settings : Bindings}
    (hframe : Frame columns head tail)
    (hsettings : settings.get? readonlyName = some (.int 1)) :
    Reads config ⟨wrapped head config.querySql tail, dictOf config.queryParameters, settings⟩ := by
  obtain ⟨code, hcode, hreading⟩ := config.reading
  refine ⟨hsettings, rfl, columns, head, tail, code, hframe, rfl, hcode, hreading, ?_⟩
  intro hcasts
  obtain ⟨headCode, hhead⟩ := hframe.masked hcasts
  exact ⟨headCode, hhead, queryCode_wrapped hhead hcode hframe.plain⟩

omit [UnicodeDatabase] in
/-- Another setting leaves the one for reading as it is. -/
theorem get?_readonly_set {settings : Bindings} {name : Text} (value : Value)
    (hname : name ≠ readonlyName) (h : settings.get? readonlyName = some (.int 1)) :
    (settings.set name value).get? readonlyName = some (.int 1) := by
  rw [Bindings.get?_set, if_neg hname.symm]
  exact h

theorem querySettings_readonly (config : QueryReadConfig) :
    (querySettings config.connection config.limits).get? readonlyName = some (.int 1) :=
  get?_readonly_set _ (by decide) (get?_readonly_set _ (by decide) config.readonly.get?_dictOf)

theorem describeStatement_reads (node : QueryNode) (config : QueryReadConfig) :
    Reads config (describeStatement node config) := by
  apply reads_wrapped .describe
  apply get?_readonly_set _ (by decide)
  rw [Bindings.get?_set, if_pos rfl]

theorem probeStatement_reads (node : QueryNode) {columns : List TargetColumn} {projection : Text}
    (hnames : ∀ column ∈ columns, isIdentifier column.name = true)
    (hprojection : renderReadProjection columns = .ok projection) :
    Reads config (probeStatement node config projection) := by
  apply reads_wrapped (.probe hnames hprojection)
  exact get?_readonly_set _ (by decide) (describeStatement_reads node config).readonly

theorem taskStatement_reads (task : QueryTask) {columns : List TargetColumn} {projection : Text}
    (hnames : ∀ column ∈ columns, isIdentifier column.name = true)
    (hprojection : renderReadProjection columns = .ok projection)
    (hsql : task.sql = wrapped (selectHead projection) task.config.querySql selectTail)
    (queryId : Text) : Reads task.config (task.statement queryId) := by
  unfold QueryTask.statement
  rw [hsql]
  apply reads_wrapped (.read hnames hprojection)
  apply get?_readonly_set _ (by decide)
  apply get?_readonly_set _ (by decide)
  split
  · exact get?_readonly_set _ (by decide) (querySettings_readonly task.config)
  · exact querySettings_readonly task.config

end Statements

section Plans

variable [UnicodeDatabase] {node : QueryNode} {config : QueryReadConfig} {plan : SchemaPlan}

structure ColumnAgrees (column : TargetColumn) (field : Field) : Prop where
  name : field.name = column.name
  type : arrowCompatible field.type column.declaredType = .ok true
  nullable : ∃ parsed, unwrap column.declaredType = .ok (parsed, field.nullable)

/-- The schema of a query: simple distinct names, declarations that fit the Arrow fields, and a
projection that can be rendered. -/
structure Agreed (plan : SchemaPlan) : Prop where
  columns : List.Forall₂ ColumnAgrees plan.columns plan.arrowSchema
  simple : ∀ column ∈ plan.columns, isIdentifier column.name = true
  distinct : (plan.columns.map TargetColumn.name).Nodup
  projection : ∃ projection, renderReadProjection plan.columns = .ok projection

theorem agree_eq_ok {column : TargetColumn} {field : Field} {u : Unit}
    (h : agree column field = .ok u) :
    arrowCompatible field.type column.declaredType = .ok true ∧
      ∃ parsed, unwrap column.declaredType = .ok (parsed, field.nullable) := by
  obtain ⟨⟨parsed, nullable⟩, hunwrap, h⟩ := Except.bind_eq_ok.mp h
  obtain ⟨compatible, hcompatible, h⟩ := Except.bind_eq_ok.mp h
  obtain ⟨hagree, -⟩ := passed_eq_ok.mp h
  rw [not_or, not_not, Bool.not_eq_true', Bool.not_eq_false] at hagree
  obtain ⟨rfl, hnullable⟩ := hagree
  rw [← hnullable] at hunwrap
  exact ⟨hcompatible, parsed, hunwrap⟩

omit [UnicodeDatabase] in
theorem parseDescribeRows_distinct {str : Cell → Text} {rows : List (List Cell)}
    {columns : List TargetColumn} (h : parseDescribeRows str rows = .ok columns) :
    (columns.map TargetColumn.name).Nodup := by
  obtain ⟨parsed, -, h⟩ := Except.bind_eq_ok.mp h
  obtain ⟨hpassed, h⟩ := passed_eq_ok.mp h
  obtain rfl := Except.ok.inj h
  rw [not_or, not_not] at hpassed
  have hperm := List.perm_insertionSort
    (fun a b : TargetColumn => a.position ≤ b.position) parsed
  exact (hperm.map TargetColumn.name).nodup_iff.mpr hpassed.2

theorem resultColumns_eq_ok {columns : List TargetColumn} {projection : Text}
    (h : resultColumns node config = .ok (columns, projection)) :
    (columns.map TargetColumn.name).Nodup ∧
      (∀ column ∈ columns, isIdentifier column.name = true) ∧
      renderReadProjection columns = .ok projection := by
  obtain ⟨rows, -, h⟩ := Except.bind_eq_ok.mp h
  obtain ⟨described, hdescribed, h⟩ := Except.bind_eq_ok.mp h
  split at h
  · rename_i hsimple
    obtain ⟨rendered, hrendered, h⟩ := Except.bind_eq_ok.mp h
    obtain ⟨rfl, rfl⟩ := Prod.mk.inj (Except.ok.inj h)
    exact ⟨parseDescribeRows_distinct hdescribed, List.all_eq_true.mp hsimple, hrendered⟩
  · simp [Outcome.raise] at h

theorem agreed_columns {columns : List TargetColumn} {fields : ArrowSchema} {agreed : List Unit}
    (hnames : fields.names = columns.map TargetColumn.name)
    (h : (columns.zip fields).mapM (fun p => agree p.1 p.2) = .ok agreed) :
    List.Forall₂ ColumnAgrees columns fields := by
  have hlength : columns.length = fields.length := by
    have hsame := congrArg List.length hnames
    simpa [ArrowSchema.names] using hsame.symm
  have hall := Except.mapM_eq_ok.mp h
  clear h
  induction columns generalizing fields agreed with
  | nil =>
    obtain rfl := List.length_eq_zero_iff.mp hlength.symm
    exact List.Forall₂.nil
  | cons column columns ih =>
    cases fields with
    | nil => simp at hlength
    | cons field fields =>
      cases hall with
      | cons hagree hrest =>
        obtain ⟨hname, hnames⟩ := List.cons.inj hnames
        obtain ⟨htype, hnullable⟩ := agree_eq_ok hagree
        refine List.Forall₂.cons ⟨hname, htype, hnullable⟩ (ih hnames ?_ hrest)
        simpa using hlength

theorem probedSchema_eq_ok {columns : List TargetColumn} {statement : Statement}
    (h : probedSchema node columns statement = .ok plan) :
    plan.columns = columns ∧ List.Forall₂ ColumnAgrees columns plan.arrowSchema := by
  obtain ⟨probe, -, h⟩ := Except.bind_eq_ok.mp h
  cases probe with
  | none => simp [Outcome.raise] at h
  | some arrowSchema =>
    obtain ⟨made, hmade, h⟩ := Except.bind_eq_ok.mp h
    obtain ⟨agreed, hagreed, h⟩ := Except.bind_eq_ok.mp h
    obtain rfl := Except.ok.inj h
    obtain ⟨hnames, hmade⟩ := passed_eq_ok.mp hmade
    obtain ⟨-, hmade⟩ := passed_eq_ok.mp hmade
    obtain rfl := Except.ok.inj hmade
    exact ⟨rfl, agreed_columns (not_not.mp hnames) hagreed⟩

/-- A discovery sends one or two reading statements, and a schema it returns is agreed on. -/
theorem discoverQuerySchema_spec (node : QueryNode) (config : QueryReadConfig) :
    (∀ plan, (discoverQuerySchema node config).1 = .ok plan → Agreed plan) ∧
      ∀ statement ∈ (discoverQuerySchema node config).2, Reads config statement := by
  unfold discoverQuerySchema
  cases node.opened with
  | some raised => simp
  | none =>
    simp only
    cases hcolumns : resultColumns node config with
    | error failure =>
      simp only
      refine ⟨fun plan h => ?_, fun statement h => ?_⟩
      · cases (closeOver_eq_ok.mp h).2
      · rw [List.mem_singleton.mp h]
        exact describeStatement_reads node config
    | ok found =>
      obtain ⟨columns, projection⟩ := found
      obtain ⟨hdistinct, hsimple, hprojection⟩ := resultColumns_eq_ok hcolumns
      simp only
      refine ⟨fun plan h => ?_, fun statement h => ?_⟩
      · obtain ⟨hplan, hagrees⟩ := probedSchema_eq_ok (closeOver_eq_ok.mp h).2
        rw [← hplan] at hdistinct hsimple hprojection hagrees
        exact ⟨hagrees, hsimple, hdistinct, projection, hprojection⟩
      · rcases List.mem_pair.mp h with rfl | rfl
        · exact describeStatement_reads node config
        · exact probeStatement_reads node hsimple hprojection

end Plans

section Runs

variable [UnicodeDatabase] {d : ClickHouseQueryDatasource} {config : QueryReadConfig}
variable {plan : SchemaPlan}

/-- What a read hands over has the planned schema, whatever the server does. -/
theorem read_planned (task : QueryTask) (nbytes : Batch → ℕ) (server : ReadServer) (pulls : ℕ) :
    ∀ block ∈ yieldedBlocks (task.read nbytes server pulls).2,
      StrictlyPlanned task.spec block.table := by
  intro block hblock
  have hvalidated : block.table ∈ validatedTables server task.spec server.batches := by
    cases pulls with
    | zero => exact absurd hblock List.not_mem_nil
    | succ pulls =>
      cases hclient : server.getClient with
      | none =>
        obtain ⟨-, hevents⟩ :=
          @run_streamQuery nbytes task.config.limits server task.spec hclient pulls
        have hread : (task.read nbytes server (pulls + 1)).2 =
            readEvents nbytes task.config.limits server task.spec pulls := hevents
        rw [hread] at hblock
        exact mem_yielded hblock
      | some raised =>
        have hread : (task.read nbytes server (pulls + 1)).2 = [] := by
          show ((streamQuery nbytes task.config.limits server task.spec).run pulls).2.2 = []
          unfold streamQuery
          rw [hclient]
          rfl
        rw [hread] at hblock
        exact absurd hblock List.not_mem_nil
  obtain ⟨item, -, hcanonical⟩ := mem_validatedTables hvalidated
  exact (strict_canonical rfl hcanonical).2

/-- A task that reads the query of a configuration in the schema of a plan. -/
structure TaskOf (config : QueryReadConfig) (plan : SchemaPlan) (task : QueryTask) : Prop where
  statement : ∀ queryId, Reads config (task.statement queryId)
  schema : task.arrowSchema = plan.arrowSchema
  blocks : ∀ nbytes server pulls, ∀ block ∈ yieldedBlocks (task.read nbytes server pulls).2,
    block.table.schema = plan.arrowSchema ∧
      ∀ (i : ℕ) (field : Field), plan.arrowSchema[i]? = some field → field.nullable = false →
        ArrowValue.null ∉ block.table.cells i

/-- An answer that shows a plan: its schema, or the one task of the query. -/
inductive Shows (config : QueryReadConfig) (plan : SchemaPlan) : Answer → Prop
  | schema : Shows config plan (.schema plan.arrowSchema)
  | tasks {task : QueryTask} (h : TaskOf config plan task) : Shows config plan (.tasks [task])

theorem planned_shows (hplan : Agreed plan) (request : Request) :
    ∃ answer, d.planned plan request = .ok answer ∧ Shows d.config plan answer := by
  cases request with
  | arrowSchema => exact ⟨_, rfl, .schema⟩
  | getReadTasks parallelism perTaskRowLimit =>
    obtain ⟨projection, hprojection⟩ := hplan.projection
    let task : QueryTask := ⟨d.config, wrapped (selectHead projection) d.config.querySql selectTail,
      plan.arrowSchema, perTaskRowLimit⟩
    have hplanned : d.planned plan (.getReadTasks parallelism perTaskRowLimit) =
        .ok (.tasks [task]) :=
      Except.bind_eq_ok.mpr ⟨projection, hprojection, rfl⟩
    refine ⟨_, hplanned, .tasks ?_⟩
    constructor
    · exact taskStatement_reads task hplan.simple hprojection rfl
    · rfl
    · intro nbytes server pulls block hblock
      obtain ⟨hschema, hnull⟩ := read_planned _ nbytes server pulls block hblock
      exact ⟨hschema, hnull⟩

/-- Once a schema is in hand, every call succeeds with it and sends nothing. -/
theorem run_planned (hplan : Agreed plan) (hd : d.schemaPlan = some plan)
    (requests : List (QueryNode × Request)) : ∀ reply ∈ d.run requests,
      (∃ answer, reply.outcome = .ok answer ∧ Shows d.config plan answer) ∧ reply.sent = [] := by
  induction requests with
  | nil => simp [ClickHouseQueryDatasource.run]
  | cons first rest ih =>
    obtain ⟨node, request⟩ := first
    have hserve : d.serve node request = (⟨d.planned plan request, []⟩, d) := by
      unfold ClickHouseQueryDatasource.serve ClickHouseQueryDatasource.schema
      rw [hd]
    intro reply hreply
    unfold ClickHouseQueryDatasource.run at hreply
    rw [hserve] at hreply
    rcases List.mem_cons.mp hreply with rfl | hreply
    · exact ⟨planned_shows hplan request, rfl⟩
    · exact ih reply hreply

/-- Replies that fail up to the first that discovers the schema; those behind it show the same
plan and sent nothing. -/
def Settled (config : QueryReadConfig) (replies : List Reply) : Prop :=
  ∃ failed served, replies = failed ++ served ∧
    (∀ reply ∈ failed, ∃ failure, reply.outcome = .error failure) ∧
    (served = [] ∨ ∃ plan, Agreed plan ∧
      (∀ reply ∈ served, ∃ answer, reply.outcome = .ok answer ∧ Shows config plan answer) ∧
      ∀ reply ∈ served.tail, reply.sent = [])

theorem settled_failed {reply : Reply} {replies : List Reply}
    (hreply : ∃ failure, reply.outcome = .error failure) (h : Settled config replies) :
    Settled config (reply :: replies) := by
  obtain ⟨failed, served, rfl, hfailed, hserved⟩ := h
  refine ⟨reply :: failed, served, rfl, ?_, hserved⟩
  intro other hother
  rcases List.mem_cons.mp hother with rfl | hother
  · exact hreply
  · exact hfailed other hother

/-- In every run of calls on a new source, whatever the server answers, each statement that is
sent only reads the query of the source. The calls fail until one of them discovers a schema;
from then on every call succeeds with this schema, and asks nothing. -/
theorem query_run (config : QueryReadConfig) (requests : List (QueryNode × Request)) :
    (∀ reply ∈ ClickHouseQueryDatasource.run ⟨config, none⟩ requests,
      ∀ statement ∈ reply.sent, Reads config statement) ∧
    Settled config (ClickHouseQueryDatasource.run ⟨config, none⟩ requests) := by
  induction requests with
  | nil =>
    refine ⟨fun reply h => absurd h List.not_mem_nil, [], [], rfl, ?_, Or.inl rfl⟩
    exact fun reply h => absurd h List.not_mem_nil
  | cons first rest ih =>
    obtain ⟨node, request⟩ := first
    obtain ⟨hagreed, hsent⟩ := discoverQuerySchema_spec node config
    unfold ClickHouseQueryDatasource.run ClickHouseQueryDatasource.serve
      ClickHouseQueryDatasource.schema
    simp only
    cases hdiscover : discoverQuerySchema node config with
    | mk result sent =>
      rw [hdiscover] at hagreed hsent
      cases result with
      | error failure =>
        simp only
        refine ⟨?_, settled_failed ⟨failure, rfl⟩ ih.2⟩
        intro reply hreply
        rcases List.mem_cons.mp hreply with rfl | hreply
        · exact hsent
        · exact ih.1 reply hreply
      | ok plan =>
        simp only
        have hplan := hagreed plan rfl
        have hrest := run_planned (d := ⟨config, some plan⟩) hplan rfl rest
        refine ⟨?_, [], _, rfl, ?_, Or.inr ⟨plan, hplan, ?_, ?_⟩⟩
        · intro reply hreply
          rcases List.mem_cons.mp hreply with rfl | hreply
          · exact hsent
          · rw [(hrest reply hreply).2]
            exact fun statement h => absurd h List.not_mem_nil
        · exact fun reply h => absurd h List.not_mem_nil
        · intro reply hreply
          rcases List.mem_cons.mp hreply with rfl | hreply
          · exact planned_shows hplan request
          · exact (hrest reply hreply).1
        · intro reply hreply
          exact (hrest reply hreply).2

end Runs

section Example

def daysQuery : Text := "SELECT id, day FROM days -- every day".toList

theorem daysDatabase : isIdentifier "db".toList = true := by decide

def daysConnection : ClickHouseConnection :=
  { host := ['h']
    database := "db".toList
    host_nonempty := List.cons_ne_nil _ _
    database_valid := daysDatabase
    username_nonempty := defaultUsername_nonempty
    port_bounds := defaultPort_bounds }

def daysNode : QueryNode where
  describe := fun _ =>
    .ok [[.str "id".toList, .str "UInt64".toList], [.str "day".toList, .str "Date".toList]]
  probe := fun _ =>
    .ok (some [⟨"id".toList, .integer ⟨false, .w64⟩, false⟩, ⟨"day".toList, .date32, false⟩])
  representable := fun _ => true
  str := fun _ => []
  newQueryId := String.toList

def daysRequests : List (QueryNode × Request) :=
  [({ daysNode with probe := fun _ => .error (.error none "timeout".toList) }, .arrowSchema),
    (daysNode, .arrowSchema), (daysNode, .getReadTasks 4 none)]

def daysLimits : ResourceLimits :=
  { batchRows_bounds := defaultBatchRows_bounds
    batchBytes_bounds := defaultBatchBytes_bounds
    queryTimeout_bounds := defaultQueryTimeout_bounds }

def daysReplies (config : @QueryReadConfig asciiDatabase) : List (@Reply asciiDatabase) :=
  let _ := asciiDatabase
  ClickHouseQueryDatasource.run ⟨config, none⟩ daysRequests

def daysSent (config : @QueryReadConfig asciiDatabase) : List (List Statement) :=
  let _ := asciiDatabase
  (daysReplies config).map Reply.sent

theorem query_run_example :
    ∃ config, @QueryReadConfig.make asciiDatabase (fun _ => false) daysConnection daysQuery []
        daysLimits false = .ok config ∧
      (daysSent config).map List.length = [2, 2, 0] ∧
      (∀ reply ∈ daysReplies config, ∀ statement ∈ @Reply.sent asciiDatabase reply,
        @Reads asciiDatabase config statement) ∧
      @Settled asciiDatabase config (daysReplies config) := by
  have hcheck : Outcome.check (@QueryReadConfig.make asciiDatabase (fun _ => false) daysConnection
      daysQuery [] daysLimits false) (fun config =>
        decide ((daysSent config).map List.length = [2, 2, 0])) = true := by
    decide +kernel
  obtain ⟨config, hconfig, hsent⟩ := Outcome.check_eq_true.mp hcheck
  obtain ⟨hreads, hsettled⟩ := @query_run asciiDatabase config daysRequests
  exact ⟨config, hconfig, of_decide_eq_true hsent, hreads, hsettled⟩

end Example

end RayClickHouse.QueryReads
