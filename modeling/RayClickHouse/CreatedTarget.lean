import RayClickHouse.AcceptedDeclarations
import RayClickHouse.Datasink
import RayClickHouse.TableManagement

/-!
The checks after a replacement. The discovery reads the declared columns back, and the
plan for the new table succeeds when the field names are distinct, the selection
consists of all of them and the types are acceptable.
-/
namespace RayClickHouse.Datasink

open Text TypeText Schema Ddl Discovery

section Reported

def reportedTarget (columns : List (Text × Text)) : List TargetColumn :=
  columns.zipIdx.map fun p => ⟨p.1.1, p.1.2, [], [], p.2 + 1⟩

theorem reportedTarget_names (columns : List (Text × Text)) :
    (reportedTarget columns).map TargetColumn.name = columns.map Prod.fst := by
  have heq : (reportedTarget columns).map TargetColumn.name =
      (columns.zipIdx.map Prod.fst).map Prod.fst := by
    unfold reportedTarget
    rw [List.map_map, List.map_map]
    rfl
  rw [heq, List.zipIdx_map_fst]

theorem zipIdx_sorted {α : Type*} (xs : List α) (k : ℕ) :
    (xs.zipIdx k).Pairwise fun a b => a.2 ≤ b.2 := by
  induction xs generalizing k with
  | nil => exact List.Pairwise.nil
  | cons x rest ih =>
    rw [List.zipIdx_cons]
    refine List.Pairwise.cons ?_ (ih (k + 1))
    intro p hp
    have hle := List.le_snd_of_mem_zipIdx hp
    show k ≤ p.2
    omega

theorem reportedTarget_sorted (columns : List (Text × Text)) :
    (reportedTarget columns).Pairwise fun a b => decide (a.position ≤ b.position) = true := by
  unfold reportedTarget
  rw [List.pairwise_map]
  refine (zipIdx_sorted columns 0).imp ?_
  intro a b hle
  simp only [decide_eq_true_eq]
  omega

theorem exactlyDeclared_reported {columns : List (Text × Text)} {target : TargetTable}
    (h : target.columns = reportedTarget columns) : exactlyDeclared columns target := by
  have hall : ∀ (xs : List (Text × Text)) (k : ℕ), List.Forall₂
      (fun column (c : TargetColumn) => c.name = column.1 ∧ c.declaredType = column.2 ∧
        c.defaultKind = [] ∧ c.defaultExpression = []) xs
      ((xs.zipIdx k).map fun p => ⟨p.1.1, p.1.2, [], [], p.2 + 1⟩) := by
    intro xs
    induction xs with
    | nil => exact fun k => List.Forall₂.nil
    | cons x rest ih =>
      intro k
      rw [List.zipIdx_cons, List.map_cons]
      exact List.Forall₂.cons ⟨rfl, rfl, rfl, rfl⟩ (ih (k + 1))
  unfold exactlyDeclared
  rw [h]
  exact hall columns 0

/-- system.columns gives the declared columns back when their names are distinct. -/
theorem parseDescribeRows_reported {columns : List (Text × Text)} (hne : columns ≠ [])
    (hsolid : ∀ column ∈ columns, Solid column.2) :
    parseDescribeRows (reportedColumns columns) =
      if (columns.map Prod.fst).Nodup then .ok (reportedTarget columns)
      else Outcome.raise .schema "ClickHouse DESCRIBE returned no or duplicate columns" := by
  have hpositions : ¬ (reportedColumns columns).any (fun r => decide (r.position < 1)) = true := by
    unfold reportedColumns
    simp only [List.any_map, List.any_eq_true, Function.comp_apply, decide_eq_true_eq, not_exists,
      not_and]
    intro p _
    omega
  have hrows : (reportedColumns columns).map (fun r => (⟨r.name, strip r.type,
      r.defaultKind.getD [], r.defaultExpression.getD [], r.position⟩ : TargetColumn)) =
      reportedTarget columns := by
    unfold reportedColumns reportedTarget
    rw [List.map_map]
    refine List.map_congr_left fun p hp => ?_
    have hmem : p.1 ∈ columns := by
      rw [← List.zipIdx_map_fst 0 columns]
      exact List.mem_map_of_mem hp
    simp only [Function.comp_apply, strip_of_solid (hsolid p.1 hmem), Option.getD_some]
  have hcolumns : reportedTarget columns ≠ [] := by
    intro hnil
    have hnames := reportedTarget_names columns
    rw [hnil] at hnames
    exact hne (List.map_eq_nil_iff.mp hnames.symm)
  unfold parseDescribeRows
  rw [if_neg hpositions, hrows]
  simp only
  rw [reportedTarget_names, List.mergeSort_of_pairwise (reportedTarget_sorted columns)]
  by_cases hnodup : (columns.map Prod.fst).Nodup
  · rw [if_pos hnodup, if_neg (by simp [hcolumns, hnodup])]
  · rw [if_neg hnodup, if_pos (Or.inr hnodup)]

end Reported

section Definitions

variable [UnicodeDatabase] (sink : ClickHouseDataSink) (server : TableServer)
  (schema : ArrowSchema)

def ClickHouseDataSink.statement : Outcome CreateTable :=
  checkedStatement sink.writeMode sink.table schema sink.engine sink.orderBy sink.nullableColumns

def answeringServer : TableServer := { tableCount := .ok (some 1) }

/-- The checks after the replacement, on the table that the statement declares. -/
def ClickHouseDataSink.checkDeclared (statement : CreateTable) : Outcome Unit :=
  (sink.planTarget answeringServer (some schema)
    (some ⟨statement.engine, statement.columns, []⟩)).2

/-- A start that fails without an ambiguous outcome has sent no DROP and left the old
table as it was, and no check that needs only the arguments is left for after the DROP. -/
def KeepsOldTable (store : Option StoredTable) : Prop :=
  let run := sink.onWriteStart server (some schema) store
  (∀ failure, run.result = .error failure → failure.kind ≠ .ambiguousTableManagement →
    Command.drop ∉ run.commands ∧ ∀ old, store = some old → run.store = some old) ∧
  (Command.drop ∈ run.commands → ∀ statement, sink.statement schema = .ok statement →
    sink.checkDeclared schema statement = .ok ())

/-- The server is reached and has a table to replace, and the statement is accepted. -/
def Replaces : Prop :=
  (∃ statement, sink.statement schema = .ok statement) ∧ server.openManagement = none ∧
    ∃ count, server.tableCount = .ok (some count) ∧ count ≠ 0

/-- Distinct field names, a selection of all of them, and acceptable types. -/
def FullyAcceptable : Prop :=
  schema.names.Nodup ∧
  (∃ normalized, normalizeColumns sink.columns = .ok normalized ∧
    ∀ n, n ∈ normalized.getD schema.names ↔ n ∈ schema.names) ∧
  ∀ field ∈ schema, acceptable field.type = true

def Discoverable : Prop :=
  server.openTarget = none ∧ server.openEngine = none ∧ server.engineQuery = none ∧
    server.columnsQuery = none

end Definitions

section Declared

variable {server : TableServer} {schema : ArrowSchema} {statement : CreateTable}

theorem createEngines_subset : ∀ e ∈ createEngines, e ∈ writeEngines := by
  decide

theorem checkedStatement_creation {mode : WriteMode} {table : QualifiedTable} {engine : Text}
    {orderBy nullableColumns : Option (List Text)}
    (h : checkedStatement mode table schema engine orderBy nullableColumns = .ok statement) :
    engine ∈ writeEngines ∧ ∃ declarations order,
      Creation table schema engine orderBy nullableColumns statement declarations order := by
  unfold checkedStatement at h
  split at h
  · contradiction
  · obtain ⟨valid, hvalid, hcreate⟩ := Except.bind_eq_ok.mp h
    obtain ⟨name, -, hengine⟩ := Except.bind_eq_ok.mp hvalid
    split at hengine
    · rename_i hmem
      exact ⟨createEngines_subset _ hmem, createSql_creation hcreate⟩
    · contradiction

/-- A discovery that the server answers reads the declared columns back. -/
theorem discoverTarget_answered (table : QualifiedTable) (store : StoredTable)
    (hdiscoverable : Discoverable server) (hengine : store.engine ∈ writeEngines)
    (hne : store.columns ≠ []) (hsolid : ∀ column ∈ store.columns, Solid column.2) :
    discoverTarget server table (some store) =
      if (store.columns.map Prod.fst).Nodup then
        .ok ⟨table.database, table.table, store.engine, reportedTarget store.columns⟩
      else Outcome.raise .schema "ClickHouse DESCRIBE returned no or duplicate columns" := by
  obtain ⟨htarget, hopen, hquery, hcolumns⟩ := hdiscoverable
  have hfound : discoverEngine server table (some store) = .ok store.engine := by
    unfold discoverEngine
    rw [hopen, hquery]
  unfold discoverTarget
  rw [htarget, hfound]
  simp only [bind, Except.bind, if_pos hengine, hcolumns, Option.map_some, Option.getD_some]
  rw [parseDescribeRows_reported hne hsolid]
  split_ifs with hnodup
  · rfl
  · rfl

/-- A discovery that the server does not answer fails, but not ambiguously. -/
theorem discoverTarget_unanswered (table : QualifiedTable) (store : StoredTable)
    (hdiscoverable : ¬ Discoverable server) (hengine : store.engine ∈ writeEngines) :
    ∃ failure, discoverTarget server table (some store) = .error failure ∧
      failure.kind ≠ .ambiguousTableManagement := by
  unfold discoverTarget discoverEngine
  cases htarget : server.openTarget with
  | some e => exact ⟨_, rfl, translate_kind _ _ _⟩
  | none =>
    cases hopen : server.openEngine with
    | some e => exact ⟨_, rfl, translate_kind _ _ _⟩
    | none =>
      cases hquery : server.engineQuery with
      | some e => exact ⟨_, rfl, translate_kind _ _ _⟩
      | none =>
        cases hcolumns : server.columnsQuery with
        | some e =>
          simp only [bind, Except.bind, if_pos hengine]
          exact ⟨_, rfl, translate_kind _ _ _⟩
        | none => exact absurd ⟨htarget, hopen, hquery, hcolumns⟩ hdiscoverable

theorem field?_of_nodup (h : schema.names.Nodup) {field : Field} (hfield : field ∈ schema) :
    schema.field? field.name = some field := by
  obtain ⟨found, hfound⟩ := Option.isSome_iff_exists.mp
    (field?_isSome.mpr (List.mem_map_of_mem hfield))
  have hmem : found ∈ schema := List.mem_reverse.mp (List.mem_of_find?_eq_some hfound)
  have hname : found.name = field.name := by
    simpa using List.find?_some hfound
  rw [hfound, List.inj_on_of_nodup_map h hmem hfield hname]

variable [UnicodeDatabase] {sink : ClickHouseDataSink}

/-- The columns of an accepted statement: their names and their solid types. -/
theorem creation_columns {table : QualifiedTable} {engine : Text}
    {orderBy nullableColumns : Option (List Text)} {declarations : List Declaration} {order : Text}
    (h : Creation table schema engine orderBy nullableColumns statement declarations order) :
    statement.columns ≠ [] ∧ (∀ column ∈ statement.columns, Solid column.2) ∧
      statement.columns.map Prod.fst = schema.names := by
  have hlength : schema.names.length = (declarations.map Declaration.render).length := by
    unfold ArrowSchema.names
    rw [List.length_map, List.length_map, h.declared.length_eq]
  have hnames : statement.columns.map Prod.fst = schema.names := by
    rw [h.columns]
    exact List.map_fst_zip hlength.le
  refine ⟨?_, ?_, hnames⟩
  · intro hnil
    rw [hnil] at hnames
    exact h.nonempty (List.map_eq_nil_iff.mp hnames.symm)
  · intro column hcolumn
    rw [h.columns] at hcolumn
    obtain ⟨d, hd, heq⟩ := List.mem_map.mp (List.of_mem_zip hcolumn).2
    obtain ⟨field, -, hfield⟩ := exists_of_mem_forall₂ h.declared hd
    obtain ⟨inner, hinner, hrender⟩ := Except.bind_eq_ok.mp hfield
    rw [← heq, ← Except.ok.inj hrender]
    exact (determined_nullable _ (determined_render hinner)).solid

/-- The check of a selection against the columns read back. -/
theorem validate_reported_iff {table : QualifiedTable} {engine : Text}
    {orderBy nullableColumns : Option (List Text)} {declarations : List Declaration}
    {order : Text} {target : TargetTable} (columns : Option (List Text))
    (h : Creation table schema engine orderBy nullableColumns statement declarations order)
    (htarget : target.columns = reportedTarget statement.columns) (hnodup : schema.names.Nodup) :
    (∃ plan, validateSourceSchema schema target columns = .ok plan) ↔
      (∃ normalized, normalizeColumns columns = .ok normalized ∧
        ∀ n, n ∈ normalized.getD schema.names ↔ n ∈ schema.names) ∧
      ∀ field ∈ schema, acceptable field.type = true := by
  have hexact := exactlyDeclared_reported htarget
  unfold exactlyDeclared at hexact
  rw [h.columns] at hexact
  have hdeclares := exactlyDeclared_fields h.declared hexact
  have htypes : (∀ name field, schema.field? name = some field → acceptable field.type = true) ↔
      ∀ field ∈ schema, acceptable field.type = true := by
    constructor
    · intro hall field hfield
      exact hall _ _ (field?_of_nodup hnodup hfield)
    · intro hall name field hfield
      exact hall field (List.mem_reverse.mp (List.mem_of_find?_eq_some hfield))
  cases hnormalized : normalizeColumns columns with
  | error failure =>
    unfold validateSourceSchema
    rw [hnormalized]
    simp [bind, Except.bind]
  | ok normalized =>
    rw [validate_selection_iff hdeclares hnormalized, htypes]
    simp

theorem planTarget_rejected {store : Option StoredTable} {target : TargetTable} {failure : Failure}
    (hdiscover : discoverTarget server sink.table store = .ok target)
    (hrejected : validateSourceSchema schema target sink.columns = .error failure) :
    (sink.planTarget server (some schema) store).2 = .error failure := by
  unfold ClickHouseDataSink.planTarget
  rw [hdiscover]
  simp only [hrejected]

/-- The plan for a created table succeeds exactly when the discovery is answered and
everything in the arguments is acceptable. -/
theorem planTarget_created (h : sink.statement schema = .ok statement) :
    (sink.planTarget server (some schema)
        (some ⟨statement.engine, statement.columns, []⟩)).2 = .ok () ↔
      Discoverable server ∧ FullyAcceptable sink schema := by
  obtain ⟨hengine, declarations, order, hcreation⟩ := checkedStatement_creation h
  obtain ⟨hne, hsolid, hnames⟩ := creation_columns hcreation
  rw [← hcreation.engine_eq] at hengine
  unfold ClickHouseDataSink.planTarget
  by_cases hdiscoverable : Discoverable server
  · rw [discoverTarget_answered sink.table ⟨statement.engine, statement.columns, []⟩ hdiscoverable
      hengine hne hsolid]
    simp only [hnames]
    by_cases hnodup : schema.names.Nodup
    · rw [if_pos hnodup]
      have hvalidate := validate_reported_iff sink.columns hcreation
        (rfl : (⟨sink.table.database, sink.table.table, statement.engine,
          reportedTarget statement.columns⟩ : TargetTable).columns = _) hnodup
      unfold FullyAcceptable
      rw [← hvalidate]
      simp only
      split
      · rename_i failure hfailure
        simp [hfailure, hdiscoverable]
      · rename_i columns hcolumns
        simp [hcolumns, hdiscoverable, hnodup]
    · rw [if_neg hnodup]
      refine iff_of_false (by simp [Outcome.raise]) ?_
      rintro ⟨-, hdistinct, -⟩
      exact hnodup hdistinct
  · obtain ⟨failure, hfailure, -⟩ := discoverTarget_unanswered sink.table
      ⟨statement.engine, statement.columns, []⟩ hdiscoverable hengine
    rw [hfailure]
    exact iff_of_false (by simp) fun hboth => hdiscoverable hboth.1

end Declared

end RayClickHouse.Datasink
