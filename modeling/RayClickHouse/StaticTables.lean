import RayClickHouse.CloneFamily
import RayClickHouse.PushedCondition
import RayClickHouse.ShardCoverage
import RayClickHouse.TableDiscovery

/-!
Planning on tables that do not change. Discovery fails or answers from the
stored rows, under the filter and the predicate of the datasource it is made
for. A datasource then knows nothing about its table, or about the shards that
hold its rows, that the rows contradict: planning fills it with exact facts.
-/
namespace RayClickHouse.StaticReads

open Text Schema Predicates Planning Discovery Sql Metadata ThreeValued Datasource
open PredicateTokens PredicateColumns PredicateReading PredicateMeaning TableDiscovery

section Databases

variable {ρ : Type*}

/-- What the connections reach: the rows of the tables, how a row is seen by columns, and the
server's evaluation of a condition with its parameters. -/
structure StaticDatabase (ρ : Type*) where
  stored : ClickHouseConnection → QualifiedTable → Multiset ρ
  partitionId : ρ → Text
  row : ρ → PredicateMeaning.Row
  evaluate : Text → Bindings → ρ → Truth
  schema : SchemaPlan

def integerOf : Value → Option ℤ
  | .int i => some i
  | _ => none

namespace StaticDatabase

variable (db : StaticDatabase ρ)

def filterTruth (filterSql : Option Text) (parameters : Bindings) (r : ρ) : Truth :=
  (filterSql.map fun filter => db.evaluate (strip filter) parameters r).getD .yes

def predicateTruth (pushed : Option CompiledPredicate) (r : ρ) : Truth :=
  (pushed.map fun p => db.evaluate p.sql p.parameters r).getD .yes

def view (filterSql : Option Text) (parameters : Bindings) (pushed : Option CompiledPredicate) :
    RowView ρ where
  partitionId := db.partitionId
  integer r name := integerOf (db.row r name)
  filter := db.filterTruth filterSql parameters
  predicate := db.predicateTruth pushed

/-- The stored rows hold values of their types, and the server evaluates what the recogniser of
local predicates reads as it reads it. -/
structure Lawful [UnicodeDatabase] : Prop where
  fits : ∀ connection table, ∀ r ∈ db.stored connection table, RowFits db.schema (db.row r)
  evaluates : ∀ text parameters f r t, Reads db.schema.columns 66 text f →
    sqlTruth (db.row r) parameters f = some t → db.evaluate text parameters r = t

end StaticDatabase

end Databases

section Answers

variable [UnicodeDatabase] {ρ : Type*} (db : StaticDatabase ρ)

/-- The rows as a datasource reads them. -/
def viewOf (d : ClickHouseDatasource) : RowView ρ :=
  db.view d.config.filterSql d.config.queryParameters d.pushedPredicate

def storedOf (d : ClickHouseDatasource) : Multiset ρ :=
  db.stored d.config.connection d.config.table

/-- A node that answers range discovery of a datasource on the columns of one table. -/
def AnswersRanges (d : ClickHouseDatasource) (columns : List TargetColumn)
    (connection : ClickHouseConnection) (table : QualifiedTable)
    (discover : TargetColumn → Outcome RangeFacts) : Prop :=
  ∃ node, (∀ column ∈ columns, AnswersAggregate node table column d.config.filterSql
      d.config.queryParameters d.pushedPredicate (viewOf db d) (db.stored connection table)) ∧
    ∀ column, discover column = discoverRangeFacts node table column d.config.filterSql
      d.config.queryParameters d.pushedPredicate

/-- What discovery answers to a datasource comes from the stored rows; the shards of a
Distributed table hold its rows. -/
structure Truthful (d : ClickHouseDatasource) (answers : Answers) : Prop where
  schema : ∀ schema, answers.discoverSchema = .ok schema → schema = db.schema
  partitions : ∃ node parts, AnswersParts node d.config.table db.partitionId (storedOf db d) parts ∧
    answers.discoverPartitions = TableDiscovery.discoverPartitions node d.config.table
  ranges : AnswersRanges db d db.schema.columns d.config.connection d.config.table
    answers.discoverRangeFacts
  shards : ∀ resolved, answers.resolveDistributed = .ok resolved →
    (resolved.targets.map fun target => db.stored target.connection target.table).sum =
      storedOf db d
  shardPartitions : ∀ resolved, answers.resolveDistributed = .ok resolved →
    ∀ target ∈ resolved.targets, ∀ partitions, target.partitions = some partitions →
      PartitionsExact (db.stored target.connection target.table) db.partitionId partitions
  shardRanges : ∀ target, AnswersRanges db d target.schema.columns target.connection target.table
    (answers.localRangeFacts target)

end Answers

section Invariant

variable [UnicodeDatabase] {ρ : Type*} {db : StaticDatabase ρ} {d d' : ClickHouseDatasource}
variable {answers : Answers}

/-- A local source reads its shard as the datasource reads the table. -/
structure LocalExact (db : StaticDatabase ρ) (d : ClickHouseDatasource) (l : DirectSource) :
    Prop where
  filterSql : l.config.filterSql = d.config.filterSql
  pushedPredicate : l.pushedPredicate = d.pushedPredicate
  snapshot : SnapshotExact l (viewOf db d) (l.stored db.stored)

structure Static (db : StaticDatabase ρ) (d : ClickHouseDatasource) : Prop where
  schema : ∀ schema, d.predicateSchema = some schema → schema = db.schema
  planned : ∀ snapshot, d.planningSnapshot = some snapshot → snapshot.schema = db.schema ∧
    SnapshotExact (d.planned snapshot) (viewOf db d) (storedOf db d)
  shards : d.localSources ≠ [] →
    (d.localSources.map (DirectSource.stored db.stored)).sum = storedOf db d
  locals : ∀ l ∈ d.localSources, LocalExact db d l

theorem exact_congr {s s' : DirectSource} {v : RowView ρ} {stored : Multiset ρ}
    (hsnapshot : s'.snapshot = s.snapshot) (hfilter : s'.config.filterSql = s.config.filterSql)
    (hpushed : s'.pushedPredicate = s.pushedPredicate) (h : SnapshotExact s v stored) :
    SnapshotExact s' v stored := by
  constructor
  · rw [hsnapshot]
    exact h.partitions
  · rw [hsnapshot, hfilter, hpushed]
    exact h.rangeFacts

/-- A datasource with the configuration and the predicate of another one reads the same. -/
structure SameRead (d d' : ClickHouseDatasource) : Prop where
  config : d'.config = d.config
  pushedPredicate : d'.pushedPredicate = d.pushedPredicate
  predicateSchema : d'.predicateSchema = d.predicateSchema

theorem SameRead.view (h : SameRead d d') : viewOf db d' = viewOf db d := by
  unfold viewOf
  rw [h.config, h.pushedPredicate]

theorem SameRead.stored (h : SameRead d d') : storedOf db d' = storedOf db d := by
  unfold storedOf
  rw [h.config]

/-- A filled datasource is static when its plan agrees with the rows that the empty one reads. -/
theorem Static.filled (h : Static db d) (hsame : SameRead d d')
    (hplanned : ∀ snapshot, d'.planningSnapshot = some snapshot → snapshot.schema = db.schema ∧
      SnapshotExact (d.planned snapshot) (viewOf db d) (storedOf db d))
    (hshards : d'.localSources ≠ [] →
      (d'.localSources.map (DirectSource.stored db.stored)).sum = storedOf db d)
    (hlocals : ∀ l ∈ d'.localSources, LocalExact db d l) : Static db d' := by
  refine ⟨?_, ?_, ?_, ?_⟩
  · rw [hsame.predicateSchema]
    exact h.schema
  · intro snapshot hsnapshot
    obtain ⟨hschema, hexact⟩ := hplanned snapshot hsnapshot
    rw [hsame.view, hsame.stored]
    have hfilter : (d'.planned snapshot).config.filterSql = (d.planned snapshot).config.filterSql :=
      congrArg (·.filterSql) hsame.config
    exact ⟨hschema, exact_congr (s := d.planned snapshot) rfl hfilter hsame.pushedPredicate hexact⟩
  · rw [hsame.stored]
    exact hshards
  · intro l hl
    obtain ⟨hfilter, hpushed, hexact⟩ := hlocals l hl
    refine ⟨?_, ?_, ?_⟩
    · rw [hsame.config]
      exact hfilter
    · rw [hsame.pushedPredicate]
      exact hpushed
    · rw [hsame.view]
      exact hexact

theorem AnswersRanges.exact {columns : List TargetColumn} {connection : ClickHouseConnection}
    {table : QualifiedTable} {discover : TargetColumn → Outcome RangeFacts}
    {column : TargetColumn} {facts : RangeFacts}
    (h : AnswersRanges db d columns connection table discover) (hcolumn : column ∈ columns)
    (hfacts : discover column = .ok facts) :
    FactsExact (select (db.stored connection table) fun r =>
        whole (viewOf db d) r d.config.filterSql d.pushedPredicate)
      (fun r => (viewOf db d).integer r facts.column) facts := by
  obtain ⟨node, htruthful, hdiscover⟩ := h
  rw [hdiscover] at hfacts
  obtain ⟨hname, -, hexact⟩ := discovered_exact d.compiled (htruthful column hcolumn) hfacts
  rw [hname]
  exact hexact

theorem discoverPartitions_eq_ok {partitions : List PartitionInfo}
    (h : d.discoverPartitions answers = .ok partitions) :
    partitions = [] ∨ answers.discoverPartitions = .ok partitions := by
  unfold ClickHouseDatasource.discoverPartitions at h
  split at h
  · unfold orElse at h
    split at h
    · rename_i found hfound
      exact Or.inr (hfound.trans h)
    · split at h
      · exact Or.inl (Except.ok.inj h).symm
      · contradiction
  · exact Or.inl (Except.ok.inj h).symm

omit [UnicodeDatabase] in
theorem orSingle_eq_some {policy : DiscoveryPolicy} {x : Outcome RangeFacts} {facts : RangeFacts}
    (h : orSingle policy x = .ok (some facts)) : x = .ok facts := by
  unfold orSingle at h
  split at h
  · cases Except.ok.inj h
    rfl
  · split at h <;> cases h

omit [UnicodeDatabase] in
theorem selectAutoRangeColumn_mem {key : Text} {columns : List TargetColumn}
    {column : TargetColumn} (h : selectAutoRangeColumn key columns = .ok column) :
    column ∈ columns := by
  unfold selectAutoRangeColumn at h
  simp only at h
  split at h
  · obtain ⟨-, h⟩ := passed_eq_ok.mp h
    split at h
    · simp [Outcome.raise] at h
    · rename_i found hfound
      obtain ⟨name, -, hnamed⟩ := Option.bind_eq_some_iff.mp hfound
      obtain ⟨-, h⟩ := passed_eq_ok.mp h
      obtain ⟨integer, -, h⟩ := Except.bind_eq_ok.mp h
      cases integer with
      | false => simp [notIntegerKey, Outcome.raise] at h
      | true =>
        obtain rfl := Except.ok.inj h
        exact (columnNamed_spec hnamed).2
  · simp [Outcome.raise] at h

theorem discoverRange_eq_some {schema : SchemaPlan} {engine : Text} {facts : RangeFacts}
    (h : d.discoverRange answers schema engine = .ok (some facts)) :
    ∃ column ∈ schema.columns, answers.discoverRangeFacts column = .ok facts := by
  unfold ClickHouseDatasource.discoverRange at h
  split at h
  · split at h
    · simp [Outcome.raise] at h
    · rename_i column hfound
      exact ⟨column, List.mem_of_find?_eq_some hfound, orSingle_eq_some h⟩
  · have hfound := orSingle_eq_some h
    split at hfound
    · simp [Outcome.raise] at hfound
    · obtain ⟨key, -, hfound⟩ := Except.bind_eq_ok.mp hfound
      obtain ⟨column, hcolumn, hfound⟩ := Except.bind_eq_ok.mp hfound
      exact ⟨column, selectAutoRangeColumn_mem hcolumn, hfound⟩
  · cases h

theorem localRangeColumn_mem {config : ReadConfig} {target : LocalTarget} {column : TargetColumn}
    (h : localRangeColumn config target = .ok column) : column ∈ target.schema.columns := by
  unfold localRangeColumn at h
  split at h
  · split at h
    · simp [Outcome.raise] at h
    · exact selectAutoRangeColumn_mem h
  · split at h
    · simp [Outcome.raise] at h
    · rename_i found hfound
      obtain rfl := Except.ok.inj h
      exact List.mem_of_find?_eq_some hfound

/-- The snapshot of a direct table agrees with its rows. -/
theorem direct_exact {schema : SchemaPlan} {engine : Text} {partitions : List PartitionInfo}
    {rangeFacts : Option RangeFacts} (h : Truthful db d answers) (hschema : schema = db.schema)
    (hpartitions : d.discoverPartitions answers = .ok partitions)
    (hfacts : d.discoverRange answers schema engine = .ok rangeFacts) :
    SnapshotExact (d.planned ⟨schema, engine, partitions, rangeFacts⟩) (viewOf db d)
      (storedOf db d) := by
  constructor
  · intro hne
    obtain ⟨node, parts, hparts, hanswer⟩ := h.partitions
    have hfound := (discoverPartitions_eq_ok hpartitions).resolve_left hne
    exact (partitions_exact hparts (hanswer ▸ hfound)).2
  · intro facts hsome
    obtain rfl : rangeFacts = some facts := hsome
    obtain ⟨column, hmem, hcolumn⟩ := discoverRange_eq_some hfacts
    rw [hschema] at hmem
    exact h.ranges.exact hmem hcolumn

/-- A prepared local source agrees with the rows of its shard. -/
theorem local_exact {snapshot : DiscoverySnapshot} {schema : SchemaPlan} {target : LocalTarget}
    {l : DirectSource} {resolved : ResolvedDistributed} (h : Truthful db d answers)
    (hresolved : answers.resolveDistributed = .ok resolved) (htarget : target ∈ resolved.targets)
    (hl : prepareLocalSource (d.planned snapshot) schema answers.localRangeFacts target = .ok l) :
    LocalExact db d l ∧
      l.stored db.stored = db.stored target.connection target.table := by
  unfold prepareLocalSource at hl
  simp only at hl
  obtain ⟨-, hl⟩ := passed_eq_ok.mp hl
  obtain ⟨facts, hfacts, hl⟩ := Except.bind_eq_ok.mp hl
  obtain rfl := Except.ok.inj hl
  refine ⟨⟨rfl, rfl, ?_, ?_⟩, rfl⟩
  · intro hne
    cases hpartitions : target.partitions with
    | none =>
      rw [hpartitions] at hne
      exact absurd rfl hne
    | some partitions =>
      exact h.shardPartitions resolved hresolved target htarget partitions hpartitions
  · intro found hsome
    obtain rfl : facts = some found := hsome
    unfold localRangeFacts at hfacts
    split at hfacts
    · obtain ⟨column, hmem, hcolumn⟩ := Except.bind_eq_ok.mp (orSingle_eq_some hfacts)
      exact (h.shardRanges target).exact (localRangeColumn_mem hmem) hcolumn
    · cases hfacts

/-- A plan of the shards agrees with the table. -/
theorem shards_static {snapshot : DiscoverySnapshot} {schema : SchemaPlan}
    {resolved : ResolvedDistributed} {sources : List DirectSource} (h : Truthful db d answers)
    (hresolved : answers.resolveDistributed = .ok resolved)
    (hsources : prepareLocalSources (d.planned snapshot) schema answers.localRangeFacts
      resolved.targets = .ok sources) :
    (sources.map (DirectSource.stored db.stored)).sum = storedOf db d ∧
      ∀ l ∈ sources, LocalExact db d l := by
  have hall := Except.mapM_eq_ok.mp hsources
  have hexact : List.Forall₂ (fun target l => LocalExact db d l ∧
      l.stored db.stored = db.stored target.connection target.table) resolved.targets sources := by
    apply forall₂_of_mem hall
    intro target htarget l _ hl
    exact local_exact h hresolved htarget hl
  constructor
  · rw [← h.shards resolved hresolved]
    congr 1
    symm
    rw [← List.forall₂_eq_eq_eq, List.forall₂_map_left_iff, List.forall₂_map_right_iff]
    exact hexact.imp fun target l hl => hl.2.symm
  · intro l hl
    obtain ⟨target, -, hlocal⟩ := exists_of_mem_forall₂ hexact hl
    exact hlocal.1

/-- A snapshot without partitions and facts claims nothing. -/
theorem exact_of_empty {snapshot : DiscoverySnapshot} {stored : Multiset ρ} {v : RowView ρ}
    (hpartitions : snapshot.partitions = []) (hfacts : snapshot.rangeFacts = none) :
    SnapshotExact (d.planned snapshot) v stored := by
  constructor
  · intro hne
    exact absurd hpartitions hne
  · intro facts hsome
    exact absurd (hfacts.symm.trans hsome) (Option.some_ne_none facts).symm

theorem planDirect_static {schema : SchemaPlan} {engine : Text} (h : Static db d)
    (htruthful : Truthful db d answers) (hempty : d.CacheEmpty) (hschema : schema = db.schema) :
    Static db ((d.planDirect answers schema engine).call d).2 := by
  unfold ClickHouseDatasource.planDirect
  split
  · exact h
  · rw [Planner.call_attempt_bind]
    cases hpartitions : d.discoverPartitions answers with
    | error failure => exact h
    | ok partitions =>
      simp only
      rw [Planner.call_attempt_bind]
      cases hfacts : d.discoverRange answers schema engine with
      | error failure => exact h
      | ok rangeFacts =>
        simp only
        rw [Planner.call_assign_bind, Planner.call_pure]
        refine h.filled ⟨rfl, rfl, rfl⟩ ?_ (fun hne => absurd hempty.localSources hne) h.locals
        intro snapshot hsnapshot
        obtain rfl := Option.some.inj hsnapshot
        exact ⟨hschema, direct_exact htruthful hschema hpartitions hfacts⟩

theorem planSingleQuery_static {schema : SchemaPlan} {engine : Text}
    {filter : Option FilterCondition} (h : Static db d) (htruthful : Truthful db d answers)
    (hempty : d.CacheEmpty) (hschema : schema = db.schema) :
    Static db ((d.planSingleQuery answers schema engine filter).call d).2 := by
  unfold ClickHouseDatasource.planSingleQuery
  simp only
  rw [Planner.call_attempt_bind]
  cases hresolve : d.resolve answers engine filter with
  | error failure => exact h
  | ok found =>
    cases found with
    | none =>
      refine h.filled ⟨rfl, rfl, rfl⟩ ?_ (fun hne => absurd hempty.localSources hne) h.locals
      intro snapshot hsnapshot
      obtain rfl := Option.some.inj hsnapshot
      exact ⟨hschema, exact_of_empty rfl rfl⟩
    | some resolved =>
      have hresolved : answers.resolveDistributed = .ok resolved := by
        unfold ClickHouseDatasource.resolve at hresolve
        simp only at hresolve
        split at hresolve
        · split at hresolve
          · rename_i answered hanswered
            cases Except.ok.inj hresolve
            exact hanswered
          · split at hresolve <;> cases hresolve
        · cases hresolve
      simp only
      rw [Planner.call_attempt_bind]
      cases hsources : prepareLocalSources (d.planned { schema := schema, engine := engine })
          schema answers.localRangeFacts resolved.targets with
      | error failure => exact h
      | ok sources =>
        obtain ⟨hsum, hlocals⟩ := shards_static htruthful hresolved hsources
        refine h.filled ⟨rfl, rfl, rfl⟩ ?_ (fun _ => hsum) hlocals
        intro snapshot hsnapshot
        obtain rfl := Option.some.inj hsnapshot
        exact ⟨hschema, exact_of_empty rfl rfl⟩

theorem planningSchema_eq {schema : SchemaPlan} (h : Static db d) (htruthful : Truthful db d answers)
    (hschema : d.planningSchema answers = .ok schema) : schema = db.schema := by
  unfold ClickHouseDatasource.planningSchema at hschema
  split at hschema
  · rename_i kept hkept
    rw [← Except.ok.inj hschema]
    exact h.schema kept hkept
  · exact htruthful.schema schema hschema

/-- Planning from truthful answers keeps the agreement. -/
theorem ensure_static (h : Static db d) (htruthful : Truthful db d answers)
    (hcache : d.CacheEmpty ∨ d.CompletePlan) :
    Static db ((ClickHouseDatasource.ensurePlanningSnapshot answers).call d).2 := by
  rcases hcache with hempty | hcomplete
  · unfold ClickHouseDatasource.ensurePlanningSnapshot
    rw [Planner.call_get_bind, hempty.planningSnapshot]
    simp only
    rw [Planner.call_attempt_bind]
    cases hschema : d.planningSchema answers with
    | error failure => exact h
    | ok schema =>
      have hsame : schema = db.schema := planningSchema_eq h htruthful hschema
      simp only
      rw [Planner.call_attempt_bind]
      cases answers.discoverEngine with
      | error failure => exact h
      | ok engine =>
        simp only
        rw [Planner.call_attempt_bind]
        split
        · split
          · exact planSingleQuery_static h htruthful hempty hsame
          · exact planDirect_static h htruthful hempty hsame
        · exact h
  · obtain ⟨snapshot, hsnapshot⟩ := hcomplete.exists_snapshot
    rw [ClickHouseDatasource.ensure_filled hsnapshot]
    exact h

end Invariant

end RayClickHouse.StaticReads
