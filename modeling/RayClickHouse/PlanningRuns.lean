import RayClickHouse.PlanningCache

/-!
What planning can do to a datasource. A filled cache is returned as it is. An
empty one either stays empty with the error that was raised, or is filled with
one complete plan: the prepared shards of a Distributed table, one logical
query for a source that local reads do not apply to, or the splits of a direct
table.
-/
namespace RayClickHouse.Datasource

open Text Schema Predicates Planning Discovery Sql

variable [UnicodeDatabase]

namespace Planner

variable {α β : Type} {d : ClickHouseDatasource}

theorem call_attempt_bind (x : Outcome α) (f : α → Planner β) :
    (attempt x >>= f).call d =
      match x with
      | .ok a => (f a).call d
      | .error failure => (.error failure, d) := by
  cases x <;> rfl

theorem call_attempt (x : Outcome α) : (attempt x).call d = (x, d) := rfl

theorem call_assign_bind (change : ClickHouseDatasource → ClickHouseDatasource)
    (f : Unit → Planner β) : (assign change >>= f).call d = (f ()).call (change d) := rfl

theorem call_get_bind (f : ClickHouseDatasource → Planner β) :
    ((get : Planner ClickHouseDatasource) >>= f).call d = (f d).call d := rfl

theorem call_pure (a : α) : (pure a : Planner α).call d = (.ok a, d) := rfl

theorem call_bind (planner : Planner α) (f : α → Planner β) :
    (planner >>= f).call d =
      match planner.call d with
      | (.ok a, d') => (f a).call d'
      | (.error failure, d') => (.error failure, d') := by
  unfold call ExceptT.run StateT.run
  simp only [Bind.bind, ExceptT.bind, ExceptT.mk, StateT.bind, ExceptT.bindCont]
  cases planner d with
  | mk result d' => cases result <;> rfl

end Planner

namespace ClickHouseDatasource

structure CacheEmpty (d : ClickHouseDatasource) : Prop where
  planningSnapshot : d.planningSnapshot = none
  resolvedDistributed : d.resolvedDistributed = none
  localSources : d.localSources = []
  logicalFallback : d.logicalFallback = false

/-- The fields outside the planning cache. -/
structure SameIdentity (d d' : ClickHouseDatasource) : Prop where
  config : d'.config = d.config
  projectionColumns : d'.projectionColumns = d.projectionColumns
  predicateNode : d'.predicateNode = d.predicateNode
  pushedPredicate : d'.pushedPredicate = d.pushedPredicate
  predicateSchema : d'.predicateSchema = d.predicateSchema
  predicateExpr : d'.predicateExpr = d.predicateExpr

theorem SameIdentity.refl (d : ClickHouseDatasource) : SameIdentity d d :=
  ⟨rfl, rfl, rfl, rfl, rfl, rfl⟩

/-- The source of a shard under the projection and the predicate of its owner. -/
structure IsLocalSource (d : ClickHouseDatasource) (target : LocalTarget)
    (source : DirectSource) : Prop where
  connection : source.config.connection = target.connection
  table : source.config.table = target.table
  filterSql : source.config.filterSql = d.config.filterSql
  schema : source.snapshot.schema = target.schema
  projectionColumns : source.projectionColumns = d.projectionColumns
  pushedPredicate : source.pushedPredicate = d.pushedPredicate

/-- The cache holds one whole plan. -/
inductive CompletePlan (d : ClickHouseDatasource) : Prop
  | shards {snapshot : DiscoverySnapshot} {resolved : ResolvedDistributed}
      (planningSnapshot : d.planningSnapshot = some snapshot)
      (engine : snapshot.engine = "Distributed".toList)
      (converted : d.config.convertDistributedToLocal = true)
      (resolvedDistributed : d.resolvedDistributed = some resolved)
      (localSources : List.Forall₂ (IsLocalSource d) resolved.targets d.localSources)
      (logicalFallback : d.logicalFallback = false)
  | logical {snapshot : DiscoverySnapshot} (planningSnapshot : d.planningSnapshot = some snapshot)
      (engine : snapshot.engine ∈ singleQueryEngines)
      (converted : d.config.convertDistributedToLocal = true)
      (resolvedDistributed : d.resolvedDistributed = none) (localSources : d.localSources = [])
      (logicalFallback : d.logicalFallback = true)
  | direct {snapshot : DiscoverySnapshot} (planningSnapshot : d.planningSnapshot = some snapshot)
      (unconverted : d.config.convertDistributedToLocal = false ∨
        snapshot.engine ∉ singleQueryEngines)
      (resolvedDistributed : d.resolvedDistributed = none) (localSources : d.localSources = [])
      (logicalFallback : d.logicalFallback = false)

/-- The filter of the reads is empty. -/
def Unfiltered (d : ClickHouseDatasource) : Prop :=
  ∃ filter, effectiveFilter d.config.filterSql d.config.queryParameters d.pushedPredicate false =
      .ok filter ∧
    (filter.condition.any fun condition => decide (condition.text ≠ [])) = false

/-- Why a source is read by one logical query: it is a view, it has no effective filter, it is
ordered globally, or local reads do not apply to its topology. -/
def FallbackReason (d : ClickHouseDatasource) (answers : Answers) : Prop :=
  answers.discoverEngine = .ok "View".toList ∨ d.Unfiltered ∨
    (d.config.orderBy.any fun columns => !columns.isEmpty) = true ∨
    ∃ failure, answers.resolveDistributed = .error failure ∧ failure.kind = .notApplicable

/-- Planning fills the cache of a datasource and changes nothing else. -/
structure Fills (answers : Answers) (d d' : ClickHouseDatasource) : Prop where
  identity : SameIdentity d d'
  complete : CompletePlan d'
  fallback : d'.logicalFallback = true → FallbackReason d answers

variable {d : ClickHouseDatasource} {answers : Answers}

theorem resolve_eq_none {engine : Text} {filter : EffectiveFilter}
    (hengine : engine ∈ singleQueryEngines) (hanswer : answers.discoverEngine = .ok engine)
    (hfilter : effectiveFilter d.config.filterSql d.config.queryParameters d.pushedPredicate false =
      .ok filter) (h : d.resolve answers engine filter.condition = .ok none) :
    FallbackReason d answers := by
  unfold resolve at h
  simp only at h
  split at h
  · cases hresolve : answers.resolveDistributed with
    | ok resolved => simp [hresolve] at h
    | error failure =>
      by_cases hkind : failure.kind = .notApplicable
      · exact Or.inr (Or.inr (Or.inr ⟨failure, hresolve, hkind⟩))
      · simp [hresolve, hkind] at h
  · rename_i hineligible
    simp only [singleQueryEngines, List.mem_cons, List.not_mem_nil, or_false] at hengine
    rcases hengine with rfl | rfl
    · exact Or.inl hanswer
    · right
      by_cases hfiltered : (filter.condition.any fun c => decide (c.text ≠ [])) = true
      · right
        left
        by_contra hordered
        exact hineligible ⟨rfl, hfiltered, by simpa using hordered⟩
      · left
        exact ⟨filter, hfilter, by simpa using hfiltered⟩

theorem prepareLocalSource_isLocal {schema : SchemaPlan} {snapshot : DiscoverySnapshot}
    {target : LocalTarget} {source : DirectSource}
    (h : prepareLocalSource (d.planned snapshot) schema answers.localRangeFacts target =
      .ok source) : IsLocalSource d target source := by
  unfold prepareLocalSource at h
  simp only at h
  split at h
  · simp [Outcome.raise] at h
  · obtain ⟨facts, _, hsource⟩ := Except.bind_eq_ok.mp h
    cases Except.ok.inj hsource
    exact ⟨rfl, rfl, rfl, rfl, rfl, rfl⟩

/-- A computation fails without a change, or fills the cache with the snapshot it returns. -/
def FillsOrFails (answers : Answers) (d : ClickHouseDatasource)
    (planner : Planner DiscoverySnapshot) : Prop :=
  (∃ failure, planner.call d = (.error failure, d)) ∨
  ∃ snapshot d', planner.call d = (.ok snapshot, d') ∧ d'.planningSnapshot = some snapshot ∧
    Fills answers d d'

theorem FillsOrFails.attempt {α : Type} {x : Outcome α} {f : α → Planner DiscoverySnapshot}
    (h : ∀ a, x = .ok a → FillsOrFails answers d (f a)) :
    FillsOrFails answers d (Planner.attempt x >>= f) := by
  cases hx : x with
  | error failure => exact Or.inl ⟨failure, rfl⟩
  | ok a => exact h a hx

theorem planSingleQuery_fills {schema : SchemaPlan} {engine : Text} {filter : EffectiveFilter}
    (hempty : d.CacheEmpty) (hconverted : d.config.convertDistributedToLocal = true)
    (hengine : engine ∈ singleQueryEngines) (hanswer : answers.discoverEngine = .ok engine)
    (hfilter : effectiveFilter d.config.filterSql d.config.queryParameters d.pushedPredicate false =
      .ok filter) :
    FillsOrFails answers d (d.planSingleQuery answers schema engine filter.condition) := by
  apply FillsOrFails.attempt
  intro resolved hresolved
  cases resolved with
  | some resolved =>
    have hdistributed : engine = "Distributed".toList := by
      unfold resolve at hresolved
      simp only at hresolved
      split at hresolved
      · rename_i heligible
        exact heligible.1
      · simp at hresolved
    apply FillsOrFails.attempt
    intro sources hsources
    have hlocal : List.Forall₂ (IsLocalSource d) resolved.targets sources :=
      (Except.mapM_eq_ok.mp hsources).imp fun _ _ hsource => prepareLocalSource_isLocal hsource
    right
    refine ⟨{ schema := schema, engine := engine },
      { d with
        resolvedDistributed := some resolved
        localSources := sources
        planningSnapshot := some { schema := schema, engine := engine } },
      rfl, rfl, ⟨rfl, rfl, rfl, rfl, rfl, rfl⟩, ?_, ?_⟩
    · refine CompletePlan.shards rfl hdistributed hconverted rfl (hlocal.imp ?_)
        hempty.logicalFallback
      intro target source hsource
      exact ⟨hsource.connection, hsource.table, hsource.filterSql, hsource.schema,
        hsource.projectionColumns, hsource.pushedPredicate⟩
    · intro hfallback
      exact absurd (hempty.logicalFallback.symm.trans hfallback) Bool.false_ne_true
  | none =>
    right
    refine ⟨{ schema := schema, engine := engine },
      { d with
        logicalFallback := true
        planningSnapshot := some { schema := schema, engine := engine } },
      rfl, rfl, ⟨rfl, rfl, rfl, rfl, rfl, rfl⟩, ?_, ?_⟩
    · exact CompletePlan.logical rfl hengine hconverted hempty.resolvedDistributed
        hempty.localSources rfl
    · intro _
      exact resolve_eq_none hengine hanswer hfilter hresolved

theorem planDirect_fills {schema : SchemaPlan} {engine : Text} (hempty : d.CacheEmpty)
    (hunconverted : d.config.convertDistributedToLocal = false ∨ engine ∉ singleQueryEngines) :
    FillsOrFails answers d (d.planDirect answers schema engine) := by
  unfold planDirect
  split
  · exact Or.inl ⟨_, rfl⟩
  · apply FillsOrFails.attempt
    intro partitions _
    apply FillsOrFails.attempt
    intro rangeFacts _
    right
    refine ⟨⟨schema, engine, partitions, rangeFacts⟩,
      { d with planningSnapshot := some ⟨schema, engine, partitions, rangeFacts⟩ },
      rfl, rfl, ⟨rfl, rfl, rfl, rfl, rfl, rfl⟩, ?_, ?_⟩
    · exact CompletePlan.direct rfl hunconverted hempty.resolvedDistributed hempty.localSources
        hempty.logicalFallback
    · intro hfallback
      exact absurd (hempty.logicalFallback.symm.trans hfallback) Bool.false_ne_true

/-- Planning of an empty cache fails and leaves it empty, or fills it. -/
theorem ensure_empty (hempty : d.CacheEmpty) :
    FillsOrFails answers d (ensurePlanningSnapshot answers) := by
  have hbody : FillsOrFails answers d (do
      let schema ← Planner.attempt (d.planningSchema answers)
      let engine ← Planner.attempt answers.discoverEngine
      let filter ← Planner.attempt (effectiveFilter d.config.filterSql d.config.queryParameters
        d.pushedPredicate false)
      if d.config.convertDistributedToLocal ∧ engine ∈ singleQueryEngines then
        d.planSingleQuery answers schema engine filter.condition
      else d.planDirect answers schema engine) := by
    apply FillsOrFails.attempt
    intro schema _
    apply FillsOrFails.attempt
    intro engine hengine
    apply FillsOrFails.attempt
    intro filter hfilter
    split
    · rename_i hsingle
      exact planSingleQuery_fills hempty hsingle.1 hsingle.2 hengine hfilter
    · rename_i hsingle
      apply planDirect_fills hempty
      by_cases hconverted : d.config.convertDistributedToLocal = true
      · exact Or.inr fun hengine => hsingle ⟨hconverted, hengine⟩
      · exact Or.inl (Bool.eq_false_iff.mpr hconverted)
  unfold FillsOrFails ensurePlanningSnapshot
  rw [Planner.call_get_bind, hempty.planningSnapshot]
  exact hbody

theorem ensure_filled {snapshot : DiscoverySnapshot} (h : d.planningSnapshot = some snapshot) :
    (ensurePlanningSnapshot answers).call d = (.ok snapshot, d) := by
  unfold ensurePlanningSnapshot
  rw [Planner.call_get_bind, h]
  rfl

def Steps (answers : Answers) (d d' : ClickHouseDatasource) : Prop :=
  d' = d ∨ (d.CacheEmpty ∧ Fills answers d d')

theorem Steps.identity {d' : ClickHouseDatasource} (h : Steps answers d d') :
    SameIdentity d d' := by
  rcases h with rfl | ⟨-, hfills⟩
  · exact SameIdentity.refl d'
  · exact hfills.identity

theorem CompletePlan.exists_snapshot (h : d.CompletePlan) :
    ∃ snapshot, d.planningSnapshot = some snapshot := by
  cases h with
  | shards hsnapshot => exact ⟨_, hsnapshot⟩
  | logical hsnapshot => exact ⟨_, hsnapshot⟩
  | direct hsnapshot => exact ⟨_, hsnapshot⟩

/-- A call that plans fails without a change, or leaves a whole plan with its snapshot. -/
theorem ensure_steps (hcache : d.CacheEmpty ∨ d.CompletePlan) :
    (∃ failure, (ensurePlanningSnapshot answers).call d = (.error failure, d)) ∨
    ∃ snapshot d', (ensurePlanningSnapshot answers).call d = (.ok snapshot, d') ∧
      Steps answers d d' ∧ d'.planningSnapshot = some snapshot ∧ d'.CompletePlan := by
  rcases hcache with hempty | hcomplete
  · rcases ensure_empty hempty with hfailed | ⟨snapshot, d', hcall, hsnapshot, hfills⟩
    · exact Or.inl hfailed
    · exact Or.inr ⟨snapshot, d', hcall, Or.inr ⟨hempty, hfills⟩, hsnapshot, hfills.complete⟩
  · obtain ⟨snapshot, hsnapshot⟩ := hcomplete.exists_snapshot
    exact Or.inr ⟨snapshot, d, ensure_filled hsnapshot, Or.inl rfl, hsnapshot, hcomplete⟩

/-- What follows planning in a call does not change the datasource. -/
theorem after_ensure {α : Type} {f : DiscoverySnapshot → Planner α}
    (hf : ∀ snapshot d', ((f snapshot).call d').2 = d') :
    ((ensurePlanningSnapshot answers >>= f).call d).2 =
      ((ensurePlanningSnapshot answers).call d).2 := by
  rw [Planner.call_bind]
  cases (ensurePlanningSnapshot answers).call d with
  | mk result d' =>
    cases result with
    | error failure => rfl
    | ok snapshot => exact hf snapshot d'

theorem after_attempt {α β : Type} {x : Outcome α} {f : α → Planner β}
    (hf : ∀ a, ((f a).call d).2 = d) : ((Planner.attempt x >>= f).call d).2 = d := by
  cases x with
  | error failure => rfl
  | ok a => exact hf a

theorem after_arrowSchema : ((arrowSchema answers).call d).2 =
    ((ensurePlanningSnapshot answers).call d).2 := by
  apply after_ensure
  intro snapshot d'
  rw [Planner.call_get_bind]
  exact after_attempt fun columns => rfl

theorem after_getReadTasks {parallelism : ℤ} {limit : Option ℤ} :
    ((getReadTasks answers parallelism limit).call d).2 =
      ((ensurePlanningSnapshot answers).call d).2 := by
  apply after_ensure
  intro snapshot d'
  rfl

theorem mappedColumns_eq_ok {source : DirectSource} {projectionMap columns : Option (List Text)}
    (h : mappedColumns source projectionMap = .ok columns) :
    columns = projectionMap.or source.projectionColumns := by
  cases projectionMap with
  | none =>
    cases h
    rfl
  | some names =>
    obtain ⟨valid, hvalid, hsome⟩ := Except.bind_eq_ok.mp h
    cases hsome
    have hsame : List.Forall₂ (fun name column => name = column) names valid :=
      (Except.mapM_eq_ok.mp hvalid).imp fun _ _ hname => (validateIdentifier_eq_ok hname).1.symm
    rw [List.forall₂_eq_eq_eq] at hsame
    rw [hsame]
    rfl

/-- A projection selects the columns of its map, or keeps the ones selected before. -/
theorem projectedColumns_eq_ok {source : DirectSource} {projectionMap columns : Option (List Text)}
    (h : projectedColumns source projectionMap = .ok columns) :
    columns = projectionMap.or source.projectionColumns := by
  obtain ⟨available, _, h⟩ := Except.bind_eq_ok.mp h
  obtain ⟨found, hfound, h⟩ := Except.bind_eq_ok.mp h
  simp only at h
  split at h
  · contradiction
  · cases h
    exact mappedColumns_eq_ok hfound

def project (d : ClickHouseDatasource) (columns : Option (List Text))
    (sources : List DirectSource) : ClickHouseDatasource :=
  { d with projectionColumns := columns, localSources := sources }

theorem localSources_projected {projectionMap columns : Option (List Text)}
    {sources : List DirectSource} {targets : List LocalTarget}
    (hlocal : List.Forall₂ (IsLocalSource d) targets d.localSources)
    (hsources : List.Forall₂ (fun source result => source.applyProjection projectionMap = .ok result)
      d.localSources sources) (hcolumns : columns = projectionMap.or d.projectionColumns) :
    List.Forall₂ (IsLocalSource (d.project columns sources)) targets sources := by
  apply forall₂_comp hlocal hsources
  intro target _ source result hsource hresult
  obtain ⟨selected, hselected, hok⟩ := Except.bind_eq_ok.mp hresult
  cases hok
  have hsame : selected = columns := by
    rw [projectedColumns_eq_ok hselected, hsource.projectionColumns, hcolumns]
  exact ⟨hsource.connection, hsource.table, hsource.filterSql, hsource.schema, hsame,
    hsource.pushedPredicate⟩

/-- The projected copy of a complete plan is a complete plan. -/
theorem project_complete {projectionMap columns : Option (List Text)} {sources : List DirectSource}
    (hcomplete : d.CompletePlan) (hcolumns : columns = projectionMap.or d.projectionColumns)
    (hsources : List.Forall₂ (fun source result => source.applyProjection projectionMap = .ok result)
      d.localSources sources) : (d.project columns sources).CompletePlan := by
  cases hcomplete with
  | shards hsnapshot hengine hconverted hresolved hlocal hfallback =>
    exact CompletePlan.shards hsnapshot hengine hconverted hresolved
      (localSources_projected hlocal hsources hcolumns) hfallback
  | logical hsnapshot hengine hconverted hresolved hlocal hfallback =>
    rw [hlocal, List.forall₂_nil_left_iff] at hsources
    exact CompletePlan.logical hsnapshot hengine hconverted hresolved hsources hfallback
  | direct hsnapshot hunconverted hresolved hlocal hfallback =>
    rw [hlocal, List.forall₂_nil_left_iff] at hsources
    exact CompletePlan.direct hsnapshot hunconverted hresolved hsources hfallback

/-- A projection fails, after planning or before it, or returns the projected copy of the plan. -/
theorem applyProjection_cases (ray : RayVersion) (answers : Answers)
    (projectionMap : Option (List Text)) (hcache : d.CacheEmpty ∨ d.CompletePlan) :
    (∃ failure, (applyProjection ray answers projectionMap).call d = (.error failure, d)) ∨
    ∃ snapshot d', (ensurePlanningSnapshot answers).call d = (.ok snapshot, d') ∧
      Steps answers d d' ∧ d'.CompletePlan ∧
      ((∃ failure, (applyProjection ray answers projectionMap).call d = (.error failure, d')) ∨
        ∃ sources, (applyProjection ray answers projectionMap).call d =
            (.ok (d'.project (projectionMap.or d.projectionColumns) sources), d') ∧
          (d'.project (projectionMap.or d.projectionColumns) sources).CompletePlan) := by
  unfold applyProjection
  split
  · exact Or.inl ⟨_, rfl⟩
  · rw [Planner.call_bind]
    rcases ensure_steps hcache with ⟨failure, hcall⟩ | ⟨snapshot, d', hcall, hsteps, _, hcomplete⟩
    · rw [hcall]
      exact Or.inl ⟨failure, rfl⟩
    · right
      refine ⟨snapshot, d', hcall, hsteps, hcomplete, ?_⟩
      rw [hcall]
      simp only [Planner.call_get_bind, Planner.call_attempt_bind]
      cases hcolumns : projectedColumns (d'.planned snapshot) projectionMap with
      | error failure => exact Or.inl ⟨failure, rfl⟩
      | ok columns =>
        simp only
        cases hsources : d'.localSources.mapM (DirectSource.applyProjection · projectionMap) with
        | error failure => exact Or.inl ⟨failure, rfl⟩
        | ok sources =>
          have hselected : columns = projectionMap.or d'.projectionColumns :=
            projectedColumns_eq_ok hcolumns
          have hsame : columns = projectionMap.or d.projectionColumns := by
            rw [hselected, hsteps.identity.projectionColumns]
          refine Or.inr ⟨sources, ?_, ?_⟩
          · rw [← hsame]
            rfl
          · rw [← hsame]
            exact project_complete hcomplete hselected (Except.mapM_eq_ok.mp hsources)

end ClickHouseDatasource

end RayClickHouse.Datasource
