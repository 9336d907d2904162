import RayClickHouse.Coverage
import RayClickHouse.PlanningRuns
import RayClickHouse.PushdownRecord

/-!
The family of datasources that predicate and projection pushdown make from one.
A call on a member returns a reply, changes at most the planning cache of that
member, and may add one clone; what a clone was asked for along its ancestry is
recorded beside it. In any order of calls and whatever discovery returns, every
member holds exactly what was accepted for it.
-/
namespace RayClickHouse.Datasource

open Text Schema Predicates Planning Discovery Sql

inductive Request
  | applyPredicate (expr : RayExpr)
  | applyProjection (projectionMap : Option (List Text))
  | arrowSchema
  | getReadTasks (parallelism : ℤ) (perTaskRowLimit : Option ℤ)

section Clones

variable [UnicodeDatabase]

/-- A datasource of the family, and what was accepted along its ancestry. -/
structure Member where
  datasource : ClickHouseDatasource
  accepted : List Accepted

inductive Reply
  | same
  | clone
  | schema (schema : ArrowSchema)
  | tasks (tasks : List ReadTask)

/-- The reply to a call, the member after it, and the clone it makes. -/
structure Served where
  reply : Outcome Reply
  member : Member
  clone : Option Member

namespace Member

def run {α : Type} (m : Member) (planner : Planner α) (reply : α → Reply)
    (clone : α → Option Member) : Served :=
  match planner.call m.datasource with
  | (.ok a, after) => ⟨.ok (reply a), ⟨after, m.accepted⟩, clone a⟩
  | (.error failure, after) => ⟨.error failure, ⟨after, m.accepted⟩, none⟩

def serve (ray : RayVersion) (m : Member) (answers : Answers) : Request → Served
  | .applyPredicate expr =>
      match m.datasource.applyPredicate ray answers expr with
      | .error failure => ⟨.error failure, m, none⟩
      | .ok none => ⟨.ok .same, m, none⟩
      | .ok (some clone) => ⟨.ok .clone, m, some ⟨clone, m.accepted ++ [.predicate expr]⟩⟩
  | .applyProjection projectionMap =>
      m.run (ClickHouseDatasource.applyProjection ray answers projectionMap) (fun _ => .clone)
        fun clone => some ⟨clone, m.accepted ++ [.projection projectionMap]⟩
  | .arrowSchema => m.run (ClickHouseDatasource.arrowSchema answers) .schema fun _ => none
  | .getReadTasks parallelism perTaskRowLimit =>
      m.run (ClickHouseDatasource.getReadTasks answers parallelism perTaskRowLimit) .tasks
        fun _ => none

/-- The member after a call holds what it held, apart from a plan in a cache that was empty; an
error in planning leaves it as it was. -/
structure Isolated (m : Member) (answers : Answers) (m' : Member) : Prop where
  accepted : m'.accepted = m.accepted
  steps : m.datasource.Steps answers m'.datasource
  failed : ∀ failure, ((ClickHouseDatasource.ensurePlanningSnapshot answers).call
    m.datasource).1 = .error failure → m' = m

structure Consistent (ray : RayVersion) (config : ReadConfig) (m : Member) : Prop where
  config_eq : m.datasource.config = config
  cache : m.datasource.CacheEmpty ∨ m.datasource.CompletePlan
  predicateNode : m.datasource.predicateNode = conjoin ray none m.accepted
  predicateExpr : m.datasource.predicateExpr = reported none m.accepted
  unpushed : m.datasource.predicateNode = none ↔ m.datasource.pushedPredicate = none
  pushed : ∀ compiled, m.datasource.pushedPredicate = some compiled →
    ∃ node schema, conjoin ray none m.accepted = some node ∧
      compilePredicate node schema compiled.native = .ok (some compiled)
  projection : m.datasource.projectionColumns = lastProjection config.columns m.accepted
  visible : ∀ snapshot columns, m.datasource.selectedColumns snapshot = .ok columns →
    columns = (lastProjection config.columns m.accepted).getD snapshot.schema.arrowSchema.names

end Member

section Steps

variable {ray : RayVersion} {config : ReadConfig} {m : Member} {answers : Answers}

/-- The selected columns of a datasource are its projection, or all columns of the schema. -/
theorem visible_of_projection {d : ClickHouseDatasource} {accepted : List Accepted}
    (hconfig : d.config = config)
    (hprojection : d.projectionColumns = lastProjection config.columns accepted)
    {snapshot : DiscoverySnapshot} {columns : List Text}
    (h : d.selectedColumns snapshot = .ok columns) :
    columns = (lastProjection config.columns accepted).getD
      snapshot.schema.arrowSchema.names := by
  rw [← hconfig] at hprojection ⊢
  unfold ClickHouseDatasource.selectedColumns DirectSource.selectedColumns at h
  simp only at h
  split at h
  · simp [Outcome.raise] at h
  · split at h
    · simp [Outcome.raise] at h
    · rw [Except.ok.injEq] at h
      rw [← h, ← hprojection]
      cases hcolumns : d.projectionColumns with
      | some names => simp [ClickHouseDatasource.planned, hcolumns]
      | none =>
        rw [hcolumns] at hprojection
        have hnone : d.config.columns = none := lastProjection_eq_none hprojection.symm
        simp [ClickHouseDatasource.planned, hcolumns, DirectSource.sourceColumns, hnone]

theorem Member.Consistent.of_steps {d' : ClickHouseDatasource} (h : m.Consistent ray config)
    (hsteps : m.datasource.Steps answers d') :
    Member.Consistent ray config ⟨d', m.accepted⟩ := by
  have hidentity := hsteps.identity
  have hprojection : d'.projectionColumns = lastProjection config.columns m.accepted := by
    rw [hidentity.projectionColumns, h.projection]
  have hconfig : d'.config = config := by
    rw [hidentity.config, h.config_eq]
  refine ⟨hconfig, ?_, ?_, ?_, ?_, ?_, hprojection, ?_⟩
  · rcases hsteps with hsame | ⟨-, hfills⟩
    · rw [hsame]
      exact h.cache
    · exact Or.inr hfills.complete
  · rw [hidentity.predicateNode, h.predicateNode]
  · rw [hidentity.predicateExpr, h.predicateExpr]
  · rw [hidentity.predicateNode, hidentity.pushedPredicate]
    exact h.unpushed
  · rw [hidentity.pushedPredicate]
    exact h.pushed
  · intro snapshot columns hcolumns
    exact visible_of_projection hconfig hprojection hcolumns

theorem root_consistent :
    Member.Consistent ray config ⟨ClickHouseDatasource.ofConfig config, []⟩ := by
  refine ⟨rfl, Or.inl ⟨rfl, rfl, rfl, rfl⟩, rfl, rfl, ?_, ?_, rfl, ?_⟩
  · exact ⟨fun _ => rfl, fun _ => rfl⟩
  · exact fun compiled h => absurd h (Option.some_ne_none _).symm
  · exact fun snapshot columns h => visible_of_projection rfl rfl h

/-- The projected copy of a member that planned, with the projection recorded. -/
theorem project_consistent {d' : ClickHouseDatasource} {projectionMap : Option (List Text)}
    {sources : List DirectSource} (h : m.Consistent ray config)
    (hsteps : m.datasource.Steps answers d')
    (hcomplete : (d'.project (projectionMap.or m.datasource.projectionColumns) sources).CompletePlan) :
    Member.Consistent ray config
      ⟨d'.project (projectionMap.or m.datasource.projectionColumns) sources,
        m.accepted ++ [.projection projectionMap]⟩ := by
  have hafter := h.of_steps hsteps
  have hprojection : projectionMap.or m.datasource.projectionColumns =
      lastProjection config.columns (m.accepted ++ [.projection projectionMap]) := by
    rw [lastProjection_append, h.projection]
    cases projectionMap <;> rfl
  refine ⟨hafter.config_eq, Or.inr hcomplete, ?_, ?_, hafter.unpushed, ?_, hprojection, ?_⟩
  · rw [conjoin_append]
    exact hafter.predicateNode
  · rw [reported_append]
    exact hafter.predicateExpr
  · intro compiled hcompiled
    rw [conjoin_append]
    exact hafter.pushed compiled hcompiled
  · intro snapshot columns hcolumns
    have hconfig : (d'.project (projectionMap.or m.datasource.projectionColumns) sources).config =
        config := hafter.config_eq
    exact visible_of_projection hconfig hprojection hcolumns

theorem applyPredicate_eq_some {d clone : ClickHouseDatasource} {expr : RayExpr}
    (h : d.applyPredicate ray answers expr = .ok (some clone)) :
    ∃ decoded schema selected compiled, decodePredicate ray expr = some decoded ∧
      compilePredicate (d.combined decoded) selected compiled.native = .ok (some compiled) ∧
      clone.config = d.config ∧ clone.projectionColumns = d.projectionColumns ∧
      clone.CacheEmpty ∧ clone.predicateNode = some (d.combined decoded) ∧
      clone.pushedPredicate = some compiled ∧ clone.predicateSchema = some schema ∧
      clone.predicateExpr = some (combinePredicates d.predicateExpr expr) := by
  unfold ClickHouseDatasource.applyPredicate at h
  split at h
  · simp at h
  · rename_i decoded hdecoded
    obtain ⟨protocol, _, h⟩ := Except.bind_eq_ok.mp h
    cases protocol with
    | none => simp at h
    | some protocol =>
      obtain ⟨schema, _, h⟩ := Except.bind_eq_ok.mp h
      obtain ⟨selected, _, h⟩ := Except.bind_eq_ok.mp h
      split at h
      · contradiction
      · simp at h
      · rename_i compiled hcompiled
        obtain ⟨context, _, h⟩ := Except.bind_eq_ok.mp h
        cases context with
        | false => simp at h
        | true =>
          simp only [Bool.not_true, Bool.false_eq_true, if_false, Except.ok.injEq,
            Option.some.injEq] at h
          rw [← h]
          have hnative := compilePredicate_native hcompiled
          rw [← hnative] at hcompiled
          exact ⟨decoded, schema, selected, compiled, hdecoded, hcompiled, rfl, rfl,
            ⟨rfl, rfl, rfl, rfl⟩, rfl, rfl, rfl, rfl⟩

/-- A clone with one more expression, with the expression recorded. -/
theorem predicate_consistent {clone : ClickHouseDatasource} {expr : RayExpr}
    (h : m.Consistent ray config)
    (hclone : m.datasource.applyPredicate ray answers expr = .ok (some clone)) :
    Member.Consistent ray config ⟨clone, m.accepted ++ [.predicate expr]⟩ := by
  obtain ⟨decoded, schema, selected, compiled, hdecoded, hcompiled, hconfig, hcolumns, hempty,
    hnode, hpushed, -, hexpr⟩ := applyPredicate_eq_some hclone
  have hconjoin : conjoin ray none (m.accepted ++ [.predicate expr]) =
      some (m.datasource.combined decoded) := by
    rw [conjoin_append, ← h.predicateNode]
    unfold ClickHouseDatasource.combined
    cases m.datasource.predicateNode <;> simp [conjoin, hdecoded]
  have hprojection : clone.projectionColumns =
      lastProjection config.columns (m.accepted ++ [.predicate expr]) := by
    rw [lastProjection_append, ← h.projection, hcolumns]
    rfl
  refine ⟨hconfig.trans h.config_eq, Or.inl hempty, hnode.trans hconjoin.symm, ?_, ?_, ?_,
    hprojection, ?_⟩
  · rw [reported_append, ← h.predicateExpr, hexpr]
    rfl
  · simp [hnode, hpushed]
  · intro compiled' hcompiled'
    rw [hpushed, Option.some.injEq] at hcompiled'
    rw [← hcompiled']
    exact ⟨_, selected, hconjoin, hcompiled⟩
  · intro snapshot columns hvisible
    exact visible_of_projection (hconfig.trans h.config_eq) hprojection hvisible

theorem run_isolated {α : Type} {planner : Planner α} {reply : α → Reply}
    {clone : α → Option Member} (h : m.Consistent ray config)
    (hafter : (planner.call m.datasource).2 =
      ((ClickHouseDatasource.ensurePlanningSnapshot answers).call m.datasource).2) :
    m.Isolated answers (m.run planner reply clone).member := by
  have hmember : (m.run planner reply clone).member =
      ⟨((ClickHouseDatasource.ensurePlanningSnapshot answers).call m.datasource).2,
        m.accepted⟩ := by
    rw [← hafter]
    unfold Member.run
    cases planner.call m.datasource with
    | mk result after => cases result <;> rfl
  rw [hmember]
  rcases ClickHouseDatasource.ensure_steps h.cache with
    ⟨failure, hcall⟩ | ⟨snapshot, d', hcall, hsteps, -, -⟩
  · rw [hcall]
    exact ⟨rfl, Or.inl rfl, fun _ _ => rfl⟩
  · refine ⟨rfl, ?_, ?_⟩
    · rw [hcall]
      exact hsteps
    · intro failure hfailure
      rw [hcall] at hfailure
      contradiction

theorem run_ok {α : Type} {planner : Planner α} {reply : α → Reply} {clone : α → Option Member}
    {a : α} {after : ClickHouseDatasource} (h : planner.call m.datasource = (.ok a, after)) :
    m.run planner reply clone = ⟨.ok (reply a), ⟨after, m.accepted⟩, clone a⟩ := by
  unfold Member.run
  rw [h]

theorem run_error {α : Type} {planner : Planner α} {reply : α → Reply}
    {clone : α → Option Member} {failure : Failure} {after : ClickHouseDatasource}
    (h : planner.call m.datasource = (.error failure, after)) :
    m.run planner reply clone = ⟨.error failure, ⟨after, m.accepted⟩, none⟩ := by
  unfold Member.run
  rw [h]

theorem run_clone {α : Type} {planner : Planner α} {reply : α → Reply} :
    (m.run planner reply fun _ => none).clone = none := by
  unfold Member.run
  cases planner.call m.datasource with
  | mk result after => cases result <;> rfl

theorem applyProjection_served (projectionMap : Option (List Text))
    (h : m.Consistent ray config) :
    m.Isolated answers (m.serve ray answers (.applyProjection projectionMap)).member ∧
    ∀ clone, (m.serve ray answers (.applyProjection projectionMap)).clone = some clone →
      clone.Consistent ray config ∧
      clone.accepted = m.accepted ++ [.projection projectionMap] := by
  unfold Member.serve
  rcases ClickHouseDatasource.applyProjection_cases ray answers projectionMap h.cache with
    ⟨failure, hcall⟩ | ⟨snapshot, d', hensure, hsteps, -, hresult⟩
  · simp only [run_error hcall]
    exact ⟨⟨rfl, Or.inl rfl, fun _ _ => rfl⟩, fun _ h => absurd h (Option.some_ne_none _).symm⟩
  · have hisolated : m.Isolated answers ⟨d', m.accepted⟩ := by
      refine ⟨rfl, hsteps, ?_⟩
      intro failure hfailure
      rw [hensure] at hfailure
      contradiction
    rcases hresult with ⟨failure, hcall⟩ | ⟨sources, hcall, hplan⟩
    · simp only [run_error hcall]
      exact ⟨hisolated, fun _ h => absurd h (Option.some_ne_none _).symm⟩
    · simp only [run_ok hcall]
      refine ⟨hisolated, ?_⟩
      intro clone hclone
      cases hclone
      exact ⟨project_consistent h hsteps hplan, rfl⟩

theorem applyPredicate_served (expr : RayExpr) (h : m.Consistent ray config) :
    m.Isolated answers (m.serve ray answers (.applyPredicate expr)).member ∧
    ∀ clone, (m.serve ray answers (.applyPredicate expr)).clone = some clone →
      clone.Consistent ray config ∧ clone.accepted = m.accepted ++ [.predicate expr] := by
  have hself : m.Isolated answers m := ⟨rfl, Or.inl rfl, fun _ _ => rfl⟩
  unfold Member.serve
  cases happly : m.datasource.applyPredicate ray answers expr with
  | error failure =>
    simp only [happly]
    exact ⟨hself, fun _ h => absurd h (Option.some_ne_none _).symm⟩
  | ok result =>
    cases result with
    | none =>
      simp only [happly]
      exact ⟨hself, fun _ h => absurd h (Option.some_ne_none _).symm⟩
    | some clone =>
      simp only [happly]
      refine ⟨hself, ?_⟩
      intro clone' hclone
      cases hclone
      exact ⟨predicate_consistent h happly, rfl⟩

/-- A call keeps to the planning cache of its member, and records what its clone was made for. -/
theorem serve_spec (answers : Answers) (request : Request) (h : m.Consistent ray config) :
    m.Isolated answers (m.serve ray answers request).member ∧
    ∀ clone, (m.serve ray answers request).clone = some clone →
      clone.Consistent ray config ∧
      ((∃ expr, request = .applyPredicate expr ∧
          clone.accepted = m.accepted ++ [.predicate expr]) ∨
        ∃ projectionMap, request = .applyProjection projectionMap ∧
          clone.accepted = m.accepted ++ [.projection projectionMap]) := by
  cases request with
  | applyPredicate expr =>
    obtain ⟨hisolated, hclone⟩ := applyPredicate_served (m := m) expr h
    refine ⟨hisolated, ?_⟩
    intro clone hmade
    obtain ⟨hconsistent, haccepted⟩ := hclone clone hmade
    exact ⟨hconsistent, Or.inl ⟨expr, rfl, haccepted⟩⟩
  | applyProjection projectionMap =>
    obtain ⟨hisolated, hclone⟩ := applyProjection_served (m := m) projectionMap h
    refine ⟨hisolated, ?_⟩
    intro clone hmade
    obtain ⟨hconsistent, haccepted⟩ := hclone clone hmade
    exact ⟨hconsistent, Or.inr ⟨projectionMap, rfl, haccepted⟩⟩
  | arrowSchema =>
    refine ⟨run_isolated h ClickHouseDatasource.after_arrowSchema, ?_⟩
    intro clone hmade
    unfold Member.serve at hmade
    rw [run_clone] at hmade
    contradiction
  | getReadTasks parallelism perTaskRowLimit =>
    refine ⟨run_isolated h ClickHouseDatasource.after_getReadTasks, ?_⟩
    intro clone hmade
    unfold Member.serve at hmade
    rw [run_clone] at hmade
    contradiction

end Steps

def served (ray : RayVersion) (family : List Member) (index : ℕ) (m : Member) (answers : Answers)
    (request : Request) : List Member :=
  family.set index (m.serve ray answers request).member ++
    (m.serve ray answers request).clone.toList

/-- The families that finite sequences of calls make from one datasource. -/
inductive Family (ray : RayVersion) (config : ReadConfig) : List Member → Prop
  | root : Family ray config [⟨ClickHouseDatasource.ofConfig config, []⟩]
  | call {family : List Member} {m : Member} (index : ℕ) (answers : Answers) (request : Request)
      (previous : Family ray config family) (hmember : family[index]? = some m) :
      Family ray config (served ray family index m answers request)

section Families

variable {ray : RayVersion} {config : ReadConfig} {family : List Member}

/-- Every member of every family is consistent. -/
theorem Family.consistent (h : Family ray config family) :
    ∀ m ∈ family, m.Consistent ray config := by
  induction h with
  | root =>
    intro m hm
    rw [List.mem_singleton.mp hm]
    exact root_consistent
  | @call family m index answers request previous hmember ih =>
    obtain ⟨hisolated, hclone⟩ :=
      serve_spec answers request (ih m (List.mem_of_getElem? hmember))
    intro m' hm'
    rcases List.mem_append.mp hm' with hm' | hm'
    · rcases List.mem_or_eq_of_mem_set hm' with hm' | rfl
      · exact ih m' hm'
      · have hafter := (ih m (List.mem_of_getElem? hmember)).of_steps hisolated.steps
        rw [← hisolated.accepted] at hafter
        exact hafter
    · exact (hclone m' (Option.mem_toList.mp hm')).1

/-- In every family that calls make, every member is consistent; a call leaves every other member
as it is, changes its own at most by a plan in a cache that was empty, and adds at most one clone,
which records what it was made for. -/
theorem clone_family (h : Family ray config family) :
    (∀ m ∈ family, m.Consistent ray config) ∧
    ∀ index m answers request, family[index]? = some m →
      (∀ other < family.length, other ≠ index →
        (served ray family index m answers request)[other]? = family[other]?) ∧
      (∃ m', (served ray family index m answers request)[index]? = some m' ∧
        m.Isolated answers m') ∧
      (served ray family index m answers request).length ≤ family.length + 1 ∧
      ∀ clone, (served ray family index m answers request)[family.length]? = some clone →
        (∃ expr, request = .applyPredicate expr ∧
          clone.accepted = m.accepted ++ [.predicate expr]) ∨
        ∃ projectionMap, request = .applyProjection projectionMap ∧
          clone.accepted = m.accepted ++ [.projection projectionMap] := by
  refine ⟨h.consistent, ?_⟩
  intro index m answers request hmember
  have hlt : index < family.length := (List.getElem?_eq_some_iff.mp hmember).1
  obtain ⟨hisolated, hclone⟩ :=
    serve_spec answers request (h.consistent m (List.mem_of_getElem? hmember))
  have hlength : (family.set index (m.serve ray answers request).member).length =
      family.length := List.length_set
  unfold served
  refine ⟨?_, ⟨_, ?_, hisolated⟩, ?_, ?_⟩
  · intro other hother hne
    rw [List.getElem?_append_left (by omega), List.getElem?_set_ne hne.symm]
  · rw [List.getElem?_append_left (by omega), List.getElem?_set_self hlt]
  · rw [List.length_append, hlength]
    cases (m.serve ray answers request).clone <;> simp
  · intro clone hmade
    rw [List.getElem?_append_right (by omega), hlength, Nat.sub_self] at hmade
    apply (hclone clone ?_).2
    cases hserved : (m.serve ray answers request).clone with
    | none => simp [hserved] at hmade
    | some other =>
      simp only [hserved, Option.toList_some, List.getElem?_cons_zero] at hmade
      exact hmade

end Families

end Clones

section Example

def unreachable : Answers :=
  let failure : Failure := ⟨.transport, "ClickHouse transport failed", []⟩
  { discoverSchema := .error failure
    discoverEngine := .error failure
    discoverPartitions := .error failure
    discoverRangeFacts := fun _ => .error failure
    discoverSortingKey := .error failure
    discoverPredicateContext := .error failure
    resolveDistributed := .error failure
    localRangeFacts := fun _ _ => .error failure }

def exampleRoot : @Member asciiDatabase :=
  @Member.mk asciiDatabase (@ClickHouseDatasource.ofConfig asciiDatabase (exampleConfig 'a')) []

def exampleAnswers : Answers :=
  { unreachable with
    discoverSchema := .ok exampleSchema
    discoverEngine := .ok "MergeTree".toList
    discoverRangeFacts := fun _ => .ok exampleFacts
    discoverSortingKey := .ok "k".toList
    discoverPredicateContext := .ok true }

def exampleExpr : RayExpr := .binary (.compare .lt) (.literal (.int 3)) (.column "k".toList)

/-- A predicate pushed to the root, and a projection to its clone, which fills the cache. -/
def exampleFamily : List (@Member asciiDatabase) :=
  let _ := asciiDatabase
  let first := served (some (2, 59, 0)) [exampleRoot] 0 exampleRoot exampleAnswers
    (.applyPredicate exampleExpr)
  match first with
  | [_, clone] => served (some (2, 59, 0)) first 1 clone exampleAnswers
      (.applyProjection (some ["k".toList]))
  | _ => first

theorem exampleFamily_family :
    @Family asciiDatabase (some (2, 59, 0)) (exampleConfig 'a') exampleFamily := by
  let _ := asciiDatabase
  unfold exampleFamily
  simp only
  have hroot : Family (some (2, 59, 0)) (exampleConfig 'a') [exampleRoot] := .root
  have hfirst := Family.call 0 exampleAnswers (.applyPredicate exampleExpr) hroot rfl
  split
  · rename_i root clone hclone
    exact Family.call 1 exampleAnswers _ hfirst (by rw [hclone]; rfl)
  · exact hfirst

/-- A planned clone with a predicate, which later calls on the clone made from it leave. -/
theorem exampleFamily_isolated : ∃ filled clone,
    exampleFamily[1]? = some filled ∧ exampleFamily[2]? = some clone ∧
    (@ClickHouseDatasource.planningSnapshot asciiDatabase
      (@Member.datasource asciiDatabase filled)).isSome = true ∧
    (@ClickHouseDatasource.pushedPredicate asciiDatabase
      (@Member.datasource asciiDatabase clone)).isSome = true ∧
    @Member.Consistent asciiDatabase (some (2, 59, 0)) (exampleConfig 'a') filled ∧
    @Member.Consistent asciiDatabase (some (2, 59, 0)) (exampleConfig 'a') clone ∧
    ∀ answers request, (@served asciiDatabase (some (2, 59, 0)) exampleFamily 2 clone answers
      request)[1]? = some filled := by
  let _ := asciiDatabase
  have hfilled : exampleFamily[1]?.any (fun m => m.datasource.planningSnapshot.isSome) = true := by
    decide +kernel
  have hclone : exampleFamily[2]?.any (fun m => m.datasource.pushedPredicate.isSome) = true := by
    decide +kernel
  rw [Option.any_eq_true] at hfilled hclone
  obtain ⟨filled, hfilled, hplanned⟩ := hfilled
  obtain ⟨clone, hclone, hpushed⟩ := hclone
  obtain ⟨hconsistent, hcalls⟩ := clone_family exampleFamily_family
  refine ⟨filled, clone, hfilled, hclone, hplanned, hpushed,
    hconsistent filled (List.mem_of_getElem? hfilled),
    hconsistent clone (List.mem_of_getElem? hclone), ?_⟩
  intro answers request
  have hlt : 1 < exampleFamily.length := (List.getElem?_eq_some_iff.mp hfilled).1
  have hother := (hcalls 2 clone answers request hclone).1 1 hlt (by decide)
  exact hother.trans hfilled

end Example

end RayClickHouse.Datasource
