import RayClickHouse.PushedFamily
import RayClickHouse.StaticTables

/-!
Reads of tables that do not change. Every call on a family of datasources plans
from truthful discovery. Then the tasks of every member read together exactly the
rows on which the filter and all expressions accepted for it hold, each of them
once, from the table or from its shards.
-/
namespace RayClickHouse.StaticReads

open Text Schema Predicates Planning Discovery Sql Metadata ThreeValued Datasource
open PredicateTokens PredicateColumns PredicateGrammar PredicateReading PredicateMeaning
open TableDiscovery

section Families

variable [UnicodeDatabase] {ρ : Type*} {db : StaticDatabase ρ} {ray : RayVersion}
variable {config : ReadConfig} {m : Member} {answers : Answers} {d : ClickHouseDatasource}

theorem run_datasource {α : Type} {planner : Planner α} {reply : α → Reply}
    {clone : α → Option Member} :
    (m.run planner reply clone).member.datasource = (planner.call m.datasource).2 := by
  unfold Member.run
  cases planner.call m.datasource with
  | mk result after => cases result <;> rfl

/-- A projection keeps the planned datasource and projects the local sources of its clone. -/
theorem applyProjection_eq_ok {projectionMap : Option (List Text)}
    {clone after : ClickHouseDatasource}
    (h : (ClickHouseDatasource.applyProjection ray answers projectionMap).call d =
      (.ok clone, after)) :
    ∃ columns sources, clone = after.project columns sources ∧
      after.localSources.mapM (DirectSource.applyProjection · projectionMap) = .ok sources := by
  unfold ClickHouseDatasource.applyProjection at h
  split at h
  · cases h
  · rw [Planner.call_bind] at h
    cases hensure : (ClickHouseDatasource.ensurePlanningSnapshot answers).call d with
    | mk result d' =>
      rw [hensure] at h
      cases result with
      | error failure => cases h
      | ok snapshot =>
        simp only [Planner.call_get_bind, Planner.call_attempt_bind] at h
        cases hcolumns : projectedColumns (d'.planned snapshot) projectionMap with
        | error failure =>
          rw [hcolumns] at h
          cases h
        | ok columns =>
          rw [hcolumns] at h
          simp only at h
          cases hsources : d'.localSources.mapM (DirectSource.applyProjection · projectionMap) with
          | error failure =>
            rw [hsources] at h
            cases h
          | ok sources =>
            rw [hsources] at h
            cases h
            exact ⟨columns, sources, rfl, hsources⟩

theorem applyProjection_after (ray : RayVersion) (answers : Answers) (d : ClickHouseDatasource)
    (projectionMap : Option (List Text)) :
    ((ClickHouseDatasource.applyProjection ray answers projectionMap).call d).2 = d ∨
      ((ClickHouseDatasource.applyProjection ray answers projectionMap).call d).2 =
        ((ClickHouseDatasource.ensurePlanningSnapshot answers).call d).2 := by
  unfold ClickHouseDatasource.applyProjection
  split
  · exact Or.inl rfl
  · right
    apply ClickHouseDatasource.after_ensure
    intro snapshot d'
    rw [Planner.call_get_bind]
    apply ClickHouseDatasource.after_attempt
    intro columns
    apply ClickHouseDatasource.after_attempt
    intro sources
    rfl

/-- The projected copy of a static datasource is static. -/
theorem Static.project {columns projectionMap : Option (List Text)} {sources : List DirectSource}
    (h : Static db d)
    (hsources : d.localSources.mapM (DirectSource.applyProjection · projectionMap) = .ok sources) :
    Static db (d.project columns sources) := by
  have hall : List.Forall₂ (fun l l' => LocalExact db d l → LocalExact db d l' ∧
      DirectSource.stored db.stored l' = l.stored db.stored) d.localSources sources := by
    apply (Except.mapM_eq_ok.mp hsources).imp
    intro l l' hl hexact
    obtain ⟨selected, -, hok⟩ := Except.bind_eq_ok.mp hl
    obtain rfl := Except.ok.inj hok
    refine ⟨⟨hexact.filterSql, hexact.pushedPredicate, ?_⟩, rfl⟩
    exact exact_congr (s := l) rfl rfl rfl hexact.snapshot
  have hpairs : List.Forall₂ (fun l l' => LocalExact db d l' ∧
      DirectSource.stored db.stored l' = l.stored db.stored) d.localSources sources := by
    apply forall₂_of_mem hall
    intro l hl l' _ himp
    exact himp (h.locals l hl)
  have hsame : SameRead d (d.project columns sources) := ⟨rfl, rfl, rfl⟩
  apply h.filled hsame h.planned
  · intro hne
    have hstored : sources.map (DirectSource.stored db.stored) =
        d.localSources.map (DirectSource.stored db.stored) := by
      rw [← List.forall₂_eq_eq_eq, List.forall₂_map_left_iff, List.forall₂_map_right_iff]
      exact hpairs.flip.imp fun l' l hl => hl.2
    have hlocal : d.localSources ≠ [] := by
      intro hnil
      rw [hnil, List.forall₂_nil_left_iff] at hpairs
      exact hne hpairs
    show (sources.map (DirectSource.stored db.stored)).sum = storedOf db d
    rw [hstored]
    exact h.shards hlocal
  · intro l' hl'
    obtain ⟨l, -, hl⟩ := exists_of_mem_forall₂ hpairs hl'
    exact hl.1

/-- The clone with one more expression keeps the schema of the table, and plans anew. -/
theorem Static.applyPredicate {clone : ClickHouseDatasource} {expr : RayExpr} (h : Static db d)
    (htruthful : Truthful db d answers)
    (hclone : d.applyPredicate ray answers expr = .ok (some clone)) : Static db clone := by
  have hempty : clone.CacheEmpty := by
    obtain ⟨_, _, _, _, -, -, -, -, hempty, -⟩ := applyPredicate_eq_some hclone
    exact hempty
  have hschema : ∀ schema, clone.predicateSchema = some schema → schema = db.schema := by
    unfold ClickHouseDatasource.applyPredicate at hclone
    split at hclone
    · cases hclone
    · obtain ⟨protocol, -, hclone⟩ := Except.bind_eq_ok.mp hclone
      cases protocol with
      | none => cases hclone
      | some protocol =>
        obtain ⟨schema, hschema, hclone⟩ := Except.bind_eq_ok.mp hclone
        obtain ⟨selected, -, hclone⟩ := Except.bind_eq_ok.mp hclone
        split at hclone
        · cases hclone
        · cases hclone
        · obtain ⟨context, -, hclone⟩ := Except.bind_eq_ok.mp hclone
          cases context with
          | false => simp at hclone
          | true =>
            simp only [Bool.not_true, Bool.false_eq_true, if_false, Except.ok.injEq,
              Option.some.injEq] at hclone
            rw [← hclone]
            intro kept hkept
            obtain rfl := Option.some.inj hkept
            unfold ClickHouseDatasource.schemaInHand at hschema
            split at hschema
            · rename_i snapshot hsnapshot
              rw [← Except.ok.inj hschema]
              exact (h.planned snapshot hsnapshot).1
            · exact planningSchema_eq h htruthful hschema
  constructor
  · exact hschema
  · intro snapshot hsnapshot
    rw [hempty.planningSnapshot] at hsnapshot
    cases hsnapshot
  · intro hne
    exact absurd hempty.localSources hne
  · intro l hl
    rw [hempty.localSources] at hl
    cases hl

theorem applyProjection_static {projectionMap : Option (List Text)} (h : Static db m.datasource)
    (hensured : Static db
      ((ClickHouseDatasource.ensurePlanningSnapshot answers).call m.datasource).2) :
    Static db (m.serve ray answers (.applyProjection projectionMap)).member.datasource ∧
    ∀ clone, (m.serve ray answers (.applyProjection projectionMap)).clone = some clone →
      Static db clone.datasource := by
  have hafter : Static db ((ClickHouseDatasource.applyProjection ray answers projectionMap).call
      m.datasource).2 := by
    rcases applyProjection_after ray answers m.datasource projectionMap with hsame | hsame
    · rw [hsame]
      exact h
    · rw [hsame]
      exact hensured
  unfold Member.serve
  constructor
  · rw [run_datasource]
    exact hafter
  · intro clone hclone
    cases hcall : (ClickHouseDatasource.applyProjection ray answers projectionMap).call
        m.datasource with
    | mk result after =>
      rw [hcall] at hafter
      cases result with
      | error failure =>
        simp only [run_error hcall] at hclone
        cases hclone
      | ok made =>
        simp only [run_ok hcall] at hclone
        obtain rfl := Option.some.inj hclone
        obtain ⟨columns, sources, rfl, hsources⟩ := applyProjection_eq_ok hcall
        exact hafter.project hsources

/-- A call with truthful answers leaves its member static, and so is the clone it makes. -/
theorem serve_static (request : Request) (h : Static db m.datasource)
    (hm : m.Consistent ray config) (htruthful : Truthful db m.datasource answers) :
    Static db (m.serve ray answers request).member.datasource ∧
    ∀ clone, (m.serve ray answers request).clone = some clone → Static db clone.datasource := by
  have hensured := ensure_static h htruthful hm.cache
  cases request with
  | applyPredicate expr =>
    unfold Member.serve
    cases happly : m.datasource.applyPredicate ray answers expr with
    | error failure =>
      simp only [happly]
      exact ⟨h, fun clone hclone => absurd hclone (Option.some_ne_none clone).symm⟩
    | ok result =>
      cases result with
      | none =>
        simp only [happly]
        exact ⟨h, fun clone hclone => absurd hclone (Option.some_ne_none clone).symm⟩
      | some made =>
        simp only [happly]
        refine ⟨h, ?_⟩
        intro clone hclone
        obtain rfl := Option.some.inj hclone
        exact h.applyPredicate htruthful happly
  | applyProjection projectionMap => exact applyProjection_static h hensured
  | arrowSchema =>
    unfold Member.serve
    rw [run_datasource, run_clone, ClickHouseDatasource.after_arrowSchema]
    exact ⟨hensured, fun clone hclone => absurd hclone (Option.some_ne_none clone).symm⟩
  | getReadTasks parallelism perTaskRowLimit =>
    unfold Member.serve
    rw [run_datasource, run_clone, ClickHouseDatasource.after_getReadTasks]
    exact ⟨hensured, fun clone hclone => absurd hclone (Option.some_ne_none clone).symm⟩

/-- The families that calls make whose discovery answers from the stored rows. -/
inductive StaticFamily (db : StaticDatabase ρ) (ray : RayVersion) (config : ReadConfig) :
    List Member → Prop
  | root : StaticFamily db ray config [⟨ClickHouseDatasource.ofConfig config, []⟩]
  | call {family : List Member} {m : Member} (index : ℕ) (answers : Answers) (request : Request)
      (previous : StaticFamily db ray config family) (hmember : family[index]? = some m)
      (htruthful : Truthful db m.datasource answers) :
      StaticFamily db ray config (served ray family index m answers request)

variable {family : List Member}

theorem StaticFamily.unrestricted (h : StaticFamily db ray config family) : Family ray config family := by
  induction h with
  | root => exact .root
  | call index answers request _ hmember _ ih => exact .call index answers request ih hmember

theorem StaticFamily.static (h : StaticFamily db ray config family) :
    ∀ m ∈ family, Static db m.datasource := by
  induction h with
  | root =>
    intro m hm
    rw [List.mem_singleton.mp hm]
    constructor
    · intro schema hschema
      cases hschema
    · intro snapshot hsnapshot
      cases hsnapshot
    · intro hne
      exact absurd rfl hne
    · intro l hl
      cases hl
  | @call family m index answers request previous hmember htruthful ih =>
    have hmem := List.mem_of_getElem? hmember
    obtain ⟨hmade, hclone⟩ := serve_static request (ih m hmem)
      (previous.unrestricted.consistent m hmem) htruthful
    intro m' hm'
    rcases List.mem_append.mp hm' with hm' | hm'
    · rcases List.mem_or_eq_of_mem_set hm' with hm' | rfl
      · exact ih m' hm'
      · exact hmade
    · exact hclone m' (Option.mem_toList.mp hm')

end Families

section Meaning

variable [UnicodeDatabase] {ρ : Type*} {db : StaticDatabase ρ} {ray : RayVersion}
variable {config : ReadConfig} {m : Member} {answers : Answers}

omit [UnicodeDatabase] in
theorem reported_eq_none {accepted : List Accepted} {expr : Option RayExpr}
    (h : reported expr accepted = none) : expr = none ∧ ∀ e, .predicate e ∉ accepted := by
  induction accepted generalizing expr with
  | nil => exact ⟨h, fun e he => absurd he List.not_mem_nil⟩
  | cons first rest ih =>
    cases first with
    | projection projectionMap =>
      obtain ⟨hexpr, hrest⟩ := ih h
      refine ⟨hexpr, ?_⟩
      intro e he
      rcases List.mem_cons.mp he with he | he
      · cases he
      · exact hrest e he
    | predicate next =>
      obtain ⟨hnone, -⟩ := ih h
      cases hnone

omit [UnicodeDatabase] in
/-- The pushed conjunction holds on a row exactly when every accepted expression does. -/
theorem conjoined_yes {accepted : List Accepted} {node : PredicateNode} {row : PredicateMeaning.Row}
    (hdecodes : Decodes ray accepted) (hnode : conjoin ray none accepted = some node) :
    nodeTruth row node = some .yes ↔
      ∀ e, .predicate e ∈ accepted → exprTruth row e = some .yes := by
  have halike : Alike row (conjoin ray none accepted) (reported none accepted) :=
    conjoin_alike hdecodes .none
  rw [hnode] at halike
  cases hreported : reported none accepted with
  | none =>
    rw [hreported] at halike
    cases halike
  | some whole =>
    rw [hreported] at halike
    cases halike with
    | some hsame =>
      rw [hsame, reported_yes hreported]
      simp

/-- The predicate of a member is true on a row exactly when every accepted expression is. -/
theorem predicate_yes (hlawful : db.Lawful) (h : Static db m.datasource)
    (hm : m.Consistent ray config) (hpushes : Pushes ray m) {r : ρ}
    (hfits : RowFits db.schema (db.row r)) :
    db.predicateTruth m.datasource.pushedPredicate r = .yes ↔
      ∀ e, .predicate e ∈ m.accepted → exprTruth (db.row r) e = some .yes := by
  cases hpushed : m.datasource.pushedPredicate with
  | none =>
    have hnone := hm.unpushed.mpr hpushed
    rw [hm.predicateNode] at hnone
    have halike : Alike (db.row r) (conjoin ray none m.accepted) (reported none m.accepted) :=
      conjoin_alike hpushes.decodes .none
    rw [hnone] at halike
    have hreported : reported none m.accepted = none := by
      cases hcase : reported none m.accepted with
      | none => rfl
      | some whole =>
        rw [hcase] at halike
        cases halike
    obtain ⟨-, hempty⟩ := reported_eq_none hreported
    exact ⟨fun _ e he => absurd he (hempty e), fun _ => rfl⟩
  | some p =>
    obtain ⟨node, schema, hnode, hschema, hcompile⟩ := hpushes.compiled p hpushed
    obtain rfl := h.schema schema hschema
    obtain ⟨f, hreads, hmeaning⟩ := compiled_meaning hcompile le_rfl
    obtain ⟨t, ht, hsql⟩ := hmeaning (db.row r) hfits
    have hvalue : db.predicateTruth (some p) r = t :=
      hlawful.evaluates p.sql p.parameters f r t hreads hsql
    rw [hm.predicateNode] at hnode
    rw [hvalue, ← conjoined_yes hpushes.decodes hnode, ht, Option.some.injEq]

/-- The whole condition of a member is its filter and everything accepted for it. -/
theorem whole_yes (hlawful : db.Lawful) (h : Static db m.datasource)
    (hm : m.Consistent ray config) (hpushes : Pushes ray m) {r : ρ}
    (hfits : RowFits db.schema (db.row r)) :
    whole (viewOf db m.datasource) r m.datasource.config.filterSql
        m.datasource.pushedPredicate = .yes ↔
      db.filterTruth config.filterSql config.queryParameters r = .yes ∧
        m.accepted.all (holds (db.row r)) = true := by
  have hfilter : (if m.datasource.config.filterSql.isSome then (viewOf db m.datasource).filter r
      else .yes) = db.filterTruth config.filterSql config.queryParameters r := by
    unfold viewOf StaticDatabase.view
    rw [hm.config_eq]
    cases hsql : config.filterSql with
    | none => rfl
    | some filter => rfl
  have hpredicate : (if m.datasource.pushedPredicate.isSome then
      (viewOf db m.datasource).predicate r else .yes) =
      db.predicateTruth m.datasource.pushedPredicate r := by
    unfold viewOf StaticDatabase.view
    cases hpushed : m.datasource.pushedPredicate with
    | none => rfl
    | some p => rfl
  have haccepted : m.accepted.all (holds (db.row r)) = true ↔
      ∀ e, .predicate e ∈ m.accepted → exprTruth (db.row r) e = some .yes := by
    rw [List.all_eq_true]
    constructor
    · intro hall e he
      exact of_decide_eq_true (hall _ he)
    · intro hall a ha
      cases a with
      | predicate e => exact decide_eq_true (hall e ha)
      | projection projectionMap => rfl
  unfold whole
  rw [hfilter, hpredicate, Truth.and_eq_yes, haccepted, predicate_yes hlawful h hm hpushes hfits]

/-- The rows that the filter of a read and every accepted expression keep. -/
def wanted (db : StaticDatabase ρ) (config : ReadConfig) (accepted : List Accepted) : Multiset ρ :=
  (db.stored config.connection config.table).filter fun r =>
    db.filterTruth config.filterSql config.queryParameters r = .yes ∧
      accepted.all (holds (db.row r)) = true

/-- What getReadTasks plans from, after it planned. -/
theorem getReadTasks_eq_ok {d after : ClickHouseDatasource} {parallelism : ℤ} {limit : Option ℤ}
    {tasks : List ReadTask}
    (h : (ClickHouseDatasource.getReadTasks answers parallelism limit).call d =
      (.ok tasks, after)) :
    ∃ snapshot, ∃ source : Source,
      (ClickHouseDatasource.ensurePlanningSnapshot answers).call d = (.ok snapshot, after) ∧
      source.toDirectSource = after.planned snapshot ∧ source.localSources = after.localSources ∧
      source.getReadTasks parallelism limit = .ok tasks := by
  unfold ClickHouseDatasource.getReadTasks at h
  rw [Planner.call_bind] at h
  cases hensure : (ClickHouseDatasource.ensurePlanningSnapshot answers).call d with
  | mk result d' =>
    rw [hensure] at h
    cases result with
    | error failure => cases h
    | ok snapshot =>
      simp only [Planner.call_get_bind, Planner.call_attempt] at h
      obtain ⟨htasks, rfl⟩ := Prod.mk.inj h
      exact ⟨snapshot, _, rfl, rfl, rfl, htasks⟩

/-- A static plan reads the rows that filter and predicate keep, each of them once, and keeps
to the budget. -/
theorem plan_static {d : ClickHouseDatasource} {snapshot : DiscoverySnapshot} {source : Source}
    {parallelism : ℤ} {limit : Option ℤ} {tasks : List ReadTask} (h : Static db d)
    (hsnapshot : d.planningSnapshot = some snapshot)
    (hsource : source.toDirectSource = d.planned snapshot)
    (hlocal : source.localSources = d.localSources)
    (hplan : source.getReadTasks parallelism limit = .ok tasks) :
    (tasks.map (ReadTask.rows (viewOf db d) db.stored)).sum =
      select (storedOf db d) (fun r =>
        whole (viewOf db d) r d.config.filterSql d.pushedPredicate) ∧
      1 ≤ tasks.length ∧ tasks.length ≤ taskCount d.config parallelism := by
  have hconfig : source.config = d.config := by
    rw [hsource]
    rfl
  have hpushed : source.pushedPredicate = d.pushedPredicate := by
    rw [hsource]
    rfl
  by_cases hnone : source.localSources = []
  · unfold Source.getReadTasks at hplan
    rw [if_pos hnone, hsource] at hplan
    obtain ⟨-, hexact⟩ := h.planned snapshot hsnapshot
    obtain ⟨-, hpos, hle⟩ := tasks_cover hplan hexact
    exact ⟨plan_rows (viewOf db d) db.stored hplan hexact, hpos, hle⟩
  · have hprepared : source.Prepared := by
      intro l hl
      obtain ⟨hf, hp, -⟩ := h.locals l (hlocal ▸ hl)
      rw [hconfig, hpushed]
      exact ⟨hf, hp⟩
    have hexact : ∀ l ∈ source.localSources, SnapshotExact l (viewOf db d) (l.stored db.stored) :=
      fun l hl => (h.locals l (hlocal ▸ hl)).snapshot
    obtain ⟨-, -, -, -, hpos, hle⟩ := groups_spec hnone hplan
    rw [hconfig] at hle
    refine ⟨?_, hpos, hle⟩
    rw [groups_rows (viewOf db d) db.stored hnone hplan hprepared hexact, hconfig, hpushed, hlocal,
      h.shards (hlocal ▸ hnone)]

section Members

variable {family : List Member} {parallelism : ℤ} {limit : Option ℤ} {tasks : List ReadTask}
variable {after : ClickHouseDatasource}

/-- After a call for tasks the member is static and reads what it read before. -/
theorem getReadTasks_static (h : StaticFamily db ray config family) (hm : m ∈ family)
    (htruthful : Truthful db m.datasource answers)
    (htasks : (ClickHouseDatasource.getReadTasks answers parallelism limit).call m.datasource =
      (.ok tasks, after)) :
    Static db after ∧ SameRead m.datasource after ∧
    ∃ snapshot, ∃ source : Source, after.planningSnapshot = some snapshot ∧
      source.toDirectSource = after.planned snapshot ∧ source.localSources = after.localSources ∧
      source.getReadTasks parallelism limit = .ok tasks := by
  have hconsistent := h.unrestricted.consistent m hm
  obtain ⟨snapshot, source, hensure, hsource, hlocal, hplan⟩ := getReadTasks_eq_ok htasks
  have hensured := ensure_static (h.static m hm) htruthful hconsistent.cache
  rw [hensure] at hensured
  have hcases : (∃ failure, (ClickHouseDatasource.ensurePlanningSnapshot answers).call
      m.datasource = (.error failure, m.datasource)) ∨ _ :=
    ClickHouseDatasource.ensure_steps hconsistent.cache
  rcases hcases with ⟨failure, hcall⟩ | ⟨found, d', hcall, hsteps, hfound, -⟩
  · rw [hensure] at hcall
    cases hcall
  · rw [hensure] at hcall
    obtain ⟨hok, rfl⟩ := Prod.mk.inj hcall
    obtain rfl := Except.ok.inj hok
    have hidentity := hsteps.identity
    exact ⟨hensured, ⟨hidentity.config, hidentity.pushedPredicate, hidentity.predicateSchema⟩,
      snapshot, source, hfound, hsource, hlocal, hplan⟩

/-- What a member keeps of its table is what was accepted for it. -/
theorem select_wanted (hlawful : db.Lawful) (h : StaticFamily db ray config family)
    (hm : m ∈ family) :
    (select (storedOf db m.datasource) fun r => whole (viewOf db m.datasource) r
      m.datasource.config.filterSql m.datasource.pushedPredicate) =
        wanted db config m.accepted := by
  have hconsistent := h.unrestricted.consistent m hm
  have hpushes := family_pushes h.unrestricted m hm
  unfold wanted select storedOf
  rw [hconsistent.config_eq]
  apply Multiset.filter_congr
  intro r hr
  have hwhole := whole_yes hlawful (h.static m hm) hconsistent hpushes (hlawful.fits _ _ r hr)
  rwa [hconsistent.config_eq] at hwhole

/-- In every order of calls on static tables, the tasks of a member read together exactly the
rows on which the filter and every expression accepted for it hold, each of them once, from the
table itself or from the shards that hold its rows; there are as many as the budget allows. -/
theorem static_reads (hlawful : db.Lawful) (h : StaticFamily db ray config family) (hm : m ∈ family)
    (htruthful : Truthful db m.datasource answers)
    (htasks : (ClickHouseDatasource.getReadTasks answers parallelism limit).call m.datasource =
      (.ok tasks, after)) :
    (tasks.map (ReadTask.rows (viewOf db m.datasource) db.stored)).sum =
      wanted db config m.accepted ∧
      1 ≤ tasks.length ∧ tasks.length ≤ taskCount config parallelism := by
  obtain ⟨hstatic, hsame, snapshot, source, hsnapshot, hsource, hlocal, hplan⟩ :=
    getReadTasks_static h hm htruthful htasks
  obtain ⟨hrows, hpos, hle⟩ := plan_static hstatic hsnapshot hsource hlocal hplan
  rw [hsame.view, hsame.stored, hsame.config, hsame.pushedPredicate,
    select_wanted hlawful h hm] at hrows
  rw [hsame.config, (h.unrestricted.consistent m hm).config_eq] at hle
  exact ⟨hrows, hpos, hle⟩

end Members

end Meaning

section Example

def keySchema : SchemaPlan :=
  { arrowSchema := [⟨"k".toList, .integer ⟨true, .w64⟩, false⟩]
    columns := [keyColumn] }

def readTruth (row : PredicateMeaning.Row) (text : Text) (parameters : Bindings) : Truth :=
  match @tokens asciiDatabase text with
  | .ok ts =>
      match (@reader asciiDatabase keySchema.columns).expression 66 ts with
      | .ok (f, []) => (@sqlTruth asciiDatabase row parameters f).getD .unknown
      | _ => .unknown
  | .error _ => .unknown

def keyRows : Multiset ℤ := {1, 5, 7}

def keyDatabase : StaticDatabase ℤ where
  stored := fun _ _ => keyRows
  partitionId := fun _ => "all".toList
  row k := fun _ => .int k
  evaluate text parameters k := readTruth (fun _ => .int k) text parameters
  schema := keySchema

theorem keyDatabase_lawful : @StaticDatabase.Lawful _ keyDatabase asciiDatabase := by
  let _ := asciiDatabase
  constructor
  · intro connection table k hk node name declared dtype h
    have hbounds : (⟨true, .w64⟩ : IntegerType).Contains k := by
      have hmem : k = 1 ∨ k = 5 ∨ k = 7 := by
        simpa [keyDatabase, keyRows] using hk
      rcases hmem with rfl | rfl | rfl <;> decide
    obtain ⟨children, rfl⟩ := columnType_node h
    obtain ⟨-, column, -, -, hcolumn, -⟩ := columnType_eq_ok h
    obtain ⟨rfl, hmem⟩ := columnNamed_spec hcolumn
    have hnone : ∀ name, columnType keyDatabase.schema (.node .column children (.str name)) =
        columnType keyDatabase.schema (.node .column [] (.str name)) := fun _ => rfl
    rw [hnone] at h
    obtain rfl := List.mem_singleton.mp hmem
    have hkey : columnType keyDatabase.schema (.node .column [] (.str keyColumn.name)) =
        .ok ("k".toList, .integer ⟨true, .w64⟩, .integer ⟨true, .w64⟩) := by
      decide +kernel
    cases h.symm.trans hkey
    exact .integer hbounds
  · rintro text parameters f k t ⟨ts, htokens, hread⟩ ht
    have hread' : (reader keySchema.columns).expression 66 ts = .ok (f, []) := hread
    have ht' : sqlTruth (fun _ => .int k) parameters f = some t := ht
    show readTruth _ text parameters = t
    unfold readTruth
    rw [htokens]
    simp only
    rw [hread']
    simp only
    rw [ht']
    rfl

def silentNode : Node where
  server := ⟨exampleConnection 'a', fun _ _ => .error (.error none "timeout".toList)⟩
  probe := fun _ => .error (.error none "timeout".toList)
  representable := fun _ => true

def keyNode (d : @ClickHouseDatasource asciiDatabase) : Node where
  server := ⟨exampleConnection 'a', fun _ _ =>
    .ok ⟨[], [aggregateRow (select keyRows fun r =>
      whole (@viewOf asciiDatabase _ keyDatabase d) r
        (@ClickHouseDatasource.config asciiDatabase d).filterSql
        (@ClickHouseDatasource.pushedPredicate asciiDatabase d)) some none]⟩⟩
  probe := fun _ => .error (.error none "timeout".toList)
  representable := fun _ => true

def keyAnswers (d : @ClickHouseDatasource asciiDatabase) : Answers :=
  let _ := asciiDatabase
  { unreachable with
    discoverSchema := .ok keySchema
    discoverEngine := .ok "MergeTree".toList
    discoverPartitions := TableDiscovery.discoverPartitions silentNode d.config.table
    discoverRangeFacts := fun column => discoverRangeFacts (keyNode d) d.config.table column
      d.config.filterSql d.config.queryParameters d.pushedPredicate
    discoverSortingKey := .ok "k".toList
    discoverPredicateContext := .ok true
    localRangeFacts := fun target column => discoverRangeFacts (keyNode d) target.table column
      d.config.filterSql d.config.queryParameters d.pushedPredicate }

theorem keyNode_truthful (d : @ClickHouseDatasource asciiDatabase) (table : QualifiedTable)
    (column : TargetColumn) :
    @AnswersAggregate asciiDatabase _ (keyNode d) table column
      (@ClickHouseDatasource.config asciiDatabase d).filterSql
      (@ClickHouseDatasource.config asciiDatabase d).queryParameters
      (@ClickHouseDatasource.pushedPredicate asciiDatabase d)
      (@viewOf asciiDatabase _ keyDatabase d) keyRows := by
  let _ := asciiDatabase
  intro hinteger filter q result hfilter hq hanswer
  obtain rfl := Except.ok.inj hanswer
  rw [select_rangeRequest hfilter d.compiled hq]
  exact ⟨none, rfl⟩

theorem keyAnswers_truthful (d : @ClickHouseDatasource asciiDatabase) :
    @Truthful asciiDatabase _ keyDatabase d (keyAnswers d) := by
  let _ := asciiDatabase
  constructor
  · intro schema hschema
    exact (Except.ok.inj hschema).symm
  · refine ⟨silentNode, [], ⟨?_, ?_⟩, rfl⟩
    · intro result hresult
      cases hresult
    · intro result hresult
      cases hresult
  · exact ⟨keyNode d, fun column _ => keyNode_truthful d _ column, fun column => rfl⟩
  · intro resolved hresolved
    cases hresolved
  · intro resolved hresolved
    cases hresolved
  · intro target
    exact ⟨keyNode d, fun column _ => keyNode_truthful d _ column, fun column => rfl⟩

def keyExpr : RayExpr := .binary (.compare .lt) (.literal (.int 3)) (.column "k".toList)

def keyFamily : List (@Member asciiDatabase) :=
  let _ := asciiDatabase
  served (some (2, 59, 0)) [exampleRoot] 0 exampleRoot (keyAnswers exampleRoot.datasource)
    (.applyPredicate keyExpr)

theorem keyFamily_static :
    @StaticFamily asciiDatabase _ keyDatabase (some (2, 59, 0)) (exampleConfig 'a') keyFamily := by
  let _ := asciiDatabase
  have hroot : StaticFamily keyDatabase (some (2, 59, 0)) (exampleConfig 'a') [exampleRoot] := .root
  exact StaticFamily.call 0 (keyAnswers exampleRoot.datasource) (.applyPredicate keyExpr) hroot rfl
    (keyAnswers_truthful exampleRoot.datasource)

def keyReads (m : @Member asciiDatabase) :
    Outcome (List ReadTask) × @ClickHouseDatasource asciiDatabase :=
  let _ := asciiDatabase
  (ClickHouseDatasource.getReadTasks (keyAnswers m.datasource) 2 none).call m.datasource

theorem static_reads_example :
    ∃ m ∈ keyFamily, ∃ tasks, (keyReads m).1 = .ok tasks ∧ tasks.length = 2 ∧
      (tasks.map (ReadTask.rows
        (@viewOf asciiDatabase _ keyDatabase (@Member.datasource asciiDatabase m))
        keyDatabase.stored)).sum = {5, 7} := by
  let _ := asciiDatabase
  have hcheck : keyFamily[1]?.any (fun m =>
      Outcome.check (keyReads m).1 (fun tasks => decide (tasks.length = 2)) &&
      decide (wanted keyDatabase (exampleConfig 'a') m.accepted = {5, 7})) = true := by
    decide +kernel
  rw [Option.any_eq_true] at hcheck
  obtain ⟨m, hm, hcheck⟩ := hcheck
  rw [Bool.and_eq_true, decide_eq_true_eq] at hcheck
  obtain ⟨tasks, htasks, hlen⟩ := Outcome.check_eq_true.mp hcheck.1
  have hmem := List.mem_of_getElem? hm
  have hcall : keyReads m = (.ok tasks, (keyReads m).2) := by
    rw [← htasks]
  have hrows := static_reads keyDatabase_lawful keyFamily_static hmem
    (keyAnswers_truthful m.datasource) hcall
  exact ⟨m, hmem, tasks, htasks, of_decide_eq_true hlen, hrows.1.trans hcheck.2⟩

end Example

end RayClickHouse.StaticReads
