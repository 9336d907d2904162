import RayClickHouse.Coverage

/-!
Global scheduling of local shard scans. The budget is shared among the shards,
each shard plans its own scans, and the scans are dealt round robin to the
tasks: none is dropped or repeated, so the tasks together read every shard.
-/
namespace RayClickHouse.Datasource

open Text Schema Predicates Planning Discovery RayClickHouse.Distribution Sql ThreeValued

section Plan

variable [UnicodeDatabase] {parallelism : ℤ} {limit : Option ℤ} {tasks : List ReadTask}

section Shards

variable {s : DirectSource}

/-- A plan is never empty, whatever the snapshot says. -/
theorem constraints_pos {cs : List DirectSource.Constraint}
    (h : s.constraints parallelism = .ok cs) : 1 ≤ cs.length := by
  obtain ⟨hcount, hmax, _⟩ := taskCount_bounds s.config parallelism
  unfold DirectSource.constraints at h
  simp only at h
  split at h
  · cases Except.ok.inj h
    exact le_rfl
  · split at h
    · rename_i hpartition
      have hne := groupPartitions_ne_nil hcount hmax hpartition.2
      rw [if_neg hne] at h
      cases Except.ok.inj h
      rw [List.length_map]
      exact List.length_pos_iff.mpr hne
    · split at h
      · split at h
        · obtain ⟨ranges, _, hcs⟩ := Except.bind_eq_ok.mp h
          cases Except.ok.inj hcs
          by_cases hnil : ranges = []
          · rw [if_pos hnil]
            exact le_rfl
          · rw [if_neg hnil, List.length_map]
            exact List.length_pos_iff.mpr hnil
        · cases Except.ok.inj h
          exact le_rfl
      · cases Except.ok.inj h
        exact le_rfl

theorem tasks_pos (h : s.getReadTasks parallelism limit = .ok tasks) : 1 ≤ tasks.length := by
  obtain ⟨_, cs, hcs, htasks⟩ := tasks_eq_ok h
  have hlen := htasks.length_eq
  have hpos := constraints_pos hcs
  omega

end Shards

section Groups

variable {s : Source}

/-- The plan of every shard under its share of the budget, in the order of the shards. -/
def ShardPlans (s : Source) (parallelism : ℤ) (plans : List (List ReadTask)) : Prop :=
  List.Forall₂ (fun source plan => source.getReadTasks (s.shardBudget parallelism) = .ok plan)
    s.localSources plans

theorem plans_length {budget : ℤ} {sources : List DirectSource} {plans : List (List ReadTask)}
    (h : List.Forall₂ (fun source plan => source.getReadTasks budget = .ok plan) sources plans) :
    sources.length ≤ plans.flatten.length := by
  induction h with
  | nil => exact le_rfl
  | cons hplan _ ih =>
    have hpos := tasks_pos hplan
    simp only [List.length_cons, List.flatten_cons, List.length_append]
    omega

/-- Every planned task holds one scan. -/
theorem shardPlans_scan {plans : List (List ReadTask)} (h : ShardPlans s parallelism plans) :
    ∀ t ∈ plans.flatten, t.scans.length = 1 := by
  intro t ht
  obtain ⟨plan, hplan, htask⟩ := List.mem_flatten.mp ht
  obtain ⟨source, _, hsource⟩ := exists_of_mem_forall₂ h hplan
  obtain ⟨scan, hscan, _⟩ := tasks_single_scan hsource t htask
  rw [hscan]
  rfl

theorem groups_eq_ok (hlocal : s.localSources ≠ [])
    (h : s.getReadTasks parallelism limit = .ok tasks) :
    ∃ plans schema, ShardPlans s parallelism plans ∧
      tasks = (roundRobin (min (taskCount s.config parallelism) plans.flatten.length)
        plans.flatten).map fun group => groupReadTasks group schema limit := by
  unfold Source.getReadTasks at h
  rw [if_neg hlocal] at h
  obtain ⟨columns, _, h₁⟩ := Except.bind_eq_ok.mp h
  obtain ⟨plans, hplans, h₂⟩ := Except.bind_eq_ok.mp h₁
  obtain ⟨schema, _, h₃⟩ := Except.bind_eq_ok.mp h₂
  exact ⟨plans, schema, Except.mapM_eq_ok.mp hplans, (Except.ok.inj h₃).symm⟩

/-- Regrouping keeps every scan of every shard: the tasks hold each of them once,
none of the tasks is empty, and their number respects the budget. -/
theorem groups_spec (hlocal : s.localSources ≠ [])
    (h : s.getReadTasks parallelism limit = .ok tasks) :
    ∃ plans, ShardPlans s parallelism plans ∧
      (tasks.flatMap ReadTask.scans).Perm (plans.flatten.flatMap ReadTask.scans) ∧
      (∀ t ∈ tasks, 1 ≤ t.scans.length) ∧ 1 ≤ tasks.length ∧
      tasks.length ≤ taskCount s.config parallelism := by
  obtain ⟨plans, schema, hplans, rfl⟩ := groups_eq_ok hlocal h
  obtain ⟨hcount, _, _⟩ := taskCount_bounds s.config parallelism
  have hshards := List.length_pos_iff.mpr hlocal
  have hscans := plans_length hplans
  have hgroups : 0 < min (taskCount s.config parallelism) plans.flatten.length := by
    rw [lt_min_iff]
    constructor <;> omega
  refine ⟨plans, hplans, ?_, ?_, ?_, ?_⟩
  · rw [List.flatMap_map]
    have hflat : ∀ groups : List (List ReadTask),
        groups.flatMap (fun g => g.flatMap ReadTask.scans) = groups.flatten.flatMap ReadTask.scans := by
      intro groups
      induction groups with
      | nil => rfl
      | cons g rest ih => rw [List.flatMap_cons, List.flatten_cons, List.flatMap_append, ih]
    show ((roundRobin _ _).flatMap fun g => g.flatMap ReadTask.scans).Perm _
    rw [hflat]
    exact (flatten_roundRobin_perm _ _ hgroups).flatMap_right _
  · intro t ht
    obtain ⟨group, hgroup, rfl⟩ := List.mem_map.mp ht
    obtain ⟨task, htask⟩ := List.exists_mem_of_ne_nil _
      (roundRobin_ne_nil (min_le_right _ _) group hgroup)
    have hmem : task ∈ plans.flatten := by
      apply (flatten_roundRobin_perm _ _ hgroups).mem_iff.mp
      exact List.mem_flatten_of_mem hgroup htask
    have hlen := shardPlans_scan hplans task hmem
    obtain ⟨scan, hscan⟩ := List.length_eq_one_iff.mp hlen
    have hin : scan ∈ group.flatMap ReadTask.scans :=
      List.mem_flatMap.mpr ⟨task, htask, by simp [hscan]⟩
    exact List.length_pos_of_mem hin
  · rw [List.length_map, length_roundRobin]
    exact hgroups
  · rw [List.length_map, length_roundRobin]
    exact min_le_left _ _

end Groups

section Rows

variable {ρ : Type*} (v : RowView ρ) (tables : ClickHouseConnection → QualifiedTable → Multiset ρ)

def Scan.rows (scan : Scan) : Multiset ρ :=
  select (tables scan.connection scan.table) (scan.truth v)

def ReadTask.rows (task : ReadTask) : Multiset ρ := (task.scans.map (Scan.rows v tables)).sum

/-- The rows stored in the table of a source. -/
def DirectSource.stored (s : DirectSource) : Multiset ρ := tables s.config.connection s.config.table

omit [UnicodeDatabase] in
theorem sum_rows (tasks : List ReadTask) :
    (tasks.map (ReadTask.rows v tables)).sum =
      ((tasks.flatMap ReadTask.scans).map (Scan.rows v tables)).sum := by
  induction tasks with
  | nil => rfl
  | cons t rest ih =>
    rw [List.map_cons, List.sum_cons, ih, List.flatMap_cons, List.map_append, List.sum_append]
    rfl

/-- The plan of one table reads its kept rows, each of them once. -/
theorem plan_rows {s : DirectSource} (h : s.getReadTasks parallelism limit = .ok tasks)
    (hexact : SnapshotExact s v (s.stored tables)) :
    (tasks.map (ReadTask.rows v tables)).sum =
      select (s.stored tables) fun r => whole v r s.config.filterSql s.pushedPredicate := by
  obtain ⟨hcover, _, _⟩ := tasks_cover h hexact
  have hscans := tasks_single_scan h
  rw [sum_rows, ← hcover.sum_select, List.map_map]
  congr 1
  apply List.map_congr_left
  intro scan hscan
  obtain ⟨t, ht, hmem⟩ := List.mem_flatMap.mp hscan
  obtain ⟨scan', hsingle, hconnection, htable⟩ := hscans t ht
  rw [hsingle, List.mem_singleton] at hmem
  subst hmem
  unfold Scan.rows DirectSource.stored
  rw [hconnection, htable]
  rfl

/-- Local sources share the filter and the predicate of the logical source. -/
def Source.Prepared (s : Source) : Prop :=
  ∀ l ∈ s.localSources,
    l.config.filterSql = s.config.filterSql ∧ l.pushedPredicate = s.pushedPredicate

theorem plans_rows {budget : ℤ} {condition : ρ → Truth} {sources : List DirectSource}
    {plans : List (List ReadTask)}
    (h : List.Forall₂ (fun source plan => source.getReadTasks budget = .ok plan) sources plans)
    (hexact : ∀ l ∈ sources, SnapshotExact l v (l.stored tables))
    (hwhole : ∀ l ∈ sources,
      (fun r => whole v r l.config.filterSql l.pushedPredicate) = condition) :
    (plans.flatten.map (ReadTask.rows v tables)).sum =
      select ((sources.map (DirectSource.stored tables)).sum) condition := by
  induction h with
  | nil => rfl
  | @cons source plan sources plans hplan _ ih =>
    have hhead := plan_rows v tables hplan (hexact source (List.mem_cons_self ..))
    have hrest := ih (fun l hl => hexact l (List.mem_cons_of_mem _ hl))
      (fun l hl => hwhole l (List.mem_cons_of_mem _ hl))
    rw [hwhole source (List.mem_cons_self ..)] at hhead
    rw [List.flatten_cons, List.map_append, List.sum_append, hhead, hrest, List.map_cons,
      List.sum_cons]
    exact (Multiset.filter_add _ _ _).symm

theorem groups_rows {s : Source} (hlocal : s.localSources ≠ [])
    (h : s.getReadTasks parallelism limit = .ok tasks) (hprepared : s.Prepared)
    (hexact : ∀ l ∈ s.localSources, SnapshotExact l v (l.stored tables)) :
    (tasks.map (ReadTask.rows v tables)).sum =
      select ((s.localSources.map (DirectSource.stored tables)).sum)
        fun r => whole v r s.config.filterSql s.pushedPredicate := by
  obtain ⟨plans, hplans, hperm, _⟩ := groups_spec hlocal h
  rw [sum_rows, (hperm.map _).sum_eq, ← sum_rows]
  apply plans_rows v tables hplans hexact
  intro l hl
  obtain ⟨hfilter, hpushed⟩ := hprepared l hl
  rw [hfilter, hpushed]

/-- Global scheduling of local shard scans: the number of tasks is within the
budget, every task holds a scan, and the tasks together hold exactly the scans
of the shards' own plans. With exact facts they read every kept row of every
shard once, whatever the parallelism. -/
theorem shard_tasks_cover {s : Source} (hlocal : s.localSources ≠ [])
    (h : s.getReadTasks parallelism limit = .ok tasks) :
    1 ≤ tasks.length ∧
      (tasks.length : ℤ) ≤
        max 1 (min (min (max 1 parallelism) s.config.targetTasks) s.config.maxTasks) ∧
      (∀ t ∈ tasks, 1 ≤ t.scans.length) ∧
      (∃ plans, ShardPlans s parallelism plans ∧
        (tasks.flatMap ReadTask.scans).Perm (plans.flatten.flatMap ReadTask.scans)) ∧
      (s.Prepared → (∀ l ∈ s.localSources, SnapshotExact l v (l.stored tables)) →
        (tasks.map (ReadTask.rows v tables)).sum =
            select ((s.localSources.map (DirectSource.stored tables)).sum)
              (fun r => whole v r s.config.filterSql s.pushedPredicate) ∧
          ∀ parallelism' limit' tasks', s.getReadTasks parallelism' limit' = .ok tasks' →
            (tasks'.map (ReadTask.rows v tables)).sum =
              (tasks.map (ReadTask.rows v tables)).sum) := by
  obtain ⟨plans, hplans, hperm, hscans, hpos, hle⟩ := groups_spec hlocal h
  obtain ⟨_, _, hcount⟩ := taskCount_bounds s.config parallelism
  refine ⟨hpos, by omega, hscans, ⟨plans, hplans, hperm⟩, ?_⟩
  intro hprepared hexact
  have hrows := groups_rows v tables hlocal h hprepared hexact
  refine ⟨hrows, ?_⟩
  intro parallelism' limit' tasks' h'
  rw [groups_rows v tables hlocal h' hprepared hexact, hrows]

end Rows

section Prepare

variable {s : DirectSource} {sourceSchema : SchemaPlan}
  {discover : LocalTarget → TargetColumn → Outcome RangeFacts}

theorem prepareLocalSource_eq_ok {target : LocalTarget} {l : DirectSource}
    (h : prepareLocalSource s sourceSchema discover target = .ok l) :
    l.config.connection = target.connection ∧ l.config.table = target.table ∧
      l.config.filterSql = s.config.filterSql ∧ l.pushedPredicate = s.pushedPredicate ∧
      l.snapshot.partitions = target.partitions.getD [] := by
  unfold prepareLocalSource at h
  simp only at h
  split at h
  · simp [Outcome.raise] at h
  · obtain ⟨facts, _, hl⟩ := Except.bind_eq_ok.mp h
    cases Except.ok.inj hl
    exact ⟨rfl, rfl, rfl, rfl, rfl⟩

/-- Preparation makes one local source for each target, in their order. -/
theorem prepareLocalSources_prepared {targets : List LocalTarget} {sources : List DirectSource}
    (h : prepareLocalSources s sourceSchema discover targets = .ok sources) :
    List.Forall₂ (fun target l => l.config.connection = target.connection ∧
        l.config.table = target.table) targets sources ∧
      Source.Prepared { s with localSources := sources } := by
  have hall := Except.mapM_eq_ok.mp h
  constructor
  · apply hall.imp
    intro target l hl
    obtain ⟨hconnection, htable, _⟩ := prepareLocalSource_eq_ok hl
    exact ⟨hconnection, htable⟩
  · intro l hl
    obtain ⟨target, _, hsource⟩ := exists_of_mem_forall₂ hall hl
    obtain ⟨_, _, hfilter, hpushed, _⟩ := prepareLocalSource_eq_ok hsource
    exact ⟨hfilter, hpushed⟩

end Prepare

end Plan

section Example

def exampleShards : @Source asciiDatabase :=
  @Source.mk asciiDatabase (exampleDirect 'a') [exampleDirect 'a', exampleDirect 'b']

theorem shard_tasks_cover_example :
    ∃ tasks, @Source.getReadTasks asciiDatabase exampleShards 4 none = .ok tasks ∧
      tasks.length = 4 ∧
      (tasks.map (ReadTask.rows exampleView fun _ _ => exampleRows)).sum =
        select (exampleRows + exampleRows) (fun r => whole exampleView r none none) := by
  have hok : Outcome.check (@Source.getReadTasks asciiDatabase exampleShards 4 none)
      (fun tasks => decide (tasks.length = 4)) = true := by
    decide +kernel
  obtain ⟨tasks, htasks, hlen⟩ := Outcome.check_eq_true.mp hok
  obtain ⟨_, _, _, _, hrows⟩ := @shard_tasks_cover asciiDatabase 4 none tasks _ exampleView
    (fun _ _ => exampleRows) exampleShards (by simp [exampleShards]) htasks
  have hprepared : @Source.Prepared asciiDatabase exampleShards := by
    intro l hl
    rcases List.mem_cons.mp hl with rfl | hl
    · exact ⟨rfl, rfl⟩
    · rcases List.mem_singleton.mp hl with rfl
      exact ⟨rfl, rfl⟩
  have hexact : ∀ l ∈ @Source.localSources asciiDatabase exampleShards,
      @SnapshotExact _ asciiDatabase l exampleView exampleRows := by
    intro l hl
    rcases List.mem_cons.mp hl with rfl | hl
    · exact exampleDirect_exact 'a'
    · rcases List.mem_singleton.mp hl with rfl
      exact exampleDirect_exact 'b'
  exact ⟨tasks, htasks, of_decide_eq_true hlen, (hrows hprepared hexact).1⟩

end Example

end RayClickHouse.Datasource
