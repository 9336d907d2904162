import RayClickHouse.Datasource
import RayClickHouse.Selection

/-!
Exact coverage of a split read. Whatever the split mode, the tasks of a static
table read every row that satisfies filter and predicate exactly once.
-/
namespace RayClickHouse.Datasource

open Text Schema Predicates Planning Discovery RayClickHouse.Distribution Sql ThreeValued

section Lists

variable {α β : Type*}

/-- An item of a partition lies in exactly one of its groups. -/
theorem countP_mem_of_nodup [DecidableEq α] {groups : List (List α)} (h : groups.flatten.Nodup)
    {x : α} (hx : x ∈ groups.flatten) : groups.countP (fun g => decide (x ∈ g)) = 1 := by
  induction groups with
  | nil => simp at hx
  | cons g rest ih =>
    rw [List.flatten_cons] at h hx
    obtain ⟨_, hrest, hdisjoint⟩ := List.nodup_append'.mp h
    rw [List.countP_cons]
    by_cases hg : x ∈ g
    · have hzero : rest.countP (fun g => decide (x ∈ g)) = 0 := by
        rw [List.countP_eq_zero]
        intro g' hg'
        have hnot : x ∉ g' := fun hin => hdisjoint hg (List.mem_flatten_of_mem hg' hin)
        simpa using hnot
      rw [hzero]
      simp [hg]
    · have hin := (List.mem_append.mp hx).resolve_left hg
      rw [ih hrest hin]
      simp [hg]

end Lists

section Facts

variable {ρ : Type*}

/-- The facts of an integer key over the rows that a read keeps. Where no row has a key, a
server may answer NULL or the default of the type, the same for both ends. -/
structure FactsExact (kept : Multiset ρ) (key : ρ → Option ℤ) (facts : RangeFacts) : Prop where
  total : facts.totalRows = kept.card
  nulls : facts.nullRows = kept.countP (fun r => key r = none)
  minimum : ∀ k, IsLeast {k | ∃ r ∈ kept, key r = some k} k → facts.minimum = some k
  maximum : ∀ k, IsGreatest {k | ∃ r ∈ kept, key r = some k} k → facts.maximum = some k
  keyless : (∀ r ∈ kept, key r = none) → facts.minimum = facts.maximum

/-- The partitions of a table, each one listed once. -/
structure PartitionsExact (table : Multiset ρ) (partitionId : ρ → Text)
    (partitions : List PartitionInfo) : Prop where
  nodup : (partitions.map PartitionInfo.partitionId).Nodup
  complete : ∀ r ∈ table, partitionId r ∈ partitions.map PartitionInfo.partitionId

/-- What the planning snapshot says about the table is exact; it may say nothing. -/
structure SnapshotExact [UnicodeDatabase] (s : DirectSource) (v : RowView ρ) (table : Multiset ρ) :
    Prop where
  partitions : s.snapshot.partitions ≠ [] →
    PartitionsExact table v.partitionId s.snapshot.partitions
  rangeFacts : ∀ facts, s.snapshot.rangeFacts = some facts →
    FactsExact (select table fun r => whole v r s.config.filterSql s.pushedPredicate)
      (fun r => v.integer r facts.column) facts

variable {kept : Multiset ρ} {key : ρ → Option ℤ} {facts : RangeFacts} {minimum maximum : ℤ}

theorem mem_keys {k : ℤ} :
    k ∈ (kept.filterMap key).toFinset ↔ k ∈ {k | ∃ r ∈ kept, key r = some k} := by
  rw [Multiset.mem_toFinset, Multiset.mem_filterMap]
  rfl

/-- A key that some row has lies between the ends. -/
theorem FactsExact.bounds (h : FactsExact kept key facts) (hmin : facts.minimum = some minimum)
    (hmax : facts.maximum = some maximum) {k : ℤ} (hk : ∃ r ∈ kept, key r = some k) :
    minimum ≤ k ∧ k ≤ maximum := by
  have hkeys : ↑(kept.filterMap key).toFinset = {k | ∃ r ∈ kept, key r = some k} := by
    ext j
    exact mem_keys
  have hne : (kept.filterMap key).toFinset.Nonempty := ⟨k, mem_keys.mpr hk⟩
  have hleast := Finset.isLeast_min' _ hne
  have hgreatest := Finset.isGreatest_max' _ hne
  rw [hkeys] at hleast hgreatest
  obtain rfl := Option.some.inj (hmin.symm.trans (h.minimum _ hleast))
  obtain rfl := Option.some.inj (hmax.symm.trans (h.maximum _ hgreatest))
  exact ⟨hleast.2 hk, hgreatest.2 hk⟩

theorem FactsExact.minimum_le_maximum (h : FactsExact kept key facts)
    (hmin : facts.minimum = some minimum) (hmax : facts.maximum = some maximum) :
    minimum ≤ maximum := by
  by_cases hkey : ∃ k, ∃ r ∈ kept, key r = some k
  · obtain ⟨k, hk⟩ := hkey
    obtain ⟨hlow, hhigh⟩ := h.bounds hmin hmax hk
    omega
  · have hsame : facts.minimum = facts.maximum := by
      apply h.keyless
      intro r hr
      rw [Option.eq_none_iff_forall_ne_some]
      intro k hk
      exact hkey ⟨k, r, hr, hk⟩
    rw [hmin, hmax] at hsame
    exact (Option.some.inj hsame).le

end Facts

section Ranges

/-- A key between the ends of a chain lies within the bounds of exactly one of
its ranges, and NULL in the first one. -/
theorem countP_flagFirst {lower : ℤ} {is : List (HalfOpen ℤ)} {upper : Option ℤ}
    (h : Chain lower is upper) (includeNull : Bool) (key : Option ℤ)
    (hkey : ∀ k, key = some k → lower ≤ k ∧ HalfOpen.Below k upper)
    (hnull : key = none → includeNull = true) :
    (flagFirst includeNull is).countP
      (fun range => withinBounds range.lower range.upper range.includeNull key) = 1 := by
  cases key with
  | some k =>
    obtain ⟨hlow, hup⟩ := hkey k rfl
    have hcontains : ∀ flag (i : HalfOpen ℤ), withinBounds (ofHalfOpen flag i).lower
        (ofHalfOpen flag i).upper (ofHalfOpen flag i).includeNull (some k) =
          decide (i.Contains k) := by
      intro flag i
      obtain ⟨l, u⟩ := i
      rw [Bool.eq_iff_iff, decide_eq_true_iff]
      cases u <;> simp [ofHalfOpen, withinBounds, HalfOpen.Contains, HalfOpen.Below]
    rw [← h.countP_contains k hlow hup]
    cases is with
    | nil => rfl
    | cons i rest =>
      rw [flagFirst, List.countP_cons, List.countP_cons, hcontains, List.countP_map]
      congr 1
      apply List.countP_congr
      intro j _
      rw [Function.comp_apply, hcontains]
  | none =>
    cases is with
    | nil => exact absurd rfl h.ne_nil
    | cons i rest =>
      have hrest : (rest.map (ofHalfOpen false)).countP
          (fun range => withinBounds range.lower range.upper range.includeNull none) = 0 := by
        rw [List.countP_eq_zero]
        intro range hrange
        obtain ⟨j, _, rfl⟩ := List.mem_map.mp hrange
        simp [withinBounds, ofHalfOpen]
      rw [flagFirst, List.countP_cons, hrest, hnull rfl]
      simp [withinBounds, ofHalfOpen]

end Ranges

section Plan

variable [UnicodeDatabase] {ρ : Type*}

section Task

variable {s : DirectSource} {v : RowView ρ}

def Scan.truth (v : RowView ρ) (scan : Scan) (r : ρ) : Truth := scan.query.query.truth v r

def DirectSource.admits (s : DirectSource) (v : RowView ρ) (c : DirectSource.Constraint) (r : ρ) :
    Bool := (s.taskRequest [] [] c).admits v r

section Make

variable {columns : List Text} {limit : Option ℤ} {c : DirectSource.Constraint} {task : ReadTask}

theorem makeTask_eq_ok (h : s.makeTask columns limit c = .ok task) :
    ∃ scan scanned projection, task.scans = [scan] ∧ scan.connection = s.config.connection ∧
      scan.table = s.config.table ∧
      buildSelect (s.taskRequest scanned projection c) = .ok scan.query.query := by
  obtain ⟨scanned, _, h₁⟩ := Except.bind_eq_ok.mp h
  obtain ⟨definitions, _, h₂⟩ := Except.bind_eq_ok.mp h₁
  obtain ⟨projection, _, h₃⟩ := Except.bind_eq_ok.mp h₂
  obtain ⟨query, hquery, h₄⟩ := Except.bind_eq_ok.mp h₃
  obtain ⟨arrowSchema, _, h₅⟩ := Except.bind_eq_ok.mp h₄
  obtain ⟨schema, _, h₆⟩ := Except.bind_eq_ok.mp h₅
  cases Except.ok.inj h₆
  exact ⟨_, scanned, projection, rfl, rfl, rfl, hquery⟩

/-- The scan of a task keeps a row exactly when filter and predicate hold and the
constraint of the task admits the row. -/
theorem makeTask_truth (h : s.makeTask columns limit c = .ok task) {scan : Scan}
    (hscan : task.scans = [scan]) (r : ρ) :
    scan.truth v r = .yes ↔
      whole v r s.config.filterSql s.pushedPredicate = .yes ∧ s.admits v c r = true := by
  obtain ⟨scan', scanned, projection, hscan', _, _, hquery⟩ := makeTask_eq_ok h
  have hsame : scan' = scan := by simpa [hscan] using hscan'.symm
  subst hsame
  exact (accepted_of_buildSelect hquery).truth_eq_yes v r s.compiled

end Make

end Task

section Constraints

variable {s : DirectSource} {v : RowView ρ} {table : Multiset ρ}

/-- Constraints that admit every kept row exactly once. -/
def Splits (s : DirectSource) (v : RowView ρ) (table : Multiset ρ)
    (cs : List DirectSource.Constraint) : Prop :=
  ∀ r ∈ table, whole v r s.config.filterSql s.pushedPredicate = .yes →
    cs.countP (fun c => s.admits v c r) = 1

theorem splits_whole : Splits s v table [{}] := by
  intro r _ _
  simp [DirectSource.admits, DirectSource.taskRequest, SelectRequest.admits]

theorem splits_partitions (h : PartitionsExact table v.partitionId s.snapshot.partitions)
    {groups : List (List Text)}
    (hgroups : groups.flatten.Perm (s.snapshot.partitions.map PartitionInfo.partitionId)) :
    Splits s v table (groups.map fun ids => { partitionIds := some ids }) := by
  intro r hr _
  have hadmits : ∀ ids : List Text,
      s.admits v { partitionIds := some ids } r = decide (v.partitionId r ∈ ids) := by
    intro ids
    simp [DirectSource.admits, DirectSource.taskRequest, SelectRequest.admits]
  have hnodup : groups.flatten.Nodup := hgroups.nodup_iff.mpr h.nodup
  have hmem : v.partitionId r ∈ groups.flatten := hgroups.mem_iff.mpr (h.complete r hr)
  rw [List.countP_map, ← countP_mem_of_nodup hnodup hmem]
  apply List.countP_congr
  intro ids _
  simp [hadmits]

def ofRange (range : IntegerRange) : DirectSource.Constraint :=
  ⟨none, range.lower, range.upper, range.includeNull⟩

theorem splits_ranges {facts : RangeFacts} (hfacts : s.snapshot.rangeFacts = some facts)
    (h : FactsExact (select table fun r => whole v r s.config.filterSql s.pushedPredicate)
      (fun r => v.integer r facts.column) facts)
    {minimum maximum : ℤ} (hmin : facts.minimum = some minimum)
    (hmax : facts.maximum = some maximum) {is : List (HalfOpen ℤ)}
    (hcovers : Covers minimum maximum is) :
    Splits s v table ((flagFirst (decide (0 < facts.nullRows)) is).map ofRange) := by
  obtain ⟨upper, hchain, hbelow⟩ := hcovers
  intro r hr hwhole
  have hkept : r ∈ select table fun r => whole v r s.config.filterSql s.pushedPredicate := by
    rw [select, Multiset.mem_filter]
    exact ⟨hr, hwhole⟩
  have hadmits : ∀ range ∈ flagFirst (decide (0 < facts.nullRows)) is,
      s.admits v (ofRange range) r =
        withinBounds range.lower range.upper range.includeNull (v.integer r facts.column) := by
    intro range hrange
    have hlower : range.lower.isSome = true := by
      cases is with
      | nil => simp [flagFirst] at hrange
      | cons i rest =>
        rcases List.mem_cons.mp hrange with rfl | hrange
        · rfl
        · obtain ⟨j, _, rfl⟩ := List.mem_map.mp hrange
          rfl
    simp [DirectSource.admits, DirectSource.taskRequest, SelectRequest.admits, ofRange, hfacts,
      hlower]
  have hcount := countP_flagFirst hchain (decide (0 < facts.nullRows)) (v.integer r facts.column)
    (fun k hk => by
      obtain ⟨hlow, hle⟩ := h.bounds hmin hmax ⟨r, hkept, hk⟩
      refine ⟨hlow, ?_⟩
      cases upper with
      | none => trivial
      | some u => exact lt_of_le_of_lt hle hbelow)
    (fun hnone => by
      rw [decide_eq_true_eq, h.nulls, Multiset.countP_pos]
      exact ⟨r, hkept, hnone⟩)
  rw [List.countP_map, ← hcount]
  apply List.countP_congr
  intro range hrange
  rw [Function.comp_apply, hadmits range hrange]

/-- A configuration asks for at least one task and allows at least one. -/
theorem ReadConfig.tasks_pos (config : ReadConfig) :
    1 ≤ config.targetTasks ∧ config.targetTasks ≤ config.maxTasks := by
  obtain ⟨_, _, h⟩ := Except.bind_eq_ok.mp config.accepted
  split at h
  · simp [Outcome.raise] at h
  · split at h
    · simp [Outcome.raise] at h
    · split at h
      · simp [Outcome.raise] at h
      · obtain ⟨_, _, hlast⟩ := Except.bind_eq_ok.mp h
        split at hlast
        · simp [Outcome.raise] at hlast
        · omega

theorem taskCount_bounds (config : ReadConfig) (parallelism : ℤ) :
    1 ≤ taskCount config parallelism ∧ 1 ≤ config.maxTasks.toNat ∧
      (taskCount config parallelism : ℤ) =
        min (min (max 1 parallelism) config.targetTasks) config.maxTasks := by
  obtain ⟨hpos, hle⟩ := config.tasks_pos
  unfold taskCount
  omega

/-- The constraints of a range plan, or one query where the plan is empty. -/
theorem ranges_split {facts : RangeFacts} (hfacts : s.snapshot.rangeFacts = some facts)
    (hexact : FactsExact (select table fun r => whole v r s.config.filterSql s.pushedPredicate)
      (fun r => v.integer r facts.column) facts)
    {parallelism : ℤ} {ranges : List IntegerRange}
    (h : planIntegerRanges facts (taskCount s.config parallelism) s.config.maxTasks.toNat =
      .ok ranges) :
    Splits s v table (if ranges = [] then [{}] else ranges.map ofRange) ∧
      1 ≤ (if ranges = [] then [{}] else ranges.map ofRange).length ∧
      (if ranges = [] then [{}] else ranges.map ofRange).length ≤
        taskCount s.config parallelism := by
  obtain ⟨hcount, hmaxTasks, _⟩ := taskCount_bounds s.config parallelism
  by_cases htotal : facts.totalRows = 0
  · have hnil : ranges = [] := by
      rw [planIntegerRanges, if_pos htotal] at h
      exact (Except.ok.inj h).symm
    rw [if_pos hnil]
    exact ⟨splits_whole, le_rfl, hcount⟩
  · by_cases hbounds : facts.minimum.isSome ∧ facts.maximum.isSome
    · obtain ⟨minimum, hmin⟩ := Option.isSome_iff_exists.mp hbounds.1
      obtain ⟨maximum, hmax⟩ := Option.isSome_iff_exists.mp hbounds.2
      have hle : minimum ≤ maximum := hexact.minimum_le_maximum hmin hmax
      obtain ⟨is, hplan, hcovers, hlen⟩ := planIntegerRanges_covers facts
        (taskCount s.config parallelism) s.config.maxTasks.toNat minimum maximum (by omega) hcount
        hmaxTasks hmin hmax hle
      cases Except.ok.inj (h.symm.trans hplan)
      obtain ⟨upper, hchain, hbelow⟩ := hcovers
      have hlength : (flagFirst (decide (0 < facts.nullRows)) is).length = is.length := by
        cases is <;> simp [flagFirst]
      have hpos : 1 ≤ is.length := List.length_pos_iff.mpr hchain.ne_nil
      have hne : flagFirst (decide (0 < facts.nullRows)) is ≠ [] := by
        rw [← List.length_pos_iff]
        omega
      rw [if_neg hne, List.length_map, hlength]
      exact ⟨splits_ranges hfacts hexact hmin hmax ⟨upper, hchain, hbelow⟩, hpos, by omega⟩
    · -- an end that is NULL leaves one query without a range
      have hranges : ranges = [⟨none, none, decide (0 < facts.nullRows)⟩] := by
        rw [planIntegerRanges, if_neg htotal] at h
        split at h
        · rename_i hmin hmax
          simp [hmin, hmax] at hbounds
        · exact (Except.ok.inj h).symm
      subst hranges
      rw [if_neg (List.cons_ne_nil _ _)]
      refine ⟨?_, le_rfl, hcount⟩
      intro r _ _
      simp [DirectSource.admits, DirectSource.taskRequest, SelectRequest.admits, ofRange]

/-- The constraints of a plan: they admit every kept row exactly once, and their
number respects the budget. -/
theorem constraints_split {parallelism : ℤ} {cs : List DirectSource.Constraint}
    (h : s.constraints parallelism = .ok cs) (hexact : SnapshotExact s v table) :
    Splits s v table cs ∧ 1 ≤ cs.length ∧ cs.length ≤ taskCount s.config parallelism := by
  obtain ⟨hcount, hmax, _⟩ := taskCount_bounds s.config parallelism
  have hwhole : Splits s v table [{}] ∧ 1 ≤ ([{}] : List DirectSource.Constraint).length ∧
      ([{}] : List DirectSource.Constraint).length ≤ taskCount s.config parallelism :=
    ⟨splits_whole, le_rfl, hcount⟩
  unfold DirectSource.constraints at h
  simp only at h
  split at h
  · cases Except.ok.inj h
    exact hwhole
  · split at h
    · rename_i hpartition
      obtain ⟨hperm, _, hlen⟩ := groupPartitions_spec s.snapshot.partitions
        (taskCount s.config parallelism) s.config.maxTasks.toNat hcount hmax
      have hne := groupPartitions_ne_nil hcount hmax hpartition.2
      rw [if_neg hne] at h
      cases Except.ok.inj h
      refine ⟨splits_partitions (hexact.partitions hpartition.2) hperm, ?_, ?_⟩
      · rw [List.length_map]
        exact List.length_pos_iff.mpr hne
      · rw [List.length_map]
        omega
    · split at h
      · rename_i facts hfacts
        split at h
        · obtain ⟨ranges, hranges, hcs⟩ := Except.bind_eq_ok.mp h
          cases Except.ok.inj hcs
          exact ranges_split hfacts (hexact.rangeFacts facts hfacts) hranges
        · cases Except.ok.inj h
          exact hwhole
      · cases Except.ok.inj h
        exact hwhole

end Constraints

section Tasks

variable {s : DirectSource} {v : RowView ρ} {table : Multiset ρ} {parallelism : ℤ}
  {limit : Option ℤ} {tasks : List ReadTask}

theorem tasks_eq_ok (h : s.getReadTasks parallelism limit = .ok tasks) :
    ∃ columns cs, s.constraints parallelism = .ok cs ∧
      List.Forall₂ (fun c t => s.makeTask columns limit c = .ok t) cs tasks := by
  obtain ⟨columns, _, h₁⟩ := Except.bind_eq_ok.mp h
  obtain ⟨cs, hcs, h₂⟩ := Except.bind_eq_ok.mp h₁
  exact ⟨columns, cs, hcs, Except.mapM_eq_ok.mp h₂⟩

/-- The scans of a plan are counted by the constraints they come from. -/
theorem countP_scans {columns : List Text} {cs : List DirectSource.Constraint}
    (h : List.Forall₂ (fun c t => s.makeTask columns limit c = .ok t) cs tasks) (r : ρ) :
    ((tasks.flatMap ReadTask.scans).map (Scan.truth v)).countP (fun c => c r = .yes) =
      if whole v r s.config.filterSql s.pushedPredicate = .yes then
        cs.countP (fun c => s.admits v c r)
      else 0 := by
  induction h with
  | nil => simp
  | @cons c t cs tasks hct _ ih =>
    obtain ⟨scan, _, _, hscans, _⟩ := makeTask_eq_ok hct
    have htruth := makeTask_truth (v := v) hct hscans r
    rw [List.flatMap_cons, hscans, List.singleton_append, List.map_cons, List.countP_cons, ih,
      List.countP_cons]
    by_cases hwhole : whole v r s.config.filterSql s.pushedPredicate = .yes
    · by_cases hadmits : s.admits v c r = true
      · simp [htruth, hwhole, hadmits]
      · simp [htruth, hwhole, hadmits]
    · simp [htruth, hwhole]

theorem tasks_single_scan (h : s.getReadTasks parallelism limit = .ok tasks) :
    ∀ t ∈ tasks, ∃ scan, t.scans = [scan] ∧ scan.connection = s.config.connection ∧
      scan.table = s.config.table := by
  obtain ⟨columns, cs, _, htasks⟩ := tasks_eq_ok h
  intro t ht
  obtain ⟨c, _, hct⟩ := exists_of_mem_forall₂ htasks ht
  obtain ⟨scan, _, _, hscans, hconnection, htable, _⟩ := makeTask_eq_ok hct
  exact ⟨scan, hscans, hconnection, htable⟩

/-- The tasks of one table cover its kept rows exactly, within the budget. -/
theorem tasks_cover (h : s.getReadTasks parallelism limit = .ok tasks)
    (hexact : SnapshotExact s v table) :
    ExactCover table (fun r => whole v r s.config.filterSql s.pushedPredicate)
        ((tasks.flatMap ReadTask.scans).map (Scan.truth v)) ∧
      1 ≤ tasks.length ∧ tasks.length ≤ taskCount s.config parallelism := by
  obtain ⟨columns, cs, hcs, htasks⟩ := tasks_eq_ok h
  obtain ⟨hsplits, hpos, hle⟩ := constraints_split hcs hexact
  have hlen := htasks.length_eq
  refine ⟨?_, by omega, by omega⟩
  intro r hr
  rw [countP_scans htasks]
  by_cases hwhole : whole v r s.config.filterSql s.pushedPredicate = .yes
  · rw [if_pos hwhole, if_pos hwhole]
    exact hsplits r hr hwhole
  · rw [if_neg hwhole, if_neg hwhole]

/-- Exact coverage of a split read of one static table: every row that satisfies
filter and predicate is selected by exactly one task, no other row is selected,
and the number of tasks lies between one and the budget. -/
theorem read_tasks_cover {source : Source} (hdirect : source.localSources = [])
    (h : source.getReadTasks parallelism limit = .ok tasks)
    (hexact : SnapshotExact source.toDirectSource v table) :
    (∀ t ∈ tasks, ∃ scan, t.scans = [scan] ∧ scan.connection = source.config.connection ∧
        scan.table = source.config.table) ∧
      ExactCover table (fun r => whole v r source.config.filterSql source.pushedPredicate)
        ((tasks.flatMap ReadTask.scans).map (Scan.truth v)) ∧
      1 ≤ tasks.length ∧
      (tasks.length : ℤ) ≤
        max 1 (min (min (max 1 parallelism) source.config.targetTasks) source.config.maxTasks) := by
  have hplan : source.toDirectSource.getReadTasks parallelism limit = .ok tasks := by
    unfold Source.getReadTasks at h
    rwa [if_pos hdirect] at h
  obtain ⟨hcover, hpos, hle⟩ := tasks_cover hplan hexact
  obtain ⟨_, _, hcount⟩ := taskCount_bounds source.config parallelism
  exact ⟨tasks_single_scan hplan, hcover, hpos, by omega⟩

end Tasks

end Plan

section Example

def exampleConnection (host : Char) : ClickHouseConnection :=
  { host := [host]
    database := "db".toList
    host_nonempty := List.cons_ne_nil _ _
    database_valid := exampleTable_database
    username_nonempty := defaultUsername_nonempty
    port_bounds := defaultPort_bounds }

def exampleConfig (host : Char) : @ReadConfig asciiDatabase :=
  @ReadConfig.mk asciiDatabase
    { connection := exampleConnection host
      table := exampleTable
      split := .auto }
    rfl

def exampleFacts : RangeFacts :=
  { column := "k".toList
    declaredType := "Nullable(Int64)".toList
    totalRows := 3
    nullRows := 1
    minimum := some 1
    maximum := some 5 }

def exampleSchema : SchemaPlan :=
  { arrowSchema := [⟨"k".toList, .integer ⟨true, .w64⟩, true⟩]
    columns := [{ name := "k".toList, declaredType := "Nullable(Int64)".toList, position := 1 }] }

def exampleSnapshot : DiscoverySnapshot :=
  { schema := exampleSchema
    engine := "MergeTree".toList
    rangeFacts := some exampleFacts }

theorem compiled_of_none (p : CompiledPredicate) (h : none = some p) : Compiled p :=
  absurd h (Option.some_ne_none p).symm

def exampleDirect (host : Char) : @DirectSource asciiDatabase :=
  @DirectSource.mk asciiDatabase (exampleConfig host) exampleSnapshot none none false
    compiled_of_none

def exampleSource : @Source asciiDatabase := @Source.mk asciiDatabase (exampleDirect 'a') []

def exampleView : RowView (Option ℤ) :=
  { partitionId := fun _ => "all".toList
    integer := fun r _ => r
    filter := fun _ => .yes
    predicate := fun _ => .yes }

def exampleRows : Multiset (Option ℤ) := {some 1, some 5, none}

theorem exampleDirect_exact (host : Char) :
    @SnapshotExact _ asciiDatabase (exampleDirect host) exampleView exampleRows := by
  have hkept : select exampleRows (fun r => whole exampleView r none none) = exampleRows := by
    rw [select, Multiset.filter_eq_self]
    simp [whole]
  refine @SnapshotExact.mk _ asciiDatabase _ _ _ ?_ ?_
  · intro hne
    exact absurd rfl hne
  · intro facts hfacts
    cases Option.some.inj hfacts
    change FactsExact (select exampleRows fun r => whole exampleView r none none) _ _
    rw [hkept]
    have hkeys : {k | ∃ r ∈ exampleRows, exampleView.integer r exampleFacts.column = some k} =
        ({1, 5} : Set ℤ) := by
      ext k
      simp [exampleRows, exampleView, eq_comm]
    have hleast : IsLeast ({1, 5} : Set ℤ) 1 := by
      constructor <;> simp [lowerBounds]
    have hgreatest : IsGreatest ({1, 5} : Set ℤ) 5 := by
      constructor <;> simp [upperBounds]
    refine ⟨rfl, rfl, ?_, ?_, ?_⟩
    · intro k hk
      rw [hkeys] at hk
      exact congrArg some (hleast.unique hk)
    · intro k hk
      rw [hkeys] at hk
      exact congrArg some (hgreatest.unique hk)
    · intro hnone
      have hone : some 1 ∈ exampleRows := by simp [exampleRows]
      exact absurd (hnone _ hone) (Option.some_ne_none _)

theorem read_tasks_cover_example :
    ∃ tasks, @Source.getReadTasks asciiDatabase exampleSource 2 none = .ok tasks ∧
      tasks.length = 2 ∧
      ExactCover exampleRows (fun r => whole exampleView r none none)
        ((tasks.flatMap (@ReadTask.scans)).map (Scan.truth exampleView)) := by
  have hok : Outcome.check (@Source.getReadTasks asciiDatabase exampleSource 2 none)
      (fun tasks => decide (tasks.length = 2)) = true := by
    decide +kernel
  obtain ⟨tasks, htasks, hlen⟩ := Outcome.check_eq_true.mp hok
  obtain ⟨_, hcover, _⟩ := @read_tasks_cover asciiDatabase _ exampleView exampleRows 2 none tasks _ rfl
    htasks (exampleDirect_exact 'a')
  exact ⟨tasks, htasks, of_decide_eq_true hlen, hcover⟩

end Example

end RayClickHouse.Datasource
