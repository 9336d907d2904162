import RayClickHouse.LocalSettings
import RayClickHouse.ResolvedTargets

/-!
What a resolution that succeeds guarantees, for any topology: its targets cover the
shards that the rows name, and the order of the rows does not matter.
-/
namespace RayClickHouse.Resolution

open Text Schema Planning Discovery Metadata Datasource PredicateColumns

section Resolve

variable [UnicodeDatabase] {cluster : Cluster} {limit : ℕ} {request : LocalRead}
  {resolved : ResolvedDistributed}

def LocalProfile (limit : ℕ) (request : LocalRead) : Prop :=
  (∃ names, predicateColumns limit request.filterSql request.schema.columns = .ok names) ∧
    ¬((request.schema.columns.any fun column => column.defaultKind = "ALIAS".toList) = true) ∧
    ¬((request.connection.settings.names.any fun name => name ∉ safeSettings) = true) ∧
    ¬((request.clientOptions.names.any fun name => name ∉ safeClientOptions) = true) ∧
    request.clientOptions.get? "verify".toList ≠ some (.bool false)

theorem resolveDistributed_eq_ok : resolveDistributed cluster limit request = .ok resolved ↔
    LocalProfile limit request ∧ metadataReader (cluster.node request.connection) (fun reader => do
      let (facts, field, name) ← sourceFacts cluster request reader
      let rows ← topologyRows cluster request.connection field name
      resolveRows cluster request facts rows) = .ok resolved := by
  unfold resolveDistributed LocalProfile
  rw [Except.bind_eq_ok]
  simp only [passed_eq_ok]
  constructor
  · rintro ⟨names, hnames, halias, hsettings, hoptions, hverify, h⟩
    exact ⟨⟨⟨names, hnames⟩, halias, hsettings, hoptions, hverify⟩, h⟩
  · rintro ⟨⟨⟨names, hnames⟩, halias, hsettings, hoptions, hverify⟩, h⟩
    exact ⟨names, hnames, halias, hsettings, hoptions, hverify, h⟩

omit [UnicodeDatabase] in
/-- The outcome of the body decides what a reader returns. -/
theorem metadataReader_congr {α : Type} {node : Node} {body body' : MetadataReader → Outcome α} {a : α}
    (h : metadataReader node body = .ok a) (hbody : body {} = .ok a → body' {} = .ok a) :
    metadataReader node body' = .ok a := by
  have hok := metadataReader_eq_ok h
  have hok' := hbody hok
  unfold metadataReader at h ⊢
  rw [hok] at h
  rw [hok']
  exact h

/-- A resolution that succeeds covers the topology, in whatever order its rows come. -/
theorem resolveDistributed_covers (h : resolveDistributed cluster limit request = .ok resolved) :
    (∃ facts field name rows replicas, sourceFacts cluster request {} = .ok (facts, field, name) ∧
      topologyRows cluster request.connection field name = .ok rows ∧
        List.Forall₂ (Names request.connection.username) rows replicas ∧
          Covers replicas request.schema resolved.targets) ∧
      ∀ clusters, (∀ sql parameters,
        ReorderedAnswer (cluster.clusters sql parameters) (clusters sql parameters)) →
          resolveDistributed { cluster with clusters := clusters } limit request = .ok resolved := by
  obtain ⟨hprofile, hbody⟩ := resolveDistributed_eq_ok.mp h
  constructor
  · obtain ⟨⟨facts, field, name⟩, hfacts, hrest⟩ := Except.bind_eq_ok.mp (metadataReader_eq_ok hbody)
    obtain ⟨rows, hrows, hrest⟩ := Except.bind_eq_ok.mp hrest
    obtain ⟨-, rs, hnames, hnodup, htargets⟩ := resolveRows_eq_ok.mp hrest
    obtain ⟨hsource, ds, hfound, hplanned⟩ := sourceFacts_eq_ok hfacts
    exact ⟨facts, field, name, rows, rs, hfacts, hrows, hnames,
      covers_of_chosen hsource hfound hplanned hnodup htargets⟩
  · intro clusters hclusters
    refine resolveDistributed_eq_ok.mpr ⟨hprofile, metadataReader_congr hbody fun hok => ?_⟩
    obtain ⟨⟨facts, field, name⟩, hfacts, hrest⟩ := Except.bind_eq_ok.mp hok
    obtain ⟨rows, hrows, hrest⟩ := Except.bind_eq_ok.mp hrest
    obtain ⟨rows', hrows', hperm⟩ := topologyRows_reordered hclusters hrows
    refine Except.bind_eq_ok.mpr ⟨(facts, field, name), hfacts, ?_⟩
    exact Except.bind_eq_ok.mpr ⟨rows', hrows', resolveRows_perm hperm hrest⟩

end Resolve

section Example

def answerFrom (answers : List (String × ResultSet)) (sql : Text) (_ : Bindings) :
    Except Raised ResultSet :=
  match answers.find? fun entry => entry.1.toList = sql with
  | some entry => .ok entry.2
  | none => .error (.error (some 60) [])

def textRow (cells : List String) : List Cell := cells.map fun cell => .str cell.toList

def describedIds : ResultSet :=
  ⟨["name", "type", "default_type", "default_expression"].map String.toList,
    [textRow ["id", "UInt64", "", ""]]⟩

def clusterFields : List (String × String) :=
  [("cluster", "String"), ("shard_num", "UInt32"), ("replica_num", "UInt32"),
    ("host_name", "String"), ("user", "String")]

def tableFields : List (String × String) :=
  [("engine", "String"), ("database", "String"), ("name", "String"), ("engine_full", "String")]

def nodeAnswers (engine definition : String) : List (String × ResultSet) :=
  [("DESCRIBE TABLE `system`.`columns`", declared [("name", "String"), ("type", "String")]),
    ("DESCRIBE TABLE `system`.`tables`", declared tableFields),
    ("DESCRIBE TABLE `system`.`settings`", declared settingsFields),
    ("DESCRIBE TABLE `system`.`row_policies`", declared policyFields),
    ("DESCRIBE TABLE `system`.`clusters`", declared clusterFields),
    ("DESCRIBE TABLE `db`.`t`", describedIds),
    ("SELECT engine, engine_full FROM system.tables WHERE database = %(database)s AND name = %(table)s",
      ⟨["engine".toList, "engine_full".toList], [textRow [engine, definition]]⟩),
    ("SELECT name, value FROM system.settings",
      ⟨["name".toList, "value".toList], neutralSettings.map fun s => textRow [s.1, s.2]⟩),
    ("SELECT currentUser() AS user, timezone() AS timezone",
      ⟨["user".toList, "timezone".toList], [textRow ["default", "UTC"]]⟩),
    ("SHOW CREATE ROW POLICIES ON *.*", ⟨[], []⟩),
    ("SELECT id, database, table FROM system.row_policies", ⟨[], []⟩)]

def topologyRow (shard replica : ℤ) (host : String) : List Cell :=
  [.int shard, .int replica, .str host.toList, .str "default".toList]

def exampleTopology : List (List Cell) :=
  [topologyRow 2 1 "second", topologyRow 1 2 "spare", topologyRow 1 1 "first"]

def topologyAnswer (rows : List (List Cell)) (_ : Text) (_ : Bindings) : Except Raised ResultSet :=
  .ok ⟨["shard_num", "replica_num", "host_name", "user"].map String.toList, rows⟩

def idsField : Field := ⟨"id".toList, .integer ⟨false, .w64⟩, false⟩

def exampleCluster (rows : List (List Cell)) : Cluster where
  answer connection :=
    answerFrom (if connection.host = exampleNode.host then
      nodeAnswers "Distributed" "Distributed('c', 'db', 't')"
    else nodeAnswers "MergeTree" "MergeTree ORDER BY id")
  clusters := topologyAnswer rows
  probe _ _ := .ok (some [idsField])
  representable _ := true
  opened _ := none
  closed _ := none

def exampleRead : LocalRead where
  connection := exampleNode
  table := exampleNodeTable
  schema := ⟨[idsField], [⟨"id".toList, "UInt64".toList, [], [], 1⟩]⟩
  filterSql := "id = 1".toList
  split := .single

def targetPlaces (resolved : ResolvedDistributed) : List (ℕ × ℕ × Text) :=
  resolved.targets.map fun t => (t.shard, t.replica, t.connection.host)

/-- The names of the compared settings, sorted. -/
theorem contextNames_sorted :
    sortedNames (contextDefaults.map (fun d => d.1.toList) ++ contextCompare.map String.toList) =
      (contextDefaults.map (fun d => d.1.toList) ++
        contextCompare.map String.toList).dedup.insertionSort (· ≤ ·) :=
  List.mergeSort_eq_insertionSort _ _

theorem exampleCluster_resolves : ∃ resolved,
    @resolveDistributed asciiDatabase (exampleCluster exampleTopology) 100 exampleRead =
      .ok resolved ∧
    targetPlaces resolved = [(1, 1, "first".toList), (2, 1, "second".toList)] := by
  have hcheck : Outcome.check
      (@resolveDistributed asciiDatabase (exampleCluster exampleTopology) 100 exampleRead)
      (fun resolved => decide (targetPlaces resolved =
        [(1, 1, "first".toList), (2, 1, "second".toList)])) = true := by
    unfold resolveDistributed sourceFacts openTarget inspectTarget context contextValues
    simp only [contextNames_sorted]
    decide +kernel
  obtain ⟨resolved, h, hplaces⟩ := Outcome.check_eq_true.mp hcheck
  exact ⟨resolved, h, of_decide_eq_true hplaces⟩

/-- Two shards are read from their first replicas, also when the rows come reversed. -/
theorem exampleCluster_covers : ∃ resolved replicas,
    @resolveDistributed asciiDatabase (exampleCluster exampleTopology) 100 exampleRead =
      .ok resolved ∧
    targetPlaces resolved = [(1, 1, "first".toList), (2, 1, "second".toList)] ∧
    @Covers asciiDatabase replicas exampleRead.schema resolved.targets ∧
    @resolveDistributed asciiDatabase (exampleCluster exampleTopology.reverse) 100 exampleRead =
      .ok resolved := by
  obtain ⟨resolved, h, hplaces⟩ := exampleCluster_resolves
  obtain ⟨⟨_, _, _, _, replicas, -, -, -, hcovers⟩, horder⟩ :=
    @resolveDistributed_covers asciiDatabase _ _ _ _ h
  refine ⟨resolved, replicas, h, hplaces, hcovers, horder (topologyAnswer exampleTopology.reverse) ?_⟩
  exact fun _ _ => ⟨rfl, (List.reverse_perm _).symm⟩

end Example

end RayClickHouse.Resolution
