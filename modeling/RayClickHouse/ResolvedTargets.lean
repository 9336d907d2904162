import RayClickHouse.ShardCover

/-!
The targets of a resolution against the topology and the source: one for every
shard, on a host of its own, with the declarations and the fields of the source.
-/
namespace RayClickHouse.Resolution

open Text Schema Planning Discovery Metadata Datasource

variable [UnicodeDatabase]

def SameDefinitions (logical physical : List TargetColumn) : Prop :=
  ∃ ds es, logical.mapM columnDefinition = .ok ds ∧ physical.mapM columnDefinition = .ok es ∧
    ∀ d, d ∈ ds ↔ d ∈ es

/-- The targets read every shard of the topology once, as the source declares it. -/
structure Covers (replicas : List ShardReplica) (source : SchemaPlan)
    (targets : List LocalTarget) : Prop where
  distinct : (replicas.map ShardReplica.place).Nodup
  shards : ∀ shard, shard ∈ targets.map LocalTarget.shard ↔
    shard ∈ replicas.map ShardReplica.shard
  increasing : (targets.map LocalTarget.shard).Pairwise (· < ·)
  pinned : ∀ t ∈ targets, ⟨t.shard, t.replica, t.connection.host⟩ ∈ replicas ∧
    ∀ r ∈ replicas, r.shard = t.shard → t.replica ≤ r.replica
  hosts : (targets.map fun t => t.connection.host).Nodup
  definitions : ∀ t ∈ targets, SameDefinitions source.columns t.schema.columns
  fields : ∀ t ∈ targets, t.schema.arrowSchema.names = source.arrowSchema.names ∧
    ∀ name ∈ source.arrowSchema.names,
      t.schema.arrowSchema.field? name = source.arrowSchema.field? name

/-- The same rows in another order, or the same failure. -/
def ReorderedAnswer : Except Raised ResultSet → Except Raised ResultSet → Prop
  | .ok result, .ok result' =>
      result'.columnNames = result.columnNames ∧ result.rows.Perm result'.rows
  | .error raised, .error raised' => raised' = raised
  | _, _ => False

section Definitions

variable {columns : List TargetColumn}

theorem columnDefinition_name {column : TargetColumn} {d : Text × List Text × Text × Text}
    (h : columnDefinition column = .ok d) : d.1 = column.name := by
  obtain ⟨key, -, h⟩ := Except.bind_eq_ok.mp h
  rw [← Except.ok.inj h]

theorem definitions_names {ds : List (Text × List Text × Text × Text)}
    (h : columns.mapM columnDefinition = .ok ds) :
    ds.map Prod.fst = columns.map TargetColumn.name := by
  have hall := Except.mapM_eq_ok.mp h
  clear h
  induction hall with
  | nil => rfl
  | cons h _ ih => rw [List.map_cons, List.map_cons, ih, columnDefinition_name h]

/-- Only columns with distinct names are returned. -/
theorem columns_nodup {server : MetadataServer} {reader reader' : MetadataReader}
    {table : QualifiedTable} (h : Metadata.columns server reader table = .ok (columns, reader')) :
    (columns.map TargetColumn.name).Nodup := by
  obtain ⟨⟨_, _⟩, -, h⟩ := Except.bind_eq_ok.mp h
  obtain ⟨⟨_, _⟩, -, h⟩ := Except.bind_eq_ok.mp h
  obtain ⟨found, -, h⟩ := Except.bind_eq_ok.mp h
  split at h
  · simp [malformedColumns, Outcome.raise] at h
  · rename_i hnodup
    rw [not_or, not_not, not_not] at hnodup
    split at h
    · simp [Outcome.raise] at h
    · obtain ⟨_, -, h⟩ := Except.bind_eq_ok.mp h
      obtain ⟨_, -, h⟩ := Except.bind_eq_ok.mp h
      split at h
      · simp [Outcome.raise] at h
      · obtain ⟨rfl, -⟩ := Prod.mk.inj (Except.ok.inj h)
        exact (((List.perm_insertionSort _ _).map _).nodup_iff).mpr hnodup.2

section Dicts

variable {α : Type} [DecidableEq α] {ds es : List (Text × α)}

omit [UnicodeDatabase] [DecidableEq α] in
theorem find?_name (hnodup : (ds.map Prod.fst).Nodup) {d : Text × α} :
    ds.reverse.find? (fun e => e.1 = d.1) = some d ↔ d ∈ ds := by
  constructor
  · intro h
    exact List.mem_reverse.mp (List.mem_of_find?_eq_some h)
  · intro h
    cases hfind : ds.reverse.find? (fun e => e.1 = d.1) with
    | none =>
      have hnone := List.find?_eq_none.mp hfind d (List.mem_reverse.mpr h)
      simp at hnone
    | some e =>
      have hname : e.1 = d.1 := by simpa using List.find?_some hfind
      have hmem : e ∈ ds := List.mem_reverse.mp (List.mem_of_find?_eq_some hfind)
      rw [List.inj_on_of_nodup_map hnodup hmem h hname]

omit [UnicodeDatabase] in
/-- Dicts of definitions with distinct names are equal when they hold the same ones. -/
theorem sameDefinitions_mem (hds : (ds.map Prod.fst).Nodup) (hes : (es.map Prod.fst).Nodup)
    (h : sameDefinitions ds es = true) (d : Text × α) : d ∈ ds ↔ d ∈ es := by
  unfold sameDefinitions at h
  rw [List.all_eq_true] at h
  constructor
  · intro hd
    have hsame := of_decide_eq_true (h d (List.mem_append_left _ hd))
    rw [(find?_name hds).mpr hd] at hsame
    exact (find?_name hes).mp hsame.symm
  · intro hd
    have hsame := of_decide_eq_true (h d (List.mem_append_right _ hd))
    rw [(find?_name hes).mpr hd] at hsame
    exact (find?_name hds).mp hsame

end Dicts

end Definitions

section Selection

omit [UnicodeDatabase] in
theorem columnNamed_name {columns : List TargetColumn} {name : Text} {column : TargetColumn}
    (h : columnNamed columns name = some column) : column.name = name := by
  simpa using List.find?_some h

omit [UnicodeDatabase] in
theorem validated_names {names valid : List Text}
    (h : names.mapM (fun c => validateIdentifier c "column") = .ok valid) : valid = names := by
  have hall := Except.mapM_eq_ok.mp h
  clear h
  induction hall with
  | nil => rfl
  | cons h _ ih => rw [ih, (validateIdentifier_eq_ok h).1]

omit [UnicodeDatabase] in
theorem named_names {columns : List TargetColumn} {names : List Text}
    (h : ∀ name ∈ names, (columnNamed columns name).isSome = true) :
    (names.filterMap (columnNamed columns)).map TargetColumn.name = names := by
  induction names with
  | nil => rfl
  | cons name rest ih =>
    obtain ⟨column, hcolumn⟩ := Option.isSome_iff_exists.mp (h name (List.mem_cons_self ..))
    rw [List.filterMap_cons, hcolumn]
    simp only [List.map_cons, columnNamed_name hcolumn]
    rw [ih fun n hn => h n (List.mem_cons_of_mem _ hn)]

omit [UnicodeDatabase] in
theorem selectReadColumns_names {columns selected : List TargetColumn} {names : List Text}
    (h : selectReadColumns columns (some names) = .ok selected) :
    selected.map TargetColumn.name = names := by
  obtain ⟨normalized, hnormalized, h⟩ := Except.bind_eq_ok.mp h
  have hsame : normalized = some names := by
    cases names with
    | nil => simp [normalizeColumns, Outcome.raise] at hnormalized
    | cons name rest =>
      obtain ⟨valid, hvalid, hnormalized⟩ := Except.bind_eq_ok.mp hnormalized
      have hvalid' := validated_names hvalid
      split at hnormalized
      · rw [← Except.ok.inj hnormalized, hvalid']
      · simp [Outcome.raise] at hnormalized
  subst hsame
  dsimp only at h
  split at h
  · simp [Outcome.raise] at h
  · rename_i hknown
    rw [← Except.ok.inj h]
    apply named_names
    intro name hname
    have hnil := not_not.mp hknown
    rw [List.filter_eq_nil_iff] at hnil
    have hnot := hnil name hname
    simpa [Option.isSome_iff_ne_none] using hnot

end Selection

section Inspection

variable {cluster : Cluster} {request : LocalRead} {profile : List (Text × Text)}
  {sourceColumns : List TargetColumn} {table : QualifiedTable} {shard replica : ℕ} {host : Text}
  {target : LocalTarget}

structure Matches (request : LocalRead) (sourceColumns : List TargetColumn)
    (target : LocalTarget) : Prop where
  definitions : SameDefinitions sourceColumns target.schema.columns
  names : target.schema.arrowSchema.names = request.schema.arrowSchema.names
  fields : ∀ name ∈ request.schema.arrowSchema.names,
    target.schema.arrowSchema.field? name = request.schema.arrowSchema.field? name

theorem inspectTarget_eq_ok {node : Node} {reader : MetadataReader}
    (hsource : (sourceColumns.map TargetColumn.name).Nodup)
    (h : inspectTarget node request profile sourceColumns table shard replica reader = .ok target) :
    target.shard = shard ∧ target.replica = replica ∧
      target.connection = node.server.connection ∧ Matches request sourceColumns target := by
  obtain ⟨⟨_, _⟩, -, h⟩ := Except.bind_eq_ok.mp h
  obtain ⟨-, h⟩ := passed_eq_ok.mp h
  obtain ⟨⟨_, _⟩, -, h⟩ := Except.bind_eq_ok.mp h
  obtain ⟨⟨⟨_, _⟩, _⟩, -, h⟩ := Except.bind_eq_ok.mp h
  obtain ⟨-, h⟩ := passed_eq_ok.mp h
  obtain ⟨⟨columns, _⟩, hcolumns, h⟩ := Except.bind_eq_ok.mp h
  obtain ⟨logical, hlogical, h⟩ := Except.bind_eq_ok.mp h
  obtain ⟨physical, hphysical, h⟩ := Except.bind_eq_ok.mp h
  obtain ⟨hsame, h⟩ := passed_eq_ok.mp h
  rw [Bool.not_eq_true', Bool.not_eq_false] at hsame
  obtain ⟨schema, hschema, h⟩ := Except.bind_eq_ok.mp h
  obtain ⟨hfields, h⟩ := passed_eq_ok.mp h
  obtain ⟨⟨_, _⟩, -, h⟩ := Except.bind_eq_ok.mp h
  obtain rfl := Except.ok.inj h
  obtain ⟨selected, hselected, hnames, hdeclared⟩ := tableSchema_eq_ok hschema
  refine ⟨rfl, rfl, rfl, ?_, ?_, ?_⟩
  · refine ⟨logical, physical, hlogical, ?_, ?_⟩
    · rw [← hphysical, hdeclared]
    · apply sameDefinitions_mem _ _ hsame
      · rw [definitions_names hlogical]
        exact hsource
      · rw [definitions_names hphysical]
        exact columns_nodup hcolumns
  · rw [hnames, selectReadColumns_names hselected]
  · intro name hname
    simp only [List.any_eq_true, decide_eq_true_eq, not_exists, not_and, ne_eq, not_not] at hfields
    exact hfields name hname

theorem openTarget_eq_ok (hsource : (sourceColumns.map TargetColumn.name).Nodup)
    (h : openTarget cluster request profile sourceColumns table shard replica host = .ok target) :
    target.shard = shard ∧ target.replica = replica ∧ target.connection.host = host ∧
      Matches request sourceColumns target := by
  obtain ⟨direct, hdirect, h⟩ := Except.bind_eq_ok.mp h
  obtain ⟨hshard, hreplica, hconnection, hmatches⟩ :=
    inspectTarget_eq_ok hsource (metadataReader_eq_ok h)
  refine ⟨hshard, hreplica, ?_, hmatches⟩
  rw [hconnection]
  unfold directConnection at hdirect
  split at hdirect
  · rw [← Except.ok.inj hdirect]
    rfl
  · simp [Outcome.raise] at hdirect

end Inspection

section Source

variable {cluster : Cluster} {request : LocalRead} {reader : MetadataReader}
  {facts : QualifiedTable × List (Text × Text) × List TargetColumn} {field : String} {name : Text}

theorem placedDefinitions_eq_ok {columns : List TargetColumn}
    {placed : List ((Text × List Text × Text × Text) × ℤ)}
    (h : placedDefinitions columns = .ok placed) :
    columns.mapM columnDefinition = .ok (placed.map Prod.fst) := by
  rw [Except.mapM_eq_ok, List.forall₂_map_right_iff]
  refine (Except.mapM_eq_ok.mp h).imp fun column entry hentry => ?_
  obtain ⟨definition, hdefinition, hentry⟩ := Except.bind_eq_ok.mp hentry
  rw [hdefinition, ← Except.ok.inj hentry]

/-- The columns found at the source have distinct names and the definitions planned. -/
theorem sourceFacts_eq_ok (h : sourceFacts cluster request reader = .ok (facts, field, name)) :
    (facts.2.2.map TargetColumn.name).Nodup ∧
      ∃ ds, facts.2.2.mapM columnDefinition = .ok ds ∧
        request.schema.columns.mapM columnDefinition = .ok ds := by
  obtain ⟨⟨⟨_, _⟩, _⟩, -, h⟩ := Except.bind_eq_ok.mp h
  obtain ⟨-, h⟩ := passed_eq_ok.mp h
  obtain ⟨⟨_, _⟩, -, h⟩ := Except.bind_eq_ok.mp h
  obtain ⟨⟨_, _⟩, -, h⟩ := Except.bind_eq_ok.mp h
  obtain ⟨⟨columns, _⟩, hcolumns, h⟩ := Except.bind_eq_ok.mp h
  obtain ⟨found, hfound, h⟩ := Except.bind_eq_ok.mp h
  obtain ⟨planned, hplanned, h⟩ := Except.bind_eq_ok.mp h
  obtain ⟨hsame, h⟩ := passed_eq_ok.mp h
  obtain ⟨⟨_, _⟩, -, h⟩ := Except.bind_eq_ok.mp h
  obtain ⟨_, -, h⟩ := Except.bind_eq_ok.mp h
  obtain ⟨rfl, -⟩ := Prod.mk.inj (Except.ok.inj h)
  rw [not_not] at hsame
  subst hsame
  exact ⟨columns_nodup hcolumns, _, placedDefinitions_eq_ok hfound, placedDefinitions_eq_ok hplanned⟩

theorem Matches.sameDefinitions {sourceColumns : List TargetColumn} {target : LocalTarget}
    (h : Matches request sourceColumns target)
    {ds : List (Text × List Text × Text × Text)} (hsource : sourceColumns.mapM columnDefinition = .ok ds)
    (hplanned : request.schema.columns.mapM columnDefinition = .ok ds) :
    SameDefinitions request.schema.columns target.schema.columns := by
  obtain ⟨ds', es, hds, hes, hmem⟩ := h.definitions
  rw [hsource] at hds
  obtain rfl := Except.ok.inj hds
  exact ⟨_, es, hplanned, hes, hmem⟩

omit [UnicodeDatabase] in
/-- Reordered answers give reordered rows. -/
theorem topologyRows_reordered {clusters : Text → Bindings → Except Raised ResultSet}
    (h : ∀ sql parameters,
      ReorderedAnswer (cluster.clusters sql parameters) (clusters sql parameters))
    {rows : List Row} (hrows : topologyRows cluster request.connection field name = .ok rows) :
    ∃ rows', topologyRows { cluster with clusters := clusters } request.connection field name =
      .ok rows' ∧ rows.Perm rows' := by
  unfold topologyRows query at hrows ⊢
  have hanswer := h (topologyQuery field) [("cluster".toList, .str name)]
  dsimp only at hrows ⊢
  cases hfirst : cluster.clusters (topologyQuery field) [("cluster".toList, .str name)] with
  | error raised =>
    rw [hfirst] at hrows
    cases raised with
    | interrupt => contradiction
    | error code message =>
      dsimp only at hrows
      split at hrows
      · simp [Outcome.raise] at hrows
      · split at hrows
        · simp [Outcome.raise] at hrows
        · contradiction
  | ok result =>
    cases hsecond : clusters (topologyQuery field) [("cluster".toList, .str name)] with
    | error raised =>
      rw [hfirst, hsecond] at hanswer
      exact absurd hanswer id
    | ok result' =>
      rw [hfirst, hsecond] at hanswer
      rw [hfirst] at hrows
      obtain ⟨hnames, hperm⟩ := hanswer
      dsimp only at hrows ⊢
      have hempty : result'.rows = [] ↔ result.rows = [] := by
        rw [← List.length_eq_zero_iff, ← List.length_eq_zero_iff, hperm.length_eq]
      have hwidth : (result'.rows.all fun row => row.length == result.columnNames.length) =
          result.rows.all fun row => row.length == result.columnNames.length :=
        (hperm.all_eq).symm
      unfold rowsOf at hrows ⊢
      rw [hnames, hwidth]
      simp only [hempty]
      split at hrows
      · rename_i hnone
        rw [if_pos hnone]
        exact ⟨[], rfl, by rw [← Except.ok.inj hrows]⟩
      · rename_i hsome
        rw [if_neg hsome]
        obtain ⟨hvalid, hrows⟩ := passed_eq_ok.mp hrows
        rw [if_neg hvalid]
        split at hrows
        · rename_i hall
          rw [if_pos hall]
          refine ⟨_, rfl, ?_⟩
          rw [← Except.ok.inj hrows]
          exact hperm.map _
        · simp [Outcome.raise] at hrows

end Source

section Resolved

variable {cluster : Cluster} {limit : ℕ} {request : LocalRead} {resolved : ResolvedDistributed}

def resolveRows (cluster : Cluster) (request : LocalRead)
    (facts : QualifiedTable × List (Text × Text) × List TargetColumn) (rows : List Row) :
    Outcome ResolvedDistributed :=
  if rows = [] then
    Outcome.raise .discovery "Distributed cluster metadata is absent or invisible"
  else do
    let replicas ← rows.foldlM (addReplica request.connection.username) {}
    let targets ← resolveShards (openTarget cluster request facts.2.1 facts.2.2 facts.1)
      (KeyedGroups.byKey replicas.shards) []
    .ok ⟨targets⟩

theorem resolveRows_eq_ok {facts : QualifiedTable × List (Text × Text) × List TargetColumn}
    {rows : List Row} : resolveRows cluster request facts rows = .ok resolved ↔
    rows ≠ [] ∧ ∃ rs, List.Forall₂ (Names request.connection.username) rows rs ∧
      (rs.map ShardReplica.place).Nodup ∧
        resolveChosen (openTarget cluster request facts.2.1 facts.2.2 facts.1) (chosen rs) [] =
          .ok resolved.targets := by
  unfold resolveRows
  rw [passed_eq_ok, Except.bind_eq_ok]
  constructor
  · rintro ⟨hrows, replicas, hreplicas, h⟩
    obtain ⟨rs, hnames, hnodup, -, rfl⟩ := addReplicas_eq_ok.mp hreplicas
    obtain ⟨targets, htargets, h⟩ := Except.bind_eq_ok.mp h
    obtain rfl := Except.ok.inj h
    rw [resolveShards_chosen] at htargets
    exact ⟨hrows, rs, hnames, hnodup, htargets⟩
  · rintro ⟨hrows, rs, hnames, hnodup, htargets⟩
    refine ⟨hrows, rs.foldl Replicas.add {}, addReplicas_eq_ok.mpr
      ⟨rs, hnames, hnodup, by simp, rfl⟩, ?_⟩
    rw [resolveShards_chosen, htargets]
    rfl

theorem resolveRows_perm {facts : QualifiedTable × List (Text × Text) × List TargetColumn}
    {rows rows' : List Row} (hperm : rows.Perm rows')
    (h : resolveRows cluster request facts rows = .ok resolved) :
    resolveRows cluster request facts rows' = .ok resolved := by
  obtain ⟨hrows, rs, hnames, hnodup, htargets⟩ := resolveRows_eq_ok.mp h
  obtain ⟨rs', hnames', hperm'⟩ := List.perm_comp_forall₂ hperm.symm hnames
  refine resolveRows_eq_ok.mpr ⟨?_, rs', hnames', ?_, ?_⟩
  · rintro rfl
    exact hrows hperm.eq_nil
  · exact ((hperm'.map _).nodup_iff).mpr hnodup
  · rw [chosen_perm hperm']
    exact htargets

/-- The targets of the chosen replicas cover the topology. -/
theorem covers_of_chosen {facts : QualifiedTable × List (Text × Text) × List TargetColumn}
    {rs : List ShardReplica} {targets : List LocalTarget}
    {ds : List (Text × List Text × Text × Text)}
    (hsource : (facts.2.2.map TargetColumn.name).Nodup)
    (hfound : facts.2.2.mapM columnDefinition = .ok ds)
    (hplanned : request.schema.columns.mapM columnDefinition = .ok ds)
    (hnodup : (rs.map ShardReplica.place).Nodup)
    (h : resolveChosen (openTarget cluster request facts.2.1 facts.2.2 facts.1) (chosen rs) [] =
      .ok targets) : Covers rs request.schema targets := by
  obtain ⟨hall, hhosts, -⟩ := resolveChosen_eq_ok h
  have hopened := hall.imp fun _ _ ht => openTarget_eq_ok hsource ht
  have hshards : targets.map LocalTarget.shard = (chosen rs).map Prod.fst := by
    refine List.forall₂_eq_eq_eq ▸ ?_
    rw [List.forall₂_map_left_iff, List.forall₂_map_right_iff]
    exact (hopened.imp fun _ _ ht => ht.1).flip
  have hends : targets.map (fun t => t.connection.host) =
      (chosen rs).map fun s => (ofLex s.2).2 := by
    refine List.forall₂_eq_eq_eq ▸ ?_
    rw [List.forall₂_map_left_iff, List.forall₂_map_right_iff]
    exact (hopened.imp fun _ _ ht => ht.2.2.1).flip
  have hof : ∀ t ∈ targets, ∃ s ∈ chosen rs, t.shard = s.1 ∧ t.replica = (ofLex s.2).1 ∧
      t.connection.host = (ofLex s.2).2 ∧ Matches request facts.2.2 t :=
    fun t ht => exists_of_mem_forall₂ hopened ht
  refine ⟨hnodup, ?_, ?_, ?_, ?_, ?_, ?_⟩
  · intro shard
    rw [hshards]
    exact mem_chosen_shards
  · rw [hshards, List.pairwise_map]
    exact chosen_increasing
  · intro t ht
    obtain ⟨⟨shard, option⟩, hs, hshard, hreplica, hhost, -⟩ := hof t ht
    obtain ⟨⟨r, hr, hrshard, rfl⟩, hleast⟩ := mem_chosen.mp hs
    constructor
    · have hsame : r = ⟨t.shard, t.replica, t.connection.host⟩ := by
        rw [hshard, hreplica, hhost]
        dsimp only
        rw [hrshard]
        rfl
      rw [← hsame]
      exact hr
    · intro other hother hotherShard
      rw [hreplica]
      exact Prod.Lex.monotone_fst _ _ (hleast other hother (hotherShard.trans hshard))
  · rw [hends]
    exact hhosts
  · intro t ht
    obtain ⟨_, -, -, -, -, hmatches⟩ := hof t ht
    exact hmatches.sameDefinitions hfound hplanned
  · intro t ht
    obtain ⟨_, -, -, -, -, hmatches⟩ := hof t ht
    exact ⟨hmatches.names, hmatches.fields⟩

end Resolved

end RayClickHouse.Resolution
