import RayClickHouse.ShardResolution

/-!
A resolution covers the topology: every shard is read once, in increasing order,
from its least replica. The order in which the replicas are listed does not matter.
-/
namespace RayClickHouse.Resolution

open Text Schema Planning Discovery Metadata Datasource KeyedGroups

structure ShardReplica where
  shard : ℕ
  replica : ℕ
  host : Text
  deriving DecidableEq

namespace ShardReplica

def place (r : ShardReplica) : ℕ × ℕ := (r.shard, r.replica)

def option (r : ShardReplica) : ℕ ×ₗ Text := toLex (r.replica, r.host)

end ShardReplica

structure Names (username : Text) (row : Row) (r : ShardReplica) : Prop where
  shard : row.get? "shard_num" = some (.int r.shard)
  replica : row.get? "replica_num" = some (.int r.replica)
  host : row.get? "host_name" = some (.str r.host)
  user : row.get? "user" = some (.str username)
  positive : 1 ≤ r.shard ∧ 1 ≤ r.replica
  valid : isHost r.host = true

def Replicas.add (replicas : Replicas) (r : ShardReplica) : Replicas :=
  ⟨r.place :: replicas.seen, KeyedGroups.insert r.shard r.option replicas.shards⟩

section Rows

variable {username : Text} {row : Row} {rows : List Row} {r : ShardReplica}
  {replicas result : Replicas} {rs : List ShardReplica}

theorem Names.hasKeys (h : Names username row r) :
    row.hasKeys ["shard_num", "replica_num", "host_name", "user"] = true := by
  unfold Row.hasKeys
  simp only [List.all_cons, List.all_nil, h.shard, h.replica, h.host, h.user, Option.isSome_some,
    Bool.and_self]

/-- A row is added when it names a replica that was not seen. -/
theorem addReplica_eq_ok : addReplica username replicas row = .ok result ↔
    ∃ r, Names username row r ∧ r.place ∉ replicas.seen ∧ result = replicas.add r := by
  constructor
  · intro h
    unfold addReplica at h
    split at h
    · simp [Outcome.raise] at h
    · split at h
      · rename_i shard replica host hshard hreplica hhost
        split at h
        · simp [malformedTopology, Outcome.raise] at h
        · rename_i hchecks
          simp only [not_or, Bool.not_eq_true', Bool.not_eq_false] at hchecks
          obtain ⟨hs, hr, hvalid, hseen⟩ := hchecks
          split at h
          · simp [Outcome.raise] at h
          · rename_i huser
            have hs' : (shard.toNat : ℤ) = shard := Int.toNat_of_nonneg (by omega)
            have hr' : (replica.toNat : ℤ) = replica := Int.toNat_of_nonneg (by omega)
            refine ⟨⟨shard.toNat, replica.toNat, host⟩, ⟨?_, ?_, hhost, not_not.mp huser, ?_, hvalid⟩,
              hseen, (Except.ok.inj h).symm⟩
            · rw [hshard, hs']
            · rw [hreplica, hr']
            · constructor
              · show 1 ≤ shard.toNat
                omega
              · show 1 ≤ replica.toNat
                omega
      · simp [malformedTopology, Outcome.raise] at h
  · rintro ⟨r, hr, hseen, rfl⟩
    have hpositive := hr.positive
    have hchecks : ¬((r.shard : ℤ) < 1 ∨ (r.replica : ℤ) < 1 ∨ (!isHost r.host) = true ∨
        ((r.shard : ℤ).toNat, (r.replica : ℤ).toNat) ∈ replicas.seen) := by
      simp only [hr.valid, Bool.not_true, Bool.false_eq_true, false_or, not_or, Int.toNat_natCast]
      exact ⟨by omega, by omega, hseen⟩
    unfold addReplica
    simp only [hr.hasKeys, Bool.not_true, Bool.false_eq_true, if_false, hr.shard, hr.replica,
      hr.host, hr.user, ne_eq, not_true]
    rw [if_neg hchecks]
    rfl

/-- The loop reads every row, each naming a replica of its own. -/
theorem addReplicas_eq_ok : rows.foldlM (addReplica username) replicas = .ok result ↔
    ∃ rs, List.Forall₂ (Names username) rows rs ∧ (rs.map ShardReplica.place).Nodup ∧
      (∀ r ∈ rs, r.place ∉ replicas.seen) ∧ result = rs.foldl Replicas.add replicas := by
  induction rows generalizing replicas with
  | nil =>
    constructor
    · intro h
      exact ⟨[], List.Forall₂.nil, List.nodup_nil, by simp, (Except.ok.inj h).symm⟩
    · rintro ⟨rs, hrs, -, -, rfl⟩
      cases hrs
      rfl
  | cons row rest ih =>
    rw [List.foldlM_cons, Except.bind_eq_ok]
    constructor
    · rintro ⟨next, hrow, hrest⟩
      obtain ⟨r, hr, hseen, rfl⟩ := addReplica_eq_ok.mp hrow
      obtain ⟨rs, hrs, hnodup, hfresh, rfl⟩ := ih.mp hrest
      refine ⟨r :: rs, List.Forall₂.cons hr hrs, ?_, ?_, rfl⟩
      · rw [List.map_cons, List.nodup_cons]
        refine ⟨?_, hnodup⟩
        intro hin
        obtain ⟨s, hs, hplace⟩ := List.mem_map.mp hin
        exact hfresh s hs (hplace ▸ List.mem_cons_self ..)
      · intro s hs
        rcases List.mem_cons.mp hs with rfl | hs
        · exact hseen
        · exact fun hin => hfresh s hs (List.mem_cons_of_mem _ hin)
    · rintro ⟨rs, hrs, hnodup, hfresh, rfl⟩
      cases hrs with
      | cons hr hrest =>
        rename_i r rs
        rw [List.map_cons, List.nodup_cons] at hnodup
        refine ⟨replicas.add r, addReplica_eq_ok.mpr
          ⟨r, hr, hfresh r (List.mem_cons_self ..), rfl⟩,
          ih.mpr ⟨rs, hrest, hnodup.2, ?_, rfl⟩⟩
        intro s hs hin
        rcases List.mem_cons.mp hin with hplace | hin
        · exact hnodup.1 (hplace ▸ List.mem_map_of_mem hs)
        · exact hfresh s (List.mem_cons_of_mem _ hs) hin

theorem grouped_add (h : Grouped replicas.shards) : Grouped (rs.foldl Replicas.add replicas).shards := by
  induction rs generalizing replicas with
  | nil => exact h
  | cons r rest ih => exact ih h.insert

/-- Under a shard stand the replicas that were listed for it. -/
theorem holds_add {shard : ℕ} {option : ℕ ×ₗ Text} :
    Holds (rs.foldl Replicas.add replicas).shards shard option ↔
      Holds replicas.shards shard option ∨ ∃ r ∈ rs, shard = r.shard ∧ option = r.option := by
  induction rs generalizing replicas with
  | nil => simp
  | cons r rest ih =>
    rw [List.foldl_cons, ih, Replicas.add, holds_insert]
    simp only [List.mem_cons, exists_eq_or_imp]
    tauto

def chosen (rs : List ShardReplica) : List (ℕ × (ℕ ×ₗ Text)) :=
  leasts (rs.foldl Replicas.add {}).shards

theorem chosen_increasing : (chosen rs).Pairwise fun a b => a.1 < b.1 :=
  leasts_increasing (grouped_add grouped_nil)

theorem holds_listed {shard : ℕ} {option : ℕ ×ₗ Text} :
    Holds (rs.foldl Replicas.add {}).shards shard option ↔
      ∃ r ∈ rs, shard = r.shard ∧ option = r.option := by
  rw [holds_add]
  exact ⟨fun h => h.resolve_left not_holds_nil, Or.inr⟩

theorem mem_chosen {shard : ℕ} {option : ℕ ×ₗ Text} : (shard, option) ∈ chosen rs ↔
    (∃ r ∈ rs, shard = r.shard ∧ option = r.option) ∧
      ∀ r ∈ rs, r.shard = shard → option ≤ r.option := by
  unfold chosen
  rw [mem_leasts (grouped_add grouped_nil), holds_listed]
  constructor
  · rintro ⟨hlisted, hleast⟩
    exact ⟨hlisted, fun r hr hshard => hleast _ (holds_listed.mpr ⟨r, hr, hshard.symm, rfl⟩)⟩
  · rintro ⟨hlisted, hleast⟩
    refine ⟨hlisted, fun option' h => ?_⟩
    obtain ⟨r, hr, hshard, rfl⟩ := holds_listed.mp h
    exact hleast r hr hshard.symm

/-- A replica is chosen for every shard that is listed. -/
theorem mem_chosen_shards {shard : ℕ} :
    shard ∈ (chosen rs).map Prod.fst ↔ shard ∈ rs.map ShardReplica.shard := by
  unfold chosen
  rw [mem_leasts_keys (grouped_add grouped_nil), List.mem_map]
  constructor
  · rintro ⟨option, h⟩
    obtain ⟨r, hr, hshard, -⟩ := holds_listed.mp h
    exact ⟨r, hr, hshard.symm⟩
  · rintro ⟨r, hr, hshard⟩
    exact ⟨r.option, holds_listed.mpr ⟨r, hr, hshard.symm, rfl⟩⟩

theorem chosen_perm {rs' : List ShardReplica} (h : rs.Perm rs') : chosen rs = chosen rs' := by
  refine leasts_unique (grouped_add grouped_nil) (grouped_add grouped_nil) fun shard option => ?_
  rw [holds_listed, holds_listed]
  simp only [h.mem_iff]

end Rows

section Shards

variable {inspect : ℕ → ℕ → Text → Outcome LocalTarget}

def resolveChosen (inspect : ℕ → ℕ → Text → Outcome LocalTarget) :
    List (ℕ × (ℕ ×ₗ Text)) → List Text → Outcome (List LocalTarget)
  | [], _ => .ok []
  | (shard, option) :: rest, selectedHosts =>
      if (ofLex option).2 ∈ selectedHosts then
        Outcome.raise .discovery "distinct shards resolve to the same local endpoint"
      else do
        let target ← inspect shard (ofLex option).1 (ofLex option).2
        let targets ← resolveChosen inspect rest ((ofLex option).2 :: selectedHosts)
        .ok (target :: targets)

theorem resolveShards_eq {shards : List (ℕ × List (ℕ ×ₗ Text))} {selectedHosts : List Text}
    (h : ∀ shard ∈ shards, shard.2 ≠ []) :
    resolveShards inspect shards selectedHosts =
      resolveChosen inspect
        (shards.filterMap fun group => group.2.min?.map fun least => (group.1, least))
        selectedHosts := by
  induction shards generalizing selectedHosts with
  | nil => rfl
  | cons group rest ih =>
    obtain ⟨shard, options⟩ := group
    obtain ⟨least, hleast⟩ := min?_isSome (h (shard, options) (List.mem_cons_self ..))
    have hrest : ∀ shard ∈ rest, shard.2 ≠ [] := fun s hs => h s (List.mem_cons_of_mem _ hs)
    rw [List.filterMap_cons]
    simp only [hleast, Option.map_some]
    unfold resolveShards resolveChosen
    simp only [hleast]
    show (if (ofLex least).2 ∈ selectedHosts then _ else _) = _
    simp only [ih hrest]

theorem resolveShards_chosen (rs : List ShardReplica) :
    resolveShards inspect (byKey (rs.foldl Replicas.add {}).shards) [] =
      resolveChosen inspect (chosen rs) [] := by
  have hgrouped : Grouped (rs.foldl Replicas.add {}).shards := grouped_add grouped_nil
  exact resolveShards_eq fun shard hshard =>
    hgrouped.nonempty shard ((byKey_perm _).mem_iff.mp hshard)

/-- Every chosen replica gives one target, and their hosts are distinct. -/
theorem resolveChosen_eq_ok {shards : List (ℕ × (ℕ ×ₗ Text))} {selectedHosts : List Text}
    {targets : List LocalTarget} (h : resolveChosen inspect shards selectedHosts = .ok targets) :
    List.Forall₂ (fun s t => inspect s.1 (ofLex s.2).1 (ofLex s.2).2 = .ok t) shards targets ∧
      (shards.map fun s => (ofLex s.2).2).Nodup ∧
        ∀ s ∈ shards, (ofLex s.2).2 ∉ selectedHosts := by
  induction shards generalizing selectedHosts targets with
  | nil =>
    cases Except.ok.inj h
    exact ⟨List.Forall₂.nil, List.nodup_nil, by simp⟩
  | cons s rest ih =>
    obtain ⟨shard, option⟩ := s
    unfold resolveChosen at h
    split at h
    · simp [Outcome.raise] at h
    · rename_i hfresh
      obtain ⟨target, htarget, h⟩ := Except.bind_eq_ok.mp h
      obtain ⟨others, hothers, h⟩ := Except.bind_eq_ok.mp h
      cases Except.ok.inj h
      obtain ⟨hall, hnodup, hnew⟩ := ih hothers
      refine ⟨List.Forall₂.cons htarget hall, ?_, ?_⟩
      · rw [List.map_cons, List.nodup_cons]
        refine ⟨?_, hnodup⟩
        intro hin
        obtain ⟨s, hs, hhost⟩ := List.mem_map.mp hin
        exact hnew s hs (hhost ▸ List.mem_cons_self ..)
      · intro s hs
        rcases List.mem_cons.mp hs with rfl | hs
        · exact hfresh
        · exact fun hin => hnew s hs (List.mem_cons_of_mem _ hin)

end Shards

end RayClickHouse.Resolution
