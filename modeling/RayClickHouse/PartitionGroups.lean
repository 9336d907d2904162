import RayClickHouse.GreedyPacking
import RayClickHouse.Planning

/-!
The groups of partitions built by the greedy loop. The loop carries ids and
weights apart; both are read off a packing of the partitions themselves, whose
balance and number of non-empty buckets are those of the groups.
-/
namespace RayClickHouse.Planning

open RayClickHouse.Distribution RayClickHouse.GreedyPacking

/-- The total weight of the partitions a group names. -/
def groupWeight (partitions : List PartitionInfo) (group : List Text) : ℕ :=
  ((partitions.filter fun item => item.partitionId ∈ group).map weight).sum

def heaviest (partitions : List PartitionInfo) : ℕ := (partitions.map weight).foldr max 0

structure BalancedGrouping (partitions : List PartitionInfo) (targetTasks maxTasks : ℕ)
    (groups : List (List Text)) : Prop where
  placed_once : groups.flatten.Perm (partitions.map PartitionInfo.partitionId)
  nonempty : ∀ group ∈ groups, group ≠ []
  length_le : groups.length ≤ min (min partitions.length targetTasks) maxTasks
  balanced : ∀ group ∈ groups, ∀ other ∈ groups,
    groupWeight partitions group ≤ groupWeight partitions other + heaviest partitions
  length_eq : (∀ item ∈ partitions, 0 < weight item) →
    groups.length = min (min partitions.length targetTasks) maxTasks

theorem weight_le_heaviest {partitions : List PartitionInfo} {item : PartitionInfo}
    (h : item ∈ partitions) : weight item ≤ heaviest partitions := by
  induction partitions with
  | nil => simp at h
  | cons first rest ih =>
    simp only [heaviest, List.map_cons, List.foldr_cons]
    rcases List.mem_cons.mp h with rfl | h
    · exact le_max_left _ _
    · exact (ih h).trans (le_max_right _ _)

section Placement

def packState (buckets : List (List PartitionInfo)) : List (List Text) × List ℕ :=
  (buckets.map (List.map PartitionInfo.partitionId), buckets.map (load weight))

theorem lightest_le {weights : List ℕ} (h : lightest weights < weights.length) {w : ℕ}
    (hw : w ∈ weights) : weights[lightest weights] ≤ w := by
  obtain ⟨m, hm⟩ : ∃ m, weights.min? = some m := by
    cases hmin : weights.min? with
    | none =>
      rw [List.min?_eq_none_iff.mp hmin] at hw
      simp at hw
    | some m => exact ⟨m, rfl⟩
  have hget : weights[lightest weights] = m := by
    have hidx : lightest weights = weights.idxOf m := by simp [lightest, hm]
    simp only [hidx, List.getElem_idxOf]
  rw [hget]
  exact (List.le_min?_iff hm).mp le_rfl w hw

/-- One pass of the loop puts the partition into a bucket of least load. -/
theorem packStep_places (buckets : List (List PartitionInfo)) (item : PartitionInfo)
    (hne : buckets ≠ []) :
    ∃ next, packStep (packState buckets) item = packState next ∧
      Places weight item buckets next := by
  let loads := buckets.map (load weight)
  have hlt : lightest loads < loads.length := lightest_lt (by simpa [loads] using hne)
  have hindex : lightest loads < buckets.length := by simpa [loads] using hlt
  have hsplit : buckets = buckets.take (lightest loads) ++
      buckets[lightest loads] :: buckets.drop (lightest loads + 1) := by
    rw [← List.drop_eq_getElem_cons hindex, List.take_append_drop]
  have hleast : ∀ other ∈ buckets, load weight buckets[lightest loads] ≤ load weight other := by
    intro other hother
    have hle := lightest_le hlt (List.mem_map_of_mem hother)
    simpa only [loads, List.getElem_map] using hle
  refine ⟨buckets.take (lightest loads) ++
    (buckets[lightest loads] ++ [item]) :: buckets.drop (lightest loads + 1), ?_, ?_⟩
  · have hids : lightest loads < (buckets.map (List.map PartitionInfo.partitionId)).length := by
      simpa using hindex
    simp only [packStep, packState, appendAt]
    change (List.modify _ (lightest loads) _, List.modify loads (lightest loads) _) = _
    rw [List.modify_eq_take_cons_drop hids, List.modify_eq_take_cons_drop hlt]
    simp [loads, List.map_take, List.map_drop]
  · have hplace : Places weight item _ _ := Places.least (buckets.take (lightest loads))
      buckets[lightest loads] (buckets.drop (lightest loads + 1)) (by rwa [← hsplit])
    rwa [← hsplit] at hplace

theorem foldl_packStep_packs (items : List PartitionInfo) (buckets : List (List PartitionInfo))
    (hne : buckets ≠ []) :
    ∃ final, items.foldl packStep (packState buckets) = packState final ∧
      Packs weight items buckets final := by
  induction items generalizing buckets with
  | nil => exact ⟨buckets, rfl, Packs.nil buckets⟩
  | cons item rest ih =>
    obtain ⟨next, hstep, hplace⟩ := packStep_places buckets item hne
    have hnext : next ≠ [] := by
      apply List.ne_nil_of_length_pos
      rw [hplace.length_eq]
      exact List.length_pos_iff.mpr hne
    obtain ⟨final, hfold, hpacks⟩ := ih next hnext
    refine ⟨final, ?_, Packs.cons hplace hpacks⟩
    rw [List.foldl_cons, hstep, hfold]

end Placement

/-- The groups are the ids of the non-empty buckets of a packing of the sorted partitions. -/
theorem groupPartitions_packs (partitions : List PartitionInfo) {targetTasks maxTasks : ℕ}
    (htarget : 1 ≤ targetTasks) (hmax : 1 ≤ maxTasks) (hne : partitions ≠ []) :
    ∃ final, Packs weight (partitions.mergeSort heavierFirst)
        (List.replicate (min (min partitions.length targetTasks) maxTasks) []) final ∧
      groupPartitions partitions targetTasks maxTasks =
        (final.filter (fun bucket => bucket ≠ [])).map fun bucket =>
          (bucket.map PartitionInfo.partitionId).mergeSort fun a b => decide (a ≤ b) := by
  let groupCount := min (min partitions.length targetTasks) maxTasks
  have hcount : 0 < groupCount := by
    have hlength := List.length_pos_iff.mpr hne
    simp only [groupCount]
    omega
  have hstart : List.replicate groupCount ([] : List PartitionInfo) ≠ [] := by
    apply List.ne_nil_of_length_pos
    rwa [List.length_replicate]
  obtain ⟨final, hfold, hpacks⟩ :=
    foldl_packStep_packs (partitions.mergeSort heavierFirst) _ hstart
  refine ⟨final, hpacks, ?_⟩
  have hstate : packState (List.replicate groupCount []) =
      (List.replicate groupCount [], List.replicate groupCount 0) := by
    simp [packState]
  rw [hstate] at hfold
  unfold groupPartitions
  rw [if_neg hne]
  simp only [groupCount] at hfold
  simp only [hfold, packState, List.filter_map, List.map_map, Function.comp_def, ne_eq,
    List.map_eq_nil_iff]

section Weights

/-- With distinct ids a group weighs what its bucket does. -/
theorem groupWeight_bucket {partitions : List PartitionInfo} {final : List (List PartitionInfo)}
    (hids : (partitions.map PartitionInfo.partitionId).Nodup)
    (hperm : final.flatten.Perm partitions) {bucket : List PartitionInfo} (hmem : bucket ∈ final)
    {group : List Text} (hgroup : group.Perm (bucket.map PartitionInfo.partitionId)) :
    groupWeight partitions group = load weight bucket := by
  have hnodup : partitions.Nodup := List.Nodup.of_map _ hids
  have hbucket : bucket.Nodup :=
    (List.nodup_flatten.mp (hperm.nodup_iff.mpr hnodup)).1 bucket hmem
  have hfilter : (partitions.filter fun item => item.partitionId ∈ group).Perm bucket := by
    apply (List.perm_ext_iff_of_nodup (hnodup.filter _) hbucket).mpr
    intro item
    rw [List.mem_filter, decide_eq_true_eq, hgroup.mem_iff, List.mem_map]
    constructor
    · rintro ⟨hitem, other, hother, hid⟩
      have hpartition : other ∈ partitions := hperm.subset (List.mem_flatten_of_mem hmem hother)
      have heq : other = item := List.inj_on_of_nodup_map hids hpartition hitem hid
      rwa [← heq]
    · intro hitem
      exact ⟨hperm.subset (List.mem_flatten_of_mem hmem hitem), item, hitem, rfl⟩
  exact (hfilter.map weight).sum_eq

theorem length_filter_ne_nil {α : Type*} [DecidableEq α] (buckets : List (List α)) :
    (buckets.filter fun bucket => bucket ≠ []).length = buckets.length - emptyCount buckets := by
  have hcount := List.length_eq_countP_add_countP List.isEmpty (l := buckets)
  have hfilter : (buckets.filter fun bucket => bucket ≠ []).length =
      buckets.countP fun bucket => ¬ bucket.isEmpty = true := by
    rw [← List.countP_eq_length_filter]
    apply List.countP_congr
    intro bucket _
    cases bucket <;> simp
  unfold emptyCount
  omega

end Weights

section Order

theorem heavierFirst_iff (a b : PartitionInfo) :
    heavierFirst a b = true ↔
      weight b < weight a ∨ (weight a = weight b ∧ a.partitionId ≤ b.partitionId) := by
  simp [heavierFirst]

theorem heavierFirst_trans (a b c : PartitionInfo) (hab : heavierFirst a b = true)
    (hbc : heavierFirst b c = true) : heavierFirst a c = true := by
  rw [heavierFirst_iff] at hab hbc ⊢
  rcases hab with hab | ⟨hab, hidab⟩
  · left
    rcases hbc with hbc | ⟨hbc, _⟩
    · omega
    · omega
  · rcases hbc with hbc | ⟨hbc, hidbc⟩
    · left
      omega
    · right
      exact ⟨hab.trans hbc, le_trans hidab hidbc⟩

theorem heavierFirst_total (a b : PartitionInfo) :
    (heavierFirst a b || heavierFirst b a) = true := by
  rw [Bool.or_eq_true, heavierFirst_iff, heavierFirst_iff]
  rcases lt_trichotomy (weight a) (weight b) with hlt | heq | hgt
  · exact Or.inr (Or.inl hlt)
  · rcases le_total a.partitionId b.partitionId with hle | hle
    · exact Or.inl (Or.inr ⟨heq, hle⟩)
    · exact Or.inr (Or.inr ⟨heq.symm, hle⟩)
  · exact Or.inl (Or.inl hgt)

theorem heavierFirst_antisymm {a b : PartitionInfo} (hab : heavierFirst a b = true)
    (hba : heavierFirst b a = true) : a.partitionId = b.partitionId := by
  rw [heavierFirst_iff] at hab hba
  rcases hab with hab | ⟨_, hidab⟩
  · rcases hba with hba | ⟨hba, _⟩
    · omega
    · omega
  · rcases hba with hba | ⟨_, hidba⟩
    · omega
    · exact le_antisymm hidab hidba

/-- The sort key is total on distinct ids, so that the order of arrival is forgotten. -/
theorem mergeSort_eq_of_perm {partitions others : List PartitionInfo}
    (hids : (partitions.map PartitionInfo.partitionId).Nodup) (hperm : others.Perm partitions) :
    others.mergeSort heavierFirst = partitions.mergeSort heavierFirst := by
  have hothers := List.mergeSort_perm others heavierFirst
  have hsorted := List.mergeSort_perm partitions heavierFirst
  refine @List.Perm.eq_of_pairwise _ (fun a b => heavierFirst a b = true) _ _ ?_ ?_ ?_ ?_
  · intro a b ha hb hab hba
    have hmema : a ∈ partitions := hperm.subset (hothers.subset ha)
    have hmemb : b ∈ partitions := hsorted.subset hb
    exact List.inj_on_of_nodup_map hids hmema hmemb (heavierFirst_antisymm hab hba)
  · exact List.pairwise_mergeSort heavierFirst_trans heavierFirst_total others
  · exact List.pairwise_mergeSort heavierFirst_trans heavierFirst_total partitions
  · exact hothers.trans (hperm.trans hsorted.symm)

theorem groupPartitions_eq_of_perm {partitions others : List PartitionInfo}
    (hids : (partitions.map PartitionInfo.partitionId).Nodup) (hperm : others.Perm partitions)
    (targetTasks maxTasks : ℕ) :
    groupPartitions others targetTasks maxTasks =
      groupPartitions partitions targetTasks maxTasks := by
  by_cases hnil : partitions = []
  · rw [hnil] at hperm ⊢
    rw [hperm.eq_nil]
  · have hother : others ≠ [] := by
      intro hother
      rw [hother] at hperm
      exact hnil hperm.symm.eq_nil
    unfold groupPartitions
    rw [if_neg hnil, if_neg hother, mergeSort_eq_of_perm hids hperm, hperm.length_eq]

end Order

theorem balancedGrouping_nil (targetTasks maxTasks : ℕ) :
    BalancedGrouping [] targetTasks maxTasks [] where
  placed_once := List.Perm.refl _
  nonempty := by simp
  length_le := by simp
  balanced := by simp
  length_eq := by simp

/-- The groups form a balanced partition of the ids, whatever the order of the input. -/
theorem partition_grouping (partitions : List PartitionInfo) (targetTasks maxTasks : ℕ)
    (hids : (partitions.map PartitionInfo.partitionId).Nodup) (htarget : 1 ≤ targetTasks)
    (hmax : 1 ≤ maxTasks) :
    BalancedGrouping partitions targetTasks maxTasks
        (groupPartitions partitions targetTasks maxTasks) ∧
      ∀ others, others.Perm partitions →
        groupPartitions others targetTasks maxTasks =
          groupPartitions partitions targetTasks maxTasks := by
  refine ⟨?_, fun others hperm => groupPartitions_eq_of_perm hids hperm targetTasks maxTasks⟩
  by_cases hnil : partitions = []
  · subst hnil
    exact balancedGrouping_nil targetTasks maxTasks
  obtain ⟨hplaced, hnonempty, hlength⟩ :=
    groupPartitions_spec partitions targetTasks maxTasks htarget hmax
  obtain ⟨final, hpacks, hgroups⟩ := groupPartitions_packs partitions htarget hmax hnil
  have hsorted := List.mergeSort_perm partitions heavierFirst
  have hflatten : final.flatten.Perm partitions := by
    have hperm := hpacks.flatten_perm
    simp only [List.flatten_replicate_nil, List.nil_append] at hperm
    exact hperm.trans hsorted
  refine ⟨hplaced, hnonempty, hlength, ?_, ?_⟩
  · have hbalanced : Balanced weight (heaviest partitions) final := by
      apply hpacks.balanced
      · intro item hitem
        exact weight_le_heaviest (hsorted.subset hitem)
      · exact balanced_replicate_nil weight _ _
    have hbucket : ∀ group ∈ groupPartitions partitions targetTasks maxTasks,
        ∃ bucket ∈ final, groupWeight partitions group = load weight bucket := by
      intro group hgroup
      rw [hgroups] at hgroup
      obtain ⟨bucket, hmem, rfl⟩ := List.mem_map.mp hgroup
      have hmem := List.mem_of_mem_filter hmem
      exact ⟨bucket, hmem, groupWeight_bucket hids hflatten hmem (List.mergeSort_perm _ _)⟩
    intro group hgroup other hother
    obtain ⟨b, hb, hgroup⟩ := hbucket group hgroup
    obtain ⟨c, hc, hother⟩ := hbucket other hother
    rw [hgroup, hother]
    exact hbalanced b hb c hc
  · intro hpos
    have hempty := hpacks.emptyCount_eq (fun item hitem => hpos item (hsorted.subset hitem))
      (by
        intro bucket hbucket item hitem
        rw [List.eq_of_mem_replicate hbucket] at hitem
        simp at hitem)
    rw [emptyCount_replicate_nil, hsorted.length_eq] at hempty
    rw [hgroups, List.length_map, length_filter_ne_nil, hpacks.length_eq, List.length_replicate]
    omega

/-- Two partitions of equal weight and one without a weight, in two groups. -/
theorem three_partitions_grouping :
    BalancedGrouping [⟨['b'], some 7, none, none⟩, ⟨['a'], none, none, some 7⟩,
          ⟨['c'], none, none, none⟩] 2 5
        (groupPartitions [⟨['b'], some 7, none, none⟩, ⟨['a'], none, none, some 7⟩,
          ⟨['c'], none, none, none⟩] 2 5) ∧
      ∀ others : List PartitionInfo, others.Perm [⟨['b'], some 7, none, none⟩,
            ⟨['a'], none, none, some 7⟩, ⟨['c'], none, none, none⟩] →
        groupPartitions others 2 5 =
          groupPartitions [⟨['b'], some 7, none, none⟩, ⟨['a'], none, none, some 7⟩,
            ⟨['c'], none, none, none⟩] 2 5 := by
  apply partition_grouping
  · simp
  · omega
  · omega

end RayClickHouse.Planning
