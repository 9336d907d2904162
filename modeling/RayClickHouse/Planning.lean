import RayClickHouse.Distribution
import RayClickHouse.Models

/-!
Pure planning of physical split groups: partitions are packed greedily, heaviest
first, into the lightest group, and an integer key range is cut into
consecutive half-open intervals. NULL keys belong to the first interval only.
-/
namespace RayClickHouse.Planning

open RayClickHouse.Distribution

structure PartitionInfo where
  partitionId : Text
  rows : Option ℕ
  marks : Option ℕ
  bytesOnDisk : Option ℕ
  deriving DecidableEq, Repr

structure RangeFacts where
  column : Text
  declaredType : Text
  totalRows : ℕ
  nullRows : ℕ
  minimum : Option ℤ
  maximum : Option ℤ
  deriving DecidableEq, Repr

structure IntegerRange where
  lower : Option ℤ
  upper : Option ℤ
  includeNull : Bool
  deriving DecidableEq, Repr

def weight (item : PartitionInfo) : ℕ :=
  match item.bytesOnDisk with
  | some bytes => bytes
  | none => item.rows.getD 1

def heavierFirst (a b : PartitionInfo) : Bool :=
  decide (weight b < weight a) || (decide (weight a = weight b) &&
    decide (a.partitionId ≤ b.partitionId))

def lightest (weights : List ℕ) : ℕ := weights.idxOf (weights.min?.getD 0)

def packStep (state : List (List Text) × List ℕ) (item : PartitionInfo) :
    List (List Text) × List ℕ :=
  let index := lightest state.2
  (appendAt state.1 index item.partitionId, state.2.modify index (· + weight item))

def groupPartitions (partitions : List PartitionInfo) (targetTasks maxTasks : ℕ) :
    List (List Text) :=
  if partitions = [] then [] else
    let groupCount := min (min partitions.length targetTasks) maxTasks
    let packed := (partitions.mergeSort heavierFirst).foldl packStep
      (List.replicate groupCount [], List.replicate groupCount 0)
    (packed.1.filter (fun bucket => bucket ≠ [])).map
      (fun bucket => bucket.mergeSort (fun a b => decide (a ≤ b)))

/-- One pass of the loop for each remaining task. The last task is unbounded
above; the loop stops early once the maximum is covered. -/
def planLoop (maximum step : ℤ) (hasNull : Bool) : ℕ → ℕ → ℤ → List IntegerRange
  | 0, _, _ => []
  | remaining + 1, index, lower =>
      let flag := index == 0 && hasNull
      if remaining = 0 then [⟨some lower, none, flag⟩]
      else
        let upper := min (maximum + 1) (lower + step)
        ⟨some lower, some upper, flag⟩ ::
          (if maximum + 1 ≤ upper then []
            else planLoop maximum step hasNull remaining (index + 1) upper)

def planIntegerRanges (facts : RangeFacts) (targetTasks maxTasks : ℕ) :
    Outcome (List IntegerRange) :=
  let hasNull := decide (0 < facts.nullRows)
  if facts.totalRows = 0 then .ok []
  else
    match facts.minimum, facts.maximum with
    | some minimum, some maximum =>
        let taskCount := min (min (max 1 targetTasks) maxTasks) facts.totalRows
        if minimum = maximum ∨ taskCount = 1 then .ok [⟨some minimum, none, hasNull⟩]
        else
          let width := maximum - minimum + 1
          let step := max 1 ((width + taskCount - 1) / taskCount)
          let ranges := planLoop maximum step hasNull taskCount 0 minimum
          if ranges = [] then
            Outcome.raise .discovery "range planner produced no constraints"
          else .ok ranges
    | _, _ => .ok [⟨none, none, hasNull⟩]

section Groups

theorem lightest_lt {weights : List ℕ} (h : weights ≠ []) : lightest weights < weights.length := by
  unfold lightest
  rw [List.idxOf_lt_length_iff]
  cases hm : weights.min? with
  | none => exact absurd (List.min?_eq_none_iff.mp hm) h
  | some m => exact List.min?_mem hm

/-- What one placement keeps: the number of groups and of weights, and the
multiset of placed ids. -/
theorem packStep_spec (state : List (List Text) × List ℕ) (item : PartitionInfo)
    (hlen : state.2.length = state.1.length) (hpos : 0 < state.1.length) :
    (packStep state item).1.length = state.1.length ∧
      (packStep state item).2.length = (packStep state item).1.length ∧
      (packStep state item).1.flatten.Perm (item.partitionId :: state.1.flatten) := by
  have hne : state.2 ≠ [] := by
    intro hnil
    rw [hnil] at hlen
    simp at hlen
    omega
  have hindex : lightest state.2 < state.1.length := hlen ▸ lightest_lt hne
  refine ⟨by simp [packStep], by simp [packStep, hlen], ?_⟩
  exact flatten_appendAt_perm state.1 (lightest state.2) item.partitionId hindex

theorem foldl_packStep_spec (items : List PartitionInfo) (state : List (List Text) × List ℕ)
    (hlen : state.2.length = state.1.length) (hpos : 0 < state.1.length) :
    (items.foldl packStep state).1.length = state.1.length ∧
      (items.foldl packStep state).1.flatten.Perm
        (state.1.flatten ++ items.map PartitionInfo.partitionId) := by
  induction items generalizing state with
  | nil => simp
  | cons item rest ih =>
    obtain ⟨hlen1, hlen2, hperm⟩ := packStep_spec state item hlen hpos
    obtain ⟨ihlen, ihperm⟩ := ih (packStep state item) hlen2 (by omega)
    refine ⟨by rw [List.foldl_cons, ihlen, hlen1], ?_⟩
    rw [List.foldl_cons, List.map_cons]
    calc
      (rest.foldl packStep (packStep state item)).1.flatten.Perm
          ((packStep state item).1.flatten ++ rest.map PartitionInfo.partitionId) := ihperm
      _ |>.Perm ((item.partitionId :: state.1.flatten) ++ rest.map PartitionInfo.partitionId) :=
        hperm.append_right _
      _ |>.Perm (state.1.flatten ++ item.partitionId :: rest.map PartitionInfo.partitionId) :=
        List.perm_middle.symm

theorem flatten_filter_ne_nil {α : Type*} [DecidableEq α] (groups : List (List α)) :
    (groups.filter (fun g => g ≠ [])).flatten = groups.flatten := by
  induction groups with
  | nil => rfl
  | cons g rest ih =>
    by_cases hg : g = []
    · simp only [hg, ne_eq, not_true_eq_false, decide_false, Bool.false_eq_true, not_false_eq_true,
        List.filter_cons_of_neg, List.flatten_cons, List.nil_append]
      exact ih
    · simp only [ne_eq, hg, not_false_eq_true, decide_true, List.filter_cons_of_pos,
        List.flatten_cons]
      exact congrArg (g ++ ·) ih

theorem flatten_map_mergeSort_perm (groups : List (List Text)) (le : Text → Text → Bool) :
    (groups.map (fun g => g.mergeSort le)).flatten.Perm groups.flatten := by
  induction groups with
  | nil => exact List.Perm.refl _
  | cons g rest ih =>
    simp only [List.map_cons, List.flatten_cons]
    exact (List.mergeSort_perm g le).append ih

/-- Every partition id is placed in exactly one group, no group is empty, and
the number of groups respects both bounds. -/
theorem groupPartitions_spec (partitions : List PartitionInfo) (targetTasks maxTasks : ℕ)
    (htarget : 1 ≤ targetTasks) (hmax : 1 ≤ maxTasks) :
    (groupPartitions partitions targetTasks maxTasks).flatten.Perm
        (partitions.map PartitionInfo.partitionId) ∧
      (∀ g ∈ groupPartitions partitions targetTasks maxTasks, g ≠ []) ∧
      (groupPartitions partitions targetTasks maxTasks).length ≤
        min (min partitions.length targetTasks) maxTasks := by
  unfold groupPartitions
  split
  · rename_i hnil
    simp [hnil]
  · rename_i hne
    have hitems : 0 < partitions.length := List.length_pos_iff.mpr hne
    let groupCount := min (min partitions.length targetTasks) maxTasks
    have hcount : 0 < groupCount := by
      simp only [groupCount, lt_min_iff]
      exact ⟨⟨hitems, htarget⟩, hmax⟩
    let start : List (List Text) × List ℕ := (List.replicate groupCount [], List.replicate groupCount 0)
    let sorted := partitions.mergeSort heavierFirst
    obtain ⟨hlen, hperm⟩ := foldl_packStep_spec sorted start (by simp [start]) (by simpa [start])
    have hsorted : (sorted.map PartitionInfo.partitionId).Perm
        (partitions.map PartitionInfo.partitionId) :=
      (List.mergeSort_perm partitions heavierFirst).map _
    refine ⟨?_, ?_, ?_⟩
    · refine (flatten_map_mergeSort_perm _ _).trans ?_
      rw [flatten_filter_ne_nil]
      refine hperm.trans ?_
      simpa [start] using hsorted
    · intro g hg
      obtain ⟨bucket, hbucket, rfl⟩ := List.mem_map.mp hg
      have hb : bucket ≠ [] := by simpa using (List.mem_filter.mp hbucket).2
      intro hnil
      have hl := congrArg List.length hnil
      rw [List.length_mergeSort] at hl
      exact hb (List.length_eq_zero_iff.mp hl)
    · simp only [List.length_map]
      refine (List.length_filter_le _ _).trans ?_
      rw [hlen]
      simp [start, groupCount]

theorem groupPartitions_ne_nil {partitions : List PartitionInfo} {targetTasks maxTasks : ℕ}
    (htarget : 1 ≤ targetTasks) (hmax : 1 ≤ maxTasks) (hne : partitions ≠ []) :
    groupPartitions partitions targetTasks maxTasks ≠ [] := by
  intro hnil
  have hperm := (groupPartitions_spec partitions targetTasks maxTasks htarget hmax).1
  rw [hnil, List.flatten_nil] at hperm
  exact hne (List.map_eq_nil_iff.mp (List.Perm.nil_eq hperm).symm)

end Groups

section Ranges

def ofHalfOpen (includeNull : Bool) (i : HalfOpen ℤ) : IntegerRange :=
  ⟨some i.lower, i.upper, includeNull⟩

def flagFirst (includeNull : Bool) : List (HalfOpen ℤ) → List IntegerRange
  | [] => []
  | i :: rest => ofHalfOpen includeNull i :: rest.map (ofHalfOpen false)

theorem flagFirst_false (is : List (HalfOpen ℤ)) :
    flagFirst false is = is.map (ofHalfOpen false) := by
  cases is <;> rfl

/-- Consecutive intervals that cover everything from `lower` to `maximum`. -/
def Covers (lower maximum : ℤ) (is : List (HalfOpen ℤ)) : Prop :=
  ∃ upper, Chain lower is upper ∧ HalfOpen.Below maximum upper

theorem planLoop_covers (maximum step : ℤ) (hasNull : Bool) (hstep : 1 ≤ step)
    (remaining index : ℕ) (lower : ℤ) (hlower : lower ≤ maximum) :
    ∃ is, planLoop maximum step hasNull (remaining + 1) index lower =
        flagFirst (index == 0 && hasNull) is ∧
      Covers lower maximum is ∧ is.length ≤ remaining + 1 := by
  induction remaining generalizing index lower with
  | zero =>
    refine ⟨[⟨lower, none⟩], ?_, ⟨none, Chain.last lower none, trivial⟩, by simp⟩
    simp [planLoop, flagFirst, ofHalfOpen]
  | succ remaining ih =>
    have hle : lower ≤ min (maximum + 1) (lower + step) := by omega
    by_cases hdone : maximum + 1 ≤ min (maximum + 1) (lower + step)
    · refine ⟨[⟨lower, some (min (maximum + 1) (lower + step))⟩], ?_,
        ⟨_, Chain.last lower _, ?_⟩, by simp⟩
      · rw [planLoop]
        simp only [Nat.add_eq_zero_iff, one_ne_zero, and_false, if_false, if_pos hdone, flagFirst,
          ofHalfOpen, List.map_nil]
      · change maximum < min (maximum + 1) (lower + step)
        omega
    · obtain ⟨is, hloop, ⟨upper, hchain, hbelow⟩, hlen⟩ :=
        ih (index + 1) (min (maximum + 1) (lower + step)) (by omega)
      refine ⟨⟨lower, some (min (maximum + 1) (lower + step))⟩ :: is, ?_,
        ⟨upper, Chain.cons hle hchain, hbelow⟩, by simpa using hlen⟩
      have hflag : (index + 1 == 0 && hasNull) = false := by simp
      rw [hflag, flagFirst_false] at hloop
      rw [planLoop]
      simp only [Nat.add_eq_zero_iff, one_ne_zero, and_false, if_false, if_neg hdone, hloop,
        flagFirst, ofHalfOpen]

/-- A plan for a non-empty key range: the error branch is not reached, the
intervals cover the range in order, and NULL keys go to the first one. -/
theorem planIntegerRanges_covers (facts : RangeFacts) (targetTasks maxTasks : ℕ)
    (minimum maximum : ℤ) (htotal : 1 ≤ facts.totalRows) (htarget : 1 ≤ targetTasks)
    (hmax : 1 ≤ maxTasks) (hmin : facts.minimum = some minimum)
    (hmaximum : facts.maximum = some maximum) (hle : minimum ≤ maximum) :
    ∃ is, planIntegerRanges facts targetTasks maxTasks =
        .ok (flagFirst (decide (0 < facts.nullRows)) is) ∧
      Covers minimum maximum is ∧
      is.length ≤ min (min targetTasks maxTasks) facts.totalRows := by
  have hsingle : ∃ is : List (HalfOpen ℤ),
      (Except.ok [⟨some minimum, none, decide (0 < facts.nullRows)⟩] : Outcome (List IntegerRange)) =
        .ok (flagFirst (decide (0 < facts.nullRows)) is) ∧
      Covers minimum maximum is ∧
      is.length ≤ min (min targetTasks maxTasks) facts.totalRows := by
    refine ⟨[⟨minimum, none⟩], rfl, ⟨none, Chain.last minimum none, trivial⟩, ?_⟩
    simp only [List.length_singleton, le_min_iff]
    exact ⟨⟨htarget, hmax⟩, htotal⟩
  unfold planIntegerRanges
  rw [if_neg (by omega), hmin, hmaximum]
  simp only
  split
  · exact hsingle
  · rename_i hmany
    obtain ⟨n, hn⟩ : ∃ n, min (min (max 1 targetTasks) maxTasks) facts.totalRows = n + 1 :=
      ⟨_, (Nat.succ_pred_eq_of_pos (by omega)).symm⟩
    obtain ⟨is, hloop, hcovers, hlen⟩ := planLoop_covers maximum
      (max 1 ((maximum - minimum + 1 + ((n + 1 : ℕ) : ℤ) - 1) / ((n + 1 : ℕ) : ℤ)))
      (decide (0 < facts.nullRows)) (le_max_left _ _) n 0 minimum hle
    refine ⟨is, ?_, hcovers, by omega⟩
    rw [hn, hloop]
    have hne : flagFirst (0 == 0 && decide (0 < facts.nullRows)) is ≠ [] := by
      obtain ⟨upper, hchain, _⟩ := hcovers
      cases is with
      | nil => exact absurd rfl hchain.ne_nil
      | cons i rest => simp [flagFirst]
    rw [if_neg hne]
    simp

end Ranges

end RayClickHouse.Planning
