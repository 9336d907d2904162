import Mathlib

/-!
Greedy packing of weighted items into a fixed row of buckets: every item goes to
the end of a bucket of least load. The loads of two buckets never differ by more
than the heaviest item, and while an empty bucket is left an item of positive
weight fills one.
-/
namespace RayClickHouse.GreedyPacking

variable {α : Type*} (weight : α → ℕ)

def load (bucket : List α) : ℕ := (bucket.map weight).sum

@[simp] theorem load_nil : load weight [] = 0 := rfl

@[simp] theorem load_append_singleton (bucket : List α) (x : α) :
    load weight (bucket ++ [x]) = load weight bucket + weight x := by
  simp [load]

/-- A bucket of least load receives the item. -/
inductive Places (x : α) : List (List α) → List (List α) → Prop
  | least (before : List (List α)) (bucket : List α) (after : List (List α))
      (hleast : ∀ other ∈ before ++ bucket :: after, load weight bucket ≤ load weight other) :
      Places x (before ++ bucket :: after) (before ++ (bucket ++ [x]) :: after)

inductive Packs : List α → List (List α) → List (List α) → Prop
  | nil (buckets : List (List α)) : Packs [] buckets buckets
  | cons {x : α} {items : List α} {buckets next final : List (List α)}
      (hplace : Places weight x buckets next) (hrest : Packs items next final) :
      Packs (x :: items) buckets final

def Balanced (bound : ℕ) (buckets : List (List α)) : Prop :=
  ∀ b ∈ buckets, ∀ c ∈ buckets, load weight b ≤ load weight c + bound

def emptyCount (buckets : List (List α)) : ℕ := buckets.countP List.isEmpty

theorem balanced_replicate_nil (bound count : ℕ) :
    Balanced weight bound (List.replicate count []) := by
  intro b hb c hc
  rw [List.eq_of_mem_replicate hb]
  exact Nat.zero_le _

theorem emptyCount_replicate_nil (count : ℕ) :
    emptyCount (List.replicate count ([] : List α)) = count := by
  simp [emptyCount, List.countP_replicate]

variable {weight}

theorem Places.length_eq {x : α} {buckets next : List (List α)}
    (h : Places weight x buckets next) : next.length = buckets.length := by
  cases h with
  | least before bucket after hleast => simp

theorem Places.flatten_perm {x : α} {buckets next : List (List α)}
    (h : Places weight x buckets next) : next.flatten.Perm (x :: buckets.flatten) := by
  cases h with
  | least before bucket after hleast =>
    simp only [List.flatten_append, List.flatten_cons, List.append_assoc]
    calc
      (before.flatten ++ (bucket ++ ([x] ++ after.flatten))).Perm
          (before.flatten ++ (x :: (bucket ++ after.flatten))) :=
        List.Perm.append_left _ List.perm_middle
      _ |>.Perm (x :: (before.flatten ++ (bucket ++ after.flatten))) := List.perm_middle

/-- An item not heavier than the bound keeps the balance. -/
theorem Places.balanced {x : α} {buckets next : List (List α)} {bound : ℕ}
    (h : Places weight x buckets next) (hx : weight x ≤ bound)
    (hbalanced : Balanced weight bound buckets) : Balanced weight bound next := by
  cases h with
  | least before bucket after hleast =>
    have hold : ∀ b ∈ before ++ (bucket ++ [x]) :: after,
        b = bucket ++ [x] ∨ b ∈ before ++ bucket :: after := by
      intro b hb
      simp only [List.mem_append, List.mem_cons] at hb ⊢
      tauto
    have hbucket : bucket ∈ before ++ bucket :: after := by simp
    intro b hb c hc
    rcases hold b hb with rfl | hb
    · rcases hold c hc with rfl | hc
      · omega
      · have hle := hleast c hc
        rw [load_append_singleton]
        omega
    · rcases hold c hc with rfl | hc
      · have hle := hbalanced b hb bucket hbucket
        rw [load_append_singleton]
        omega
      · exact hbalanced b hb c hc

theorem load_eq_zero_iff {bucket : List α} (hpos : ∀ x ∈ bucket, 0 < weight x) :
    load weight bucket = 0 ↔ bucket = [] := by
  constructor
  · intro hzero
    cases bucket with
    | nil => rfl
    | cons x rest =>
      have hx := hpos x (List.mem_cons_self ..)
      simp only [load, List.map_cons, List.sum_cons] at hzero
      omega
  · intro hnil
    simp [hnil]

/-- With positive weights a bucket of least load is empty while one is left. -/
theorem Places.emptyCount_eq {x : α} {buckets next : List (List α)}
    (h : Places weight x buckets next) (hpos : ∀ b ∈ buckets, ∀ y ∈ b, 0 < weight y) :
    emptyCount next = emptyCount buckets - 1 := by
  cases h with
  | least before bucket after hleast =>
    have hcount : emptyCount (before ++ (bucket ++ [x]) :: after) =
        before.countP List.isEmpty + after.countP List.isEmpty := by
      simp [emptyCount]
    rw [hcount]
    by_cases hbucket : bucket = []
    · subst hbucket
      simp only [emptyCount, List.countP_append, List.countP_cons, List.isEmpty_nil, if_true]
      omega
    · have hload : 0 < load weight bucket := by
        have hiff := load_eq_zero_iff (hpos bucket (by simp))
        have hne : load weight bucket ≠ 0 := fun hzero => hbucket (hiff.mp hzero)
        omega
      have hnone : ∀ other ∈ before ++ bucket :: after, ¬ other.isEmpty = true := by
        intro other hother hempty
        have hle := hleast other hother
        rw [List.isEmpty_iff.mp hempty, load_nil] at hle
        omega
      have hzero : emptyCount (before ++ bucket :: after) = 0 := List.countP_eq_zero.mpr hnone
      rw [hzero]
      simp only [emptyCount, List.countP_append, List.countP_cons] at hzero
      omega

theorem Packs.length_eq {items : List α} {buckets final : List (List α)}
    (h : Packs weight items buckets final) : final.length = buckets.length := by
  induction h with
  | nil buckets => rfl
  | cons hplace _ ih => rw [ih, hplace.length_eq]

theorem Packs.flatten_perm {items : List α} {buckets final : List (List α)}
    (h : Packs weight items buckets final) : final.flatten.Perm (buckets.flatten ++ items) := by
  induction h with
  | nil buckets => simp
  | @cons x items buckets next final hplace _ ih =>
    calc
      final.flatten.Perm (next.flatten ++ items) := ih
      _ |>.Perm (x :: buckets.flatten ++ items) := hplace.flatten_perm.append_right items
      _ |>.Perm (buckets.flatten ++ x :: items) := List.perm_middle.symm

theorem Packs.balanced {items : List α} {buckets final : List (List α)} {bound : ℕ}
    (h : Packs weight items buckets final) (hitems : ∀ x ∈ items, weight x ≤ bound)
    (hbalanced : Balanced weight bound buckets) : Balanced weight bound final := by
  induction h with
  | nil buckets => exact hbalanced
  | cons hplace _ ih =>
    apply ih
    · intro x hx
      exact hitems x (List.mem_cons_of_mem _ hx)
    · exact hplace.balanced (hitems _ (List.mem_cons_self ..)) hbalanced

/-- Each item of positive weight fills an empty bucket until none is left. -/
theorem Packs.emptyCount_eq {items : List α} {buckets final : List (List α)}
    (h : Packs weight items buckets final) (hitems : ∀ x ∈ items, 0 < weight x)
    (hpos : ∀ b ∈ buckets, ∀ y ∈ b, 0 < weight y) :
    emptyCount final = emptyCount buckets - items.length := by
  induction h with
  | nil buckets => rfl
  | @cons x items buckets next final hplace _ ih =>
    have hnext : ∀ b ∈ next, ∀ y ∈ b, 0 < weight y := by
      intro b hb y hy
      have hmem : y ∈ x :: buckets.flatten :=
        hplace.flatten_perm.subset (List.mem_flatten_of_mem hb hy)
      rcases List.mem_cons.mp hmem with rfl | hmem
      · exact hitems y (List.mem_cons_self ..)
      · obtain ⟨c, hc, hyc⟩ := List.mem_flatten.mp hmem
        exact hpos c hc y hyc
    rw [ih (fun y hy => hitems y (List.mem_cons_of_mem _ hy)) hnext,
      hplace.emptyCount_eq hpos, List.length_cons]
    omega

end RayClickHouse.GreedyPacking
