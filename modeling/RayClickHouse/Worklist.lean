import Mathlib

/-!
A worklist search over a finite graph whose items are leaves or stand for
vertices. An item is popped from a stack; a leaf is visited, and a vertex is
expanded when it is met for the first time. The search ends, and the leaves it
visits are those that can be reached, whatever cycles the graph has.
-/
namespace RayClickHouse.Worklist

variable {ι V α : Type*}

/-- The vertex an item stands for, none for a leaf, and the items below a vertex. -/
structure Links (ι V : Type*) where
  node : ι → Option V
  succ : V → List ι

structure State (ι V α : Type*) where
  pending : List ι
  seen : Finset V
  result : α

section Search

variable [DecidableEq V] (g : Links ι V) (visit : α → ι → α)

/-- The top item is popped; the items below a new vertex are pushed in order. -/
def step (s : State ι V α) : State ι V α :=
  match s.pending with
  | [] => s
  | item :: rest =>
      match g.node item with
      | none => { s with pending := rest, result := visit s.result item }
      | some v =>
          if v ∈ s.seen then { s with pending := rest }
          else { s with pending := (g.succ v).reverse ++ rest, seen := insert v s.seen }

def run : ℕ → State ι V α → Option α
  | 0, s => if s.pending.isEmpty then some s.result else none
  | n + 1, s => if s.pending.isEmpty then some s.result else run n (step g visit s)

def start (root : ι) (result : α) : State ι V α := ⟨[root], ∅, result⟩

end Search

inductive Reaches (g : Links ι V) (root : ι) : ι → Prop
  | root : Reaches g root root
  | next {i j : ι} {v : V} (h : Reaches g root i) (hv : g.node i = some v) (hj : j ∈ g.succ v) :
      Reaches g root j

section Invariant

variable [DecidableEq V] {g : Links ι V} {visit : α → ι → α} {root : ι} {init : α}
variable {s : State ι V α} {leaves : List ι}

/-- An item that waits, was visited, or stands for a vertex met before. -/
def Covered (g : Links ι V) (s : State ι V α) (leaves : List ι) (i : ι) : Prop :=
  i ∈ s.pending ∨ i ∈ leaves ∨ ∃ v ∈ s.seen, g.node i = some v

/-- What holds during the search, with the leaves visited so far. -/
structure Explored (g : Links ι V) (visit : α → ι → α) (root : ι) (init : α) (s : State ι V α)
    (leaves : List ι) : Prop where
  result : s.result = leaves.foldl visit init
  leaf : ∀ i ∈ leaves, g.node i = none
  visited : ∀ i ∈ leaves, Reaches g root i
  waiting : ∀ i ∈ s.pending, Reaches g root i
  root : Covered g s leaves root
  closed : ∀ v ∈ s.seen, ∀ j ∈ g.succ v, Covered g s leaves j

omit [DecidableEq V] in
theorem explored_start : Explored g visit root init (start root init) [] where
  result := rfl
  leaf := by simp
  visited := by simp
  waiting := by
    intro i hi
    rw [List.mem_singleton.mp hi]
    exact .root
  root := Or.inl (List.mem_singleton_self root)
  closed := by simp [start]

omit [DecidableEq V] in
/-- A leaf is visited. -/
theorem Explored.visit_leaf {item : ι} {rest : List ι} (h : Explored g visit root init s leaves)
    (hpending : s.pending = item :: rest) (hnode : g.node item = none) :
    Explored g visit root init { s with pending := rest, result := visit s.result item }
      (leaves ++ [item]) := by
  have hitem : item ∈ s.pending := hpending ▸ List.mem_cons_self ..
  have hcovered : ∀ i, Covered g s leaves i →
      Covered g { s with pending := rest, result := visit s.result item } (leaves ++ [item]) i := by
    intro i hi
    rcases hi with hi | hi | hi
    · rw [hpending] at hi
      rcases List.mem_cons.mp hi with rfl | hi
      · exact Or.inr (Or.inl (by simp))
      · exact Or.inl hi
    · exact Or.inr (Or.inl (List.mem_append_left _ hi))
    · exact Or.inr (Or.inr hi)
  constructor
  · simp [h.result]
  · intro i hi
    rcases List.mem_append.mp hi with hi | hi
    · exact h.leaf i hi
    · rw [List.mem_singleton.mp hi]
      exact hnode
  · intro i hi
    rcases List.mem_append.mp hi with hi | hi
    · exact h.visited i hi
    · rw [List.mem_singleton.mp hi]
      exact h.waiting item hitem
  · intro i hi
    exact h.waiting i (hpending ▸ List.mem_cons_of_mem _ hi)
  · exact hcovered root h.root
  · intro v hv j hj
    exact hcovered j (h.closed v hv j hj)

omit [DecidableEq V] in
/-- A vertex met before is dropped. -/
theorem Explored.drop {item : ι} {rest : List ι} {v : V} (h : Explored g visit root init s leaves)
    (hpending : s.pending = item :: rest) (hnode : g.node item = some v) (hseen : v ∈ s.seen) :
    Explored g visit root init { s with pending := rest } leaves := by
  have hcovered : ∀ i, Covered g s leaves i → Covered g { s with pending := rest } leaves i := by
    intro i hi
    rcases hi with hi | hi | hi
    · rw [hpending] at hi
      rcases List.mem_cons.mp hi with rfl | hi
      · exact Or.inr (Or.inr ⟨v, hseen, hnode⟩)
      · exact Or.inl hi
    · exact Or.inr (Or.inl hi)
    · exact Or.inr (Or.inr hi)
  constructor
  · exact h.result
  · exact h.leaf
  · exact h.visited
  · intro i hi
    exact h.waiting i (hpending ▸ List.mem_cons_of_mem _ hi)
  · exact hcovered root h.root
  · intro w hw j hj
    exact hcovered j (h.closed w hw j hj)

/-- A new vertex is expanded. -/
theorem Explored.expand {item : ι} {rest : List ι} {v : V}
    (h : Explored g visit root init s leaves) (hpending : s.pending = item :: rest)
    (hnode : g.node item = some v) :
    Explored g visit root init
      { s with pending := (g.succ v).reverse ++ rest, seen := insert v s.seen } leaves := by
  have hitem : item ∈ s.pending := hpending ▸ List.mem_cons_self ..
  have hcovered : ∀ i, Covered g s leaves i → Covered g
      { s with pending := (g.succ v).reverse ++ rest, seen := insert v s.seen } leaves i := by
    intro i hi
    rcases hi with hi | hi | ⟨w, hw, hi⟩
    · rw [hpending] at hi
      rcases List.mem_cons.mp hi with rfl | hi
      · exact Or.inr (Or.inr ⟨v, Finset.mem_insert_self .., hnode⟩)
      · exact Or.inl (List.mem_append_right _ hi)
    · exact Or.inr (Or.inl hi)
    · exact Or.inr (Or.inr ⟨w, Finset.mem_insert_of_mem hw, hi⟩)
  constructor
  · exact h.result
  · exact h.leaf
  · exact h.visited
  · intro i hi
    rcases List.mem_append.mp hi with hi | hi
    · exact .next (h.waiting item hitem) hnode (List.mem_reverse.mp hi)
    · exact h.waiting i (hpending ▸ List.mem_cons_of_mem _ hi)
  · exact hcovered root h.root
  · intro w hw j hj
    rcases Finset.mem_insert.mp hw with rfl | hw
    · exact Or.inl (List.mem_append_left _ (List.mem_reverse.mpr hj))
    · exact hcovered j (h.closed w hw j hj)

theorem Explored.step (h : Explored g visit root init s leaves) :
    ∃ more, Explored g visit root init (step g visit s) more := by
  unfold Worklist.step
  cases hpending : s.pending with
  | nil => exact ⟨leaves, h⟩
  | cons item rest =>
    cases hnode : g.node item with
    | none =>
      simp only [hnode]
      exact ⟨_, h.visit_leaf hpending hnode⟩
    | some v =>
      simp only [hnode]
      split
      · rename_i hseen
        exact ⟨_, h.drop hpending hnode hseen⟩
      · exact ⟨_, h.expand hpending hnode⟩

theorem Explored.run {n : ℕ} {r : α} (h : Explored g visit root init s leaves)
    (hrun : run g visit n s = some r) :
    ∃ s' leaves', Explored g visit root init s' leaves' ∧ s'.pending = [] ∧ s'.result = r := by
  induction n generalizing s leaves with
  | zero =>
    unfold Worklist.run at hrun
    split at hrun
    · rename_i hempty
      exact ⟨s, leaves, h, List.isEmpty_iff.mp hempty, Option.some.inj hrun⟩
    · cases hrun
  | succ n ih =>
    unfold Worklist.run at hrun
    split at hrun
    · rename_i hempty
      exact ⟨s, leaves, h, List.isEmpty_iff.mp hempty, Option.some.inj hrun⟩
    · obtain ⟨more, hmore⟩ := h.step
      exact ih hmore hrun

omit [DecidableEq V] in
/-- Nothing waits: every item that can be reached is covered by the leaves and the vertices. -/
theorem Explored.complete (h : Explored g visit root init s leaves) (hpending : s.pending = [])
    {i : ι} (hi : Reaches g root i) : i ∈ leaves ∨ ∃ v ∈ s.seen, g.node i = some v := by
  have hdone : ∀ j, Covered g s leaves j → j ∈ leaves ∨ ∃ v ∈ s.seen, g.node j = some v := by
    intro j hj
    rcases hj with hj | hj
    · rw [hpending] at hj
      exact absurd hj List.not_mem_nil
    · exact hj
  induction hi with
  | root => exact hdone root h.root
  | @next i j v hi hv hj ih =>
    rcases ih with hleaf | ⟨w, hw, hnode⟩
    · rw [h.leaf i hleaf] at hv
      cases hv
    · cases hnode.symm.trans hv
      exact hdone j (h.closed v hw j hj)

end Invariant

section Result

variable [DecidableEq V] {g : Links ι V} {visit : α → ι → α} {root : ι} {init : α}

/-- The leaves visited are those that can be reached. -/
theorem run_leaves {n : ℕ} {r : α} (h : run g visit n (start root init) = some r) :
    ∃ leaves : List ι, r = leaves.foldl visit init ∧
      ∀ i, i ∈ leaves ↔ Reaches g root i ∧ g.node i = none := by
  obtain ⟨s, leaves, hexplored, hpending, rfl⟩ := explored_start.run h
  refine ⟨leaves, hexplored.result, ?_⟩
  intro i
  constructor
  · intro hi
    exact ⟨hexplored.visited i hi, hexplored.leaf i hi⟩
  · intro hi
    obtain ⟨hreaches, hnode⟩ := hi
    rcases hexplored.complete hpending hreaches with hleaf | ⟨v, -, hv⟩
    · exact hleaf
    · rw [hnode] at hv
      cases hv

variable [Fintype V]

def weight (g : Links ι V) (s : State ι V α) : ℕ :=
  s.pending.length + ∑ v ∈ s.seenᶜ, (g.succ v).length

theorem step_weight {s : State ι V α} (h : s.pending ≠ []) :
    weight g (step g visit s) + 1 = weight g s := by
  unfold step
  cases hpending : s.pending with
  | nil => exact absurd hpending h
  | cons item rest =>
    cases hnode : g.node item with
    | none =>
      simp only [hnode, weight, hpending, List.length_cons]
      omega
    | some v =>
      simp only [hnode]
      split
      · simp only [weight, hpending, List.length_cons]
        omega
      · rename_i hseen
        have hmem : v ∈ s.seenᶜ := by simpa using hseen
        have hsum := Finset.add_sum_erase s.seenᶜ (fun w => (g.succ w).length) hmem
        have herase : s.seenᶜ.erase v = (insert v s.seen)ᶜ := by
          ext w
          simp
        rw [herase] at hsum
        simp only [weight, hpending, List.length_append, List.length_reverse, List.length_cons]
        omega

/-- As many steps as there is weight suffice. -/
theorem run_ends {n : ℕ} {s : State ι V α} (h : weight g s ≤ n) :
    ∃ r, run g visit n s = some r := by
  induction n generalizing s with
  | zero =>
    have hpending : s.pending = [] := by
      apply List.length_eq_zero_iff.mp
      unfold weight at h
      omega
    refine ⟨s.result, ?_⟩
    simp [run, hpending]
  | succ n ih =>
    by_cases hpending : s.pending = []
    · refine ⟨s.result, ?_⟩
      simp [run, hpending]
    · have hstep : weight g (step g visit s) + 1 = weight g s := step_weight hpending
      obtain ⟨r, hr⟩ := ih (s := step g visit s) (by omega)
      refine ⟨r, ?_⟩
      simp [run, hpending, hr]

omit [Fintype V] in
/-- More steps change nothing. -/
theorem run_mono {m n : ℕ} {s : State ι V α} {r : α} (h : run g visit n s = some r) (hle : n ≤ m) :
    run g visit m s = some r := by
  induction n generalizing m s with
  | zero =>
    unfold run at h
    split at h
    · rename_i hempty
      cases m <;> simp [run, hempty, Option.some.inj h]
    · cases h
  | succ n ih =>
    obtain ⟨k, rfl⟩ : ∃ k, m = k + 1 := ⟨m - 1, by omega⟩
    unfold run at h ⊢
    split at h
    · rename_i hempty
      rw [if_pos hempty]
      exact h
    · rename_i hpending
      rw [if_neg hpending]
      exact ih h (by omega)

theorem weight_start : weight g (start root init) = 1 + ∑ v, (g.succ v).length := by
  simp [weight, start]

end Result

end RayClickHouse.Worklist
