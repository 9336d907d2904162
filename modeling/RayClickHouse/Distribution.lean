import Mathlib

/-!
Distributing work: appending items to numbered groups, dealing a list round
robin, and covering a linear order by consecutive half-open intervals.
-/
namespace RayClickHouse.Distribution

section Groups

variable {α : Type*}

def appendAt (groups : List (List α)) (i : ℕ) (x : α) : List (List α) :=
  groups.modify i (fun g => g ++ [x])

@[simp] theorem length_appendAt (groups : List (List α)) (i : ℕ) (x : α) :
    (appendAt groups i x).length = groups.length := by
  simp [appendAt]

theorem flatten_appendAt_perm (groups : List (List α)) (i : ℕ) (x : α)
    (h : i < groups.length) :
    (appendAt groups i x).flatten.Perm (x :: groups.flatten) := by
  induction groups generalizing i with
  | nil => simp at h
  | cons g rest ih =>
    cases i with
    | zero =>
      simp only [appendAt, List.modify_zero_cons, List.flatten_cons, List.append_assoc]
      exact List.perm_middle
    | succ i =>
      have hi : i < rest.length := by simpa using h
      simp only [appendAt, List.modify_succ_cons, List.flatten_cons]
      exact ((ih i hi).append_left g).trans List.perm_middle

/-- Groups only grow, and the group appended to is not empty. -/
theorem appendAt_grows {groups : List (List α)} (i : ℕ) (x : α) {j : ℕ} {g : List α}
    (hg : groups[j]? = some g) :
    ∃ g', (appendAt groups i x)[j]? = some g' ∧ (g ≠ [] → g' ≠ []) ∧ (i = j → g' ≠ []) := by
  unfold appendAt
  rw [List.getElem?_modify, hg]
  by_cases hij : i = j
  · exact ⟨g ++ [x], by simp [hij], by simp, by simp⟩
  · exact ⟨g, by simp [hij], id, fun h => absurd h hij⟩

/-- Deal items to `n` groups in turn, the first one to group `start % n`. -/
def dealFrom (n : ℕ) : ℕ → List α → List (List α) → List (List α)
  | _, [], groups => groups
  | start, x :: rest, groups => dealFrom n (start + 1) rest (appendAt groups (start % n) x)

def roundRobin (n : ℕ) (xs : List α) : List (List α) :=
  dealFrom n 0 xs (List.replicate n [])

@[simp] theorem length_dealFrom (n start : ℕ) (xs : List α) (groups : List (List α)) :
    (dealFrom n start xs groups).length = groups.length := by
  induction xs generalizing start groups with
  | nil => rfl
  | cons x rest ih => simp [dealFrom, ih]

theorem flatten_dealFrom_perm (n start : ℕ) (xs : List α) (groups : List (List α))
    (hn : 0 < n) (hlen : groups.length = n) :
    (dealFrom n start xs groups).flatten.Perm (groups.flatten ++ xs) := by
  induction xs generalizing start groups with
  | nil => simp [dealFrom]
  | cons x rest ih =>
    have hi : start % n < groups.length := by
      rw [hlen]
      exact Nat.mod_lt _ hn
    have hstep := ih (start + 1) (appendAt groups (start % n) x) (by simpa using hlen)
    have hone := flatten_appendAt_perm groups (start % n) x hi
    calc
      (dealFrom n start (x :: rest) groups).flatten.Perm
          ((appendAt groups (start % n) x).flatten ++ rest) := hstep
      _ |>.Perm ((x :: groups.flatten) ++ rest) := hone.append_right rest
      _ |>.Perm (groups.flatten ++ x :: rest) := List.perm_middle.symm

theorem dealFrom_grows (n start : ℕ) (xs : List α) {groups : List (List α)} {j : ℕ} {g : List α}
    (hg : groups[j]? = some g) :
    ∃ g', (dealFrom n start xs groups)[j]? = some g' ∧ (g ≠ [] → g' ≠ []) := by
  induction xs generalizing start groups g with
  | nil => exact ⟨g, hg, id⟩
  | cons x rest ih =>
    obtain ⟨g₁, hg₁, hgrow₁, _⟩ := appendAt_grows (start % n) x hg
    obtain ⟨g₂, hg₂, hgrow₂⟩ := ih (start + 1) hg₁
    exact ⟨g₂, hg₂, fun h => hgrow₂ (hgrow₁ h)⟩

/-- A group whose turn comes while items remain is not empty. -/
theorem dealFrom_ne_nil (n start : ℕ) (xs : List α) {groups : List (List α)} {j : ℕ} {g : List α}
    (hj : j < n) (hg : groups[j]? = some g) (hstart : start ≤ j)
    (henough : j < start + xs.length) :
    ∃ g', (dealFrom n start xs groups)[j]? = some g' ∧ g' ≠ [] := by
  induction xs generalizing start groups g with
  | nil =>
    simp only [List.length_nil, Nat.add_zero] at henough
    omega
  | cons x rest ih =>
    obtain ⟨g₁, hg₁, _, hhere⟩ := appendAt_grows (start % n) x hg
    by_cases heq : start = j
    · obtain ⟨g₂, hg₂, hgrow⟩ := dealFrom_grows n (start + 1) rest hg₁
      exact ⟨g₂, hg₂, hgrow (hhere (by rw [heq, Nat.mod_eq_of_lt hj]))⟩
    · simp only [List.length_cons] at henough
      exact ih (start + 1) hg₁ (by omega) (by omega)

@[simp] theorem length_roundRobin (n : ℕ) (xs : List α) : (roundRobin n xs).length = n := by
  simp [roundRobin]

/-- Every item is dealt to exactly one group. -/
theorem flatten_roundRobin_perm (n : ℕ) (xs : List α) (hn : 0 < n) :
    (roundRobin n xs).flatten.Perm xs := by
  have h := flatten_dealFrom_perm n 0 xs (List.replicate n []) hn (by simp)
  simpa [roundRobin] using h

theorem roundRobin_ne_nil {n : ℕ} {xs : List α} (hn : n ≤ xs.length) :
    ∀ g ∈ roundRobin n xs, g ≠ [] := by
  intro g hg
  obtain ⟨j, hj⟩ := List.mem_iff_getElem?.mp hg
  have hjn : j < n := by
    have h := (List.getElem?_eq_some_iff.mp hj).1
    simpa using h
  have hempty : (List.replicate n ([] : List α))[j]? = some [] := by simp [hjn]
  obtain ⟨g', hg', hne⟩ := dealFrom_ne_nil n 0 xs hjn hempty (Nat.zero_le j) (by omega)
  rw [roundRobin, hg'] at hj
  exact Option.some.inj hj ▸ hne

end Groups

section Intervals

variable {α : Type*} [LinearOrder α]

/-- A half-open interval, unbounded above when `upper` is none. -/
structure HalfOpen (α : Type*) where
  lower : α
  upper : Option α

namespace HalfOpen

def Below (x : α) : Option α → Prop
  | none => True
  | some u => x < u

instance (x : α) (u : Option α) : Decidable (Below x u) := by
  cases u <;> unfold Below <;> infer_instance

def Contains (i : HalfOpen α) (x : α) : Prop := i.lower ≤ x ∧ Below x i.upper

instance (i : HalfOpen α) (x : α) : Decidable (i.Contains x) := by
  unfold Contains
  infer_instance

end HalfOpen

/-- Consecutive intervals: each one starts where the previous one ends. -/
inductive Chain : α → List (HalfOpen α) → Option α → Prop
  | last (lower : α) (upper : Option α) : Chain lower [⟨lower, upper⟩] upper
  | cons {lower middle : α} {rest : List (HalfOpen α)} {upper : Option α} :
      lower ≤ middle → Chain middle rest upper → Chain lower (⟨lower, some middle⟩ :: rest) upper

theorem Chain.not_contains_of_lt {lower : α} {is : List (HalfOpen α)} {upper : Option α}
    (h : Chain lower is upper) {x : α} (hx : x < lower) : ∀ i ∈ is, ¬ i.Contains x := by
  induction h with
  | last lower upper =>
    intro i hi hc
    simp only [List.mem_singleton] at hi
    subst hi
    exact absurd hc.1 (not_le.mpr hx)
  | cons hle _ ih =>
    intro i hi hc
    rcases List.mem_cons.mp hi with rfl | hi
    · exact absurd hc.1 (not_le.mpr hx)
    · exact ih (lt_of_lt_of_le hx hle) i hi hc

/-- A point between the ends of a chain lies in exactly one of its intervals. -/
theorem Chain.countP_contains {lower : α} {is : List (HalfOpen α)} {upper : Option α}
    (h : Chain lower is upper) (x : α) (hlow : lower ≤ x) (hup : HalfOpen.Below x upper) :
    is.countP (fun i => i.Contains x) = 1 := by
  induction h with
  | last lower upper => simp [HalfOpen.Contains, hlow, hup]
  | @cons lower middle rest upper hle hrest ih =>
    rcases lt_or_ge x middle with hlt | hge
    · have hzero : rest.countP (fun i => i.Contains x) = 0 := by
        rw [List.countP_eq_zero]
        intro i hi
        simpa using hrest.not_contains_of_lt hlt i hi
      have hhead : HalfOpen.Contains (⟨lower, some middle⟩ : HalfOpen α) x := ⟨hlow, hlt⟩
      simp [hzero, hhead]
    · have hhead : ¬ HalfOpen.Contains (⟨lower, some middle⟩ : HalfOpen α) x :=
        fun hc => absurd hc.2 (not_lt.mpr hge)
      simp [hhead, ih hge hup]

theorem Chain.ne_nil {lower : α} {is : List (HalfOpen α)} {upper : Option α}
    (h : Chain lower is upper) : is ≠ [] := by
  cases h <;> simp

end Intervals

end RayClickHouse.Distribution
