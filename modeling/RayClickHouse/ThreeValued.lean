import Mathlib

/-!
Kleene's strong three-valued logic, as SQL conditions use it. A condition keeps
a row only when its value is `yes`; `unknown` is what a comparison with NULL
yields. The connectives are the minimum and the maximum of the order
no < unknown < yes, and a finite conjunction holds exactly when every member does.
-/
namespace RayClickHouse.ThreeValued

inductive Truth
  | no
  | unknown
  | yes
  deriving DecidableEq, Repr

namespace Truth

def ofBool (b : Bool) : Truth := if b then yes else no

def not : Truth → Truth
  | no => yes
  | unknown => unknown
  | yes => no

def and : Truth → Truth → Truth
  | no, _ => no
  | _, no => no
  | yes, yes => yes
  | _, _ => unknown

def or : Truth → Truth → Truth
  | yes, _ => yes
  | _, yes => yes
  | no, no => no
  | _, _ => unknown

def all (ts : List Truth) : Truth := ts.foldr and yes

@[simp] theorem ofBool_eq_yes (b : Bool) : ofBool b = yes ↔ b = true := by
  cases b <;> simp [ofBool]

@[simp] theorem and_eq_yes (a b : Truth) : a.and b = yes ↔ a = yes ∧ b = yes := by
  cases a <;> cases b <;> simp [and]

@[simp] theorem or_eq_yes (a b : Truth) : a.or b = yes ↔ a = yes ∨ b = yes := by
  cases a <;> cases b <;> simp [or]

@[simp] theorem and_yes (a : Truth) : a.and yes = a := by
  cases a <;> rfl

@[simp] theorem yes_and (a : Truth) : yes.and a = a := by
  cases a <;> rfl

theorem and_assoc (a b c : Truth) : (a.and b).and c = a.and (b.and c) := by
  cases a <;> cases b <;> cases c <;> rfl

@[simp] theorem all_nil : all [] = yes := rfl

@[simp] theorem all_cons (t : Truth) (ts : List Truth) : all (t :: ts) = t.and (all ts) := rfl

theorem all_append (ss ts : List Truth) : all (ss ++ ts) = (all ss).and (all ts) := by
  induction ss with
  | nil => simp
  | cons s rest ih => simp only [List.cons_append, all_cons, ih, and_assoc]

end Truth

def select {ρ : Type*} (table : Multiset ρ) (condition : ρ → Truth) : Multiset ρ :=
  table.filter (fun r => condition r = .yes)

section Cover

variable {ρ : Type*}

/-- Every row kept by `whole` is kept by exactly one of the conditions, and no
other row is kept by any of them. -/
def ExactCover (table : Multiset ρ) (whole : ρ → Truth) (parts : List (ρ → Truth)) : Prop :=
  ∀ r ∈ table, parts.countP (fun c => c r = .yes) = if whole r = .yes then 1 else 0

/-- An exact cover reads the multiset of kept rows, with multiplicities. -/
theorem ExactCover.sum_select {table : Multiset ρ} {whole : ρ → Truth}
    {parts : List (ρ → Truth)} (h : ExactCover table whole parts) :
    (parts.map (select table)).sum = select table whole := by
  classical
  ext r
  have hcount : ∀ c : ρ → Truth,
      (select table c).count r = if c r = .yes then table.count r else 0 := by
    intro c
    simp [select, Multiset.count_filter]
  have hsum : ∀ cs : List (ρ → Truth), ((cs.map (select table)).sum).count r =
      cs.countP (fun c => c r = .yes) * table.count r := by
    intro cs
    induction cs with
    | nil => simp
    | cons c rest ih =>
      simp only [List.map_cons, List.sum_cons, Multiset.count_add, hcount, ih, List.countP_cons]
      by_cases hc : c r = .yes
      · simp [hc, Nat.add_mul, Nat.add_comm]
      · simp [hc]
  rw [hsum, hcount]
  by_cases hr : r ∈ table
  · rw [h r hr]
    by_cases hw : whole r = .yes <;> simp [hw]
  · simp [Multiset.count_eq_zero_of_notMem hr]

end Cover

end RayClickHouse.ThreeValued
