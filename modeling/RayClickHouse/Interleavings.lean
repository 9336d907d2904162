import Mathlib

/-!
Runs of several parties that take turns in any order. A log is an interleaving of
the parties' lists when each step moves the first remaining entry of one of them
to the log.
-/
namespace RayClickHouse.Interleavings

variable {α : Type*}

inductive Interleaves : List (List α) → List α → Prop
  | done {lists : List (List α)} (h : ∀ list ∈ lists, list = []) : Interleaves lists []
  | step {before after : List (List α)} {a : α} {rest log : List α} :
      Interleaves (before ++ rest :: after) log →
        Interleaves (before ++ (a :: rest) :: after) (a :: log)

section Logs

variable {lists : List (List α)} {log : List α}

/-- A log holds the entries of all lists, each as often as they do. -/
theorem Interleaves.perm (h : Interleaves lists log) : log.Perm lists.flatten := by
  induction h with
  | @done lists h =>
    rw [List.flatten_eq_nil_iff.mpr h]
  | @step before after a rest log _ ih =>
    calc
      (a :: log).Perm (a :: (before ++ rest :: after).flatten) := ih.cons a
      _ = a :: (before.flatten ++ (rest ++ after.flatten)) := by
        rw [List.flatten_append, List.flatten_cons]
      _ |>.Perm (before.flatten ++ a :: (rest ++ after.flatten)) := List.perm_middle.symm
      _ = (before ++ (a :: rest) :: after).flatten := by
        rw [List.flatten_append, List.flatten_cons, List.cons_append]

end Logs

end RayClickHouse.Interleavings
