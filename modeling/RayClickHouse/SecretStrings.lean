import RayClickHouse.Text
import RayClickHouse.Worklist

/-!
The strings that a diagnostic must not show. They are collected from the
connection arguments, the query parameters and the query text through dicts,
lists and tuples; containers are objects with an identity, so they may be shared
and may contain themselves.
-/
namespace RayClickHouse.Diagnostics

open Worklist

/-- A value: a string, a container by its identity, or any other object. -/
inductive Item (n : ℕ)
  | text (value : Text)
  | container (id : Fin n)
  | other

inductive Container (n : ℕ)
  | dict (entries : List (Item n × Item n))
  | list (items : List (Item n))
  | tuple (items : List (Item n))

def Container.items {n : ℕ} : Container n → List (Item n)
  | dict entries => entries.map Prod.snd
  | list items => items
  | tuple items => items

/-- What depends on the interpreter: the order in which a set is walked, and the
characters repr leaves as they are. -/
structure Interpreter where
  walk : List Text → List Text
  walk_perm : ∀ set, (walk set).Perm set
  isPrintable : Char → Bool
  isPrintable_ascii : ∀ c : Char, c.toNat < 128 →
    isPrintable c = decide (32 ≤ c.toNat ∧ c.toNat < 127)

/-- set.add; a set is a list without repetitions. -/
def setAdd (set : List Text) (value : Text) : List Text :=
  if value ∈ set then set else set ++ [value]

def longestFirst (interpreter : Interpreter) (set : List Text) : List Text :=
  (interpreter.walk set).mergeSort fun a b => decide (b.length ≤ a.length)

section Collect

variable {n : ℕ}

def collect (result : List Text) : Item n → List Text
  | .text value => if value = [] then result else setAdd result value
  | _ => result

def Item.id? : Item n → Option (Fin n)
  | container id => some id
  | _ => none

/-- The objects and what they contain. -/
def objectGraph (heap : Fin n → Container n) : Links (Item n) (Fin n) :=
  ⟨Item.id?, fun id => (heap id).items⟩

def secretStringsWithin (interpreter : Interpreter) (heap : Fin n → Container n) (passes : ℕ)
    (value : Item n) : Option (List Text) :=
  (run (objectGraph heap) collect passes (start value [])).map (longestFirst interpreter)

def heapSize (heap : Fin n → Container n) : ℕ := ∑ id, (heap id).items.length

/-- The string can be reached through dict values, list elements and tuple elements. -/
def Holds (heap : Fin n → Container n) (value : Item n) (s : Text) : Prop :=
  Reaches (objectGraph heap) value (.text s)

end Collect

section Sets

theorem mem_setAdd {set : List Text} {value s : Text} :
    s ∈ setAdd set value ↔ s ∈ set ∨ s = value := by
  unfold setAdd
  split
  · rename_i h
    constructor
    · exact Or.inl
    · intro hs
      rcases hs with hs | hs
      · exact hs
      · exact hs ▸ h
  · simp

theorem nodup_setAdd {set : List Text} {value : Text} (h : set.Nodup) :
    (setAdd set value).Nodup := by
  unfold setAdd
  split
  · exact h
  · rename_i hnot
    apply h.append (List.nodup_singleton value)
    intro s hs hvalue
    rw [List.mem_singleton.mp hvalue] at hs
    exact hnot hs

theorem longestFirst_perm (interpreter : Interpreter) (set : List Text) :
    (longestFirst interpreter set).Perm set :=
  (List.mergeSort_perm _ _).trans (interpreter.walk_perm set)

theorem longestFirst_sorted (interpreter : Interpreter) (set : List Text) :
    (longestFirst interpreter set).Pairwise fun a b => b.length ≤ a.length := by
  have hsorted : (longestFirst interpreter set).Pairwise
      fun a b => decide (b.length ≤ a.length) = true := by
    apply List.pairwise_mergeSort
    · intro a b c hab hbc
      simp only [decide_eq_true_eq] at hab hbc ⊢
      omega
    · intro a b
      simp only [Bool.or_eq_true, decide_eq_true_eq]
      omega
  exact hsorted.imp fun h => of_decide_eq_true h

end Sets

section Exact

variable {n : ℕ} {heap : Fin n → Container n} {value : Item n}

theorem collect_spec (result : List Text) (item : Item n) :
    (∀ s, s ∈ collect result item ↔ s ∈ result ∨ (s ≠ [] ∧ item = .text s)) ∧
      (result.Nodup → (collect result item).Nodup) := by
  cases item with
  | text t =>
    by_cases hempty : t = []
    · have hsame : collect result (.text t : Item n) = result := if_pos hempty
      rw [hsame]
      refine ⟨?_, fun h => h⟩
      intro s
      rw [Item.text.injEq, hempty]
      constructor
      · exact Or.inl
      · intro hs
        rcases hs with hs | ⟨hne, heq⟩
        · exact hs
        · exact absurd heq.symm hne
    · have hadd : collect result (.text t : Item n) = setAdd result t := if_neg hempty
      rw [hadd]
      refine ⟨?_, nodup_setAdd⟩
      intro s
      rw [mem_setAdd, Item.text.injEq]
      constructor
      · intro hs
        rcases hs with hs | rfl
        · exact Or.inl hs
        · exact Or.inr ⟨hempty, rfl⟩
      · intro hs
        rcases hs with hs | ⟨-, rfl⟩
        · exact Or.inl hs
        · exact Or.inr rfl
  | container id => simp [collect]
  | other => simp [collect]

theorem foldl_collect (leaves : List (Item n)) (result : List Text) :
    (∀ s, s ∈ leaves.foldl collect result ↔ s ∈ result ∨ (s ≠ [] ∧ .text s ∈ leaves)) ∧
      (result.Nodup → (leaves.foldl collect result).Nodup) := by
  induction leaves generalizing result with
  | nil => simp
  | cons item rest ih =>
    obtain ⟨hmem, hnodup⟩ := ih (collect result item)
    obtain ⟨hcollect, hkeeps⟩ := collect_spec result item
    rw [List.foldl_cons]
    refine ⟨?_, fun h => hnodup (hkeeps h)⟩
    intro s
    rw [hmem, hcollect, List.mem_cons, or_assoc]
    constructor
    · intro hs
      rcases hs with hs | ⟨hne, heq⟩ | ⟨hne, hin⟩
      · exact Or.inl hs
      · exact Or.inr ⟨hne, Or.inl heq.symm⟩
      · exact Or.inr ⟨hne, Or.inr hin⟩
    · intro hs
      rcases hs with hs | ⟨hne, heq | hin⟩
      · exact Or.inl hs
      · exact Or.inr (Or.inl ⟨hne, heq.symm⟩)
      · exact Or.inr (Or.inr ⟨hne, hin⟩)

/-- The collected strings are those that can be reached, each once, longer ones first. -/
structure Secrets (heap : Fin n → Container n) (value : Item n) (secrets : List Text) : Prop where
  nodup : secrets.Nodup
  sorted : secrets.Pairwise fun a b => b.length ≤ a.length
  exact : ∀ s, s ∈ secrets ↔ s ≠ [] ∧ Holds heap value s

theorem secretStrings_spec {interpreter : Interpreter} {passes : ℕ} {secrets : List Text}
    (h : secretStringsWithin interpreter heap passes value = some secrets) :
    Secrets heap value secrets := by
  obtain ⟨result, hrun, rfl⟩ := Option.map_eq_some_iff.mp h
  obtain ⟨leaves, rfl, hleaves⟩ := run_leaves hrun
  obtain ⟨hmem, hnodup⟩ := foldl_collect leaves []
  have hperm := longestFirst_perm interpreter (leaves.foldl collect [])
  refine ⟨hperm.nodup_iff.mpr (hnodup List.nodup_nil), longestFirst_sorted interpreter _, ?_⟩
  intro s
  rw [hperm.mem_iff, hmem, hleaves]
  simp [Holds, objectGraph, Item.id?]

/-- On every object graph, cyclic or not, the loop ends after at most as many passes
as there are values, and it collects exactly the strings that can be reached. -/
theorem secret_strings_exact (interpreter : Interpreter) (heap : Fin n → Container n)
    (value : Item n) : ∃ secrets, Secrets heap value secrets ∧ ∀ passes, heapSize heap < passes →
      secretStringsWithin interpreter heap passes value = some secrets := by
  have hweight : weight (objectGraph heap) (start value ([] : List Text)) ≤ heapSize heap + 1 := by
    rw [weight_start, Nat.add_comm]
    exact le_rfl
  obtain ⟨result, hrun⟩ : ∃ result, run (objectGraph heap) collect (heapSize heap + 1)
    (start value []) = some result := run_ends hweight
  have hruns : ∀ passes, heapSize heap < passes → secretStringsWithin interpreter heap passes value =
      some (longestFirst interpreter result) := by
    intro passes hpasses
    unfold secretStringsWithin
    rw [run_mono hrun hpasses, Option.map_some]
  exact ⟨_, secretStrings_spec (hruns _ (Nat.lt_succ_self _)), hruns⟩

end Exact

end RayClickHouse.Diagnostics
