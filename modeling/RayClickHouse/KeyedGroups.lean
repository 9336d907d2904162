import Mathlib.Data.List.Sort
import Mathlib.Data.List.MinMax

/-!
Values grouped under their keys in a dict of lists, and the least value of every
group in the order of the keys. The result depends only on which values stand
under which key.
-/
namespace RayClickHouse.KeyedGroups

variable {κ α : Type*}

def insert [DecidableEq κ] (key : κ) (value : α) : List (κ × List α) → List (κ × List α)
  | [] => [(key, [value])]
  | (k, values) :: rest =>
      if k = key then (k, values ++ [value]) :: rest else (k, values) :: insert key value rest

def Holds (groups : List (κ × List α)) (key : κ) (value : α) : Prop :=
  ∃ values, (key, values) ∈ groups ∧ value ∈ values

/-- The keys of a dict are distinct, and no group is empty. -/
structure Grouped (groups : List (κ × List α)) : Prop where
  keys : (groups.map Prod.fst).Nodup
  nonempty : ∀ group ∈ groups, group.2 ≠ []

theorem grouped_nil : Grouped ([] : List (κ × List α)) := ⟨List.nodup_nil, by simp⟩

theorem not_holds_nil {key : κ} {value : α} : ¬ Holds [] key value := by
  rintro ⟨values, h, -⟩
  simp at h

theorem holds_cons {group : κ × List α} {groups : List (κ × List α)} {key : κ} {value : α} :
    Holds (group :: groups) key value ↔
      (key = group.1 ∧ value ∈ group.2) ∨ Holds groups key value := by
  constructor
  · rintro ⟨values, h, hvalue⟩
    rcases List.mem_cons.mp h with rfl | h
    · exact Or.inl ⟨rfl, hvalue⟩
    · exact Or.inr ⟨values, h, hvalue⟩
  · rintro (⟨rfl, hvalue⟩ | ⟨values, h, hvalue⟩)
    · exact ⟨group.2, List.mem_cons_self .., hvalue⟩
    · exact ⟨values, List.mem_cons_of_mem _ h, hvalue⟩

section Insert

variable [DecidableEq κ]

theorem holds_insert {key : κ} {value : α} {groups : List (κ × List α)} {k : κ} {v : α} :
    Holds (insert key value groups) k v ↔ Holds groups k v ∨ (k = key ∧ v = value) := by
  induction groups with
  | nil =>
    rw [insert, holds_cons]
    simp [not_holds_nil]
  | cons group rest ih =>
    obtain ⟨first, values⟩ := group
    rw [insert]
    split
    · rename_i hfirst
      subst hfirst
      rw [holds_cons, holds_cons, List.mem_append, List.mem_singleton]
      tauto
    · rw [holds_cons, holds_cons, ih]
      tauto

theorem keys_insert {key : κ} {value : α} {groups : List (κ × List α)} :
    (insert key value groups).map Prod.fst =
      if key ∈ groups.map Prod.fst then groups.map Prod.fst
      else groups.map Prod.fst ++ [key] := by
  induction groups with
  | nil => rfl
  | cons group rest ih =>
    obtain ⟨first, values⟩ := group
    rw [insert]
    by_cases hfirst : first = key
    · rw [if_pos hfirst, List.map_cons, if_pos (by rw [hfirst]; exact List.mem_cons_self ..)]
      rfl
    · rw [if_neg hfirst, List.map_cons, List.map_cons, ih]
      by_cases hkey : key ∈ rest.map Prod.fst
      · rw [if_pos hkey, if_pos (List.mem_cons_of_mem _ hkey)]
      · have hnot : key ∉ first :: rest.map Prod.fst := by
          intro h
          rcases List.mem_cons.mp h with h | h
          · exact hfirst h.symm
          · exact hkey h
        rw [if_neg hkey, if_neg hnot]
        rfl

theorem nonempty_insert {key : κ} {value : α} {groups : List (κ × List α)}
    (h : ∀ group ∈ groups, group.2 ≠ []) : ∀ group ∈ insert key value groups, group.2 ≠ [] := by
  induction groups with
  | nil => simp [insert]
  | cons group rest ih =>
    obtain ⟨first, values⟩ := group
    rw [insert]
    intro other hother
    split at hother
    · rcases List.mem_cons.mp hother with rfl | hother
      · simp
      · exact h other (List.mem_cons_of_mem _ hother)
    · rcases List.mem_cons.mp hother with rfl | hother
      · exact h _ (List.mem_cons_self ..)
      · exact ih (fun g hg => h g (List.mem_cons_of_mem _ hg)) other hother

theorem Grouped.insert {key : κ} {value : α} {groups : List (κ × List α)} (h : Grouped groups) :
    Grouped (insert key value groups) := by
  refine ⟨?_, nonempty_insert h.nonempty⟩
  rw [keys_insert]
  split
  · exact h.keys
  · rename_i hkey
    exact List.nodup_append.mpr ⟨h.keys, List.nodup_singleton _, by
      rintro k hk _ hkey' rfl
      rw [List.mem_singleton] at hkey'
      exact hkey (hkey' ▸ hk)⟩

end Insert

section Sorted

variable [LinearOrder κ]

def byKey (groups : List (κ × List α)) : List (κ × List α) :=
  groups.insertionSort fun a b => a.1 ≤ b.1

theorem byKey_perm (groups : List (κ × List α)) : (byKey groups).Perm groups :=
  List.perm_insertionSort _ _

/-- The keys come in increasing order. -/
theorem byKey_increasing {groups : List (κ × List α)} (h : (groups.map Prod.fst).Nodup) :
    ((byKey groups).map Prod.fst).Pairwise (· < ·) := by
  have htotal : Std.Total fun a b : κ × List α => a.1 ≤ b.1 := ⟨fun a b => le_total a.1 b.1⟩
  have htrans : IsTrans (κ × List α) fun a b => a.1 ≤ b.1 := ⟨fun a b c => le_trans⟩
  have hle : ((byKey groups).map Prod.fst).Pairwise (· ≤ ·) := by
    rw [List.pairwise_map]
    exact List.pairwise_insertionSort _ groups
  have hnodup : ((byKey groups).map Prod.fst).Nodup :=
    (((byKey_perm groups).map Prod.fst).nodup_iff).mpr h
  exact (List.pairwise_and_iff.mpr ⟨hle, hnodup⟩).imp fun h => lt_of_le_of_ne h.1 h.2

end Sorted

section Least

variable [LinearOrder κ] [LinearOrder α]

def leasts (groups : List (κ × List α)) : List (κ × α) :=
  (byKey groups).filterMap fun group => group.2.min?.map fun least => (group.1, least)

theorem min?_isSome {values : List α} (h : values ≠ []) : ∃ least, values.min? = some least := by
  cases values with
  | nil => exact absurd rfl h
  | cons value rest => exact ⟨_, rfl⟩

omit [LinearOrder κ] in
theorem leasts_keys {groups : List (κ × List α)} (h : ∀ group ∈ groups, group.2 ≠ []) :
    (groups.filterMap fun group => group.2.min?.map fun least => (group.1, least)).map Prod.fst =
      groups.map Prod.fst := by
  induction groups with
  | nil => rfl
  | cons group rest ih =>
    obtain ⟨least, hleast⟩ := min?_isSome (h group (List.mem_cons_self ..))
    rw [List.filterMap_cons]
    simp only [hleast, Option.map_some, List.map_cons]
    rw [ih fun g hg => h g (List.mem_cons_of_mem _ hg)]

theorem leasts_increasing {groups : List (κ × List α)} (h : Grouped groups) :
    (leasts groups).Pairwise fun a b => a.1 < b.1 := by
  have hnonempty : ∀ group ∈ byKey groups, group.2 ≠ [] := fun group hgroup =>
    h.nonempty group ((byKey_perm groups).mem_iff.mp hgroup)
  have hkeys := byKey_increasing h.keys
  rw [← leasts_keys hnonempty, List.pairwise_map] at hkeys
  exact hkeys

/-- The keys under which something stands. -/
theorem mem_leasts_keys {groups : List (κ × List α)} (h : Grouped groups) {key : κ} :
    key ∈ (leasts groups).map Prod.fst ↔ ∃ value, Holds groups key value := by
  have hnonempty : ∀ group ∈ byKey groups, group.2 ≠ [] := fun group hgroup =>
    h.nonempty group ((byKey_perm groups).mem_iff.mp hgroup)
  unfold leasts
  rw [leasts_keys hnonempty, ((byKey_perm groups).map Prod.fst).mem_iff, List.mem_map]
  constructor
  · rintro ⟨⟨k, values⟩, hgroup, rfl⟩
    obtain ⟨value, hvalue⟩ := List.exists_mem_of_ne_nil _ (h.nonempty _ hgroup)
    exact ⟨value, values, hgroup, hvalue⟩
  · rintro ⟨value, values, hgroup, -⟩
    exact ⟨(key, values), hgroup, rfl⟩

/-- The value of a key is the least one that stands under it. -/
theorem mem_leasts {groups : List (κ × List α)} (h : Grouped groups) {key : κ} {least : α} :
    (key, least) ∈ leasts groups ↔
      Holds groups key least ∧ ∀ value, Holds groups key value → least ≤ value := by
  unfold leasts
  rw [List.mem_filterMap]
  constructor
  · rintro ⟨⟨k, values⟩, hgroup, hleast⟩
    obtain ⟨least', hmin, heq⟩ := Option.map_eq_some_iff.mp hleast
    obtain ⟨rfl, rfl⟩ := Prod.mk.inj heq
    have hmem := (byKey_perm groups).mem_iff.mp hgroup
    obtain ⟨hin, hle⟩ := List.min?_eq_some_iff.mp hmin
    refine ⟨⟨values, hmem, hin⟩, ?_⟩
    rintro value ⟨values', hvalues', hvalue⟩
    have hsame : values' = values :=
      congrArg Prod.snd (List.inj_on_of_nodup_map h.keys hvalues' hmem rfl)
    exact hle value (hsame ▸ hvalue)
  · rintro ⟨⟨values, hgroup, hin⟩, hle⟩
    refine ⟨(key, values), (byKey_perm groups).mem_iff.mpr hgroup, ?_⟩
    have hmin : values.min? = some least :=
      List.min?_eq_some_iff.mpr ⟨hin, fun value hvalue => hle value ⟨values, hgroup, hvalue⟩⟩
    simp only [hmin, Option.map_some]

/-- Groups that hold the same values have the same least values. -/
theorem leasts_unique {groups groups' : List (κ × List α)} (h : Grouped groups)
    (h' : Grouped groups')
    (hsame : ∀ key value, Holds groups key value ↔ Holds groups' key value) :
    leasts groups = leasts groups' := by
  have hmem : ∀ entry, entry ∈ leasts groups ↔ entry ∈ leasts groups' := by
    rintro ⟨key, least⟩
    rw [mem_leasts h, mem_leasts h', hsame]
    simp only [hsame]
  have hnodup : ∀ {gs : List (κ × List α)}, Grouped gs → (leasts gs).Nodup := by
    intro gs hgs
    refine (leasts_increasing hgs).imp ?_
    rintro a _ hlt rfl
    exact lt_irrefl _ hlt
  refine List.Perm.eq_of_pairwise ?_ (leasts_increasing h) (leasts_increasing h')
    ((List.perm_ext_iff_of_nodup (hnodup h) (hnodup h')).mpr hmem)
  intro a b _ _ hab hba
  exact absurd hba (lt_asymm hab)

end Least

end RayClickHouse.KeyedGroups
