import RayClickHouse.QueryText

/-!
The values behind the names of an accepted query. The names a request generates
carry the reserved prefix, which no caller's name does, and the four groups of
names are disjoint, so every binding keeps the value it was given.
-/
namespace RayClickHouse

open Text

theorem Text.ofNat_injective : Function.Injective ofNat := by
  intro m n h
  calc
    m = Nat.ofDigitChars 10 (Nat.toDigits 10 m) 0 := Nat.ofDigitChars_ten_toDigits.symm
    _ = Nat.ofDigitChars 10 (Nat.toDigits 10 n) 0 := by
      rw [show Nat.toDigits 10 m = Nat.toDigits 10 n from h]
    _ = n := Nat.ofDigitChars_ten_toDigits

/-- Numbered names differ. -/
theorem nodup_numbered (start : Text) (n : ℕ) :
    ((List.range n).map fun i => start ++ ofNat i).Nodup := by
  refine List.Nodup.map ?_ List.nodup_range
  intro i j h
  exact ofNat_injective (List.append_cancel_left h)

def dictOf (items : Bindings) : Bindings := Bindings.update [] items

namespace Bindings

/-- After an update the items have their values, the last one of a name winning. -/
theorem get?_update_of_mem (values : Bindings) {items : Bindings} (hnodup : items.names.Nodup)
    {b : Text × Value} (hb : b ∈ items) : (values.update items).get? b.1 = some b.2 := by
  induction items generalizing values with
  | nil => simp at hb
  | cons p rest ih =>
    have hcons : (p.1 :: names rest).Nodup := hnodup
    obtain ⟨hp, hrest⟩ := List.nodup_cons.mp hcons
    have hfold : values.update (p :: rest) = (values.set p.1 p.2).update rest := rfl
    rw [hfold]
    rcases List.mem_cons.mp hb with rfl | hb
    · rw [get?_update_of_not_mem _ _ hp, get?_set, if_pos rfl]
    · exact ih _ hrest hb

theorem mem_names {values : Bindings} {b : Text × Value} (h : b ∈ values) : b.1 ∈ values.names :=
  List.mem_map_of_mem h

end Bindings

namespace Predicates

variable {native : Bool} {schema : Schema.SchemaPlan}

def Numbered (parameters : Bindings) : Prop :=
  parameters.names = (List.range parameters.length).map expressionName

theorem numbered_bind {value : Value} {declared : ScalarType} {dtype : ArrowType} {op : Comparison}
    {s s' : CompileState} {bound : Text} (hs : Numbered s.parameters)
    (h : Predicates.bind native value declared dtype op s = .ok (bound, s')) :
    Numbered s'.parameters := by
  obtain ⟨_, _, hparameters, _⟩ := bind_eq_ok h
  unfold Numbered at hs ⊢
  rw [hparameters, List.length_append, List.length_singleton, List.range_succ, List.map_append, ← hs]
  simp [Bindings.names]

theorem numbered_comparison {c : Comparison} {column : PredicateNode} {value : Value}
    {s s' : CompileState} {sql : Text} (hs : Numbered s.parameters)
    (h : renderComparison native schema c column value s = .ok (sql, s')) :
    Numbered s'.parameters := by
  obtain ⟨name, _, _, _, _, hbind, _⟩ := renderComparison_eq_ok h
  exact numbered_bind (by simpa using hs) hbind

theorem Renders.numbered {node : PredicateNode} {s s' : CompileState} {sql : Text}
    (h : Renders native schema node s sql s') (hs : Numbered s.parameters) :
    Numbered s'.parameters := by
  induction h with
  | and _ _ ihl ihr => exact ihr (ihl (by simpa using hs))
  | or _ _ ihl ihr => exact ihr (ihl (by simpa using hs))
  | not _ ih => exact ih (by simpa using hs)
  | isNull _ => simpa using hs
  | isNotNull _ => simpa using hs
  | column _ hbind => exact numbered_bind (by simpa using hs) hbind
  | literalFirst h => exact numbered_comparison (by simpa using hs) h
  | columnFirst h => exact numbered_comparison (by simpa using hs) h

theorem Compiled.numbered {p : CompiledPredicate} (h : Compiled p) : Numbered p.parameters := by
  obtain ⟨_, _, _, hrenders, hparameters, _⟩ := h.renders
  exact hparameters ▸ hrenders.numbered rfl

theorem Compiled.nodup {p : CompiledPredicate} (h : Compiled p) : p.parameters.names.Nodup := by
  have hnames : p.parameters.names = _ := h.numbered
  rw [hnames]
  exact nodup_numbered expressionPrefix _

end Predicates

namespace Sql

open Lexical TypeText FilterScan Schema Predicates

section Names

variable {request : SelectRequest}

theorem mem_pushedNames (h : CompiledRequest request) {n : Text}
    (hn : n ∈ pushedNames request.pushedPredicate) : ∃ i, n = expressionName i := by
  cases hp : request.pushedPredicate with
  | none => simp [hp, pushedNames] at hn
  | some p =>
    have hnames : p.parameters.names = _ := (h p hp).numbered
    rw [hp, pushedNames, Option.map_some, Option.getD_some, hnames] at hn
    obtain ⟨i, _, rfl⟩ := List.mem_map.mp hn
    exact ⟨i, rfl⟩

theorem mem_partitionNames {ids : List Text} {n : Text} (hn : n ∈ partitionNames ids) :
    ∃ i, n = partitionName i := by
  obtain ⟨i, _, rfl⟩ := List.mem_map.mp hn
  exact ⟨i, rfl⟩

theorem names_rangeBindings (lower upper : Option ℤ) : (rangeBindings lower upper).names =
    lower.toList.map (fun _ => rangeLowerName) ++ upper.toList.map (fun _ => rangeUpperName) := by
  unfold rangeBindings Bindings.names
  rw [List.map_append, List.map_map, List.map_map]
  rfl

theorem mem_rangeBindings {lower upper : Option ℤ} {n : Text}
    (hn : n ∈ (rangeBindings lower upper).names) : n = rangeLowerName ∨ n = rangeUpperName := by
  rw [names_rangeBindings, List.mem_append] at hn
  rcases hn with hn | hn
  · obtain ⟨_, _, rfl⟩ := List.mem_map.mp hn
    exact Or.inl rfl
  · obtain ⟨_, _, rfl⟩ := List.mem_map.mp hn
    exact Or.inr rfl

theorem nodup_rangeBindings (lower upper : Option ℤ) : (rangeBindings lower upper).names.Nodup := by
  have hne : rangeLowerName ≠ rangeUpperName := by decide
  rw [names_rangeBindings]
  cases lower with
  | none => cases upper <;> simp
  | some l => cases upper <;> simp [hne]

theorem names_partitionBindings (ids : List Text) :
    (partitionBindings ids).names = partitionNames ids := by
  simp [partitionBindings, partitionNames, Bindings.names, List.map_fst_zip]

theorem nodup_partitionNames (ids : List Text) : (partitionNames ids).Nodup :=
  nodup_numbered (internalPrefix ++ "partition_".toList) _

/-- The character behind the reserved prefix, which tells the groups apart. -/
def groupLetter (name : Text) : Option Char := (name.drop internalPrefix.length).head?

theorem groupLetter_expression (i : ℕ) : groupLetter (expressionName i) = some 'e' := rfl

theorem groupLetter_partition (i : ℕ) : groupLetter (partitionName i) = some 'p' := rfl

theorem groupLetter_range {lower upper : Option ℤ} {n : Text}
    (hn : n ∈ (rangeBindings lower upper).names) : groupLetter n = some 'r' := by
  rcases mem_rangeBindings hn with rfl | rfl <;> rfl

/-- Generated names carry the reserved prefix. -/
theorem internal_of_generated (h : CompiledRequest request) {n : Text}
    (hn : n ∈ generatedNames request) : internalPrefix.isPrefixOf n = true := by
  simp only [generatedNames, List.mem_append] at hn
  rcases hn with (hn | hn) | hn
  · obtain ⟨i, rfl⟩ := mem_pushedNames h hn
    rfl
  · cases hids : request.partitionIds with
    | none => simp [hids] at hn
    | some ids =>
      obtain ⟨i, rfl⟩ := mem_partitionNames (by simpa [hids] using hn)
      rfl
  · unfold rangeNames at hn
    split at hn
    · rcases mem_rangeBindings hn with rfl | rfl <;> rfl
    · simp at hn

end Names

section Values

variable [UnicodeDatabase] {request : SelectRequest} {q : SelectQuery}

theorem Accepted.userNames_plain (h : Accepted request q) {n : Text}
    (hn : n ∈ request.parameters.names) : internalPrefix.isPrefixOf n = false := by
  cases hf : filterText request with
  | none => simp [(h.noFilter hf).1, Bindings.names] at hn
  | some f =>
    obtain ⟨b, hb, _⟩ := h.filter hf
    exact (hb.names_ok n hn).2

/-- The returned parameters with their sources in the order of assembly. -/
theorem Accepted.parameters_eq (h : Accepted request q) :
    q.parameters = ((request.parameters.update
      ((request.pushedPredicate.map CompiledPredicate.parameters).getD [])).update
        ((request.partitionIds.map partitionBindings).getD [])).update
          (if request.rangeColumn.isSome then rangeBindings request.rangeLower request.rangeUpper
            else []) := by
  obtain ⟨e, he, _, hparameters⟩ := h.effective
  rw [hparameters, (effectiveFilter_eq_ok he).2.2.1]

/-- No binding of a request overwrites another one. -/
structure NoOverwrite (request : SelectRequest) (q : SelectQuery) : Prop where
  user : ∀ n v, request.parameters.get? n = some v → q.parameters.get? n = some v
  pushed : ∀ p, request.pushedPredicate = some p →
    ∀ b ∈ p.parameters, q.parameters.get? b.1 = some b.2
  partition : ∀ ids, request.partitionIds = some ids →
    ∀ b ∈ partitionBindings ids, q.parameters.get? b.1 = some b.2
  range : request.rangeColumn.isSome →
    ∀ b ∈ rangeBindings request.rangeLower request.rangeUpper, q.parameters.get? b.1 = some b.2

theorem Accepted.noOverwrite (h : Accepted request q) (hcompiled : CompiledRequest request) :
    NoOverwrite request q := by
  have hrange : ∀ n, groupLetter n ≠ some 'r' → n ∉ Bindings.names
      (if request.rangeColumn.isSome then rangeBindings request.rangeLower request.rangeUpper
        else []) := by
    intro n hn hmem
    split at hmem
    · exact hn (groupLetter_range hmem)
    · simp [Bindings.names] at hmem
  have hpartition : ∀ n, groupLetter n ≠ some 'p' →
      n ∉ Bindings.names ((request.partitionIds.map partitionBindings).getD []) := by
    intro n hn hmem
    cases hids : request.partitionIds with
    | none => simp [hids, Bindings.names] at hmem
    | some ids =>
      rw [hids, Option.map_some, Option.getD_some, names_partitionBindings] at hmem
      obtain ⟨i, rfl⟩ := mem_partitionNames hmem
      exact hn (groupLetter_partition i)
  have hparameters := h.parameters_eq
  constructor
  · intro n v hv
    have hin : n ∈ request.parameters.names := by
      by_contra hcon
      rw [Bindings.get?_eq_none hcon] at hv
      contradiction
    have houter : n ∉ generatedNames request := by
      intro hgen
      have hplain := h.userNames_plain hin
      rw [internal_of_generated hcompiled hgen] at hplain
      contradiction
    simp only [generatedNames, List.mem_append, not_or] at houter
    rw [hparameters, Bindings.get?_update_of_not_mem, Bindings.get?_update_of_not_mem,
      Bindings.get?_update_of_not_mem, hv]
    · have hpushed := houter.1.1
      cases hp : request.pushedPredicate with
      | none => simp [Bindings.names]
      | some p => simpa [hp, pushedNames] using hpushed
    · have hids := houter.1.2
      cases hp : request.partitionIds with
      | none => simp [Bindings.names]
      | some ids => simpa [hp, names_partitionBindings] using hids
    · have hr := houter.2
      unfold rangeNames at hr
      split
      · rename_i hsome
        rwa [if_pos hsome] at hr
      · simp [Bindings.names]
  · intro p hp b hb
    have hletter : groupLetter b.1 = some 'e' := by
      have hin : b.1 ∈ pushedNames request.pushedPredicate := by
        simpa [hp, pushedNames] using Bindings.mem_names hb
      obtain ⟨i, hi⟩ := mem_pushedNames hcompiled hin
      rw [hi]
      exact groupLetter_expression i
    rw [hparameters, Bindings.get?_update_of_not_mem _ _ (hrange _ (by simp [hletter])),
      Bindings.get?_update_of_not_mem _ _ (hpartition _ (by simp [hletter])), hp]
    exact Bindings.get?_update_of_mem _ (hcompiled p hp).nodup hb
  · intro ids hids b hb
    have hin : b.1 ∈ partitionNames ids := names_partitionBindings ids ▸ Bindings.mem_names hb
    have hletter : groupLetter b.1 = some 'p' := by
      obtain ⟨i, hi⟩ := mem_partitionNames hin
      rw [hi]
      exact groupLetter_partition i
    rw [hparameters, Bindings.get?_update_of_not_mem _ _ (hrange _ (by simp [hletter])), hids]
    refine Bindings.get?_update_of_mem _ ?_ hb
    rw [Option.map_some, Option.getD_some, names_partitionBindings]
    exact nodup_partitionNames ids
  · intro hcolumn b hb
    rw [hparameters, if_pos hcolumn]
    exact Bindings.get?_update_of_mem _ (nodup_rangeBindings _ _) hb

end Values

end Sql

end RayClickHouse
