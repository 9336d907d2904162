import RayClickHouse.Batches

/-!
Where a prepared table may have NULL. Positions follow the declaration through its
wrappers: the elements of an array, the keys and values of a map, the fields of a
tuple. The preparation looks at the top level of the fields that are flagged nullable.
-/
namespace RayClickHouse.Batches

open Text TypeText Schema

def declaredNullable (declared : Text) : Bool :=
  match unwrap declared with
  | .ok (_, nullable) => nullable
  | .error _ => false

def declaredArguments (declared : Text) : List Text :=
  match unwrap declared with
  | .ok (parsed, _) => parsed.arguments
  | .error _ => []

mutual

/-- Every NULL in the cell stands where the declaration is nullable. -/
def nullSafe (declared : Text) : ArrowValue → Bool
  | .null => declaredNullable declared
  | .scalar _ => true
  | .list items => nullSafeItems ((declaredArguments declared).getD 0 []) items
  | .map entries =>
      nullSafeEntries ((declaredArguments declared).getD 0 [])
        ((declaredArguments declared).getD 1 []) entries
  | .struct fields => nullSafeFields (declaredArguments declared) fields

def nullSafeItems (declared : Text) : ArrowValues → Bool
  | .nil => true
  | .cons value rest => nullSafe declared value && nullSafeItems declared rest

def nullSafeEntries (key item : Text) : ArrowEntries → Bool
  | .nil => true
  | .cons k v rest => nullSafe key k && nullSafe item v && nullSafeEntries key item rest

def nullSafeFields (arguments : List Text) : ArrowValues → Bool
  | .nil => true
  | .cons value rest =>
      nullSafe (tupleArgumentType (arguments.headD [])) value &&
        nullSafeFields arguments.tail rest

end

def nestedNullSafe (declared : Text) (value : ArrowValue) : Bool :=
  value == .null || nullSafe declared value

def ArrowTable.cells (t : ArrowTable) (index : ℕ) : List ArrowValue :=
  t.rows.map fun row => row.getD index .null

def ArrowTable.field (t : ArrowTable) (index : ℕ) : Field :=
  t.schema.getD index ⟨[], .null, true⟩

theorem nullSafe_iff {declared : Text} {value : ArrowValue} :
    nullSafe declared value = true ↔
      nestedNullSafe declared value = true ∧
        (value = .null → declaredNullable declared = true) := by
  unfold nestedNullSafe
  rw [Bool.or_eq_true, beq_iff_eq]
  by_cases hnull : value = .null
  · subst hnull
    rw [nullSafe]
    simp
  · simp [hnull]

/-- The cells of a column are safe when their parts are and NULL is declared, or absent. -/
theorem cells_safe_iff {declared : Text} {values : List ArrowValue} :
    (∀ v ∈ values, nullSafe declared v = true) ↔
      (∀ v ∈ values, nestedNullSafe declared v = true) ∧
        (declaredNullable declared = true ∨ ArrowValue.null ∉ values) := by
  simp only [nullSafe_iff]
  constructor
  · intro h
    refine ⟨fun v hv => (h v hv).1, ?_⟩
    by_cases hnull : ArrowValue.null ∈ values
    · exact Or.inl ((h _ hnull).2 rfl)
    · exact Or.inr hnull
  · rintro ⟨hnested, hnull⟩ v hv
    refine ⟨hnested v hv, ?_⟩
    rintro rfl
    exact hnull.resolve_right (not_not.mpr hv)

section Project

theorem forall₂_getElem? {α β : Type*} {r : α → β → Prop} {xs : List α} {ys : List β}
    (h : List.Forall₂ r xs ys) {k : ℕ} {x : α} (hx : xs[k]? = some x) :
    ∃ y, ys[k]? = some y ∧ r x y := by
  induction h generalizing k with
  | nil => simp at hx
  | @cons a b _ _ hab _ ih =>
    cases k with
    | zero =>
      obtain rfl : a = x := by simpa using hx
      exact ⟨b, rfl, hab⟩
    | succ k =>
      rw [List.getElem?_cons_succ] at hx ⊢
      exact ih hx

theorem project_cells {t : ArrowTable} {indices : List ℕ} {k i : ℕ} (h : indices[k]? = some i) :
    (t.project indices).cells k = t.cells i ∧ (t.project indices).field k = t.field i := by
  unfold ArrowTable.cells ArrowTable.field ArrowTable.project
  constructor
  · simp only [List.map_map]
    refine List.map_congr_left fun row _ => ?_
    simp [List.getD_eq_getElem?_getD, h]
  · simp [List.getD_eq_getElem?_getD, h]

theorem nullCount_eq_zero {t : ArrowTable} {index : ℕ} :
    t.nullCount index = 0 ↔ ArrowValue.null ∉ t.cells index := by
  unfold ArrowTable.nullCount ArrowTable.cells
  rw [List.countP_eq_zero]
  simp

/-- The position of a name: a field has the name exactly there. -/
theorem columnIndex_field {t : ArrowTable} {name : Text} {i : ℕ} (h : t.columnIndex name = .ok i)
    (k : ℕ) : k = i ↔ k < t.schema.length ∧ (t.field k).name = name := by
  have hposition : t.schema.names.idxsOf name = [i] := by
    unfold ArrowTable.columnIndex at h
    split at h
    · rename_i j hj
      rw [hj, Except.ok.inj h]
    · contradiction
  have hmem : k ∈ t.schema.names.idxsOf name ↔ k = i := by
    rw [hposition, List.mem_singleton]
  rw [← hmem, List.mem_idxsOf_iff_exists_getElem_pos]
  unfold ArrowTable.field ArrowSchema.names
  simp only [List.length_map, List.getElem_map, beq_iff_eq]
  constructor
  · rintro ⟨hk, hname⟩
    refine ⟨hk, ?_⟩
    rw [List.getD_eq_getElem _ _ hk]
    exact hname
  · rintro ⟨hk, hname⟩
    rw [List.getD_eq_getElem _ _ hk] at hname
    exact ⟨hk, hname⟩

end Project

section Check

variable [UnicodeDatabase]

/-- A checked column: where its field is flagged nullable and its type is not, it has
no NULL. -/
theorem checkColumn_ok {t : ArrowTable} {column : TargetColumn} (h : checkColumn t column = .ok ()) :
    ∃ index, t.columnIndex column.name = .ok index ∧
      ((t.field index).nullable = true → declaredNullable column.declaredType = true ∨
        ArrowValue.null ∉ t.cells index) := by
  obtain ⟨index, hindex, h⟩ := Except.bind_eq_ok.mp h
  obtain ⟨⟨parsed, nullable⟩, hunwrap, h⟩ := Except.bind_eq_ok.mp h
  refine ⟨index, hindex, fun hflag => ?_⟩
  have hdeclared : declaredNullable column.declaredType = nullable := by
    unfold declaredNullable
    rw [hunwrap]
  rw [hdeclared, ← nullCount_eq_zero]
  simp only at h
  split at h
  · contradiction
  · rename_i hcheck
    by_cases hnullable : nullable = true
    · exact Or.inl hnullable
    · right
      by_contra hcount
      exact hcheck ⟨hflag, hnullable, hcount⟩

/-- A prepared table: the columns of the plan at their positions in the block, all of
them checked. -/
theorem prepareArrowTable_columns {t prepared : ArrowTable} {source : ArrowSchema}
    {columns : List TargetColumn} (h : prepareArrowTable t source columns = .ok prepared) :
    ∃ indices, prepared = t.project indices ∧
      List.Forall₂ (fun (column : TargetColumn) i => t.columnIndex column.name = .ok i) columns
        indices ∧
      ∀ column ∈ columns, checkColumn prepared column = .ok () := by
  unfold prepareArrowTable at h
  split at h
  · contradiction
  · obtain ⟨projected, hselect, h⟩ := Except.bind_eq_ok.mp h
    obtain ⟨checks, hchecks, h⟩ := Except.bind_eq_ok.mp h
    obtain ⟨indices, hindices, hproject⟩ := Except.bind_eq_ok.mp hselect
    rw [← Except.ok.inj h]
    refine ⟨indices, (Except.ok.inj hproject).symm, ?_, ?_⟩
    · rw [Except.mapM_eq_ok, List.forall₂_map_left_iff] at hindices
      exact hindices
    · intro column hcolumn
      obtain ⟨u, hu⟩ := Except.mapM_succeeds.mp ⟨checks, hchecks⟩ column hcolumn
      exact hu

/-- The positions the preparation does not look at: below the top level, and the top
level of a field that is not flagged nullable. -/
def UncheckedSafe (t : ArrowTable) (column : TargetColumn) (index : ℕ) : Prop :=
  (∀ v ∈ t.cells index, nestedNullSafe column.declaredType v = true) ∧
    ((t.field index).nullable = false → declaredNullable column.declaredType = true ∨
      ArrowValue.null ∉ t.cells index)

/-- The check of a column, in terms of the block. -/
theorem checked_column {t : ArrowTable} {indices : List ℕ} {column : TargetColumn} {k i : ℕ}
    (hk : indices[k]? = some i) (hi : t.columnIndex column.name = .ok i)
    (h : checkColumn (t.project indices) column = .ok ()) :
    (t.field i).nullable = true → declaredNullable column.declaredType = true ∨
      ArrowValue.null ∉ t.cells i := by
  obtain ⟨hcells, hfield⟩ := project_cells hk
  obtain ⟨index, hindex, hflag⟩ := checkColumn_ok h
  have hbound : k < (t.project indices).schema.length := by
    obtain ⟨hlt, -⟩ := List.getElem?_eq_some_iff.mp hk
    unfold ArrowTable.project
    rw [List.length_map]
    exact hlt
  have hname : ((t.project indices).field k).name = column.name := by
    rw [hfield]
    exact ((columnIndex_field hi i).mp rfl).2
  rw [← (columnIndex_field hindex k).mpr ⟨hbound, hname⟩, hcells, hfield] at hflag
  exact hflag

/-- NULLs of a prepared table stand only where the declarations are nullable, exactly
when this holds of the positions that the preparation does not look at. -/
theorem prepared_nulls_iff {t prepared : ArrowTable} {source : ArrowSchema}
    {columns : List TargetColumn} (h : prepareArrowTable t source columns = .ok prepared) :
    (∀ (k : ℕ) (column : TargetColumn), columns[k]? = some column →
      ∀ v ∈ prepared.cells k, nullSafe column.declaredType v = true) ↔
    ∀ column ∈ columns, ∀ index, t.columnIndex column.name = .ok index →
      UncheckedSafe t column index := by
  obtain ⟨indices, rfl, hindices, hchecks⟩ := prepareArrowTable_columns h
  constructor
  · intro hsafe column hcolumn index hindex
    obtain ⟨k, hk⟩ := List.mem_iff_getElem?.mp hcolumn
    obtain ⟨i, hi, hposition⟩ := forall₂_getElem? hindices hk
    obtain rfl : i = index := Except.ok.inj (hposition.symm.trans hindex)
    have hcells := hsafe k column hk
    rw [(project_cells hi).1, cells_safe_iff] at hcells
    exact ⟨hcells.1, fun _ => hcells.2⟩
  · intro hunchecked k column hk
    obtain ⟨i, hi, hposition⟩ := forall₂_getElem? hindices hk
    have hcolumn := List.mem_of_getElem? hk
    obtain ⟨hnested, hunflagged⟩ := hunchecked column hcolumn i hposition
    rw [(project_cells hi).1, cells_safe_iff]
    refine ⟨hnested, ?_⟩
    cases hflag : (t.field i).nullable with
    | true => exact checked_column hi hposition (hchecks column hcolumn) hflag
    | false => exact hunflagged hflag

end Check

section Example

def tagsBlock (tag : ArrowValue) : ArrowTable where
  schema := [⟨"tags".toList, .list (.integer ⟨true, .w8⟩), true⟩]
  rows := [[.list (.cons tag .nil)]]
  rows_width := by simp

def tagsTarget : TargetTable where
  database := "analytics".toList
  table := "events".toList
  engine := "MergeTree".toList
  columns := [⟨"tags".toList, "Array(Int8)".toList, [], [], 1⟩]

/-- A plan for the tags, and the block prepared by it. -/
theorem tagsBlock_prepared (tag : ArrowValue) (htag : tag = .scalar (.int 7) ∨ tag = .null) :
    ∃ prepared,
      @validateSourceSchema asciiDatabase (tagsBlock tag).schema tagsTarget none =
        .ok tagsTarget.columns ∧
      @prepareArrowTable asciiDatabase (tagsBlock tag) (tagsBlock tag).schema tagsTarget.columns =
        .ok prepared ∧
      prepared.cells 0 = [.list (.cons tag .nil)] := by
  have hplan : @validateSourceSchema asciiDatabase (tagsBlock tag).schema tagsTarget none =
      .ok tagsTarget.columns := by
    have hcheck : Outcome.check (@validateSourceSchema asciiDatabase (tagsBlock .null).schema
        tagsTarget none) (fun columns => decide (columns = tagsTarget.columns)) = true := by
      decide +kernel
    obtain ⟨columns, h, htest⟩ := Outcome.check_eq_true.mp hcheck
    rw [of_decide_eq_true htest] at h
    exact h
  have hcheck : Outcome.check (@prepareArrowTable asciiDatabase (tagsBlock tag)
      (tagsBlock tag).schema tagsTarget.columns)
      (fun prepared => decide (prepared.cells 0 = [.list (.cons tag .nil)])) = true := by
    rcases htag with rfl | rfl
    · decide +kernel
    · decide +kernel
  obtain ⟨prepared, h, htest⟩ := Outcome.check_eq_true.mp hcheck
  exact ⟨prepared, hplan, h, of_decide_eq_true htest⟩

/-- A block without NULLs stays without misplaced ones. -/
theorem tagsBlock_safe : ∃ prepared,
    @prepareArrowTable asciiDatabase (tagsBlock (.scalar (.int 7)))
      (tagsBlock (.scalar (.int 7))).schema tagsTarget.columns = .ok prepared ∧
    ∀ (k : ℕ) (column : TargetColumn), tagsTarget.columns[k]? = some column →
      ∀ v ∈ prepared.cells k, nullSafe column.declaredType v = true := by
  obtain ⟨prepared, -, h, -⟩ := tagsBlock_prepared _ (Or.inl rfl)
  refine ⟨prepared, h, (@prepared_nulls_iff asciiDatabase _ _ _ _ h).mpr ?_⟩
  intro column hcolumn index hindex
  rw [List.mem_singleton.mp hcolumn] at hindex ⊢
  have hzero : (tagsBlock (.scalar (.int 7))).columnIndex "tags".toList = .ok 0 := rfl
  rw [← Except.ok.inj (hzero.symm.trans hindex)]
  refine ⟨by decide +kernel, fun hflag => ?_⟩
  contradiction

/-- A NULL among the tags passes the preparation, although Int8 is not nullable. -/
theorem null_tag_prepared : ¬ ∀ (t prepared : ArrowTable) (source : ArrowSchema)
    (target : TargetTable) (selection : Option (List Text)) (columns : List TargetColumn),
    @validateSourceSchema asciiDatabase source target selection = .ok columns →
    @prepareArrowTable asciiDatabase t source columns = .ok prepared →
    ∀ (k : ℕ) (column : TargetColumn), columns[k]? = some column →
      ∀ v ∈ prepared.cells k, nullSafe column.declaredType v = true := by
  intro hclaim
  obtain ⟨prepared, hplan, h, hcells⟩ := tagsBlock_prepared .null (Or.inr rfl)
  have hsafe := hclaim _ _ _ _ _ _ hplan h 0 _ rfl (.list (.cons .null .nil)) (by
    rw [hcells]
    exact List.mem_singleton_self _)
  have hnot : ¬ nullSafe "Array(Int8)".toList (.list (.cons .null .nil)) = true := by
    decide +kernel
  exact hnot hsafe

end Example

end RayClickHouse.Batches
