import RayClickHouse.CompatibleReading

/-!
Every generated declaration is determined: no other text that its type is compatible
with can be read in its place. The induction follows the type.
-/
namespace RayClickHouse.Schema

open Text TypeText Ddl

theorem integer_name (type : IntegerType) :
    isIdentifier type.name = true ∧ type.name ∉ wrapperNames := by
  obtain ⟨signed, width⟩ := type
  cases signed <;> cases width <;> exact ⟨rfl, by decide⟩

section Determined

variable [UnicodeDatabase]

/-- A nullable declaration is determined when the declaration is. -/
theorem determined_nullable {dtype : ArrowType} {d : Declaration} (nullable : Bool)
    (h : Determined (Compatible dtype) d.render) :
    Determined (Compatible dtype) (nullableDeclaration nullable d).render := by
  rw [render_nullableDeclaration]
  cases nullable with
  | false => exact h
  | true => exact Determined.call_one rfl h reads_nullable

theorem reads_list {value : ArrowType} :
    ReadsAs (Compatible (.list value)) "Array".toList (Satisfy [Compatible value]) :=
  (reads_compatible (by decide)).imp fun _ h =>
    satisfy_single.mpr (compatibleWith_list.mp h).2

theorem reads_largeList {value : ArrowType} :
    ReadsAs (Compatible (.largeList value)) "Array".toList (Satisfy [Compatible value]) :=
  (reads_compatible (by decide)).imp fun _ h =>
    satisfy_single.mpr (compatibleWith_largeList.mp h).2

theorem reads_map {key item : ArrowType} :
    ReadsAs (Compatible (.map key item)) "Map".toList (Satisfy [Compatible key, Compatible item]) :=
  (reads_compatible (by decide)).imp fun _ h => by
    obtain ⟨-, k, v, rfl, hk, hv⟩ := compatibleWith_map.mp h
    exact List.Forall₂.cons hk (List.Forall₂.cons hv List.Forall₂.nil)

theorem reads_struct {fields : ArrowFields} :
    ReadsAs (Compatible (.struct fields)) "Tuple".toList (Satisfy (fieldChecks fields)) :=
  (reads_compatible (by decide)).imp fun _ h => by
    obtain ⟨-, hlength, hfields⟩ := compatibleWith_struct.mp h
    exact (fieldsCompatible_iff hlength).mp hfields

theorem determined_timestamp (unit : TimeUnit) (tz : Option Text) :
    Determined (Compatible (.timestamp unit tz))
      (Declaration.dateTime64 (timestampPrecision unit) tz).render := by
  have hargument : Argument "DateTime64".toList := argument_identifier rfl
  rw [Declaration.render]
  refine ⟨solid_call hargument.solid hargument.nonempty, by simp [call], ?_⟩
  intro u rest rest' hu hq heq _ hrest'
  obtain ⟨x, found, rfl, hsplit, hwith, hequal⟩ :=
    call_cases rfl (reads_compatible (by decide)) hu hq heq hrest'
  obtain ⟨-, hzone⟩ := compatibleWith_timestamp.mp hwith
  rcases tz with _ | _ | ⟨c, zone⟩
  · rw [zoneArgument_none, List.append_nil] at hequal ⊢
    rw [flat_unique (flat_ofNat _) hsplit hequal]
  · rw [zoneArgument_empty, List.append_nil] at hequal ⊢
    rw [flat_unique (flat_ofNat _) hsplit hequal]
  · obtain ⟨a, b, rfl, hb⟩ := timezone_arguments hzone
    rw [zone_arguments] at hequal ⊢
    rw [List.append_assoc, List.cons_append, List.cons_append] at hequal
    rw [zone_unique hsplit hb (List.cons_ne_nil c zone) hequal]

theorem determined_decimal (bits precision : ℕ) (scale : ℤ) :
    Determined (Compatible (.decimal bits precision scale))
      (Declaration.decimal precision scale).render := by
  have hargument : Argument "Decimal".toList := argument_identifier rfl
  rw [Declaration.render]
  refine ⟨solid_call hargument.solid hargument.nonempty, by simp [call], ?_⟩
  intro u rest rest' hu hq heq _ hrest'
  obtain ⟨x, found, rfl, hsplit, -, hequal⟩ :=
    call_cases rfl (reads_compatible (by decide)) hu hq heq hrest'
  rw [flat_unique (flat_decimal precision scale) hsplit hequal]

theorem determined_emptyTuple :
    Determined (Compatible (.struct .nil)) (Declaration.tuple .nil).render := by
  have hargument : Argument "Tuple".toList := argument_identifier rfl
  rw [Declaration.render]
  refine ⟨solid_call hargument.solid hargument.nonempty, by simp [call], ?_⟩
  intro u rest rest' hu hq heq _ hrest'
  obtain ⟨x, found, rfl, hsplit, hfound, -⟩ := call_cases rfl reads_struct hu hq heq hrest'
  exact absurd (List.forall₂_nil_left_iff.mp hfound) (split_nonempty hsplit)

theorem determined_scalar {type : ArrowType} {name : Text} (hname : isIdentifier name = true)
    (hwrapper : name ∉ wrapperNames) :
    Determined (Compatible type) (Declaration.scalar name).render := by
  rw [Declaration.render]
  exact Determined.name hname (reads_compatible hwrapper)

mutual

/-- The declaration of a type is the only text compatible with it in its place. -/
theorem determined_render {type : ArrowType} {d : Declaration} (h : declarationOf type = .ok d) :
    Determined (Compatible type) d.render := by
  cases type with
  | list value =>
    obtain ⟨inner, hinner, rfl⟩ := declarationOf_list.mp h
    rw [Declaration.render]
    exact Determined.call_one rfl (determined_render hinner) reads_list
  | largeList value =>
    obtain ⟨inner, hinner, rfl⟩ := declarationOf_largeList.mp h
    rw [Declaration.render]
    exact Determined.call_one rfl (determined_render hinner) reads_largeList
  | map key item =>
    obtain ⟨k, hk, i, hi, rfl⟩ := declarationOf_map.mp h
    rw [Declaration.render, ← join_two]
    exact Determined.call rfl (List.Forall₂.cons (determined_render hk)
      (List.Forall₂.cons (determined_render hi) List.Forall₂.nil)) (List.cons_ne_nil _ _) reads_map
  | struct fields =>
    obtain ⟨parts, hparts, rfl⟩ := declarationOf_struct.mp h
    cases fields with
    | nil =>
      rw [declaredFields] at hparts
      rw [← Except.ok.inj hparts]
      exact determined_emptyTuple
    | cons name nullable type rest =>
      have hfields := determined_fields hparts
      have hne : parts.render ≠ [] := by
        intro hnil
        rw [hnil] at hfields
        cases hfields
      rw [Declaration.render]
      exact Determined.call rfl hfields hne reads_struct
  | boolean =>
    rw [declarationOf] at h
    rw [← Except.ok.inj h]
    exact determined_scalar rfl (by decide)
  | integer type =>
    rw [declarationOf] at h
    rw [← Except.ok.inj h]
    exact determined_scalar (integer_name type).1 (integer_name type).2
  | float32 =>
    rw [declarationOf] at h
    rw [← Except.ok.inj h]
    exact determined_scalar rfl (by decide)
  | float64 =>
    rw [declarationOf] at h
    rw [← Except.ok.inj h]
    exact determined_scalar rfl (by decide)
  | string =>
    rw [declarationOf] at h
    rw [← Except.ok.inj h]
    exact determined_scalar rfl (by decide)
  | largeString =>
    rw [declarationOf] at h
    rw [← Except.ok.inj h]
    exact determined_scalar rfl (by decide)
  | date32 =>
    rw [declarationOf] at h
    rw [← Except.ok.inj h]
    exact determined_scalar rfl (by decide)
  | timestamp unit tz =>
    rw [declarationOf] at h
    rw [← Except.ok.inj h]
    exact determined_timestamp unit tz
  | decimal bits precision scale =>
    rw [declarationOf] at h
    rw [← Except.ok.inj h]
    exact determined_decimal bits precision scale
  | null => exact absurd h (by simp [declarationOf, Outcome.raise])
  | float16 => exact absurd h (by simp [declarationOf, Outcome.raise])
  | binary => exact absurd h (by simp [declarationOf, Outcome.raise])
  | largeBinary => exact absurd h (by simp [declarationOf, Outcome.raise])
  | dictionary index value => exact absurd h (by simp [declarationOf, Outcome.raise])
  | other tag => exact absurd h (by simp [declarationOf, Outcome.raise])

theorem determined_fields {fields : ArrowFields} {parts : DeclaredFields}
    (h : declaredFields fields = .ok parts) :
    List.Forall₂ Determined (fieldChecks fields) parts.render := by
  cases fields with
  | nil =>
    rw [declaredFields] at h
    rw [← Except.ok.inj h]
    exact List.Forall₂.nil
  | cons name nullable type rest =>
    obtain ⟨hname, value, hvalue, more, hmore, rfl⟩ := declaredFields_cons.mp h
    rw [fieldChecks, DeclaredFields.render]
    exact List.Forall₂.cons
      (determined_field hname (determined_nullable nullable (determined_render hvalue)))
      (determined_fields hmore)

end

end Determined

end RayClickHouse.Schema
