import RayClickHouse.Determination

/-!
How a text that an Arrow type is compatible with reads: as one of a few names, or as
the field of a tuple with its quoted name in front.
-/
namespace RayClickHouse.Schema

open Text TypeText Ddl

section Names

theorem declaredNames_identPart (dtype : ArrowType) :
    ∀ n ∈ declaredNames dtype, ∀ c ∈ n, isIdentPart c = true := by
  have hall : (declaredNames dtype).all (fun n => n.all isIdentPart) = true := by
    cases dtype with
    | integer type =>
      obtain ⟨signed, width⟩ := type
      cases signed <;> cases width <;> rfl
    | _ => rfl
  intro n hn
  exact List.all_eq_true.mp (List.all_eq_true.mp hall n hn)

theorem wrapperNames_identPart : ∀ n ∈ wrapperNames, ∀ c ∈ n, isIdentPart c = true := by
  have hall : wrapperNames.all (fun n => n.all isIdentPart) = true := rfl
  intro n hn
  exact List.all_eq_true.mp (List.all_eq_true.mp hall n hn)

theorem declaredNames_not_wrapper (dtype : ArrowType) :
    ∀ n ∈ declaredNames dtype, n ∉ wrapperNames := by
  cases dtype with
  | integer type =>
    obtain ⟨signed, width⟩ := type
    cases signed <;> cases width <;> decide
  | _ =>
    simp only [declaredNames]
    decide

theorem wrapped_of_not_mem {parsed : ClickHouseType} (h : parsed.name ∉ wrapperNames) :
    wrapped parsed = none := by
  cases hwrapped : wrapped parsed with
  | none => rfl
  | some step => exact absurd (wrapped_name hwrapped) h

end Names

section Reading

variable [UnicodeDatabase] {dtype : ArrowType} {u : Text}

/-- A compatible text reads as a wrapper around a compatible argument, or as one of
the names of the type. -/
theorem compatible_parse (h : Compatible dtype u) : ∃ parsed, parseType u = .ok parsed ∧
    ((∃ step, wrapped parsed = some step ∧ Compatible dtype step.1) ∨
      wrapped parsed = none ∧ compatibleWith dtype parsed.name parsed.arguments = .ok true) := by
  obtain ⟨name, arguments, nullable, hunwrap, hwith⟩ := compatible_iff.mp h
  cases hparse : parseType u with
  | error failure =>
    unfold unwrap at hunwrap
    rw [hparse] at hunwrap
    contradiction
  | ok parsed =>
    refine ⟨parsed, rfl, ?_⟩
    cases hwrapped : wrapped parsed with
    | none =>
      right
      rw [unwrap_of_plain hparse hwrapped] at hunwrap
      obtain ⟨rfl, -⟩ := Prod.mk.inj (Except.ok.inj hunwrap)
      exact ⟨rfl, hwith⟩
    | some step =>
      left
      rw [unwrap_of_wrapped hparse hwrapped] at hunwrap
      obtain ⟨inner, hinner, heq⟩ := Except.map_eq_ok.mp hunwrap
      refine ⟨step, rfl, compatible_iff.mpr ⟨name, arguments, inner.2, ?_, hwith⟩⟩
      rw [hinner, ← (Prod.mk.inj heq).1]

theorem compatible_name {parsed : ClickHouseType} (hparse : parseType u = .ok parsed)
    (h : Compatible dtype u) : ∀ c ∈ parsed.name, isIdentPart c = true := by
  obtain ⟨parsed', hparse', hcases⟩ := compatible_parse h
  obtain rfl : parsed' = parsed := Except.ok.inj (hparse'.symm.trans hparse)
  rcases hcases with ⟨step, hwrapped, -⟩ | ⟨-, hwith⟩
  · exact wrapperNames_identPart _ (wrapped_name hwrapped)
  · exact declaredNames_identPart _ _ (compatibleWith_name hwith)

/-- A text compatible with a type that reads as a name passes the comparison under it. -/
theorem reads_compatible {name : Text} (hname : name ∉ wrapperNames) :
    ReadsAs (Compatible dtype) name
      (fun arguments => compatibleWith dtype name arguments = .ok true) := by
  intro u hu h
  obtain ⟨parsed, hparse, hcases⟩ := compatible_parse h
  refine ⟨parsed, hparse, compatible_name hparse h, ?_⟩
  rintro rfl
  rcases hcases with ⟨step, hwrapped, -⟩ | ⟨-, hwith⟩
  · exact absurd (wrapped_name hwrapped) hname
  · exact hwith

theorem reads_nullable :
    ReadsAs (Compatible dtype) "Nullable".toList (Satisfy [Compatible dtype]) := by
  intro u hu h
  obtain ⟨parsed, hparse, hcases⟩ := compatible_parse h
  refine ⟨parsed, hparse, compatible_name hparse h, ?_⟩
  intro hname
  rcases hcases with ⟨step, hwrapped, hstep⟩ | ⟨-, hwith⟩
  · obtain ⟨name, arguments⟩ := parsed
    obtain rfl : name = "Nullable".toList := hname
    rcases arguments with _ | ⟨argument, _ | ⟨other, more⟩⟩
    · contradiction
    · obtain rfl := Option.some.inj hwrapped
      exact List.Forall₂.cons hstep List.Forall₂.nil
    · contradiction
  · have hmem := compatibleWith_name hwith
    rw [hname] at hmem
    exact absurd (List.mem_cons_self ..) (declaredNames_not_wrapper _ _ hmem)

def fieldChecks : ArrowFields → List (Text → Prop)
  | .nil => []
  | .cons _ _ type rest =>
      (fun argument => Compatible type (tupleArgumentType argument)) :: fieldChecks rest

theorem fieldsCompatible_iff {fields : ArrowFields} {arguments : List Text}
    (hlength : arguments.length = fields.length) :
    fieldsCompatible fields arguments = .ok true ↔
      Satisfy (fieldChecks fields) arguments := by
  induction arguments generalizing fields with
  | nil =>
    cases fields with
    | nil => exact iff_of_true rfl List.Forall₂.nil
    | cons name nullable type rest => simp [ArrowFields.length] at hlength
  | cons argument more ih =>
    cases fields with
    | nil => simp [ArrowFields.length] at hlength
    | cons name nullable type rest =>
      have hmore : more.length = rest.length := by
        simpa [ArrowFields.length] using hlength
      rw [fieldsCompatible_cons, ih hmore]
      unfold Satisfy
      rw [fieldChecks, List.forall₂_cons]
      exact Iff.rfl

end Reading

section Field

theorem afterBackquoted_name {name r : Text} (h : '`' ∉ name) (hr : r.head? ≠ some '`') :
    afterBackquoted (name ++ '`' :: r) = some r := by
  induction name with
  | nil =>
    rw [List.nil_append, afterBackquoted]
    rintro rest rfl
    exact hr rfl
  | cons c name ih =>
    simp only [List.mem_cons, not_or] at h
    rw [List.cons_append, afterBackquoted]
    · exact ih h.2
    · exact fun _ hc => absurd hc.symm h.1
    · exact fun hc => absurd hc.symm h.1

/-- A field that starts with a quoted name: its type is what follows the white space,
and it has no line feed. -/
theorem tupleField_quoted {name after : Text} (hname : isIdentifier name = true)
    (hafter : after.head? ≠ some '`') :
    tupleArgumentType (quoted name ++ after) =
      if (after.head?.map isSpace).getD false = true ∧ after.dropWhile isSpace ≠ [] ∧
          '\n' ∉ after.dropWhile isSpace then after.dropWhile isSpace
      else quoted name ++ after := by
  have hquote : '`' ∉ name := isIdentifier_not_mem hname (by decide)
  have hargument : quoted name ++ after = '`' :: (name ++ '`' :: after) := by
    unfold quoted
    simp
  have hlength : ¬ after.length + 1 = (name ++ '`' :: after).length := by
    have hpos := List.length_pos_iff.mpr (isIdentifier_ne_nil hname)
    simp only [List.length_append, List.length_cons]
    omega
  unfold tupleArgumentType tupleField
  rw [hargument]
  simp only [afterBackquoted_name hquote hafter, if_neg hlength, Option.bind_eq_bind,
    Option.bind_some]
  split
  · rfl
  · rfl

theorem mem_strip {s : Text} {c : Char} (h : c ∈ s) (hc : isSpace c = false) : c ∈ strip s := by
  obtain ⟨before, after, hs, hbefore, hafter⟩ := strip_decompose s
  rw [hs] at h
  rcases List.mem_append.mp h with h | h
  · rcases List.mem_append.mp h with h | h
    · rw [hbefore c h] at hc
      contradiction
    · exact h
  · rw [hafter c h] at hc
    contradiction

theorem not_separated_cons {c : Char} {rest : Text} (hspace : isSpace c = false)
    (hcomma : c ≠ ',') (hclose : c ≠ ')') : ¬ Separated (c :: rest) := by
  intro h
  have hhead : (lstrip (c :: rest)).head? = some c := by
    unfold lstrip
    rw [List.dropWhile_cons_of_neg (by simp [hspace])]
    rfl
  rcases h c hhead with h | h
  · exact hcomma h
  · exact hclose h

theorem solid_declared {name type : Text} (h : Solid type) (hne : type ≠ []) :
    Solid (declared name type) := by
  constructor
  · intro c hc
    have hhead : (declared name type).head? = some '`' := rfl
    rw [hhead] at hc
    rw [← Option.some.inj hc]
    rfl
  · intro c hc
    apply h.last
    rw [← hc]
    unfold declared
    rw [List.getLast?_append_of_ne_nil _ hne]

/-- What is read in the place of a field has its name. -/
theorem field_cases {name type u rest rest' : Text} (hname : isIdentifier name = true)
    (heq : declared name type ++ rest = u ++ rest') (hrest' : Separated rest') :
    ∃ after, u = quoted name ++ after ∧ ' ' :: (type ++ rest) = after ++ rest' := by
  have hstart : quoted name ++ ' ' :: (type ++ rest) = u ++ rest' := by
    rw [← heq]
    simp [declared]
  rcases List.append_eq_append_iff.mp hstart with ⟨after, hu, hafter⟩ | ⟨m, hm, hrest⟩
  · exact ⟨after, hu, hafter⟩
  · cases m with
    | nil =>
      refine ⟨[], ?_, ?_⟩
      · rw [hm, List.append_nil, List.append_nil]
      · rw [List.nil_append, hrest, List.nil_append]
    | cons c m =>
      have hmem : c ∈ quoted name := by
        rw [hm]
        simp
      have hc : isIdentPart c = true ∨ c = '`' := by
        unfold quoted at hmem
        rcases List.mem_cons.mp hmem with hc | hc
        · exact Or.inr hc
        · rcases List.mem_append.mp hc with hc | hc
          · exact Or.inl (isIdentifier_mem hname c hc)
          · exact Or.inr (List.mem_singleton.mp hc)
      rw [hrest, List.cons_append] at hrest'
      exfalso
      rcases hc with hc | rfl
      · refine not_separated_cons (isSpace_of_isIdentPart hc) ?_ ?_ hrest'
        · rintro rfl
          contradiction
        · rintro rfl
          contradiction
      · exact not_separated_cons rfl (by decide) (by decide) hrest'

variable [UnicodeDatabase] {dtype : ArrowType}

/-- No type is compatible with a text that starts with a quoted name. -/
theorem not_compatible_quoted {r : Text} (hu : Solid ('`' :: r)) :
    ¬ Compatible dtype ('`' :: r) := by
  intro h
  obtain ⟨parsed, hparse, -⟩ := compatible_parse h
  have hpart := compatible_name hparse h
  rcases parseType_cases hu hparse with ⟨-, rfl⟩ | ⟨before, x, heq, -, hname, -⟩
  · have hquote := hpart '`' (List.mem_cons_self ..)
    contradiction
  · have hmem : '`' ∈ before := by
      cases before with
      | nil => exact absurd (List.cons.inj heq).1 (by decide)
      | cons c before =>
        rw [(List.cons.inj heq).1]
        exact List.mem_cons_self ..
    have hquote := hpart '`' (by
      rw [hname]
      exact mem_strip hmem rfl)
    contradiction

/-- A field is determined when its type is, and then shows a type on one line. -/
theorem field_unique {name type u rest rest' : Text} (hname : isIdentifier name = true)
    (h : Determined (Compatible dtype) type) (hu : Solid u)
    (hq : Compatible dtype (tupleArgumentType u)) (heq : declared name type ++ rest = u ++ rest')
    (hrest : Separated rest) (hrest' : Separated rest') :
    u = declared name type ∧ Compatible dtype type ∧ '\n' ∉ type := by
  obtain ⟨after, rfl, hafter⟩ := field_cases hname heq hrest'
  have hquoted : ¬ Compatible dtype (quoted name ++ after) := not_compatible_quoted hu
  cases after with
  | nil =>
    rw [tupleField_quoted hname (by simp), if_neg (by simp)] at hq
    exact absurd hq hquoted
  | cons c r =>
    rw [List.cons_append, List.cons.injEq] at hafter
    obtain ⟨rfl, htail⟩ := hafter
    rw [tupleField_quoted hname (by simp)] at hq
    split at hq
    · rename_i hcondition
      cases r with
      | nil =>
        have hlast := hu.last ' ' List.getLast?_concat
        contradiction
      | cons d r =>
        have hd : isSpace d = false := by
          apply h.solid.head d
          have hhead := congrArg List.head? htail
          rw [List.head?_append_of_ne_nil _ h.nonempty] at hhead
          exact hhead
        have hdrop : (' ' :: d :: r).dropWhile isSpace = d :: r := by
          rw [List.dropWhile_cons_of_pos rfl, List.dropWhile_cons_of_neg (by simp [hd])]
        rw [hdrop] at hq hcondition
        have hsolid : Solid (d :: r) := by
          refine ⟨?_, ?_⟩
          · intro c hc
            rw [← Option.some.inj hc]
            exact hd
          · intro c hc
            apply hu.last c
            rw [← hc]
            have happend : quoted name ++ ' ' :: d :: r = (quoted name ++ [' ']) ++ d :: r := by
              simp
            rw [happend, List.getLast?_append_of_ne_nil _ (List.cons_ne_nil d r)]
        have htype := h.unique _ _ _ hsolid hq htail hrest hrest'
        rw [htype] at hq hcondition ⊢
        refine ⟨?_, hq, hcondition.2.2⟩
        simp [declared]
    · exact absurd hq hquoted

theorem determined_field {name type : Text} (hname : isIdentifier name = true)
    (h : Determined (Compatible dtype) type) :
    Determined (fun argument => Compatible dtype (tupleArgumentType argument))
      (declared name type) := by
  refine ⟨solid_declared h.solid h.nonempty, by simp [declared, quoted], ?_⟩
  intro u rest rest' hu hq heq hrest hrest'
  exact (field_unique hname h hu hq heq hrest hrest').1

end Field

end RayClickHouse.Schema
