import RayClickHouse.TransportUnique

/-!
Transport types inside composite types. An element of a tuple is determined like a type,
its name included, so every transport type is determined, whatever its field names do to
the scan.
-/
namespace RayClickHouse.Schema

open Text TypeText

section Elements

variable {parsed : ClickHouseType} {value u : Text}

/-- The type of a field is not read in the place of a declaration. -/
theorem StartsNamed.not_field {name type rest rest' u' : Text} (h : StartsNamed u)
    (hfield : tupleField u' = some (name, type)) (htype : Transportable type)
    (heq : u ++ rest = u' ++ rest') (hrest : Separated rest) : False := by
  obtain ⟨named, ⟨c, gap, hsplit, hc, hgap⟩, hne, hvisible, -⟩ := FieldText.of_some hfield
  obtain ⟨first, tail, rfl, hfirst, htail⟩ := h
  obtain ⟨d, type, rfl⟩ := List.exists_cons_of_ne_nil hne
  have hd : isIdentPart d = true := htype.head rfl (hvisible d rfl)
  have hspace : isSpace d = false := hvisible d rfl
  have hname : isIdentifier name = true := by
    obtain hname | ⟨m, rfl, -, -⟩ := named
    · exact hname
    · obtain ⟨b, s, hb, hpart⟩ := StartsNamed.head ⟨first, tail, rfl, hfirst, htail⟩
      rw [hb, hsplit] at heq
      rw [(List.cons.inj heq).1] at hpart
      exact absurd hpart (by decide)
  have hstop : ∀ b, (c :: (gap ++ d :: type) ++ rest').head? = some b → isIdentPart b = false := by
    intro b hb
    obtain rfl := Option.some.inj hb
    by_contra hpart
    rw [Bool.not_eq_false] at hpart
    rw [Ddl.isSpace_of_isIdentPart hpart] at hc
    contradiction
  have hgaps : ∀ b ∈ c :: gap, isSpace b = true := List.forall_mem_cons.mpr ⟨hc, hgap⟩
  rw [hsplit, List.append_assoc, List.append_assoc] at heq
  obtain rfl | ⟨gap', x, rfl, hgap'⟩ := htail
  · obtain ⟨-, htail⟩ := span_unique heq (isIdentifier_mem hfirst) (isIdentifier_mem hname)
      (separated_head hrest) hstop
    rw [List.nil_append] at htail
    have hhead : (lstrip rest).head? = some d := by
      have hsplit' : rest = (c :: gap) ++ (d :: type ++ rest') := by
        rw [htail]
        simp
      unfold lstrip
      rw [hsplit', List.dropWhile_append_of_pos hgaps, List.cons_append,
        List.dropWhile_cons_of_neg (by simp [hspace])]
      rfl
    obtain rfl | rfl := hrest d hhead
    · exact absurd hd (by decide)
    · exact absurd hd (by decide)
  · rw [List.append_assoc, List.cons_append] at heq
    obtain ⟨-, htail⟩ := span_unique heq (isIdentifier_mem hfirst) (isIdentifier_mem hname)
      (gap_head hgap') hstop
    have hsplit' : gap' ++ '(' :: (x ++ rest) = (c :: gap) ++ (d :: type ++ rest') := by
      rw [htail]
      simp
    obtain ⟨-, hopen⟩ := span_unique hsplit' hgap' hgaps open_head (by
      intro b hb
      rw [← Option.some.inj hb]
      exact hspace)
    rw [← (List.cons.inj hopen).1] at hd
    exact absurd hd (by decide)

/-- An element without a name is determined. -/
theorem determined_plain (h : transportTypeExpression value = .ok u)
    (hu : Determined Transportable u) :
    Determined (fun a => Transportable (tupleArgumentType a)) u := by
  have hstarts := (transport_startsNamed h).1
  refine ⟨hu.solid, hu.nonempty, ?_⟩
  intro u' rest rest' hsolid hq heq hrest hrest'
  unfold tupleArgumentType at hq
  cases hfield : tupleField u' with
  | none =>
    rw [hfield] at hq
    exact hu.unique u' rest rest' hsolid hq heq hrest hrest'
  | some field =>
    rw [hfield] at hq
    exact (hstarts.not_field hfield hq heq hrest).elim

theorem not_transportable_nil : ¬ Transportable [] := by
  rintro ⟨u, hu⟩
  obtain ⟨parsed, hparse, -⟩ := transport_cases hu
  cases hparse

/-- No field is read inside a backquoted name. -/
theorem backquoted_not_field {p m : Text} (h : afterBackquoted (p ++ m) = some [])
    (hq : Transportable (tupleArgumentType ('`' :: p))) : False := by
  unfold tupleArgumentType at hq
  cases hfield : tupleField ('`' :: p) with
  | none =>
    rw [hfield] at hq
    exact absurd (hq.head rfl rfl) (by decide)
  | some field =>
    obtain ⟨named, ⟨c, gap, hsplit, hc, -⟩, -, -, -⟩ := FieldText.of_some hfield
    obtain hname | ⟨b, hb, -, hclosed⟩ := named
    · cases hfirst : field.1 with
      | nil => exact isIdentifier_ne_nil hname hfirst
      | cons d name =>
        rw [hfirst] at hname hsplit
        have hd := isIdentifier_mem hname d (List.mem_cons_self ..)
        rw [← (List.cons.inj hsplit).1] at hd
        exact absurd hd (by decide)
    · rw [hb, List.cons_append, List.cons.injEq] at hsplit
      have hhead : ((c :: (gap ++ field.2)) ++ m).head? ≠ some '`' := by
        intro hhead
        obtain rfl := Option.some.inj hhead
        contradiction
      rw [hsplit.2, List.append_assoc, afterBackquoted_append hclosed hhead] at h
      cases h

/-- A name with a type behind it is no declaration. -/
theorem not_transportable_element {name type : Text} {d : Char} (named : FieldNamed name)
    (hd : isIdentPart d = true) (hsolid : Solid (name ++ ' ' :: d :: type)) :
    ¬ Transportable (name ++ ' ' :: d :: type) := by
  intro h
  have hspace := Ddl.isSpace_of_isIdentPart hd
  obtain hname | ⟨m, rfl, -, -⟩ := named
  · obtain ⟨w, hw⟩ := h
    obtain ⟨parsed, hparse, -⟩ := transport_cases hw
    obtain ⟨first, tail, heq, hfirst, htail⟩ :=
      startsNamed_parse hparse (transport_name hparse ⟨w, hw⟩)
    rw [strip_of_solid hsolid] at heq
    have hstop : ∀ c, (' ' :: d :: type).head? = some c → isIdentPart c = false := by
      intro c hc
      rw [← Option.some.inj hc]
      rfl
    obtain rfl | ⟨gap, x, rfl, hgap⟩ := htail
    · obtain ⟨-, hnil⟩ := span_unique heq (isIdentifier_mem hname) (isIdentifier_mem hfirst) hstop
        (by simp)
      cases hnil
    · obtain ⟨-, hgaps⟩ := span_unique heq (isIdentifier_mem hname) (isIdentifier_mem hfirst) hstop
        (gap_head hgap)
      have hone : ∀ c ∈ [' '], isSpace c = true := by
        intro c hc
        rw [List.mem_singleton.mp hc]
        rfl
      have hvisible : ∀ c, (d :: type).head? = some c → isSpace c = false := by
        intro c hc
        rw [← Option.some.inj hc]
        exact hspace
      obtain ⟨-, hopen⟩ := span_unique (show [' '] ++ d :: type = gap ++ '(' :: x from hgaps) hone
        hgap hvisible open_head
      rw [(List.cons.inj hopen).1] at hd
      exact absurd hd (by decide)
  · exact absurd (h.head rfl rfl) (by decide)

/-- An element behind a name is determined when its type is. -/
theorem determined_element {name : Text} (named : FieldNamed name)
    (h : transportTypeExpression value = .ok u) (hu : Determined Transportable u) :
    Determined (fun a => Transportable (tupleArgumentType a)) (name ++ " ".toList ++ u) := by
  have hstarts := (transport_startsNamed h).1
  have hsplit : ∀ t, name ++ " ".toList ++ t = name ++ ' ' :: t := by simp
  obtain ⟨d, more, hd, hpart⟩ := hstarts.head
  have hspace := Ddl.isSpace_of_isIdentPart hpart
  have hunseparated : ∀ rest, ¬ Separated (' ' :: (u ++ rest)) := by
    intro rest hrest
    rw [hd] at hrest
    have hhead := hrest d (by
      unfold lstrip
      rw [List.dropWhile_cons_of_pos rfl, List.cons_append,
        List.dropWhile_cons_of_neg (by simp [hspace])]
      rfl)
    obtain rfl | rfl := hhead
    · exact absurd hpart (by decide)
    · exact absurd hpart (by decide)
  refine ⟨⟨?_, ?_⟩, by simp [named.nonempty], ?_⟩
  · intro c hc
    rw [hsplit, List.head?_append_of_ne_nil _ named.nonempty] at hc
    obtain hname | ⟨m, rfl, -, -⟩ := named
    · exact (Ddl.argument_identifier hname).solid.head c hc
    · rw [← Option.some.inj hc]
      rfl
  · intro c hc
    rw [List.getLast?_append_of_ne_nil _ hu.nonempty] at hc
    exact hu.solid.last c hc
  · intro u' rest rest' hsolid hq heq hrest hrest'
    rw [hsplit, List.append_assoc, List.cons_append] at heq
    obtain ⟨after, rfl, hafter⟩ | ⟨m, hm, hrest_eq⟩ := List.append_eq_append_iff.mp heq
    · cases after with
      | nil =>
        rw [List.nil_append] at hafter
        rw [← hafter] at hrest'
        exact absurd hrest' (hunseparated rest)
      | cons c type =>
        rw [List.cons_append, List.cons.injEq] at hafter
        obtain ⟨rfl, htail⟩ := hafter
        cases type with
        | nil =>
          have hlast := hsolid.last ' ' List.getLast?_concat
          contradiction
        | cons e type =>
          rw [hd, List.cons_append, List.cons_append] at htail
          obtain rfl := (List.cons.inj htail).1
          have hvisible : ∀ c, (d :: type).head? = some c → isSpace c = false := by
            intro c hc
            rw [← Option.some.inj hc]
            exact hspace
          have hread := tupleField_element named (List.cons_ne_nil d type) hvisible
          rw [hsplit] at hread ⊢
          unfold tupleArgumentType at hq
          rw [hread] at hq
          by_cases hline : '\n' ∈ d :: type
          · rw [if_neg (not_not.mpr hline)] at hq
            exact absurd hq (not_transportable_element named hpart hsolid)
          · rw [if_pos hline] at hq
            have htype : Solid (d :: type) := by
              refine ⟨hvisible, ?_⟩
              intro c hc
              apply hsolid.last c
              rw [← hc, List.append_cons, List.getLast?_append_of_ne_nil _ (List.cons_ne_nil d type)]
            have heq' : u ++ rest = (d :: type) ++ rest' := by
              rw [hd]
              exact htail
            rw [hu.unique _ rest rest' htype hq heq' hrest hrest']
    · cases m with
      | nil =>
        rw [hrest_eq, List.nil_append] at hrest'
        exact absurd hrest' (hunseparated rest)
      | cons c m =>
        obtain hname | ⟨b, hb, -, hclosed⟩ := named
        · have hc : isIdentPart c = true := by
            apply isIdentifier_mem hname
            rw [hm]
            simp
          have hstop := separated_head hrest' c (by rw [hrest_eq]; rfl)
          rw [hc] at hstop
          contradiction
        · cases u' with
          | nil => exact absurd hq not_transportable_nil
          | cons e p =>
            rw [hb, List.cons_append, List.cons.injEq] at hm
            obtain ⟨rfl, rfl⟩ := hm
            exact (backquoted_not_field hclosed hq).elim

end Elements

section Composites

variable {parsed : ClickHouseType} {parts : List TransportPart} {value u : Text}
  {rendered : List Text}

theorem tuplePart_determined {argument r : Text}
    (h : (tuplePart argument).renderWith transportTypeExpression = .ok r)
    (hinner : ∀ type, (tuplePart argument).type? = some type → ∀ w,
      transportTypeExpression type = .ok w → Determined Transportable w) :
    Determined (fun a => Transportable (tupleArgumentType a)) r := by
  unfold tuplePart at h hinner
  cases hfield : tupleField argument with
  | none =>
    rw [hfield] at h hinner
    obtain ⟨inner, hinner', rfl⟩ := Except.map_eq_ok.mp h
    exact determined_plain hinner' (hinner argument rfl inner hinner')
  | some field =>
    rw [hfield] at h hinner
    obtain ⟨inner, hinner', rfl⟩ := Except.map_eq_ok.mp h
    exact determined_element (FieldText.of_some hfield).named hinner'
      (hinner field.2 rfl inner hinner')

/-- The rendered arguments are determined when the types in them are. -/
theorem composite_determined (hparse : parseType value = .ok parsed)
    (hparts : transportParts parsed = some parts) (h : RenderedAs parts rendered)
    (hinner : ∀ p ∈ parts, ∀ type, p.type? = some type → ∀ w,
      transportTypeExpression type = .ok w → Determined Transportable w) :
    Each (fun i => Determined (checkAt parsed.name i)) rendered := by
  have hchecks := composite_checks hparse hparts h
  unfold RenderedAs at h
  obtain ⟨hname, argument, heq, rfl⟩ | ⟨hname, key, item, heq, rfl⟩ | ⟨hname, -, rfl⟩ |
    ⟨hname, function, argument, heq, rfl⟩ := transportParts_cases hparts
  · obtain ⟨r, more, hr, hmore, rfl⟩ := List.forall₂_cons_left_iff.mp h
    obtain rfl := List.forall₂_nil_left_iff.mp hmore
    obtain ⟨htuple, haggregate⟩ := wrapper_not_tuple _ hname
    apply each_one
    rw [checkAt_whole htuple fun h => haggregate h.1]
    exact hinner _ (List.mem_singleton_self _) argument rfl r hr
  · obtain ⟨k, more, hk, hmore, rfl⟩ := List.forall₂_cons_left_iff.mp h
    obtain ⟨r, last, hr, hlast, rfl⟩ := List.forall₂_cons_left_iff.mp hmore
    obtain rfl := List.forall₂_nil_left_iff.mp hlast
    rw [hname]
    apply each_two
    · rw [checkAt_whole (by decide) (by decide)]
      exact hinner _ (List.mem_cons_self ..) key rfl k hk
    · rw [checkAt_whole (by decide) (by decide)]
      exact hinner _ (List.mem_cons_of_mem _ (List.mem_singleton_self _)) item rfl r hr
  · rw [hname]
    intro i r hr
    rw [checkAt_tuple]
    rw [List.forall₂_map_left_iff] at h
    obtain ⟨argument, hmem, hread⟩ := exists_of_mem_forall₂ h (List.mem_of_getElem? hr)
    exact tuplePart_determined hread (hinner _ (List.mem_map_of_mem hmem))
  · obtain ⟨f, more, hf, hmore, rfl⟩ := List.forall₂_cons_left_iff.mp h
    obtain ⟨r, last, hr, hlast, rfl⟩ := List.forall₂_cons_left_iff.mp hmore
    obtain rfl := List.forall₂_nil_left_iff.mp hlast
    obtain rfl := Except.ok.inj hf
    rw [heq, hname] at hchecks
    have hkept := hchecks.head
    rw [checkAt_kept] at hkept
    rw [hname]
    apply each_two
    · rw [checkAt_kept]
      exact hkept.determined
    · rw [checkAt_whole (by decide) (by decide)]
      exact hinner _ (List.mem_cons_of_mem _ (List.mem_singleton_self _)) argument rfl r hr

theorem rendered_nonempty (hparts : transportParts parsed = some parts)
    (h : RenderedAs parts rendered) : rendered ≠ [] := by
  rintro rfl
  obtain rfl := List.forall₂_nil_right_iff.mp h
  obtain ⟨-, argument, -, hnil⟩ | ⟨-, key, item, -, hnil⟩ | ⟨-, hne, hnil⟩ |
    ⟨-, function, argument, -, hnil⟩ := transportParts_cases hparts
  · cases hnil
  · cases hnil
  · exact hne (List.map_eq_nil_iff.mp hnil.symm)
  · cases hnil

/-- Nothing else that has a transport type can be read in the place of a transport type. -/
theorem transport_determined (h : transportTypeExpression value = .ok u) :
    Determined Transportable u := by
  induction hn : value.length using Nat.strong_induction_on generalizing value u with
  | _ n ih =>
    obtain ⟨parsed, hparse, hcases⟩ := transport_cases h
    have hname := transport_name hparse ⟨u, h⟩
    obtain ⟨-, rfl⟩ | ⟨-, rfl⟩ | ⟨-, rfl⟩ | ⟨parts, rendered, hparts, hrendered, rfl⟩ := hcases
    · exact Determined.name (by decide) (reads_name _)
    · exact Determined.name (by decide) (reads_name _)
    · exact determined_kept hparse hname
    · apply Determined.listed hname ?_ (rendered_nonempty hparts hrendered)
        (reads_composite (transportParts_name hparts))
      apply composite_determined hparse hparts hrendered
      intro p hp type htype w hw
      exact ih type.length (hn ▸ transportParts_shorter hparse hparts p hp type htype) hw rfl

end Composites

end RayClickHouse.Schema
