import RayClickHouse.TransportOutline

/-!
Reading a transport type again. When every tuple element is one argument, a transport type
is its own transport type; when a transport type has a transport type at all, every tuple
element is one argument.
-/
namespace RayClickHouse.Schema

open Text TypeText

variable {parsed : ClickHouseType} {parts : List TransportPart} {value u : Text}
  {rendered : List Text} {fuel : ℕ}

section Composites

theorem elementsWithin_cases {e : Text} (hparse : parseType value = .ok parsed)
    (he : e ∈ elementsWithin (fuel + 1) value) :
    ∃ parts p, transportParts parsed = some parts ∧ p ∈ parts ∧
      ((∃ type, p.type? = some type ∧ e ∈ elementsWithin fuel type) ∨
        ∃ lead type, p = .element lead type ∧ e = lead ++ outlineWithin fuel type) := by
  rw [elementsWithin, hparse] at he
  cases hparts : transportParts parsed with
  | none =>
    simp only [hparts, Option.getD_none] at he
    cases he
  | some parts =>
    simp only [hparts, Option.getD_some] at he
    obtain ⟨p, hp, he⟩ := List.mem_flatMap.mp he
    refine ⟨parts, p, rfl, hp, ?_⟩
    cases p with
    | kept text => cases he
    | whole type => exact Or.inl ⟨type, rfl, he⟩
    | element lead type =>
      obtain rfl | he := List.mem_cons.mp he
      · exact Or.inr ⟨lead, type, rfl, rfl⟩
      · exact Or.inl ⟨type, rfl, he⟩

theorem composite_cases (hparse : parseType value = .ok parsed)
    (hparts : transportParts parsed = some parts) (h : transportTypeExpression value = .ok u) :
    ∃ rendered, RenderedAs parts rendered ∧ u = call parsed.name (join ", ".toList rendered) := by
  obtain ⟨hdate, hstring, hdirect⟩ :=
    compositeNames_not_scalar parsed.name (transportParts_name hparts)
  obtain ⟨parsed', hparse', hcases⟩ := transport_cases h
  rw [hparse] at hparse'
  obtain rfl := Except.ok.inj hparse'
  obtain ⟨h, -⟩ | ⟨h, -⟩ | ⟨h, -⟩ | ⟨parts', rendered, hparts', hrendered, hu⟩ := hcases
  · exact absurd h hdate
  · exact absurd h hstring
  · exact absurd h hdirect
  · rw [hparts] at hparts'
    obtain rfl := Option.some.inj hparts'
    exact ⟨rendered, hrendered, hu⟩

theorem rendered_of_mem {p : TransportPart} (h : RenderedAs parts rendered) (hp : p ∈ parts) :
    ∃ r ∈ rendered, p.renderWith transportTypeExpression = .ok r := exists_of_mem_forall₂ h.flip hp

theorem element_of_parts {lead type : Text} (hparts : transportParts parsed = some parts)
    (hp : TransportPart.element lead type ∈ parts) :
    ∃ argument ∈ parsed.arguments, tuplePart argument = .element lead type := by
  obtain ⟨-, argument, -, rfl⟩ | ⟨-, key, item, -, rfl⟩ | ⟨-, -, rfl⟩ |
    ⟨-, function, argument, -, rfl⟩ := transportParts_cases hparts
  · simp at hp
  · simp at hp
  · exact List.mem_map.mp hp
  · simp at hp

/-- The types in rendered arguments have transport types when the arguments are read. -/
theorem composite_inner (hparse : parseType value = .ok parsed)
    (hparts : transportParts parsed = some parts) (h : RenderedAs parts rendered)
    (hchecks : Each (checkAt parsed.name) rendered) :
    ∀ p ∈ parts, ∀ type, p.type? = some type →
      ∃ w, transportTypeExpression type = .ok w ∧ Transportable w := by
  intro p hp type htype
  have hrendered := h
  unfold RenderedAs at h
  obtain ⟨hname, argument, heq, rfl⟩ | ⟨hname, key, item, heq, rfl⟩ | ⟨hname, -, rfl⟩ |
    ⟨hname, function, argument, heq, rfl⟩ := transportParts_cases hparts
  · obtain ⟨r, more, hr, hmore, rfl⟩ := List.forall₂_cons_left_iff.mp h
    obtain ⟨htuple, haggregate⟩ := wrapper_not_tuple _ hname
    have hcheck := hchecks.head
    rw [checkAt_whole htuple fun h => haggregate h.1] at hcheck
    obtain rfl := List.mem_singleton.mp hp
    obtain rfl := Option.some.inj htype
    exact ⟨r, hr, hcheck⟩
  · obtain ⟨k, more, hk, hmore, rfl⟩ := List.forall₂_cons_left_iff.mp h
    obtain ⟨r, last, hr, hlast, rfl⟩ := List.forall₂_cons_left_iff.mp hmore
    rw [hname] at hchecks
    have hkey := hchecks.head
    have hitem := hchecks.tail.head
    rw [checkAt_whole (by decide) (by decide)] at hkey hitem
    simp only [List.mem_cons, List.not_mem_nil, or_false] at hp
    obtain rfl | rfl := hp
    · obtain rfl := Option.some.inj htype
      exact ⟨k, hk, hkey⟩
    · obtain rfl := Option.some.inj htype
      exact ⟨r, hr, hitem⟩
  · obtain ⟨r, hr, hread⟩ := rendered_of_mem hrendered hp
    obtain ⟨argument, hmem, rfl⟩ := List.mem_map.mp hp
    obtain ⟨i, hi⟩ := List.getElem?_of_mem hr
    have hcheck := hchecks i r hi
    rw [hname, checkAt_tuple] at hcheck
    obtain ⟨lead, type', inner, hpart, -, hinner, -, -, hagain, -⟩ :=
      tuplePart_again (argument_bounds hparse argument hmem).2 hread
    rw [hpart] at htype
    obtain rfl := Option.some.inj htype
    rw [hagain] at hcheck
    exact ⟨inner, hinner, hcheck⟩
  · obtain ⟨f, more, hf, hmore, rfl⟩ := List.forall₂_cons_left_iff.mp h
    obtain ⟨r, last, hr, hlast, rfl⟩ := List.forall₂_cons_left_iff.mp hmore
    rw [hname] at hchecks
    have hcheck := hchecks.tail.head
    rw [checkAt_whole (by decide) (by decide)] at hcheck
    simp only [List.mem_cons, List.not_mem_nil, or_false] at hp
    obtain rfl | rfl := hp
    · cases htype
    · obtain rfl := Option.some.inj htype
      exact ⟨r, hr, hcheck⟩

/-- A transport type that can be read again shows balanced tuple elements. -/
theorem elements_of_transportable (hfuel : value.length < fuel)
    (h : transportTypeExpression value = .ok u) (hu : Transportable u) :
    ∀ e ∈ elementsWithin fuel value, Argument e := by
  induction fuel generalizing value u with
  | zero => omega
  | succ fuel ih =>
    intro e he
    obtain ⟨parsed, hparse, -⟩ := transport_cases h
    have hname := transport_name hparse ⟨u, h⟩
    obtain ⟨parts, p, hparts, hp, hcases⟩ := elementsWithin_cases hparse he
    obtain ⟨rendered, hrendered, rfl⟩ := composite_cases hparse hparts h
    have hshort := transportParts_shorter hparse hparts p hp
    obtain ⟨hsplit, hchecks⟩ := listed_arguments hname
      (composite_determined hparse hparts hrendered fun _ _ _ _ _ hw => transport_determined hw)
      (rendered_nonempty hparts hrendered) (reads_composite (transportParts_name hparts)) hu
    obtain ⟨type, htype, he⟩ | ⟨lead, type, rfl, rfl⟩ := hcases
    · obtain ⟨w, hw, hagain⟩ := composite_inner hparse hparts hrendered hchecks p hp type htype
      have hlength := hshort type htype
      exact ih (by omega) hw hagain e he
    · obtain ⟨r, hr, hread⟩ := rendered_of_mem hrendered hp
      obtain ⟨argument, hmem, hpart⟩ := element_of_parts hparts hp
      rw [← hpart] at hread
      obtain ⟨lead', type', inner, hpart', -, hinner, rfl, -, -, hlead⟩ :=
        tuplePart_again (argument_bounds hparse argument hmem).2 hread
      obtain ⟨rfl, rfl⟩ := TransportPart.element.inj (hpart.symm.trans hpart')
      have hlength := hshort type rfl
      have hinside : type.length < fuel := by omega
      obtain ⟨hscan, hsolid, hne⟩ := outline_scan hinside hinner
      exact argument_congr hlead hscan hsolid hne (split_arguments hsplit _ hr)

theorem kept_of_parts {text : Text} (hparts : transportParts parsed = some parts)
    (hp : TransportPart.kept text ∈ parts) : text ∈ parsed.arguments := by
  obtain ⟨-, argument, -, rfl⟩ | ⟨-, key, item, -, rfl⟩ | ⟨-, -, rfl⟩ |
    ⟨-, function, argument, heq, rfl⟩ := transportParts_cases hparts
  · simp at hp
  · simp at hp
  · obtain ⟨argument, -, hargument⟩ := List.mem_map.mp hp
    unfold tuplePart at hargument
    cases hfield : tupleField argument with
    | none =>
      rw [hfield] at hargument
      cases hargument
    | some field =>
      rw [hfield] at hargument
      cases hargument
  · rw [heq]
    simp only [List.mem_cons, TransportPart.kept.injEq, List.not_mem_nil, or_false,
      reduceCtorEq] at hp
    rw [hp]
    exact List.mem_cons_self ..

theorem SameScan.symm {s t : Text} (h : SameScan s t) : SameScan t s :=
  fun mode depth => (h mode depth).symm

/-- With balanced tuple elements a transport type is one argument. -/
theorem transport_argument (hfuel : value.length < fuel)
    (h : transportTypeExpression value = .ok u)
    (hbalanced : ∀ e ∈ elementsWithin fuel value, Argument e) :
    Argument u ∧ ∀ parsed parts rendered, parseType value = .ok parsed →
      transportParts parsed = some parts → RenderedAs parts rendered →
      ∀ r ∈ rendered, Argument r := by
  induction fuel generalizing value u with
  | zero => omega
  | succ fuel ih =>
    have hrendered : ∀ parsed parts rendered, parseType value = .ok parsed →
        transportParts parsed = some parts → RenderedAs parts rendered →
        ∀ r ∈ rendered, Argument r := by
      intro parsed parts rendered hparse hparts hall r hr
      have hname := transport_name hparse ⟨_, transport_composite hparse hparts hall⟩
      obtain ⟨p, hp, hread⟩ := exists_of_mem_forall₂ hall hr
      have hshort := transportParts_shorter hparse hparts p hp
      obtain ⟨hinner, helement⟩ := elementsWithin_composite hparse hparts hp
      cases p with
      | kept text =>
        obtain rfl := Except.ok.inj hread
        exact parse_arguments hparse hname text (kept_of_parts hparts hp)
      | whole type =>
        have hlength := hshort type rfl
        exact (ih (by omega) hread fun e he => hbalanced e (hinner type rfl e he)).1
      | element lead type =>
        obtain ⟨argument, hmem, hpart⟩ := element_of_parts hparts hp
        rw [← hpart] at hread
        obtain ⟨lead', type', inner, hpart', -, htransport, rfl, -, -, hlead⟩ :=
          tuplePart_again (argument_bounds hparse argument hmem).2 hread
        obtain ⟨rfl, rfl⟩ := TransportPart.element.inj (hpart.symm.trans hpart')
        have hlength := hshort type rfl
        have hinside : type.length < fuel := by omega
        exact argument_congr hlead (outline_scan hinside htransport).1.symm
          (transport_startsNamed htransport).2 (transport_determined htransport).nonempty
          (hbalanced _ (helement lead type rfl))
    refine ⟨?_, hrendered⟩
    obtain ⟨parsed, hparse, hcases⟩ := transport_cases h
    have hname := transport_name hparse ⟨u, h⟩
    obtain ⟨-, rfl⟩ | ⟨-, rfl⟩ | ⟨-, rfl⟩ | ⟨parts, rendered, hparts, hall, rfl⟩ := hcases
    · exact Ddl.argument_identifier (by decide)
    · exact Ddl.argument_identifier (by decide)
    · exact argument_kept hparse hname
    · exact Ddl.argument_call hname (hrendered parsed parts rendered hparse hparts hall)

end Composites

end RayClickHouse.Schema
