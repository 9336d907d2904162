import RayClickHouse.Pointwise
import RayClickHouse.TransportParts

/-!
What a transport type can be read as. A rendered type starts with a name, so nothing else
that has a transport type can be read in its place: reading it again either fails or finds
the arguments that were rendered.
-/
namespace RayClickHouse.Schema

open Text TypeText

def Transportable (t : Text) : Prop := ∃ u, transportTypeExpression t = .ok u

section Forms

variable {parsed : ClickHouseType} {value u : Text}

def StartsNamed (u : Text) : Prop :=
  ∃ name tail, u = name ++ tail ∧ isIdentifier name = true ∧
    (tail = [] ∨ ∃ gap rest, tail = gap ++ '(' :: rest ∧ ∀ c ∈ gap, isSpace c = true)

theorem strip_strip (s : Text) : strip (strip s) = strip s := strip_of_solid (solid_strip s)

theorem parseType_strip (h : parseType value = .ok parsed) : parseType (strip value) = .ok parsed := by
  unfold parseType at h ⊢
  rw [strip_strip]
  simp only at h ⊢
  by_cases hnil : strip value = []
  · rw [if_pos hnil] at h
    cases h
  · rw [if_neg hnil] at h ⊢
    cases hsplit : splitOnce "(".toList (strip value) with
    | none =>
      rw [hsplit] at h
      exact h
    | some pieces =>
      rw [hsplit] at h
      simp only at h ⊢
      by_cases hlast : pieces.2.getLast? = some ')'
      · rw [if_pos hlast] at h ⊢
        exact h
      · rw [if_neg hlast] at h
        cases h

theorem supported_identifiers : ∀ name ∈ "Date".toList :: (stringTransportNames ++
    directTransportNames ++ compositeNames), isIdentifier name = true := by
  decide

/-- A text is parsed as the name it starts with. -/
theorem parseType_form (h : parseType value = .ok parsed) (hname : isIdentifier parsed.name = true) :
    (strip value = parsed.name ∧ parsed.arguments = []) ∨ ∃ gap x,
      strip value = parsed.name ++ (gap ++ '(' :: (x ++ [')'])) ∧ (∀ c ∈ gap, isSpace c = true) ∧
      splitTypeArguments x = .ok parsed.arguments := by
  have hsolid := solid_strip value
  obtain ⟨-, hparsed⟩ | ⟨before, x, heq, -, hstrip, hsplit⟩ :=
    parseType_cases hsolid (parseType_strip h)
  · left
    rw [hparsed]
    exact ⟨rfl, rfl⟩
  · right
    have hhead : ∀ c, before.head? = some c → isSpace c = false := by
      rw [heq] at hsolid
      exact solid_before hsolid
    have hpart : ∀ c ∈ strip before, isIdentPart c = true := by
      rw [← hstrip]
      exact isIdentifier_mem hname
    obtain ⟨lead, gap, hbefore, hlead, hgap⟩ := strip_decompose before
    have hnil : lead = [] := by
      cases lead with
      | nil => rfl
      | cons c rest =>
        have hc := hhead c (by rw [hbefore]; rfl)
        rw [hlead c (List.mem_cons_self ..)] at hc
        contradiction
    rw [hnil, List.nil_append, ← hstrip] at hbefore
    refine ⟨gap, x, ?_, hgap, hsplit⟩
    rw [heq, hbefore, List.append_assoc]

theorem startsNamed_parse (h : parseType value = .ok parsed)
    (hname : isIdentifier parsed.name = true) : StartsNamed (strip value) := by
  obtain ⟨hvalue, -⟩ | ⟨gap, x, hvalue, hgap, -⟩ := parseType_form h hname
  · exact ⟨parsed.name, [], by rw [hvalue, List.append_nil], hname, Or.inl rfl⟩
  · exact ⟨parsed.name, _, hvalue, hname, Or.inr ⟨gap, _, rfl, hgap⟩⟩

theorem startsNamed_call {name arguments : Text} (h : isIdentifier name = true) :
    StartsNamed (call name arguments) := by
  refine ⟨name, '(' :: (arguments ++ [')']), ?_, h, Or.inr ⟨[], _, rfl, by simp⟩⟩
  unfold call
  simp

/-- A declaration with a transport type has a name of letters and digits. -/
theorem transport_name (hparse : parseType value = .ok parsed)
    (h : Transportable value) : isIdentifier parsed.name = true := by
  obtain ⟨u, hu⟩ := h
  obtain ⟨parsed', hparse', hcases⟩ := transport_cases hu
  rw [hparse] at hparse'
  obtain rfl := Except.ok.inj hparse'
  apply supported_identifiers
  rw [List.mem_cons, List.mem_append, List.mem_append]
  obtain ⟨hdate, -⟩ | ⟨hstring, -⟩ | ⟨hdirect, -⟩ | ⟨parts, rendered, hparts, -, -⟩ := hcases
  · exact Or.inl hdate
  · exact Or.inr (Or.inl (Or.inl hstring))
  · exact Or.inr (Or.inl (Or.inr hdirect))
  · exact Or.inr (Or.inr (transportParts_name hparts))

/-- A transport type starts with a name, and has no white space around it. -/
theorem transport_startsNamed (h : transportTypeExpression value = .ok u) :
    StartsNamed u ∧ Solid u := by
  obtain ⟨parsed, hparse, hcases⟩ := transport_cases h
  have hname := transport_name hparse ⟨u, h⟩
  have hword : ∀ {name : Text}, isIdentifier name = true → StartsNamed name ∧ Solid name :=
    fun {name} hname => ⟨⟨name, [], (List.append_nil name).symm, hname, Or.inl rfl⟩,
      (Ddl.argument_identifier hname).solid⟩
  obtain ⟨-, rfl⟩ | ⟨-, rfl⟩ | ⟨-, rfl⟩ | ⟨parts, rendered, -, -, rfl⟩ := hcases
  · exact hword (by decide)
  · exact hword (by decide)
  · exact ⟨startsNamed_parse hparse hname, solid_strip value⟩
  · have hargument := Ddl.argument_identifier hname
    exact ⟨startsNamed_call hname, solid_call hargument.solid hargument.nonempty⟩

theorem StartsNamed.head (h : StartsNamed u) : ∃ c rest, u = c :: rest ∧ isIdentPart c = true := by
  obtain ⟨name, tail, rfl, hname, -⟩ := h
  cases name with
  | nil => exact absurd rfl (isIdentifier_ne_nil hname)
  | cons c rest => exact ⟨c, rest ++ tail, rfl, isIdentifier_mem hname c (List.mem_cons_self ..)⟩

/-- A declaration with a transport type starts with a letter, after white space. -/
theorem Transportable.head {c : Char} (h : Transportable value) (hc : value.head? = some c)
    (hspace : isSpace c = false) : isIdentPart c = true := by
  obtain ⟨u, hu⟩ := h
  obtain ⟨parsed, hparse, -⟩ := transport_cases hu
  have hnamed := startsNamed_parse hparse (transport_name hparse ⟨u, hu⟩)
  obtain ⟨d, rest, hd, hpart⟩ := hnamed.head
  obtain ⟨before, after, hvalue, hbefore, -⟩ := strip_decompose value
  have hnil : before = [] := by
    cases before with
    | nil => rfl
    | cons e before =>
      rw [hvalue] at hc
      obtain rfl := Option.some.inj hc
      rw [hbefore _ (List.mem_cons_self ..)] at hspace
      contradiction
  rw [hnil, List.nil_append, hd] at hvalue
  rw [hvalue] at hc
  obtain rfl := Option.some.inj hc
  exact hpart

end Forms

section Lines

variable {parsed : ClickHouseType} {parts : List TransportPart} {value u : Text}

theorem mem_of_mem_strip {s : Text} {c : Char} (h : c ∈ strip s) : c ∈ s :=
  (List.dropWhile_suffix _).subset ((List.rdropWhile_prefix _ _).subset h)

theorem mem_join {separator : Text} {found : List Text} {c : Char}
    (h : c ∈ join separator found) : c ∈ separator ∨ ∃ r ∈ found, c ∈ r := by
  cases found with
  | nil => cases h
  | cons r found =>
    rw [join_cons, List.mem_append, List.mem_flatMap] at h
    obtain h | ⟨r', hr', h⟩ := h
    · exact Or.inr ⟨r, List.mem_cons_self .., h⟩
    · obtain h | h := List.mem_append.mp h
      · exact Or.inl h
      · exact Or.inr ⟨r', List.mem_cons_of_mem _ hr', h⟩

theorem mem_of_mem_argument (h : parseType value = .ok parsed) :
    ∀ a ∈ parsed.arguments, ∀ c ∈ a, c ∈ value := by
  obtain ⟨-, hparsed⟩ | ⟨before, x, heq, -, -, hsplit⟩ :=
    parseType_cases (solid_strip value) (parseType_strip h)
  · rw [hparsed]
    simp
  · obtain ⟨first, others, hx, hfound, -, -⟩ := split_pieces hsplit
    rw [hfound, List.nil_append, ← List.map_cons]
    intro a ha c hc
    obtain ⟨piece, hpiece, rfl⟩ := List.mem_map.mp ha
    apply mem_of_mem_strip
    rw [heq, hx]
    have hmem := mem_of_mem_strip hc
    obtain rfl | hpiece := List.mem_cons.mp hpiece
    · simp [hmem]
    · have hflat : c ∈ others.flatMap (',' :: ·) :=
        List.mem_flatMap.mpr ⟨piece, hpiece, List.mem_cons_of_mem _ hmem⟩
      simp [hflat]

def TransportPart.OneLine : TransportPart → Prop
  | .kept text => '\n' ∉ text
  | .whole type => '\n' ∉ type
  | .element lead type => '\n' ∉ lead ∧ '\n' ∉ type

theorem tuplePart_oneLine {argument : Text} (h : '\n' ∉ argument) :
    (tuplePart argument).OneLine := by
  unfold tuplePart
  cases hfield : tupleField argument with
  | none => exact ⟨by simp, h⟩
  | some field =>
    have htext := FieldText.of_some hfield
    obtain ⟨c, gap, hsplit, -, -⟩ := htext.split
    refine ⟨?_, htext.oneLine⟩
    intro hmem
    obtain hmem | hmem := List.mem_append.mp hmem
    · apply h
      rw [hsplit]
      exact List.mem_append_left _ hmem
    · revert hmem
      decide

theorem transportParts_oneLine (hparse : parseType value = .ok parsed)
    (hparts : transportParts parsed = some parts) (h : '\n' ∉ value) :
    ∀ p ∈ parts, p.OneLine := by
  have harguments : ∀ a ∈ parsed.arguments, '\n' ∉ a := fun a ha hmem =>
    h (mem_of_mem_argument hparse a ha _ hmem)
  intro p hp
  obtain ⟨-, argument, heq, rfl⟩ | ⟨-, key, item, heq, rfl⟩ | ⟨-, -, rfl⟩ |
    ⟨-, function, argument, heq, rfl⟩ := transportParts_cases hparts
  · rw [heq] at harguments
    obtain rfl := List.mem_singleton.mp hp
    exact harguments argument (List.mem_singleton_self _)
  · rw [heq] at harguments
    simp only [List.mem_cons, List.not_mem_nil, or_false] at hp
    obtain rfl | rfl := hp
    · exact harguments key (List.mem_cons_self ..)
    · exact harguments item (List.mem_cons_of_mem _ (List.mem_singleton_self _))
  · obtain ⟨argument, hmem, rfl⟩ := List.mem_map.mp hp
    exact tuplePart_oneLine (harguments argument hmem)
  · rw [heq] at harguments
    simp only [List.mem_cons, List.not_mem_nil, or_false] at hp
    obtain rfl | rfl := hp
    · exact harguments function (List.mem_cons_self ..)
    · exact harguments argument (List.mem_cons_of_mem _ (List.mem_singleton_self _))

/-- The transport type of a declaration on one line stands on one line. -/
theorem transport_oneLine (h : transportTypeExpression value = .ok u) (hline : '\n' ∉ value) :
    '\n' ∉ u := by
  induction hn : value.length using Nat.strong_induction_on generalizing value u with
  | _ n ih =>
    obtain ⟨parsed, hparse, hcases⟩ := transport_cases h
    have hname := transport_name hparse ⟨u, h⟩
    obtain ⟨-, rfl⟩ | ⟨-, rfl⟩ | ⟨-, rfl⟩ | ⟨parts, rendered, hparts, hrendered, rfl⟩ := hcases
    · decide
    · decide
    · exact fun hmem => hline (mem_of_mem_strip hmem)
    · intro hmem
      unfold call at hmem
      rw [List.mem_append, List.mem_append, List.mem_append] at hmem
      obtain ((hmem | hmem) | hmem) | hmem := hmem
      · have hpart := isIdentifier_mem hname _ hmem
        contradiction
      · revert hmem
        decide
      · obtain hmem | ⟨r, hr, hmem⟩ := mem_join hmem
        · revert hmem
          decide
        · obtain ⟨p, hp, hread⟩ := exists_of_mem_forall₂ hrendered hr
          have honeLine := transportParts_oneLine hparse hparts hline p hp
          have hshort := transportParts_shorter hparse hparts p hp
          cases p with
          | kept text =>
            rw [← Except.ok.inj hread] at hmem
            exact honeLine hmem
          | whole type =>
            exact ih type.length (hn ▸ hshort type rfl) hread honeLine rfl hmem
          | element lead type =>
            obtain ⟨inner, hinner, rfl⟩ := Except.map_eq_ok.mp hread
            obtain hmem | hmem := List.mem_append.mp hmem
            · exact honeLine.1 hmem
            · exact ih type.length (hn ▸ hshort type rfl) hinner honeLine.2 rfl hmem
      · revert hmem
        decide

end Lines

end RayClickHouse.Schema
