import RayClickHouse.TransportReading

/-!
Nothing but a transport type can be read in its place. The arguments of a composite type are
determined by its name: kept text is an argument, a type or the type of a tuple element has
a transport type.
-/
namespace RayClickHouse.Schema

open Text TypeText

section Checks

variable {parsed : ClickHouseType} {parts : List TransportPart} {value u : Text}
  {rendered : List Text}

def checkAt (name : Text) (i : ℕ) (a : Text) : Prop :=
  if name = "Tuple".toList then Transportable (tupleArgumentType a)
  else if name = "SimpleAggregateFunction".toList ∧ i = 0 then Argument a
  else Transportable a

theorem checkAt_tuple (i : ℕ) :
    checkAt "Tuple".toList i = fun a => Transportable (tupleArgumentType a) := by
  funext a
  exact if_pos rfl

theorem checkAt_kept : checkAt "SimpleAggregateFunction".toList 0 = Argument := by
  funext a
  unfold checkAt
  rw [if_neg (by decide), if_pos ⟨rfl, rfl⟩]

theorem checkAt_whole {name : Text} {i : ℕ} (htuple : name ≠ "Tuple".toList)
    (haggregate : ¬(name = "SimpleAggregateFunction".toList ∧ i = 0)) :
    checkAt name i = Transportable := by
  funext a
  unfold checkAt
  rw [if_neg htuple, if_neg haggregate]

theorem tuplePart_transportable {argument r : Text}
    (h : (tuplePart argument).renderWith transportTypeExpression = .ok r) :
    Transportable (tupleArgumentType argument) := by
  unfold tuplePart at h
  unfold tupleArgumentType
  cases hfield : tupleField argument with
  | none =>
    rw [hfield] at h
    obtain ⟨inner, hinner, -⟩ := Except.map_eq_ok.mp h
    exact ⟨inner, hinner⟩
  | some field =>
    rw [hfield] at h
    obtain ⟨inner, hinner, -⟩ := Except.map_eq_ok.mp h
    exact ⟨inner, hinner⟩

theorem each_one {r : ℕ → Text → Prop} {a : Text} (h : r 0 a) : Each r [a] := by
  intro i b hb
  cases i with
  | zero =>
    obtain rfl := Option.some.inj hb
    exact h
  | succ i => cases hb

theorem each_two {r : ℕ → Text → Prop} {a b : Text} (ha : r 0 a) (hb : r 1 b) : Each r [a, b] := by
  intro i c hc
  cases i with
  | zero =>
    obtain rfl := Option.some.inj hc
    exact ha
  | succ i =>
    cases i with
    | zero =>
      obtain rfl := Option.some.inj hc
      exact hb
    | succ i => cases hc

theorem wrapper_not_tuple : ∀ name ∈ ["Nullable", "LowCardinality", "Array"].map String.toList,
    name ≠ "Tuple".toList ∧ name ≠ "SimpleAggregateFunction".toList := by
  decide

theorem parse_arguments (hparse : parseType value = .ok parsed)
    (hname : isIdentifier parsed.name = true) : ∀ a ∈ parsed.arguments, Argument a := by
  obtain ⟨-, hnil⟩ | ⟨gap, x, -, -, hsplit⟩ := parseType_form hparse hname
  · rw [hnil]
    simp
  · exact split_arguments hsplit

/-- A type that is kept as it stands is one argument. -/
theorem argument_kept (hparse : parseType value = .ok parsed)
    (hname : isIdentifier parsed.name = true) : Argument (strip value) := by
  have hidentifier := Ddl.argument_identifier hname
  obtain ⟨hvalue, -⟩ | ⟨gap, x, hvalue, hgap, hsplit⟩ := parseType_form hparse hname
  · rwa [hvalue]
  · have hspaces : Transparent 0 gap := by
      apply Transparent.inert
      rw [List.all_eq_true]
      intro c hc
      have hidle := idle_of_isSpace (hgap c hc)
      rw [idle, Bool.and_eq_true] at hidle
      exact hidle.1
    have hparens : Transparent 0 ("(".toList ++ x ++ ")".toList) := (transparent_of_split hsplit).parens
    refine ⟨?_, solid_strip value, ?_⟩
    · rw [hvalue]
      have hall := hidentifier.transparent.append (hspaces.append hparens)
      simpa using hall
    · rw [hvalue]
      exact List.append_ne_nil_of_left_ne_nil (isIdentifier_ne_nil hname) _

/-- The arguments of a composite type that is rendered. -/
theorem composite_checks (hparse : parseType value = .ok parsed)
    (hparts : transportParts parsed = some parts) (h : RenderedAs parts rendered) :
    Each (checkAt parsed.name) parsed.arguments := by
  have harguments := parse_arguments hparse
    (transport_name hparse ⟨_, transport_composite hparse hparts h⟩)
  unfold RenderedAs at h
  obtain ⟨hname, argument, heq, rfl⟩ | ⟨hname, key, item, heq, rfl⟩ | ⟨hname, -, rfl⟩ |
    ⟨hname, function, argument, heq, rfl⟩ := transportParts_cases hparts
  · obtain ⟨r, -, hr, -, -⟩ := List.forall₂_cons_left_iff.mp h
    obtain ⟨htuple, haggregate⟩ := wrapper_not_tuple _ hname
    rw [heq]
    apply each_one
    rw [checkAt_whole htuple fun h => haggregate h.1]
    exact ⟨r, hr⟩
  · obtain ⟨k, more, hk, hmore, -⟩ := List.forall₂_cons_left_iff.mp h
    obtain ⟨r, -, hr, -, -⟩ := List.forall₂_cons_left_iff.mp hmore
    rw [heq, hname]
    apply each_two
    · rw [checkAt_whole (by decide) (by decide)]
      exact ⟨k, hk⟩
    · rw [checkAt_whole (by decide) (by decide)]
      exact ⟨r, hr⟩
  · rw [hname]
    intro i a ha
    rw [checkAt_tuple]
    rw [List.forall₂_map_left_iff] at h
    obtain ⟨r, -, hr⟩ := exists_of_mem_forall₂ h.flip (List.mem_of_getElem? ha)
    exact tuplePart_transportable hr
  · obtain ⟨f, more, hf, hmore, -⟩ := List.forall₂_cons_left_iff.mp h
    obtain ⟨r, -, hr, -, -⟩ := List.forall₂_cons_left_iff.mp hmore
    rw [heq] at harguments ⊢
    rw [hname]
    apply each_two
    · rw [checkAt_kept]
      exact harguments function (List.mem_cons_self ..)
    · rw [checkAt_whole (by decide) (by decide)]
      exact ⟨r, hr⟩

/-- A declaration with a transport type is read as a name. -/
theorem reads_name (name : Text) : ReadsAs Transportable name fun _ => True := by
  intro u _ hu
  obtain ⟨w, hw⟩ := hu
  obtain ⟨parsed, hparse, -⟩ := transport_cases hw
  exact ⟨parsed, hparse, isIdentifier_mem (transport_name hparse ⟨w, hw⟩), fun _ => trivial⟩

/-- A composite declaration with a transport type has the arguments of one. -/
theorem reads_composite {name : Text} (hname : name ∈ compositeNames) :
    ReadsAs Transportable name (Each (checkAt name)) := by
  obtain ⟨hdate, hstring, hdirect⟩ := compositeNames_not_scalar name hname
  intro u _ hu
  obtain ⟨w, hw⟩ := hu
  obtain ⟨parsed, hparse, hcases⟩ := transport_cases hw
  refine ⟨parsed, hparse, isIdentifier_mem (transport_name hparse ⟨w, hw⟩), ?_⟩
  rintro rfl
  obtain ⟨h, -⟩ | ⟨h, -⟩ | ⟨h, -⟩ | ⟨parts, rendered, hparts, hrendered, -⟩ := hcases
  · exact absurd h hdate
  · exact absurd h hstring
  · exact absurd h hdirect
  · exact composite_checks hparse hparts hrendered

end Checks

section Determined

variable {parsed : ClickHouseType} {value u : Text}

theorem gap_head {gap rest : Text} (h : ∀ c ∈ gap, isSpace c = true) :
    ∀ c, (gap ++ '(' :: rest).head? = some c → isIdentPart c = false := by
  intro c hc
  by_contra hpart
  rw [Bool.not_eq_false] at hpart
  cases gap with
  | nil =>
    rw [← Option.some.inj hc] at hpart
    exact absurd hpart (by decide)
  | cons d gap =>
    obtain rfl := Option.some.inj hc
    have hspace := Ddl.isSpace_of_isIdentPart hpart
    rw [h _ (List.mem_cons_self ..)] at hspace
    contradiction

theorem open_head {rest : Text} : ∀ c, ('(' :: rest).head? = some c → isSpace c = false := by
  intro c hc
  rw [← Option.some.inj hc]
  rfl

theorem named_append (name gap x rest : Text) :
    name ++ (gap ++ '(' :: (x ++ [')'])) ++ rest = name ++ (gap ++ '(' :: (x ++ ')' :: rest)) := by
  simp

/-- A scalar that is kept as it stands is determined. -/
theorem determined_kept (hparse : parseType value = .ok parsed)
    (hname : isIdentifier parsed.name = true) : Determined Transportable (strip value) := by
  obtain ⟨hvalue, -⟩ | ⟨gap, x, hvalue, hgap, hsplit⟩ := parseType_form hparse hname
  · rw [hvalue]
    exact Determined.name hname (reads_name parsed.name)
  · refine ⟨solid_strip value, ?_, ?_⟩
    · rw [hvalue]
      exact List.append_ne_nil_of_left_ne_nil (isIdentifier_ne_nil hname) _
    · intro u rest rest' hu hq heq hrest hrest'
      obtain ⟨w, hw⟩ := hq
      obtain ⟨parsed', hparse', -⟩ := transport_cases hw
      have hname' := transport_name hparse' ⟨w, hw⟩
      have hform := parseType_form hparse' hname'
      rw [strip_of_solid hu] at hform
      rw [hvalue, named_append] at heq
      obtain ⟨hplain, -⟩ | ⟨gap', x', hcall, hgap', hsplit'⟩ := hform
      · rw [hplain] at heq
        obtain ⟨-, hopen⟩ := span_unique heq (isIdentifier_mem hname) (isIdentifier_mem hname')
          (gap_head hgap) (separated_head hrest')
        rw [← hopen] at hrest'
        exact absurd hrest' (not_separated_open hgap)
      · rw [hcall, named_append] at heq
        obtain ⟨hsame, hopen⟩ := span_unique heq (isIdentifier_mem hname)
          (isIdentifier_mem hname') (gap_head hgap) (gap_head hgap')
        obtain ⟨hspaces, harguments⟩ := span_unique hopen hgap hgap' open_head open_head
        have hx := split_unique hsplit hsplit' (List.cons.inj harguments).2
        rw [hcall, hvalue, hsame, hspaces, hx]

end Determined

end RayClickHouse.Schema
