import RayClickHouse.TransportElements

/-!
When a transport type can be read again. The splitter must find every element of a tuple
as one argument, also where the parameters of a replaced scalar are gone; a field name
whose backquotes the splitter reads differently from the field pattern may need them.
-/
namespace RayClickHouse.Schema

open Text TypeText

def TransportPart.withType (outline : Text → Text) : TransportPart → Text
  | .kept text => text
  | .whole type => outline type
  | .element lead type => lead ++ outline type

/-- The declaration without the parameters of the scalars that the projection replaces. -/
def outlineWithin : ℕ → Text → Text
  | 0, value => value
  | fuel + 1, value =>
      match parseType value with
      | .error _ => value
      | .ok parsed =>
          if parsed.name = "Date".toList ∨ parsed.name ∈ stringTransportNames then parsed.name
          else (transportParts parsed).elim (strip value) fun parts =>
            call parsed.name
              (join ", ".toList (parts.map (TransportPart.withType (outlineWithin fuel))))

def elementsWithin : ℕ → Text → List Text
  | 0, _ => []
  | fuel + 1, value =>
      match parseType value with
      | .error _ => []
      | .ok parsed => ((transportParts parsed).getD []).flatMap fun
          | .kept _ => []
          | .whole type => elementsWithin fuel type
          | .element lead type => (lead ++ outlineWithin fuel type) :: elementsWithin fuel type

/-- Every tuple element is one argument for the splitter, its field name included, also
without the parameters of the scalars that the projection replaces. -/
def ElementsBalanced (value : Text) : Prop :=
  ∀ e ∈ elementsWithin (value.length + 1) value, splitTypeArguments e = .ok [e]

section Scans

def SameScan (s t : Text) : Prop := ∀ mode depth, scanText mode depth s = scanText mode depth t

variable {s t s' t' : Text}

theorem SameScan.append (h : SameScan s t) (h' : SameScan s' t') : SameScan (s ++ s') (t ++ t') := by
  intro mode depth
  rw [scanText_append, scanText_append, h mode depth]
  cases scanText mode depth t with
  | none => rfl
  | some r => exact h' r.1 r.2

theorem SameScan.refl (s : Text) : SameScan s s := fun _ _ => rfl

theorem SameScan.join {ss ts : List Text} (h : List.Forall₂ SameScan ss ts) :
    SameScan (join ", ".toList ss) (join ", ".toList ts) := by
  cases h with
  | nil => exact SameScan.refl _
  | @cons s t ss ts hfirst hrest =>
    rw [join_cons, join_cons]
    refine hfirst.append ?_
    clear hfirst
    induction hrest with
    | nil => exact SameScan.refl _
    | cons hnext _ ih =>
      rw [List.flatMap_cons, List.flatMap_cons]
      exact ((SameScan.refl _).append hnext).append ih

theorem sameScan_identifiers (hs : isIdentifier s = true) (ht : isIdentifier t = true) :
    SameScan s t := by
  have hidle : ∀ {s : Text}, isIdentifier s = true → ∀ c ∈ s, idle c = true :=
    fun hs c hc => idle_of_isIdentPart (isIdentifier_mem hs c hc)
  intro mode depth
  rw [scanText_idle (hidle hs) (isIdentifier_ne_nil hs),
    scanText_idle (hidle ht) (isIdentifier_ne_nil ht)]

/-- An argument may end with a text that moves the scan alike. -/
theorem argument_congr {lead : Text} (hlead : ∀ c, lead.head? = some c → isSpace c = false)
    (h : SameScan s t) (hs : Solid s) (hs' : s ≠ []) (ht : Argument (lead ++ t)) :
    Argument (lead ++ s) := by
  have hscans := (argument_iff.mp ht).1
  refine argument_iff.mpr ⟨?_, ⟨?_, ?_⟩, by simp [hs']⟩
  · unfold Scans at *
    rwa [((SameScan.refl lead).append h) .code 0]
  · intro c hc
    cases lead with
    | nil => exact hs.head c hc
    | cons d lead => exact hlead c hc
  · intro c hc
    rw [List.getLast?_append_of_ne_nil _ hs'] at hc
    exact hs.last c hc

end Scans

section Outlines

variable {parsed : ClickHouseType} {parts : List TransportPart} {value u : Text} {fuel : ℕ}

theorem outlineWithin_replaced (hparse : parseType value = .ok parsed)
    (h : parsed.name = "Date".toList ∨ parsed.name ∈ stringTransportNames) :
    outlineWithin (fuel + 1) value = parsed.name := by
  rw [outlineWithin, hparse]
  exact if_pos h

theorem outlineWithin_kept (hparse : parseType value = .ok parsed)
    (h : parsed.name ∈ directTransportNames) : outlineWithin (fuel + 1) value = strip value := by
  have hnames : ∀ name ∈ directTransportNames, ¬(name = "Date".toList ∨
      name ∈ stringTransportNames) ∧ name ∉ compositeNames := by
    decide
  obtain ⟨hreplaced, hcomposite⟩ := hnames parsed.name h
  have hnone : transportParts parsed = none := by
    rw [Option.eq_none_iff_forall_ne_some]
    exact fun parts hparts => hcomposite (transportParts_name hparts)
  rw [outlineWithin, hparse]
  simp only [if_neg hreplaced, hnone, Option.elim_none]

theorem outlineWithin_composite (hparse : parseType value = .ok parsed)
    (hparts : transportParts parsed = some parts) :
    outlineWithin (fuel + 1) value = call parsed.name
      (join ", ".toList (parts.map (TransportPart.withType (outlineWithin fuel)))) := by
  obtain ⟨hdate, hstring, -⟩ := compositeNames_not_scalar parsed.name (transportParts_name hparts)
  rw [outlineWithin, hparse]
  simp only [hdate, hstring, or_self, if_false, hparts, Option.elim_some]

theorem elementsWithin_composite (hparse : parseType value = .ok parsed)
    (hparts : transportParts parsed = some parts) {p : TransportPart} (hp : p ∈ parts) :
    (∀ type, p.type? = some type → ∀ e ∈ elementsWithin fuel type,
      e ∈ elementsWithin (fuel + 1) value) ∧
    ∀ lead type, p = .element lead type →
      lead ++ outlineWithin fuel type ∈ elementsWithin (fuel + 1) value := by
  rw [elementsWithin, hparse]
  simp only [hparts, Option.getD_some]
  constructor
  · intro type htype e he
    refine List.mem_flatMap.mpr ⟨p, hp, ?_⟩
    cases p with
    | kept text => cases htype
    | whole type' =>
      obtain rfl := Option.some.inj htype
      exact he
    | element lead type' =>
      obtain rfl := Option.some.inj htype
      exact List.mem_cons_of_mem _ he
  · rintro lead type rfl
    exact List.mem_flatMap.mpr ⟨_, hp, List.mem_cons_self ..⟩

/-- The outline of a type moves the scan like its transport type. -/
theorem outline_scan (hfuel : value.length < fuel) (h : transportTypeExpression value = .ok u) :
    SameScan (outlineWithin fuel value) u ∧ Solid (outlineWithin fuel value) ∧
      outlineWithin fuel value ≠ [] := by
  induction fuel generalizing value u with
  | zero => omega
  | succ fuel ih =>
    obtain ⟨parsed, hparse, hcases⟩ := transport_cases h
    have hname := transport_name hparse ⟨u, h⟩
    have hargument := Ddl.argument_identifier hname
    obtain ⟨hdate, rfl⟩ | ⟨hstring, rfl⟩ | ⟨hdirect, rfl⟩ | ⟨parts, rendered, hparts, hrendered, rfl⟩ :=
      hcases
    · rw [outlineWithin_replaced hparse (Or.inl hdate)]
      exact ⟨sameScan_identifiers hname (by decide), hargument.solid, hargument.nonempty⟩
    · rw [outlineWithin_replaced hparse (Or.inr hstring)]
      exact ⟨sameScan_identifiers hname (by decide), hargument.solid, hargument.nonempty⟩
    · rw [outlineWithin_kept hparse hdirect]
      exact ⟨SameScan.refl _, solid_strip value, (transport_determined h).nonempty⟩
    · rw [outlineWithin_composite hparse hparts]
      refine ⟨?_, solid_call hargument.solid hargument.nonempty, by simp [call]⟩
      have hshort := transportParts_shorter hparse hparts
      have hall : List.Forall₂ SameScan (parts.map (TransportPart.withType (outlineWithin fuel)))
          rendered := by
        rw [List.forall₂_map_left_iff]
        apply forall₂_of_mem hrendered
        intro p hp r _ hr
        cases p with
        | kept text =>
          rw [← Except.ok.inj hr]
          exact SameScan.refl text
        | whole type =>
          have hlength := hshort _ hp type rfl
          exact (ih (by omega) hr).1
        | element lead type =>
          obtain ⟨inner, hinner, rfl⟩ := Except.map_eq_ok.mp hr
          have hlength := hshort _ hp type rfl
          exact (SameScan.refl lead).append (ih (by omega) hinner).1
      unfold call
      exact (((SameScan.refl _).append (SameScan.refl _)).append (SameScan.join hall)).append
        (SameScan.refl _)

end Outlines

section Elements

variable {parsed : ClickHouseType} {parts : List TransportPart} {value u argument r : Text}

theorem FieldNamed.head {name : Text} (h : FieldNamed name) :
    ∀ c, name.head? = some c → isSpace c = false := by
  intro c hc
  obtain hname | ⟨m, rfl, -, -⟩ := h
  · exact (Ddl.argument_identifier hname).solid.head c hc
  · rw [← Option.some.inj hc]
    rfl

/-- A call is no named field. -/
theorem tupleField_call {name arguments : Text} (hname : isIdentifier name = true) :
    tupleField (call name arguments) = none := by
  rw [Option.eq_none_iff_forall_ne_some]
  intro field hfield
  obtain ⟨named, ⟨c, gap, hsplit, hc, -⟩, -, -, -⟩ := FieldText.of_some hfield
  have hcall : call name arguments = name ++ '(' :: (arguments ++ [')']) := by
    unfold call
    simp
  rw [hcall] at hsplit
  obtain hfirst | ⟨m, hm, -, -⟩ := named
  · have hstop : ∀ d, (c :: (gap ++ field.2)).head? = some d → isIdentPart d = false := by
      intro d hd
      obtain rfl := Option.some.inj hd
      by_contra hpart
      rw [Bool.not_eq_false] at hpart
      rw [Ddl.isSpace_of_isIdentPart hpart] at hc
      contradiction
    obtain ⟨-, hopen⟩ := span_unique hsplit (isIdentifier_mem hname) (isIdentifier_mem hfirst)
      (identPart_head (by decide)) hstop
    rw [← (List.cons.inj hopen).1] at hc
    exact absurd hc (by decide)
  · cases name with
    | nil => exact isIdentifier_ne_nil hname rfl
    | cons d name =>
      have hd := isIdentifier_mem hname d (List.mem_cons_self ..)
      rw [hm] at hsplit
      rw [(List.cons.inj hsplit).1] at hd
      exact absurd hd (by decide)

theorem tupleField_identifier {name : Text} (hname : isIdentifier name = true) :
    tupleField name = none := by
  rw [Option.eq_none_iff_forall_ne_some]
  intro field hfield
  obtain ⟨-, ⟨c, gap, hsplit, hc, -⟩, -, -, -⟩ := FieldText.of_some hfield
  have hpart := isIdentifier_mem hname c (by rw [hsplit]; simp)
  rw [Ddl.isSpace_of_isIdentPart hpart] at hc
  contradiction

/-- A type that is no named field has a transport type that is none. -/
theorem transport_not_field (hsolid : Solid value) (hfield : tupleField value = none)
    (h : transportTypeExpression value = .ok u) : tupleField u = none := by
  obtain ⟨parsed, hparse, hcases⟩ := transport_cases h
  have hname := transport_name hparse ⟨u, h⟩
  obtain ⟨-, rfl⟩ | ⟨-, rfl⟩ | ⟨-, rfl⟩ | ⟨parts, rendered, hparts, hrendered, rfl⟩ := hcases
  · exact tupleField_identifier (by decide)
  · exact tupleField_identifier (by decide)
  · rwa [strip_of_solid hsolid]
  · exact tupleField_call hname

/-- What the projection makes of a tuple element is an element of the same name. -/
theorem tuplePart_again (hsolid : Solid argument)
    (h : (tuplePart argument).renderWith transportTypeExpression = .ok r) :
    ∃ lead type inner, tuplePart argument = .element lead type ∧
      tupleArgumentType argument = type ∧ transportTypeExpression type = .ok inner ∧
      r = lead ++ inner ∧ tuplePart r = .element lead inner ∧ tupleArgumentType r = inner ∧
      ∀ c, lead.head? = some c → isSpace c = false := by
  unfold tuplePart tupleArgumentType at *
  cases hfield : tupleField argument with
  | none =>
    rw [hfield] at h
    obtain ⟨inner, hinner, rfl⟩ := Except.map_eq_ok.mp h
    have hnone := transport_not_field hsolid hfield hinner
    refine ⟨[], argument, inner, rfl, rfl, hinner, rfl, ?_, ?_, by simp⟩
    · rw [List.nil_append, hnone]
      rfl
    · rw [List.nil_append, hnone]
      rfl
  | some field =>
    rw [hfield] at h
    obtain ⟨inner, hinner, rfl⟩ := Except.map_eq_ok.mp h
    have htext := FieldText.of_some hfield
    have hinnerSolid := (transport_startsNamed hinner).2
    have hagain := tupleField_element htext.named (transport_determined hinner).nonempty
      hinnerSolid.head
    rw [if_pos (transport_oneLine hinner htext.oneLine)] at hagain
    refine ⟨field.1 ++ " ".toList, field.2, inner, rfl, rfl, hinner, rfl, ?_, ?_, ?_⟩
    · rw [hagain]
      rfl
    · rw [hagain]
      rfl
    · intro c hc
      rw [List.head?_append_of_ne_nil _ htext.named.nonempty] at hc
      exact htext.named.head c hc

end Elements

end RayClickHouse.Schema
