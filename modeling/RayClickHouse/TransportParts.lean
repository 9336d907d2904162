import RayClickHouse.ArgumentScan
import RayClickHouse.ReadProjection
import RayClickHouse.TupleFields
import RayClickHouse.Unwrapping

/-!
The shape of a transport type. A composite type is rendered as its name applied to its
arguments, each of which is kept, replaced by its transport type, or replaced behind the
name of a tuple field. Every type that is replaced is shorter than the composite one.
-/
namespace RayClickHouse.Schema

open Text TypeText

inductive TransportPart
  | kept (text : Text)
  | whole (type : Text)
  | element (lead type : Text)

namespace TransportPart

def renderWith (transport : Text → Outcome Text) : TransportPart → Outcome Text
  | .kept text => .ok text
  | .whole type => transport type
  | .element lead type => (transport type).map (lead ++ ·)

def type? : TransportPart → Option Text
  | .kept _ => none
  | .whole type => some type
  | .element _ type => some type

end TransportPart

def tuplePart (argument : Text) : TransportPart :=
  (tupleField argument).elim (.element [] argument) fun field =>
    .element (field.1 ++ " ".toList) field.2

/-- The arguments of a composite type, none when the type is not composite or has the
wrong number of them. -/
def transportParts (parsed : ClickHouseType) : Option (List TransportPart) :=
  if parsed.name ∈ ["Nullable", "LowCardinality", "Array"].map String.toList then
    match parsed.arguments with
    | [argument] => some [.whole argument]
    | _ => none
  else if parsed.name = "Map".toList then
    match parsed.arguments with
    | [key, item] => some [.whole key, .whole item]
    | _ => none
  else if parsed.name = "Tuple".toList then
    if parsed.arguments = [] then none else some (parsed.arguments.map tuplePart)
  else if parsed.name = "SimpleAggregateFunction".toList then
    match parsed.arguments with
    | [function, argument] => some [.kept function, .whole argument]
    | _ => none
  else none

def refusal (value name : Text) : Outcome Text :=
  if name ∈ ["Nullable", "LowCardinality", "Array", "Map", "Tuple"].map String.toList then
    invalidType value
  else unsupportedType value

section Equation

variable {α β : Type}

theorem bind_ok (x : Outcome α) (f : α → β) : (x >>= fun a => .ok (f a)) = x.map f := by
  cases x with
  | error e => rfl
  | ok a => rfl

/-- One pass of the projection over a type. -/
theorem transportWithin_succ (fuel : ℕ) (value : Text) :
    transportWithin (fuel + 1) value = parseType value >>= fun parsed =>
      if parsed.name = "Date".toList then .ok "Date32".toList
      else if parsed.name ∈ stringTransportNames then .ok "String".toList
      else if parsed.name ∈ directTransportNames then .ok (strip value)
      else (transportParts parsed).elim (refusal value parsed.name) fun parts =>
        parts.mapM (TransportPart.renderWith (transportWithin fuel)) >>= fun rendered =>
          .ok (call parsed.name (join ", ".toList rendered)) := by
  rw [transportWithin]
  cases hparse : parseType value with
  | error e => rfl
  | ok parsed =>
    obtain ⟨name, arguments⟩ := parsed
    rw [bind_of_ok rfl, bind_of_ok rfl]
    simp only
    split_ifs with hdate hstring hdirect hwrapper hmap htuple hempty haggregate
    · rfl
    · rfl
    · rfl
    · have hmem : name ∈ ["Nullable", "LowCardinality", "Array", "Map", "Tuple"].map String.toList :=
        List.mem_append_left (["Map", "Tuple"].map String.toList) hwrapper
      have hrefusal : refusal value name = invalidType value := if_pos hmem
      rw [transportParts, if_pos hwrapper]
      rcases arguments with _ | ⟨argument, _ | ⟨other, more⟩⟩
      · exact hrefusal.symm
      · simp only [Option.elim_some, List.mapM_cons, List.mapM_nil, TransportPart.renderWith]
        cases transportWithin fuel argument with
        | error e => rfl
        | ok u => simp only [bind, Except.bind, pure, Except.pure, join_one]
      · exact hrefusal.symm
    · have hrefusal : refusal value name = invalidType value := by
        rw [hmap]
        rfl
      rw [transportParts, if_neg hwrapper, if_pos hmap]
      rcases arguments with _ | ⟨key, _ | ⟨item, _ | ⟨other, more⟩⟩⟩
      · exact hrefusal.symm
      · exact hrefusal.symm
      · simp only [Option.elim_some, List.mapM_cons, List.mapM_nil, TransportPart.renderWith]
        cases transportWithin fuel key with
        | error e => rfl
        | ok k =>
          cases transportWithin fuel item with
          | error e => rfl
          | ok u => simp only [bind, Except.bind, pure, Except.pure, hmap]
      · exact hrefusal.symm
    · have hrefusal : refusal value name = invalidType value := by
        rw [htuple]
        rfl
      rw [transportParts, if_neg hwrapper, if_neg hmap, if_pos htuple, if_pos hempty]
      exact hrefusal.symm
    · rw [transportParts, if_neg hwrapper, if_neg hmap, if_pos htuple, if_neg hempty,
        Option.elim_some, List.mapM_map, htuple]
      refine congrArg (· >>= _) (congrArg (List.mapM · arguments) (funext fun argument => ?_))
      rw [Function.comp_apply]
      unfold tuplePart
      cases tupleField argument with
      | none =>
        show transportWithin fuel argument = (transportWithin fuel argument).map ([] ++ ·)
        cases transportWithin fuel argument with
        | error e => rfl
        | ok u => rfl
      | some field => exact bind_ok _ _
    · have hrefusal : refusal value name = unsupportedType value := by
        rw [haggregate]
        rfl
      rw [transportParts, if_neg hwrapper, if_neg hmap, if_neg htuple, if_pos haggregate]
      rcases arguments with _ | ⟨function, _ | ⟨argument, _ | ⟨other, more⟩⟩⟩
      · exact hrefusal.symm
      · exact hrefusal.symm
      · simp only [Option.elim_some, List.mapM_cons, List.mapM_nil, TransportPart.renderWith]
        cases transportWithin fuel argument with
        | error e => rfl
        | ok u => simp only [bind, Except.bind, pure, Except.pure, haggregate]
      · exact hrefusal.symm
    · have hmem : name ∉ ["Nullable", "LowCardinality", "Array", "Map", "Tuple"].map String.toList := by
        simp only [List.map_cons, List.map_nil, List.mem_cons, List.not_mem_nil, or_false,
          not_or] at hwrapper ⊢
        exact ⟨hwrapper.1, hwrapper.2.1, hwrapper.2.2, hmap, htuple⟩
      rw [transportParts, if_neg hwrapper, if_neg hmap, if_neg htuple, if_neg haggregate]
      exact (if_neg hmem).symm

end Equation

/-- The arguments stand for parts of a composite type. -/
theorem transportParts_cases {parsed : ClickHouseType} {parts : List TransportPart}
    (h : transportParts parsed = some parts) :
    (parsed.name ∈ ["Nullable", "LowCardinality", "Array"].map String.toList ∧
      ∃ argument, parsed.arguments = [argument] ∧ parts = [.whole argument]) ∨
    (parsed.name = "Map".toList ∧ ∃ key item, parsed.arguments = [key, item] ∧
      parts = [.whole key, .whole item]) ∨
    (parsed.name = "Tuple".toList ∧ parsed.arguments ≠ [] ∧
      parts = parsed.arguments.map tuplePart) ∨
    (parsed.name = "SimpleAggregateFunction".toList ∧ ∃ function argument,
      parsed.arguments = [function, argument] ∧ parts = [.kept function, .whole argument]) := by
  obtain ⟨name, arguments⟩ := parsed
  unfold transportParts at h
  split_ifs at h with hwrapper hmap htuple hempty haggregate
  · rcases arguments with _ | ⟨argument, _ | ⟨other, more⟩⟩
    · contradiction
    · exact Or.inl ⟨hwrapper, argument, rfl, (Option.some.inj h).symm⟩
    · contradiction
  · rcases arguments with _ | ⟨key, _ | ⟨item, _ | ⟨other, more⟩⟩⟩
    · contradiction
    · contradiction
    · exact Or.inr (Or.inl ⟨hmap, key, item, rfl, (Option.some.inj h).symm⟩)
    · contradiction
  · exact Or.inr (Or.inr (Or.inl ⟨htuple, hempty, (Option.some.inj h).symm⟩))
  · rcases arguments with _ | ⟨function, _ | ⟨argument, _ | ⟨other, more⟩⟩⟩
    · contradiction
    · contradiction
    · exact Or.inr (Or.inr (Or.inr ⟨haggregate, function, argument, rfl, (Option.some.inj h).symm⟩))
    · contradiction

section Passes

variable {parsed : ClickHouseType} {parts : List TransportPart} {value u : Text}

theorem tuplePart_type (argument : Text) {type : Text}
    (h : (tuplePart argument).type? = some type) : type.length ≤ argument.length := by
  unfold tuplePart at h
  cases hfield : tupleField argument with
  | none =>
    rw [hfield] at h
    rw [← Option.some.inj h]
  | some field =>
    rw [hfield] at h
    obtain rfl : field.2 = type := Option.some.inj h
    obtain ⟨c, gap, hsplit, -, -⟩ := (FieldText.of_some hfield).split
    rw [hsplit]
    simp only [List.length_append, List.length_cons]
    omega

/-- What is replaced in a composite type is shorter than it. -/
theorem transportParts_shorter (hparse : parseType value = .ok parsed)
    (h : transportParts parsed = some parts) :
    ∀ p ∈ parts, ∀ type, p.type? = some type → type.length < value.length := by
  have hbounds := argument_bounds hparse
  intro p hp type htype
  obtain ⟨-, argument, harguments, rfl⟩ | ⟨-, key, item, harguments, rfl⟩ | ⟨-, -, rfl⟩ |
    ⟨-, function, argument, harguments, rfl⟩ := transportParts_cases h
  · rw [harguments] at hbounds
    obtain rfl := List.mem_singleton.mp hp
    rw [← Option.some.inj htype]
    exact (hbounds argument (List.mem_singleton_self _)).1
  · rw [harguments] at hbounds
    simp only [List.mem_cons, List.not_mem_nil, or_false] at hp
    obtain rfl | rfl := hp
    · rw [← Option.some.inj htype]
      exact (hbounds key (List.mem_cons_self ..)).1
    · rw [← Option.some.inj htype]
      exact (hbounds item (List.mem_cons_of_mem _ (List.mem_singleton_self _))).1
  · obtain ⟨argument, hmem, rfl⟩ := List.mem_map.mp hp
    exact lt_of_le_of_lt (tuplePart_type argument htype) (hbounds argument hmem).1
  · rw [harguments] at hbounds
    simp only [List.mem_cons, List.not_mem_nil, or_false] at hp
    obtain rfl | rfl := hp
    · cases htype
    · rw [← Option.some.inj htype]
      exact (hbounds argument (List.mem_cons_of_mem _ (List.mem_singleton_self _))).1

theorem mapM_congr {α β : Type} {f g : α → Outcome β} {xs : List α}
    (h : ∀ x ∈ xs, f x = g x) : xs.mapM f = xs.mapM g := by
  induction xs with
  | nil => rfl
  | cons x xs ih =>
    rw [List.mapM_cons, List.mapM_cons, h x (List.mem_cons_self ..),
      ih fun y hy => h y (List.mem_cons_of_mem _ hy)]

theorem renderWith_congr {f g : Text → Outcome Text} {p : TransportPart}
    (h : ∀ type, p.type? = some type → f type = g type) : p.renderWith f = p.renderWith g := by
  cases p with
  | kept text => rfl
  | whole type => exact h type rfl
  | element lead type => exact congrArg (Except.map (lead ++ ·)) (h type rfl)

/-- More fuel than the length of a type changes nothing. -/
theorem transportWithin_fuel {fuel fuel' : ℕ} (h : value.length < fuel)
    (h' : value.length < fuel') : transportWithin fuel value = transportWithin fuel' value := by
  induction fuel generalizing fuel' value with
  | zero => omega
  | succ fuel ih =>
    cases fuel' with
    | zero => omega
    | succ fuel' =>
      rw [transportWithin_succ, transportWithin_succ]
      cases hparse : parseType value with
      | error e => rfl
      | ok parsed =>
        rw [bind_of_ok rfl, bind_of_ok rfl]
        cases hparts : transportParts parsed with
        | none => rfl
        | some parts =>
          have hsame : parts.mapM (TransportPart.renderWith (transportWithin fuel)) =
              parts.mapM (TransportPart.renderWith (transportWithin fuel')) := by
            apply mapM_congr
            intro p hp
            apply renderWith_congr
            intro type htype
            have hshort := transportParts_shorter hparse hparts p hp type htype
            exact ih (by omega) (by omega)
          rw [Option.elim_some, Option.elim_some, hsame]

theorem transportTypeExpression_eq (value : Text) :
    transportTypeExpression value = parseType value >>= fun parsed =>
      if parsed.name = "Date".toList then .ok "Date32".toList
      else if parsed.name ∈ stringTransportNames then .ok "String".toList
      else if parsed.name ∈ directTransportNames then .ok (strip value)
      else (transportParts parsed).elim (refusal value parsed.name) fun parts =>
        parts.mapM (TransportPart.renderWith transportTypeExpression) >>= fun rendered =>
          .ok (call parsed.name (join ", ".toList rendered)) := by
  unfold transportTypeExpression
  rw [transportWithin_succ]
  cases hparse : parseType value with
  | error e => rfl
  | ok parsed =>
    rw [bind_of_ok rfl, bind_of_ok rfl]
    cases hparts : transportParts parsed with
    | none => rfl
    | some parts =>
      have hsame : parts.mapM (TransportPart.renderWith (transportWithin value.length)) =
          parts.mapM (TransportPart.renderWith fun value =>
            transportWithin (value.length + 1) value) := by
        apply mapM_congr
        intro p hp
        apply renderWith_congr
        intro type htype
        have hshort := transportParts_shorter hparse hparts p hp type htype
        exact transportWithin_fuel (by omega) (by omega)
      rw [Option.elim_some, Option.elim_some, hsame]

def RenderedAs (parts : List TransportPart) (rendered : List Text) : Prop :=
  List.Forall₂ (fun p r => p.renderWith transportTypeExpression = .ok r) parts rendered

def compositeNames : List Text :=
  ["Nullable", "LowCardinality", "Array", "Map", "Tuple", "SimpleAggregateFunction"].map String.toList

theorem transportParts_name (h : transportParts parsed = some parts) :
    parsed.name ∈ compositeNames := by
  obtain ⟨hname, -⟩ | ⟨hname, -⟩ | ⟨hname, -⟩ | ⟨hname, -⟩ := transportParts_cases h
  · exact List.mem_append_left (["Map", "Tuple", "SimpleAggregateFunction"].map String.toList) hname
  · rw [hname]
    decide
  · rw [hname]
    decide
  · rw [hname]
    decide

theorem compositeNames_not_scalar : ∀ name ∈ compositeNames, name ≠ "Date".toList ∧
    name ∉ stringTransportNames ∧ name ∉ directTransportNames := by
  decide

/-- A composite type is rendered from its arguments. -/
theorem transport_composite {rendered : List Text} (hparse : parseType value = .ok parsed)
    (hparts : transportParts parsed = some parts) (h : RenderedAs parts rendered) :
    transportTypeExpression value = .ok (call parsed.name (join ", ".toList rendered)) := by
  obtain ⟨hdate, hstring, hdirect⟩ :=
    compositeNames_not_scalar parsed.name (transportParts_name hparts)
  rw [transportTypeExpression_eq, hparse, bind_of_ok rfl, if_neg hdate, if_neg hstring,
    if_neg hdirect, hparts, Option.elim_some, Except.mapM_eq_ok.mpr h]
  rfl

/-- How a transport type comes about. -/
theorem transport_cases (h : transportTypeExpression value = .ok u) :
    ∃ parsed, parseType value = .ok parsed ∧
      ((parsed.name = "Date".toList ∧ u = "Date32".toList) ∨
        (parsed.name ∈ stringTransportNames ∧ u = "String".toList) ∨
        (parsed.name ∈ directTransportNames ∧ u = strip value) ∨
        ∃ parts rendered, transportParts parsed = some parts ∧ RenderedAs parts rendered ∧
          u = call parsed.name (join ", ".toList rendered)) := by
  rw [transportTypeExpression_eq] at h
  obtain ⟨parsed, hparse, h⟩ := Except.bind_eq_ok.mp h
  refine ⟨parsed, hparse, ?_⟩
  split_ifs at h with hdate hstring hdirect
  · exact Or.inl ⟨hdate, (Except.ok.inj h).symm⟩
  · exact Or.inr (Or.inl ⟨hstring, (Except.ok.inj h).symm⟩)
  · exact Or.inr (Or.inr (Or.inl ⟨hdirect, (Except.ok.inj h).symm⟩))
  · cases hparts : transportParts parsed with
    | none =>
      rw [hparts, Option.elim_none] at h
      unfold refusal at h
      split_ifs at h
      · cases h
      · cases h
    | some parts =>
      rw [hparts, Option.elim_some] at h
      obtain ⟨rendered, hrendered, hu⟩ := Except.bind_eq_ok.mp h
      exact Or.inr (Or.inr (Or.inr ⟨parts, rendered, rfl, Except.mapM_eq_ok.mp hrendered,
        (Except.ok.inj hu).symm⟩))

end Passes

end RayClickHouse.Schema
