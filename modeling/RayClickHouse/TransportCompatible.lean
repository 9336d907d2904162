import RayClickHouse.CompatibleReading
import RayClickHouse.TransportAgreement

/-!
The read projection and the type checker agree. A transport type is its own transport type
and is compatible with the same Arrow types as the declaration, exactly when every tuple
element of the declaration is balanced.
-/
namespace RayClickHouse.Schema

open Text TypeText

section Again

variable {parsed : ClickHouseType} {parts : List TransportPart} {value u : Text}
  {rendered : List Text} {fuel : ℕ}

theorem composite_read (hname : isIdentifier parsed.name = true) (hne : rendered ≠ [])
    (h : ∀ r ∈ rendered, Argument r) :
    parseType (call parsed.name (join ", ".toList rendered)) = .ok ⟨parsed.name, rendered⟩ := by
  have hargument := Ddl.argument_identifier hname
  rw [parseType_call hargument.solid hargument.nonempty (isIdentifier_not_mem hname (by decide)),
    splitTypeArguments_join hne h]
  rfl

/-- The arguments of a transport type are those of a composite type again. -/
theorem parts_again (hparse : parseType value = .ok parsed)
    (hparts : transportParts parsed = some parts) (h : RenderedAs parts rendered)
    (hinner : ∀ p ∈ parts, ∀ type, p.type? = some type → ∀ w,
      transportTypeExpression type = .ok w → transportTypeExpression w = .ok w) :
    ∃ parts', transportParts ⟨parsed.name, rendered⟩ = some parts' ∧
      RenderedAs parts' rendered := by
  have hall := h
  unfold RenderedAs at h
  obtain ⟨hname, argument, heq, rfl⟩ | ⟨hname, key, item, heq, rfl⟩ | ⟨hname, -, rfl⟩ |
    ⟨hname, function, argument, heq, rfl⟩ := transportParts_cases hparts
  · obtain ⟨r, more, hr, hmore, rfl⟩ := List.forall₂_cons_left_iff.mp h
    obtain rfl := List.forall₂_nil_left_iff.mp hmore
    refine ⟨[.whole r], if_pos hname, List.Forall₂.cons ?_ List.Forall₂.nil⟩
    exact hinner _ (List.mem_singleton_self _) argument rfl r hr
  · obtain ⟨k, more, hk, hmore, rfl⟩ := List.forall₂_cons_left_iff.mp h
    obtain ⟨r, last, hr, hlast, rfl⟩ := List.forall₂_cons_left_iff.mp hmore
    obtain rfl := List.forall₂_nil_left_iff.mp hlast
    rw [hname]
    refine ⟨[.whole k, .whole r], rfl, List.Forall₂.cons ?_ (List.Forall₂.cons ?_ List.Forall₂.nil)⟩
    · exact hinner _ (List.mem_cons_self ..) key rfl k hk
    · exact hinner _ (List.mem_cons_of_mem _ (List.mem_singleton_self _)) item rfl r hr
  · have hne := rendered_nonempty hparts hall
    rw [hname]
    refine ⟨rendered.map tuplePart, if_neg hne, ?_⟩
    · unfold RenderedAs
      rw [List.forall₂_map_left_iff, List.forall₂_same]
      intro r hr
      obtain ⟨p, hp, hread⟩ := exists_of_mem_forall₂ hall hr
      obtain ⟨argument, hmem, rfl⟩ := List.mem_map.mp hp
      obtain ⟨lead, type, inner, hpart, -, htransport, rfl, hagain, -⟩ :=
        tuplePart_again (argument_bounds hparse argument hmem).2 hread
      rw [hagain]
      have htype : (tuplePart argument).type? = some type := by
        rw [hpart]
        rfl
      exact Except.map_eq_ok.mpr ⟨inner, hinner _ hp type htype inner htransport, rfl⟩
  · obtain ⟨f, more, hf, hmore, rfl⟩ := List.forall₂_cons_left_iff.mp h
    obtain ⟨r, last, hr, hlast, rfl⟩ := List.forall₂_cons_left_iff.mp hmore
    obtain rfl := List.forall₂_nil_left_iff.mp hlast
    rw [hname]
    refine ⟨[.kept f, .whole r], rfl, List.Forall₂.cons rfl (List.Forall₂.cons ?_ List.Forall₂.nil)⟩
    exact hinner _ (List.mem_cons_of_mem _ (List.mem_singleton_self _)) argument rfl r hr

theorem transport_kept (hparse : parseType value = .ok parsed)
    (h : parsed.name ∈ directTransportNames) :
    transportTypeExpression (strip value) = .ok (strip value) := by
  have hnames : ∀ name ∈ directTransportNames, name ≠ "Date".toList ∧
      name ∉ stringTransportNames := by
    decide
  obtain ⟨hdate, hstring⟩ := hnames parsed.name h
  rw [transportTypeExpression_eq, parseType_strip hparse, bind_of_ok rfl, if_neg hdate,
    if_neg hstring, if_pos h, strip_strip]

/-- The elements of what is replaced are elements of the composite type. -/
theorem balanced_inner (hparse : parseType value = .ok parsed)
    (hparts : transportParts parsed = some parts)
    (hbalanced : ∀ e ∈ elementsWithin (fuel + 1) value, Argument e) :
    ∀ p ∈ parts, ∀ type, p.type? = some type → ∀ e ∈ elementsWithin fuel type, Argument e :=
  fun _ hp type htype e he =>
    hbalanced e ((elementsWithin_composite hparse hparts hp).1 type htype e he)

/-- With balanced tuple elements a transport type is its own transport type. -/
theorem transport_again (hfuel : value.length < fuel) (h : transportTypeExpression value = .ok u)
    (hbalanced : ∀ e ∈ elementsWithin fuel value, Argument e) :
    transportTypeExpression u = .ok u := by
  induction fuel generalizing value u with
  | zero => omega
  | succ fuel ih =>
    obtain ⟨parsed, hparse, hcases⟩ := transport_cases h
    have hname := transport_name hparse ⟨u, h⟩
    obtain ⟨-, rfl⟩ | ⟨-, rfl⟩ | ⟨hdirect, rfl⟩ | ⟨parts, rendered, hparts, hall, rfl⟩ := hcases
    · decide +kernel
    · decide +kernel
    · exact transport_kept hparse hdirect
    · obtain ⟨parts', hparts', hall'⟩ := parts_again hparse hparts hall (by
        intro p hp type htype w hw
        have hlength := transportParts_shorter hparse hparts p hp type htype
        exact ih (by omega) hw (balanced_inner hparse hparts hbalanced p hp type htype))
      have harguments := (transport_argument hfuel h hbalanced).2 parsed parts rendered hparse
        hparts hall
      have hread := composite_read hname (rendered_nonempty hparts hall) harguments
      have hagain := transport_composite hread hparts' hall'
      exact hagain

end Again

section Compatible

variable [UnicodeDatabase] {parsed : ClickHouseType} {parts : List TransportPart} {value u : Text}
  {rendered : List Text} {fuel : ℕ}

theorem compatible_plain (hparse : parseType value = .ok parsed)
    (h : parsed.name ∉ wrapperNames) (d : ArrowType) :
    arrowCompatible d value = compatibleWith d parsed.name parsed.arguments :=
  arrowCompatible_of_unwrap (unwrap_of_plain hparse (wrapped_of_not_mem h))

theorem compatible_wrapped {step : Text × Bool} (hparse : parseType value = .ok parsed)
    (h : wrapped parsed = some step) (d : ArrowType) :
    arrowCompatible d value = arrowCompatible d step.1 := by
  have hunwrap := unwrap_of_wrapped hparse h
  cases hinner : unwrap step.1 with
  | error e =>
    rw [hinner] at hunwrap
    rw [arrowCompatible_of_error hunwrap, arrowCompatible_of_error hinner]
  | ok r =>
    rw [hinner] at hunwrap
    rw [arrowCompatible_of_unwrap hunwrap, arrowCompatible_of_unwrap hinner]

/-- Tuples of elements with types that are compatible alike. -/
theorem fieldsCompatible_congr {arguments arguments' : List Text}
    (h : List.Forall₂ (fun a b => ∀ d, arrowCompatible d (tupleArgumentType a) =
      arrowCompatible d (tupleArgumentType b)) arguments arguments') (fields : ArrowFields) :
    fieldsCompatible fields arguments = fieldsCompatible fields arguments' := by
  have hcons : ∀ name nullable type rest (a : Text) more,
      fieldsCompatible (.cons name nullable type rest) (a :: more) =
        (arrowCompatible type (tupleArgumentType a) >>= fun compatible =>
          if compatible = true then fieldsCompatible rest more else .ok false) :=
    fun _ _ _ _ _ _ => rfl
  induction h generalizing fields with
  | nil => rfl
  | @cons a b as bs hab _ ih =>
    cases fields with
    | nil => rfl
    | cons name nullable type rest => rw [hcons, hcons, hab type, ih rest]

theorem compatibleWith_array_congr {a b : Text}
    (h : ∀ d, arrowCompatible d a = arrowCompatible d b) (d : ArrowType) :
    compatibleWith d "Array".toList [a] = compatibleWith d "Array".toList [b] := by
  cases d with
  | list value => exact h value
  | largeList value => exact h value
  | _ => rfl

theorem compatibleWith_map_congr {k v k' v' : Text}
    (hk : ∀ d, arrowCompatible d k = arrowCompatible d k')
    (hv : ∀ d, arrowCompatible d v = arrowCompatible d v') (d : ArrowType) :
    compatibleWith d "Map".toList [k, v] = compatibleWith d "Map".toList [k', v'] := by
  have hmap : ∀ key item k v, compatibleWith (.map key item) "Map".toList [k, v] =
      (arrowCompatible key k >>= fun compatible =>
        if compatible = true then arrowCompatible item v else .ok false) := fun _ _ _ _ => rfl
  cases d with
  | map key item => rw [hmap, hmap, hk key, hv item]
  | _ => rfl

theorem compatibleWith_tuple_congr {arguments arguments' : List Text}
    (h : List.Forall₂ (fun a b => ∀ d, arrowCompatible d (tupleArgumentType a) =
      arrowCompatible d (tupleArgumentType b)) arguments arguments') (d : ArrowType) :
    compatibleWith d "Tuple".toList arguments = compatibleWith d "Tuple".toList arguments' := by
  have htuple : ∀ fields arguments, compatibleWith (.struct fields) "Tuple".toList arguments =
      if arguments.length = fields.length then fieldsCompatible fields arguments
      else .ok false := fun _ _ => rfl
  cases d with
  | struct fields => rw [htuple, htuple, h.length_eq, fieldsCompatible_congr h fields]
  | _ => rfl

/-- A composite type is compatible with the same Arrow types when the types in it are. -/
theorem composite_compatible (hparse : parseType value = .ok parsed)
    (hparts : transportParts parsed = some parts) (h : RenderedAs parts rendered)
    (hread : parseType u = .ok ⟨parsed.name, rendered⟩)
    (hinner : ∀ p ∈ parts, ∀ type, p.type? = some type → ∀ w, transportTypeExpression type = .ok w →
      ∀ d, arrowCompatible d type = arrowCompatible d w) (d : ArrowType) :
    arrowCompatible d value = arrowCompatible d u := by
  have hbounds := argument_bounds hparse
  have harray : "Array".toList ∉ wrapperNames := by decide
  have hmap : "Map".toList ∉ wrapperNames := by decide
  have htuple : "Tuple".toList ∉ wrapperNames := by decide
  unfold RenderedAs at h
  obtain ⟨name, arguments⟩ := parsed
  obtain ⟨hname, argument, heq, rfl⟩ | ⟨hname, key, item, heq, rfl⟩ | ⟨hname, -, rfl⟩ |
    ⟨hname, function, argument, heq, rfl⟩ := transportParts_cases hparts
  · obtain ⟨r, more, hr, hmore, rfl⟩ := List.forall₂_cons_left_iff.mp h
    obtain rfl := List.forall₂_nil_left_iff.mp hmore
    obtain rfl : arguments = [argument] := heq
    have hsame := hinner _ (List.mem_singleton_self _) argument rfl r hr
    simp only [List.map_cons, List.map_nil, List.mem_cons, List.not_mem_nil, or_false] at hname
    obtain rfl | rfl | rfl := hname
    · rw [compatible_wrapped hparse rfl d, compatible_wrapped hread rfl d]
      exact hsame d
    · rw [compatible_wrapped hparse rfl d, compatible_wrapped hread rfl d]
      exact hsame d
    · rw [compatible_plain hparse harray d, compatible_plain hread harray d]
      exact compatibleWith_array_congr hsame d
  · obtain ⟨k, more, hk, hmore, rfl⟩ := List.forall₂_cons_left_iff.mp h
    obtain ⟨r, last, hr, hlast, rfl⟩ := List.forall₂_cons_left_iff.mp hmore
    obtain rfl := List.forall₂_nil_left_iff.mp hlast
    obtain rfl : arguments = [key, item] := heq
    obtain rfl : name = "Map".toList := hname
    rw [compatible_plain hparse hmap d, compatible_plain hread hmap d]
    exact compatibleWith_map_congr (hinner _ (List.mem_cons_self ..) key rfl k hk)
      (hinner _ (List.mem_cons_of_mem _ (List.mem_singleton_self _)) item rfl r hr) d
  · obtain rfl : name = "Tuple".toList := hname
    rw [compatible_plain hparse htuple d, compatible_plain hread htuple d]
    refine compatibleWith_tuple_congr ?_ d
    rw [List.forall₂_map_left_iff] at h
    apply forall₂_of_mem h
    intro argument hmem r _ hr
    obtain ⟨lead, type, inner, hpart, htype, htransport, -, -, hagain, -⟩ :=
      tuplePart_again (hbounds argument hmem).2 hr
    rw [htype, hagain]
    refine hinner _ (List.mem_map_of_mem hmem) type ?_ inner htransport
    rw [hpart]
    rfl
  · obtain ⟨f, more, hf, hmore, rfl⟩ := List.forall₂_cons_left_iff.mp h
    obtain ⟨r, last, hr, hlast, rfl⟩ := List.forall₂_cons_left_iff.mp hmore
    obtain rfl := List.forall₂_nil_left_iff.mp hlast
    obtain rfl : arguments = [function, argument] := heq
    obtain rfl : name = "SimpleAggregateFunction".toList := hname
    rw [compatible_wrapped hparse rfl d, compatible_wrapped hread rfl d]
    exact hinner _ (List.mem_cons_of_mem _ (List.mem_singleton_self _)) argument rfl r hr d

/-- With balanced tuple elements a transport type is compatible with the same Arrow types. -/
theorem transport_compatible (hfuel : value.length < fuel)
    (h : transportTypeExpression value = .ok u)
    (hbalanced : ∀ e ∈ elementsWithin fuel value, Argument e) (d : ArrowType) :
    arrowCompatible d value = arrowCompatible d u := by
  induction fuel generalizing value u d with
  | zero => omega
  | succ fuel ih =>
    obtain ⟨parsed, hparse, hcases⟩ := transport_cases h
    have hname := transport_name hparse ⟨u, h⟩
    obtain ⟨hdate, rfl⟩ | ⟨hstring, rfl⟩ | ⟨hdirect, rfl⟩ | ⟨parts, rendered, hparts, hall, rfl⟩ :=
      hcases
    · have hread : parseType "Date32".toList = .ok ⟨"Date32".toList, []⟩ := by decide +kernel
      have hplain : parsed.name ∉ wrapperNames := by
        rw [hdate]
        decide
      have hplain' : "Date32".toList ∉ wrapperNames := by decide
      rw [compatible_plain hparse hplain d, compatible_plain hread hplain' d, hdate]
      rfl
    · have hread : parseType "String".toList = .ok ⟨"String".toList, []⟩ := by decide +kernel
      have hnames : ∀ name ∈ stringTransportNames, name ∉ wrapperNames ∧ name ∈ textTypeNames := by
        decide
      obtain ⟨hplain, htext⟩ := hnames parsed.name hstring
      have hplain' : "String".toList ∉ wrapperNames := by decide
      rw [compatible_plain hparse hplain d, compatible_plain hread hplain' d]
      exact if_pos htext
    · have hnames : ∀ name ∈ directTransportNames, name ∉ wrapperNames := by decide
      have hplain := hnames parsed.name hdirect
      rw [compatible_plain hparse hplain d, compatible_plain (parseType_strip hparse) hplain d]
    · have harguments := (transport_argument hfuel h hbalanced).2 parsed parts rendered hparse
        hparts hall
      refine composite_compatible hparse hparts hall
        (composite_read hname (rendered_nonempty hparts hall) harguments) ?_ d
      intro p hp type htype w hw d
      have hlength := transportParts_shorter hparse hparts p hp type htype
      exact ih (by omega) hw (balanced_inner hparse hparts hbalanced p hp type htype) d

end Compatible

section Agreement

variable [UnicodeDatabase] {value u : Text}

omit [UnicodeDatabase] in
theorem elementsBalanced_iff : ElementsBalanced value ↔
    ∀ e ∈ elementsWithin (value.length + 1) value, Argument e := by
  unfold ElementsBalanced
  constructor
  · intro h e he
    exact split_single_iff.mp (h e he)
  · intro h e he
    exact split_single_iff.mpr (h e he)

/-- The transport type of a declaration is its own transport type and compatible with the
same Arrow types exactly when the tuple elements of the declaration are balanced. -/
theorem read_projection_agrees_iff (h : transportTypeExpression value = .ok u) :
    (transportTypeExpression u = .ok u ∧ ∀ d, arrowCompatible d value = arrowCompatible d u) ↔
      ElementsBalanced value := by
  have hfuel : value.length < value.length + 1 := Nat.lt_succ_self _
  rw [elementsBalanced_iff]
  constructor
  · intro hagree
    exact elements_of_transportable hfuel h ⟨u, hagree.1⟩
  · intro hbalanced
    exact ⟨transport_again hfuel h hbalanced, transport_compatible hfuel h hbalanced⟩

end Agreement

def orderLines : Text := "Map(String, Tuple(day Date, `a, b` Nullable(Enum8('x' = 1))))".toList

def orderTransport : Text := "Map(String, Tuple(day Date32, `a, b` Nullable(String)))".toList

def orderArrow : ArrowType :=
  .map .string (.struct (.cons "day".toList true .date32 (.cons "a, b".toList true .string .nil)))

theorem orderLines_agrees :
    transportTypeExpression orderTransport = .ok orderTransport ∧
      @arrowCompatible asciiDatabase orderArrow orderLines =
        @arrowCompatible asciiDatabase orderArrow orderTransport := by
  let _ := asciiDatabase
  have htransport : transportTypeExpression orderLines = .ok orderTransport := by decide +kernel
  have helements : elementsWithin (orderLines.length + 1) orderLines =
      ["day Date".toList, "`a, b` Nullable(Enum8)".toList] := by decide +kernel
  have hbalanced : ElementsBalanced orderLines := by
    unfold ElementsBalanced
    rw [helements]
    decide +kernel
  obtain ⟨hagain, hcompatible⟩ := (read_projection_agrees_iff htransport).mpr hbalanced
  exact ⟨hagain, hcompatible orderArrow⟩

def escapedField : Text := "Tuple(`a\\` Enum8('` Enum8('\\'' = 1))".toList

theorem escaped_field_not_reread :
    ¬ ∀ t u, transportTypeExpression t = .ok u → transportTypeExpression u = .ok u ∧
      ∀ d, @arrowCompatible asciiDatabase d t = @arrowCompatible asciiDatabase d u := by
  intro h
  have htransport : transportTypeExpression escapedField = .ok "Tuple(`a\\` String)".toList := by
    decide +kernel
  have hrefused : transportTypeExpression "Tuple(`a\\` String)".toList ≠
      .ok "Tuple(`a\\` String)".toList := by decide +kernel
  exact hrefused (h _ _ htransport).1

end RayClickHouse.Schema
