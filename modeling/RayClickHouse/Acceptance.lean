import RayClickHouse.DeterminedTypes

/-!
Which Arrow types are compatible with the declaration that is generated for them.
The exceptions are large strings, empty structs, and time zones that do not come
back from between their quotes or break a line inside a struct.
-/
namespace RayClickHouse.Schema

open Text TypeText Ddl

mutual

/-- No time zone of the type contains a line feed. -/
def oneLine : ArrowType → Bool
  | .timestamp _ (some zone) => '\n' ∉ zone
  | .list value | .largeList value => oneLine value
  | .map key item => oneLine key && oneLine item
  | .struct fields => oneLineFields fields
  | _ => true

def oneLineFields : ArrowFields → Bool
  | .nil => true
  | .cons _ _ type rest => oneLine type && oneLineFields rest

end

mutual

def acceptable : ArrowType → Bool
  | .largeString => false
  | .timestamp _ (some zone) => readableZone zone
  | .list value | .largeList value => acceptable value
  | .map key item => acceptable key && acceptable item
  | .struct fields => fields != .nil && acceptableFields fields
  | _ => true

def acceptableFields : ArrowFields → Bool
  | .nil => true
  | .cons _ _ type rest => acceptable type && oneLine type && acceptableFields rest

end

section Lines

theorem lineFeed_identPart {t : Text} (h : ∀ c ∈ t, isIdentPart c = true) : '\n' ∉ t :=
  identPart_not_mem h (by decide)

theorem lineFeed_call {name arguments : Text} (hname : isIdentifier name = true) :
    '\n' ∉ call name arguments ↔ '\n' ∉ arguments := by
  have hnot := lineFeed_identPart (isIdentifier_mem hname)
  have hopen : '\n' ∉ "(".toList := by decide
  have hclose : '\n' ∉ ")".toList := by decide
  unfold call
  simp only [List.mem_append, hnot, hopen, hclose, or_false, false_or]

theorem lineFeed_join {parts : List Text} :
    '\n' ∉ join ", ".toList parts ↔ ∀ p ∈ parts, '\n' ∉ p := by
  cases parts with
  | nil => simp [join]
  | cons part rest =>
    rw [join_cons]
    have hseparator : '\n' ∉ ", ".toList := by decide
    simp only [List.mem_append, List.mem_flatMap, hseparator, false_or, List.forall_mem_cons,
      not_or, not_exists, not_and]

theorem lineFeed_nullable {nullable : Bool} {d : Declaration} :
    '\n' ∉ (nullableDeclaration nullable d).render ↔ '\n' ∉ d.render := by
  rw [render_nullableDeclaration]
  cases nullable with
  | false => exact Iff.rfl
  | true => exact lineFeed_call rfl

theorem lineFeed_declared {name type : Text} (hname : isIdentifier name = true) :
    '\n' ∉ declared name type ↔ '\n' ∉ type := by
  have hnot := lineFeed_identPart (isIdentifier_mem hname)
  unfold declared quoted
  simp [hnot]

theorem lineFeed_zone {zone : Option Text} :
    '\n' ∉ zoneArgument zone ↔ ∀ z, zone = some z → '\n' ∉ z := by
  rcases zone with _ | _ | ⟨c, rest⟩
  · simp [zoneArgument]
  · simp [zoneArgument]
  · unfold zoneArgument
    simp

mutual

theorem lineFeed_render {type : ArrowType} {d : Declaration} (h : declarationOf type = .ok d) :
    '\n' ∉ d.render ↔ oneLine type = true := by
  cases type with
  | list value =>
    obtain ⟨inner, hinner, rfl⟩ := declarationOf_list.mp h
    rw [Declaration.render, lineFeed_call rfl, oneLine]
    exact lineFeed_render hinner
  | largeList value =>
    obtain ⟨inner, hinner, rfl⟩ := declarationOf_largeList.mp h
    rw [Declaration.render, lineFeed_call rfl, oneLine]
    exact lineFeed_render hinner
  | map key item =>
    obtain ⟨k, hk, i, hi, rfl⟩ := declarationOf_map.mp h
    rw [Declaration.render, lineFeed_call rfl, ← join_two, lineFeed_join, oneLine, Bool.and_eq_true,
      ← lineFeed_render hk, ← lineFeed_render hi]
    simp only [List.mem_cons, List.not_mem_nil, or_false, forall_eq_or_imp, forall_eq]
  | struct fields =>
    obtain ⟨parts, hparts, rfl⟩ := declarationOf_struct.mp h
    rw [Declaration.render, lineFeed_call rfl, lineFeed_join, oneLine]
    exact lineFeed_fields hparts
  | timestamp unit tz =>
    rw [declarationOf] at h
    rw [← Except.ok.inj h, Declaration.render, lineFeed_call rfl, List.mem_append, not_or,
      lineFeed_zone]
    have hdigits := lineFeed_identPart (ofNat_identPart (timestampPrecision unit))
    cases tz with
    | none => simp [hdigits, oneLine]
    | some zone => simp [hdigits, oneLine]
  | decimal bits precision scale =>
    rw [declarationOf] at h
    rw [← Except.ok.inj h, Declaration.render, lineFeed_call rfl]
    refine iff_of_true ?_ rfl
    intro hmem
    rcases decimal_chars precision scale '\n' hmem with hpart | hother
    · contradiction
    · contradiction
  | integer type =>
    rw [declarationOf] at h
    rw [← Except.ok.inj h, Declaration.render]
    exact iff_of_true (lineFeed_identPart (isIdentifier_mem (integer_name type).1)) rfl
  | _ =>
    rw [declarationOf] at h
    first
      | contradiction
      | rw [← Except.ok.inj h, Declaration.render]
        exact iff_of_true (by decide) rfl

theorem lineFeed_fields {fields : ArrowFields} {parts : DeclaredFields}
    (h : declaredFields fields = .ok parts) :
    (∀ p ∈ parts.render, '\n' ∉ p) ↔ oneLineFields fields = true := by
  cases fields with
  | nil =>
    rw [declaredFields] at h
    rw [← Except.ok.inj h, DeclaredFields.render, oneLineFields]
    simp
  | cons name nullable type rest =>
    obtain ⟨hname, value, hvalue, more, hmore, rfl⟩ := declaredFields_cons.mp h
    rw [DeclaredFields.render, oneLineFields, Bool.and_eq_true, List.forall_mem_cons,
      lineFeed_fields hmore]
    exact and_congr_left' ((lineFeed_declared hname).trans
      (lineFeed_nullable.trans (lineFeed_render hvalue)))

end

end Lines

section Necessity

theorem separated_nil : Separated [] := by
  intro c hc
  contradiction

variable [UnicodeDatabase]

/-- A type compatible with a nullable declaration is compatible with what it wraps. -/
theorem compatible_of_nullable {type : ArrowType} {d : Declaration} {nullable : Bool}
    (h : declarationOf type = .ok d)
    (hc : Compatible type (nullableDeclaration nullable d).render) : Compatible type d.render := by
  rw [render_nullableDeclaration] at hc
  cases nullable with
  | false => exact hc
  | true =>
    have hdetermined := List.Forall₂.cons (determined_render h) List.Forall₂.nil
    rw [if_pos rfl, nullableType, ← join_one d.render] at hc
    have harguments := call_arguments rfl hdetermined (List.cons_ne_nil _ _) reads_nullable hc
    obtain ⟨argument, heq, hargument⟩ := satisfy_single.mp harguments
    rw [(List.cons.inj heq).1]
    exact hargument

theorem readableZone_of_compatible {unit : TimeUnit} {zone : Text}
    (hc : Compatible (.timestamp unit (some zone))
      (Declaration.dateTime64 (timestampPrecision unit) (some zone)).render) :
    readableZone zone = true := by
  have hsolid := (determined_timestamp unit (some zone)).solid
  rw [Declaration.render] at hc hsolid
  have hself : call "DateTime64".toList (ofNat (timestampPrecision unit) ++ zoneArgument (some zone)) ++
      [] = call "DateTime64".toList (ofNat (timestampPrecision unit) ++ zoneArgument (some zone)) ++
      [] := rfl
  obtain ⟨x, found, -, hsplit, hwith, hequal⟩ :=
    call_cases rfl (reads_compatible (by decide)) hsolid hc hself separated_nil
  obtain ⟨a, b, rfl, hb⟩ := timezone_arguments (compatibleWith_timestamp.mp hwith).2
  cases zone with
  | nil =>
    rw [zoneArgument_empty, List.append_nil] at hequal
    rw [flat_unique (flat_ofNat _) hsplit hequal,
      splitTypeArguments_single (argument_ofNat _)] at hsplit
    exact nomatch Except.ok.inj hsplit
  | cons c rest =>
    rw [zone_arguments, List.append_assoc, List.cons_append, List.cons_append] at hequal
    have hx := zone_unique hsplit hb (List.cons_ne_nil c rest) hequal
    rw [hx] at hsplit
    exact readableZone_of_split (List.cons_ne_nil c rest) hsplit hb

theorem not_compatible_largeString {u : Text} : ¬ Compatible .largeString u := by
  intro h
  obtain ⟨name, arguments, nullable, -, hwith⟩ := compatible_iff.mp h
  exact absurd (compatibleWith_name hwith) List.not_mem_nil

theorem not_compatible_emptyTuple :
    ¬ Compatible (.struct .nil) (Declaration.tuple .nil).render := by
  intro h
  have hsolid := determined_emptyTuple.solid
  rw [Declaration.render] at h hsolid
  have hself : call "Tuple".toList (join ", ".toList DeclaredFields.nil.render) ++ [] =
      call "Tuple".toList (join ", ".toList DeclaredFields.nil.render) ++ [] := rfl
  obtain ⟨x, found, -, hsplit, hfound, -⟩ :=
    call_cases rfl reads_struct hsolid h hself separated_nil
  exact split_nonempty hsplit (List.forall₂_nil_left_iff.mp hfound)

mutual

/-- A type compatible with its own declaration is acceptable. -/
theorem acceptable_of_compatible {type : ArrowType} {d : Declaration}
    (h : declarationOf type = .ok d) (hc : Compatible type d.render) : acceptable type = true := by
  cases type with
  | largeString => exact absurd hc not_compatible_largeString
  | timestamp unit tz =>
    rw [declarationOf] at h
    rw [← Except.ok.inj h] at hc
    cases tz with
    | none => rfl
    | some zone =>
      rw [acceptable]
      exact readableZone_of_compatible hc
  | list value =>
    obtain ⟨inner, hinner, rfl⟩ := declarationOf_list.mp h
    have hdetermined := List.Forall₂.cons (determined_render hinner) List.Forall₂.nil
    rw [Declaration.render, ← join_one inner.render] at hc
    rw [acceptable]
    cases call_arguments rfl hdetermined (List.cons_ne_nil _ _) reads_list hc with
    | cons hvalue _ => exact acceptable_of_compatible hinner hvalue
  | largeList value =>
    obtain ⟨inner, hinner, rfl⟩ := declarationOf_largeList.mp h
    have hdetermined := List.Forall₂.cons (determined_render hinner) List.Forall₂.nil
    rw [Declaration.render, ← join_one inner.render] at hc
    rw [acceptable]
    cases call_arguments rfl hdetermined (List.cons_ne_nil _ _) reads_largeList hc with
    | cons hvalue _ => exact acceptable_of_compatible hinner hvalue
  | map key item =>
    obtain ⟨k, hk, i, hi, rfl⟩ := declarationOf_map.mp h
    have hdetermined := List.Forall₂.cons (determined_render hk)
      (List.Forall₂.cons (determined_render hi) List.Forall₂.nil)
    rw [Declaration.render, ← join_two] at hc
    rw [acceptable, Bool.and_eq_true]
    cases call_arguments rfl hdetermined (List.cons_ne_nil _ _) reads_map hc with
    | cons hkey hmore =>
      cases hmore with
      | cons hitem _ =>
        exact ⟨acceptable_of_compatible hk hkey, acceptable_of_compatible hi hitem⟩
  | struct fields =>
    obtain ⟨parts, hparts, rfl⟩ := declarationOf_struct.mp h
    cases fields with
    | nil =>
      rw [declaredFields] at hparts
      rw [← Except.ok.inj hparts] at hc
      exact absurd hc not_compatible_emptyTuple
    | cons name nullable type rest =>
      have hdetermined := determined_fields hparts
      have hne : parts.render ≠ [] := by
        intro hnil
        rw [hnil] at hdetermined
        cases hdetermined
      rw [Declaration.render] at hc
      rw [acceptable, Bool.and_eq_true]
      exact ⟨by simp, acceptable_of_checks hparts
        (call_arguments rfl hdetermined hne reads_struct hc)⟩
  | _ => rfl

theorem acceptable_of_checks {fields : ArrowFields} {parts : DeclaredFields}
    (h : declaredFields fields = .ok parts) (hc : Satisfy (fieldChecks fields) parts.render) :
    acceptableFields fields = true := by
  cases fields with
  | nil => rfl
  | cons name nullable type rest =>
    obtain ⟨hname, value, hvalue, more, hmore, rfl⟩ := declaredFields_cons.mp h
    rw [fieldChecks, DeclaredFields.render] at hc
    cases hc with
    | cons hfield hrest =>
      have hdetermined := determined_nullable nullable (determined_render hvalue)
      have hsolid : Solid (declared name (nullableDeclaration nullable value).render) :=
        solid_declared hdetermined.solid hdetermined.nonempty
      obtain ⟨-, htype, hline⟩ := field_unique hname hdetermined hsolid hfield rfl separated_nil
        separated_nil
      rw [acceptableFields, Bool.and_eq_true, Bool.and_eq_true]
      refine ⟨⟨?_, ?_⟩, acceptable_of_checks hmore hrest⟩
      · exact acceptable_of_compatible hvalue (compatible_of_nullable hvalue htype)
      · exact (lineFeed_render hvalue).mp (lineFeed_nullable.mp hline)

end

end Necessity

end RayClickHouse.Schema
