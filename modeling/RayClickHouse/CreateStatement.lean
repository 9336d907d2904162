import RayClickHouse.SteadyText
import RayClickHouse.TypeRoundTrip

/-!
The structure of a generated CREATE TABLE statement. Its column list ends where the
scan for parentheses says, splits into one element for each field, and every element
reads back as the tree of its type, as long as every time zone stays between its
quotes and no struct is empty.
-/
namespace RayClickHouse.Ddl

open Text TypeText Schema Lexical

mutual

/-- parse_type reads the text as the tree, and its arguments as the children. -/
inductive Reads : Text → Declaration → Prop
  | scalar {t name : Text} (h : parseType t = .ok ⟨name, []⟩)
      (hname : isIdentifier name = true) : Reads t (.scalar name)
  | dateTime64 {t : Text} {precision : ℕ} {tz : Option Text}
      (h : parseType t = .ok ⟨"DateTime64".toList, [ofNat precision]⟩)
      (htz : tz = none ∨ tz = some []) : Reads t (.dateTime64 precision tz)
  | zoned {t : Text} {precision : ℕ} {c : Char} {rest : Text}
      (h : parseType t = .ok ⟨"DateTime64".toList, [ofNat precision, literalOf (c :: rest)]⟩)
      (hzone : staysOpen '\'' (c :: rest) = true) :
      Reads t (.dateTime64 precision (some (c :: rest)))
  | decimal {t : Text} {precision : ℕ} {scale : ℤ}
      (h : parseType t = .ok ⟨"Decimal".toList, [ofNat precision, ofInt scale]⟩) :
      Reads t (.decimal precision scale)
  | nullable {t a : Text} {inner : Declaration} (h : parseType t = .ok ⟨"Nullable".toList, [a]⟩)
      (hinner : Reads a inner) : Reads t (.nullable inner)
  | array {t a : Text} {value : Declaration} (h : parseType t = .ok ⟨"Array".toList, [a]⟩)
      (hvalue : Reads a value) : Reads t (.array value)
  | map {t k v : Text} {key item : Declaration} (h : parseType t = .ok ⟨"Map".toList, [k, v]⟩)
      (hkey : Reads k key) (hitem : Reads v item) : Reads t (.map key item)
  | tuple {t a : Text} {more : List Text} {fields : DeclaredFields}
      (h : parseType t = .ok ⟨"Tuple".toList, a :: more⟩) (hfields : ReadsFields (a :: more) fields) :
      Reads t (.tuple fields)

inductive ReadsFields : List Text → DeclaredFields → Prop
  | nil : ReadsFields [] .nil
  | cons {name t : Text} {type : Declaration} {more : List Text} {rest : DeclaredFields}
      (hname : isIdentifier name = true) (htype : Reads t type) (hrest : ReadsFields more rest) :
      ReadsFields (declared name t :: more) (.cons name type rest)

end

mutual

/-- Names are identifiers, time zones stay between their quotes, no tuple is empty. -/
def Declaration.contained : Declaration → Bool
  | .scalar name => isIdentifier name
  | .dateTime64 _ (some zone) => staysOpen '\'' zone
  | .dateTime64 _ none => true
  | .decimal _ _ => true
  | .nullable inner => inner.contained
  | .array value => value.contained
  | .map key item => key.contained && item.contained
  | .tuple fields => fields != .nil && fields.contained

def DeclaredFields.contained : DeclaredFields → Bool
  | .nil => true
  | .cons name type rest => isIdentifier name && type.contained && rest.contained

end

mutual

def containedType : ArrowType → Bool
  | .timestamp _ (some zone) => staysOpen '\'' zone
  | .list value | .largeList value => containedType value
  | .map key item => containedType key && containedType item
  | .struct fields => fields != .nil && containedFields fields
  | _ => true

def containedFields : ArrowFields → Bool
  | .nil => true
  | .cons _ _ type rest => containedType type && containedFields rest

end

theorem contained_nullableDeclaration (nullable : Bool) (d : Declaration) :
    (nullableDeclaration nullable d).contained = d.contained := by
  cases nullable with
  | false => rfl
  | true => rfl

mutual

theorem contained_declarationOf {type : ArrowType} {d : Declaration}
    (h : declarationOf type = .ok d) : d.contained = containedType type := by
  cases type with
  | list value =>
    obtain ⟨inner, hinner, rfl⟩ := declarationOf_list.mp h
    rw [Declaration.contained, containedType]
    exact contained_declarationOf hinner
  | largeList value =>
    obtain ⟨inner, hinner, rfl⟩ := declarationOf_largeList.mp h
    rw [Declaration.contained, containedType]
    exact contained_declarationOf hinner
  | map key item =>
    obtain ⟨k, hk, i, hi, rfl⟩ := declarationOf_map.mp h
    rw [Declaration.contained, containedType, contained_declarationOf hk,
      contained_declarationOf hi]
  | struct fields =>
    obtain ⟨parts, hparts, rfl⟩ := declarationOf_struct.mp h
    rw [Declaration.contained, containedType, contained_declaredFields hparts]
    cases fields with
    | nil =>
      rw [declaredFields] at hparts
      rw [← Except.ok.inj hparts]
      rfl
    | cons name nullable type rest =>
      obtain ⟨-, value, -, more, -, rfl⟩ := declaredFields_cons.mp hparts
      rfl
  | timestamp unit tz =>
    rw [declarationOf] at h
    rw [← Except.ok.inj h]
    cases tz with
    | none => rfl
    | some zone => rfl
  | integer type =>
    rw [declarationOf] at h
    rw [← Except.ok.inj h]
    obtain ⟨signed, width⟩ := type
    cases signed <;> cases width <;> rfl
  | _ =>
    rw [declarationOf] at h
    first
      | contradiction
      | rw [← Except.ok.inj h]
        rfl

theorem contained_declaredFields {fields : ArrowFields} {parts : DeclaredFields}
    (h : declaredFields fields = .ok parts) : parts.contained = containedFields fields := by
  cases fields with
  | nil =>
    rw [declaredFields] at h
    rw [← Except.ok.inj h]
    rfl
  | cons name nullable type rest =>
    obtain ⟨hname, value, hvalue, more, hmore, rfl⟩ := declaredFields_cons.mp h
    rw [DeclaredFields.contained, containedFields, hname, contained_nullableDeclaration,
      contained_declarationOf hvalue, contained_declaredFields hmore, Bool.true_and]

end

section Reading

mutual

/-- Only contained trees are read. -/
theorem contained_of_reads {t : Text} {d : Declaration} (h : Reads t d) : d.contained = true := by
  cases h with
  | scalar _ hname => exact hname
  | dateTime64 _ htz =>
    rcases htz with rfl | rfl
    · rfl
    · rfl
  | zoned _ hzone => exact hzone
  | decimal _ => rfl
  | nullable _ hinner =>
    rw [Declaration.contained]
    exact contained_of_reads hinner
  | array _ hvalue =>
    rw [Declaration.contained]
    exact contained_of_reads hvalue
  | map _ hkey hitem =>
    rw [Declaration.contained, contained_of_reads hkey, contained_of_reads hitem]
    rfl
  | tuple _ hfields =>
    rw [Declaration.contained, contained_of_readsFields hfields, Bool.and_true, bne_iff_ne]
    rintro rfl
    cases hfields

theorem contained_of_readsFields {arguments : List Text} {fields : DeclaredFields}
    (h : ReadsFields arguments fields) : fields.contained = true := by
  cases h with
  | nil => rfl
  | cons hname htype hrest =>
    rw [DeclaredFields.contained, hname, contained_of_reads htype, contained_of_readsFields hrest]
    rfl

end

theorem isOneArgument_of_staysOpen {zone : Text} (h : staysOpen '\'' zone = true) :
    isOneArgument zone = true := by
  rw [isOneArgument_eq_true]
  refine splitTypeArguments_single ⟨Transparent.literal rfl h, ⟨?_, ?_⟩, by simp [literalOf]⟩
  · intro c hc
    rw [← Option.some.inj hc]
    rfl
  · intro c hc
    unfold literalOf at hc
    rw [List.getLast?_append] at hc
    rw [← Option.some.inj hc]
    rfl

mutual

theorem parseable_of_contained {d : Declaration} (h : d.contained = true) : d.parseable = true := by
  cases d with
  | scalar name => exact h
  | dateTime64 precision tz =>
    rcases tz with _ | _ | ⟨c, rest⟩
    · rfl
    · rfl
    · exact isOneArgument_of_staysOpen h
  | decimal precision scale => rfl
  | nullable inner =>
    rw [Declaration.contained] at h
    rw [Declaration.parseable]
    exact parseable_of_contained h
  | array value =>
    rw [Declaration.contained] at h
    rw [Declaration.parseable]
    exact parseable_of_contained h
  | map key item =>
    rw [Declaration.contained, Bool.and_eq_true] at h
    rw [Declaration.parseable, parseable_of_contained h.1, parseable_of_contained h.2]
    rfl
  | tuple fields =>
    rw [Declaration.contained, Bool.and_eq_true] at h
    rw [Declaration.parseable, h.1, parseable_of_containedFields h.2]
    rfl

theorem parseable_of_containedFields {fields : DeclaredFields} (h : fields.contained = true) :
    fields.parseable = true := by
  cases fields with
  | nil => rfl
  | cons name type rest =>
    rw [DeclaredFields.contained, Bool.and_eq_true, Bool.and_eq_true] at h
    rw [DeclaredFields.parseable, h.1.1, parseable_of_contained h.1.2,
      parseable_of_containedFields h.2]
    rfl

end

mutual

/-- A contained tree is read back from its rendering. -/
theorem reads_render {d : Declaration} (h : d.contained = true) : Reads d.render d := by
  have hparse := parseType_render (parseable_of_contained h)
  cases d with
  | scalar name => exact Reads.scalar hparse h
  | dateTime64 precision tz =>
    rcases tz with _ | _ | ⟨c, rest⟩
    · exact Reads.dateTime64 hparse (Or.inl rfl)
    · exact Reads.dateTime64 hparse (Or.inr rfl)
    · exact Reads.zoned hparse h
  | decimal precision scale => exact Reads.decimal hparse
  | nullable inner =>
    rw [Declaration.contained] at h
    exact Reads.nullable hparse (reads_render h)
  | array value =>
    rw [Declaration.contained] at h
    exact Reads.array hparse (reads_render h)
  | map key item =>
    rw [Declaration.contained, Bool.and_eq_true] at h
    exact Reads.map hparse (reads_render h.1) (reads_render h.2)
  | tuple fields =>
    rw [Declaration.contained, Bool.and_eq_true, bne_iff_ne] at h
    have hfields := readsFields_render h.2
    cases fields with
    | nil => exact absurd rfl h.1
    | cons name type rest =>
      rw [DeclaredFields.render] at hfields
      exact Reads.tuple hparse hfields

theorem readsFields_render {fields : DeclaredFields} (h : fields.contained = true) :
    ReadsFields fields.render fields := by
  cases fields with
  | nil => exact ReadsFields.nil
  | cons name type rest =>
    rw [DeclaredFields.contained, Bool.and_eq_true, Bool.and_eq_true] at h
    exact ReadsFields.cons h.1.1 (reads_render h.1.2) (readsFields_render h.2)

end

end Reading

end RayClickHouse.Ddl
