import RayClickHouse.Declarations
import RayClickHouse.Fragments
import RayClickHouse.TypeScan

/-!
Reading a generated declaration back. Every declaration is a name applied to the
texts of its children, so parse_type returns exactly these, as long as every
time zone is one argument between its quotes and no tuple is empty.
-/
namespace RayClickHouse.Ddl

open Text TypeText Schema

def literalOf (zone : Text) : Text := '\'' :: zone ++ ['\'']

def isOneArgument (zone : Text) : Bool :=
  match splitTypeArguments (literalOf zone) with
  | .ok parts => parts == [literalOf zone]
  | .error _ => false

theorem isOneArgument_eq_true {zone : Text} :
    isOneArgument zone = true ↔ splitTypeArguments (literalOf zone) = .ok [literalOf zone] := by
  unfold isOneArgument
  cases splitTypeArguments (literalOf zone) with
  | error failure => simp
  | ok parts => simp

namespace Declaration

def head : Declaration → Text
  | .scalar name => name
  | .dateTime64 _ _ => "DateTime64".toList
  | .decimal _ _ => "Decimal".toList
  | .nullable _ => "Nullable".toList
  | .array _ => "Array".toList
  | .map _ _ => "Map".toList
  | .tuple _ => "Tuple".toList

def arguments : Declaration → List Text
  | .scalar _ => []
  | .dateTime64 precision (some (c :: rest)) => [ofNat precision, literalOf (c :: rest)]
  | .dateTime64 precision _ => [ofNat precision]
  | .decimal precision scale => [ofNat precision, ofInt scale]
  | .nullable inner => [inner.render]
  | .array value => [value.render]
  | .map key item => [key.render, item.render]
  | .tuple fields => fields.render

end Declaration

mutual

/-- The scalars and the field names are identifiers, every time zone is one
argument, and no tuple is empty. -/
def Declaration.parseable : Declaration → Bool
  | .scalar name => isIdentifier name
  | .dateTime64 _ (some (c :: rest)) => isOneArgument (c :: rest)
  | .dateTime64 _ _ => true
  | .decimal _ _ => true
  | .nullable inner => inner.parseable
  | .array value => value.parseable
  | .map key item => key.parseable && item.parseable
  | .tuple fields => fields != .nil && fields.parseable

def DeclaredFields.parseable : DeclaredFields → Bool
  | .nil => true
  | .cons name type rest => isIdentifier name && type.parseable && rest.parseable

end

theorem solid_of_plain {t : Text} (h : ∀ c ∈ t, isSpace c = false) : Solid t :=
  ⟨fun c hc => h c (List.mem_of_mem_head? hc), fun c hc => h c (List.mem_of_mem_getLast? hc)⟩

theorem isSpace_of_isIdentPart {c : Char} (h : isIdentPart c = true) : isSpace c = false := by
  simp only [isIdentPart, Char.isAlphanum, Char.isAlpha, Char.isUpper, Char.isLower, Char.isDigit,
    Bool.or_eq_true, Bool.and_eq_true, decide_eq_true_eq, UInt32.le_iff_toNat_le, beq_iff_eq,
    ge_iff_le] at h
  have hbounds : 48 ≤ c.toNat ∧ c.toNat ≤ 122 := by
    have htoNat : c.toNat = c.val.toNat := rfl
    rcases h with ((h | h) | h) | h
    · exact ⟨htoNat ▸ le_trans (by decide) h.1, htoNat ▸ le_trans h.2 (by decide)⟩
    · exact ⟨htoNat ▸ le_trans (by decide) h.1, htoNat ▸ le_trans h.2 (by decide)⟩
    · exact ⟨htoNat ▸ le_trans (by decide) h.1, htoNat ▸ le_trans h.2 (by decide)⟩
    · subst h
      decide
  unfold isSpace
  simp only [Bool.or_eq_false_iff, decide_eq_false_iff_not, beq_eq_false_iff_ne]
  omega

theorem inertChar_of_isIdentPart {c : Char} (h : isIdentPart c = true) : inertChar c = true := by
  have hne : ∀ d : Char, isIdentPart d = false → c ≠ d := by
    rintro d hd rfl
    rw [h] at hd
    contradiction
  rw [inertChar_eq_true]
  refine ⟨?_, hne '(' (by decide), hne ')' (by decide), hne ',' (by decide)⟩
  simp [isQuote, hne '\'' (by decide), hne '"' (by decide), hne '`' (by decide)]

/-- Letters, digits and underscores make an argument. -/
theorem argument_of_identPart {t : Text} (h : ∀ c ∈ t, isIdentPart c = true) (hne : t ≠ []) :
    Argument t := by
  refine ⟨Transparent.inert ?_, solid_of_plain fun c hc => isSpace_of_isIdentPart (h c hc), hne⟩
  rw [List.all_eq_true]
  exact fun c hc => inertChar_of_isIdentPart (h c hc)

theorem argument_identifier {name : Text} (h : isIdentifier name = true) : Argument name :=
  argument_of_identPart (isIdentifier_mem h) (isIdentifier_ne_nil h)

theorem ofNat_ne_nil (n : ℕ) : ofNat n ≠ [] := by
  unfold ofNat
  exact Nat.toDigits_ne_nil

theorem argument_ofNat (n : ℕ) : Argument (ofNat n) :=
  argument_of_identPart (ofNat_identPart n) (ofNat_ne_nil n)

theorem argument_ofInt (i : ℤ) : Argument (ofInt i) := by
  cases i with
  | ofNat n => exact argument_ofNat n
  | negSucc n =>
    have hminus : Transparent 0 ['-'] := Transparent.inert rfl
    have hdigits := argument_ofNat (n + 1)
    refine ⟨hminus.append hdigits.transparent, ?_, by simp [ofInt]⟩
    refine solid_of_plain fun c hc => ?_
    rcases List.mem_cons.mp hc with rfl | hc
    · rfl
    · exact isSpace_of_isIdentPart (ofNat_identPart _ c hc)

theorem argument_literal {zone : Text} (h : isOneArgument zone = true) :
    Argument (literalOf zone) := by
  refine ⟨transparent_of_single (isOneArgument_eq_true.mp h), ⟨?_, ?_⟩, by simp [literalOf]⟩
  · intro c hc
    rw [← Option.some.inj hc]
    rfl
  · intro c hc
    have hlast : (literalOf zone).getLast? = some '\'' := by
      unfold literalOf
      rw [List.getLast?_append]
      rfl
    rw [hlast] at hc
    rw [← Option.some.inj hc]
    rfl

/-- Arguments joined by commas are passed over inside parentheses. -/
theorem transparent_join {parts : List Text} (h : ∀ p ∈ parts, Argument p) :
    Transparent 1 (join ", ".toList parts) := by
  cases parts with
  | nil => exact Transparent.nil
  | cons part rest =>
    exact transparent_of_split
      (splitTypeArguments_join (List.cons_ne_nil part rest) h)

theorem argument_call {name : Text} {parts : List Text} (hname : isIdentifier name = true)
    (h : ∀ p ∈ parts, Argument p) : Argument (call name (join ", ".toList parts)) := by
  have hargument := argument_identifier hname
  refine ⟨Transparent.call ?_ (transparent_join h), solid_call hargument.solid hargument.nonempty,
    by simp [call]⟩
  rw [List.all_eq_true]
  exact fun c hc => inertChar_of_isIdentPart (isIdentifier_mem hname c hc)

theorem staysOpen_identifier {q : Char} {name : Text} (h : ∀ c ∈ name, isIdentPart c = true)
    (hq : isIdentPart q = false) : staysOpen q name = true := by
  have hne : ∀ c ∈ name, ∀ d, isIdentPart d = false → c ≠ d := by
    rintro c hc d hd rfl
    rw [h c hc] at hd
    contradiction
  induction name with
  | nil => rfl
  | cons c rest ih =>
    have hescape : c ≠ '\\' := hne c (List.mem_cons_self ..) _ (by decide)
    have hquote : c ≠ q := hne c (List.mem_cons_self ..) _ hq
    unfold staysOpen
    rw [if_neg hescape, bne_iff_ne.mpr hquote, Bool.true_and]
    exact ih (fun d hd => h d (List.mem_cons_of_mem _ hd))
      (fun d hd => hne d (List.mem_cons_of_mem _ hd))

def declared (name type : Text) : Text := quoted name ++ " ".toList ++ type

theorem argument_declared {name type : Text} (hname : isIdentifier name = true)
    (h : Argument type) : Argument (declared name type) := by
  have hquoted : Transparent 0 (quoted name) :=
    Transparent.literal rfl (staysOpen_identifier (isIdentifier_mem hname) (by decide))
  have hspace : Transparent 0 " ".toList := Transparent.inert rfl
  refine ⟨(hquoted.append hspace).append h.transparent, ⟨?_, ?_⟩, by simp [declared, quoted]⟩
  · intro c hc
    have hhead : (declared name type).head? = some '`' := rfl
    rw [hhead] at hc
    rw [← Option.some.inj hc]
    rfl
  · intro c hc
    apply h.solid.last
    rw [← hc]
    unfold declared
    rw [List.getLast?_append_of_ne_nil _ h.nonempty]

theorem zoneArgument_none : zoneArgument none = [] := rfl

theorem zoneArgument_empty : zoneArgument (some []) = [] := rfl

theorem zoneArgument_cons (c : Char) (rest : Text) :
    zoneArgument (some (c :: rest)) = ", ".toList ++ literalOf (c :: rest) := by
  unfold zoneArgument literalOf
  simp

theorem render_dateTime64 (precision : ℕ) (tz : Option Text) :
    (Declaration.dateTime64 precision tz).render =
      call (Declaration.dateTime64 precision tz).head
        (join ", ".toList (Declaration.dateTime64 precision tz).arguments) := by
  unfold Declaration.head
  rw [Declaration.render]
  cases tz with
  | none => simp only [zoneArgument_none, List.append_nil, Declaration.arguments, join_one]
  | some zone =>
    cases zone with
    | nil => simp only [zoneArgument_empty, List.append_nil, Declaration.arguments, join_one]
    | cons c rest =>
      simp only [zoneArgument_cons, Declaration.arguments, join_two, List.append_assoc]

/-- A declaration is its head applied to its arguments. -/
theorem render_eq_call {d : Declaration} (h : ∀ name, d ≠ .scalar name) :
    d.render = call d.head (join ", ".toList d.arguments) := by
  cases d with
  | scalar name => exact absurd rfl (h name)
  | dateTime64 precision tz => exact render_dateTime64 _ _
  | decimal precision scale =>
    rw [Declaration.render, Declaration.arguments, join_two]
    rfl
  | nullable inner =>
    rw [Declaration.render, Declaration.arguments, join_one]
    rfl
  | array value =>
    rw [Declaration.render, Declaration.arguments, join_one]
    rfl
  | map key item =>
    rw [Declaration.render, Declaration.arguments, join_two]
    rfl
  | tuple fields =>
    rw [Declaration.render, Declaration.arguments]
    rfl

theorem isIdentifier_head {d : Declaration} (h : d.parseable = true) :
    isIdentifier d.head = true := by
  cases d with
  | scalar name =>
    rw [Declaration.parseable] at h
    exact h
  | _ => rfl

/-- A declaration is an argument when its own arguments are. -/
theorem argument_render_of_arguments {d : Declaration} (h : d.parseable = true)
    (harguments : ∀ p ∈ d.arguments, Argument p) : Argument d.render := by
  have hhead := isIdentifier_head h
  by_cases hscalar : ∃ name, d = .scalar name
  · obtain ⟨name, rfl⟩ := hscalar
    rw [Declaration.render]
    exact argument_identifier hhead
  · rw [render_eq_call fun name hname => hscalar ⟨name, hname⟩]
    exact argument_call hhead harguments

mutual

theorem argument_arguments {d : Declaration} (h : d.parseable = true) :
    ∀ p ∈ d.arguments, Argument p := by
  cases d with
  | scalar name => simp [Declaration.arguments]
  | dateTime64 precision tz =>
    rcases tz with _ | _ | ⟨c, rest⟩
    · simpa [Declaration.arguments] using argument_ofNat precision
    · simpa [Declaration.arguments] using argument_ofNat precision
    · rw [Declaration.parseable] at h
      simpa [Declaration.arguments] using ⟨argument_ofNat precision, argument_literal h⟩
  | decimal precision scale =>
    simpa [Declaration.arguments] using ⟨argument_ofNat precision, argument_ofInt scale⟩
  | nullable inner =>
    rw [Declaration.parseable] at h
    simpa [Declaration.arguments] using argument_render_of_arguments h (argument_arguments h)
  | array value =>
    rw [Declaration.parseable] at h
    simpa [Declaration.arguments] using argument_render_of_arguments h (argument_arguments h)
  | map key item =>
    rw [Declaration.parseable, Bool.and_eq_true] at h
    simpa [Declaration.arguments] using
      ⟨argument_render_of_arguments h.1 (argument_arguments h.1),
        argument_render_of_arguments h.2 (argument_arguments h.2)⟩
  | tuple fields =>
    rw [Declaration.parseable, Bool.and_eq_true] at h
    exact argument_fields h.2

theorem argument_fields {fields : DeclaredFields} (h : fields.parseable = true) :
    ∀ p ∈ fields.render, Argument p := by
  cases fields with
  | nil => simp [DeclaredFields.render]
  | cons name type rest =>
    rw [DeclaredFields.parseable, Bool.and_eq_true, Bool.and_eq_true] at h
    rw [DeclaredFields.render]
    intro p hp
    rcases List.mem_cons.mp hp with rfl | hp
    · exact argument_declared h.1.1
        (argument_render_of_arguments h.1.2 (argument_arguments h.1.2))
    · exact argument_fields h.2 p hp

end

theorem argument_render {d : Declaration} (h : d.parseable = true) : Argument d.render :=
  argument_render_of_arguments h (argument_arguments h)

theorem arguments_ne_nil {d : Declaration} (h : d.parseable = true)
    (hscalar : ∀ name, d ≠ .scalar name) : d.arguments ≠ [] := by
  cases d with
  | scalar name => exact absurd rfl (hscalar name)
  | dateTime64 precision tz =>
    rcases tz with _ | _ | ⟨c, rest⟩
    · simp [Declaration.arguments]
    · simp [Declaration.arguments]
    · simp [Declaration.arguments]
  | tuple fields =>
    rw [Declaration.parseable, Bool.and_eq_true, bne_iff_ne] at h
    cases fields with
    | nil => exact absurd rfl h.1
    | cons name type rest =>
      rw [Declaration.arguments, DeclaredFields.render]
      exact List.cons_ne_nil _ _
  | _ => simp [Declaration.arguments]

/-- A parseable declaration is read as its head and its arguments. -/
theorem parseType_render {d : Declaration} (h : d.parseable = true) :
    parseType d.render = .ok ⟨d.head, d.arguments⟩ := by
  have hargument := argument_identifier (isIdentifier_head h)
  have hopen : '(' ∉ d.head := isIdentifier_not_mem (isIdentifier_head h) (by decide)
  by_cases hscalar : ∃ name, d = .scalar name
  · obtain ⟨name, rfl⟩ := hscalar
    rw [Declaration.render]
    exact parseType_plain hargument.solid hargument.nonempty hopen
  · have hne : ∀ name, d ≠ .scalar name := fun name hname => hscalar ⟨name, hname⟩
    rw [render_eq_call hne, parseType_call hargument.solid hargument.nonempty hopen,
      splitTypeArguments_join (arguments_ne_nil h hne) (argument_arguments h)]
    rfl

end RayClickHouse.Ddl
