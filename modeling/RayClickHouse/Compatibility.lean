import RayClickHouse.TypeRoundTrip

/-!
When an Arrow type is compatible with a declaration, constructor by constructor:
the unwrapped declaration has one of a few names, and its arguments are
compatible with the children.
-/
namespace RayClickHouse.Schema

open Text TypeText

theorem bind_of_ok {ε α β : Type} {x : Except ε α} {a : α} (h : x = .ok a) (f : α → Except ε β) :
    (x >>= f) = f a := by
  rw [h]
  rfl

variable [UnicodeDatabase]

def compatibleWith (dtype : ArrowType) (name : Text) (arguments : List Text) : Outcome Bool :=
  if name ∈ textTypeNames then .ok (dtype == .string || dtype == .binary)
  else
    match IntegerType.ofName name with
    | some t => .ok (dtype == .integer t)
    | none =>
      if name = "Float32".toList then .ok (dtype == .float32)
      else if name = "Float64".toList then .ok (dtype == .float64)
      else if name = "Bool".toList then .ok (dtype == .boolean)
      else if name = "Date".toList ∨ name = "Date32".toList then .ok (dtype == .date32)
      else if name = "DateTime".toList ∨ name = "DateTime64".toList then
        match dtype with
        | .timestamp _ tz => .ok (tz == timestampTimezone ⟨name, arguments⟩)
        | _ => .ok false
      else if name = "Decimal".toList then
        match dtype with
        | .decimal _ precision scale => .ok (decimalMatches arguments precision scale)
        | _ => .ok false
      else if name = "Array".toList then
        match arguments, dtype with
        | [argument], .list value => arrowCompatible value argument
        | [argument], .largeList value => arrowCompatible value argument
        | _, _ => .ok false
      else if name = "Map".toList then
        match arguments, dtype with
        | [k, v], .map key item => do
            if ← arrowCompatible key k then arrowCompatible item v else .ok false
        | _, _ => .ok false
      else if name = "Tuple".toList then
        match dtype with
        | .struct fields =>
            if arguments.length = fields.length then fieldsCompatible fields arguments
            else .ok false
        | _ => .ok false
      else .ok false

/-- The recursive function on an unwrapped declaration, one constructor at a time: its
own equation is not generated, so each case is unfolded to the recursor. -/
theorem arrowCompatible_of_unwrap {dtype : ArrowType} {u name : Text} {nullable : Bool}
    {arguments : List Text} (h : unwrap u = .ok (⟨name, arguments⟩, nullable)) :
    arrowCompatible dtype u = compatibleWith dtype name arguments := by
  cases dtype
  all_goals
    delta arrowCompatible
    change (do let p ← unwrap u; _) = _
    refine (bind_of_ok h _).trans ?_
    rcases arguments with _ | ⟨a, _ | ⟨b, _ | ⟨c, more⟩⟩⟩
  all_goals first
    | rfl
    | unfold compatibleWith
      delta arrowCompatible fieldsCompatible
      rfl
theorem fieldsCompatible_cons {name : Text} {nullable : Bool} {type : ArrowType}
    {rest : ArrowFields} {argument : Text} {more : List Text} :
    fieldsCompatible (.cons name nullable type rest) (argument :: more) = .ok true ↔
      arrowCompatible type (tupleArgumentType argument) = .ok true ∧
        fieldsCompatible rest more = .ok true := by
  have heq : fieldsCompatible (.cons name nullable type rest) (argument :: more) =
      (do if ← arrowCompatible type (tupleArgumentType argument) then fieldsCompatible rest more
          else .ok false) := rfl
  rw [heq, Except.bind_eq_ok]
  constructor
  · rintro ⟨compatible, hcompatible, hrest⟩
    cases compatible with
    | true => exact ⟨hcompatible, hrest⟩
    | false => simp at hrest
  · rintro ⟨hcompatible, hrest⟩
    exact ⟨true, hcompatible, hrest⟩

def Compatible (dtype : ArrowType) (declared : Text) : Prop :=
  arrowCompatible dtype declared = .ok true

theorem arrowCompatible_of_error {dtype : ArrowType} {u : Text} {failure : Failure}
    (h : unwrap u = .error failure) : arrowCompatible dtype u = .error failure := by
  have hbind : ∀ f : ClickHouseType × Bool → Outcome Bool, (unwrap u >>= f) = .error failure := by
    intro f
    rw [h]
    rfl
  cases dtype
  all_goals
    delta arrowCompatible
    change (do let p ← unwrap u; _) = _
    exact hbind _

theorem compatible_iff {dtype : ArrowType} {u : Text} :
    Compatible dtype u ↔ ∃ name arguments nullable,
      unwrap u = .ok (⟨name, arguments⟩, nullable) ∧
        compatibleWith dtype name arguments = .ok true := by
  unfold Compatible
  constructor
  · intro h
    cases hunwrap : unwrap u with
    | error failure =>
      rw [arrowCompatible_of_error hunwrap] at h
      contradiction
    | ok p =>
      obtain ⟨⟨name, arguments⟩, nullable⟩ := p
      rw [arrowCompatible_of_unwrap hunwrap] at h
      exact ⟨name, arguments, nullable, rfl, h⟩
  · rintro ⟨name, arguments, nullable, hunwrap, h⟩
    rw [arrowCompatible_of_unwrap hunwrap]
    exact h

def declaredNames : ArrowType → List Text
  | .boolean => ["Bool".toList]
  | .integer type => [type.name]
  | .float32 => ["Float32".toList]
  | .float64 => ["Float64".toList]
  | .string | .binary => textTypeNames
  | .date32 => ["Date".toList, "Date32".toList]
  | .timestamp _ _ => ["DateTime".toList, "DateTime64".toList]
  | .decimal _ _ _ => ["Decimal".toList]
  | .list _ | .largeList _ => ["Array".toList]
  | .map _ _ => ["Map".toList]
  | .struct _ => ["Tuple".toList]
  | _ => []

section Constructors

variable {name : Text} {arguments : List Text} {dtype : ArrowType}

theorem compatibleWith_name (h : compatibleWith dtype name arguments = .ok true) :
    name ∈ declaredNames dtype := by
  have heq : ∀ {other : ArrowType}, (Except.ok (dtype == other) : Outcome Bool) = .ok true →
      dtype = other := by
    intro other hok
    exact beq_iff_eq.mp (Except.ok.inj hok)
  unfold compatibleWith at h
  by_cases htext : name ∈ textTypeNames
  · rw [if_pos htext] at h
    have hstring := Except.ok.inj h
    rw [Bool.or_eq_true, beq_iff_eq, beq_iff_eq] at hstring
    rcases hstring with rfl | rfl
    · exact htext
    · exact htext
  rw [if_neg htext] at h
  cases hinteger : IntegerType.ofName name with
  | some t =>
    rw [hinteger] at h
    rw [heq h, ← IntegerType.name_of_ofName hinteger]
    exact List.mem_singleton_self _
  | none =>
  rw [hinteger] at h
  simp only at h
  by_cases h32 : name = "Float32".toList
  · rw [if_pos h32] at h
    rw [heq h, h32]
    exact List.mem_singleton_self _
  rw [if_neg h32] at h
  by_cases h64 : name = "Float64".toList
  · rw [if_pos h64] at h
    rw [heq h, h64]
    exact List.mem_singleton_self _
  rw [if_neg h64] at h
  by_cases hbool : name = "Bool".toList
  · rw [if_pos hbool] at h
    rw [heq h, hbool]
    exact List.mem_singleton_self _
  rw [if_neg hbool] at h
  by_cases hdate : name = "Date".toList ∨ name = "Date32".toList
  · rw [if_pos hdate] at h
    rw [heq h]
    simpa only [declaredNames, List.mem_cons, List.not_mem_nil, or_false] using hdate
  rw [if_neg hdate] at h
  by_cases htime : name = "DateTime".toList ∨ name = "DateTime64".toList
  · rw [if_pos htime] at h
    split at h
    · simpa only [declaredNames, List.mem_cons, List.not_mem_nil, or_false] using htime
    · contradiction
  rw [if_neg htime] at h
  by_cases hdecimal : name = "Decimal".toList
  · rw [if_pos hdecimal] at h
    split at h
    · rw [hdecimal]
      exact List.mem_singleton_self _
    · contradiction
  rw [if_neg hdecimal] at h
  by_cases harray : name = "Array".toList
  · rw [if_pos harray] at h
    split at h
    · rw [harray]
      exact List.mem_singleton_self _
    · rw [harray]
      exact List.mem_singleton_self _
    · contradiction
  rw [if_neg harray] at h
  by_cases hmap : name = "Map".toList
  · rw [if_pos hmap] at h
    split at h
    · rw [hmap]
      exact List.mem_singleton_self _
    · contradiction
  rw [if_neg hmap] at h
  by_cases htuple : name = "Tuple".toList
  · rw [if_pos htuple] at h
    split at h
    · rw [htuple]
      exact List.mem_singleton_self _
    · contradiction
  rw [if_neg htuple] at h
  contradiction

theorem compatibleWith_list {value : ArrowType} :
    compatibleWith (.list value) name arguments = .ok true ↔
      name = "Array".toList ∧ ∃ argument, arguments = [argument] ∧ Compatible value argument := by
  constructor
  · intro h
    obtain rfl := List.mem_singleton.mp (compatibleWith_name h)
    refine ⟨rfl, ?_⟩
    rcases arguments with _ | ⟨argument, _ | ⟨other, more⟩⟩
    · exact absurd (Except.ok.inj h) (by decide)
    · exact ⟨argument, rfl, h⟩
    · exact absurd (Except.ok.inj h) (by decide)
  · rintro ⟨rfl, argument, rfl, h⟩
    exact h

theorem compatibleWith_largeList {value : ArrowType} :
    compatibleWith (.largeList value) name arguments = .ok true ↔
      name = "Array".toList ∧ ∃ argument, arguments = [argument] ∧ Compatible value argument := by
  constructor
  · intro h
    obtain rfl := List.mem_singleton.mp (compatibleWith_name h)
    refine ⟨rfl, ?_⟩
    rcases arguments with _ | ⟨argument, _ | ⟨other, more⟩⟩
    · exact absurd (Except.ok.inj h) (by decide)
    · exact ⟨argument, rfl, h⟩
    · exact absurd (Except.ok.inj h) (by decide)
  · rintro ⟨rfl, argument, rfl, h⟩
    exact h

theorem compatibleWith_map {key item : ArrowType} :
    compatibleWith (.map key item) name arguments = .ok true ↔
      name = "Map".toList ∧ ∃ k v, arguments = [k, v] ∧ Compatible key k ∧ Compatible item v := by
  have hpair : ∀ k v, compatibleWith (.map key item) "Map".toList [k, v] = .ok true ↔
      Compatible key k ∧ Compatible item v := by
    intro k v
    change (do if ← arrowCompatible key k then arrowCompatible item v else .ok false) = _ ↔ _
    rw [Except.bind_eq_ok]
    constructor
    · rintro ⟨compatible, hk, hv⟩
      cases compatible with
      | true => exact ⟨hk, hv⟩
      | false => exact absurd (Except.ok.inj hv) Bool.false_ne_true
    · rintro ⟨hk, hv⟩
      exact ⟨true, hk, hv⟩
  constructor
  · intro h
    obtain rfl := List.mem_singleton.mp (compatibleWith_name h)
    refine ⟨rfl, ?_⟩
    rcases arguments with _ | ⟨k, _ | ⟨v, _ | ⟨other, more⟩⟩⟩
    · exact absurd (Except.ok.inj h) (by decide)
    · exact absurd (Except.ok.inj h) (by decide)
    · exact ⟨k, v, rfl, (hpair k v).mp h⟩
    · exact absurd (Except.ok.inj h) (by decide)
  · rintro ⟨rfl, k, v, rfl, h⟩
    exact (hpair k v).mpr h

theorem compatibleWith_struct {fields : ArrowFields} :
    compatibleWith (.struct fields) name arguments = .ok true ↔
      name = "Tuple".toList ∧ arguments.length = fields.length ∧
        fieldsCompatible fields arguments = .ok true := by
  have htuple : compatibleWith (.struct fields) "Tuple".toList arguments =
      if arguments.length = fields.length then fieldsCompatible fields arguments else .ok false :=
    rfl
  constructor
  · intro h
    obtain rfl := List.mem_singleton.mp (compatibleWith_name h)
    rw [htuple] at h
    split at h
    · rename_i hlength
      exact ⟨rfl, hlength, h⟩
    · contradiction
  · rintro ⟨rfl, hlength, h⟩
    rw [htuple, if_pos hlength]
    exact h

theorem compatibleWith_timestamp {unit : TimeUnit} {tz : Option Text} :
    compatibleWith (.timestamp unit tz) name arguments = .ok true ↔
      (name = "DateTime".toList ∨ name = "DateTime64".toList) ∧
        tz = timestampTimezone ⟨name, arguments⟩ := by
  have heq : name = "DateTime".toList ∨ name = "DateTime64".toList →
      compatibleWith (.timestamp unit tz) name arguments =
        .ok (tz == timestampTimezone ⟨name, arguments⟩) := by
    rintro (rfl | rfl)
    · rfl
    · rfl
  constructor
  · intro h
    have hname : name = "DateTime".toList ∨ name = "DateTime64".toList := by
      simpa only [declaredNames, List.mem_cons, List.not_mem_nil, or_false] using
        compatibleWith_name h
    rw [heq hname] at h
    exact ⟨hname, beq_iff_eq.mp (Except.ok.inj h)⟩
  · rintro ⟨hname, h⟩
    rw [heq hname, beq_iff_eq.mpr h]

theorem compatibleWith_decimal {bits precision : ℕ} {scale : ℤ} :
    compatibleWith (.decimal bits precision scale) name arguments = .ok true ↔
      name = "Decimal".toList ∧ decimalMatches arguments precision scale = true := by
  have hdecimal : compatibleWith (.decimal bits precision scale) "Decimal".toList arguments =
      .ok (decimalMatches arguments precision scale) := rfl
  constructor
  · intro h
    obtain rfl := List.mem_singleton.mp (compatibleWith_name h)
    rw [hdecimal] at h
    exact ⟨rfl, Except.ok.inj h⟩
  · rintro ⟨rfl, h⟩
    rw [hdecimal, h]

end Constructors

end RayClickHouse.Schema
