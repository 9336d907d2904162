import RayClickHouse.Pointwise
import RayClickHouse.Text

/-!
Decoded JSON documents, compared as Python compares them: the order of a
mapping's entries is irrelevant, truth values and floating point numbers are
compared by their numeric value, and a number that is not one equals nothing.
On documents whose mappings have distinct keys, as a decoder builds them, this
is a symmetric and transitive relation, so being identical or equal is an
equivalence.
-/
namespace RayClickHouse

/-- A floating point number: an exact value, an infinity, or not a number. -/
inductive Numeric
  | finite (value : ℚ)
  | infinite (negative : Bool)
  | nan
  deriving DecidableEq

namespace Numeric

def eq : Numeric → Numeric → Bool
  | .nan, _ => false
  | a, b => decide (a = b)

theorem eq_iff {a b : Numeric} : a.eq b = true ↔ a = b ∧ a ≠ .nan := by
  cases a with
  | nan => simp [eq]
  | finite q => simp [eq]
  | infinite n => simp [eq]

end Numeric

inductive Json
  | null
  | bool (b : Bool)
  | int (n : ℤ)
  | float (x : Numeric)
  | str (s : Text)
  | array (items : List Json)
  | object (fields : List (Text × Json))

namespace Json

def lookup (key : Text) : List (Text × Json) → Option Json
  | [] => none
  | (k, v) :: rest => if k = key then some v else lookup key rest

def keys (fields : List (Text × Json)) : List Text := fields.map Prod.fst

def numeric : Json → Option Numeric
  | bool b => some (.finite (if b then 1 else 0))
  | int n => some (.finite n)
  | float x => some x
  | _ => none

mutual

def eq : Json → Json → Bool
  | null, null => true
  | str a, str b => decide (a = b)
  | array a, array b => eqItems a b
  | object a, object b => decide (a.length = b.length) && eqFields a b
  | a, b =>
      match numeric a, numeric b with
      | some x, some y => x.eq y
      | _, _ => false

def eqItems : List Json → List Json → Bool
  | [], [] => true
  | a :: as, b :: bs => eq a b && eqItems as bs
  | _, _ => false

def eqFields : List (Text × Json) → List (Text × Json) → Bool
  | [], _ => true
  | (k, v) :: rest, other =>
      (match lookup k other with
        | some w => eq v w
        | none => false) && eqFields rest other

end

mutual

def distinct : Json → Bool
  | array items => distinctItems items
  | object fields => decide (keys fields).Nodup && distinctFields fields
  | _ => true

def distinctItems : List Json → Bool
  | [] => true
  | item :: rest => distinct item && distinctItems rest

def distinctFields : List (Text × Json) → Bool
  | [] => true
  | (_, value) :: rest => distinct value && distinctFields rest

end

def isScalar : Json → Bool
  | array _ => false
  | object _ => false
  | _ => true

/-- What holds of every list and mapping whose parts it holds of, and of the rest, holds. -/
@[elab_as_elim]
theorem inductionOn {motive : Json → Prop} (document : Json)
    (scalar : ∀ a, isScalar a = true → motive a)
    (array : ∀ items, (∀ item ∈ items, motive item) → motive (array items))
    (object : ∀ fields, (∀ field ∈ fields, motive field.2) → motive (object fields)) :
    motive document := by
  refine @Json.rec motive (fun items => ∀ item ∈ items, motive item)
    (fun fields => ∀ field ∈ fields, motive field.2) (fun field => motive field.2)
    (scalar _ rfl) (fun _ => scalar _ rfl) (fun _ => scalar _ rfl) (fun _ => scalar _ rfl)
    (fun _ => scalar _ rfl) array object ?_ ?_ ?_ ?_ ?_ document
  · exact fun item hmem => absurd hmem List.not_mem_nil
  · intro item items hitem hitems
    exact List.forall_mem_cons.mpr ⟨hitem, hitems⟩
  · exact fun field hmem => absurd hmem List.not_mem_nil
  · intro field fields hfield hfields
    exact List.forall_mem_cons.mpr ⟨hfield, hfields⟩
  · exact fun _ _ hvalue => hvalue

theorem lookup_mem {key : Text} {fields : List (Text × Json)} {value : Json}
    (h : lookup key fields = some value) : (key, value) ∈ fields := by
  induction fields with
  | nil => simp [lookup] at h
  | cons field rest ih =>
    obtain ⟨k, v⟩ := field
    by_cases hkey : k = key
    · rw [lookup, if_pos hkey] at h
      cases h
      rw [hkey]
      exact List.mem_cons_self ..
    · rw [lookup, if_neg hkey] at h
      exact List.mem_cons_of_mem _ (ih h)

theorem lookup_of_mem {key : Text} {fields : List (Text × Json)} {value : Json}
    (hdistinct : (keys fields).Nodup) (h : (key, value) ∈ fields) :
    lookup key fields = some value := by
  induction fields with
  | nil => simp at h
  | cons field rest ih =>
    obtain ⟨k, v⟩ := field
    simp only [keys, List.map_cons, List.nodup_cons] at hdistinct
    rcases List.mem_cons.mp h with heq | hmem
    · cases heq
      rw [lookup, if_pos rfl]
    · have hne : k ≠ key := by
        rintro rfl
        exact hdistinct.1 (List.mem_map.mpr ⟨_, hmem, rfl⟩)
      rw [lookup, if_neg hne]
      exact ih hdistinct.2 hmem

section Equations

theorem eq_objects (as bs : List (Text × Json)) :
    eq (object as) (object bs) = (decide (as.length = bs.length) && eqFields as bs) := rfl

theorem eqItems_cons (a b : Json) (as bs : List Json) :
    eqItems (a :: as) (b :: bs) = (eq a b && eqItems as bs) := rfl

theorem eqFields_cons (field : Text × Json) (rest other : List (Text × Json)) :
    eqFields (field :: rest) other =
      ((lookup field.1 other).any (eq field.2) && eqFields rest other) := by
  obtain ⟨k, v⟩ := field
  rw [eqFields]
  cases lookup k other <;> rfl

theorem distinctItems_cons (item : Json) (rest : List Json) :
    distinctItems (item :: rest) = (distinct item && distinctItems rest) := rfl

theorem distinctFields_cons (field : Text × Json) (rest : List (Text × Json)) :
    distinctFields (field :: rest) = (distinct field.2 && distinctFields rest) := rfl

end Equations

theorem eqItems_iff {as bs : List Json} :
    eqItems as bs = true ↔ List.Forall₂ (fun a b => eq a b = true) as bs := by
  induction as generalizing bs with
  | nil =>
    cases bs with
    | nil => exact ⟨fun _ => .nil, fun _ => rfl⟩
    | cons b bs => exact ⟨fun h => absurd h Bool.false_ne_true, fun h => by cases h⟩
  | cons a as ih =>
    cases bs with
    | nil => exact ⟨fun h => absurd h Bool.false_ne_true, fun h => by cases h⟩
    | cons b bs => rw [eqItems_cons, Bool.and_eq_true, ih, List.forall₂_cons]

theorem eqFields_iff {as bs : List (Text × Json)} :
    eqFields as bs = true ↔
      ∀ field ∈ as, ∃ value, lookup field.1 bs = some value ∧ eq field.2 value = true := by
  induction as with
  | nil => exact ⟨fun _ field hmem => absurd hmem List.not_mem_nil, fun _ => rfl⟩
  | cons field rest ih =>
    rw [eqFields_cons, Bool.and_eq_true, ih, List.forall_mem_cons, Option.any_eq_true]

theorem distinctItems_iff {items : List Json} :
    distinctItems items = true ↔ ∀ item ∈ items, distinct item = true := by
  induction items with
  | nil => exact ⟨fun _ item hmem => absurd hmem List.not_mem_nil, fun _ => rfl⟩
  | cons item rest ih => rw [distinctItems_cons, Bool.and_eq_true, ih, List.forall_mem_cons]

theorem distinctFields_iff {fields : List (Text × Json)} :
    distinctFields fields = true ↔ ∀ field ∈ fields, distinct field.2 = true := by
  induction fields with
  | nil => exact ⟨fun _ field hmem => absurd hmem List.not_mem_nil, fun _ => rfl⟩
  | cons field rest ih =>
    rw [distinctFields_cons, Bool.and_eq_true, ih, List.forall_mem_cons]

/-- Two values that are numbers, and no two lists or mappings, are compared as numbers. -/
theorem eq_numbers {a b : Json} {x y : Numeric} (ha : numeric a = some x)
    (hb : numeric b = some y) : eq a b = x.eq y := by
  cases a <;> cases b <;> simp only [numeric, Option.some.injEq, reduceCtorEq] at ha hb <;>
    rw [← ha, ← hb] <;> rfl

theorem eq_array {as : List Json} {b : Json} :
    eq (array as) b = true ↔
      ∃ bs, b = array bs ∧ List.Forall₂ (fun a b => eq a b = true) as bs := by
  constructor
  · intro h
    cases b with
    | array bs => exact ⟨bs, rfl, eqItems_iff.mp h⟩
    | _ => exact absurd h Bool.false_ne_true
  · rintro ⟨bs, rfl, h⟩
    exact eqItems_iff.mpr h

theorem eq_object {as : List (Text × Json)} {b : Json} :
    eq (object as) b = true ↔ ∃ bs, b = object bs ∧ as.length = bs.length ∧
      ∀ field ∈ as, ∃ value, lookup field.1 bs = some value ∧ eq field.2 value = true := by
  constructor
  · intro h
    cases b with
    | object bs =>
      rw [eq_objects, Bool.and_eq_true, decide_eq_true_iff, eqFields_iff] at h
      exact ⟨bs, rfl, h⟩
    | _ => exact absurd h Bool.false_ne_true
  · rintro ⟨bs, rfl, h⟩
    rw [eq_objects, Bool.and_eq_true, decide_eq_true_iff, eqFields_iff]
    exact h

theorem eq_of_numeric {a b : Json} {x : Numeric} (hx : x ≠ .nan) (ha : numeric a = some x)
    (hb : numeric b = some x) : eq a b = true := by
  rw [eq_numbers ha hb]
  exact Numeric.eq_iff.mpr ⟨rfl, hx⟩

/-- A scalar equals itself, or numbers of its value. -/
theorem eq_scalar {a b : Json} (ha : isScalar a = true) :
    eq a b = true ↔ (a = b ∧ numeric a = none) ∨
      ∃ x, x ≠ .nan ∧ numeric a = some x ∧ numeric b = some x := by
  cases a <;> cases b <;> grind [isScalar, eq, numeric, Numeric.eq_iff]

theorem distinct_array {items : List Json} :
    distinct (array items) = true ↔ ∀ item ∈ items, distinct item = true := distinctItems_iff

theorem distinct_object {fields : List (Text × Json)} :
    distinct (object fields) = true ↔
      (keys fields).Nodup ∧ ∀ field ∈ fields, distinct field.2 = true := by
  change (decide (keys fields).Nodup && distinctFields fields) = true ↔ _
  rw [Bool.and_eq_true, decide_eq_true_iff, distinctFields_iff]

/-- Equal mappings have the same keys, since neither has a key twice. -/
theorem keys_subset {as bs : List (Text × Json)} (ha : (keys as).Nodup)
    (hlength : as.length = bs.length) (hsub : keys as ⊆ keys bs) : keys bs ⊆ keys as := by
  have hperm : (keys as).Perm (keys bs) := by
    apply (ha.subperm hsub).perm_of_length_le
    simp only [keys, List.length_map]
    omega
  exact hperm.symm.subset

theorem eq_symm {a b : Json} (ha : distinct a = true) (hb : distinct b = true)
    (h : eq a b = true) : eq b a = true := by
  induction a using inductionOn generalizing b with
  | scalar a hscalar =>
    rcases (eq_scalar hscalar).mp h with ⟨rfl, -⟩ | ⟨x, hx, hleft, hright⟩
    · exact h
    · exact eq_of_numeric hx hright hleft
  | array items ih =>
    obtain ⟨others, rfl, hitems⟩ := eq_array.mp h
    rw [distinct_array] at ha hb
    refine eq_array.mpr ⟨items, rfl, List.Forall₂.flip (forall₂_of_mem hitems ?_)⟩
    intro item hitem other hother hsame
    exact ih item hitem (ha item hitem) (hb other hother) hsame
  | object fields ih =>
    obtain ⟨others, rfl, hlength, hfields⟩ := eq_object.mp h
    obtain ⟨hkeys, hvalues⟩ := distinct_object.mp ha
    obtain ⟨hkeys', hvalues'⟩ := distinct_object.mp hb
    have hsub : keys fields ⊆ keys others := by
      intro key hkey
      obtain ⟨field, hfield, rfl⟩ := List.mem_map.mp hkey
      obtain ⟨value, hvalue, -⟩ := hfields field hfield
      exact List.mem_map.mpr ⟨_, lookup_mem hvalue, rfl⟩
    refine eq_object.mpr ⟨fields, rfl, hlength.symm, ?_⟩
    intro other hother
    have hkey : other.1 ∈ keys fields :=
      keys_subset hkeys hlength hsub (List.mem_map.mpr ⟨other, hother, rfl⟩)
    obtain ⟨field, hfield, hsamekey⟩ := List.mem_map.mp hkey
    obtain ⟨value, hvalue, hsame⟩ := hfields field hfield
    have hfound : lookup other.1 others = some other.2 := lookup_of_mem hkeys' hother
    rw [hsamekey, hfound, Option.some.injEq] at hvalue
    rw [← hvalue] at hsame
    refine ⟨field.2, ?_, ih field hfield (hvalues field hfield) (hvalues' other hother) hsame⟩
    rw [← hsamekey]
    exact lookup_of_mem hkeys hfield

theorem eq_trans {a b c : Json} (hab : eq a b = true) (hbc : eq b c = true) : eq a c = true := by
  induction a using inductionOn generalizing b c with
  | scalar a hscalar =>
    rcases (eq_scalar hscalar).mp hab with ⟨rfl, -⟩ | ⟨x, hx, hleft, hright⟩
    · exact hbc
    · have hscalar' : isScalar b = true := by
        cases b <;> simp_all [numeric, isScalar]
      rcases (eq_scalar hscalar').mp hbc with ⟨-, hnone⟩ | ⟨y, -, hmiddle, hlast⟩
      · rw [hnone] at hright
        contradiction
      · rw [hright, Option.some.injEq] at hmiddle
        rw [← hmiddle] at hlast
        exact eq_of_numeric hx hleft hlast
  | array items ih =>
    obtain ⟨others, rfl, hitems⟩ := eq_array.mp hab
    obtain ⟨more, rfl, hothers⟩ := eq_array.mp hbc
    refine eq_array.mpr ⟨more, rfl, forall₂_comp hitems hothers ?_⟩
    exact fun item hitem _ _ => ih item hitem
  | object fields ih =>
    obtain ⟨others, rfl, hlength, hfields⟩ := eq_object.mp hab
    obtain ⟨more, rfl, hlength', hothers⟩ := eq_object.mp hbc
    refine eq_object.mpr ⟨more, rfl, hlength.trans hlength', ?_⟩
    intro field hfield
    obtain ⟨value, hvalue, hsame⟩ := hfields field hfield
    obtain ⟨last, hlast, hsame'⟩ := hothers _ (lookup_mem hvalue)
    exact ⟨last, hlast, ih field hfield hsame hsame'⟩

/-- Identical or equal, as a container compares its elements. -/
def Alike (a b : Json) : Prop := a = b ∨ eq a b = true

theorem Alike.symm {a b : Json} (ha : distinct a = true) (hb : distinct b = true)
    (h : Alike a b) : Alike b a := by
  rcases h with rfl | h
  · exact Or.inl rfl
  · exact Or.inr (eq_symm ha hb h)

theorem Alike.trans {a b c : Json} (hab : Alike a b) (hbc : Alike b c) : Alike a c := by
  rcases hab with rfl | hab
  · exact hbc
  · rcases hbc with rfl | hbc
    · exact Or.inr hab
    · exact Or.inr (eq_trans hab hbc)

/-- dict.get: null stands for a missing entry. -/
def get (fields : List (Text × Json)) (key : String) : Json :=
  (lookup key.toList fields).getD null

theorem distinct_get {fields : List (Text × Json)} (h : distinct (object fields) = true)
    (key : String) : distinct (get fields key) = true := by
  unfold get
  cases hvalue : lookup key.toList fields with
  | none => rfl
  | some value => exact (distinct_object.mp h).2 _ (lookup_mem hvalue)

end Json

end RayClickHouse
