import RayClickHouse.Errors

/-!
Immutable configuration values. A qualified table and the resource limits carry
their validation, so a value that the constructors reject cannot be built.
-/
namespace RayClickHouse

open Text

/-- A Python object bound to a query parameter. -/
inductive Value
  | null
  | bool (b : Bool)
  | int (i : ℤ)
  | str (s : Text)
  | bytes (bs : List ℕ)
  | other (tag : ℕ)
  deriving DecidableEq, Repr

/-- Named values in insertion order, as a dict keeps them. -/
abbrev Bindings := List (Text × Value)

namespace Bindings

def names (values : Bindings) : List Text := values.map Prod.fst

def get? (values : Bindings) (name : Text) : Option Value := values.lookup name

def set (values : Bindings) (name : Text) (value : Value) : Bindings :=
  if name ∈ values.names then
    values.map (fun p => if p.1 = name then (name, value) else p)
  else values ++ [(name, value)]

def update (values : Bindings) (items : Bindings) : Bindings :=
  items.foldl (fun acc p => acc.set p.1 p.2) values

end Bindings

def clientPlaceholder (name : Text) : Text := "%(".toList ++ name ++ ")s".toList

def serverPlaceholder (name type : Text) : Text :=
  '{' :: name ++ ':' :: type ++ ['}']

def placeholder (native : Bool) (name type : Text) : Text :=
  if native then serverPlaceholder name type else clientPlaceholder name

/-- A column reference, quoted as it is. -/
def quoted (name : Text) : Text := '`' :: name ++ ['`']

inductive SplitMode
  | single
  | partition
  | range
  | auto
  deriving DecidableEq, Repr

inductive DiscoveryPolicy
  | single
  | error
  deriving DecidableEq, Repr

def validateIdentifier (value : Text) (name : String) : Outcome Text :=
  if isIdentifier value then .ok value
  else Outcome.raise .configuration s!"{name} must be a simple ClickHouse identifier"

def quotePart (value : Text) : Text :=
  "`".toList ++ value.flatMap (fun c => if c = '`' then ['`', '`'] else [c]) ++ "`".toList

structure QualifiedTable where
  database : Text
  table : Text
  database_valid : isIdentifier database = true
  table_valid : isIdentifier table = true

namespace QualifiedTable

def sql (t : QualifiedTable) : Text := quotePart t.database ++ ".".toList ++ quotePart t.table

end QualifiedTable

structure ClickHouseConnection where
  host : Text
  database : Text
  username : Text := "default".toList
  port : ℕ := 8123
  secure : Bool := false
  settings : Bindings := []
  host_nonempty : host ≠ []
  database_valid : isIdentifier database = true
  username_nonempty : username ≠ []
  port_bounds : 1 ≤ port ∧ port ≤ 65535

theorem defaultUsername_nonempty : "default".toList ≠ [] := by decide

theorem defaultPort_bounds : 1 ≤ 8123 ∧ 8123 ≤ 65535 := by decide

theorem defaultBatchRows_bounds : 1 ≤ 65536 ∧ 65536 ≤ 1000000 := by decide

theorem defaultBatchBytes_bounds :
    1 ≤ 64 * 1024 * 1024 ∧ 64 * 1024 * 1024 ≤ 1073741824 := by decide

theorem defaultQueryTimeout_bounds : (0 : ℚ) < 300 ∧ (300 : ℚ) ≤ 86400 := by norm_num

structure ResourceLimits where
  batchRows : ℕ := 65536
  batchBytes : ℕ := 64 * 1024 * 1024
  queryTimeoutSeconds : ℚ := 300
  batchRows_bounds : 1 ≤ batchRows ∧ batchRows ≤ 1000000 := by decide
  batchBytes_bounds : 1 ≤ batchBytes ∧ batchBytes ≤ 1073741824 := by decide
  queryTimeout_bounds : 0 < queryTimeoutSeconds ∧ queryTimeoutSeconds ≤ 86400 := by norm_num

inductive InsertMode
  | sync
  | async
  deriving DecidableEq, Repr

inductive WriteMode
  | append
  | create
  | overwrite
  deriving DecidableEq, Repr

structure WriteReceipt where
  rowsWritten : ℤ
  bytesWritten : ℤ
  batchesWritten : ℤ
  status : String := "confirmed"
  ambiguousBatches : ℤ := 0
  deriving DecidableEq, Repr

theorem validateIdentifier_eq_ok {value result : Text} {name : String}
    (h : validateIdentifier value name = .ok result) :
    result = value ∧ isIdentifier value = true := by
  unfold validateIdentifier at h
  split at h
  · rename_i hvalid
    exact ⟨(Except.ok.inj h).symm, hvalid⟩
  · simp [Outcome.raise] at h

theorem quotePart_of_isIdentifier {value : Text} (h : isIdentifier value = true) :
    quotePart value = "`".toList ++ value ++ "`".toList := by
  have hplain : ∀ s : Text, (∀ c ∈ s, isIdentPart c = true) →
      s.flatMap (fun c => if c = '`' then ['`', '`'] else [c]) = s := by
    intro s hs
    induction s with
    | nil => rfl
    | cons c rest ih =>
      have hc : c ≠ '`' := by
        rintro rfl
        have := hs '`' (List.mem_cons_self ..)
        simp [isIdentPart] at this
      simp only [List.flatMap_cons, if_neg hc, List.singleton_append,
        ih (fun d hd => hs d (List.mem_cons_of_mem _ hd))]
  unfold quotePart
  rw [hplain value (isIdentifier_mem h)]

namespace Bindings

@[simp] theorem names_set (values : Bindings) (name : Text) (value : Value) :
    (values.set name value).names =
      if name ∈ values.names then values.names else values.names ++ [name] := by
  unfold set
  split
  · simp only [names, List.map_map]
    apply List.map_congr_left
    intro p _
    simp only [Function.comp]
    split
    · rename_i h
      exact h.symm
    · rfl
  · simp [names]

theorem mem_names_set (values : Bindings) (name other : Text) (value : Value) :
    other ∈ (values.set name value).names ↔ other ∈ values.names ∨ other = name := by
  rw [names_set]
  split
  · rename_i h
    constructor
    · exact Or.inl
    · rintro (h' | rfl)
      · exact h'
      · exact h
  · simp

theorem mem_names_update (values items : Bindings) (other : Text) :
    other ∈ (values.update items).names ↔ other ∈ values.names ∨ other ∈ items.names := by
  unfold update
  induction items generalizing values with
  | nil => simp [names]
  | cons p rest ih =>
    rw [List.foldl_cons, ih, mem_names_set]
    simp only [names, List.map_cons, List.mem_cons]
    tauto

theorem get?_eq_none {values : Bindings} {name : Text} (h : name ∉ values.names) :
    values.get? name = none := by
  unfold get?
  rw [List.lookup_eq_none_iff]
  intro p hp
  have hne : p.1 ≠ name := by
    rintro rfl
    exact h (List.mem_map_of_mem hp)
  simpa using Ne.symm hne

/-- Reading a key after an assignment gives the assigned value there and the
old one elsewhere. -/
theorem get?_set (values : Bindings) (name other : Text) (value : Value) :
    (values.set name value).get? other =
      if other = name then some value else values.get? other := by
  unfold set
  split
  · rename_i hmem
    induction values with
    | nil => simp [names] at hmem
    | cons p rest ih =>
      obtain ⟨key, old⟩ := p
      by_cases hkey : key = name
      · subst hkey
        simp only [List.map_cons, if_true, get?, List.lookup_cons]
        by_cases ho : other = key
        · simp [ho]
        · have hb : (other == key) = false := by simpa using ho
          simp only [hb, if_neg ho]
          by_cases hin : key ∈ names rest
          · have h := ih hin
            rw [if_neg ho] at h
            exact h
          · have hsame : rest.map (fun p => if p.1 = key then (key, value) else p) = rest := by
              conv_rhs => rw [← List.map_id rest]
              apply List.map_congr_left
              intro p hp
              have : p.1 ≠ key := by
                rintro rfl
                exact hin (List.mem_map_of_mem hp)
              simp [this]
            rw [hsame]
      · have hin : name ∈ names rest := by
          have hmem' : name = key ∨ name ∈ names rest := by simpa [names] using hmem
          rcases hmem' with h | h
          · exact absurd h.symm hkey
          · exact h
        have h := ih hin
        simp only [List.map_cons, if_neg hkey, get?, List.lookup_cons]
        by_cases ho : other = key
        · subst ho
          simp [hkey]
        · have hb : (other == key) = false := by simpa using ho
          simp only [hb]
          exact h
  · rename_i hmem
    unfold get?
    rw [List.lookup_append]
    by_cases ho : other = name
    · subst ho
      have hnone := get?_eq_none hmem
      unfold get? at hnone
      simp [hnone, List.lookup]
    · have hb : (other == name) = false := by simpa using ho
      simp [List.lookup, hb, ho]

theorem get?_update_of_not_mem (values items : Bindings) {other : Text}
    (h : other ∉ items.names) : (values.update items).get? other = values.get? other := by
  unfold update
  induction items generalizing values with
  | nil => rfl
  | cons p rest ih =>
    have hne : other ≠ p.1 := by
      rintro rfl
      exact h (by simp [names])
    have hrest : other ∉ names rest := fun hin => h (by simpa [names] using Or.inr hin)
    rw [List.foldl_cons, ih _ hrest, get?_set, if_neg hne]

end Bindings

end RayClickHouse
