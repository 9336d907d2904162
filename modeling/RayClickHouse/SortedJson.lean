import RayClickHouse.Json

/-!
Documents that are written with sorted keys and read back. The entries of every
mapping are rearranged, which neither a look-up nor a comparison sees.
-/
namespace RayClickHouse.Json

def insertField (field : Text × Json) : List (Text × Json) → List (Text × Json)
  | [] => [field]
  | other :: rest =>
      if field.1 ≤ other.1 then field :: other :: rest else other :: insertField field rest

def sortFields (fields : List (Text × Json)) : List (Text × Json) := fields.foldr insertField []

mutual

/-- What is read back after json.dumps with sort_keys. -/
def sorted : Json → Json
  | array items => array (sortedItems items)
  | object fields => object (sortFields (sortedFields fields))
  | a => a

def sortedItems : List Json → List Json
  | [] => []
  | item :: rest => sorted item :: sortedItems rest

def sortedFields : List (Text × Json) → List (Text × Json)
  | [] => []
  | (key, value) :: rest => (key, sorted value) :: sortedFields rest

end

theorem insertField_perm (field : Text × Json) (fields : List (Text × Json)) :
    (insertField field fields).Perm (field :: fields) := by
  induction fields with
  | nil => exact List.Perm.refl _
  | cons other rest ih =>
    by_cases hle : field.1 ≤ other.1
    · rw [insertField, if_pos hle]
    · rw [insertField, if_neg hle]
      exact (ih.cons other).trans (List.Perm.swap field other rest)

theorem sortFields_perm (fields : List (Text × Json)) : (sortFields fields).Perm fields := by
  induction fields with
  | nil => exact List.Perm.refl _
  | cons field rest ih => exact (insertField_perm field _).trans (ih.cons field)

theorem sortedItems_eq (items : List Json) : sortedItems items = items.map sorted := by
  induction items with
  | nil => rfl
  | cons item rest ih => rw [sortedItems, ih, List.map_cons]

theorem sortedFields_eq (fields : List (Text × Json)) :
    sortedFields fields = fields.map fun field => (field.1, sorted field.2) := by
  induction fields with
  | nil => rfl
  | cons field rest ih =>
    obtain ⟨key, value⟩ := field
    rw [sortedFields, ih, List.map_cons]

theorem keys_sorted (fields : List (Text × Json)) :
    (keys (sortFields (sortedFields fields))).Perm (keys fields) := by
  have hmap : keys (sortedFields fields) = keys fields := by
    simp only [keys, sortedFields_eq, List.map_map, Function.comp_def]
  have hperm := (sortFields_perm (sortedFields fields)).map Prod.fst
  rwa [← keys, ← keys, hmap] at hperm

theorem mem_sorted {field : Text × Json} {fields : List (Text × Json)} :
    field ∈ sortFields (sortedFields fields) ↔
      ∃ value, (field.1, value) ∈ fields ∧ sorted value = field.2 := by
  rw [(sortFields_perm _).mem_iff, sortedFields_eq, List.mem_map]
  constructor
  · rintro ⟨⟨key, value⟩, hmem, rfl⟩
    exact ⟨value, hmem, rfl⟩
  · rintro ⟨value, hmem, hvalue⟩
    exact ⟨_, hmem, Prod.ext rfl hvalue⟩

theorem distinct_sorted {a : Json} (h : distinct a = true) : distinct (sorted a) = true := by
  induction a using inductionOn with
  | scalar a hscalar =>
    cases a <;> first | rfl | contradiction
  | array items ih =>
    rw [distinct_array] at h
    rw [sorted, distinct_array, sortedItems_eq]
    intro item hitem
    obtain ⟨original, hmem, rfl⟩ := List.mem_map.mp hitem
    exact ih original hmem (h original hmem)
  | object fields ih =>
    obtain ⟨hkeys, hvalues⟩ := distinct_object.mp h
    refine distinct_object.mpr ⟨(keys_sorted fields).nodup_iff.mpr hkeys, ?_⟩
    intro field hfield
    obtain ⟨value, hmem, hvalue⟩ := mem_sorted.mp hfield
    rw [← hvalue]
    exact ih _ hmem (hvalues _ hmem)

theorem lookup_sorted {key : Text} {fields : List (Text × Json)} (h : (keys fields).Nodup) :
    lookup key (sortFields (sortedFields fields)) = (lookup key fields).map sorted := by
  have hnodup : (keys (sortFields (sortedFields fields))).Nodup :=
    (keys_sorted fields).nodup_iff.mpr h
  cases hfound : lookup key fields with
  | some value =>
    apply lookup_of_mem hnodup
    exact mem_sorted.mpr ⟨value, lookup_mem hfound, rfl⟩
  | none =>
    cases hother : lookup key (sortFields (sortedFields fields)) with
    | none => rfl
    | some value =>
      obtain ⟨original, hmem, -⟩ := mem_sorted.mp (lookup_mem hother)
      rw [lookup_of_mem h hmem] at hfound
      contradiction

/-- Writing a document and reading it back changes nothing that a comparison sees. -/
theorem eq_sorted {a b : Json} (hb : distinct b = true) (h : eq a b = true) :
    eq a (sorted b) = true := by
  induction a using inductionOn generalizing b with
  | scalar a hscalar =>
    have hsame : sorted b = b := by
      rcases (eq_scalar hscalar).mp h with ⟨rfl, -⟩ | ⟨x, -, -, hright⟩
      · cases a <;> first | rfl | contradiction
      · cases b <;> first | rfl | contradiction
    rwa [hsame]
  | array items ih =>
    obtain ⟨others, rfl, hitems⟩ := eq_array.mp h
    rw [distinct_array] at hb
    rw [sorted, sortedItems_eq]
    refine eq_array.mpr ⟨_, rfl, List.forall₂_map_right_iff.mpr (forall₂_of_mem hitems ?_)⟩
    intro item hitem other hother hsame
    exact ih item hitem (hb other hother) hsame
  | object fields ih =>
    obtain ⟨others, rfl, hlength, hfields⟩ := eq_object.mp h
    obtain ⟨hkeys, hvalues⟩ := distinct_object.mp hb
    refine eq_object.mpr ⟨_, rfl, ?_, ?_⟩
    · rw [(sortFields_perm _).length_eq, sortedFields_eq, List.length_map]
      exact hlength
    · intro field hfield
      obtain ⟨value, hvalue, hsame⟩ := hfields field hfield
      refine ⟨sorted value, ?_, ih field hfield (hvalues _ (lookup_mem hvalue)) hsame⟩
      rw [lookup_sorted hkeys, hvalue, Option.map_some]

theorem get_sorted {fields : List (Text × Json)} (h : (keys fields).Nodup) (key : String) :
    get (sortFields (sortedFields fields)) key = sorted (get fields key) := by
  unfold get
  rw [lookup_sorted h]
  cases lookup key.toList fields with
  | none => rfl
  | some value => rfl

end RayClickHouse.Json
