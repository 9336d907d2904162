import RayClickHouse.Models

/-!
Arrow data types, fields and schemas, as far as the connector tells them apart.
Integer types are shared with the declarations of ClickHouse, which name them by
sign and width.
-/
namespace RayClickHouse

inductive Width
  | w8
  | w16
  | w32
  | w64
  deriving DecidableEq, Repr

def Width.bits : Width → ℕ
  | w8 => 8
  | w16 => 16
  | w32 => 32
  | w64 => 64

structure IntegerType where
  signed : Bool
  width : Width
  deriving DecidableEq, Repr

namespace IntegerType

def name (t : IntegerType) : Text :=
  (if t.signed then "Int" else "UInt").toList ++ Text.ofNat t.width.bits

def lower (t : IntegerType) : ℤ := if t.signed then -2 ^ (t.width.bits - 1) else 0

def upper (t : IntegerType) : ℤ := 2 ^ (t.width.bits - (if t.signed then 1 else 0))

def Contains (t : IntegerType) (i : ℤ) : Prop := t.lower ≤ i ∧ i < t.upper

instance (t : IntegerType) (i : ℤ) : Decidable (t.Contains i) := by
  unfold Contains
  infer_instance

def all : List IntegerType :=
  [⟨true, .w8⟩, ⟨true, .w16⟩, ⟨true, .w32⟩, ⟨true, .w64⟩,
    ⟨false, .w8⟩, ⟨false, .w16⟩, ⟨false, .w32⟩, ⟨false, .w64⟩]

def ofName (name : Text) : Option IntegerType := all.find? (fun t => t.name = name)

theorem name_of_ofName {name : Text} {t : IntegerType} (h : ofName name = some t) :
    t.name = name := by
  simpa using List.find?_some h

end IntegerType

inductive TimeUnit
  | s
  | ms
  | us
  | ns
  deriving DecidableEq, Repr

mutual

inductive ArrowType
  | null
  | boolean
  | integer (type : IntegerType)
  | float16
  | float32
  | float64
  | string
  | largeString
  | binary
  | largeBinary
  | date32
  | timestamp (unit : TimeUnit) (tz : Option Text)
  | decimal (bits : ℕ) (precision : ℕ) (scale : ℤ)
  | list (value : ArrowType)
  | largeList (value : ArrowType)
  | map (key item : ArrowType)
  | struct (fields : ArrowFields)
  | dictionary (index : IntegerType) (value : ArrowType)
  | other (tag : ℕ)
  deriving DecidableEq, Repr

inductive ArrowFields
  | nil
  | cons (name : Text) (nullable : Bool) (type : ArrowType) (rest : ArrowFields)
  deriving DecidableEq, Repr

end

def ArrowFields.length : ArrowFields → ℕ
  | nil => 0
  | cons _ _ _ rest => rest.length + 1

mutual

/-- A cell: NULL, a value without parts, or the cells of a list, a map or a struct. -/
inductive ArrowValue
  | null
  | scalar (value : Value)
  | list (items : ArrowValues)
  | map (entries : ArrowEntries)
  | struct (fields : ArrowValues)
  deriving DecidableEq, Repr

inductive ArrowValues
  | nil
  | cons (value : ArrowValue) (rest : ArrowValues)
  deriving DecidableEq, Repr

inductive ArrowEntries
  | nil
  | cons (key item : ArrowValue) (rest : ArrowEntries)
  deriving DecidableEq, Repr

end

structure Field where
  name : Text
  type : ArrowType
  nullable : Bool := true
  deriving DecidableEq, Repr

abbrev ArrowSchema := List Field

namespace ArrowSchema

def names (schema : ArrowSchema) : List Text := schema.map Field.name

/-- The last field of a name, as a dict built from the fields keeps it. -/
def field? (schema : ArrowSchema) (name : Text) : Option Field :=
  schema.reverse.find? (fun f => f.name = name)

end ArrowSchema

end RayClickHouse
