import RayClickHouse.Ddl

/-!
The declaration of an Arrow type as a tree. The generated text is the rendering
of that tree, so what a statement declares can be said without reading it back.
-/
namespace RayClickHouse.Ddl

open Text TypeText Schema

mutual

inductive Declaration
  | scalar (name : Text)
  | dateTime64 (precision : ℕ) (tz : Option Text)
  | decimal (precision : ℕ) (scale : ℤ)
  | nullable (inner : Declaration)
  | array (value : Declaration)
  | map (key item : Declaration)
  | tuple (fields : DeclaredFields)
  deriving DecidableEq, Repr

inductive DeclaredFields
  | nil
  | cons (name : Text) (type : Declaration) (rest : DeclaredFields)
  deriving DecidableEq, Repr

end

def zoneArgument : Option Text → Text
  | some (c :: rest) => ", '".toList ++ (c :: rest) ++ "'".toList
  | _ => []

mutual

def Declaration.render : Declaration → Text
  | .scalar name => name
  | .dateTime64 precision tz => call "DateTime64".toList (ofNat precision ++ zoneArgument tz)
  | .decimal precision scale =>
      call "Decimal".toList (ofNat precision ++ ", ".toList ++ ofInt scale)
  | .nullable inner => call "Nullable".toList inner.render
  | .array value => call "Array".toList value.render
  | .map key item => call "Map".toList (key.render ++ ", ".toList ++ item.render)
  | .tuple fields => call "Tuple".toList (join ", ".toList fields.render)

def DeclaredFields.render : DeclaredFields → List Text
  | .nil => []
  | .cons name type rest => (quoted name ++ " ".toList ++ type.render) :: rest.render

end

def nullableDeclaration (nullable : Bool) (d : Declaration) : Declaration :=
  if nullable then .nullable d else d

mutual

def declarationOf : ArrowType → Outcome Declaration
  | .boolean => .ok (.scalar "Bool".toList)
  | .integer type => .ok (.scalar type.name)
  | .float32 => .ok (.scalar "Float32".toList)
  | .float64 => .ok (.scalar "Float64".toList)
  | .string => .ok (.scalar "String".toList)
  | .largeString => .ok (.scalar "String".toList)
  | .binary | .largeBinary =>
      Outcome.raise .schema "Arrow binary types require an explicit ClickHouse mapping"
  | .date32 => .ok (.scalar "Date".toList)
  | .timestamp unit tz => .ok (.dateTime64 (timestampPrecision unit) tz)
  | .decimal _ precision scale => .ok (.decimal precision scale)
  | .list value | .largeList value => do
      let inner ← declarationOf value
      .ok (.array inner)
  | .map key item => do
      let keyType ← declarationOf key
      let itemType ← declarationOf item
      .ok (.map keyType itemType)
  | .struct fields => do
      let parts ← declaredFields fields
      .ok (.tuple parts)
  | .null | .float16 | .dictionary _ _ | .other _ =>
      Outcome.raise .schema "Arrow type cannot be mapped to ClickHouse safely"

def declaredFields : ArrowFields → Outcome DeclaredFields
  | .nil => .ok .nil
  | .cons name nullable type rest => do
      let valid ← validateIdentifier name "nested field"
      let value ← declarationOf type
      let more ← declaredFields rest
      .ok (.cons valid (nullableDeclaration nullable value) more)

end

theorem render_nullableDeclaration (nullable : Bool) (d : Declaration) :
    (nullableDeclaration nullable d).render =
      if nullable then nullableType d.render else d.render := by
  cases nullable with
  | false => rfl
  | true =>
    simp only [nullableDeclaration, if_true, nullableType]
    rw [Declaration.render]

theorem timestampType_eq (unit : TimeUnit) (tz : Option Text) :
    timestampType unit tz = (Declaration.dateTime64 (timestampPrecision unit) tz).render := by
  rw [Declaration.render]
  unfold timestampType zoneArgument
  rcases tz with _ | _ | ⟨c, rest⟩ <;> rfl

mutual

theorem arrowType_eq (type : ArrowType) :
    arrowType type = (declarationOf type).map Declaration.render := by
  cases type with
  | timestamp unit tz =>
    rw [arrowType, declarationOf, timestampType_eq]
    rfl
  | list value =>
    rw [arrowType, declarationOf, arrowType_eq value]
    cases declarationOf value with
    | error failure => rfl
    | ok inner => simp [bind, Except.bind, Except.map, Declaration.render]
  | largeList value =>
    rw [arrowType, declarationOf, arrowType_eq value]
    cases declarationOf value with
    | error failure => rfl
    | ok inner => simp [bind, Except.bind, Except.map, Declaration.render]
  | map key item =>
    rw [arrowType, declarationOf, arrowType_eq key, arrowType_eq item]
    cases declarationOf key with
    | error failure => rfl
    | ok keyType =>
      cases declarationOf item with
      | error failure => rfl
      | ok itemType => simp [bind, Except.bind, Except.map, Declaration.render]
  | struct fields =>
    rw [arrowType, declarationOf, nestedFields_eq fields]
    cases declaredFields fields with
    | error failure => rfl
    | ok parts => simp [bind, Except.bind, Except.map, Declaration.render]
  | _ => simp [arrowType, declarationOf, Except.map, Outcome.raise, Declaration.render]

theorem nestedFields_eq (fields : ArrowFields) :
    nestedFields fields = (declaredFields fields).map DeclaredFields.render := by
  cases fields with
  | nil =>
    rw [nestedFields, declaredFields]
    rfl
  | cons name nullable type rest =>
    rw [nestedFields, declaredFields, arrowType_eq type, nestedFields_eq rest]
    unfold quoteIdentifier
    cases validateIdentifier name "nested field" with
    | error failure => rfl
    | ok valid =>
      cases declarationOf type with
      | error failure => rfl
      | ok value =>
        cases declaredFields rest with
        | error failure => rfl
        | ok more =>
          simp only [bind, Except.bind, Except.map, DeclaredFields.render,
            render_nullableDeclaration]

end

def columnDeclaration (nullable : List Text) (field : Field) : Outcome Declaration := do
  let d ← declarationOf field.type
  .ok (nullableDeclaration (decide (field.name ∈ nullable)) d)

theorem declareColumn_eq_ok {nullable : List Text} {field : Field} {column : Text × Text} :
    declareColumn nullable field = .ok column ↔
      isIdentifier field.name = true ∧
        ∃ d, columnDeclaration nullable field = .ok d ∧ column = (field.name, d.render) := by
  unfold declareColumn validateIdentifier arrowFieldType columnDeclaration
  rw [arrowType_eq]
  by_cases hname : isIdentifier field.name = true
  · cases declarationOf field.type with
    | error failure => simp [hname, bind, Except.bind, Except.map]
    | ok d =>
      simp only [hname, if_true, bind, Except.bind, Except.map, true_and, Except.ok.injEq,
        exists_eq_left', render_nullableDeclaration, decide_eq_true_eq]
      exact eq_comm
  · simp [hname, bind, Except.bind, Outcome.raise]

structure Creation (table : QualifiedTable) (schema : ArrowSchema) (engine : Text)
    (orderBy nullableColumns : Option (List Text)) (statement : CreateTable)
    (declarations : List Declaration) (order : Text) : Prop where
  nonempty : schema ≠ []
  nullable_mem : ∀ n ∈ nullableColumns.getD [], n ∈ schema.names
  identifiers : ∀ field ∈ schema, isIdentifier field.name = true
  declared : List.Forall₂ (fun field d => columnDeclaration (nullableColumns.getD []) field = .ok d)
    schema declarations
  columns : statement.columns = schema.names.zip (declarations.map Declaration.render)
  keys : ∀ k ∈ orderBy.getD (defaultOrderBy schema), k ∈ schema.names
  ordered : renderOrderBy (orderBy.getD (defaultOrderBy schema)) = .ok order
  engine_eq : statement.engine = engine
  sql : statement.sql = createText table statement.columns engine order
    ((orderBy.getD (defaultOrderBy schema)).any (· ∈ nullableColumns.getD []))

theorem declareColumns_eq_ok {nullable : List Text} {schema : ArrowSchema}
    {columns : List (Text × Text)} (h : schema.mapM (declareColumn nullable) = .ok columns) :
    ∃ declarations,
      List.Forall₂ (fun field d => columnDeclaration nullable field = .ok d) schema declarations ∧
      columns = schema.names.zip (declarations.map Declaration.render) ∧
      ∀ field ∈ schema, isIdentifier field.name = true := by
  rw [Except.mapM_eq_ok] at h
  induction h with
  | nil => exact ⟨[], List.Forall₂.nil, rfl, by simp⟩
  | @cons field column rest more hfield _ ih =>
    obtain ⟨declarations, hdeclared, hcolumns, hnames⟩ := ih
    obtain ⟨hname, d, hd, rfl⟩ := declareColumn_eq_ok.mp hfield
    refine ⟨d :: declarations, List.Forall₂.cons hd hdeclared, ?_, ?_⟩
    · rw [hcolumns]
      rfl
    · intro other hother
      rcases List.mem_cons.mp hother with rfl | hother
      · exact hname
      · exact hnames other hother

theorem filter_not_mem_nil {names known : List Text} :
    names.filter (fun n => decide (n ∉ known)) = [] ↔ ∀ n ∈ names, n ∈ known := by
  simp only [List.filter_eq_nil_iff, decide_eq_true_eq, not_not]

theorem createSql_creation {table : QualifiedTable} {schema : ArrowSchema} {engine : Text}
    {orderBy nullableColumns : Option (List Text)} {statement : CreateTable}
    (h : createSql table schema engine orderBy nullableColumns = .ok statement) :
    ∃ declarations order,
      Creation table schema engine orderBy nullableColumns statement declarations order := by
  unfold createSql at h
  simp only at h
  split_ifs at h with hempty hnullable hkeys
  · simp [Outcome.raise] at h
  · simp [Outcome.raise] at h
  · obtain ⟨columns, _, h⟩ := Except.bind_eq_ok.mp h
    simp [Outcome.raise] at h
  · rw [ne_eq, not_not, filter_not_mem_nil] at hnullable hkeys
    obtain ⟨columns, hcolumns, h⟩ := Except.bind_eq_ok.mp h
    obtain ⟨order, horder, h⟩ := Except.bind_eq_ok.mp h
    obtain ⟨declarations, hdeclared, heq, hnames⟩ := declareColumns_eq_ok hcolumns
    cases Except.ok.inj h
    exact ⟨declarations, order, hempty, hnullable, hnames, hdeclared, heq, hkeys, horder, rfl, rfl⟩

section Inversion

variable {d : Declaration}

theorem declarationOf_list {value : ArrowType} :
    declarationOf (.list value) = .ok d ↔ ∃ inner, declarationOf value = .ok inner ∧
      Declaration.array inner = d := by
  rw [declarationOf, Except.bind_eq_ok]
  simp only [Except.ok.injEq]

theorem declarationOf_largeList {value : ArrowType} :
    declarationOf (.largeList value) = .ok d ↔ ∃ inner, declarationOf value = .ok inner ∧
      Declaration.array inner = d := by
  rw [declarationOf, Except.bind_eq_ok]
  simp only [Except.ok.injEq]

theorem declarationOf_map {key item : ArrowType} :
    declarationOf (.map key item) = .ok d ↔ ∃ k, declarationOf key = .ok k ∧
      ∃ i, declarationOf item = .ok i ∧ Declaration.map k i = d := by
  rw [declarationOf, Except.bind_eq_ok]
  simp only [Except.bind_eq_ok, Except.ok.injEq]

theorem declarationOf_struct {fields : ArrowFields} :
    declarationOf (.struct fields) = .ok d ↔ ∃ parts, declaredFields fields = .ok parts ∧
      Declaration.tuple parts = d := by
  rw [declarationOf, Except.bind_eq_ok]
  simp only [Except.ok.injEq]

theorem declaredFields_cons {name : Text} {nullable : Bool} {type : ArrowType} {rest : ArrowFields}
    {parts : DeclaredFields} :
    declaredFields (.cons name nullable type rest) = .ok parts ↔ isIdentifier name = true ∧
      ∃ value, declarationOf type = .ok value ∧ ∃ more, declaredFields rest = .ok more ∧
        DeclaredFields.cons name (nullableDeclaration nullable value) more = parts := by
  rw [declaredFields, validateIdentifier]
  by_cases hname : isIdentifier name = true
  · simp only [hname, if_true, Except.bind_eq_ok, Except.ok.injEq, exists_eq_left', true_and]
  · simp [hname, bind, Except.bind, Outcome.raise]

end Inversion

def Declaration.isComposite : Declaration → Bool
  | .array _ | .map _ _ | .tuple _ => true
  | _ => false

mutual

/-- No composite stands directly inside Nullable. -/
def Declaration.plainNullable : Declaration → Bool
  | .scalar _ | .dateTime64 _ _ | .decimal _ _ => true
  | .nullable inner => !inner.isComposite && inner.plainNullable
  | .array value => value.plainNullable
  | .map key item => key.plainNullable && item.plainNullable
  | .tuple fields => fields.plainNullable

def DeclaredFields.plainNullable : DeclaredFields → Bool
  | .nil => true
  | .cons _ type rest => type.plainNullable && rest.plainNullable

end

def isNestedType : ArrowType → Bool
  | .list _ | .largeList _ | .map _ _ | .struct _ => true
  | _ => false

mutual

/-- No struct inside the type has a nullable member of a nested type. -/
def plainMembers : ArrowType → Bool
  | .list value | .largeList value => plainMembers value
  | .map key item => plainMembers key && plainMembers item
  | .struct fields => plainFields fields
  | _ => true

def plainFields : ArrowFields → Bool
  | .nil => true
  | .cons _ nullable type rest =>
      !(nullable && isNestedType type) && plainMembers type && plainFields rest

end

theorem plainNullable_nullableDeclaration (nullable : Bool) (d : Declaration) :
    (nullableDeclaration nullable d).plainNullable =
      (!(nullable && d.isComposite) && d.plainNullable) := by
  cases nullable with
  | false => rfl
  | true =>
    simp only [nullableDeclaration, if_true, Bool.true_and]
    rw [Declaration.plainNullable]

theorem isComposite_declarationOf {type : ArrowType} {d : Declaration}
    (h : declarationOf type = .ok d) : d.isComposite = isNestedType type := by
  cases type with
  | list value =>
    obtain ⟨inner, _, rfl⟩ := declarationOf_list.mp h
    rfl
  | largeList value =>
    obtain ⟨inner, _, rfl⟩ := declarationOf_largeList.mp h
    rfl
  | map key item =>
    obtain ⟨k, _, i, _, rfl⟩ := declarationOf_map.mp h
    rfl
  | struct fields =>
    obtain ⟨parts, _, rfl⟩ := declarationOf_struct.mp h
    rfl
  | _ =>
    cases d <;>
      simp_all [declarationOf, Outcome.raise, Declaration.isComposite, isNestedType]

mutual

theorem plainNullable_declarationOf {type : ArrowType} {d : Declaration}
    (h : declarationOf type = .ok d) : d.plainNullable = plainMembers type := by
  cases type with
  | list value =>
    obtain ⟨inner, hinner, rfl⟩ := declarationOf_list.mp h
    rw [Declaration.plainNullable, plainMembers]
    exact plainNullable_declarationOf hinner
  | largeList value =>
    obtain ⟨inner, hinner, rfl⟩ := declarationOf_largeList.mp h
    rw [Declaration.plainNullable, plainMembers]
    exact plainNullable_declarationOf hinner
  | map key item =>
    obtain ⟨k, hk, i, hi, rfl⟩ := declarationOf_map.mp h
    rw [Declaration.plainNullable, plainMembers, plainNullable_declarationOf hk,
      plainNullable_declarationOf hi]
  | struct fields =>
    obtain ⟨parts, hparts, rfl⟩ := declarationOf_struct.mp h
    rw [Declaration.plainNullable, plainMembers]
    exact plainNullable_declaredFields hparts
  | _ =>
    cases d <;>
      simp_all [declarationOf, Outcome.raise, Declaration.plainNullable, plainMembers]

theorem plainNullable_declaredFields {fields : ArrowFields} {parts : DeclaredFields}
    (h : declaredFields fields = .ok parts) : parts.plainNullable = plainFields fields := by
  cases fields with
  | nil =>
    rw [declaredFields] at h
    rw [← Except.ok.inj h, DeclaredFields.plainNullable, plainFields]
  | cons name nullable type rest =>
    obtain ⟨_, value, hvalue, more, hmore, rfl⟩ := declaredFields_cons.mp h
    rw [DeclaredFields.plainNullable, plainFields, plainNullable_nullableDeclaration,
      plainNullable_declarationOf hvalue, plainNullable_declaredFields hmore,
      isComposite_declarationOf hvalue]

end

theorem plainNullable_columnDeclaration {nullable : List Text} {field : Field} {d : Declaration}
    (h : columnDeclaration nullable field = .ok d) :
    d.plainNullable = true ↔
      ¬(field.name ∈ nullable ∧ isNestedType field.type = true) ∧
        plainMembers field.type = true := by
  obtain ⟨inner, hinner, heq⟩ := Except.bind_eq_ok.mp h
  rw [← Except.ok.inj heq, plainNullable_nullableDeclaration, isComposite_declarationOf hinner,
    plainNullable_declarationOf hinner]
  simp only [Bool.and_eq_true, Bool.not_eq_true', Bool.and_eq_false_iff, decide_eq_false_iff_not,
    not_and_or, Bool.not_eq_true]

/-- The columns of an accepted statement keep composites out of Nullable exactly when
no column of a nested type is listed as nullable and no struct has a nullable member
of a nested type. -/
theorem nullable_composite_iff {table : QualifiedTable} {schema : ArrowSchema} {engine : Text}
    {orderBy nullableColumns : Option (List Text)} {statement : CreateTable}
    (h : createSql table schema engine orderBy nullableColumns = .ok statement) :
    ∃ declarations order,
      Creation table schema engine orderBy nullableColumns statement declarations order ∧
      ((∀ d ∈ declarations, d.plainNullable = true) ↔
        ∀ field ∈ schema,
          ¬(field.name ∈ nullableColumns.getD [] ∧ isNestedType field.type = true) ∧
            plainMembers field.type = true) := by
  obtain ⟨declarations, order, hcreation⟩ := createSql_creation h
  refine ⟨declarations, order, hcreation, ?_⟩
  have hdeclared := hcreation.declared
  clear hcreation h
  induction hdeclared with
  | nil => simp
  | @cons field d rest more hfield _ ih =>
    simp only [List.forall_mem_cons]
    exact and_congr (plainNullable_columnDeclaration hfield) ih

section Example

theorem eventsTable_database : isIdentifier "analytics".toList = true := by decide

def eventsTable : QualifiedTable :=
  ⟨"analytics".toList, "events".toList, eventsTable_database, by decide⟩

def tagsSchema : ArrowSchema :=
  [⟨"id".toList, .integer ⟨false, .w64⟩, true⟩,
    ⟨"tags".toList, .list (.integer ⟨true, .w8⟩), true⟩]

theorem tags_statement (nullableColumns : Option (List Text))
    (h : nullableColumns = none ∨ nullableColumns = some ["tags".toList]) :
    ∃ statement,
      createSql eventsTable tagsSchema "MergeTree".toList none nullableColumns = .ok statement := by
  have hcheck : Outcome.check
      (createSql eventsTable tagsSchema "MergeTree".toList none nullableColumns)
      (fun _ => true) = true := by
    rcases h with rfl | rfl
    · decide +kernel
    · decide +kernel
  obtain ⟨statement, h, -⟩ := Outcome.check_eq_true.mp hcheck
  exact ⟨statement, h⟩

/-- Without nullable columns the list of tags is declared plainly. -/
theorem tags_plain : ∃ statement declarations order,
    Creation eventsTable tagsSchema "MergeTree".toList none none statement declarations order ∧
      ∀ d ∈ declarations, d.plainNullable = true := by
  obtain ⟨statement, h⟩ := tags_statement none (.inl rfl)
  obtain ⟨declarations, order, hcreation, hiff⟩ := nullable_composite_iff h
  exact ⟨statement, declarations, order, hcreation, hiff.mpr (by decide)⟩

/-- A list among the nullable columns is declared as Nullable(Array(Int8)). -/
theorem nullable_tags_declared : ¬ ∀ (table : QualifiedTable) (schema : ArrowSchema) (engine : Text)
    (orderBy nullableColumns : Option (List Text)) (statement : CreateTable)
    (declarations : List Declaration) (order : Text),
    Creation table schema engine orderBy nullableColumns statement declarations order →
    ∀ d ∈ declarations, d.plainNullable = true := by
  intro hclaim
  obtain ⟨statement, h⟩ := tags_statement (some ["tags".toList]) (.inr rfl)
  obtain ⟨declarations, order, hcreation⟩ := createSql_creation h
  have hplain := hclaim _ _ _ _ _ _ _ _ hcreation
  obtain ⟨identifier, rest, _, hrest, rfl⟩ := List.forall₂_cons_left_iff.mp hcreation.declared
  obtain ⟨tags, more, htags, _, rfl⟩ := List.forall₂_cons_left_iff.mp hrest
  have hcomposite := (plainNullable_columnDeclaration htags).mp (hplain tags (by simp))
  exact hcomposite.1 (by decide)

end Example

end RayClickHouse.Ddl
