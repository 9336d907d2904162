import RayClickHouse.Acceptance
import RayClickHouse.Numerals

/-!
An acceptable type is compatible with its own declaration. A schema is therefore
accepted by the table that was created for it exactly when the types of its columns
are acceptable.
-/
namespace RayClickHouse.Schema

open Text TypeText Ddl

section Parseable

theorem parseable_nullableDeclaration (nullable : Bool) (d : Declaration) :
    (nullableDeclaration nullable d).parseable = d.parseable := by
  cases nullable with
  | false => rfl
  | true => rfl

theorem readableZone_eq_true {zone : Text} :
    readableZone zone = true ↔
      zone ≠ [] ∧ isOneArgument zone = true ∧ stripQuotes (literalOf zone) = zone := by
  unfold readableZone
  rw [Bool.and_eq_true, Bool.and_eq_true, bne_iff_ne, beq_iff_eq, and_assoc]

mutual

theorem parseable_of_acceptable {type : ArrowType} {d : Declaration}
    (h : declarationOf type = .ok d) (hok : acceptable type = true) : d.parseable = true := by
  cases type with
  | list value =>
    obtain ⟨inner, hinner, rfl⟩ := declarationOf_list.mp h
    rw [acceptable] at hok
    rw [Declaration.parseable]
    exact parseable_of_acceptable hinner hok
  | largeList value =>
    obtain ⟨inner, hinner, rfl⟩ := declarationOf_largeList.mp h
    rw [acceptable] at hok
    rw [Declaration.parseable]
    exact parseable_of_acceptable hinner hok
  | map key item =>
    obtain ⟨k, hk, i, hi, rfl⟩ := declarationOf_map.mp h
    rw [acceptable, Bool.and_eq_true] at hok
    rw [Declaration.parseable, Bool.and_eq_true]
    exact ⟨parseable_of_acceptable hk hok.1, parseable_of_acceptable hi hok.2⟩
  | struct fields =>
    obtain ⟨parts, hparts, rfl⟩ := declarationOf_struct.mp h
    rw [acceptable, Bool.and_eq_true, bne_iff_ne] at hok
    rw [Declaration.parseable, Bool.and_eq_true, bne_iff_ne]
    refine ⟨?_, parseable_fields hparts hok.2⟩
    cases fields with
    | nil => exact absurd rfl hok.1
    | cons name nullable type rest =>
      obtain ⟨-, value, -, more, -, rfl⟩ := declaredFields_cons.mp hparts
      exact fun hnil => DeclaredFields.noConfusion hnil
  | timestamp unit tz =>
    rw [declarationOf] at h
    rw [← Except.ok.inj h]
    rcases tz with _ | _ | ⟨c, rest⟩
    · rfl
    · rfl
    · rw [acceptable] at hok
      exact (readableZone_eq_true.mp hok).2.1
  | integer type =>
    rw [declarationOf] at h
    rw [← Except.ok.inj h]
    exact (integer_name type).1
  | _ =>
    rw [declarationOf] at h
    first
      | contradiction
      | rw [← Except.ok.inj h]
        rfl

theorem parseable_fields {fields : ArrowFields} {parts : DeclaredFields}
    (h : declaredFields fields = .ok parts) (hok : acceptableFields fields = true) :
    parts.parseable = true := by
  cases fields with
  | nil =>
    rw [declaredFields] at h
    rw [← Except.ok.inj h]
    rfl
  | cons name nullable type rest =>
    obtain ⟨hname, value, hvalue, more, hmore, rfl⟩ := declaredFields_cons.mp h
    rw [acceptableFields, Bool.and_eq_true, Bool.and_eq_true] at hok
    rw [DeclaredFields.parseable, hname, parseable_nullableDeclaration,
      parseable_of_acceptable hvalue hok.1.1, parseable_fields hmore hok.2]
    rfl

end

end Parseable

section Sufficiency

theorem timezone_of_acceptable {unit : TimeUnit} {tz : Option Text}
    (hok : acceptable (.timestamp unit tz) = true) :
    tz = timestampTimezone ⟨"DateTime64".toList,
      (Declaration.dateTime64 (timestampPrecision unit) tz).arguments⟩ := by
  rcases tz with _ | _ | ⟨c, rest⟩
  · rfl
  · contradiction
  · rw [acceptable] at hok
    have hzone := (readableZone_eq_true.mp hok).2.2
    rw [Declaration.arguments]
    show some (c :: rest) = some (stripQuotes (literalOf (c :: rest)))
    rw [hzone]

variable [UnicodeDatabase]

theorem length_fieldChecks (fields : ArrowFields) :
    (fieldChecks fields).length = fields.length := by
  cases fields with
  | nil => rfl
  | cons name nullable type rest =>
    rw [fieldChecks, List.length_cons, length_fieldChecks rest, ArrowFields.length]

/-- The comparison of a type with the declaration it is read from. -/
theorem compatible_of_arguments {type : ArrowType} {d : Declaration} (hd : d.parseable = true)
    (hhead : d.head ∉ wrapperNames) (h : compatibleWith type d.head d.arguments = .ok true) :
    Compatible type d.render :=
  compatible_iff.mpr ⟨d.head, d.arguments, false,
    unwrap_of_plain (parseType_render hd) (wrapped_of_not_mem hhead), h⟩

theorem compatible_nullable {type : ArrowType} {d : Declaration} (nullable : Bool)
    (hd : d.parseable = true) (h : Compatible type d.render) :
    Compatible type (nullableDeclaration nullable d).render := by
  cases nullable with
  | false => exact h
  | true =>
    have hparse : parseType (Declaration.nullable d).render =
        .ok ⟨"Nullable".toList, [d.render]⟩ := parseType_render (d := .nullable d) hd
    have hwrapped : wrapped ⟨"Nullable".toList, [d.render]⟩ = some (d.render, true) := rfl
    obtain ⟨name, arguments, flag, hunwrap, hwith⟩ := compatible_iff.mp h
    refine compatible_iff.mpr ⟨name, arguments, true, ?_, hwith⟩
    show unwrap (Declaration.nullable d).render = _
    rw [unwrap_of_wrapped hparse hwrapped, hunwrap]
    rfl

theorem compatible_field {name type : Text} {dtype : ArrowType} (hname : isIdentifier name = true)
    (hsolid : Solid type) (hne : type ≠ []) (hline : '\n' ∉ type) (h : Compatible dtype type) :
    Compatible dtype (tupleArgumentType (declared name type)) := by
  have hdeclared : declared name type = quoted name ++ ' ' :: type := by
    unfold declared
    simp
  have hdrop : (' ' :: type).dropWhile isSpace = type := by
    rw [List.dropWhile_cons_of_pos rfl]
    cases type with
    | nil => rfl
    | cons c rest =>
      have hc := hsolid.head c rfl
      rw [List.dropWhile_cons_of_neg (by simp [hc])]
  rw [hdeclared, tupleField_quoted hname (by simp), hdrop, if_pos ⟨rfl, hne, hline⟩]
  exact h

mutual

/-- An acceptable type is compatible with its own declaration. -/
theorem compatible_render {type : ArrowType} {d : Declaration} (h : declarationOf type = .ok d)
    (hok : acceptable type = true) : Compatible type d.render := by
  have hd := parseable_of_acceptable h hok
  cases type with
  | largeString => contradiction
  | list value =>
    obtain ⟨inner, hinner, rfl⟩ := declarationOf_list.mp h
    rw [acceptable] at hok
    exact compatible_of_arguments hd (by decide : "Array".toList ∉ wrapperNames)
      (compatibleWith_list.mpr ⟨rfl, inner.render, rfl, compatible_render hinner hok⟩)
  | largeList value =>
    obtain ⟨inner, hinner, rfl⟩ := declarationOf_largeList.mp h
    rw [acceptable] at hok
    exact compatible_of_arguments hd (by decide : "Array".toList ∉ wrapperNames)
      (compatibleWith_largeList.mpr ⟨rfl, inner.render, rfl, compatible_render hinner hok⟩)
  | map key item =>
    obtain ⟨k, hk, i, hi, rfl⟩ := declarationOf_map.mp h
    rw [acceptable, Bool.and_eq_true] at hok
    exact compatible_of_arguments hd (by decide : "Map".toList ∉ wrapperNames)
      (compatibleWith_map.mpr ⟨rfl, k.render, i.render, rfl, compatible_render hk hok.1,
        compatible_render hi hok.2⟩)
  | struct fields =>
    obtain ⟨parts, hparts, rfl⟩ := declarationOf_struct.mp h
    rw [acceptable, Bool.and_eq_true] at hok
    have hchecks := compatible_fields hparts hok.2
    have hlength : parts.render.length = fields.length := by
      rw [← hchecks.length_eq, length_fieldChecks]
    exact compatible_of_arguments hd (by decide : "Tuple".toList ∉ wrapperNames)
      (compatibleWith_struct.mpr ⟨rfl, hlength, (fieldsCompatible_iff hlength).mpr hchecks⟩)
  | timestamp unit tz =>
    rw [declarationOf] at h
    obtain rfl := Except.ok.inj h
    exact compatible_of_arguments hd (by decide : "DateTime64".toList ∉ wrapperNames)
      (compatibleWith_timestamp.mpr ⟨Or.inr rfl, timezone_of_acceptable hok⟩)
  | decimal bits precision scale =>
    rw [declarationOf] at h
    obtain rfl := Except.ok.inj h
    refine compatible_of_arguments hd (by decide : "Decimal".toList ∉ wrapperNames)
      (compatibleWith_decimal.mpr ⟨rfl, ?_⟩)
    rw [Declaration.arguments, decimalMatches, toInt_ofNat, toInt_ofInt]
    simp
  | integer type =>
    rw [declarationOf] at h
    obtain rfl := Except.ok.inj h
    refine compatible_of_arguments hd (integer_name type).2 ?_
    obtain ⟨signed, width⟩ := type
    cases signed <;> cases width <;> rfl
  | _ =>
    rw [declarationOf] at h
    first
      | contradiction
      | obtain rfl := Except.ok.inj h
        exact compatible_of_arguments hd (by decide) rfl

theorem compatible_fields {fields : ArrowFields} {parts : DeclaredFields}
    (h : declaredFields fields = .ok parts) (hok : acceptableFields fields = true) :
    Satisfy (fieldChecks fields) parts.render := by
  cases fields with
  | nil =>
    rw [declaredFields] at h
    rw [← Except.ok.inj h]
    exact List.Forall₂.nil
  | cons name nullable type rest =>
    obtain ⟨hname, value, hvalue, more, hmore, rfl⟩ := declaredFields_cons.mp h
    rw [acceptableFields, Bool.and_eq_true, Bool.and_eq_true] at hok
    have hparse := parseable_of_acceptable hvalue hok.1.1
    have hargument : Argument (nullableDeclaration nullable value).render :=
      argument_render (by rw [parseable_nullableDeclaration, hparse])
    have hline : '\n' ∉ (nullableDeclaration nullable value).render :=
      lineFeed_nullable.mpr ((lineFeed_render hvalue).mpr hok.1.2)
    have hvalue_ok := compatible_nullable nullable hparse (compatible_render hvalue hok.1.1)
    rw [fieldChecks, DeclaredFields.render]
    exact List.Forall₂.cons
      (compatible_field hname hargument.solid hargument.nonempty hline hvalue_ok)
      (compatible_fields hmore hok.2)

end

/-- A column is declared compatibly with its type when the type is acceptable. -/
theorem compatible_column_iff {type : ArrowType} {d : Declaration} {nullable : Bool}
    (h : declarationOf type = .ok d) :
    Compatible type (nullableDeclaration nullable d).render ↔ acceptable type = true := by
  constructor
  · intro hc
    exact acceptable_of_compatible h (compatible_of_nullable h hc)
  · intro hok
    exact compatible_nullable nullable (parseable_of_acceptable h hok) (compatible_render h hok)

end Sufficiency

section Created

/-- The columns of the target are the declared ones, without default expressions. -/
def exactlyDeclared (columns : List (Text × Text)) (target : TargetTable) : Prop :=
  List.Forall₂ (fun column c => c.name = column.1 ∧ c.declaredType = column.2 ∧
    c.defaultKind = [] ∧ c.defaultExpression = []) columns target.columns

def Declares (nullable : List Text) (field : Field) (c : TargetColumn) : Prop :=
  c.name = field.name ∧ c.insertable = true ∧ c.hasServerDefault = false ∧
    ∃ d, columnDeclaration nullable field = .ok d ∧ c.declaredType = d.render

theorem exactlyDeclared_fields {nullable : List Text} {schema : ArrowSchema}
    {declarations : List Declaration} {columns : List TargetColumn}
    (h : List.Forall₂ (fun field d => columnDeclaration nullable field = .ok d) schema declarations)
    (hcolumns : List.Forall₂ (fun column (c : TargetColumn) => c.name = column.1 ∧
      c.declaredType = column.2 ∧ c.defaultKind = [] ∧ c.defaultExpression = [])
      (schema.names.zip (declarations.map Declaration.render)) columns) :
    List.Forall₂ (Declares nullable) schema columns := by
  induction h generalizing columns with
  | nil =>
    rw [List.forall₂_nil_left_iff.mp hcolumns]
    exact List.Forall₂.nil
  | @cons field d schema declarations hfield _ ih =>
    obtain ⟨c, more, ⟨hname, htype, hkind, -⟩, hmore, rfl⟩ := List.forall₂_cons_left_iff.mp hcolumns
    have hinsertable : c.insertable = true := by
      unfold TargetColumn.insertable
      rw [hkind]
      rfl
    have hdefault : c.hasServerDefault = false := by
      unfold TargetColumn.hasServerDefault
      rw [hkind]
      rfl
    exact List.Forall₂.cons ⟨hname, hinsertable, hdefault, d, hfield, htype⟩ (ih hmore)

theorem find?_rel {α β : Type} {r : α → β → Prop} {p : α → Bool} {q : β → Bool} {l : List α}
    {l' : List β} (h : List.Forall₂ r l l') (hpq : ∀ a b, r a b → p a = q b) :
    Option.Rel r (l.find? p) (l'.find? q) := by
  induction h with
  | nil => exact Option.Rel.none
  | @cons a b l l' hab _ ih =>
    rw [List.find?_cons, List.find?_cons, hpq a b hab]
    cases q b with
    | true => exact Option.Rel.some hab
    | false => exact ih

theorem columnNamed_declares {nullable : List Text} {schema : ArrowSchema}
    {columns : List TargetColumn} (h : List.Forall₂ (Declares nullable) schema columns)
    (name : Text) :
    Option.Rel (Declares nullable) (schema.field? name) (columnNamed columns name) := by
  refine find?_rel (List.rel_reverse h) ?_
  intro field c hdeclares
  rw [hdeclares.1]

theorem insertableColumns_declares {nullable : List Text} {schema : ArrowSchema}
    {target : TargetTable} (h : List.Forall₂ (Declares nullable) schema target.columns) :
    target.insertableColumns = target.columns ∧
      (∀ c ∈ target.columns, c.name ∈ schema.names) ∧
      ∀ n ∈ schema.names, ∃ c ∈ target.columns, c.name = n ∧ c.hasServerDefault = false := by
  unfold TargetTable.insertableColumns
  rw [List.filter_eq_self]
  refine ⟨?_, ?_, ?_⟩
  · intro c hc
    obtain ⟨field, -, hdeclares⟩ := exists_of_mem_forall₂ h hc
    exact hdeclares.2.1
  · intro c hc
    obtain ⟨field, hfield, hdeclares⟩ := exists_of_mem_forall₂ h hc
    rw [hdeclares.1]
    exact List.mem_map_of_mem hfield
  · intro n hn
    obtain ⟨field, hfield, rfl⟩ := List.mem_map.mp hn
    obtain ⟨c, hc, hdeclares⟩ := exists_of_mem_forall₂ h.flip hfield
    exact ⟨c, hc, hdeclares.1, hdeclares.2.2.1⟩

theorem field?_isSome {schema : ArrowSchema} {name : Text} :
    (schema.field? name).isSome = true ↔ name ∈ schema.names := by
  unfold ArrowSchema.field? ArrowSchema.names
  simp [List.find?_isSome]

variable [UnicodeDatabase]

/-- The created table accepts a selection exactly when it consists of the columns of the
schema, and every column that a name stands for has an acceptable type. -/
theorem validate_selection_iff {nullable : List Text} {schema : ArrowSchema} {target : TargetTable}
    {columns normalized : Option (List Text)}
    (h : List.Forall₂ (Declares nullable) schema target.columns)
    (hnormalized : normalizeColumns columns = .ok normalized) :
    (∃ plan, validateSourceSchema schema target columns = .ok plan) ↔
      (∀ n, n ∈ normalized.getD schema.names ↔ n ∈ schema.names) ∧
      ∀ name field, schema.field? name = some field → acceptable field.type = true := by
  obtain ⟨hinsertable, hnames, hcovered⟩ := insertableColumns_declares h
  rw [validateSourceSchema_succeeds hnormalized, hinsertable]
  have hcolumn : ∀ {name field}, schema.field? name = some field → ∃ c,
      columnNamed target.columns name = some c ∧
        ((∃ v, validateColumn schema c = .ok v) ↔ acceptable field.type = true) := by
    intro name field hfield
    have hrel := columnNamed_declares h name
    rw [hfield] at hrel
    cases hnamed : columnNamed target.columns name with
    | none =>
      rw [hnamed] at hrel
      contradiction
    | some c =>
      rw [hnamed] at hrel
      cases hrel with
      | some hdeclares =>
        obtain ⟨hname, -, -, d, hd, htype⟩ := hdeclares
        obtain ⟨inner, hinner, heq⟩ := Except.bind_eq_ok.mp hd
        have hsame : field.name = name := by
          simpa using List.find?_some hfield
        rw [← hsame, ← hname] at hfield
        refine ⟨c, rfl, ?_⟩
        rw [validateColumn_succeeds hfield, htype, ← Except.ok.inj heq]
        exact compatible_column_iff hinner
  constructor
  · rintro ⟨hknown, hrequired, hvalid⟩
    have hselected : ∀ n, n ∈ normalized.getD schema.names ↔ n ∈ schema.names := by
      refine fun n => ⟨fun hn => (hknown n hn).1, fun hn => ?_⟩
      obtain ⟨c, hc, rfl, hdefault⟩ := hcovered n hn
      rcases hrequired c hc with hin | hserver
      · exact hin
      · rw [hdefault] at hserver
        contradiction
    refine ⟨hselected, fun name field hfield => ?_⟩
    obtain ⟨c, hnamed, hiff⟩ := hcolumn hfield
    refine hiff.mp (hvalid c (List.mem_filterMap.mpr ⟨name, ?_, hnamed⟩))
    rw [hselected, ← field?_isSome, hfield]
    rfl
  · rintro ⟨hselected, hall⟩
    refine ⟨?_, fun c hc => Or.inl ((hselected _).mpr (hnames c hc)), ?_⟩
    · intro name hname
      obtain ⟨field, hfield⟩ :=
        Option.isSome_iff_exists.mp (field?_isSome.mpr ((hselected name).mp hname))
      obtain ⟨c, hnamed, -⟩ := hcolumn hfield
      refine ⟨(hselected name).mp hname, ?_⟩
      rw [hnamed]
      rfl
    · intro c hc
      obtain ⟨name, hname, hnamed⟩ := List.mem_filterMap.mp hc
      obtain ⟨field, hfield⟩ :=
        Option.isSome_iff_exists.mp (field?_isSome.mpr ((hselected name).mp hname))
      obtain ⟨c', hnamed', hiff⟩ := hcolumn hfield
      rw [hnamed] at hnamed'
      rw [Option.some.inj hnamed']
      exact hiff.mpr (hall name field hfield)

/-- Without a selection the types alone decide. -/
theorem validate_declared_iff {nullable : List Text} {schema : ArrowSchema} {target : TargetTable}
    (h : List.Forall₂ (Declares nullable) schema target.columns) :
    (∃ plan, validateSourceSchema schema target none = .ok plan) ↔
      ∀ name field, schema.field? name = some field → acceptable field.type = true := by
  rw [validate_selection_iff h (rfl : normalizeColumns none = .ok none)]
  exact and_iff_right fun _ => Iff.rfl

/-- A type is compatible with what it is declared as, and a created table accepts the
schema it was created for, exactly when the types are acceptable. -/
theorem created_table_accepts_iff :
    (∀ type text, arrowType type = .ok text →
      (arrowCompatible type text = .ok true ↔ acceptable type = true)) ∧
    ∀ table schema engine orderBy nullableColumns statement target,
      createSql table schema engine orderBy nullableColumns = .ok statement →
      exactlyDeclared statement.columns target →
      ((∃ plan, validateSourceSchema schema target none = .ok plan) ↔
        ∀ name field, schema.field? name = some field → acceptable field.type = true) := by
  constructor
  · intro type text h
    rw [arrowType_eq] at h
    obtain ⟨d, hd, rfl⟩ := Except.map_eq_ok.mp h
    have hplain : Compatible type (nullableDeclaration false d).render ↔ acceptable type = true :=
      compatible_column_iff hd
    exact hplain
  · intro table schema engine orderBy nullableColumns statement target hcreate hexact
    obtain ⟨declarations, order, hcreation⟩ := createSql_creation hcreate
    unfold exactlyDeclared at hexact
    rw [hcreation.columns] at hexact
    exact validate_declared_iff (exactlyDeclared_fields hcreation.declared hexact)

end Created

section Example

def declaredTarget (table : QualifiedTable) (statement : CreateTable) : TargetTable :=
  ⟨table.database, table.table, statement.engine,
    statement.columns.map fun column => ⟨column.1, column.2, [], [], 1⟩⟩

theorem exactlyDeclared_target (table : QualifiedTable) (statement : CreateTable) :
    exactlyDeclared statement.columns (declaredTarget table statement) := by
  unfold exactlyDeclared declaredTarget
  rw [List.forall₂_map_right_iff, List.forall₂_same]
  exact fun column _ => ⟨rfl, rfl, rfl, rfl⟩

/-- The table of tags accepts the schema it was created for. -/
theorem tags_accepted : ∃ statement plan,
    createSql eventsTable tagsSchema "MergeTree".toList none none = .ok statement ∧
      @validateSourceSchema asciiDatabase tagsSchema (declaredTarget eventsTable statement) none =
        .ok plan := by
  obtain ⟨statement, hcreate⟩ := tags_statement none (.inl rfl)
  have haccepts := (@created_table_accepts_iff asciiDatabase).2 _ _ _ _ _ _ _ hcreate
    (exactlyDeclared_target eventsTable statement)
  have hfields : ∀ field ∈ tagsSchema, acceptable field.type = true := by decide
  obtain ⟨plan, hplan⟩ := haccepts.mpr fun name field hfield =>
    hfields field (List.mem_reverse.mp (List.mem_of_find?_eq_some hfield))
  exact ⟨statement, plan, hcreate, hplan⟩

def notesSchema : ArrowSchema := [⟨"note".toList, .largeString, true⟩]

/-- Large strings are declared as String, which they are not compatible with: the table
that is created for them rejects them. -/
theorem largeString_rejected :
    (¬ ∀ type text, arrowType type = .ok text →
      @arrowCompatible asciiDatabase type text = .ok true) ∧
    ¬ ∀ table schema engine orderBy nullableColumns statement target,
      createSql table schema engine orderBy nullableColumns = .ok statement →
      exactlyDeclared statement.columns target →
      ∃ plan, @validateSourceSchema asciiDatabase schema target none = .ok plan := by
  constructor
  · intro hclaim
    exact @not_compatible_largeString asciiDatabase "String".toList (hclaim _ _ rfl)
  · intro hclaim
    have hcheck : Outcome.check (createSql eventsTable notesSchema "MergeTree".toList
        (some ["note".toList]) none) (fun _ => true) = true := by
      decide +kernel
    obtain ⟨statement, hcreate, -⟩ := Outcome.check_eq_true.mp hcheck
    have hexact := exactlyDeclared_target eventsTable statement
    obtain ⟨declarations, order, hcreation⟩ := createSql_creation hcreate
    have hdeclares := hexact
    unfold exactlyDeclared at hdeclares
    rw [hcreation.columns] at hdeclares
    have hiff := @validate_declared_iff asciiDatabase _ _ _
      (exactlyDeclared_fields hcreation.declared hdeclares)
    have hfield : notesSchema.field? "note".toList = some ⟨"note".toList, .largeString, true⟩ := rfl
    exact absurd (hiff.mp (hclaim _ _ _ _ _ _ _ hcreate hexact) _ _ hfield) (by decide)

end Example

end RayClickHouse.Schema
