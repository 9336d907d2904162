import RayClickHouse.CreateStatement

/-!
The statement as a whole. Contained declarations are steady under the scan for
parentheses, so the column list ends at its own parenthesis, and what follows it is
the engine, the key and the setting for nullable keys.
-/
namespace RayClickHouse.Ddl

open Text TypeText Schema Lexical

section Steady

theorem codeChar_of_isIdentPart {c : Char} (h : isIdentPart c = true) : codeChar c = true := by
  have hne : ∀ d : Char, isIdentPart d = false → c ≠ d := by
    rintro d hd rfl
    rw [h] at hd
    contradiction
  rw [codeChar_eq_true]
  refine ⟨?_, hne '/' (by decide), hne '-' (by decide), hne '#' (by decide), hne '(' (by decide),
    hne ')' (by decide)⟩
  simp [isQuoteChar, hne '\'' (by decide), hne '"' (by decide), hne '`' (by decide)]

theorem steady_identPart {t : Text} (h : ∀ c ∈ t, isIdentPart c = true) : Steady t :=
  Steady.of_plain fun c hc => codeChar_of_isIdentPart (h c hc)

theorem plain_separator : ∀ c ∈ ", ".toList, codeChar c = true := by
  have hall : (", ".toList).all codeChar = true := rfl
  exact List.all_eq_true.mp hall

theorem noQuote_separator (rest : Text) : noQuote (", ".toList ++ rest) := noQuote_cons rfl _

theorem steady_ofInt (i : ℤ) : Steady (ofInt i) := by
  cases i with
  | ofNat n => exact steady_identPart (ofNat_identPart n)
  | negSucc n =>
    intro depth rest hrest
    have hdigits := ofNat_identPart (n + 1)
    have hcode : startsLineComment '-' (ofNat (n + 1) ++ rest) = false := by
      cases hhead : ofNat (n + 1) with
      | nil => exact absurd hhead (ofNat_ne_nil _)
      | cons c more =>
        have hc : c ≠ '-' := by
          rintro rfl
          have hpart := hdigits '-' (by rw [hhead]; exact List.mem_cons_self ..)
          contradiction
        simp [startsLineComment, hc]
    have hlex : nextLexeme '-' (ofNat (n + 1) ++ rest) = .ok (.code '-', ofNat (n + 1) ++ rest) :=
      nextLexeme_code rfl (by decide) hcode
    rw [ofInt, List.cons_append, depthOf_lexeme hlex rfl (by decide) (by decide)]
    exact steady_identPart hdigits depth rest hrest

theorem steady_call {name arguments : Text} (hname : isIdentifier name = true)
    (h : Steady arguments) : Steady (call name arguments) := by
  have hcall : call name arguments = name ++ '(' :: (arguments ++ [')']) := by
    unfold call
    simp
  rw [hcall]
  exact Steady.plain (fun c hc => codeChar_of_isIdentPart (isIdentifier_mem hname c hc)) h.parens

theorem steady_join {parts : List Text} (h : ∀ p ∈ parts, Steady p) :
    Steady (join ", ".toList parts) := by
  have hrest : ∀ rest : List Text, (∀ p ∈ rest, Steady p) →
      Steady (rest.flatMap (", ".toList ++ ·)) ∧ noQuote (rest.flatMap (", ".toList ++ ·)) := by
    intro rest
    induction rest with
    | nil => exact fun _ => ⟨Steady.nil, by simp [noQuote]⟩
    | cons part more ih =>
      intro hparts
      obtain ⟨hmore, hhead⟩ := ih fun p hp => hparts p (List.mem_cons_of_mem _ hp)
      rw [List.flatMap_cons, List.append_assoc]
      refine ⟨Steady.plain plain_separator ?_, noQuote_separator _⟩
      exact (hparts part (List.mem_cons_self ..)).append hmore hhead
  cases parts with
  | nil => exact Steady.nil
  | cons part rest =>
    rw [join_cons]
    obtain ⟨hmore, hhead⟩ := hrest rest fun p hp => h p (List.mem_cons_of_mem _ hp)
    exact (h part (List.mem_cons_self ..)).append hmore hhead

theorem steady_declared {name type : Text} (hname : isIdentifier name = true) (h : Steady type) :
    Steady (declared name type) := by
  have hquoted : Steady (quoted name) :=
    Steady.literal rfl (staysOpen_identifier (isIdentifier_mem hname) (by decide))
  have hspace : Steady (" ".toList ++ type) := h.plain (s := " ".toList) (by
    intro c hc
    rw [List.mem_singleton.mp hc]
    rfl)
  unfold declared
  rw [List.append_assoc]
  exact hquoted.append hspace (noQuote_cons rfl _)

theorem steady_zone {precision : ℕ} {tz : Option Text}
    (h : ∀ zone, tz = some zone → staysOpen '\'' zone = true) :
    Steady (ofNat precision ++ zoneArgument tz) := by
  have hdigits : ∀ c ∈ ofNat precision, codeChar c = true := fun c hc =>
    codeChar_of_isIdentPart (ofNat_identPart precision c hc)
  refine Steady.plain hdigits ?_
  rcases tz with _ | _ | ⟨c, rest⟩
  · exact Steady.nil
  · exact Steady.nil
  · rw [zoneArgument_cons]
    exact Steady.plain plain_separator (Steady.literal rfl (h _ rfl))

mutual

/-- The scan for parentheses passes over a contained declaration. -/
theorem steady_render {d : Declaration} (h : d.contained = true) : Steady d.render := by
  cases d with
  | scalar name =>
    rw [Declaration.contained] at h
    exact steady_identPart (isIdentifier_mem h)
  | dateTime64 precision tz =>
    rw [Declaration.render]
    refine steady_call rfl (steady_zone ?_)
    rintro zone rfl
    rw [Declaration.contained] at h
    exact h
  | decimal precision scale =>
    have hdigits := steady_identPart (ofNat_identPart precision)
    rw [Declaration.render, List.append_assoc]
    exact steady_call rfl (hdigits.append (Steady.plain plain_separator (steady_ofInt scale))
      (noQuote_separator _))
  | nullable inner =>
    rw [Declaration.contained] at h
    rw [Declaration.render]
    exact steady_call rfl (steady_render h)
  | array value =>
    rw [Declaration.contained] at h
    rw [Declaration.render]
    exact steady_call rfl (steady_render h)
  | map key item =>
    rw [Declaration.contained, Bool.and_eq_true] at h
    rw [Declaration.render, List.append_assoc]
    exact steady_call rfl ((steady_render h.1).append
      (Steady.plain plain_separator (steady_render h.2)) (noQuote_separator _))
  | tuple fields =>
    rw [Declaration.contained, Bool.and_eq_true] at h
    rw [Declaration.render]
    exact steady_call rfl (steady_join (steady_fields h.2))

theorem steady_fields {fields : DeclaredFields} (h : fields.contained = true) :
    ∀ p ∈ fields.render, Steady p := by
  cases fields with
  | nil => simp [DeclaredFields.render]
  | cons name type rest =>
    rw [DeclaredFields.contained, Bool.and_eq_true, Bool.and_eq_true] at h
    rw [DeclaredFields.render]
    intro p hp
    rcases List.mem_cons.mp hp with rfl | hp
    · exact steady_declared h.1.1 (steady_render h.1.2)
    · exact steady_fields h.2 p hp

end

end Steady

def clauses (engine order : Text) (nullableKey : Bool) : Text :=
  " ENGINE = ".toList ++ engine ++ " ORDER BY ".toList ++ order ++
    if nullableKey then " SETTINGS allow_nullable_key = 1".toList else []

/-- A statement with the intended structure: the column list between its parentheses
has one element for each field, which reads back as the field's declaration, and
nothing but the clauses comes after it. -/
structure Intended (table : QualifiedTable) (schema : ArrowSchema) (engine : Text)
    (orderBy nullableColumns : Option (List Text)) (sql list tail order : Text)
    (elements : List Text) : Prop where
  sql_eq : sql = "CREATE TABLE ".toList ++ table.sql ++ " (".toList ++ list ++ ')' :: tail
  closes : closeParen (list ++ ')' :: tail) = some tail
  ordered : renderOrderBy (orderBy.getD (defaultOrderBy schema)) = .ok order
  tail_eq : tail = clauses engine order
    ((orderBy.getD (defaultOrderBy schema)).any (· ∈ nullableColumns.getD []))
  split : splitTypeArguments list = .ok elements
  read : List.Forall₂ (fun field element => ∃ type d, element = declared field.name type ∧
    columnDeclaration (nullableColumns.getD []) field = .ok d ∧ Reads type d) schema elements

section Statement

variable {table : QualifiedTable} {schema : ArrowSchema} {engine : Text}
  {orderBy nullableColumns : Option (List Text)} {statement : CreateTable}

theorem contained_columnDeclaration {nullable : List Text} {field : Field} {d : Declaration}
    (h : columnDeclaration nullable field = .ok d) : d.contained = containedType field.type := by
  obtain ⟨inner, hinner, heq⟩ := Except.bind_eq_ok.mp h
  rw [← Except.ok.inj heq, contained_nullableDeclaration, contained_declarationOf hinner]

/-- An element that reads back shows a contained type. -/
theorem contained_of_intended {sql list tail order : Text} {elements : List Text}
    (h : Intended table schema engine orderBy nullableColumns sql list tail order elements) :
    ∀ field ∈ schema, containedType field.type = true := by
  intro field hfield
  have hread := h.read
  obtain ⟨element, -, type, d, -, hd, hreads⟩ := exists_of_mem_forall₂ hread.flip hfield
  rw [← contained_columnDeclaration hd]
  exact contained_of_reads hreads

def elementsOf (schema : ArrowSchema) (declarations : List Declaration) : List Text :=
  (schema.zip declarations).map fun p => declared p.1.name p.2.render

theorem elements_properties {nullable : List Text} {declarations : List Declaration}
    (hnames : ∀ field ∈ schema, isIdentifier field.name = true)
    (hcontained : ∀ field ∈ schema, containedType field.type = true)
    (h : List.Forall₂ (fun field d => columnDeclaration nullable field = .ok d) schema declarations) :
    (∀ e ∈ elementsOf schema declarations, Argument e ∧ Steady e) ∧
      List.Forall₂ (fun field element => ∃ type d, element = declared field.name type ∧
        columnDeclaration nullable field = .ok d ∧ Reads type d) schema
        (elementsOf schema declarations) := by
  induction h with
  | nil => exact ⟨by simp [elementsOf], List.Forall₂.nil⟩
  | @cons field d schema declarations hfield _ ih =>
    obtain ⟨hall, hread⟩ := ih (fun f hf => hnames f (List.mem_cons_of_mem _ hf))
      (fun f hf => hcontained f (List.mem_cons_of_mem _ hf))
    have hname := hnames field (List.mem_cons_self ..)
    have hd : d.contained = true := by
      rw [contained_columnDeclaration hfield]
      exact hcontained field (List.mem_cons_self ..)
    constructor
    · intro e he
      rcases List.mem_cons.mp he with rfl | he
      · exact ⟨argument_declared hname (argument_render (parseable_of_contained hd)),
          steady_declared hname (steady_render hd)⟩
      · exact hall e he
    · exact List.Forall₂.cons ⟨d.render, d, rfl, hfield, reads_render hd⟩ hread

theorem columns_eq_elements {declarations : List Declaration} :
    (schema.names.zip (declarations.map Declaration.render)).map
      (fun c => quoted c.1 ++ " ".toList ++ c.2) = elementsOf schema declarations := by
  unfold ArrowSchema.names elementsOf
  rw [List.zip_map, List.map_map]
  rfl

theorem close_engine : ") ENGINE = ".toList = ')' :: " ENGINE = ".toList := rfl

/-- An accepted statement has the intended structure exactly when the types of all
fields are contained. -/
theorem intended_iff
    (h : createSql table schema engine orderBy nullableColumns = .ok statement) :
    (∃ list tail order elements,
      Intended table schema engine orderBy nullableColumns statement.sql list tail order elements) ↔
    ∀ field ∈ schema, containedType field.type = true := by
  constructor
  · rintro ⟨list, tail, order, elements, hintended⟩
    exact contained_of_intended hintended
  · intro hcontained
    obtain ⟨declarations, order, hcreation⟩ := createSql_creation h
    obtain ⟨hall, hread⟩ :=
      elements_properties hcreation.identifiers hcontained hcreation.declared
    have hne : elementsOf schema declarations ≠ [] := by
      intro hnil
      rw [hnil] at hread
      exact hcreation.nonempty (List.forall₂_nil_right_iff.mp hread)
    refine ⟨join ", ".toList (elementsOf schema declarations), _, order, _, ?_, ?_,
      hcreation.ordered, rfl, splitTypeArguments_join hne fun e he => (hall e he).1, hread⟩
    · rw [hcreation.sql, hcreation.columns]
      unfold createText clauses
      rw [columns_eq_elements, close_engine]
      simp only [List.append_assoc, List.cons_append]
    · rw [closeParen_append]
      exact (steady_join fun e he => (hall e he).2).selfContained

end Statement

section Example

/-- The statement for the table of tags has the intended structure. -/
theorem tags_intended : ∃ statement list tail order elements,
    createSql eventsTable tagsSchema "MergeTree".toList none none = .ok statement ∧
      Intended eventsTable tagsSchema "MergeTree".toList none none statement.sql list tail order
        elements := by
  obtain ⟨statement, h⟩ := tags_statement none (.inl rfl)
  obtain ⟨list, tail, order, elements, hintended⟩ := (intended_iff h).mpr (by decide)
  exact ⟨statement, list, tail, order, elements, h, hintended⟩

def tamperedSchema : ArrowSchema :=
  [⟨"at".toList, .timestamp .s (some "UTC'), `x` DateTime64(0, 'UTC".toList), true⟩]

/-- The time zone adds a column to the statement. -/
theorem tampered_not_intended : ¬ ∀ (table : QualifiedTable) (schema : ArrowSchema) (engine : Text)
    (orderBy nullableColumns : Option (List Text)) (statement : CreateTable),
    createSql table schema engine orderBy nullableColumns = .ok statement →
    ∃ list tail order elements,
      Intended table schema engine orderBy nullableColumns statement.sql list tail order
        elements := by
  intro hclaim
  have hcheck : Outcome.check (createSql eventsTable tamperedSchema "MergeTree".toList none none)
      (fun _ => true) = true := by
    decide +kernel
  obtain ⟨statement, h, -⟩ := Outcome.check_eq_true.mp hcheck
  obtain ⟨list, tail, order, elements, hintended⟩ := hclaim _ _ _ _ _ _ h
  have hall : ¬ ∀ field ∈ tamperedSchema, containedType field.type = true := by
    decide +kernel
  exact hall (contained_of_intended hintended)

end Example

end RayClickHouse.Ddl
