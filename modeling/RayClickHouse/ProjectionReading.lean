import RayClickHouse.ReadProjection
import RayClickHouse.TypeScan

/-!
Reading a projection back by the rules for backquoted identifiers. A name that needs
an escape is not escaped, and then no text behind it can make it read as itself.
-/
namespace RayClickHouse.Schema

open Text TypeText

/-- After an opening backquote: the name up to the closing one, and what follows. A
backslash escapes the character after it, a doubled backquote stands for one. -/
def readIdentifier : Text → Option (Text × Text)
  | [] => none
  | [c] => if c = '`' then some ([], []) else none
  | c :: d :: rest =>
      if c = '\\' then (readIdentifier rest).map fun p => (d :: p.1, p.2)
      else if c = '`' then
        if d = '`' then (readIdentifier rest).map fun p => ('`' :: p.1, p.2)
        else some ([], d :: rest)
      else (readIdentifier (d :: rest)).map fun p => (c :: p.1, p.2)

/-- The identifier of a column, or a CAST of it under the same name: the item, and
what follows it. -/
inductive ReadsItem (name transport : Text) : Text → Text → Prop
  | identifier {s rest : Text} (h : readIdentifier s = some (name, rest)) :
      ReadsItem name transport ('`' :: s) rest
  | cast {s renamed rest : Text}
      (hsource : readIdentifier s =
        some (name, " AS ".toList ++ transport ++ ") AS ".toList ++ '`' :: renamed))
      (hrenamed : readIdentifier renamed = some (name, rest)) :
      ReadsItem name transport ("CAST(".toList ++ '`' :: s) rest

inductive ReadsItems : List (Text × Text) → Text → Prop
  | nil : ReadsItems [] []
  | last {name transport s : Text} (h : ReadsItem name transport s []) :
      ReadsItems [(name, transport)] s
  | cons {name transport s rest : Text} {next : Text × Text} {more : List (Text × Text)}
      (h : ReadsItem name transport s (", ".toList ++ rest)) (hmore : ReadsItems (next :: more) rest) :
      ReadsItems ((name, transport) :: next :: more) s

def needsEscape (c : Char) : Bool := c == '`' || c == '\\'

def plainName (name : Text) : Bool := name.all fun c => !needsEscape c

section Unescape

inductive Unescapes : Text → Text → Prop
  | nil : Unescapes [] []
  | plain {c : Char} {body name : Text} (hc : needsEscape c = false) (h : Unescapes body name) :
      Unescapes (c :: body) (c :: name)
  | escape {d : Char} {body name : Text} (h : Unescapes body name) :
      Unescapes ('\\' :: d :: body) (d :: name)
  | doubled {body name : Text} (h : Unescapes body name) :
      Unescapes ('`' :: '`' :: body) ('`' :: name)

theorem needsEscape_eq_false {c : Char} : needsEscape c = false ↔ c ≠ '`' ∧ c ≠ '\\' := by
  simp only [needsEscape, Bool.or_eq_false_iff, beq_eq_false_iff_ne, ne_eq]

/-- The body of an identifier ends at a backquote that is not doubled. -/
theorem readIdentifier_body {s name rest : Text} (h : readIdentifier s = some (name, rest)) :
    ∃ body, s = body ++ '`' :: rest ∧ Unescapes body name := by
  induction s using readIdentifier.induct generalizing name with
  | case1 => simp [readIdentifier] at h
  | case2 =>
    simp only [readIdentifier, if_true, Option.some.injEq, Prod.mk.injEq] at h
    obtain ⟨rfl, rfl⟩ := h
    exact ⟨[], rfl, Unescapes.nil⟩
  | case3 c hc => simp [readIdentifier, hc] at h
  | case4 d rest' ih =>
    simp only [readIdentifier, if_true] at h
    obtain ⟨p, hp, heq⟩ := Option.map_eq_some_iff.mp h
    obtain ⟨rfl, rfl⟩ := Prod.mk.inj heq
    obtain ⟨body, rfl, hbody⟩ := ih hp
    exact ⟨'\\' :: d :: body, rfl, hbody.escape⟩
  | case5 rest' hescape ih =>
    simp only [readIdentifier, if_neg hescape, if_true] at h
    obtain ⟨p, hp, heq⟩ := Option.map_eq_some_iff.mp h
    obtain ⟨rfl, rfl⟩ := Prod.mk.inj heq
    obtain ⟨body, rfl, hbody⟩ := ih hp
    exact ⟨'`' :: '`' :: body, rfl, hbody.doubled⟩
  | case6 d rest' hescape hd =>
    simp only [readIdentifier, if_neg hescape, if_neg hd, if_true, Option.some.injEq,
      Prod.mk.injEq] at h
    obtain ⟨rfl, rfl⟩ := h
    exact ⟨[], rfl, Unescapes.nil⟩
  | case7 c d rest' hescape hquote ih =>
    simp only [readIdentifier, if_neg hescape, if_neg hquote] at h
    obtain ⟨p, hp, heq⟩ := Option.map_eq_some_iff.mp h
    obtain ⟨rfl, rfl⟩ := Prod.mk.inj heq
    obtain ⟨body, hs, hbody⟩ := ih hp
    refine ⟨c :: body, ?_, hbody.plain (needsEscape_eq_false.mpr ⟨hquote, hescape⟩)⟩
    rw [hs, List.cons_append]

theorem Unescapes.length_le {body name : Text} (h : Unescapes body name) :
    name.length ≤ body.length := by
  induction h with
  | nil => exact Nat.le_refl 0
  | plain _ _ ih =>
    simp only [List.length_cons]
    omega
  | escape _ ih =>
    simp only [List.length_cons]
    omega
  | doubled _ ih =>
    simp only [List.length_cons]
    omega

theorem Unescapes.plainName_of_length {body name : Text} (h : Unescapes body name)
    (hlength : name.length = body.length) : plainName name = true := by
  induction h with
  | nil => rfl
  | @plain c body name hc _ ih =>
    simp only [List.length_cons, Nat.add_right_cancel_iff] at hlength
    unfold plainName at ih ⊢
    rw [List.all_cons, ih hlength, hc]
    rfl
  | @escape d body name h _ =>
    have hle := h.length_le
    simp only [List.length_cons] at hlength
    omega
  | @doubled body name h _ =>
    have hle := h.length_le
    simp only [List.length_cons] at hlength
    omega

/-- A backquote before a plain character is not a doubled one: something escapes it. -/
theorem Unescapes.split {body name m w : Text} {c : Char} (h : Unescapes body name)
    (hc : needsEscape c = false) (hbody : body = m ++ '`' :: c :: w) :
    ∃ m₀ a n₁ n₂, m = m₀ ++ [a] ∧ needsEscape a = true ∧ Unescapes m₀ n₁ ∧
      Unescapes (c :: w) n₂ ∧ name = n₁ ++ '`' :: n₂ := by
  obtain ⟨hquote, hslash⟩ := needsEscape_eq_false.mp hc
  induction h generalizing m with
  | nil => simp at hbody
  | @plain x body name hx _ ih =>
    cases m with
    | nil =>
      obtain ⟨rfl, -⟩ := List.cons.inj hbody
      contradiction
    | cons y m =>
      obtain ⟨rfl, hrest⟩ := List.cons.inj hbody
      obtain ⟨m₀, a, n₁, n₂, rfl, ha, hm₀, hw, rfl⟩ := ih hrest
      exact ⟨x :: m₀, a, x :: n₁, n₂, rfl, ha, hm₀.plain hx, hw, rfl⟩
  | @escape d body name hbody' ih =>
    rcases m with _ | ⟨y, _ | ⟨z, m⟩⟩
    · exact absurd (List.cons.inj hbody).1 (by decide)
    · simp only [List.cons_append, List.nil_append, List.cons.injEq] at hbody
      obtain ⟨rfl, rfl, rfl⟩ := hbody
      exact ⟨[], '\\', [], name, rfl, rfl, Unescapes.nil, hbody', rfl⟩
    · simp only [List.cons_append, List.cons.injEq] at hbody
      obtain ⟨rfl, rfl, hrest⟩ := hbody
      obtain ⟨m₀, a, n₁, n₂, rfl, ha, hm₀, hw, rfl⟩ := ih hrest
      exact ⟨'\\' :: d :: m₀, a, d :: n₁, n₂, rfl, ha, hm₀.escape, hw, rfl⟩
  | @doubled body name hbody' ih =>
    rcases m with _ | ⟨y, _ | ⟨z, m⟩⟩
    · simp only [List.nil_append, List.cons.injEq] at hbody
      exact absurd hbody.2.1.symm hquote
    · simp only [List.cons_append, List.nil_append, List.cons.injEq] at hbody
      obtain ⟨rfl, -, rfl⟩ := hbody
      exact ⟨[], '`', [], name, rfl, rfl, Unescapes.nil, hbody', rfl⟩
    · simp only [List.cons_append, List.cons.injEq] at hbody
      obtain ⟨rfl, rfl, hrest⟩ := hbody
      obtain ⟨m₀, a, n₁, n₂, rfl, ha, hm₀, hw, rfl⟩ := ih hrest
      exact ⟨'`' :: '`' :: m₀, a, '`' :: n₁, n₂, rfl, ha, hm₀.doubled, hw, rfl⟩

/-- No name goes on over its own closing backquote and still stands for itself. -/
theorem not_unescapes_self {m w : Text} {c : Char} (hc : needsEscape c = false) :
    ¬ Unescapes (m ++ '`' :: c :: w) m := by
  intro h
  induction hlength : m.length using Nat.strong_induction_on generalizing m w with
  | _ k ih =>
    obtain ⟨m₀, a, n₁, n₂, hm, ha, hm₀, hw, hname⟩ := h.split hc rfl
    obtain ⟨hquote, hslash⟩ := needsEscape_eq_false.mp hc
    cases hw with
    | @plain _ _ n₂ _ hw =>
      rw [hm] at hname
      rcases List.eq_nil_or_concat n₂ with rfl | ⟨w₂, b, rfl⟩
      · have hlast : (n₁ ++ ['`']) ++ [c] = m₀ ++ [a] := by
          rw [hname]
          simp
        rw [(List.append_inj_right' hlast rfl |> List.cons.inj).1, ha] at hc
        contradiction
      · have hsplit : m₀ = n₁ ++ '`' :: c :: w₂ := by
          have hconcat : m₀ ++ [a] = (n₁ ++ '`' :: c :: w₂) ++ [b] := by
            rw [hname]
            simp
          exact List.append_inj_left' hconcat rfl
        rw [hsplit] at hm₀
        refine ih n₁.length ?_ hm₀ rfl
        rw [← hlength, hm, hsplit]
        simp only [List.length_append, List.length_cons]
        omega
    | escape _ => exact hslash rfl
    | doubled _ => exact hquote rfl

/-- An identifier that reads as its own name is plain, and ends where it should. -/
theorem readIdentifier_self {name rest r : Text}
    (hrest : ∀ c, rest.head? = some c → needsEscape c = false)
    (h : readIdentifier (name ++ '`' :: rest) = some (name, r)) :
    plainName name = true ∧ r = rest := by
  obtain ⟨body, heq, hbody⟩ := readIdentifier_body h
  have hle := hbody.length_le
  rcases List.append_eq_append_iff.mp heq with ⟨x, hx, htail⟩ | ⟨x, hx, htail⟩
  · cases x with
    | nil =>
      rw [List.append_nil] at hx
      refine ⟨hbody.plainName_of_length (by rw [hx]), ?_⟩
      exact (List.cons.inj htail).2.symm
    | cons d x =>
      obtain ⟨rfl, hafter⟩ := List.cons.inj htail
      cases x with
      | nil =>
        have hquote := hrest '`' (by rw [hafter]; rfl)
        contradiction
      | cons c x =>
        have hc := hrest c (by rw [hafter]; rfl)
        rw [hx] at hbody
        exact absurd hbody (not_unescapes_self hc)
  · cases x with
    | nil =>
      rw [List.append_nil] at hx
      refine ⟨hbody.plainName_of_length (by rw [hx]), ?_⟩
      exact (List.cons.inj htail).2
    | cons d x =>
      rw [hx] at hle
      simp only [List.length_append, List.length_cons] at hle
      omega

theorem readIdentifier_plain {name rest : Text} (h : plainName name = true)
    (hrest : ∀ c, rest.head? = some c → needsEscape c = false) :
    readIdentifier (name ++ '`' :: rest) = some (name, rest) := by
  induction name with
  | nil =>
    cases rest with
    | nil => rfl
    | cons c rest =>
      have hc := (needsEscape_eq_false.mp (hrest c rfl)).1
      simp [readIdentifier, hc]
  | cons c name ih =>
    unfold plainName at h ih
    rw [List.all_cons, Bool.and_eq_true, Bool.not_eq_true'] at h
    obtain ⟨hquote, hslash⟩ := needsEscape_eq_false.mp h.1
    cases htail : name ++ '`' :: rest with
    | nil => simp at htail
    | cons d more =>
      rw [List.cons_append, htail, readIdentifier, if_neg hslash, if_neg hquote, ← htail, ih h.2]
      rfl

end Unescape

section Items

variable {name transport tail r : Text}

def itemText (name transport : Text) (direct : Bool) : Text :=
  if direct then quoted name
  else
    "CAST(".toList ++ quoted name ++ " AS ".toList ++ transport ++ ") AS ".toList ++ quoted name

theorem renderReadColumn_eq (column : TargetColumn) :
    renderReadColumn column = (transportTypeExpression column.declaredType).map fun transport =>
      itemText column.name transport (decide (transport = strip column.declaredType)) := by
  unfold renderReadColumn
  cases transportTypeExpression column.declaredType with
  | error failure => rfl
  | ok transport =>
    simp only [bind, Except.bind, Except.map, itemText, decide_eq_true_eq]
    split_ifs
    · rfl
    · rfl

theorem readsItem_quoted {s : Text} :
    ReadsItem name transport ('`' :: s) r ↔ readIdentifier s = some (name, r) := by
  constructor
  · intro h
    cases h with
    | identifier h => exact h
  · exact ReadsItem.identifier

theorem readsItem_cast {s : Text} :
    ReadsItem name transport ("CAST(".toList ++ '`' :: s) r ↔ ∃ renamed,
      readIdentifier s =
        some (name, " AS ".toList ++ transport ++ ") AS ".toList ++ '`' :: renamed) ∧
      readIdentifier renamed = some (name, r) := by
  constructor
  · intro h
    generalize htext : "CAST(".toList ++ '`' :: s = text at h
    cases h with
    | identifier h => exact absurd (List.cons.inj htext).1 (by decide)
    | @cast s' renamed _ hsource hrenamed =>
      rw [List.append_cancel_left_eq, List.cons.injEq] at htext
      rw [htext.2]
      exact ⟨renamed, hsource, hrenamed⟩
  · rintro ⟨renamed, hsource, hrenamed⟩
    exact ReadsItem.cast hsource hrenamed

/-- The item of a column, with something after it that does not go on with it, is read
as that item exactly when the name is plain. -/
theorem readsItem_iff {direct : Bool} (htail : ∀ c, tail.head? = some c → needsEscape c = false) :
    ReadsItem name transport (itemText name transport direct ++ tail) r ↔
      plainName name = true ∧ r = tail := by
  have hreads : readIdentifier (name ++ '`' :: tail) = some (name, r) ↔
      plainName name = true ∧ r = tail := by
    constructor
    · exact readIdentifier_self htail
    · rintro ⟨hname, rfl⟩
      exact readIdentifier_plain hname htail
  cases direct with
  | true =>
    have htext : itemText name transport true ++ tail = '`' :: (name ++ '`' :: tail) := by
      simp [itemText, quoted]
    rw [htext, readsItem_quoted, hreads]
  | false =>
    have htext : itemText name transport false ++ tail = "CAST(".toList ++ '`' :: (name ++ '`' ::
        (" AS ".toList ++ transport ++ ") AS ".toList ++ '`' :: (name ++ '`' :: tail))) := by
      simp [itemText, quoted]
    have hhead : ∀ c, (" AS ".toList ++ transport ++ ") AS ".toList ++
        '`' :: (name ++ '`' :: tail)).head? = some c → needsEscape c = false := by
      intro c hc
      rw [← Option.some.inj hc]
      rfl
    rw [htext, readsItem_cast]
    constructor
    · rintro ⟨renamed, hsource, hrenamed⟩
      obtain ⟨-, hequal⟩ := readIdentifier_self hhead hsource
      rw [List.append_cancel_left_eq, List.cons.injEq] at hequal
      rw [hequal.2] at hrenamed
      exact hreads.mp hrenamed
    · intro hname
      exact ⟨_, readIdentifier_plain hname.1 hhead, hreads.mpr hname⟩

/-- The whole list is read as one item for each column exactly when every name is plain. -/
theorem readsItems_iff {columns : List ((Text × Text) × Bool)} :
    ReadsItems (columns.map Prod.fst)
        (join ", ".toList (columns.map fun c => itemText c.1.1 c.1.2 c.2)) ↔
      ∀ c ∈ columns, plainName c.1.1 = true := by
  induction columns with
  | nil => exact iff_of_true ReadsItems.nil (by simp)
  | cons column rest ih =>
    obtain ⟨⟨name, transport⟩, direct⟩ := column
    rw [List.forall_mem_cons]
    cases rest with
    | nil =>
      have hend : ∀ c, ([] : Text).head? = some c → needsEscape c = false := by simp
      have hitem : ReadsItem name transport (itemText name transport direct ++ []) [] ↔
          plainName name = true ∧ ([] : Text) = [] := readsItem_iff hend
      rw [List.append_nil, and_iff_left rfl] at hitem
      rw [List.map_cons, List.map_cons, List.map_nil, List.map_nil, join_one]
      constructor
      · intro h
        cases h with
        | last h => exact ⟨hitem.mp h, by simp⟩
      · intro h
        exact ReadsItems.last (hitem.mpr h.1)
    | cons next more =>
      have hcomma : ∀ s c, (", ".toList ++ s).head? = some c → needsEscape c = false := by
        intro s c hc
        rw [← Option.some.inj hc]
        rfl
      have hjoin : join ", ".toList ((((name, transport), direct) :: next :: more).map
          fun c => itemText c.1.1 c.1.2 c.2) = itemText name transport direct ++ (", ".toList ++
            join ", ".toList ((next :: more).map fun c => itemText c.1.1 c.1.2 c.2)) := by
        rw [List.map_cons, List.map_cons, join_cons, join_cons, List.flatMap_cons,
          List.append_assoc]
      rw [← ih, hjoin]
      constructor
      · intro h
        change ReadsItems ((name, transport) :: next.1 :: more.map Prod.fst) _ at h
        cases h with
        | cons h hmore =>
          obtain ⟨hname, hrest⟩ := (readsItem_iff (hcomma _)).mp h
          rw [List.append_cancel_left_eq] at hrest
          rw [hrest] at hmore
          exact ⟨hname, hmore⟩
      · rintro ⟨hname, hmore⟩
        exact ReadsItems.cons ((readsItem_iff (hcomma _)).mpr ⟨hname, rfl⟩) hmore

end Items

def namedTransports (columns : List TargetColumn) : Outcome (List (Text × Text)) :=
  columns.mapM fun column => do
    let transport ← transportTypeExpression column.declaredType
    .ok (column.name, transport)

/-- A rendered projection, with the name, the transport type and the form of each item. -/
theorem renderReadProjection_items {columns : List TargetColumn} {projection : Text}
    (h : renderReadProjection columns = .ok projection) :
    ∃ items : List ((Text × Text) × Bool),
      namedTransports columns = .ok (items.map Prod.fst) ∧
      projection = join ", ".toList (items.map fun c => itemText c.1.1 c.1.2 c.2) ∧
      items.map (fun c => c.1.1) = columns.map TargetColumn.name := by
  obtain ⟨texts, htexts, heq⟩ := Except.bind_eq_ok.mp h
  rw [← Except.ok.inj heq]
  rw [Except.mapM_eq_ok] at htexts
  have hitems : ∃ items : List ((Text × Text) × Bool),
      List.Forall₂ (fun column (pair : Text × Text) => (do
        let transport ← transportTypeExpression column.declaredType
        .ok (column.name, transport) : Outcome (Text × Text)) = .ok pair) columns
        (items.map Prod.fst) ∧
      texts = items.map (fun c => itemText c.1.1 c.1.2 c.2) ∧
      items.map (fun c => c.1.1) = columns.map TargetColumn.name := by
    clear h heq
    induction htexts with
    | nil => exact ⟨[], List.Forall₂.nil, rfl, rfl⟩
    | @cons column text columns texts hcolumn _ ih =>
      obtain ⟨items, hpairs, htexts, hnames⟩ := ih
      rw [renderReadColumn_eq] at hcolumn
      obtain ⟨transport, htransport, hitem⟩ := Except.map_eq_ok.mp hcolumn
      refine ⟨((column.name, transport), decide (transport = strip column.declaredType)) :: items,
        List.Forall₂.cons ?_ hpairs, ?_, ?_⟩
      · rw [htransport]
        rfl
      · rw [htexts, ← hitem, List.map_cons]
      · rw [List.map_cons, List.map_cons, hnames]
  obtain ⟨items, hpairs, htexts', hnames⟩ := hitems
  exact ⟨items, Except.mapM_eq_ok.mpr hpairs, by rw [htexts'], hnames⟩

theorem plainName_eq_true {name : Text} :
    plainName name = true ↔ '`' ∉ name ∧ '\\' ∉ name := by
  unfold plainName
  simp only [List.all_eq_true, Bool.not_eq_true', needsEscape_eq_false]
  constructor
  · intro h
    exact ⟨fun hmem => (h _ hmem).1 rfl, fun hmem => (h _ hmem).2 rfl⟩
  · rintro ⟨hquote, hslash⟩ c hc
    exact ⟨fun heq => hquote (heq ▸ hc), fun heq => hslash (heq ▸ hc)⟩

/-- A rendered projection has exactly one item for each column, which denotes the column
by its name, exactly when no name contains a backquote or a backslash. -/
theorem projection_reads_iff {columns : List TargetColumn} {projection : Text}
    (h : renderReadProjection columns = .ok projection) :
    (∃ pairs, namedTransports columns = .ok pairs ∧ ReadsItems pairs projection) ↔
      ∀ column ∈ columns, '`' ∉ column.name ∧ '\\' ∉ column.name := by
  obtain ⟨items, hpairs, rfl, hnames⟩ := renderReadProjection_items h
  have hplain : (∀ c ∈ items, plainName c.1.1 = true) ↔
      ∀ column ∈ columns, '`' ∉ column.name ∧ '\\' ∉ column.name := by
    have hleft : (∀ c ∈ items, plainName c.1.1 = true) ↔
        ∀ n ∈ items.map (fun c => c.1.1), plainName n = true := by
      rw [List.forall_mem_map]
    rw [hleft, hnames, List.forall_mem_map]
    simp only [plainName_eq_true]
  rw [← hplain, ← readsItems_iff]
  constructor
  · rintro ⟨pairs, hsame, hreads⟩
    rw [hpairs] at hsame
    rw [Except.ok.inj hsame]
    exact hreads
  · intro hreads
    exact ⟨_, hpairs, hreads⟩

section Example

def describedColumn (name : Text) : TargetColumn := ⟨name, "Date".toList, [], [], 1⟩

def plainColumns : List TargetColumn :=
  [⟨"id".toList, "UInt64".toList, [], [], 1⟩, describedColumn "day".toList]

/-- Plain names are read back, that of a column and that of a CAST. -/
theorem plain_projection_reads : ∃ projection pairs,
    renderReadProjection plainColumns = .ok projection ∧
      projection = "`id`, CAST(`day` AS Date32) AS `day`".toList ∧
      namedTransports plainColumns = .ok pairs ∧ ReadsItems pairs projection := by
  have hcheck : Outcome.check (renderReadProjection plainColumns) (fun projection =>
      decide (projection = "`id`, CAST(`day` AS Date32) AS `day`".toList)) = true := by
    decide +kernel
  obtain ⟨projection, h, htext⟩ := Outcome.check_eq_true.mp hcheck
  obtain ⟨pairs, hpairs, hreads⟩ := (projection_reads_iff h).mpr (by decide)
  exact ⟨projection, pairs, h, of_decide_eq_true htext, hpairs, hreads⟩

/-- A name with a backquote in it: the projection of one column reads as two. -/
theorem quoted_name_escapes : ¬ ∀ (columns : List TargetColumn) (projection : Text),
    renderReadProjection columns = .ok projection →
    ∃ pairs, namedTransports columns = .ok pairs ∧ ReadsItems pairs projection := by
  intro hclaim
  have hcheck : Outcome.check (renderReadProjection [describedColumn "a`, `b".toList])
      (fun _ => true) = true := by
    decide +kernel
  obtain ⟨projection, h, -⟩ := Outcome.check_eq_true.mp hcheck
  obtain ⟨pairs, hpairs, hreads⟩ := hclaim _ _ h
  obtain ⟨items, hitems, rfl, hnames⟩ := renderReadProjection_items h
  rw [hitems] at hpairs
  rw [← Except.ok.inj hpairs, readsItems_iff] at hreads
  have hmem : "a`, `b".toList ∈ items.map fun c => c.1.1 := by
    rw [hnames]
    exact List.mem_singleton_self _
  obtain ⟨c, hc, hname⟩ := List.mem_map.mp hmem
  have hplain := hreads c hc
  rw [hname] at hplain
  exact absurd hplain (by decide)

end Example

end RayClickHouse.Schema
