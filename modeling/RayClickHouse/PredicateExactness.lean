import RayClickHouse.PredicateTerminals

/-!
The recogniser accepts its grammar exactly, up to three slips: the two on the
terminals, and a declared type that cannot be read, which is an error of its own
once LIKE is reached.
-/
namespace RayClickHouse.PredicateGrammar

open Text Schema TypeText Connectives PredicateTokens PredicateColumns

section Declarations

theorem splitFrom_schema {value current s : Text} {q : Option Char} {depth : ℕ}
    {parts : List Text} {e : Failure} (h : splitFrom value q depth current parts s = .error e) :
    e.kind = .schema := by
  fun_induction splitFrom value q depth current parts s with
  | case1 | case2 | case5 | case6 | case10 | case12 =>
    cases h
    rfl
  | case7 => cases h
  | case3 | case4 | case8 | case9 | case11 | case13 | case14 =>
    rename_i ih
    exact ih h

theorem parseType_schema {value : Text} {e : Failure} (h : parseType value = .error e) :
    e.kind = .schema := by
  unfold parseType at h
  by_cases hempty : strip value = []
  · simp only [hempty, if_true] at h
    cases h
    rfl
  · simp only [hempty, if_false] at h
    cases hsplit : splitOnce "(".toList (strip value) with
    | none =>
      rw [hsplit] at h
      cases h
    | some p =>
      rw [hsplit] at h
      by_cases hlast : p.2.getLast? = some ')'
      · simp only [hlast, if_true] at h
        cases harguments : splitTypeArguments p.2.dropLast with
        | error e' =>
          rw [harguments] at h
          cases h
          exact splitFrom_schema harguments
        | ok arguments =>
          rw [harguments] at h
          cases h
      · simp only [hlast, if_false] at h
        cases h
        rfl

theorem unwrapWithin_schema {fuel : ℕ} {parsed : ClickHouseType} {nullable : Bool} {e : Failure}
    (h : unwrapWithin fuel parsed nullable = .error e) : e.kind = .schema := by
  induction fuel generalizing parsed nullable with
  | zero => cases h
  | succ fuel ih =>
    have hnext : ∀ argument flag,
        (parseType argument >>= fun inner => unwrapWithin fuel inner flag) = .error e →
        e.kind = .schema := by
      intro argument flag hbind
      cases hparse : parseType argument with
      | error e' =>
        rw [hparse] at hbind
        cases hbind
        exact parseType_schema hparse
      | ok inner =>
        rw [hparse] at hbind
        exact ih hbind
    simp only [unwrapWithin] at h
    split at h
    · split at h
      · exact hnext _ _ h
      · cases h
    · split at h
      · split at h
        · exact hnext _ _ h
        · cases h
      · split at h
        · split at h
          · exact hnext _ _ h
          · cases h
        · cases h

theorem isStringColumn_schema {c : TargetColumn} {e : Failure} (h : isStringColumn c = .error e) :
    e.kind = .schema := by
  have hunwrap : unwrap c.declaredType = .error e := by
    unfold isStringColumn at h
    cases hread : unwrap c.declaredType with
    | error e' =>
      rw [hread] at h
      cases h
      rfl
    | ok p =>
      rw [hread] at h
      cases h
  unfold unwrap at hunwrap
  cases hparse : parseType c.declaredType with
  | error e' =>
    rw [hparse] at hunwrap
    cases hunwrap
    exact parseType_schema hparse
  | ok parsed =>
    rw [hparse] at hunwrap
    exact unwrapWithin_schema hunwrap

end Declarations

variable [UnicodeDatabase]

def LikeUnreadable (columns : List TargetColumn) (ts : List Token) : Prop :=
  ∃ p rest e, ts = p ++ rest ∧ Opens role (Atomic (accepted columns)) .expression p ∧
    LikeFails columns e rest

/-- The recogniser returns the columns of a text exactly when the grammar derives
it with them, up to its nesting limit, and refuses every other text. -/
structure RecognisesExactly (columns : List TargetColumn) (text : Text) (ts : List Token) :
    Prop where
  sound : ∀ limit S, predicateColumns limit text columns = .ok S →
    Derivable (written columns) ts S
  complete : ∀ limit S, ts.length ≤ limit → Derivable (written columns) ts S →
    predicateColumns limit text columns = .ok S
  refuses : ∀ limit e, predicateColumns limit text columns = .error e → e.kind = .notApplicable

/-- No slip is met: a text that reads as a predicate once its quotes are stripped
holds no column quoted twice, a predicate holds no parameter that mentions
Identifier outside its type, and LIKE meets no type that cannot be read. -/
structure ReadPlainly (columns : List TargetColumn) (ts : List Token) : Prop where
  quotes : ∀ S, Derivable (accepted columns) ts S → ∀ t ∈ ts, isMisread columns t = false
  parameters : ∀ S, Derivable (written columns) ts S → ∀ t ∈ ts, isMisnamed t = false
  types : ¬ LikeUnreadable columns ts

section Exactness

variable {columns : List TargetColumn} {text : Text} {ts : List Token} {S : Finset Text}

theorem predicateColumns_eq_ok {limit : ℕ} (htokens : tokens text = .ok ts) :
    predicateColumns limit text columns = .ok S ↔
      ∃ f, (reader columns).expression limit ts = .ok (f, []) ∧ mentioned f = S ∧ S ≠ ∅ := by
  simp only [predicateColumns, htokens, Except.bind_eq_ok, Except.ok.injEq, Prod.exists,
    exists_eq_left']
  constructor
  · rintro ⟨f, rest, hread, hout⟩
    by_cases hbad : rest ≠ [] ∨ mentioned f = ∅
    · rw [if_pos hbad] at hout
      cases hout
    · rw [if_neg hbad] at hout
      cases Except.ok.inj hout
      obtain ⟨hrest, hne⟩ := not_or.mp hbad
      rw [not_not.mp hrest] at hread
      exact ⟨f, hread, rfl, hne⟩
  · rintro ⟨f, hread, rfl, hne⟩
    refine ⟨f, [], hread, ?_⟩
    rw [if_neg (by simpa using hne)]

theorem predicateColumns_error {limit : ℕ} {e : Failure} (htokens : tokens text = .ok ts)
    (h : predicateColumns limit text columns = .error e) :
    e.kind = .notApplicable ∨ (reader columns).expression limit ts = .error e := by
  simp only [predicateColumns, htokens, Except.bind_eq_error, reduceCtorEq, Except.ok.injEq,
    Prod.exists, exists_eq_left', false_or] at h
  rcases h with h | ⟨f, rest, -, h⟩
  · exact Or.inr h
  · split_ifs at h
    cases h
    exact Or.inl rfl

theorem derivable_accepted (hplain : ∀ c ∈ columns, PlainName c.name)
    (htokens : tokens text = .ok ts) {limit : ℕ} (h : predicateColumns limit text columns = .ok S) :
    Derivable (accepted columns) ts S := by
  obtain ⟨f, hread, hmentioned, hne⟩ := (predicateColumns_eq_ok htokens).mp h
  obtain ⟨used, hused, hd⟩ := Reader.expression_sound
    (Reader.term_sound (reader_lawful hplain) limit) ts f [] hread
  rw [List.append_nil] at hused
  subst hused
  exact ⟨f, hd, hmentioned, hne⟩

theorem predicateColumns_complete (hplain : ∀ c ∈ columns, PlainName c.name)
    (htokens : tokens text = .ok ts) {limit : ℕ} (hlimit : ts.length ≤ limit)
    (h : Derivable (accepted columns) ts S) : predicateColumns limit text columns = .ok S := by
  obtain ⟨f, hd, hmentioned, hne⟩ := h
  apply (predicateColumns_eq_ok htokens).mpr
  exact ⟨f, Reader.expression_complete (reader_lawful hplain) hd hlimit, hmentioned, hne⟩

theorem Derivable.mono {T T' : Terminals} {P : Token → Prop}
    (hconstant : ∀ s t, P t → T.constant s t → T'.constant s t)
    (hcolumn : ∀ t c, P t → T.column t c → T'.column t c) (h : Derivable T ts S)
    (hall : ∀ t ∈ ts, P t) : Derivable T' ts S := by
  obtain ⟨f, hd, hmentioned⟩ := h
  exact ⟨f, hd.mono (fun a us hus ha => ha.mono hconstant hcolumn hus) hall, hmentioned⟩

theorem Derivable.forall_mem {T : Terminals} {P : Token → Prop}
    (hfixed : ∀ t, upper t.text ∈ fixedTexts → P t) (hconstant : ∀ s t, T.constant s t → P t)
    (hcolumn : ∀ t c, T.column t c → P t) (h : Derivable T ts S) : ∀ t ∈ ts, P t := by
  obtain ⟨f, hd, -⟩ := h
  exact hd.forall_mem (fun t ht => hfixed t (fixed_of_role ht))
    fun a us ha => ha.forall_mem hfixed hconstant hcolumn

/-- The grammar as it is meant derives no text with a column quoted twice. -/
theorem Derivable.not_misread (hplain : ∀ c ∈ columns, PlainName c.name)
    (h : Derivable (written columns) ts S) : ∀ t ∈ ts, isMisread columns t = false := by
  refine h.forall_mem (P := fun t => isMisread columns t = false) ?_ ?_ ?_
  · intro t hfixed
    by_cases hkind : t.kind = .quoted
    · exact absurd hfixed (upper_not_fixed_of_kind (Or.inr (Or.inl hkind)))
    · simp [isMisread, hkind]
  · intro s t hconstant
    by_cases hkind : t.kind = .quoted
    · simp [written, hkind] at hconstant
    · simp [isMisread, hkind]
  · intro t c hcolumn
    have htoken := (accepted_column_of_written hplain hcolumn).2
    simp [isMisread, htoken, hcolumn.2]

/-- The code accepts no text with a parameter that mentions Identifier. -/
theorem Derivable.not_misnamed (h : Derivable (accepted columns) ts S) :
    ∀ t ∈ ts, isMisnamed t = false := by
  refine h.forall_mem (P := fun t => isMisnamed t = false) ?_ ?_ ?_
  · intro t hfixed
    by_cases hkind : t.kind = .parameter
    · exact absurd hfixed (upper_not_fixed_of_kind (Or.inr (Or.inr hkind)))
    · simp [isMisnamed, hkind]
  · intro s t hconstant
    by_cases hkind : t.kind = .parameter
    · simp only [accepted, constantToken, hkind] at hconstant
      by_cases hrefused :
          t.text.head? = some '{' ∧ searchWords identifierWords none t.text = true
      · rw [if_pos hrefused] at hconstant
        cases hconstant
      · apply Bool.eq_false_iff.mpr
        intro hmisnamed
        simp only [isMisnamed, Bool.and_eq_true, beq_iff_eq] at hmisnamed
        exact hrefused ⟨hmisnamed.1.1.2, hmisnamed.1.2⟩
    · simp [isMisnamed, hkind]
  · intro t c hcolumn
    obtain ⟨hkind, -⟩ := columnToken_spec hcolumn.2
    rcases hkind with hkind | hkind
    · simp [isMisnamed, hkind]
    · simp [isMisnamed, hkind]

theorem likeUnreadable_fails (hplain : ∀ c ∈ columns, PlainName c.name)
    (htokens : tokens text = .ok ts) (h : LikeUnreadable columns ts) :
    ∃ limit e, predicateColumns limit text columns = .error e ∧ e.kind = .schema := by
  obtain ⟨p, rest, e, rfl, hopens, hfails⟩ := h
  have hread : (reader columns).expression (p.length + 1) (p ++ rest) = .error e := by
    refine Reader.read_error (reader_lawful hplain) hopens (comparison_likeFails hfails) ?_
      (Nat.lt_succ_self p.length)
    obtain ⟨k, c, negated, ns, l, after, rfl, hk, -⟩ := hfails
    intro t ht
    cases ht
    obtain ⟨hnot, hopen⟩ := operand_head hplain (.column hk)
    constructor
    · intro hrole
      rw [spells_not_of_role hrole] at hnot
      cases hnot
    · intro hrole
      rw [spells_opening_of_role hrole] at hopen
      cases hopen
  obtain ⟨k, c, negated, ns, l, after, -, -, -, -, hc⟩ := hfails
  refine ⟨p.length + 1, e, ?_, isStringColumn_schema hc⟩
  simp only [predicateColumns, htokens, Except.bind_eq_error]
  right
  exact ⟨p ++ rest, rfl, Or.inl hread⟩

theorem predicateColumns_refuses (hplain : ∀ c ∈ columns, PlainName c.name)
    (htokens : tokens text = .ok ts) (htypes : ¬ LikeUnreadable columns ts) {limit : ℕ}
    {e : Failure} (h : predicateColumns limit text columns = .error e) :
    e.kind = .notApplicable := by
  rcases predicateColumns_error htokens h with hkind | hread
  · exact hkind
  · rcases Reader.expression_error (reader_lawful hplain)
      (fun ts hterm => Reader.term_error (reader_lawful hplain) hterm) hread with
      rfl | rfl | ⟨p, rest, hts, hopens, hatomic⟩
    · rfl
    · rfl
    · rcases comparison_error hatomic with hkind | hfails
      · exact hkind
      · exact absurd ⟨p, rest, e, hts, hopens, hfails⟩ htypes

theorem recognises_exactly_iff (hplain : ∀ c ∈ columns, PlainName c.name)
    (htokens : tokens text = .ok ts) :
    RecognisesExactly columns text ts ↔ ReadPlainly columns ts := by
  constructor
  · intro h
    refine ⟨?_, ?_, ?_⟩
    · intro S hS
      have hreturned := predicateColumns_complete hplain htokens le_rfl hS
      exact (h.sound _ S hreturned).not_misread hplain
    · intro S hS
      have hreturned := h.complete ts.length S le_rfl hS
      exact (derivable_accepted hplain htokens hreturned).not_misnamed
    · intro hlike
      obtain ⟨limit, e, herror, hschema⟩ := likeUnreadable_fails hplain htokens hlike
      have hkind := h.refuses limit e herror
      rw [hschema] at hkind
      cases hkind
  · intro h
    refine ⟨?_, ?_, ?_⟩
    · intro limit S hreturned
      have hS := derivable_accepted hplain htokens hreturned
      exact hS.mono (P := fun t => isMisread columns t = false)
        (fun s t _ hconstant => written_constant_of_accepted hconstant)
        (fun t c ht hcolumn => written_column_of_accepted hcolumn ht) (h.quotes S hS)
    · intro limit S hlimit hS
      apply predicateColumns_complete hplain htokens hlimit
      exact hS.mono (P := fun t => isMisnamed t = false)
        (fun s t ht hconstant => accepted_constant_of_written hconstant ht)
        (fun t c _ hcolumn => accepted_column_of_written hplain hcolumn) (h.parameters S hS)
    · intro limit e herror
      exact predicateColumns_refuses hplain htokens h.types herror

end Exactness

section Examples

omit [UnicodeDatabase]

def exampleColumns : List TargetColumn :=
  [{ name := "id".toList, declaredType := "Int64".toList, position := 1 },
    { name := "name".toList, declaredType := "Nullable(String)".toList, position := 2 }]

theorem exampleColumns_plain : ∀ c ∈ exampleColumns, PlainName c.name := by
  intro c hc
  simp only [exampleColumns, List.mem_cons, List.not_mem_nil, or_false] at hc
  rcases hc with rfl | rfl
  · exact ⟨by simp, by decide +kernel⟩
  · exact ⟨by simp, by decide +kernel⟩

/-- Every declared type of the example can be read. -/
theorem exampleColumns_readable {ts : List (@Token asciiDatabase)} :
    ¬ @LikeUnreadable asciiDatabase exampleColumns ts := by
  let _ := asciiDatabase
  rintro ⟨p, rest, e, -, -, k, c, negated, ns, l, after, -, hk, -, -, hc⟩
  have hmem := (columnToken_spec hk.2).2.2.1
  have hall :
      (exampleColumns.all fun c => Outcome.check (isStringColumn c) fun _ => true) = true := by
    decide +kernel
  obtain ⟨answer, hok, -⟩ := Outcome.check_eq_true.mp (List.all_eq_true.mp hall c hmem)
  rw [hok] at hc
  cases hc

def plainPredicate : Text := "id >= 1 AND NOT (`name` LIKE 'a%' OR \"id\" IN (2, 3))".toList

theorem plain_predicate_recognised :
    ∃ ts, @tokens asciiDatabase plainPredicate = .ok ts ∧
      @RecognisesExactly asciiDatabase exampleColumns plainPredicate ts := by
  let _ := asciiDatabase
  have hcheck : Outcome.check (tokens plainPredicate)
      (fun ts => ts.all fun t => !isMisread exampleColumns t && !isMisnamed t) = true := by
    decide +kernel
  obtain ⟨ts, htokens, hall⟩ := Outcome.check_eq_true.mp hcheck
  have hread : ∀ t ∈ ts, isMisread exampleColumns t = false ∧ isMisnamed t = false := by
    intro t ht
    simpa using List.all_eq_true.mp hall t ht
  refine ⟨ts, htokens, (recognises_exactly_iff exampleColumns_plain htokens).mpr ?_⟩
  exact ⟨fun _ _ t ht => (hread t ht).1, fun _ _ t ht => (hread t ht).2, exampleColumns_readable⟩

def doublyQuoted : Text := "`\"id\"` = 1".toList

/-- The recogniser takes it for the column id. -/
theorem doubly_quoted_column_misread :
    (∀ c ∈ exampleColumns, PlainName c.name) ∧
      ∃ ts, @tokens asciiDatabase doublyQuoted = .ok ts ∧
        @predicateColumns asciiDatabase 10 doublyQuoted exampleColumns = .ok {"id".toList} ∧
        ¬ @RecognisesExactly asciiDatabase exampleColumns doublyQuoted ts := by
  let _ := asciiDatabase
  refine ⟨exampleColumns_plain, ?_⟩
  have htokens : Outcome.check (tokens doublyQuoted)
      (fun ts => ts.any (isMisread exampleColumns)) = true := by
    decide +kernel
  obtain ⟨ts, hok, hany⟩ := Outcome.check_eq_true.mp htokens
  obtain ⟨t, ht, hmisread⟩ := List.any_eq_true.mp hany
  have hreturned : Outcome.check (predicateColumns 10 doublyQuoted exampleColumns)
      (fun S => decide (S = {"id".toList})) = true := by
    decide +kernel
  obtain ⟨S, hS, heq⟩ := Outcome.check_eq_true.mp hreturned
  cases of_decide_eq_true heq
  refine ⟨ts, hok, hS, ?_⟩
  intro h
  have hplain := (h.sound 10 _ hS).not_misread exampleColumns_plain t ht
  rw [hmisread] at hplain
  cases hplain

end Examples

end RayClickHouse.PredicateGrammar
