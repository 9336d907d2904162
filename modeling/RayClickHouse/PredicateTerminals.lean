import RayClickHouse.TokenSpelling

/-!
The terminals of the grammar as it is meant, beside those the code accepts. They
differ on two kinds of tokens: a column token is unquoted by stripping every
quote character, and a parameter counts as an identifier binding by its name as
well as by its type.
-/
namespace RayClickHouse.PredicateGrammar

open Text Schema TypeText Connectives PredicateTokens PredicateColumns

def keywords : List Text :=
  ["AND", "OR", "NOT", "BETWEEN", "LIKE", "IN", "IS", "NULL", "TRUE", "FALSE"].map String.toList

/-- A column name without quotes or backslashes that is no keyword. -/
structure PlainName (name : Text) : Prop where
  unquoted : ∀ c ∈ name, c ≠ '\'' ∧ c ≠ '"' ∧ c ≠ '`' ∧ c ≠ '\\'
  keyword : upper name ∉ keywords

variable [UnicodeDatabase]

section Terminals

def isIdentifierParameter (t : Token) : Bool :=
  t.text.head? == some '{' &&
    searchWords identifierWords (some ':') (t.text.dropWhile (fun c => c != ':')).tail

/-- The column is written as itself or in one pair of quotes. -/
def isWrittenAs (name : Text) (t : Token) : Bool :=
  (t.kind = .word && t.text = name) ||
    (t.kind = .quoted && (t.text = '`' :: (name ++ ['`']) || t.text = '"' :: (name ++ ['"'])))

def Known (columns : List TargetColumn) (c : TargetColumn) : Prop :=
  columnNamed columns c.name = some c ∧ eligible c = true

def written (columns : List TargetColumn) : Terminals where
  constant stringOnly t :=
    match t.kind with
    | .string => True
    | .parameter => isIdentifierParameter t = false
    | .number => stringOnly = false
    | .word => stringOnly = false ∧ upper t.text ∈ constantWords
    | _ => False
  column t c := Known columns c ∧ isWrittenAs c.name t = true

/-- A quoted token that names a known column only after all its quotes are stripped. -/
def isMisread (columns : List TargetColumn) (t : Token) : Bool :=
  t.kind = .quoted && (columnToken columns t).any fun c => !isWrittenAs c.name t

/-- A typed placeholder that mentions Identifier, but not in its type. -/
def isMisnamed (t : Token) : Bool :=
  t.kind = .parameter && t.text.head? == some '{' && searchWords identifierWords none t.text &&
    !isIdentifierParameter t

end Terminals

section Readings

variable {columns : List TargetColumn} {t : Token} {c : TargetColumn} {stringOnly : Bool}

theorem columnToken_spec (h : columnToken columns t = some c) :
    (t.kind = .word ∨ t.kind = .quoted) ∧ c.name = stripChars ['`', '"'] t.text ∧ c ∈ columns ∧
      Known columns c := by
  unfold columnToken at h
  by_cases hkind : t.kind = .word ∨ t.kind = .quoted
  · rw [if_pos hkind] at h
    obtain ⟨hnamed, heligible⟩ := Option.filter_eq_some_iff.mp h
    obtain ⟨hname, hmem⟩ := columnNamed_spec hnamed
    exact ⟨hkind, hname, hmem, hname ▸ hnamed, heligible⟩
  · rw [if_neg hkind] at h
    cases h

theorem columnToken_of_known (hkind : t.kind = .word ∨ t.kind = .quoted) (hknown : Known columns c)
    (hname : stripChars ['`', '"'] t.text = c.name) : columnToken columns t = some c := by
  unfold columnToken
  rw [if_pos hkind, hname]
  exact Option.filter_eq_some_iff.mpr hknown

theorem strip_word (h : t.kind = .word) : stripChars ['`', '"'] t.text = t.text := by
  have hspelled := t.spelled
  rw [h] at hspelled
  apply stripChars_self
  intro d hd hquote
  have hpart := isIdentifier_mem hspelled d hd
  simp only [List.mem_cons, List.not_mem_nil, or_false] at hquote
  rcases hquote with rfl | rfl
  · exact absurd hpart (by decide)
  · exact absurd hpart (by decide)

theorem searchWords_append {words : List Text} {c : Char} {after : Text}
    (h : searchWords words (some c) after = true) (before : Text) (previous : Option Char) :
    searchWords words previous (before ++ c :: after) = true := by
  induction before generalizing previous with
  | nil =>
    simp only [List.nil_append, searchWords, h, Bool.or_true]
  | cons d before ih =>
    simp only [List.cons_append, searchWords, ih, Bool.or_true]

theorem mentions_of_isIdentifierParameter (h : isIdentifierParameter t = true) :
    t.text.head? = some '{' ∧ searchWords identifierWords none t.text = true := by
  simp only [isIdentifierParameter, Bool.and_eq_true, beq_iff_eq] at h
  refine ⟨h.1, ?_⟩
  have hsplit := @List.takeWhile_append_dropWhile _ (fun c : Char => c != ':') t.text
  cases hdrop : t.text.dropWhile (fun c => c != ':') with
  | nil =>
    rw [hdrop] at h
    exact absurd h.2 (by simp [searchWords])
  | cons d type =>
    have hd : d = ':' := by
      have hhead := List.head?_dropWhile_not (fun c : Char => c != ':') t.text
      rw [hdrop] at hhead
      simpa using hhead
    rw [hdrop, hd] at hsplit
    rw [hdrop] at h
    rw [← hsplit]
    exact searchWords_append h.2 _ _

theorem written_constant_of_accepted (h : (accepted columns).constant stringOnly t) :
    (written columns).constant stringOnly t := by
  simp only [accepted, constantToken] at h
  simp only [written]
  cases hkind : t.kind with
  | string => trivial
  | parameter =>
    apply Bool.eq_false_iff.mpr
    intro hparameter
    simp only [hkind, mentions_of_isIdentifierParameter hparameter, and_self, if_true] at h
    cases h
  | number =>
    simpa [hkind] using h
  | word =>
    simpa [hkind] using h
  | quoted => simp [hkind] at h
  | symbol => simp [hkind] at h

theorem accepted_constant_of_written (h : (written columns).constant stringOnly t)
    (hnamed : isMisnamed t = false) : (accepted columns).constant stringOnly t := by
  simp only [accepted, constantToken]
  simp only [written] at h
  cases hkind : t.kind with
  | string => rfl
  | parameter =>
    simp only [hkind] at h
    have hrefused :
        ¬ (t.text.head? = some '{' ∧ searchWords identifierWords none t.text = true) := by
      rintro ⟨hhead, hsearch⟩
      simp [isMisnamed, hkind, hhead, hsearch, h] at hnamed
    simp only [hrefused, if_false]
  | number =>
    simpa [hkind] using h
  | word =>
    simpa [hkind] using h
  | quoted => simp [hkind] at h
  | symbol => simp [hkind] at h

theorem written_column_of_accepted (h : (accepted columns).column t c)
    (hmisread : isMisread columns t = false) : (written columns).column t c := by
  obtain ⟨hkind, hname, -, hknown⟩ := columnToken_spec h.2
  refine ⟨hknown, ?_⟩
  rcases hkind with hword | hquoted
  · simp [isWrittenAs, hword, hname, strip_word hword]
  · simpa [isMisread, hquoted, h.2] using hmisread

theorem accepted_column_of_written (hplain : ∀ c ∈ columns, PlainName c.name)
    (h : (written columns).column t c) : (accepted columns).column t c := by
  obtain ⟨hknown, hwritten⟩ := h
  have hname := hplain c (columnNamed_spec hknown.1).2
  have hquotes : ∀ d ∈ c.name, d ∉ ['`', '"'] := by
    intro d hd hmem
    obtain ⟨-, hdouble, hback, -⟩ := hname.unquoted d hd
    simp only [List.mem_cons, List.not_mem_nil, or_false] at hmem
    rcases hmem with h | h
    · exact hback h
    · exact hdouble h
  simp only [isWrittenAs, Bool.or_eq_true, Bool.and_eq_true, decide_eq_true_eq] at hwritten
  rcases hwritten with ⟨hkind, htext⟩ | ⟨hkind, htext⟩
  · refine ⟨?_, columnToken_of_known (Or.inl hkind) hknown ?_⟩
    · have hconstant : upper t.text ∉ constantWords := by
        rw [htext]
        intro hmem
        exact hname.keyword (by
          simp only [constantWords, keywords, List.map_cons, List.mem_cons] at hmem ⊢
          tauto)
      simp [constantToken, hkind, hconstant]
    · rw [strip_word hkind, htext]
  · refine ⟨?_, columnToken_of_known (Or.inr hkind) hknown ?_⟩
    · simp [constantToken, hkind]
    · rcases htext with htext | htext
      · rw [htext]
        exact (stripChars_wrapped (by simp) c.name).trans (stripChars_self hquotes)
      · rw [htext]
        exact (stripChars_wrapped (by simp) c.name).trans (stripChars_self hquotes)

end Readings

section Terminals

variable {T T' : Terminals} {P : Token → Prop} {a : Condition} {us : List Token}

theorem MoreItems.mono {items : List Token}
    (hconstant : ∀ s t, P t → T.constant s t → T'.constant s t) (h : MoreItems T items us)
    (hall : ∀ u ∈ us, P u) : MoreItems T' items us := by
  induction h with
  | nil => exact .nil
  | cons hs ht _ ih =>
    apply MoreItems.cons hs (hconstant _ _ (hall _ (by simp)) ht)
    apply ih
    intro u hu
    exact hall u (List.mem_cons_of_mem _ (List.mem_cons_of_mem _ hu))

theorem OperandText.mono {x : Operand} {t : Token}
    (hconstant : ∀ s t, P t → T.constant s t → T'.constant s t)
    (hcolumn : ∀ t c, P t → T.column t c → T'.column t c) (h : OperandText T x t) (ht : P t) :
    OperandText T' x t := by
  cases h with
  | constant h => exact .constant (hconstant _ _ ht h)
  | column h => exact .column (hcolumn _ _ ht h)

theorem Atomic.mono (hconstant : ∀ s t, P t → T.constant s t → T'.constant s t)
    (hcolumn : ∀ t c, P t → T.column t c → T'.column t c) (h : Atomic T a us)
    (hall : ∀ u ∈ us, P u) : Atomic T' a us := by
  cases h with
  | between hk hns hb hlow ha hhigh =>
    apply Atomic.between (hcolumn _ _ (hall _ _) hk) hns hb (hconstant _ _ (hall _ _) hlow) ha
      (hconstant _ _ (hall _ _) hhigh)
    all_goals simp
  | like hk hc hns hl hp =>
    apply Atomic.like (hcolumn _ _ (hall _ _) hk) hc hns hl (hconstant _ _ (hall _ _) hp)
    all_goals simp
  | inList hk hns hi ho hfirst hus hclose =>
    apply Atomic.inList (hcolumn _ _ (hall _ _) hk) hns hi ho (hconstant _ _ (hall _ _) hfirst)
      (hus.mono hconstant fun u hu => hall u _) hclose
    all_goals simp
    all_goals tauto
  | isNull hk hi hns hn =>
    apply Atomic.isNull (hk.mono hconstant hcolumn (hall _ _)) hi hns hn
    simp
  | compare hk hop hm =>
    apply Atomic.compare (hk.mono hconstant hcolumn (hall _ _)) hop
      (hm.mono hconstant hcolumn (hall _ _))
    all_goals simp

/-- Every token of a comparison is fixed by the grammar or a terminal of it. -/
theorem Atomic.forall_mem (hfixed : ∀ t, upper t.text ∈ fixedTexts → P t)
    (hconstant : ∀ s t, T.constant s t → P t) (hcolumn : ∀ t c, T.column t c → P t)
    (h : Atomic T a us) : ∀ u ∈ us, P u := by
  have hspelled : ∀ {w : String} {t : Token}, spells w t = true → w.toList ∈ fixedTexts → P t := by
    intro w t hw hmem
    apply hfixed
    rw [spells_iff.mp hw]
    exact hmem
  have hoperand : ∀ {x : Operand} {t : Token}, OperandText T x t → P t := by
    intro x t h
    cases h with
    | constant h => exact hconstant _ _ h
    | column h => exact hcolumn _ _ h
  have hnegation : ∀ {negated : Bool} {ns : List Token}, Negation negated ns → ∀ n ∈ ns, P n := by
    intro negated ns h n hn
    cases h with
    | absent => cases hn
    | present ht =>
      rw [List.mem_singleton.mp hn]
      exact hspelled ht (by decide)
  have hitems : ∀ {items us : List Token}, MoreItems T items us → ∀ u ∈ us, P u := by
    intro items us h
    induction h with
    | nil => simp
    | cons hs ht _ ih =>
      intro u hu
      rcases List.mem_cons.mp hu with rfl | hu
      · exact hspelled hs (by decide)
      · rcases List.mem_cons.mp hu with rfl | hu
        · exact hconstant _ _ ht
        · exact ih u hu
  intro u hu
  cases h with
  | between hk hns hb hlow ha hhigh =>
    simp only [List.mem_cons, List.mem_append, List.not_mem_nil, or_false] at hu
    rcases hu with rfl | hu | rfl | rfl | rfl | rfl
    · exact hcolumn _ _ hk
    · exact hnegation hns u hu
    · exact hspelled hb (by decide)
    · exact hconstant _ _ hlow
    · exact hspelled ha (by decide)
    · exact hconstant _ _ hhigh
  | like hk hc hns hl hp =>
    simp only [List.mem_cons, List.mem_append, List.not_mem_nil, or_false] at hu
    rcases hu with rfl | hu | rfl | rfl
    · exact hcolumn _ _ hk
    · exact hnegation hns u hu
    · exact hspelled hl (by decide)
    · exact hconstant _ _ hp
  | inList hk hns hi ho hfirst hus hclose =>
    simp only [List.mem_cons, List.mem_append, List.not_mem_nil, or_false] at hu
    rcases hu with rfl | hu | rfl | rfl | rfl | hu | rfl
    · exact hcolumn _ _ hk
    · exact hnegation hns u hu
    · exact hspelled hi (by decide)
    · exact hspelled ho (by decide)
    · exact hconstant _ _ hfirst
    · exact hitems hus u hu
    · exact hspelled hclose (by decide)
  | isNull hk hi hns hn =>
    simp only [List.mem_cons, List.mem_append, List.not_mem_nil, or_false] at hu
    rcases hu with rfl | rfl | hu | rfl
    · exact hoperand hk
    · exact hspelled hi (by decide)
    · exact hnegation hns u hu
    · exact hspelled hn (by decide)
  | compare hk hop hm =>
    simp only [List.mem_cons, List.not_mem_nil, or_false] at hu
    rcases hu with rfl | rfl | rfl
    · exact hoperand hk
    · exact hfixed _ (List.mem_append_right _ hop)
    · exact hoperand hm

theorem fixed_of_role {t : Token} (h : role t ≠ .plain) : upper t.text ∈ fixedTexts := by
  have hmem : ∀ {w : String}, spells w t = true → w.toList ∈ fixedTexts →
      upper t.text ∈ fixedTexts := by
    intro w hw hfixed
    rw [spells_iff.mp hw]
    exact hfixed
  unfold role at h
  by_cases hnot : spells "NOT" t = true
  · exact hmem hnot (by decide)
  · by_cases hopen : spells "(" t = true
    · exact hmem hopen (by decide)
    · by_cases hclose : spells ")" t = true
      · exact hmem hclose (by decide)
      · by_cases hand : spells "AND" t = true
        · exact hmem hand (by decide)
        · by_cases hor : spells "OR" t = true
          · exact hmem hor (by decide)
          · simp [hnot, hopen, hclose, hand, hor] at h

theorem spells_not_of_role {t : Token} (h : role t = .negate) : spells "NOT" t = true := by
  by_contra hnot
  simp only [role, hnot, if_false] at h
  split_ifs at h

theorem spells_opening_of_role {t : Token} (h : role t = .opening) : spells "(" t = true := by
  by_contra hopen
  simp only [role, hopen, if_false] at h
  split_ifs at h

end Terminals

section Recognition

variable {columns : List TargetColumn}

theorem operand_head (hplain : ∀ c ∈ columns, PlainName c.name) {x : Operand} {t : Token}
    (h : OperandText (accepted columns) x t) : spells "NOT" t = false ∧ spells "(" t = false := by
  have hdelimited : Delimited t → spells "NOT" t = false ∧ spells "(" t = false := fun hkind =>
    ⟨not_spelled_of_kind hkind (by decide), not_spelled_of_kind hkind (by decide)⟩
  cases h with
  | constant h =>
    have hwritten : (written columns).constant false t := written_constant_of_accepted h
    simp only [written] at hwritten
    cases hkind : t.kind with
    | string => exact hdelimited (Or.inl hkind)
    | quoted => exact hdelimited (Or.inr (Or.inl hkind))
    | parameter => exact hdelimited (Or.inr (Or.inr hkind))
    | number => exact number_not_operator hkind
    | symbol => simp [hkind] at hwritten
    | word =>
      refine ⟨?_, word_not_opening hkind⟩
      simp only [hkind, true_and] at hwritten
      apply Bool.eq_false_iff.mpr
      intro hnot
      rw [spells_iff.mp hnot] at hwritten
      exact absurd hwritten (by decide)
  | column h =>
    obtain ⟨hkind, hname, hmem, -⟩ := columnToken_spec h.2
    rcases hkind with hword | hquoted
    · refine ⟨?_, word_not_opening hword⟩
      apply Bool.eq_false_iff.mpr
      intro hnot
      apply (hplain _ hmem).keyword
      rw [hname, strip_word hword, spells_iff.mp hnot]
      decide
    · exact hdelimited (Or.inr (Or.inl hquoted))

theorem Atomic.first_operand {T : Terminals} {a : Condition} {us : List Token}
    (h : Atomic T a us) : ∃ x k rest, us = k :: rest ∧ OperandText T x k := by
  cases h with
  | between hk => exact ⟨_, _, _, rfl, .column hk⟩
  | like hk => exact ⟨_, _, _, rfl, .column hk⟩
  | inList hk => exact ⟨_, _, _, rfl, .column hk⟩
  | isNull hk => exact ⟨_, _, _, rfl, hk⟩
  | compare hk => exact ⟨_, _, _, rfl, hk⟩

theorem reader_lawful (hplain : ∀ c ∈ columns, PlainName c.name) :
    (reader columns).Lawful (Atomic (accepted columns)) where
  sound _ _ _ h := comparison_sound h
  complete _ _ rest h := comparison_complete h rest
  head a used h := by
    obtain ⟨x, k, rest, rfl, hk⟩ := h.first_operand
    obtain ⟨hnot, hopen⟩ := operand_head hplain hk
    refine ⟨k, rest, rfl, ?_, ?_⟩
    · intro hrole
      rw [spells_not_of_role hrole] at hnot
      cases hnot
    · intro hrole
      rw [spells_opening_of_role hrole] at hopen
      cases hopen

end Recognition

end RayClickHouse.PredicateGrammar
