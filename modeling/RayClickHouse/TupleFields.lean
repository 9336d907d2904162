import RayClickHouse.TypeRoundTrip

/-!
The pattern of a named tuple field. It reads a name, white space and a type on one line,
and finds the same name in front of any other type that is put behind it.
-/
namespace RayClickHouse.Schema

open Text TypeText

theorem afterBackquoted_pair (rest : Text) :
    afterBackquoted ('`' :: '`' :: rest) = afterBackquoted rest := by
  rw [afterBackquoted]

theorem afterBackquoted_close {rest : Text} (h : rest.head? ≠ some '`') :
    afterBackquoted ('`' :: rest) = some rest := by
  rw [afterBackquoted]
  rintro tail rfl
  exact h rfl

theorem afterBackquoted_other {c : Char} {rest : Text} (h : c ≠ '`') :
    afterBackquoted (c :: rest) = afterBackquoted rest := by
  rw [afterBackquoted]
  · exact fun _ hc => absurd hc h
  · exact fun hc => absurd hc h

/-- A backquoted name ends at the first backquote that has no partner. -/
theorem afterBackquoted_eq_some {s after : Text} (h : afterBackquoted s = some after) :
    ∃ m, s = m ++ after ∧ afterBackquoted m = some [] ∧ after.head? ≠ some '`' := by
  induction s using afterBackquoted.induct with
  | case1 => cases h
  | case2 rest ih =>
    rw [afterBackquoted_pair] at h
    obtain ⟨m, rfl, hm, hafter⟩ := ih h
    refine ⟨'`' :: '`' :: m, rfl, ?_, hafter⟩
    rwa [afterBackquoted_pair]
  | case3 rest hrest =>
    have hhead : rest.head? ≠ some '`' := by
      intro hhead
      obtain ⟨tail, htail⟩ := List.head?_eq_some_iff.mp hhead
      exact hrest tail htail
    rw [afterBackquoted_close hhead, Option.some.injEq] at h
    subst h
    exact ⟨['`'], rfl, rfl, hhead⟩
  | case4 c rest _ hone ih =>
    have hc : c ≠ '`' := fun hc => hone hc
    rw [afterBackquoted_other hc] at h
    obtain ⟨m, rfl, hm, hafter⟩ := ih h
    refine ⟨c :: m, rfl, ?_, hafter⟩
    rwa [afterBackquoted_other hc]

theorem afterBackquoted_append {m after : Text} (h : afterBackquoted m = some [])
    (hafter : after.head? ≠ some '`') : afterBackquoted (m ++ after) = some after := by
  induction m using afterBackquoted.induct with
  | case1 => cases h
  | case2 rest ih =>
    rw [afterBackquoted_pair] at h
    rw [List.cons_append, List.cons_append, afterBackquoted_pair]
    exact ih h
  | case3 rest hrest =>
    have hhead : rest.head? ≠ some '`' := by
      intro hhead
      obtain ⟨tail, htail⟩ := List.head?_eq_some_iff.mp hhead
      exact hrest tail htail
    rw [afterBackquoted_close hhead, Option.some.injEq] at h
    subst h
    exact afterBackquoted_close hafter
  | case4 c rest _ hone ih =>
    have hc : c ≠ '`' := fun hc => hone hc
    rw [afterBackquoted_other hc] at h
    rw [List.cons_append, afterBackquoted_other hc]
    exact ih h

def FieldNamed (name : Text) : Prop :=
  isIdentifier name = true ∨ ∃ m, name = '`' :: m ∧ m ≠ ['`'] ∧ afterBackquoted m = some []

structure FieldText (argument name type : Text) : Prop where
  named : FieldNamed name
  split : ∃ c gap, argument = name ++ c :: (gap ++ type) ∧ isSpace c = true ∧
    ∀ d ∈ gap, isSpace d = true
  nonempty : type ≠ []
  visible : ∀ c, type.head? = some c → isSpace c = false
  oneLine : '\n' ∉ type

theorem FieldNamed.nonempty {name : Text} (h : FieldNamed name) : name ≠ [] := by
  obtain hname | ⟨m, rfl, -, -⟩ := h
  · exact isIdentifier_ne_nil hname
  · exact List.cons_ne_nil _ _

theorem tupleField_plain {argument after : Text} (hhead : argument.head? ≠ some '`')
    (h : (takeIdentifier argument).map Prod.snd = some after) :
    tupleField argument =
      if (after.head?.map isSpace).getD false ∧ after.dropWhile isSpace ≠ [] ∧
          '\n' ∉ after.dropWhile isSpace then
        some (argument.take (argument.length - after.length), after.dropWhile isSpace)
      else none := by
  unfold tupleField
  split
  · rename_i rest
    exact absurd rfl hhead
  · simp only [h, Option.bind_eq_bind, Option.bind_some]

theorem tupleField_backquoted {rest after : Text} (h : afterBackquoted rest = some after)
    (hlength : ¬ after.length + 1 = rest.length) :
    tupleField ('`' :: rest) =
      if (after.head?.map isSpace).getD false ∧ after.dropWhile isSpace ≠ [] ∧
          '\n' ∉ after.dropWhile isSpace then
        some (('`' :: rest).take (('`' :: rest).length - after.length), after.dropWhile isSpace)
      else none := by
  unfold tupleField
  simp only [h, if_neg hlength, Option.bind_eq_bind, Option.bind_some]

/-- The pattern on a text that starts with a name and goes on with white space. -/
theorem tupleField_named {name after : Text} (h : FieldNamed name)
    (hspace : ∀ c, after.head? = some c → isSpace c = true) :
    tupleField (name ++ after) =
      if (after.head?.map isSpace).getD false ∧ after.dropWhile isSpace ≠ [] ∧
          '\n' ∉ after.dropWhile isSpace then some (name, after.dropWhile isSpace)
      else none := by
  have htake : (name ++ after).take ((name ++ after).length - after.length) = name := by
    rw [List.length_append, Nat.add_sub_cancel, List.take_left]
  obtain hname | ⟨m, rfl, hone, hm⟩ := h
  · have hstop : ∀ c, after.head? = some c → isIdentPart c = false := by
      intro c hc
      by_contra hpart
      rw [Bool.not_eq_false] at hpart
      have hnone := Ddl.isSpace_of_isIdentPart hpart
      rw [hspace c hc] at hnone
      contradiction
    have hread : (takeIdentifier (name ++ after)).map Prod.snd = some after := by
      rw [takeIdentifier_append hname hstop]
      rfl
    have hhead : (name ++ after).head? ≠ some '`' := by
      rw [List.head?_append_of_ne_nil _ (isIdentifier_ne_nil hname)]
      intro hhead
      have hmem := isIdentifier_mem hname '`' (List.mem_of_mem_head? hhead)
      contradiction
    rw [tupleField_plain hhead hread, htake]
  · have hhead : after.head? ≠ some '`' := by
      intro hhead
      have hnone := hspace '`' hhead
      contradiction
    have hlength : ¬ after.length + 1 = (m ++ after).length := by
      intro hlength
      rw [List.length_append] at hlength
      obtain ⟨c, hc⟩ := List.length_eq_one_iff.mp (show m.length = 1 by omega)
      subst hc
      apply hone
      by_contra hquote
      have hother : c ≠ '`' := fun heq => hquote (by rw [heq])
      rw [afterBackquoted_other hother] at hm
      cases hm
    rw [List.cons_append] at htake ⊢
    rw [tupleField_backquoted (afterBackquoted_append hm hhead) hlength, htake]

theorem FieldText.of_some {argument name type : Text}
    (h : tupleField argument = some (name, type)) : FieldText argument name type := by
  have hfinish : ∀ {after : Text}, FieldNamed name → argument = name ++ after →
      (after.head?.map isSpace).getD false = true ∧ after.dropWhile isSpace ≠ [] ∧
        '\n' ∉ after.dropWhile isSpace → after.dropWhile isSpace = type →
      FieldText argument name type := by
    intro after hnamed hsplit hcondition htype
    obtain ⟨hspace, hne, hline⟩ := hcondition
    cases after with
    | nil => cases hspace
    | cons c rest =>
      have hc : isSpace c = true := by simpa using hspace
      have hdrop : (c :: rest).dropWhile isSpace = rest.dropWhile isSpace :=
        List.dropWhile_cons_of_pos hc
      refine ⟨hnamed, ⟨c, rest.takeWhile isSpace, ?_, hc, fun d hd => List.mem_takeWhile_imp hd⟩,
        ?_, ?_, ?_⟩
      · rw [← htype, hdrop, List.takeWhile_append_dropWhile]
        exact hsplit
      · rwa [← htype]
      · intro d hd
        have hnot := List.head?_dropWhile_not isSpace (c :: rest)
        rw [htype, hd] at hnot
        simpa using hnot
      · rwa [← htype]
  by_cases hhead : argument.head? = some '`'
  · obtain ⟨rest, rfl⟩ := List.head?_eq_some_iff.mp hhead
    cases hread : afterBackquoted rest with
    | none =>
      unfold tupleField at h
      simp only [hread] at h
      cases h
    | some after =>
      by_cases hlength : after.length + 1 = rest.length
      · unfold tupleField at h
        simp only [hread, if_pos hlength] at h
        cases h
      · rw [tupleField_backquoted hread hlength, Option.ite_none_right_eq_some] at h
        obtain ⟨hcondition, hfield⟩ := h
        obtain ⟨m, rfl, hm, -⟩ := afterBackquoted_eq_some hread
        rw [Option.some.injEq, Prod.mk.injEq] at hfield
        have htake : ('`' :: (m ++ after)).take (('`' :: (m ++ after)).length - after.length) =
            '`' :: m := by
          rw [← List.cons_append, List.length_append, Nat.add_sub_cancel, List.take_left]
        rw [htake] at hfield
        obtain ⟨rfl, htype⟩ := hfield
        refine hfinish (Or.inr ⟨m, rfl, ?_, hm⟩) rfl hcondition htype
        rintro rfl
        apply hlength
        simp
  · cases hread : takeIdentifier argument with
    | none =>
      unfold tupleField at h
      split at h
      · exact absurd rfl hhead
      · simp [hread] at h
    | some r =>
      obtain ⟨first, after⟩ := r
      obtain ⟨hsplit, hname, -⟩ := takeIdentifier_eq_some hread
      have hafter : (takeIdentifier argument).map Prod.snd = some after := by
        rw [hread]
        rfl
      rw [tupleField_plain hhead hafter, Option.ite_none_right_eq_some, Option.some.injEq,
        Prod.mk.injEq] at h
      obtain ⟨hcondition, hfirst, htype⟩ := h
      have htake : argument.take (argument.length - after.length) = first := by
        rw [hsplit, List.length_append, Nat.add_sub_cancel, List.take_left]
      rw [htake] at hfirst
      subst hfirst
      exact hfinish (Or.inl hname) hsplit hcondition htype

/-- A field is read back behind its name. -/
theorem tupleField_element {name type : Text} (h : FieldNamed name) (hne : type ≠ [])
    (hvisible : ∀ c, type.head? = some c → isSpace c = false) :
    tupleField (name ++ " ".toList ++ type) =
      if '\n' ∉ type then some (name, type) else none := by
  have hdrop : (' ' :: type).dropWhile isSpace = type := by
    rw [List.dropWhile_cons_of_pos rfl]
    cases type with
    | nil => rfl
    | cons c rest => rw [List.dropWhile_cons_of_neg (by simp [hvisible c rfl])]
  have hspace : ∀ c, (' ' :: type).head? = some c → isSpace c = true := by
    rintro c ⟨⟩
    rfl
  have hsplit : name ++ " ".toList ++ type = name ++ ' ' :: type := by simp
  rw [hsplit, tupleField_named h hspace, hdrop]
  by_cases hline : '\n' ∈ type
  · rw [if_neg (by simp [hline]), if_neg (by simp [hline])]
  · rw [if_pos ⟨rfl, hne, hline⟩, if_pos hline]

end RayClickHouse.Schema
