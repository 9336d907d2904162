import RayClickHouse.ComparisonReading

/-!
How the recogniser of a single comparison fails: as not applicable, save where
LIKE meets a column whose declared type cannot be read.
-/
namespace RayClickHouse.PredicateGrammar

open Text Schema TypeText Connectives PredicateTokens PredicateColumns

variable [UnicodeDatabase]

section Refusals

/-- Every failure is the one that lets planning fall back. -/
def Refuses {α : Type*} (x : Outcome α) : Prop := ∀ e, x = .error e → e.kind = .notApplicable

variable {x : Operand} {negated : Bool} {ts : List Token}

omit [UnicodeDatabase] in
theorem refuses_ok {α : Type*} (a : α) : Refuses (.ok a : Outcome α) := by
  intro e h
  cases h

omit [UnicodeDatabase] in
theorem refuses_notApplicable {α : Type*} (message : String) :
    Refuses (.error (notApplicable message) : Outcome α) := by
  intro e h
  cases h
  rfl

omit [UnicodeDatabase] in
theorem Refuses.bind {α β : Type} {y : Outcome α} {f : α → Outcome β} (hy : Refuses y)
    (hf : ∀ a, Refuses (f a)) : Refuses (y >>= f) := by
  cases y with
  | error e =>
    intro e' h
    cases h
    exact hy e rfl
  | ok a => exact hf a

theorem constantToken_refuses (stringOnly : Bool) (t : Token) :
    Refuses (constantToken stringOnly t) := by
  unfold constantToken
  cases t.kind with
  | parameter =>
    by_cases h : t.text.head? = some '{' ∧ searchWords identifierWords none t.text = true
    · simp only [h, and_self, if_true]
      exact refuses_notApplicable _
    · simp only [h, if_false]
      exact refuses_ok true
  | _ => exact refuses_ok _

theorem requireConstant_refuses (message : String) (stringOnly : Bool) (ts : List Token) :
    Refuses (requireConstant message stringOnly ts) := by
  cases ts with
  | nil => exact refuses_notApplicable message
  | cons t rest =>
    have ht := constantToken_refuses stringOnly t
    simp only [requireConstant]
    cases h : constantToken stringOnly t with
    | error e =>
      intro e' he
      cases he
      exact ht e h
    | ok answer =>
      cases answer
      · exact refuses_notApplicable message
      · exact refuses_ok _

theorem requireToken_refuses (message value : String) (ts : List Token) :
    Refuses (requireToken message value ts) := by
  unfold requireToken
  cases take value ts with
  | none => exact refuses_notApplicable message
  | some rest => exact refuses_ok rest

theorem requireColumn_refuses (message : String) (x : Operand) :
    Refuses (requireColumn message x) := by
  cases x with
  | constant t => exact refuses_notApplicable message
  | column c => exact refuses_ok c

theorem atom_refuses (columns : List TargetColumn) (ts : List Token) :
    Refuses (atom columns ts) := by
  cases ts with
  | nil => exact refuses_notApplicable _
  | cons t rest =>
    have ht := constantToken_refuses false t
    simp only [atom]
    cases h : constantToken false t with
    | error e =>
      intro e' he
      cases he
      exact ht e h
    | ok answer =>
      cases answer
      · cases columnToken columns t
        · exact refuses_notApplicable _
        · exact refuses_ok _
      · exact refuses_ok _

theorem betweenTail_refuses : Refuses (betweenTail negated x ts) :=
  (requireColumn_refuses _ x).bind fun _ =>
    (requireConstant_refuses _ _ _).bind fun _ =>
      (requireToken_refuses _ _ _).bind fun _ =>
        (requireConstant_refuses _ _ _).bind fun _ => refuses_ok _

theorem moreItems_refuses (ts : List Token) : Refuses (moreItems ts) := by
  induction hlen : ts.length using Nat.strong_induction_on generalizing ts with
  | _ n ih =>
    match ts, hlen with
    | [], _ => exact refuses_ok _
    | [t], _ =>
      simp only [moreItems]
      by_cases ht : spells "," t = true
      · simp only [ht, if_true]
        exact refuses_notApplicable _
      · simp only [ht]
        exact refuses_ok _
    | t :: u :: rest, hlen =>
      simp only [moreItems]
      by_cases ht : spells "," t = true
      · simp only [ht, if_true]
        simp only [List.length_cons] at hlen
        exact (requireConstant_refuses _ _ _).bind fun _ =>
          (ih rest.length (by omega) rest rfl).bind fun _ => refuses_ok _
      · simp only [ht]
        exact refuses_ok _

theorem inTail_refuses : Refuses (inTail negated x ts) :=
  (requireColumn_refuses _ x).bind fun _ =>
    (requireToken_refuses _ _ _).bind fun _ =>
      (requireConstant_refuses _ _ _).bind fun p =>
        (moreItems_refuses p.2).bind fun _ =>
          (requireToken_refuses _ _ _).bind fun _ => refuses_ok _

theorem isTail_refuses : Refuses (isTail x ts) :=
  (requireToken_refuses _ _ _).bind fun _ => refuses_ok _

theorem compareTail_refuses (columns : List TargetColumn) : Refuses (compareTail columns x ts) := by
  cases ts with
  | nil => exact refuses_notApplicable _
  | cons t rest =>
    simp only [compareTail]
    by_cases h : upper t.text ∈ comparisonSymbols
    · simp only [h, if_true]
      exact (atom_refuses columns rest).bind fun _ => refuses_ok _
    · simp only [h, if_false]
      exact refuses_notApplicable _

theorem likeTail_unreadable {c : TargetColumn} {e : Failure} (h : isStringColumn c = .error e) :
    likeTail negated (.column c) ts = .error e := by
  have hstring : requireString likeMessage c = .error e := by
    simp only [requireString, h]
  show (requireString likeMessage c >>= _) = _
  rw [hstring]
  rfl

/-- LIKE fails as not applicable, or because the declared type cannot be read. -/
theorem likeTail_error {e : Failure} (h : likeTail negated x ts = .error e) :
    e.kind = .notApplicable ∨ ∃ c, x = .column c ∧ isStringColumn c = .error e := by
  cases x with
  | constant t => exact Or.inl (refuses_notApplicable _ e h)
  | column c =>
    cases hc : isStringColumn c with
    | error e' =>
      right
      refine ⟨c, rfl, ?_⟩
      cases (likeTail_unreadable hc).symm.trans h
      exact hc
    | ok answer =>
      left
      have hstring : Refuses (requireString likeMessage c) := by
        simp only [requireString, hc]
        cases answer
        · exact refuses_notApplicable _
        · exact refuses_ok _
      have hrest : Refuses (requireString likeMessage c >>= fun _ =>
          requireConstant likeMessage true ts >>= fun p =>
            Except.ok (Condition.like negated c p.1, p.2)) :=
        hstring.bind fun _ => (requireConstant_refuses _ _ _).bind fun _ => refuses_ok _
      exact hrest e h

end Refusals

def LikeFails (columns : List TargetColumn) (e : Failure) (ts : List Token) : Prop :=
  ∃ k c negated ns l rest, ts = k :: (ns ++ l :: rest) ∧ (accepted columns).column k c ∧
    Negation negated ns ∧ spells "LIKE" l = true ∧ isStringColumn c = .error e

theorem comparison_error {columns : List TargetColumn} {ts : List Token} {e : Failure}
    (h : comparison columns ts = .error e) :
    e.kind = .notApplicable ∨ LikeFails columns e ts := by
  cases hatom : atom columns ts with
  | error e' =>
    left
    have hout : comparison columns ts = .error e' := by
      simp only [comparison, hatom]
      rfl
    cases hout.symm.trans h
    exact atom_refuses columns ts _ hatom
  | ok p =>
    obtain ⟨x, tail⟩ := p
    have hout : comparison columns ts =
        comparisonTail columns x (takeNot tail).1 (takeNot tail).2 := by
      simp only [comparison, hatom]
      rfl
    obtain ⟨k, rfl, hk⟩ := atom_eq_ok.mp hatom
    obtain ⟨ns, hsplit, hns⟩ := takeNot_spec tail
    rw [hout] at h
    generalize (takeNot tail).1 = negated at h hns
    generalize (takeNot tail).2 = after at h hsplit
    subst hsplit
    unfold comparisonTail at h
    cases hbetween : take "BETWEEN" after with
    | some inner =>
      rw [hbetween] at h
      exact Or.inl (betweenTail_refuses e h)
    | none =>
      rw [hbetween] at h
      cases hlike : take "LIKE" after with
      | some inner =>
        simp only [hlike] at h
        rcases likeTail_error h with hkind | ⟨c, rfl, hc⟩
        · exact Or.inl hkind
        · obtain ⟨l, rfl, hl⟩ := take_eq_some.mp hlike
          exact Or.inr ⟨k, c, negated, ns, l, inner, rfl, column_operand hk, hns, hl, hc⟩
      | none =>
        left
        simp only [hlike] at h
        cases hin : take "IN" after with
        | some inner =>
          simp only [hin] at h
          exact inTail_refuses e h
        | none =>
          simp only [hin] at h
          by_cases hneg : negated = true
          · simp only [hneg, if_true] at h
            exact @refuses_notApplicable (Condition × List Token) _ e h
          · simp only [hneg] at h
            cases his : take "IS" after with
            | some inner =>
              simp only [his] at h
              exact isTail_refuses e h
            | none =>
              simp only [his] at h
              exact compareTail_refuses columns e h

theorem comparison_likeFails {columns : List TargetColumn} {ts : List Token} {e : Failure}
    (h : LikeFails columns e ts) : comparison columns ts = .error e := by
  obtain ⟨k, c, negated, ns, l, rest, rfl, hk, hns, hl, hc⟩ := h
  have hatom : atom columns (k :: (ns ++ l :: rest)) = .ok (.column c, ns ++ l :: rest) :=
    atom_eq_ok.mpr ⟨k, rfl, .column hk⟩
  calc comparison columns (k :: (ns ++ l :: rest))
      = comparisonTail columns (.column c) (takeNot (ns ++ l :: rest)).1
          (takeNot (ns ++ l :: rest)).2 := by
        simp only [comparison, hatom]
        rfl
    _ = comparisonTail columns (.column c) negated (l :: rest) := by
        rw [takeNot_append hns (spells_eq_false hl (by decide))]
    _ = .error e := by
        simp only [comparisonTail, take_other (spells_eq_false (w := "BETWEEN") hl (by decide)),
          take_cons hl]
        exact likeTail_unreadable hc

end RayClickHouse.PredicateGrammar
