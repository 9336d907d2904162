import RayClickHouse.PredicateGrammar

/-!
The recogniser of a single comparison against the grammar: it reads the
comparisons over the accepted terminals, whatever follows them, and no others.
-/
namespace RayClickHouse.PredicateGrammar

open Text Schema TypeText Connectives PredicateTokens PredicateColumns

variable [UnicodeDatabase]

section Tails

variable {x : Operand} {negated : Bool} {ts rest : List Token} {a : Condition}

theorem betweenTail_eq_ok : betweenTail negated x ts = .ok (a, rest) ↔
    ∃ c low t high, x = .column c ∧ ts = low :: t :: high :: rest ∧
      constantToken false low = .ok true ∧ spells "AND" t = true ∧
      constantToken false high = .ok true ∧ a = .between negated c low high := by
  simp only [betweenTail, Except.bind_eq_ok, Prod.exists, requireColumn_eq_ok,
    requireConstant_eq_ok, requireToken_eq_ok]
  constructor
  · rintro ⟨c, rfl, low, ts, ⟨rfl, hlow⟩, after, ⟨t, rfl, ht⟩, high, last, ⟨rfl, hhigh⟩, hout⟩
    cases Except.ok.inj hout
    exact ⟨c, low, t, high, rfl, rfl, hlow, ht, hhigh, rfl⟩
  · rintro ⟨c, low, t, high, rfl, rfl, hlow, ht, hhigh, rfl⟩
    exact ⟨c, rfl, low, _, ⟨rfl, hlow⟩, _, ⟨t, rfl, ht⟩, high, rest, ⟨rfl, hhigh⟩, rfl⟩

theorem likeTail_eq_ok : likeTail negated x ts = .ok (a, rest) ↔
    ∃ c pattern, x = .column c ∧ StringTyped c ∧ ts = pattern :: rest ∧
      constantToken true pattern = .ok true ∧ a = .like negated c pattern := by
  simp only [likeTail, Except.bind_eq_ok, Prod.exists, requireColumn_eq_ok,
    requireConstant_eq_ok]
  constructor
  · rintro ⟨c, rfl, u, hc, pattern, after, ⟨rfl, hpattern⟩, hout⟩
    cases Except.ok.inj hout
    exact ⟨c, pattern, rfl, requireString_eq_ok.mp hc, rfl, hpattern, rfl⟩
  · rintro ⟨c, pattern, rfl, hc, rfl, hpattern, rfl⟩
    exact ⟨c, rfl, (), requireString_eq_ok.mpr hc, pattern, rest, ⟨rfl, hpattern⟩, rfl⟩

theorem moreItems_comma {t u : Token} (ht : spells "," t = true)
    (hu : constantToken false u = .ok true) (ts : List Token) :
    moreItems (t :: u :: ts) = (fun p => (u :: p.1, p.2)) <$> moreItems ts := by
  have hread : requireConstant "IN requires constant scalar list elements" false [u] =
      .ok (u, []) := requireConstant_eq_ok.mpr ⟨rfl, hu⟩
  simp only [moreItems, ht, if_true, hread]
  rfl

theorem moreItems_stop {t : Token} (ht : spells "," t = false) (ts : List Token) :
    moreItems (t :: ts) = .ok ([], t :: ts) := by
  cases ts with
  | nil => simp [moreItems, ht]
  | cons u ts => simp [moreItems, ht]

theorem moreItems_sound {columns : List TargetColumn} {items : List Token}
    (h : moreItems ts = .ok (items, rest)) :
    ∃ used, ts = used ++ rest ∧ MoreItems (accepted columns) items used := by
  induction hlen : ts.length using Nat.strong_induction_on generalizing ts items with
  | _ n ih =>
    cases ts with
    | nil =>
      cases Except.ok.inj h
      exact ⟨[], rfl, .nil⟩
    | cons t ts =>
      by_cases ht : spells "," t = true
      · cases ts with
        | nil =>
          simp only [moreItems, ht, if_true] at h
          cases h
        | cons u ts =>
          simp only [moreItems, ht, if_true, Except.bind_eq_ok, Prod.exists,
            requireConstant_eq_ok] at h
          obtain ⟨item, _, ⟨hitem, hu⟩, found, after, hmore, hout⟩ := h
          cases hitem
          cases Except.ok.inj hout
          simp only [List.length_cons] at hlen
          obtain ⟨used, rfl, hfound⟩ := ih ts.length (by omega) hmore rfl
          exact ⟨t :: u :: used, rfl, .cons ht hu hfound⟩
      · rw [moreItems_stop (Bool.eq_false_iff.mpr ht)] at h
        cases Except.ok.inj h
        exact ⟨[], rfl, .nil⟩

theorem moreItems_complete {columns : List TargetColumn} {items used : List Token}
    (h : MoreItems (accepted columns) items used) {t : Token} (ht : spells "," t = false) :
    moreItems (used ++ t :: rest) = .ok (items, t :: rest) := by
  induction h with
  | nil => exact moreItems_stop ht rest
  | cons hs hu _ ih =>
    simp only [List.cons_append]
    rw [moreItems_comma hs hu, ih]
    rfl

theorem inTail_eq_ok (columns : List TargetColumn) : inTail negated x ts = .ok (a, rest) ↔
    ∃ c o first items us close, x = .column c ∧ ts = o :: first :: (us ++ close :: rest) ∧
      spells "(" o = true ∧ constantToken false first = .ok true ∧
      MoreItems (accepted columns) items us ∧ spells ")" close = true ∧
      a = .inList negated c (first :: items) := by
  simp only [inTail, Except.bind_eq_ok, Prod.exists, requireColumn_eq_ok,
    requireConstant_eq_ok, requireToken_eq_ok]
  constructor
  · rintro ⟨c, rfl, inner, ⟨o, rfl, ho⟩, first, tail, ⟨rfl, hfirst⟩, items, after, hitems, last,
      ⟨close, rfl, hclose⟩, hout⟩
    cases Except.ok.inj hout
    obtain ⟨us, rfl, hus⟩ := moreItems_sound hitems
    exact ⟨c, o, first, items, us, close, rfl, rfl, ho, hfirst, hus, hclose, rfl⟩
  · rintro ⟨c, o, first, items, us, close, rfl, rfl, ho, hfirst, hus, hclose, rfl⟩
    exact ⟨c, rfl, _, ⟨o, rfl, ho⟩, first, _, ⟨rfl, hfirst⟩, items, _,
      moreItems_complete hus (spells_eq_false hclose (by decide)), rest, ⟨close, rfl, hclose⟩, rfl⟩

theorem isTail_eq_ok : isTail x ts = .ok (a, rest) ↔
    ∃ negatedIs ns n, ts = ns ++ n :: rest ∧ Negation negatedIs ns ∧ spells "NULL" n = true ∧
      a = .isNull x negatedIs := by
  simp only [isTail, Except.bind_eq_ok, requireToken_eq_ok]
  constructor
  · rintro ⟨after, ⟨n, hn, hnull⟩, hout⟩
    cases Except.ok.inj hout
    obtain ⟨ns, hts, hns⟩ := takeNot_spec ts
    exact ⟨_, ns, n, by rw [hn] at hts; exact hts, hns, hnull, rfl⟩
  · rintro ⟨negatedIs, ns, n, rfl, hns, hnull, rfl⟩
    rw [takeNot_append hns (spells_eq_false hnull (by decide))]
    exact ⟨rest, ⟨n, rfl, hnull⟩, rfl⟩

theorem compareTail_eq_ok {columns : List TargetColumn} :
    compareTail columns x ts = .ok (a, rest) ↔
      ∃ op m y, ts = op :: m :: rest ∧ upper op.text ∈ comparisonSymbols ∧
        OperandText (accepted columns) y m ∧ a = .compare x op y := by
  cases ts with
  | nil => simp [compareTail]
  | cons op tail =>
    simp only [compareTail, List.cons.injEq]
    by_cases hop : upper op.text ∈ comparisonSymbols
    · simp only [hop, if_true, Except.bind_eq_ok, Prod.exists, atom_eq_ok]
      constructor
      · rintro ⟨y, after, ⟨m, rfl, hm⟩, hout⟩
        cases Except.ok.inj hout
        exact ⟨op, m, y, ⟨rfl, rfl⟩, hop, hm, rfl⟩
      · rintro ⟨_, m, y, ⟨rfl, rfl⟩, -, hm, rfl⟩
        exact ⟨y, rest, ⟨m, rfl, hm⟩, rfl⟩
    · simp only [hop, if_false]
      constructor
      · intro h
        cases h
      · rintro ⟨_, m, y, ⟨rfl, -⟩, hsymbol, -⟩
        exact absurd hsymbol hop

end Tails

section Comparisons

variable {columns : List TargetColumn} {ts rest : List Token} {a : Condition}

theorem comparison_eq_ok : comparison columns ts = .ok (a, rest) ↔
    ∃ k x tail, ts = k :: tail ∧ OperandText (accepted columns) x k ∧
      comparisonTail columns x (takeNot tail).1 (takeNot tail).2 = .ok (a, rest) := by
  simp only [comparison, Except.bind_eq_ok, Prod.exists, atom_eq_ok]
  constructor
  · rintro ⟨x, tail, ⟨k, rfl, hk⟩, htail⟩
    exact ⟨k, x, tail, rfl, hk, htail⟩
  · rintro ⟨k, x, tail, rfl, hk, htail⟩
    exact ⟨x, tail, ⟨k, rfl, hk⟩, htail⟩

theorem comparison_append {k t : Token} {x : Operand} {negated : Bool} {ns : List Token}
    (hk : OperandText (accepted columns) x k) (hns : Negation negated ns)
    (ht : spells "NOT" t = false)
    (htail : comparisonTail columns x negated (t :: ts) = .ok (a, rest)) :
    comparison columns (k :: (ns ++ t :: ts)) = .ok (a, rest) := by
  apply comparison_eq_ok.mpr
  refine ⟨k, x, ns ++ t :: ts, rfl, hk, ?_⟩
  rw [takeNot_append hns ht]
  exact htail

theorem column_operand {k : Token} {c : TargetColumn}
    (h : OperandText (accepted columns) (.column c) k) : (accepted columns).column k c := by
  cases h with
  | column h => exact h

theorem comparison_sound (h : comparison columns ts = .ok (a, rest)) :
    ∃ used, ts = used ++ rest ∧ Atomic (accepted columns) a used := by
  obtain ⟨k, x, tail, rfl, hk, htail⟩ := comparison_eq_ok.mp h
  obtain ⟨ns, hsplit, hns⟩ := takeNot_spec tail
  generalize (takeNot tail).1 = negated at htail hns
  generalize (takeNot tail).2 = after at htail hsplit
  subst hsplit
  unfold comparisonTail at htail
  cases hbetween : take "BETWEEN" after with
  | some inner =>
    rw [hbetween] at htail
    obtain ⟨b, rfl, hb⟩ := take_eq_some.mp hbetween
    obtain ⟨c, low, t, high, rfl, rfl, hlow, ht, hhigh, rfl⟩ := betweenTail_eq_ok.mp htail
    refine ⟨k :: (ns ++ [b, low, t, high]), by simp, ?_⟩
    exact .between (column_operand hk) hns hb hlow ht hhigh
  | none =>
    rw [hbetween] at htail
    cases hlike : take "LIKE" after with
    | some inner =>
      simp only [hlike] at htail
      obtain ⟨l, rfl, hl⟩ := take_eq_some.mp hlike
      obtain ⟨c, pattern, rfl, hc, rfl, hpattern, rfl⟩ := likeTail_eq_ok.mp htail
      refine ⟨k :: (ns ++ [l, pattern]), by simp, ?_⟩
      exact .like (column_operand hk) hc hns hl hpattern
    | none =>
      simp only [hlike] at htail
      cases hin : take "IN" after with
      | some inner =>
        simp only [hin] at htail
        obtain ⟨i, rfl, hi⟩ := take_eq_some.mp hin
        obtain ⟨c, o, first, items, us, close, rfl, rfl, ho, hfirst, hus, hclose, rfl⟩ :=
          (inTail_eq_ok columns).mp htail
        refine ⟨k :: (ns ++ i :: o :: first :: (us ++ [close])), by simp, ?_⟩
        exact .inList (column_operand hk) hns hi ho hfirst hus hclose
      | none =>
        simp only [hin] at htail
        cases hns with
        | present hn => cases htail
        | absent =>
          simp only [Bool.false_eq_true, if_false] at htail
          cases his : take "IS" after with
          | some inner =>
            simp only [his] at htail
            obtain ⟨i, rfl, hi⟩ := take_eq_some.mp his
            obtain ⟨negatedIs, ns, n, rfl, hns, hn, rfl⟩ := isTail_eq_ok.mp htail
            refine ⟨k :: i :: (ns ++ [n]), by simp, ?_⟩
            exact .isNull hk hi hns hn
          | none =>
            simp only [his] at htail
            obtain ⟨op, m, y, rfl, hop, hm, rfl⟩ := compareTail_eq_ok.mp htail
            exact ⟨[k, op, m], rfl, .compare hk hop hm⟩

theorem comparison_complete (h : Atomic (accepted columns) a ts) (rest : List Token) :
    comparison columns (ts ++ rest) = .ok (a, rest) := by
  cases h with
  | @between k b low t high c negated ns hk hns hb hlow ht hhigh =>
    have hshape : k :: (ns ++ [b, low, t, high]) ++ rest =
        k :: (ns ++ b :: low :: t :: high :: rest) := by simp
    rw [hshape]
    apply comparison_append (.column hk) hns (spells_eq_false hb (by decide))
    simp only [comparisonTail, take_cons hb]
    exact betweenTail_eq_ok.mpr ⟨c, low, t, high, rfl, rfl, hlow, ht, hhigh, rfl⟩
  | @like k l p c negated ns hk hc hns hl hp =>
    have hshape : k :: (ns ++ [l, p]) ++ rest = k :: (ns ++ l :: p :: rest) := by simp
    rw [hshape]
    apply comparison_append (.column hk) hns (spells_eq_false hl (by decide))
    simp only [comparisonTail, take_other (spells_eq_false (w := "BETWEEN") hl (by decide)),
      take_cons hl]
    exact likeTail_eq_ok.mpr ⟨c, p, rfl, hc, rfl, hp, rfl⟩
  | @inList k i o first close c negated ns items us hk hns hi ho hfirst hus hclose =>
    have hshape : k :: (ns ++ i :: o :: first :: (us ++ [close])) ++ rest =
        k :: (ns ++ i :: o :: first :: (us ++ close :: rest)) := by simp
    rw [hshape]
    apply comparison_append (.column hk) hns (spells_eq_false hi (by decide))
    simp only [comparisonTail, take_other (spells_eq_false (w := "BETWEEN") hi (by decide)),
      take_other (spells_eq_false (w := "LIKE") hi (by decide)), take_cons hi]
    exact (inTail_eq_ok columns).mpr
      ⟨c, o, first, items, us, close, rfl, rfl, ho, hfirst, hus, hclose, rfl⟩
  | @isNull k i n x negated ns hk hi hns hn =>
    have hshape : k :: i :: (ns ++ [n]) ++ rest = k :: ([] ++ i :: (ns ++ n :: rest)) := by simp
    rw [hshape]
    apply comparison_append hk .absent (spells_eq_false hi (by decide))
    simp only [comparisonTail, take_other (spells_eq_false (w := "BETWEEN") hi (by decide)),
      take_other (spells_eq_false (w := "LIKE") hi (by decide)),
      take_other (spells_eq_false (w := "IN") hi (by decide)), take_cons hi, Bool.false_eq_true,
      if_false]
    exact isTail_eq_ok.mpr ⟨negated, ns, n, rfl, hns, hn, rfl⟩
  | @compare k op m x y hk hop hm =>
    show comparison columns (k :: ([] ++ op :: m :: rest)) = _
    apply comparison_append hk .absent (symbol_not_spelled hop (by decide))
    simp only [comparisonTail, take_other (symbol_not_spelled (w := "BETWEEN") hop (by decide)),
      take_other (symbol_not_spelled (w := "LIKE") hop (by decide)),
      take_other (symbol_not_spelled (w := "IN") hop (by decide)),
      take_other (symbol_not_spelled (w := "IS") hop (by decide)), Bool.false_eq_true, if_false]
    exact compareTail_eq_ok.mpr ⟨op, m, y, rfl, hop, hm, rfl⟩

end Comparisons

end RayClickHouse.PredicateGrammar
