import RayClickHouse.SelectShape

/-!
The clauses, the order and the limit a query adds are generated text. A filter
clause holds the caller's filter behind its opening parentheses, or is generated
as well.
-/
namespace RayClickHouse.Sql

open Text Lexical TypeText FilterScan Schema Predicates

/-- What may come after the parenthesis that closes a filter. -/
def Follows (rest : Text) : Prop :=
  rest = [] ∨ ∃ start ∈ [")", " AND ", " ORDER BY ", " LIMIT "], start.toList <+: rest

theorem Follows.append {a b : Text} (ha : Follows a) (hb : Follows b) : Follows (a ++ b) := by
  rcases ha with rfl | ⟨start, hstart, hprefix⟩
  · exact hb
  · exact Or.inr ⟨start, hstart, hprefix.trans (List.prefix_append a b)⟩

theorem follows_and (texts : List Text) : Follows (texts.flatMap (" AND ".toList ++ ·)) := by
  cases texts with
  | nil => exact Or.inl rfl
  | cons t rest =>
    refine Or.inr ⟨" AND ", by simp, ?_⟩
    rw [List.flatMap_cons, List.append_assoc]
    exact List.prefix_append _ _

section Pieces

variable (native : Bool)

/-- Generated texts joined by a plain separator. -/
theorem generated_join (separator : Text) (hseparator : separator.all plainChar = true)
    {texts : List Text} {names : List (List Text)}
    (h : List.Forall₂ (Generated native) texts names) :
    Generated native (texts.flatMap (separator ++ ·)) names.flatten ∧
      Generated native (join separator texts) names.flatten := by
  have hsep := Generated.plain native separator hseparator
  induction h with
  | nil => exact ⟨Generated.nil native, Generated.nil native⟩
  | cons hhead _ ih =>
    refine ⟨by simpa using (hsep.append hhead).append ih.1, ?_⟩
    rw [join_cons]
    exact hhead.append ih.1

theorem generated_placeholders (type : Text) (htype : isIdentifier type = true)
    (names : List Text) (hnames : ∀ n ∈ names, isIdentifier n = true) :
    Generated native (join ", ".toList (names.map fun n => placeholder native n type)) names := by
  have hall : List.Forall₂ (Generated native) (names.map fun n => placeholder native n type)
      (names.map fun n => [n]) := by
    induction names with
    | nil => exact List.Forall₂.nil
    | cons n rest ih =>
      exact List.Forall₂.cons (Generated.parameter native n type (hnames n (List.mem_cons_self ..)) htype)
        (ih fun m hm => hnames m (List.mem_cons_of_mem _ hm))
  have hjoin := (generated_join native ", ".toList (by decide) hall).2
  have hflat : (names.map fun n => [n]).flatten = names := by
    rw [← List.flatMap_def, List.flatMap_singleton']
  rwa [hflat] at hjoin

theorem generated_partition (ids : List Text) :
    Generated native ((Clause.partition (partitionNames ids)).text native) (partitionNames ids) := by
  have hopen := Generated.plain native "(".toList (by decide)
  have hcolumn := Generated.column native "_partition_id".toList (by decide)
  have hin := Generated.plain native "IN (".toList (by decide)
  have hnames := generated_placeholders native "String".toList (by decide)
    (partitionNames ids) (by
      intro n hn
      obtain ⟨i, _, rfl⟩ := List.mem_map.mp hn
      exact isIdentifier_partitionName i)
  have hclose := Generated.plain native "))".toList (by decide)
  simpa [Clause.text] using (((hopen.append hcolumn).append hin).append hnames).append hclose

theorem generated_bound {column name : Text} (hcolumn : isIdentifier column = true)
    (hname : isIdentifier name = true) (op : Text) (hop : op.all plainChar = true) :
    Generated native (quoted column ++ ' ' :: op ++ placeholder native name "Int128".toList)
      [name] := by
  have hcol := Generated.column native _ hcolumn
  have hbound := Generated.parameter native name "Int128".toList hname (by decide)
  simpa using (hcol.append (Generated.plain native op hop)).append hbound

theorem generated_range {column : Text} {lower upper : Option ℤ}
    (h : RangeClause column lower upper) :
    Generated native ((rangeOf column lower upper).text native) (rangeBindings lower upper).names := by
  have hopen := Generated.plain native "(".toList (by decide)
  have hclose := Generated.plain native ")".toList (by decide)
  have hand := Generated.plain native " AND ".toList (by decide)
  have hlower := generated_bound native h.identifier isIdentifier_rangeLowerName
    ">= ".toList (by decide)
  have hupper := generated_bound native h.identifier isIdentifier_rangeUpperName
    "< ".toList (by decide)
  have hbounded := h.bounded
  cases lower with
  | some l =>
    cases upper with
    | some u =>
      simpa [rangeOf, Clause.text, rangeParts, join_cons, rangeBindings, Bindings.names] using
        (((hopen.append hlower).append hand).append hupper).append hclose
    | none =>
      simpa [rangeOf, Clause.text, rangeParts, join_cons, rangeBindings, Bindings.names] using
        (hopen.append hlower).append hclose
  | none =>
    cases upper with
    | some u =>
      simpa [rangeOf, Clause.text, rangeParts, join_cons, rangeBindings, Bindings.names] using
        (hopen.append hupper).append hclose
    | none => simp at hbounded

def nullOrRange (native : Bool) (column : Text) (range : Clause) : Text :=
  "(".toList ++ range.text native ++ " OR (".toList ++ quoted column ++ " IS NULL))".toList

theorem generated_nullOrRange {column : Text} {lower upper : Option ℤ}
    (h : RangeClause column lower upper) :
    Generated native (nullOrRange native column (rangeOf column lower upper))
      (rangeBindings lower upper).names := by
  have hopen := Generated.plain native "(".toList (by decide)
  have hor := Generated.plain native " OR (".toList (by decide)
  have hnull := Generated.plain native "IS NULL))".toList (by decide)
  have hcol := Generated.column native _ h.identifier
  simpa [nullOrRange] using
    (((hopen.append (generated_range native h)).append hor).append hcol).append hnull

theorem generated_orderTerm {term : Text × Bool} {text : Text} (h : orderTerm term = .ok text) :
    Generated native text [] := by
  obtain ⟨column, hvalid, hcolumn⟩ := Except.bind_eq_ok.mp h
  obtain ⟨rfl, hidentifier⟩ := validateIdentifier_eq_ok hvalid
  cases Except.ok.inj hcolumn
  have hcol := Generated.column native _ hidentifier
  cases term.2
  · simpa using hcol.append (Generated.plain native "ASC".toList (by decide))
  · simpa using hcol.append (Generated.plain native "DESC".toList (by decide))

theorem generated_order {orderBy : Option (List (Text × Bool))} {order : Text}
    (h : orderText orderBy = .ok order) :
    Generated native order [] ∧ Follows order ∧ (order = [] ∨ order.head? = some ' ') := by
  unfold orderText at h
  split at h
  · cases Except.ok.inj h
    exact ⟨Generated.nil native, Or.inl rfl, Or.inl rfl⟩
  · cases Except.ok.inj h
    exact ⟨Generated.nil native, Or.inl rfl, Or.inl rfl⟩
  · rename_i terms hne
    obtain ⟨rendered, hrendered, heq⟩ := Except.bind_eq_ok.mp h
    cases Except.ok.inj heq
    refine ⟨?_, Or.inr ⟨" ORDER BY ", by simp, List.prefix_append _ _⟩, Or.inr rfl⟩
    have hterms : List.Forall₂ (Generated native) rendered (rendered.map fun _ => []) := by
      have hok := Except.mapM_eq_ok.mp hrendered
      clear hrendered h heq hne
      induction hok with
      | nil => exact List.Forall₂.nil
      | cons hterm _ ih => exact List.Forall₂.cons (generated_orderTerm native hterm) ih
    have hby := Generated.plain native " ORDER BY ".toList (by decide)
    have hjoin := (generated_join native ", ".toList (by decide) hterms).2
    simpa using hby.append hjoin

theorem generated_limit {limit : Option ℤ} {text : Text} (h : limitText limit = .ok text) :
    Generated native text [] ∧ Follows text ∧ (text = [] ∨ text.head? = some ' ') := by
  unfold limitText at h
  split at h
  · cases Except.ok.inj h
    exact ⟨Generated.nil native, Or.inl rfl, Or.inl rfl⟩
  · rename_i n
    split at h
    · simp [Outcome.raise] at h
    · rename_i hneg
      cases Except.ok.inj h
      refine ⟨?_, Or.inr ⟨" LIMIT ", by simp, List.prefix_append _ _⟩, Or.inr rfl⟩
      have hlimit := Generated.plain native " LIMIT ".toList (by decide)
      obtain ⟨k, rfl⟩ := Int.eq_ofNat_of_zero_le (not_lt.mp hneg)
      have hdigits : (ofNat k).all plainChar = true := by
        rw [List.all_eq_true]
        intro c hc
        simp [plainChar, ofNat_identPart k c hc]
      have hofInt : ofInt (k : ℤ) = ofNat k := rfl
      simpa [hofInt] using hlimit.append (Generated.plain native _ hdigits)

theorem whereText_none : whereText native none = [] := rfl

theorem whereText_some (w : Where) :
    whereText native (some w) = " WHERE ".toList ++ w.text native := rfl

theorem whereText_conjunction (clauses : List Clause) :
    whereText native (some (.conjunction clauses)) =
      " WHERE ".toList ++ join " AND ".toList (clauses.map (Clause.text native)) := by
  rw [whereText_some, Where.text]

theorem whereText_withNull {clauses : List Clause} (h : clauses ≠ []) (column : Text) (r : Clause) :
    whereText native (some (.withNull clauses column r)) =
      " WHERE ".toList ++ ("(".toList ++ join " AND ".toList
        (clauses.map (Clause.text native) ++ [nullOrRange native column r]) ++ ")".toList) := by
  rw [whereText_some, Where.text, if_neg h]
  rfl

theorem whereText_withNull_nil (column : Text) (r : Clause) :
    whereText native (some (.withNull [] column r)) =
      " WHERE ".toList ++ nullOrRange native column r := by
  rw [whereText_some, Where.text, if_pos rfl]
  rfl

/-- A filter clause that holds a caller's filter: the filter behind its opening
parentheses, closed at once. -/
theorem filterClause_text {f : Text} {pushed : Option CompiledPredicate} {condition : FilterCondition}
    (hcondition : filterCondition (some f) pushed = some condition)
    (hcompiled : ∀ p, pushed = some p → Compiled p ∧ p.native = native) :
    ∃ rest, (Clause.filter condition).text native =
        List.replicate (1 + pushed.toList.length) '(' ++ f ++ ')' :: rest ∧
      Generated native rest (pushedNames pushed) ∧ Follows rest := by
  cases pushed with
  | none =>
    cases Option.some.inj hcondition
    exact ⟨[], by simp [Clause.text, FilterCondition.text], Generated.nil native, Or.inl rfl⟩
  | some p =>
    cases Option.some.inj hcondition
    obtain ⟨hp, rfl⟩ := hcompiled p rfl
    refine ⟨" AND (".toList ++ p.sql ++ "))".toList, ?_, ?_,
      Or.inr ⟨" AND ", by simp, '(' :: p.sql ++ "))".toList, by simp⟩⟩
    · simp [Clause.text, FilterCondition.text, List.replicate]
    · have hand := Generated.plain p.native " AND (".toList (by decide)
      have hclose := Generated.plain p.native "))".toList (by decide)
      simpa [pushedNames] using (hand.append (generated_of_compiled hp)).append hclose

/-- A filter clause without a caller's filter is generated. -/
theorem generated_filterClause {pushed : Option CompiledPredicate} {condition : FilterCondition}
    (hcondition : filterCondition none pushed = some condition)
    (hcompiled : ∀ p, pushed = some p → Compiled p ∧ p.native = native) :
    Generated native ((Clause.filter condition).text native) (pushedNames pushed) := by
  cases pushed with
  | none => simp [filterCondition] at hcondition
  | some p =>
    cases Option.some.inj hcondition
    obtain ⟨hp, rfl⟩ := hcompiled p rfl
    have hopen := Generated.plain p.native "(".toList (by decide)
    have hclose := Generated.plain p.native ")".toList (by decide)
    simpa [Clause.text, FilterCondition.text, pushedNames] using
      (hopen.append (generated_of_compiled hp)).append hclose

end Pieces

end RayClickHouse.Sql
