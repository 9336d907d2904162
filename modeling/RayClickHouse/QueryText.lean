import RayClickHouse.GeneratedClauses

/-!
An accepted query is the text up to the end of its filter, which the caller
controls, followed by generated text. The conditions of the binding and of the
enclosure results speak about the first part only.
-/
namespace RayClickHouse.Sql

open Text Lexical TypeText FilterScan Schema Predicates

section Request

variable [UnicodeDatabase] {request : SelectRequest} {q : SelectQuery}

def CompiledRequest (request : SelectRequest) : Prop :=
  ∀ p, request.pushedPredicate = some p → Compiled p

theorem Accepted.filter (h : Accepted request q) {f : Text} (hf : filterText request = some f) :
    ∃ b, FilterAccepted f request.parameters (hasInternalParameters request) b ∧
      (request.pushedPredicate = none → q.serverSide = (b.serverTypes.map Prod.fst ≠ [] ||
        (hasInternalParameters request && b.clientNames == []))) ∧
      (∀ p, request.pushedPredicate = some p →
        b.ambiguous = false ∧ q.serverSide = (b.clientNames == [])) := by
  obtain ⟨e, he, hserver, _⟩ := h.effective
  obtain ⟨⟨native, hvalid, hnative⟩, _, _, hpushed⟩ := effectiveFilter_eq_ok he
  have hfilter : request.filterSql.map strip = some f := hf
  rw [hfilter] at hvalid hpushed
  obtain ⟨b, hb, hchoice⟩ := validateFilterParameters_some hvalid
  refine ⟨b, hb, ?_, ?_⟩
  · intro hnone
    rw [hserver, hnative hnone, hchoice]
  · intro p hp
    obtain ⟨_, hprotocol, _⟩ := hpushed p hp
    rw [hserver]
    exact predicateBindingProtocol_some hb.scanned hprotocol

theorem Accepted.noFilter (h : Accepted request q) (hf : filterText request = none) :
    request.parameters = [] ∧ q.serverSide = request.pushedPredicate.isSome := by
  obtain ⟨e, he, hserver, _⟩ := h.effective
  obtain ⟨⟨native, hvalid, hnative⟩, _, _, hpushed⟩ := effectiveFilter_eq_ok he
  have hfilter : request.filterSql.map strip = none := hf
  rw [hfilter] at hvalid hpushed
  obtain ⟨hparameters, rfl⟩ := validateFilterParameters_none hvalid
  refine ⟨hparameters, ?_⟩
  cases hp : request.pushedPredicate with
  | none => rw [hserver, hnative hp]; rfl
  | some p =>
    rw [hserver]
    exact predicateBindingProtocol_none (hpushed p hp).2.1

theorem Accepted.pushed (h : Accepted request q) {p : CompiledPredicate}
    (hp : request.pushedPredicate = some p) :
    p.native = q.serverSide ∧ ∀ n ∈ p.parameters.names, n ∉ request.parameters.names := by
  obtain ⟨e, he, hserver, _⟩ := h.effective
  obtain ⟨_, _, _, hpushed⟩ := effectiveFilter_eq_ok he
  obtain ⟨hnative, _, hdisjoint⟩ := hpushed p hp
  exact ⟨hserver ▸ hnative, hdisjoint⟩

/-- The returned parameters are the caller's and those of the generated placeholders. -/
theorem Accepted.mem_parameters (h : Accepted request q) (n : Text) :
    n ∈ q.parameters.names ↔ n ∈ request.parameters.names ∨ n ∈ generatedNames request := by
  obtain ⟨e, he, _, hparameters⟩ := h.effective
  obtain ⟨_, _, hvalues, _⟩ := effectiveFilter_eq_ok he
  have hpushed : Bindings.names ((request.pushedPredicate.map CompiledPredicate.parameters).getD []) =
      pushedNames request.pushedPredicate := by
    cases request.pushedPredicate <;> rfl
  have hpartition : Bindings.names ((request.partitionIds.map partitionBindings).getD []) =
      (request.partitionIds.map partitionNames).getD [] := by
    cases request.partitionIds with
    | none => rfl
    | some ids => simp [partitionBindings, partitionNames, Bindings.names, List.map_fst_zip]
  have hrange : Bindings.names (if request.rangeColumn.isSome then
      rangeBindings request.rangeLower request.rangeUpper else []) = rangeNames request := by
    unfold rangeNames
    split <;> rfl
  rw [hparameters, Bindings.mem_names_update, Bindings.mem_names_update, hvalues,
    Bindings.mem_names_update, hpushed, hpartition, hrange, generatedNames, List.mem_append,
    List.mem_append]
  tauto

/-- No clause beside the range is dropped for reading like it. -/
theorem Accepted.clause_text_ne (h : Accepted request q) (hcompiled : CompiledRequest request)
    {column : Text} {r : Clause} (hrange : requestRange request = some (column, r)) :
    ∀ c ∈ requestClauses request, c.text q.serverSide ≠ r.text q.serverSide := by
  obtain ⟨hclause, rfl⟩ := h.range column r hrange
  intro c hc
  rcases List.mem_append.mp hc with hfilter | hpartition
  · obtain ⟨condition, hcondition, rfl⟩ := List.mem_map.mp hfilter
    refine filter_text_ne _ request.parameters (hasInternalParameters request) hclause
      (Option.mem_toList.mp hcondition) ?_ hcompiled
    intro f hf
    obtain ⟨b, hb, _⟩ := h.filter hf
    exact ⟨b, hb⟩
  · cases hids : request.partitionIds with
    | none => simp [hids] at hpartition
    | some ids =>
      simp only [hids, Option.map_some, Option.getD_some, List.mem_singleton] at hpartition
      subst hpartition
      exact partition_text_ne _ _ hclause

/-- The condition of an accepted query in terms of its clauses and its range. -/
theorem Accepted.condition_eq (h : Accepted request q) (hcompiled : CompiledRequest request) :
    q.condition =
      match requestRange request with
      | none => if requestClauses request = [] then none
          else some (.conjunction (requestClauses request))
      | some (column, r) =>
          if request.rangeIncludeNull then some (.withNull (requestClauses request) column r)
          else some (.conjunction (requestClauses request ++ [r])) := by
  rw [h.condition]
  cases hrange : requestRange request with
  | none => rfl
  | some p =>
    obtain ⟨column, r⟩ := p
    have hfilter : (requestClauses request ++ [r]).filter
        (fun c => c.text q.serverSide ≠ r.text q.serverSide) = requestClauses request := by
      rw [List.filter_append, List.filter_eq_self.mpr]
      · simp
      · intro c hc
        simpa using h.clause_text_ne hcompiled hrange c hc
    simp only [whereClause, hfilter]

/-- The parentheses in front of a caller's filter: one of its clause, one more
beside a pushed predicate, one more around a condition extended to NULL keys. -/
def openings (request : SelectRequest) : ℕ :=
  1 + request.pushedPredicate.toList.length + (if nullExtended request then 1 else 0)

def filterHead (request : SelectRequest) : Text :=
  match filterText request with
  | none => selectPrefix request
  | some f => selectPrefix request ++ " WHERE ".toList ++ List.replicate (openings request) '(' ++ f

def partitionClauses (request : SelectRequest) : List Clause :=
  (request.partitionIds.map fun ids => [Clause.partition (partitionNames ids)]).getD []

omit [UnicodeDatabase] in
theorem generated_partitions (native : Bool) (request : SelectRequest) :
    ∃ names, List.Forall₂ (Generated native)
        ((partitionClauses request).map (Clause.text native)) names ∧
      names.flatten = (request.partitionIds.map partitionNames).getD [] := by
  cases hids : request.partitionIds with
  | none => exact ⟨[], by simp [partitionClauses, hids], rfl⟩
  | some ids =>
    refine ⟨[partitionNames ids], ?_, by simp⟩
    simpa [partitionClauses, hids] using generated_partition native ids

theorem Accepted.rangeNames_eq (h : Accepted request q) :
    (∀ column r, requestRange request = some (column, r) →
        rangeNames request = (rangeBindings request.rangeLower request.rangeUpper).names) ∧
      (requestRange request = none → rangeNames request = [] ∧ nullExtended request = false) := by
  have hbounds := h.range
  unfold requestRange rangeNames nullExtended at *
  cases hcolumn : request.rangeColumn with
  | none => simp
  | some column =>
    cases hlower : request.rangeLower <;> cases hupper : request.rangeUpper <;>
      simp [rangeBindings, Bindings.names]

/-- The WHERE text behind a caller's filter. -/
theorem Accepted.where_filter (h : Accepted request q) (hcompiled : CompiledRequest request)
    {f : Text} (hf : filterText request = some f) :
    ∃ rest, whereText q.serverSide q.condition =
        " WHERE ".toList ++ List.replicate (openings request) '(' ++ f ++ ')' :: rest ∧
      Generated q.serverSide rest (generatedNames request) ∧ Follows rest := by
  have hpushed : ∀ p, request.pushedPredicate = some p → Compiled p ∧ p.native = q.serverSide :=
    fun p hp => ⟨hcompiled p hp, (h.pushed hp).1⟩
  obtain ⟨condition, hcondition⟩ : ∃ c, filterCondition (some f) request.pushedPredicate = some c := by
    cases request.pushedPredicate <;> exact ⟨_, rfl⟩
  obtain ⟨rest₀, htext, hrest₀, hfollows₀⟩ := filterClause_text _ hcondition hpushed
  obtain ⟨names, hnames, hflat⟩ := generated_partitions q.serverSide request
  have hclauses : requestClauses request = .filter condition :: partitionClauses request := by
    simp [requestClauses, partitionClauses, hf, hcondition]
  -- the conjunction of the filter clause with generated texts
  have hjoin : ∀ (texts : List Text) (ns : List (List Text)),
      List.Forall₂ (Generated q.serverSide) texts ns →
      ∃ rest, join " AND ".toList ((Clause.filter condition).text q.serverSide :: texts) =
          List.replicate (1 + request.pushedPredicate.toList.length) '(' ++ f ++ ')' :: rest ∧
        Generated q.serverSide rest (pushedNames request.pushedPredicate ++ ns.flatten) ∧
        Follows rest := by
    intro texts ns htexts
    refine ⟨rest₀ ++ texts.flatMap (" AND ".toList ++ ·), ?_,
      hrest₀.append (generated_join _ " AND ".toList (by decide) htexts).1,
      hfollows₀.append (follows_and texts)⟩
    rw [join_cons, htext]
    simp
  cases hrange : requestRange request with
  | none =>
    obtain ⟨hempty, hnull⟩ := h.rangeNames_eq.2 hrange
    obtain ⟨rest, hrest, hgen, hfollows⟩ := hjoin _ _ hnames
    have hcond : q.condition = some (.conjunction (.filter condition :: partitionClauses request)) := by
      rw [h.condition_eq hcompiled, hrange, hclauses]
      exact if_neg (List.cons_ne_nil _ _)
    refine ⟨rest, ?_, by simpa [generatedNames, hempty, hflat] using hgen, hfollows⟩
    rw [hcond, whereText_conjunction, List.map_cons, hrest, openings, hnull]
    simp only [Bool.false_eq_true, if_false, Nat.add_zero, List.append_assoc]
  | some p =>
    obtain ⟨column, r⟩ := p
    obtain ⟨hclause, rfl⟩ := h.range column r hrange
    have hrangeNames := h.rangeNames_eq.1 column _ hrange
    cases hnull : request.rangeIncludeNull with
    | false =>
      obtain ⟨rest, hrest, hgen, hfollows⟩ := hjoin _ _ (List.rel_append hnames
        (List.Forall₂.cons (generated_range _ hclause) List.Forall₂.nil))
      have hcond : q.condition = some (.conjunction ((.filter condition ::
          partitionClauses request) ++ [rangeOf column request.rangeLower request.rangeUpper])) := by
        rw [h.condition_eq hcompiled, hrange, hclauses]
        exact if_neg (by simp [hnull])
      have hext : nullExtended request = false := by simp [nullExtended, hnull]
      refine ⟨rest, ?_, by simpa [generatedNames, hrangeNames, hflat] using hgen, hfollows⟩
      rw [hcond, whereText_conjunction, List.map_append, List.map_cons, List.cons_append,
        List.map_singleton, hrest, openings, hext]
      simp only [Bool.false_eq_true, if_false, Nat.add_zero, List.append_assoc]
    | true =>
      obtain ⟨rest, hrest, hgen, hfollows⟩ := hjoin _ _ (List.rel_append hnames
        (List.Forall₂.cons (generated_nullOrRange _ hclause) List.Forall₂.nil))
      have hcond : q.condition = some (.withNull (.filter condition :: partitionClauses request)
          column (rangeOf column request.rangeLower request.rangeUpper)) := by
        rw [h.condition_eq hcompiled, hrange, hclauses]
        exact if_pos hnull
      have hext : nullExtended request = true := by
        have hb := hclause.bounded
        unfold requestRange at hrange
        cases hcolumn : request.rangeColumn with
        | none => simp [hcolumn] at hrange
        | some c => simpa [nullExtended, hnull, hcolumn] using hb
      have hclose := Generated.plain q.serverSide ")".toList (by decide)
      refine ⟨rest ++ ")".toList, ?_,
        by simpa [generatedNames, hrangeNames, hflat] using hgen.append hclose,
        hfollows.append (Or.inr ⟨")", by simp, List.prefix_refl _⟩)⟩
      rw [hcond, whereText_withNull _ (List.cons_ne_nil _ _), List.map_cons, List.cons_append, hrest,
        openings, hext]
      have hopen : "(".toList = List.replicate 1 '(' := rfl
      simp only [if_true, hopen, List.append_assoc, List.cons_append]
      rw [← List.append_assoc (List.replicate 1 '('), List.replicate_append_replicate,
        Nat.add_comm 1 (1 + request.pushedPredicate.toList.length)]

/-- The WHERE text of a query without a caller's filter. -/
theorem Accepted.where_noFilter (h : Accepted request q) (hcompiled : CompiledRequest request)
    (hf : filterText request = none) :
    Generated q.serverSide (whereText q.serverSide q.condition) (generatedNames request) ∧
      (whereText q.serverSide q.condition = [] ∨
        (whereText q.serverSide q.condition).head? = some ' ') := by
  have hpushed : ∀ p, request.pushedPredicate = some p → Compiled p ∧ p.native = q.serverSide :=
    fun p hp => ⟨hcompiled p hp, (h.pushed hp).1⟩
  obtain ⟨names, hnames, hflat⟩ := generated_partitions q.serverSide request
  have hclauses : ∃ ns, List.Forall₂ (Generated q.serverSide)
      ((requestClauses request).map (Clause.text q.serverSide)) ns ∧
      ns.flatten = pushedNames request.pushedPredicate ++
        (request.partitionIds.map partitionNames).getD [] := by
    cases hcondition : filterCondition none request.pushedPredicate with
    | none =>
      have hnone : request.pushedPredicate = none := by
        cases hp : request.pushedPredicate <;> simp [filterCondition, hp] at hcondition ⊢
      refine ⟨names, ?_, by simp [hflat, hnone, pushedNames]⟩
      simpa [requestClauses, hf, hcondition, partitionClauses] using hnames
    | some condition =>
      refine ⟨pushedNames request.pushedPredicate :: names, ?_, by simp [hflat]⟩
      have hfilter := generated_filterClause q.serverSide hcondition hpushed
      simpa [requestClauses, hf, hcondition, partitionClauses] using
        List.Forall₂.cons hfilter hnames
  obtain ⟨ns, hns, hnsflat⟩ := hclauses
  have hwhere := Generated.plain q.serverSide " WHERE ".toList (by decide)
  cases hrange : requestRange request with
  | none =>
    obtain ⟨hempty, _⟩ := h.rangeNames_eq.2 hrange
    rw [h.condition_eq hcompiled, hrange]
    by_cases hnil : requestClauses request = []
    · rw [hnil] at hns
      cases hns
      have hnone : generatedNames request = [] := by
        simpa [generatedNames, hempty] using hnsflat.symm
      simp only [if_pos hnil]
      rw [hnone, whereText_none]
      exact ⟨Generated.nil q.serverSide, Or.inl rfl⟩
    · simp only [if_neg hnil]
      rw [whereText_conjunction]
      refine ⟨?_, Or.inr rfl⟩
      have hjoin := (generated_join q.serverSide " AND ".toList (by decide) hns).2
      simpa [generatedNames, hempty, hnsflat] using hwhere.append hjoin
  | some p =>
    obtain ⟨column, r⟩ := p
    obtain ⟨hclause, rfl⟩ := h.range column r hrange
    have hrangeNames := h.rangeNames_eq.1 column _ hrange
    rw [h.condition_eq hcompiled, hrange]
    cases hnull : request.rangeIncludeNull with
    | false =>
      simp only [Bool.false_eq_true, if_false]
      rw [whereText_conjunction, List.map_append, List.map_singleton]
      refine ⟨?_, Or.inr rfl⟩
      have hjoin := (generated_join q.serverSide " AND ".toList (by decide) (List.rel_append hns
        (List.Forall₂.cons (generated_range _ hclause) List.Forall₂.nil))).2
      simpa [generatedNames, hrangeNames, hnsflat] using hwhere.append hjoin
    | true =>
      simp only [if_true]
      have hor := generated_nullOrRange q.serverSide hclause
      by_cases hnil : requestClauses request = []
      · rw [hnil] at hns
        cases hns
        have hempty : pushedNames request.pushedPredicate ++
            (request.partitionIds.map partitionNames).getD [] = [] := hnsflat.symm
        have hnames' : generatedNames request =
            (rangeBindings request.rangeLower request.rangeUpper).names := by
          rw [generatedNames, hempty, hrangeNames, List.nil_append]
        rw [hnil, whereText_withNull_nil, hnames']
        exact ⟨hwhere.append hor, Or.inr rfl⟩
      · have hopen := Generated.plain q.serverSide "(".toList (by decide)
        have hclose := Generated.plain q.serverSide ")".toList (by decide)
        rw [whereText_withNull _ hnil]
        refine ⟨?_, Or.inr rfl⟩
        have hjoin := (generated_join q.serverSide " AND ".toList (by decide) (List.rel_append hns
          (List.Forall₂.cons hor List.Forall₂.nil))).2
        simpa [generatedNames, hrangeNames, hnsflat] using
          hwhere.append ((hopen.append hjoin).append hclose)

/-- An accepted query: what precedes the end of the filter, then generated text
with the placeholders of the request. -/
structure Shaped (request : SelectRequest) (q : SelectQuery) (tail : Text) : Prop where
  sql : q.sql = filterHead request ++ tail
  generated : Generated q.serverSide tail (generatedNames request)
  start : tail = [] ∨ tail.head? = some ' ' ∨ tail.head? = some ')'
  closed : (filterText request).isSome → ∃ rest, tail = ')' :: rest ∧ Follows rest

theorem Accepted.shaped (h : Accepted request q) (hcompiled : CompiledRequest request) :
    ∃ tail, Shaped request q tail := by
  obtain ⟨order, limit, horder, hlimit, hsql⟩ := h.sql
  obtain ⟨hgenOrder, hfollowsOrder, hstartOrder⟩ := generated_order q.serverSide horder
  obtain ⟨hgenLimit, hfollowsLimit, hstartLimit⟩ := generated_limit q.serverSide hlimit
  cases hf : filterText request with
  | some f =>
    obtain ⟨rest, hwhere, hgen, hfollows⟩ := h.where_filter hcompiled hf
    have hclose := Generated.plain q.serverSide ")".toList (by decide)
    refine ⟨')' :: (rest ++ order ++ limit), ?_, ?_, Or.inr (Or.inr rfl), fun _ => ⟨_, rfl,
      (hfollows.append hfollowsOrder).append hfollowsLimit⟩⟩
    · rw [hsql, hwhere]
      simp [filterHead, hf]
    · simpa using hclose.append ((hgen.append hgenOrder).append hgenLimit)
  | none =>
    obtain ⟨hgen, hstart⟩ := h.where_noFilter hcompiled hf
    refine ⟨whereText q.serverSide q.condition ++ order ++ limit, ?_, ?_, ?_, by simp [hf]⟩
    · rw [hsql]
      simp [filterHead, hf]
    · simpa using (hgen.append hgenOrder).append hgenLimit
    · rcases hstart with hstart | hstart
      · rcases hstartOrder with ho | ho
        · rcases hstartLimit with hl | hl
          · exact Or.inl (by rw [hstart, ho, hl]; rfl)
          · exact Or.inr (Or.inl (by rw [hstart, ho]; exact hl))
        · right; left
          rw [hstart, List.nil_append, List.head?_append, ho]
          rfl
      · right; left
        rw [List.append_assoc, List.head?_append, hstart]
        rfl

end Request

theorem exampleTable_database : isIdentifier "db".toList = true := by decide

theorem exampleTable_table : isIdentifier "events".toList = true := by decide

def exampleTable : QualifiedTable :=
  ⟨"db".toList, "events".toList, exampleTable_database, exampleTable_table⟩

end RayClickHouse.Sql
