import RayClickHouse.Fragments
import RayClickHouse.Sql

/-!
The shape of an accepted query. Its text is the SELECT list, the filter behind
its opening parentheses, and generated text after it; its parameters are the
caller's and those of the generated placeholders.
-/
namespace RayClickHouse.Sql

open Text Lexical TypeText FilterScan Schema Predicates

variable [UnicodeDatabase]

section Accepted

structure FilterAccepted (filter : Text) (parameters : Bindings) (internal : Bool)
    (b : FilterBindings) : Prop where
  scanned : filterBindings filter = .ok b
  unmixed : b.clientNames = [] ∨ b.serverTypes = []
  unambiguous : b.ambiguous = true → parameters = [] ∧ internal = false
  used_iff : ∀ n, (n ∈ b.clientNames ∨ n ∈ b.serverTypes.map Prod.fst) ↔ n ∈ parameters.names
  names_ok : ∀ n ∈ parameters.names, n ≠ [] ∧ internalPrefix.isPrefixOf n = false

omit [UnicodeDatabase] in
theorem parameterMap_eq_ok {parameters values : Bindings} (h : parameterMap parameters = .ok values) :
    values = parameters ∧
      ∀ n ∈ parameters.names, n ≠ [] ∧ internalPrefix.isPrefixOf n = false := by
  unfold parameterMap at h
  split at h
  · simp [Outcome.raise] at h
  · rename_i hempty
    split at h
    · simp [Outcome.raise] at h
    · rename_i hprefix
      refine ⟨(Except.ok.inj h).symm, ?_⟩
      intro n hn
      refine ⟨fun hnil => hempty (hnil ▸ hn), ?_⟩
      by_contra hcon
      exact hprefix (List.any_eq_true.mpr ⟨n, hn, by simpa using hcon⟩)

theorem validateFilterParameters_some {filter : Text} {parameters : Bindings} {internal native : Bool}
    (h : validateFilterParameters (some filter) parameters internal = .ok native) :
    ∃ b, FilterAccepted filter parameters internal b ∧
      native = (b.serverTypes.map Prod.fst ≠ [] || (internal && b.clientNames == [])) := by
  obtain ⟨values, hvalues, hrest⟩ := Except.bind_eq_ok.mp h
  obtain ⟨rfl, hnames⟩ := parameterMap_eq_ok hvalues
  obtain ⟨b, hb, hchecks⟩ := Except.bind_eq_ok.mp hrest
  simp only at hchecks
  refine ⟨b, ?_⟩
  split at hchecks
  · simp [Outcome.raise] at hchecks
  · rename_i hmixed
    split at hchecks
    · simp [Outcome.raise] at hchecks
    · rename_i hambiguous
      split at hchecks
      · simp [Outcome.raise] at hchecks
      · rename_i hmissing
        split at hchecks
        · simp [Outcome.raise] at hchecks
        · rename_i hunused
          refine ⟨⟨hb, ?_, ?_, ?_, hnames⟩, (Except.ok.inj hchecks).symm⟩
          · rw [ne_eq, ne_eq, List.map_eq_nil_iff] at hmixed
            tauto
          · intro hamb
            simpa [hamb] using hambiguous
          · intro n
            have hused := List.filter_eq_nil_iff.mp (not_not.mp hmissing) n
            have hvalue := List.filter_eq_nil_iff.mp (not_not.mp hunused) n
            simp only [List.mem_append, decide_not, Bool.not_eq_true', decide_eq_false_iff_not,
              not_not] at hused hvalue
            exact ⟨hused, hvalue⟩

theorem validateFilterParameters_none {parameters : Bindings} {internal native : Bool}
    (h : validateFilterParameters none parameters internal = .ok native) :
    parameters = [] ∧ native = false := by
  obtain ⟨values, hvalues, hrest⟩ := Except.bind_eq_ok.mp h
  obtain ⟨rfl, _⟩ := parameterMap_eq_ok hvalues
  simp only at hrest
  split at hrest
  · simp [Outcome.raise] at hrest
  · rename_i hnil
    exact ⟨by simpa using hnil, (Except.ok.inj hrest).symm⟩

theorem predicateBindingProtocol_some {filter : Text} {parameters : Bindings} {native : Bool}
    {b : FilterBindings} (hb : filterBindings filter = .ok b)
    (h : predicateBindingProtocol (some filter) parameters = .ok (some native)) :
    b.ambiguous = false ∧ native = (b.clientNames == []) := by
  obtain ⟨_, _, hrest⟩ := Except.bind_eq_ok.mp h
  obtain ⟨b', hb', hprotocol⟩ := Except.bind_eq_ok.mp hrest
  cases Except.ok.inj (hb.symm.trans hb')
  have hopt := Except.ok.inj hprotocol
  split at hopt
  · contradiction
  · rename_i hamb
    exact ⟨by simpa using hamb, (Option.some.inj hopt).symm⟩

theorem predicateBindingProtocol_none {parameters : Bindings} {native : Bool}
    (h : predicateBindingProtocol none parameters = .ok (some native)) : native = true := by
  obtain ⟨_, _, hrest⟩ := Except.bind_eq_ok.mp h
  exact (Option.some.inj (Except.ok.inj hrest)).symm

theorem validateFilter_eq_ok {filterSql filter : Option Text}
    (h : validateFilter filterSql = .ok filter) : filter = filterSql.map strip := by
  cases filterSql with
  | none => exact (Except.ok.inj h).symm
  | some value =>
    unfold validateFilter at h
    simp only at h
    split at h
    · simp [Outcome.raise] at h
    · split at h
      · simp [Outcome.raise] at h
      · split at h
        · simp [Outcome.raise] at h
        · exact (Except.ok.inj h).symm

end Accepted

section Effective

/-- The condition a query has on its rows before the generated constraints. -/
def filterCondition (filter : Option Text) (pushed : Option CompiledPredicate) :
    Option FilterCondition :=
  match filter, pushed with
  | none, none => none
  | some u, none => some (.user u)
  | none, some p => some (.pushed p.sql)
  | some u, some p => some (.both u p.sql)

def pushedNames (pushed : Option CompiledPredicate) : List Text :=
  (pushed.map fun p => p.parameters.names).getD []

theorem effectiveFilter_eq_ok {filterSql : Option Text} {parameters : Bindings}
    {pushed : Option CompiledPredicate} {internal : Bool} {e : EffectiveFilter}
    (h : effectiveFilter filterSql parameters pushed internal = .ok e) :
    (∃ native, validateFilterParameters (filterSql.map strip) parameters internal = .ok native ∧
        (pushed = none → e.native = native)) ∧
      e.condition = filterCondition (filterSql.map strip) pushed ∧
      e.values = parameters.update ((pushed.map CompiledPredicate.parameters).getD []) ∧
      (∀ p, pushed = some p → p.native = e.native ∧
        predicateBindingProtocol (filterSql.map strip) parameters = .ok (some e.native) ∧
        ∀ n ∈ p.parameters.names, n ∉ parameters.names) := by
  obtain ⟨filter, hfilter, h₁⟩ := Except.bind_eq_ok.mp h
  cases validateFilter_eq_ok hfilter
  obtain ⟨values, hvalues, h₂⟩ := Except.bind_eq_ok.mp h₁
  cases (parameterMap_eq_ok hvalues).1
  obtain ⟨native, hnative, hrest⟩ := Except.bind_eq_ok.mp h₂
  cases pushed with
  | none =>
    cases Except.ok.inj hrest
    refine ⟨⟨native, hnative, fun _ => rfl⟩, ?_, rfl, by simp⟩
    cases filterSql <;> rfl
  | some p =>
    obtain ⟨protocol, hprotocol, hlast⟩ := Except.bind_eq_ok.mp hrest
    split at hlast
    · simp [Outcome.raise] at hlast
    · rename_i hagree
      have hsame : protocol = some p.native := by simpa using hagree
      subst hsame
      split at hlast
      · simp [Outcome.raise] at hlast
      · rename_i hoverlap
        cases Except.ok.inj hlast
        refine ⟨⟨native, hnative, by simp⟩, ?_, rfl, ?_⟩
        · cases filterSql <;> rfl
        · rintro p' hp
          cases Option.some.inj hp
          refine ⟨rfl, hprotocol, ?_⟩
          intro n hn hin
          exact hoverlap (List.any_eq_true.mpr ⟨n, hn, by simpa using hin⟩)

end Effective

section Reserved

theorem parameterType_int128 :
    parameterType "Int128".toList =
      .error ⟨.configuration, "unsupported server-side parameter type", []⟩ := rfl

theorem filterBindingsFrom_plain {fuel : ℕ} {b : FilterBindings} {c : Char}
    (h : plainChar c = true) (rest : Text) :
    filterBindingsFrom (fuel + 1) b (c :: rest) = filterBindingsFrom fuel b rest := by
  rw [filterBindingsFrom, nextSegment_plain h]
  rfl

theorem filterBindingsFrom_column (fuel : ℕ) (b : FilterBindings) {column : Text} (after : Text)
    (h : isIdentifier column = true) (hafter : after.head? ≠ some '`') :
    ∃ b', filterBindingsFrom (fuel + 1) b (quoted column ++ after) =
      filterBindingsFrom fuel b' after := by
  have hshape : quoted column ++ after = '`' :: (column ++ '`' :: after) := by simp [quoted]
  rw [hshape, filterBindingsFrom, nextSegment, nextLexeme_quoted h hafter]
  exact ⟨_, rfl⟩

/-- A placeholder of a generated bound is not accepted from a caller: its name
is collected, or its type is refused. -/
theorem filterBindingsFrom_bound {fuel : ℕ} {b b' : FilterBindings} {native : Bool}
    {name after : Text} (hname : isIdentifier name = true)
    (h : filterBindingsFrom (fuel + 1) b (placeholder native name "Int128".toList ++ after) =
      .ok b') : name ∈ b'.clientNames := by
  cases native with
  | true =>
    have hmatch := matchServerParameter_placeholder hname (show "Int128".toList ≠ [] by decide)
      (List.all_eq_true.mp (by decide)) after
    have hshape : serverPlaceholder name "Int128".toList ++ after =
        '{' :: (name ++ ':' :: ("Int128".toList ++ '}' :: after)) := by simp [serverPlaceholder]
    have hclient : matchParameter ('{' :: (name ++ ':' :: ("Int128".toList ++ '}' :: after))) = none :=
      matchParameter_plain fun hp => absurd hp.1 (by decide)
    simp only [placeholder, if_true] at h
    rw [hshape] at h hmatch
    rw [filterBindingsFrom, nextSegment, nextLexeme_brace] at h
    simp only [nextCode, hclient, if_true, hmatch] at h
    obtain ⟨_, hsegment, hrest⟩ := Except.bind_eq_ok.mp h
    cases Except.ok.inj hsegment
    obtain ⟨_, hadd, _⟩ := Except.bind_eq_ok.mp hrest
    obtain ⟨_, htype, _⟩ := Except.bind_eq_ok.mp hadd
    rw [parameterType_int128] at htype
    contradiction
  | false =>
    have hmatch := matchParameter_placeholder hname after
    have hshape : clientPlaceholder name ++ after =
        '%' :: ('(' :: (name ++ (')' :: 's' :: after))) := by simp [clientPlaceholder]
    simp only [placeholder, Bool.false_eq_true, if_false] at h
    rw [hshape] at h hmatch
    rw [filterBindingsFrom, nextSegment, nextLexeme_percent] at h
    simp only [nextCode, hmatch] at h
    have hgrow := filterBindingsFrom_clientNames h
    exact hgrow (List.mem_append_right _ (List.mem_singleton_self name))

omit [UnicodeDatabase] in
theorem isIdentifier_rangeLowerName : isIdentifier rangeLowerName = true := by decide

omit [UnicodeDatabase] in
theorem isIdentifier_rangeUpperName : isIdentifier rangeUpperName = true := by decide

/-- The text of a generated range is not an acceptable filter. -/
theorem rangeParts_not_accepted {native internal : Bool} {column : Text} {lower upper : Option Text}
    {parameters : Bindings} {b : FilterBindings} (hcolumn : isIdentifier column = true)
    (hbound : lower = some rangeLowerName ∨ lower = none ∧ upper = some rangeUpperName) :
    ¬ FilterAccepted (join " AND ".toList (rangeParts native column lower upper)) parameters
      internal b := by
  intro haccepted
  obtain ⟨name, start, after, hname, hreserved, hstart, hlen, htext⟩ :
      ∃ name start after, isIdentifier name = true ∧ internalPrefix.isPrefixOf name = true ∧
        start.all plainChar = true ∧ start.length ≤ 4 ∧
        join " AND ".toList (rangeParts native column lower upper) =
          quoted column ++ (' ' :: start ++ (placeholder native name "Int128".toList ++ after)) := by
    rcases hbound with rfl | ⟨rfl, rfl⟩
    · refine ⟨rangeLowerName, ">= ".toList, (upper.toList.map (fun n => quoted column ++
        " < ".toList ++ placeholder native n "Int128".toList)).flatMap (" AND ".toList ++ ·),
        isIdentifier_rangeLowerName, by decide, by decide, by decide, ?_⟩
      simp [rangeParts, join_cons]
    · refine ⟨rangeUpperName, "< ".toList, [], isIdentifier_rangeUpperName, by decide, by decide,
        by decide, ?_⟩
      simp [rangeParts, join_cons]
  have hscan := haccepted.scanned
  obtain ⟨b₀, hfrom, hfinish⟩ := Except.bind_eq_ok.mp hscan
  have hmem : name ∈ b₀.clientNames := by
    rw [htext] at hfrom
    obtain ⟨m, hm⟩ : ∃ m, (placeholder native name "Int128".toList).length = m + 1 := by
      cases native
      · exact ⟨name.length + 3, by simp [placeholder, clientPlaceholder]⟩
      · exact ⟨name.length + 8, by simp [placeholder, serverPlaceholder]⟩
    obtain ⟨fuel, hfuel⟩ : ∃ fuel, (quoted column ++ (' ' :: start ++
        (placeholder native name "Int128".toList ++ after))).length =
          fuel + 1 + start.length + 1 + 1 := by
      refine ⟨column.length + m + after.length + 1, ?_⟩
      simp only [quoted, List.length_append, List.length_cons, List.length_nil, hm]
      omega
    rw [hfuel] at hfrom
    obtain ⟨b₁, hstep⟩ := filterBindingsFrom_column (fuel + 1 + start.length + 1) {}
      (' ' :: start ++ (placeholder native name "Int128".toList ++ after)) hcolumn (by simp)
    rw [hstep, List.cons_append, filterBindingsFrom_plain (by decide)] at hfrom
    have hskip : ∀ s : Text, s.all plainChar = true →
        filterBindingsFrom (fuel + 1 + s.length) b₁
          (s ++ (placeholder native name "Int128".toList ++ after)) =
        filterBindingsFrom (fuel + 1) b₁ (placeholder native name "Int128".toList ++ after) := by
      intro s hs
      induction s with
      | nil => rfl
      | cons c s ih =>
        simp only [List.all_cons, Bool.and_eq_true] at hs
        rw [List.length_cons, ← Nat.add_assoc, List.cons_append, filterBindingsFrom_plain hs.1,
          ih hs.2]
    rw [hskip start hstart] at hfrom
    exact filterBindingsFrom_bound hname hfrom
  have hused : name ∈ b.clientNames := by
    cases Except.ok.inj hfinish
    unfold FilterBindings.finish
    split
    · exact List.mem_append_left _ hmem
    · exact hmem
  have hvalue := haccepted.names_ok name ((haccepted.used_iff name).mp (Or.inl hused))
  rw [hvalue.2] at hreserved
  contradiction

end Reserved

end RayClickHouse.Sql
