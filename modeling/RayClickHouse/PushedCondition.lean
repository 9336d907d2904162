import RayClickHouse.CompiledReading
import RayClickHouse.LiteralValues
import RayClickHouse.PredicateExactness
import RayClickHouse.Selection

/-!
The condition a pushed predicate puts into a query. The recogniser of local
predicates reads every compiled text and, beside a filter it reads, the combined
text of the two; the truth of what it reads is the truth of the compiled tree,
joined by AND with the truth of the filter.
-/
namespace RayClickHouse.PredicateMeaning

open Text Schema Connectives PredicateTokens PredicateColumns PredicateGrammar Predicates
open PredicateReading ThreeValued Sql

section Reading

variable [UnicodeDatabase] {columns : List TargetColumn} {limit depth : ℕ} {text : Text}
variable {f g : Formula Condition} {S : Finset Text}

/-- The recogniser reads a whole text as a formula. -/
def Reads (columns : List TargetColumn) (limit : ℕ) (text : Text) (f : Formula Condition) : Prop :=
  ∃ ts, tokens text = .ok ts ∧ (reader columns).expression limit ts = .ok (f, [])

theorem predicateColumns_iff : predicateColumns limit text columns = .ok S ↔
    ∃ f, Reads columns limit text f ∧ mentioned f = S ∧ S.Nonempty := by
  constructor
  · intro h
    obtain ⟨ts, htokens, -⟩ := Except.bind_eq_ok.mp h
    obtain ⟨f, hread, hmentioned, hne⟩ := (predicateColumns_eq_ok htokens).mp h
    exact ⟨f, ⟨ts, htokens, hread⟩, hmentioned, Finset.nonempty_iff_ne_empty.mpr hne⟩
  · rintro ⟨f, ⟨ts, htokens, hread⟩, hmentioned, hne⟩
    exact (predicateColumns_eq_ok htokens).mpr ⟨f, hread, hmentioned, hne.ne_empty⟩

theorem stops_nil (R : Reader Token Failure Condition) : R.Stops [] :=
  ⟨halts_nil _, halts_nil _⟩

theorem Reads.of_term (h : TermText columns depth text f) : Reads columns depth text f := by
  obtain ⟨ts, hspelt, hread⟩ := h
  have htokens := hspelt []
  rw [List.append_nil, tokens_nil] at htokens
  have hexpression := Reader.ReadsAs.expression hread (stops_nil (reader columns))
  rw [List.append_nil] at hexpression
  refine ⟨ts, ?_, hexpression⟩
  rw [htokens]
  exact congrArg Except.ok (List.append_nil ts)

theorem Reads.grouped (h : Reads columns limit text f) :
    TermText columns (limit + 1) ("(".toList ++ text ++ ")".toList) f := by
  obtain ⟨ts, htokens, hread⟩ := h
  exact TermText.whole htokens hread

/-- Two texts that are read are read together, one level deeper. -/
theorem Reads.both {user pushed : Text} (hf : Reads columns limit user f)
    (hg : Reads columns limit pushed g) :
    Reads columns (limit + 1) (FilterCondition.both user pushed).text (.conj f g) := by
  obtain ⟨ls, hleft, hf⟩ := hf.grouped
  obtain ⟨rs, hright, hg⟩ := hg.grouped
  have hspelt := (hleft.append Spelt.and).append hright
  have htokens := hspelt []
  rw [List.append_nil, tokens_nil] at htokens
  have hread := Reader.ReadsAs.conjunction (a := keyword "AND" and_keyword)
    (reader_steady columns) role_and hf hg (stops_nil (reader columns))
  refine ⟨ls ++ keyword "AND" and_keyword :: rs, ?_, ?_⟩
  · have hshape : (FilterCondition.both user pushed).text =
        "(".toList ++ user ++ ")".toList ++ " AND ".toList ++
          ("(".toList ++ pushed ++ ")".toList) := by
      simp [FilterCondition.text]
    rw [hshape, htokens]
    exact congrArg Except.ok (by simp)
  · rwa [List.append_nil] at hread

end Reading

section Compiled

variable [UnicodeDatabase] {node : PredicateNode} {schema : SchemaPlan} {native : Bool}
variable {p : CompiledPredicate} {limit : ℕ}

theorem compiled_translates (h : compilePredicate node schema native = .ok (some p)) :
    ∃ f, TermText schema.columns 66 p.sql f ∧ mentioned f = p.columns.toFinset ∧
      (mentioned f).Nonempty ∧ SameTruth schema p.parameters node f ∧
      p.parameters.names.Nodup := by
  unfold compilePredicate at h
  split at h
  · rename_i sql state hrender
    cases h
    have hrenders := renders_of_render hrender
    obtain ⟨f, hf⟩ := translates_of_renders hrenders
    have hheight := render_height hrender
    have hnames : state.parameters.names = _ := hrenders.numbered rfl
    refine ⟨f, hf.text.deeper (by omega), ?_, hf.nonempty, hf.meaning, ?_⟩
    · ext n
      rw [List.mem_toFinset, hf.names]
      simp
    · show state.parameters.names.Nodup
      rw [hnames]
      exact nodup_numbered expressionPrefix _
  · cases h
  · cases h

omit [UnicodeDatabase] in
theorem binds_of_nodup {parameters : Bindings} (h : parameters.names.Nodup) :
    Binds parameters parameters := by
  induction parameters with
  | nil => simp [Binds]
  | cons first rest ih =>
    obtain ⟨name, value⟩ := first
    have hcons : (name :: Bindings.names rest).Nodup := h
    obtain ⟨hfirst, hrest⟩ := List.nodup_cons.mp hcons
    intro b hb
    unfold Bindings.get?
    rw [List.lookup_cons]
    rcases List.mem_cons.mp hb with rfl | hb
    · simp
    · have hne : b.1 ≠ name := by
        intro heq
        exact hfirst (heq ▸ Bindings.mem_names hb)
      rw [beq_false_of_ne hne]
      exact ih hrest b hb

/-- The compiled text means what the tree means: on every row that fits the
schema it has the truth value of the tree under its own parameters. -/
theorem compiled_meaning (h : compilePredicate node schema native = .ok (some p))
    (hlimit : 66 ≤ limit) :
    ∃ f, Reads schema.columns limit p.sql f ∧ ∀ row, RowFits schema row →
      ∃ t, nodeTruth row node = some t ∧ sqlTruth row p.parameters f = some t := by
  obtain ⟨f, htext, -, -, hmeaning, hnodup⟩ := compiled_translates h
  refine ⟨f, Reads.of_term (htext.deeper hlimit), ?_⟩
  intro row hrow
  exact hmeaning row p.parameters hrow (binds_of_nodup hnodup)

/-- Everything the compiler returns is recognised, with the columns it recorded,
and so is its conjunction with any recognised filter. -/
theorem compiled_recognised (h : compilePredicate node schema native = .ok (some p))
    (hlimit : 66 ≤ limit) :
    predicateColumns limit p.sql schema.columns = .ok p.columns.toFinset ∧
      ∀ filter S, predicateColumns limit filter schema.columns = .ok S →
        predicateColumns (limit + 1) (FilterCondition.both filter p.sql).text schema.columns =
          .ok (S ∪ p.columns.toFinset) := by
  obtain ⟨f, htext, hmentioned, hne, -⟩ := compiled_translates h
  have hread := Reads.of_term (htext.deeper hlimit)
  refine ⟨predicateColumns_iff.mpr ⟨f, hread, hmentioned, hmentioned ▸ hne⟩, ?_⟩
  intro filter S hfilter
  obtain ⟨g, hg, rfl, hS⟩ := predicateColumns_iff.mp hfilter
  refine predicateColumns_iff.mpr ⟨.conj g f, hg.both hread, ?_, hS.mono Finset.subset_union_left⟩
  rw [mentioned_conj, hmentioned]

end Compiled

section CompiledExample

theorem bounded_compiles :
    compilePredicate (boundedTree 3 5) eventsSchema true = .ok (some (boundedPredicate 3 5)) := by
  decide +kernel

def eventRow : Row := fun name => if name = "id".toList then .int 7 else .bool true

theorem eventRow_fits : RowFits eventsSchema eventRow := by
  intro node name declared dtype h
  obtain ⟨children, rfl⟩ := columnType_node h
  obtain ⟨-, column, -, -, hcolumn, -⟩ := columnType_eq_ok h
  obtain ⟨rfl, hmem⟩ := columnNamed_spec hcolumn
  have hnone : ∀ name, columnType eventsSchema (.node .column children (.str name)) =
      columnType eventsSchema (.node .column [] (.str name)) := fun _ => rfl
  rw [hnone] at h
  simp only [eventsSchema, List.mem_cons, List.not_mem_nil, or_false] at hmem
  rcases hmem with rfl | rfl
  · have hid : columnType eventsSchema (.node .column [] (.str "id".toList)) =
        .ok ("id".toList, .integer ⟨true, .w64⟩, .integer ⟨true, .w64⟩) := by
      decide +kernel
    cases h.symm.trans hid
    exact .integer (by decide)
  · have hflag : columnType eventsSchema (.node .column [] (.str "flag".toList)) =
        .ok ("flag".toList, .bool, .boolean) := by
      decide +kernel
    cases h.symm.trans hflag
    exact .bool

theorem bounded_means :
    ∃ f, @Reads asciiDatabase eventsSchema.columns 66 (boundedPredicate 3 5).sql f ∧
      @sqlTruth asciiDatabase eventRow (boundedPredicate 3 5).parameters f = some .yes := by
  obtain ⟨f, hreads, hmeaning⟩ := @compiled_meaning asciiDatabase _ _ _ _ 66 bounded_compiles le_rfl
  obtain ⟨t, ht, hsql⟩ := hmeaning eventRow eventRow_fits
  have hyes : nodeTruth eventRow (boundedTree 3 5) = some .yes := by decide +kernel
  cases hyes.symm.trans ht
  exact ⟨f, hreads, hsql⟩

def eventsFilter : Text := "id < {top:Int64}".toList

theorem bounded_recognised :
    @predicateColumns asciiDatabase 66 (boundedPredicate 3 5).sql eventsSchema.columns =
      .ok (boundedPredicate 3 5).columns.toFinset ∧
    @predicateColumns asciiDatabase 67
      (FilterCondition.both eventsFilter (boundedPredicate 3 5).sql).text eventsSchema.columns =
      .ok ({"id".toList} ∪ (boundedPredicate 3 5).columns.toFinset) := by
  obtain ⟨halone, hboth⟩ :=
    @compiled_recognised asciiDatabase _ _ _ _ 66 bounded_compiles le_rfl
  refine ⟨halone, hboth eventsFilter {"id".toList} ?_⟩
  have hcheck : Outcome.check (@predicateColumns asciiDatabase 66 eventsFilter
      eventsSchema.columns) (fun S => decide (S = {"id".toList})) = true := by
    decide +kernel
  obtain ⟨S, hS, heq⟩ := Outcome.check_eq_true.mp hcheck
  rw [hS, of_decide_eq_true heq]

end CompiledExample

section Queries

variable [UnicodeDatabase] {node : PredicateNode} {schema : SchemaPlan} {limit : ℕ}
variable {request : SelectRequest} {q : SelectQuery} {p : CompiledPredicate}
variable {v : RowView Row} {row : Row}

/-- A meaning of conditions that has the compiler's conditions as they are. -/
def Extends (row : Row) (parameters : Bindings) (meaning : Condition → Option Truth) : Prop :=
  ∀ condition t, conditionTruth row parameters condition = some t → meaning condition = some t

theorem formulaTruth_extends {parameters : Bindings} {meaning : Condition → Option Truth}
    (hmeaning : Extends row parameters meaning) {f : Formula Condition} {t : Truth}
    (h : sqlTruth row parameters f = some t) : formulaTruth meaning f = some t := by
  unfold sqlTruth at h
  induction f generalizing t with
  | leaf condition => exact hmeaning condition t h
  | neg f ih =>
    obtain ⟨u, hu, rfl⟩ := Option.map_eq_some_iff.mp h
    simp only [formulaTruth, ih hu, Option.map_some]
  | conj f g ihf ihg =>
    obtain ⟨a, b, ha, hb, rfl⟩ := Option.map₂_eq_some_iff.mp h
    simp only [formulaTruth, ihf ha, ihg hb, Option.map₂_some_some]
  | disj f g ihf ihg =>
    obtain ⟨a, b, ha, hb, rfl⟩ := Option.map₂_eq_some_iff.mp h
    simp only [formulaTruth, ihf ha, ihg hb, Option.map₂_some_some]

theorem condition_reads {filter : Option Text} {parameters : Bindings}
    {meaning : Condition → Option Truth} (hmeaning : Extends row parameters meaning)
    (hcompile : compilePredicate node schema p.native = .ok (some p)) (hlimit : 66 ≤ limit)
    (hrow : RowFits schema row) (hbinds : Binds parameters p.parameters)
    (hpredicate : nodeTruth row node = some (v.predicate row))
    (hfilter : ∀ u, filter = some u →
      ∃ g, Reads schema.columns limit u g ∧ formulaTruth meaning g = some (v.filter row)) :
    ∃ condition f, filterCondition filter (some p) = some condition ∧
      Reads schema.columns (limit + 1) condition.text f ∧
      formulaTruth meaning f = some (condition.truth v row) := by
  obtain ⟨f, htext, -, -, htruth, -⟩ := compiled_translates hcompile
  obtain ⟨t, ht, hf⟩ := htruth row parameters hrow hbinds
  have hvalue : formulaTruth meaning f = some (v.predicate row) := by
    apply formulaTruth_extends hmeaning
    rw [hf, ← ht, hpredicate]
  cases filter with
  | none => exact ⟨.pushed p.sql, f, rfl, Reads.of_term (htext.deeper (by omega)), hvalue⟩
  | some u =>
    obtain ⟨g, hreads, hg⟩ := hfilter u rfl
    refine ⟨.both u p.sql, .conj g f, rfl,
      hreads.both (Reads.of_term (htext.deeper hlimit)), ?_⟩
    simp only [formulaTruth, hg, hvalue]
    rfl

/-- A query with a pushed predicate keeps a row exactly when its filter and the tree hold on
it and its split admits it; where the filter is read and has a truth value, the text of the
condition reads as the two, with the truth of both under all parameters of the query. -/
theorem select_keeps (h : buildSelect request = .ok q) (hpushed : request.pushedPredicate = some p)
    (hcompile : compilePredicate node schema p.native = .ok (some p)) (hlimit : 66 ≤ limit)
    (hrow : RowFits schema row) (hpredicate : nodeTruth row node = some (v.predicate row)) :
    (q.truth v row = .yes ↔ (filterText request ≠ none → v.filter row = .yes) ∧
      nodeTruth row node = some .yes ∧ request.admits v row = true) ∧
    ∀ meaning, Extends row q.parameters meaning →
      (∀ u, filterText request = some u →
        ∃ g, Reads schema.columns limit u g ∧ formulaTruth meaning g = some (v.filter row)) →
      ∃ condition f,
        filterCondition (filterText request) request.pushedPredicate = some condition ∧
        Reads schema.columns (limit + 1) condition.text f ∧
        formulaTruth meaning f = some (condition.truth v row) := by
  have haccepted := accepted_of_buildSelect h
  have hcompiled : CompiledRequest request := by
    intro p' hp'
    rw [hpushed, Option.some.injEq] at hp'
    subst hp'
    exact ⟨node, schema, hcompile⟩
  constructor
  · rw [haccepted.truth_eq_yes v row hcompiled, whole, hpushed, hpredicate, Truth.and_eq_yes,
      and_assoc, Option.some.injEq]
    cases hsql : request.filterSql <;> simp [filterText, hsql]
  · intro meaning hmeaning hfilter
    rw [hpushed]
    exact condition_reads hmeaning hcompile hlimit hrow
      ((haccepted.noOverwrite hcompiled).pushed p hpushed) hpredicate hfilter

end Queries

section QueryExample

def eventsRequest : SelectRequest :=
  { table := exampleTable
    columns := ["id".toList]
    filterSql := some eventsFilter
    parameters := [("top".toList, .int 9)]
    pushedPredicate := some (boundedPredicate 3 5) }

def eventsView : RowView Row :=
  { partitionId := fun _ => []
    integer := fun _ _ => none
    filter := fun row => ((compareValues .lt (row "id".toList) (.int 9)).getD .unknown)
    predicate := fun row => (nodeTruth row (boundedTree 3 5)).getD .unknown }

theorem events_query_keeps :
    ∃ q, @buildSelect asciiDatabase eventsRequest = .ok q ∧
      SelectQuery.truth eventsView eventRow q = .yes ∧
      ∃ condition f, filterCondition (filterText eventsRequest) eventsRequest.pushedPredicate =
          some condition ∧
        @Reads asciiDatabase eventsSchema.columns 67 condition.text f ∧
        @sqlTruth asciiDatabase eventRow q.parameters f = some .yes := by
  let _ := asciiDatabase
  have hcheck : Outcome.check (buildSelect eventsRequest) (fun q =>
      Outcome.check (tokens (strip eventsFilter)) fun ts =>
        Outcome.check ((reader eventsSchema.columns).expression 66 ts) fun r =>
          r.2.isEmpty && decide (sqlTruth eventRow q.parameters r.1 = some .yes)) = true := by
    decide +kernel
  obtain ⟨q, hq, hfilter⟩ := Outcome.check_eq_true.mp hcheck
  obtain ⟨ts, htokens, hread⟩ := Outcome.check_eq_true.mp hfilter
  obtain ⟨⟨g, rest⟩, hg, hyes⟩ := Outcome.check_eq_true.mp hread
  simp only [Bool.and_eq_true, List.isEmpty_iff, decide_eq_true_eq] at hyes
  obtain ⟨rfl, hyes⟩ := hyes
  have hkept : eventsView.filter eventRow = .yes := by decide +kernel
  obtain ⟨hkeeps, hreads⟩ := @select_keeps asciiDatabase (boundedTree 3 5) eventsSchema 66
    eventsRequest q (boundedPredicate 3 5) eventsView eventRow hq rfl bounded_compiles le_rfl
    eventRow_fits (by decide +kernel)
  refine ⟨q, hq, hkeeps.mpr ⟨fun _ => hkept, by decide +kernel, rfl⟩, ?_⟩
  obtain ⟨condition, f, hcondition, hread, htruth⟩ :=
    hreads (conditionTruth eventRow q.parameters) (fun _ _ h => h) (by
      intro u hu
      cases hu
      exact ⟨g, ⟨ts, htokens, hg⟩, hkept ▸ hyes⟩)
  refine ⟨condition, f, hcondition, hread, ?_⟩
  cases hcondition
  exact htruth.trans (by decide +kernel)

end QueryExample

end RayClickHouse.PredicateMeaning
