import RayClickHouse.CloneFamily
import RayClickHouse.PushedCondition

/-!
What the datasources of a family push. Ray's expressions have a truth on rows of
their own; decoding keeps it, the conjunction of accepted expressions joins it,
and compilation writes it into SQL. In every order of calls the SQL of a member is
true on a row exactly when every expression accepted along its ancestry is.
-/
namespace RayClickHouse.PredicateMeaning

open Text Schema Connectives PredicateTokens PredicateColumns Predicates PredicateReading
open FilterScan ThreeValued Datasource

section Expressions

variable {row : Row} {expr : RayExpr} {node : PredicateNode}

def exprOperand (row : Row) : RayExpr → Option Value
  | .column name => some (row name)
  | .literal value => some value
  | _ => none

/-- The truth of an expression in Ray, none for an expression outside the profile. -/
def exprTruth (row : Row) : RayExpr → Option Truth
  | .binary .and left right => Option.map₂ Truth.and (exprTruth row left) (exprTruth row right)
  | .binary .or left right => Option.map₂ Truth.or (exprTruth row left) (exprTruth row right)
  | .binary (.compare c) left right => do
      compareValues c (← exprOperand row left) (← exprOperand row right)
  | .unary .not operand => (exprTruth row operand).map Truth.not
  | .unary .isNull operand => (exprOperand row operand).map (isNullValue false)
  | .unary .isNotNull operand => (exprOperand row operand).map (isNullValue true)
  | .column name => ofBoolean (row name)
  | _ => none

theorem literalNode_eq_some {value : Value} (h : literalNode value = some node) :
    node = .node .literal [] value := by
  cases value <;> simp_all [literalNode]

/-- A decoded expression has the value and the truth of the expression. -/
theorem decodeFrom_truth {depth before : ℕ} (h : (decodeFrom expr depth before).1 = some node) :
    operandValue row node = exprOperand row expr ∧ nodeTruth row node = exprTruth row expr := by
  induction expr generalizing depth before node with
  | column name =>
    unfold decodeFrom at h
    simp only at h
    split at h
    · cases h
    · cases h
      exact ⟨rfl, rfl⟩
  | literal value =>
    unfold decodeFrom at h
    simp only at h
    split at h
    · cases h
    · cases literalNode_eq_some h
      exact ⟨rfl, rfl⟩
  | binary op left right ihl ihr =>
    unfold decodeFrom at h
    simp only at h
    split at h
    · cases h
    · split at h
      · rename_i hop
        obtain ⟨a, ha, hrest⟩ := Option.bind_eq_some_iff.mp h
        obtain ⟨b, hb, rfl⟩ := Option.map_eq_some_iff.mp hrest
        obtain ⟨hvalue, htruth⟩ := ihl ha
        obtain ⟨hvalue', htruth'⟩ := ihr hb
        cases op with
        | compare c =>
          refine ⟨rfl, ?_⟩
          simp only [nodeTruth, exprTruth, hvalue, hvalue']
        | and =>
          refine ⟨rfl, ?_⟩
          simp only [nodeTruth, exprTruth, htruth, htruth']
        | or =>
          refine ⟨rfl, ?_⟩
          simp only [nodeTruth, exprTruth, htruth, htruth']
        | _ => cases hop
      · cases h
  | unary op operand ih =>
    unfold decodeFrom at h
    simp only at h
    split at h
    · cases h
    · split at h
      · rename_i hop
        obtain ⟨a, ha, rfl⟩ := Option.map_eq_some_iff.mp h
        obtain ⟨hvalue, htruth⟩ := ih ha
        cases op with
        | not =>
          refine ⟨rfl, ?_⟩
          simp only [nodeTruth, exprTruth, htruth]
        | isNull =>
          refine ⟨rfl, ?_⟩
          simp only [nodeTruth, exprTruth, hvalue]
        | isNotNull =>
          refine ⟨rfl, ?_⟩
          simp only [nodeTruth, exprTruth, hvalue]
        | _ => cases hop
      · cases h
  | other =>
    unfold decodeFrom at h
    simp only at h
    split at h <;> cases h

theorem decodePredicate_truth {ray : RayVersion} (row : Row)
    (h : decodePredicate ray expr = some node) : nodeTruth row node = exprTruth row expr := by
  unfold decodePredicate at h
  split at h
  · exact (decodeFrom_truth h).2
  · cases h

end Expressions

section Conjunctions

variable {ray : RayVersion} {row : Row}

/-- A conjunction has the truth value of the reported expression. -/
inductive Alike (row : Row) : Option PredicateNode → Option RayExpr → Prop
  | none : Alike row none none
  | some {node expr} : nodeTruth row node = exprTruth row expr → Alike row (some node) (some expr)

def Decodes (ray : RayVersion) (accepted : List Accepted) : Prop :=
  ∀ expr, .predicate expr ∈ accepted → ∃ node, decodePredicate ray expr = some node

theorem exprTruth_combine {previous : Option RayExpr} {expr : RayExpr} :
    exprTruth row (combinePredicates previous expr) = some .yes ↔
      (∀ earlier, previous = some earlier → exprTruth row earlier = some .yes) ∧
        exprTruth row expr = some .yes := by
  cases previous with
  | none => simp [combinePredicates]
  | some earlier => simp [combinePredicates, exprTruth]

/-- The pushed conjunction and the reported one have the same truth. -/
theorem conjoin_alike {accepted : List Accepted} (h : Decodes ray accepted)
    {node : Option PredicateNode} {expr : Option RayExpr} (halike : Alike row node expr) :
    Alike row (conjoin ray node accepted) (reported expr accepted) := by
  induction accepted generalizing node expr with
  | nil => exact halike
  | cons first rest ih =>
    have hrest : Decodes ray rest := fun e he => h e (List.mem_cons_of_mem _ he)
    cases first with
    | projection projectionMap => exact ih hrest halike
    | predicate next =>
      obtain ⟨decoded, hdecoded⟩ := h next (List.mem_cons_self ..)
      have htruth := decodePredicate_truth row hdecoded
      cases halike with
      | none =>
        simp only [conjoin, reported, hdecoded, combinePredicates]
        exact ih hrest (.some htruth)
      | some hearlier =>
        simp only [conjoin, reported, hdecoded, combinePredicates]
        apply ih hrest
        apply Alike.some
        simp only [nodeTruth, exprTruth, hearlier, htruth]

/-- The reported conjunction holds exactly when every accepted expression does. -/
theorem reported_yes {accepted : List Accepted} {expr : Option RayExpr} {whole : RayExpr}
    (h : reported expr accepted = some whole) :
    exprTruth row whole = some .yes ↔
      (∀ earlier, expr = some earlier → exprTruth row earlier = some .yes) ∧
        ∀ e, .predicate e ∈ accepted → exprTruth row e = some .yes := by
  induction accepted generalizing expr with
  | nil =>
    have hexpr : expr = some whole := h
    simp [hexpr]
  | cons first rest ih =>
    cases first with
    | projection projectionMap =>
      rw [ih h]
      simp
    | predicate next =>
      rw [ih h]
      simp only [Option.some.injEq, forall_eq', exprTruth_combine, List.mem_cons,
        Accepted.predicate.injEq, forall_eq_or_imp, and_assoc]

end Conjunctions

section Selections

variable [UnicodeDatabase] {schema selected : SchemaPlan} {node : PredicateNode} {native : Bool}

/-- Every column the narrower schema allows has the same type in the wider one. -/
def Widens (selected schema : SchemaPlan) : Prop :=
  ∀ node r, columnType selected node = .ok r → columnType schema node = .ok r

omit [UnicodeDatabase] in
theorem columnNamed_filter {columns : List TargetColumn} {names : List Text} {name : Text}
    {c : TargetColumn} (h : columnNamed (columns.filter (·.name ∈ names)) name = some c) :
    columnNamed columns name = some c := by
  unfold columnNamed at h ⊢
  rw [← List.filter_reverse, List.find?_filter] at h
  have hspec := List.find?_some h
  simp only [decide_eq_true_eq] at hspec
  rw [← h]
  apply List.find?_congr
  intro d _
  by_cases hname : d.name = name
  · have hmem : d.name ∈ names := by
      rw [hname, ← hspec.2]
      exact hspec.1
    simp only [hname, decide_true, decide_eq_true_eq, and_true]
    rw [← hname]
    simp [hmem]
  · simp [hname]

omit [UnicodeDatabase] in
theorem fieldOf_eq_ok {name : Text} {field : Field} (h : fieldOf schema name = .ok field) :
    schema.arrowSchema.field? name = some field ∧ field.name = name := by
  unfold fieldOf at h
  cases hfield : schema.arrowSchema.field? name with
  | none => simp [hfield, Outcome.ofOption] at h
  | some other =>
    simp only [hfield, Outcome.ofOption, Except.ok.injEq] at h
    subst h
    refine ⟨rfl, ?_⟩
    simpa using List.find?_some hfield

omit [UnicodeDatabase] in
theorem field_widens {names : List Text} {fields : ArrowSchema} {name : Text} {field : Field}
    (hfields : names.mapM (fieldOf schema) = .ok fields) (h : fields.field? name = some field) :
    schema.arrowSchema.field? name = some field := by
  have hname : field.name = name := by simpa using List.find?_some h
  have hmem : field ∈ fields := by simpa using List.mem_of_find?_eq_some h
  obtain ⟨given, -, hgiven⟩ := exists_of_mem_forall₂ (Except.mapM_eq_ok.mp hfields) hmem
  obtain ⟨hfield, hsame⟩ := fieldOf_eq_ok hgiven
  rw [← hname, hsame]
  exact hfield

/-- The schema a predicate is compiled against is part of the planned one. -/
theorem selectedSchema_widens {d : ClickHouseDatasource}
    (h : d.selectedSchema schema = .ok selected) : Widens selected schema := by
  intro node r hr
  obtain ⟨fields, hfields, hselected⟩ := Except.bind_eq_ok.mp h
  cases hselected
  unfold columnType at hr ⊢
  split at hr
  · rename_i children name
    split at hr
    · rename_i hname
      split at hr
      · rename_i column field hcolumn hfield
        rw [if_pos hname, columnNamed_filter hcolumn, field_widens hfields hfield]
        exact hr
      · cases hr
    · cases hr
  · cases hr

omit [UnicodeDatabase] in
theorem renderComparison_widens (hwidens : Widens selected schema) {c : Comparison} {value : Value}
    {s : CompileState} {r : Text × CompileState}
    (h : renderComparison native selected c node value s = .ok r) :
    renderComparison native schema c node value s = .ok r := by
  obtain ⟨column, hcolumn, hrest⟩ := Except.bind_eq_ok.mp h
  unfold renderComparison
  rw [hwidens _ _ hcolumn]
  exact hrest

omit [UnicodeDatabase] in
theorem render_widens (hwidens : Widens selected schema) {depth : ℕ} {s : CompileState}
    {r : Text × CompileState} (h : render native selected node depth s = .ok r) :
    render native schema node depth s = .ok r := by
  induction hsize : sizeOf node using Nat.strong_induction_on generalizing node depth s r with
  | _ n ih =>
    unfold render at h ⊢
    simp only at h ⊢
    split at h
    · contradiction
    · rename_i hbounds
      rw [if_neg hbounds]
      split at h
      · obtain ⟨⟨l, s₁⟩, hl, hrest⟩ := Except.bind_eq_ok.mp h
        obtain ⟨⟨r, s₂⟩, hr, heq⟩ := Except.bind_eq_ok.mp hrest
        simp only [PredicateNode.node.sizeOf_spec, List.cons.sizeOf_spec] at hsize
        have hleft := ih _ (by omega) hl rfl
        have hright := ih _ (by omega) hr rfl
        exact Except.bind_eq_ok.mpr ⟨_, hleft, Except.bind_eq_ok.mpr ⟨_, hright, heq⟩⟩
      · obtain ⟨⟨l, s₁⟩, hl, hrest⟩ := Except.bind_eq_ok.mp h
        obtain ⟨⟨r, s₂⟩, hr, heq⟩ := Except.bind_eq_ok.mp hrest
        simp only [PredicateNode.node.sizeOf_spec, List.cons.sizeOf_spec] at hsize
        have hleft := ih _ (by omega) hl rfl
        have hright := ih _ (by omega) hr rfl
        exact Except.bind_eq_ok.mpr ⟨_, hleft, Except.bind_eq_ok.mpr ⟨_, hright, heq⟩⟩
      · obtain ⟨⟨c, s₁⟩, hc, heq⟩ := Except.bind_eq_ok.mp h
        simp only [PredicateNode.node.sizeOf_spec, List.cons.sizeOf_spec] at hsize
        exact Except.bind_eq_ok.mpr ⟨_, ih _ (by omega) hc rfl, heq⟩
      · obtain ⟨column, hcolumn, hrest⟩ := Except.bind_eq_ok.mp h
        rw [hwidens _ _ hcolumn]
        exact hrest
      · obtain ⟨column, hcolumn, hrest⟩ := Except.bind_eq_ok.mp h
        rw [hwidens _ _ hcolumn]
        exact hrest
      · obtain ⟨column, hcolumn, hrest⟩ := Except.bind_eq_ok.mp h
        rw [hwidens _ _ hcolumn]
        exact hrest
      · exact renderComparison_widens hwidens h
      · exact renderComparison_widens hwidens h
      · cases h

omit [UnicodeDatabase] in
theorem compilePredicate_widens (hwidens : Widens selected schema) {p : CompiledPredicate}
    (h : compilePredicate node selected native = .ok (some p)) :
    compilePredicate node schema native = .ok (some p) := by
  unfold compilePredicate at h ⊢
  split at h
  · rename_i sql state hrender
    rw [render_widens hwidens hrender]
    exact h
  · cases h
  · cases h

end Selections

section Families

variable [UnicodeDatabase] {ray : RayVersion} {config : ReadConfig} {m : Member}
variable {answers : Answers}

/-- What a member pushes is compiled from the decoded expressions against the
schema it keeps, and it reports their conjunction. -/
structure Pushes (ray : RayVersion) (m : Member) : Prop where
  decodes : Decodes ray m.accepted
  compiled : ∀ p, m.datasource.pushedPredicate = some p →
    ∃ node schema, m.datasource.predicateNode = some node ∧
      m.datasource.predicateSchema = some schema ∧
      compilePredicate node schema p.native = .ok (some p)

theorem Pushes.of_identity {d : ClickHouseDatasource} (h : Pushes ray m)
    (hsame : m.datasource.SameIdentity d) : Pushes ray ⟨d, m.accepted⟩ where
  decodes := h.decodes
  compiled := by
    intro p hp
    rw [hsame.pushedPredicate] at hp
    rw [hsame.predicateNode, hsame.predicateSchema]
    exact h.compiled p hp

theorem applyPredicate_compiled {d clone : ClickHouseDatasource} {expr : RayExpr}
    (h : d.applyPredicate ray answers expr = .ok (some clone)) :
    (∃ decoded, decodePredicate ray expr = some decoded) ∧
      ∃ node schema p, clone.predicateNode = some node ∧ clone.predicateSchema = some schema ∧
        clone.pushedPredicate = some p ∧ compilePredicate node schema p.native = .ok (some p) := by
  unfold ClickHouseDatasource.applyPredicate at h
  split at h
  · cases h
  · rename_i decoded hdecoded
    refine ⟨⟨decoded, hdecoded⟩, ?_⟩
    obtain ⟨protocol, -, h⟩ := Except.bind_eq_ok.mp h
    cases protocol with
    | none => cases h
    | some protocol =>
      obtain ⟨schema, -, h⟩ := Except.bind_eq_ok.mp h
      obtain ⟨selected, hselected, h⟩ := Except.bind_eq_ok.mp h
      split at h
      · cases h
      · cases h
      · rename_i compiled hcompiled
        obtain ⟨context, -, h⟩ := Except.bind_eq_ok.mp h
        cases context with
        | false => simp at h
        | true =>
          simp only [Bool.not_true, Bool.false_eq_true, if_false, Except.ok.injEq,
            Option.some.injEq] at h
          have hwhole := compilePredicate_widens (selectedSchema_widens hselected) hcompiled
          rw [← compilePredicate_native hcompiled] at hwhole
          rw [← h]
          exact ⟨_, schema, compiled, rfl, rfl, rfl, hwhole⟩

omit [UnicodeDatabase] in
theorem Decodes.append {accepted more : List Accepted} (h : Decodes ray accepted)
    (hmore : Decodes ray more) : Decodes ray (accepted ++ more) := by
  intro expr hexpr
  rcases List.mem_append.mp hexpr with hexpr | hexpr
  · exact h expr hexpr
  · exact hmore expr hexpr

theorem pushes_predicate {clone : ClickHouseDatasource} {expr : RayExpr} (h : Pushes ray m)
    (hclone : m.datasource.applyPredicate ray answers expr = .ok (some clone)) :
    Pushes ray ⟨clone, m.accepted ++ [.predicate expr]⟩ := by
  obtain ⟨hdecoded, node, schema, p, hnode, hschema, hpushed, hcompile⟩ :=
    applyPredicate_compiled hclone
  constructor
  · apply h.decodes.append
    intro e he
    cases List.mem_singleton.mp he
    exact hdecoded
  · intro p' hp'
    cases hpushed.symm.trans hp'
    exact ⟨node, schema, hnode, hschema, hcompile⟩

theorem pushes_projection {d : ClickHouseDatasource} {projectionMap columns : Option (List Text)}
    {sources : List DirectSource} (h : Pushes ray m) (hsame : m.datasource.SameIdentity d) :
    Pushes ray ⟨d.project columns sources, m.accepted ++ [.projection projectionMap]⟩ := by
  have hafter := h.of_identity hsame
  constructor
  · apply h.decodes.append
    intro e he
    cases List.mem_singleton.mp he
  · exact hafter.compiled

/-- A call keeps what its member pushes, and its clone pushes one expression more. -/
theorem serve_pushes (answers : Answers) (request : Request) (h : Pushes ray m)
    (hm : m.Consistent ray config) :
    Pushes ray (m.serve ray answers request).member ∧
    ∀ clone, (m.serve ray answers request).clone = some clone → Pushes ray clone := by
  obtain ⟨hisolated, -⟩ := serve_spec answers request hm
  have hmember := h.of_identity hisolated.steps.identity
  rw [← hisolated.accepted] at hmember
  refine ⟨hmember, ?_⟩
  intro clone hclone
  cases request with
  | applyPredicate expr =>
    unfold Member.serve at hclone
    cases happly : m.datasource.applyPredicate ray answers expr with
    | error failure =>
      simp only [happly] at hclone
      cases hclone
    | ok result =>
      cases result with
      | none =>
        simp only [happly] at hclone
        cases hclone
      | some made =>
        simp only [happly] at hclone
        cases hclone
        exact pushes_predicate h happly
  | applyProjection projectionMap =>
    unfold Member.serve at hclone
    rcases ClickHouseDatasource.applyProjection_cases ray answers projectionMap hm.cache with
      ⟨failure, hcall⟩ | ⟨snapshot, d, -, hsteps, -, hresult⟩
    · simp only [run_error hcall] at hclone
      cases hclone
    · rcases hresult with ⟨failure, hcall⟩ | ⟨sources, hcall, -⟩
      · simp only [run_error hcall] at hclone
        cases hclone
      · simp only [run_ok hcall] at hclone
        cases hclone
        exact pushes_projection h hsteps.identity
  | arrowSchema =>
    unfold Member.serve at hclone
    rw [run_clone] at hclone
    cases hclone
  | getReadTasks parallelism perTaskRowLimit =>
    unfold Member.serve at hclone
    rw [run_clone] at hclone
    cases hclone

theorem family_pushes {family : List Member} (h : Family ray config family) :
    ∀ m ∈ family, Pushes ray m := by
  induction h with
  | root =>
    intro m hm
    rw [List.mem_singleton.mp hm]
    refine ⟨fun e he => absurd he List.not_mem_nil, ?_⟩
    intro p hp
    cases hp
  | @call family m index answers request previous hmember ih =>
    have hmem := List.mem_of_getElem? hmember
    obtain ⟨hafter, hclone⟩ :=
      serve_pushes answers request (ih m hmem) (previous.consistent m hmem)
    intro m' hm'
    rcases List.mem_append.mp hm' with hm' | hm'
    · rcases List.mem_or_eq_of_mem_set hm' with hm' | rfl
      · exact ih m' hm'
      · exact hafter
    · exact hclone m' (Option.mem_toList.mp hm')

/-- In every order of calls, the SQL a member pushes has, on every row that fits the
schema it was checked against, the truth value of the predicate reported to Ray; it
is true exactly when every expression accepted along its ancestry is. -/
theorem pushed_truth {family : List Member} {limit : ℕ} {p : CompiledPredicate}
    (h : Family ray config family) (hm : m ∈ family)
    (hpushed : m.datasource.pushedPredicate = some p) (hlimit : 66 ≤ limit) :
    ∃ schema whole f, m.datasource.predicateSchema = some schema ∧
      m.datasource.predicateExpr = some whole ∧ Reads schema.columns limit p.sql f ∧
      ∀ row, RowFits schema row →
        ∃ t, exprTruth row whole = some t ∧ sqlTruth row p.parameters f = some t ∧
          (t = .yes ↔ ∀ expr, .predicate expr ∈ m.accepted → exprTruth row expr = some .yes) := by
  have hconsistent := h.consistent m hm
  have hpushes := family_pushes h m hm
  obtain ⟨node, schema, hnode, hschema, hcompile⟩ := hpushes.compiled p hpushed
  obtain ⟨f, hreads, hmeaning⟩ := compiled_meaning hcompile hlimit
  have halike : ∀ row, Alike row (some node) m.datasource.predicateExpr := by
    intro row
    rw [← hnode, hconsistent.predicateNode, hconsistent.predicateExpr]
    exact conjoin_alike hpushes.decodes .none
  have hexists : ∃ whole, m.datasource.predicateExpr = some whole := by
    have hrow := halike fun _ => .null
    cases hexpr : m.datasource.predicateExpr with
    | none =>
      rw [hexpr] at hrow
      cases hrow
    | some whole => exact ⟨whole, rfl⟩
  obtain ⟨whole, hwhole⟩ := hexists
  refine ⟨schema, whole, f, hschema, hwhole, hreads, ?_⟩
  intro row hrow
  obtain ⟨t, ht, hsql⟩ := hmeaning row hrow
  have hsame := halike row
  rw [hwhole] at hsame
  cases hsame with
  | some hsame =>
    have hreported : exprTruth row whole = some .yes ↔ _ :=
      reported_yes (hconsistent.predicateExpr ▸ hwhole)
    rw [hsame] at ht
    refine ⟨t, ht, hsql, ?_⟩
    rw [ht, Option.some.injEq] at hreported
    rw [hreported]
    simp

end Families

section Example

def eventsAnswers : Answers :=
  { unreachable with
    discoverSchema := .ok eventsSchema
    discoverPredicateContext := .ok true }

def boundExpr (bound : ℤ) : RayExpr :=
  .binary (.compare .lt) (.literal (.int bound)) (.column "id".toList)

def eventsFamily : List (@Member asciiDatabase) :=
  let _ := asciiDatabase
  let first := served (some (2, 59, 0)) [exampleRoot] 0 exampleRoot eventsAnswers
    (.applyPredicate (boundExpr 3))
  match first with
  | [_, clone] => served (some (2, 59, 0)) first 1 clone eventsAnswers
      (.applyPredicate (.column "flag".toList))
  | _ => first

theorem eventsFamily_family :
    @Family asciiDatabase (some (2, 59, 0)) (exampleConfig 'a') eventsFamily := by
  let _ := asciiDatabase
  unfold eventsFamily
  simp only
  have hroot : Family (some (2, 59, 0)) (exampleConfig 'a') [exampleRoot] := .root
  have hfirst := Family.call 0 eventsAnswers (.applyPredicate (boundExpr 3)) hroot rfl
  split
  · rename_i root clone hclone
    exact Family.call 1 eventsAnswers _ hfirst (by rw [hclone]; rfl)
  · exact hfirst

def holds (row : Row) : Accepted → Bool
  | .predicate expr => exprTruth row expr = some .yes
  | .projection _ => true

theorem events_pushed :
    ∃ m ∈ eventsFamily, ∃ p f, @ClickHouseDatasource.pushedPredicate asciiDatabase
        (@Member.datasource asciiDatabase m) = some p ∧
      @Reads asciiDatabase eventsSchema.columns 66 p.sql f ∧
      @sqlTruth asciiDatabase eventRow p.parameters f = some .yes := by
  let _ := asciiDatabase
  have hcheck : eventsFamily[2]?.any (fun m => m.datasource.pushedPredicate.isSome &&
      decide (m.datasource.predicateSchema.map SchemaPlan.arrowSchema =
        some eventsSchema.arrowSchema) &&
      decide (m.datasource.predicateSchema.map SchemaPlan.columns = some eventsSchema.columns) &&
      m.accepted.all (holds eventRow)) = true := by
    decide +kernel
  rw [Option.any_eq_true] at hcheck
  obtain ⟨m, hm, hcheck⟩ := hcheck
  simp only [Bool.and_eq_true, decide_eq_true_eq, List.all_eq_true] at hcheck
  obtain ⟨⟨⟨hsome, harrow⟩, hcolumns⟩, haccepted⟩ := hcheck
  obtain ⟨p, hp⟩ := Option.isSome_iff_exists.mp hsome
  have hmem := List.mem_of_getElem? hm
  obtain ⟨schema, whole, f, hschema, -, hreads, hmeaning⟩ :=
    @pushed_truth asciiDatabase _ _ m _ 66 p eventsFamily_family hmem hp le_rfl
  rw [hschema, Option.map_some, Option.some.injEq] at harrow hcolumns
  have hevents : schema = eventsSchema := by
    cases schema
    cases harrow
    cases hcolumns
    rfl
  subst hevents
  obtain ⟨t, -, hsql, hyes⟩ := hmeaning eventRow eventRow_fits
  have hall : t = .yes := hyes.mpr fun expr hexpr => of_decide_eq_true (haccepted _ hexpr)
  exact ⟨m, hmem, p, f, hp, hreads, hall ▸ hsql⟩

end Example

end RayClickHouse.PredicateMeaning
