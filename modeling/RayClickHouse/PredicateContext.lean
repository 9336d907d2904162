import RayClickHouse.LocalSettings
import RayClickHouse.PushedFamily
import RayClickHouse.ReleaseRecords
import RayClickHouse.TargetReader

/-!
The context in which a predicate may be pushed. Settings that cut off or rewrite
results must have their neutral values, in the configuration of the connection and
on the server, and the server must not wrap a constant query. The server counts
its settings itself and answers with a single number, which is enough to tell.
-/
namespace RayClickHouse.PredicateContext

open Text Predicates Discovery Metadata Datasource

section Explicit

/-- What a settings value is that is neither a text nor an integer. -/
inductive OtherValue
  | number (zero : Bool)
  | mapping (empty : Bool)
  | object
  deriving DecidableEq

def predicateNeutralSettings : List (String × String) :=
  predicateRequiredSettings ++ predicateOptionalSettings

def dropSign : Text → Text
  | '+' :: rest => rest
  | '-' :: rest => rest
  | s => s

def isExponent (c : Char) : Bool := c == 'e' || c == 'E'

def isZeroMantissa (s : Text) : Bool :=
  match s.takeWhile (· == '0'), s.dropWhile (· == '0') with
  | _ :: _, [] => true
  | _ :: _, '.' :: rest => rest.all (· == '0')
  | [], '.' :: rest => !rest.isEmpty && rest.all (· == '0')
  | _, _ => false

def isZeroSetting (s : Text) : Bool :=
  let unsigned := dropSign s
  isZeroMantissa (unsigned.takeWhile fun c => !isExponent c) &&
    match unsigned.dropWhile fun c => !isExponent c with
    | [] => true
    | _ :: exponent => !(dropSign exponent).isEmpty && (dropSign exponent).all Char.isDigit

variable (other : ℕ → OtherValue)

def isNeutralValue (name expected : String) (value : Value) : Bool :=
  if expected = "0" then
    match value with
    | .int i => i == 0
    | .bool b => !b
    | .str s => isZeroSetting (strip s)
    | .other tag => other tag == .number true
    | _ => false
  else
    match value with
    | .str s => s == expected.toList
    | .other tag => decide (name = "additional_table_filters") && other tag == .mapping true
    | _ => false

/-- The settings of the client options, if they are a mapping, under those of the connection. -/
def explicitPredicateSettingsAreNeutral (defaults : Option Bindings)
    (connection : ClickHouseConnection) : Bool :=
  match defaults with
  | none => false
  | some defaults =>
      let explicit := (dictOf defaults).update connection.settings
      predicateNeutralSettings.all fun setting =>
        (explicit.get? setting.1.toList).all (isNeutralValue other setting.1 setting.2)

end Explicit

section Query

def sqlText (s : String) : Text := '\'' :: s.toList ++ ['\'']

def nameList (settings : List (String × String)) : Text :=
  join ", ".toList (settings.map fun setting => sqlText setting.1)

def neutralCondition : Text :=
  join " OR ".toList (predicateNeutralSettings.map fun setting =>
    "(name = ".toList ++ sqlText setting.1 ++ " AND value = ".toList ++ sqlText setting.2 ++
      ")".toList)

def predicateContextQuery : Text :=
  "SELECT toUInt8(multiIf(count() != uniqExact(name), 2, countIf(name IN (".toList ++
    nameList predicateRequiredSettings ++ ")) != ".toList ++
    ofNat predicateRequiredSettings.length ++ ", 0, countIf(NOT (".toList ++ neutralCondition ++
    ")) != 0, 0, 1)) AS predicate_context FROM system.settings WHERE name IN (".toList ++
    nameList predicateNeutralSettings ++ ")".toList

end Query

section Discovery

/-- The answer to a raw query: bytes, with their text where they are UTF-8, or another object. -/
inductive RawAnswer
  | bytes (text : Option Text)
  | foreign

structure ContextNode where
  server : MetadataServer
  rawQuery : Text → Except Raised RawAnswer
  opened : Option Raised := none
  closed : Option Raised := none

def neutralPredicateAst : List Text :=
  ["SelectWithUnionQuery (children 1)", "ExpressionList (children 1)", "SelectQuery (children 1)",
    "ExpressionList (children 1)", "Literal UInt64_1"].map String.toList

def predicateAstIsNeutral : RawAnswer → Outcome Bool
  | .foreign => Outcome.raise .discovery "malformed predicate context AST response"
  | .bytes none => .ok false
  | .bytes (some text) => .ok (decide ((Release.splitLines text).map strip = neutralPredicateAst))

def answered {α : Type} : Except Raised α → Outcome α
  | .ok a => .ok a
  | .error raised => .error (clientFailure "predicate context discovery" raised)

def malformedContext {α : Type} : Outcome α :=
  Outcome.raise .discovery "malformed predicate context metadata"

def contextAnswer (node : ContextNode) : Outcome Bool := do
  let result ← answered (node.server.answer predicateContextQuery [])
  if result.columnNames ≠ ["predicate_context".toList] then malformedContext
  else
    match result.rows with
    | [] => .ok false
    | [[.int value]] =>
        if value = 0 then .ok false
        else if value = 1 then do
          let raw ← answered (node.rawQuery "EXPLAIN AST SELECT 1".toList)
          predicateAstIsNeutral raw
        else malformedContext
    | _ => malformedContext

def discoverPredicateContext (other : ℕ → OtherValue) (defaults : Option Bindings)
    (node : ContextNode) (connection : ClickHouseConnection) : Outcome Bool :=
  if !explicitPredicateSettingsAreNeutral other defaults connection then .ok false
  else
    match node.opened with
    | some raised => .error (clientFailure "client initialization" raised)
    | none => closeOver "failed to close predicate context client" node.closed (contextAnswer node)

end Discovery

section Counting

def requiredNames : List Text := predicateRequiredSettings.map fun setting => setting.1.toList

def neutralNames : List Text := predicateNeutralSettings.map fun setting => setting.1.toList

def isNeutralSetting (setting : Text × Text) : Bool :=
  predicateNeutralSettings.any fun neutral =>
    neutral.1.toList == setting.1 && neutral.2.toList == setting.2

def contextValue (settings : Effective) : ℤ :=
  let counted := settings.filter fun setting => setting.1 ∈ neutralNames
  if counted.length ≠ (counted.map Prod.fst).dedup.length then 2
  else if (counted.map Prod.fst).countP (· ∈ requiredNames) ≠ requiredNames.length then 0
  else if counted.any (!isNeutralSetting ·) then 0
  else 1

/-- Each control is set to its neutral value, or absent where older servers lack it. -/
structure NeutralSettings (settings : Effective) : Prop where
  distinct : ((settings.filter fun setting => setting.1 ∈ neutralNames).map Prod.fst).Nodup
  required : ∀ control ∈ predicateRequiredSettings,
    settings.get? control.1 = some control.2.toList
  optional : ∀ control ∈ predicateOptionalSettings, NeutralAt settings control

theorem neutralNames_nodup : neutralNames.Nodup := by decide +kernel

theorem requiredNames_nodup : requiredNames.Nodup := by decide +kernel

/-- Distinct names of which as many are required as there are required names contain them all. -/
theorem required_subset_iff {names : List Text} (hnodup : names.Nodup) :
    names.countP (· ∈ requiredNames) = requiredNames.length ↔ requiredNames ⊆ names := by
  rw [List.countP_eq_length_filter]
  have hkept : (names.filter (· ∈ requiredNames)).Nodup := hnodup.filter _
  have hsub : names.filter (· ∈ requiredNames) ⊆ requiredNames := by
    intro name hname
    exact of_decide_eq_true (List.mem_filter.mp hname).2
  constructor
  · intro hlength name hname
    have hperm := (List.subperm_of_subset hkept hsub).perm_of_length_le hlength.ge
    exact (List.mem_filter.mp (hperm.mem_iff.mpr hname)).1
  · intro hall
    apply le_antisymm
    · exact (List.subperm_of_subset hkept hsub).length_le
    · apply (List.subperm_of_subset requiredNames_nodup _).length_le
      intro name hname
      exact List.mem_filter.mpr ⟨hall hname, decide_eq_true hname⟩

end Counting

section Neutral

variable {settings : Effective}

theorem isNeutralSetting_iff {setting : Text × Text} :
    isNeutralSetting setting = true ↔
      ∃ neutral ∈ predicateNeutralSettings, (neutral.1.toList, neutral.2.toList) = setting := by
  simp [isNeutralSetting, List.any_eq_true, Prod.ext_iff]

theorem neutral_unique {a b : String × String} (ha : a ∈ predicateNeutralSettings)
    (hb : b ∈ predicateNeutralSettings) (h : a.1.toList = b.1.toList) : a = b :=
  List.inj_on_of_nodup_map neutralNames_nodup ha hb h

theorem mem_neutralNames {control : String × String} (h : control ∈ predicateNeutralSettings) :
    control.1.toList ∈ neutralNames :=
  List.mem_map_of_mem h

theorem mem_counted {setting : Text × Text} :
    setting ∈ settings.filter (fun s => s.1 ∈ neutralNames) ↔
      setting ∈ settings ∧ setting.1 ∈ neutralNames := by
  rw [List.mem_filter, decide_eq_true_iff]

/-- A setting that is looked up is one of the table. -/
theorem mem_of_get? {name : String} {value : Text} (h : settings.get? name = some value) :
    (name.toList, value) ∈ settings := by
  obtain ⟨before, after, hsplit, -⟩ := List.lookup_eq_some_iff.mp h
  rw [hsplit]
  exact List.mem_append_right _ (List.mem_cons_self ..)

theorem exists_get? {name : String} {value : Text} (h : (name.toList, value) ∈ settings) :
    ∃ found, settings.get? name = some found := by
  apply Option.isSome_iff_exists.mp
  exact List.lookup_isSome_iff.mpr ⟨_, h, beq_self_eq_true _⟩

theorem length_dedup_iff {names : List Text} :
    names.length = names.dedup.length ↔ names.Nodup := by
  constructor
  · intro h
    have hsame := (List.dedup_sublist names).eq_of_length h.symm
    rw [← hsame]
    exact List.nodup_dedup names
  · intro h
    rw [h.dedup]

/-- Distinct controls at neutral values determine the value of each of them. -/
theorem neutralAt_of_counted
    (hneutral : ∀ setting ∈ settings, setting.1 ∈ neutralNames → isNeutralSetting setting = true)
    {control : String × String} (hcontrol : control ∈ predicateNeutralSettings) :
    NeutralAt settings control := by
  intro value hvalue
  have hmem := mem_of_get? hvalue
  obtain ⟨neutral, hmember, heq⟩ :=
    isNeutralSetting_iff.mp (hneutral _ hmem (mem_neutralNames hcontrol))
  obtain ⟨hname, hsame⟩ := Prod.mk.inj heq
  rw [neutral_unique hmember hcontrol hname] at hsame
  exact hsame.symm

theorem NeutralSettings.neutralAt (h : NeutralSettings settings) {control : String × String}
    (hcontrol : control ∈ predicateNeutralSettings) : NeutralAt settings control := by
  rcases List.mem_append.mp hcontrol with hrequired | hoptional
  · intro value hvalue
    rw [h.required control hrequired] at hvalue
    exact (Option.some.inj hvalue).symm
  · exact h.optional control hoptional

/-- The aggregate is one exactly on neutral settings. -/
theorem contextValue_eq_one : contextValue settings = 1 ↔ NeutralSettings settings := by
  have hvalue : contextValue settings = 1 ↔
      ((settings.filter fun setting => setting.1 ∈ neutralNames).map Prod.fst).Nodup ∧
        requiredNames ⊆ (settings.filter fun setting => setting.1 ∈ neutralNames).map Prod.fst ∧
        ∀ setting ∈ settings, setting.1 ∈ neutralNames → isNeutralSetting setting = true := by
    unfold contextValue
    generalize hcounted : (settings.filter fun setting => setting.1 ∈ neutralNames) = counted
    have hall : (counted.any (!isNeutralSetting ·)) = false ↔
        ∀ setting ∈ settings, setting.1 ∈ neutralNames → isNeutralSetting setting = true := by
      rw [← hcounted, List.any_eq_false]
      simp only [mem_counted, and_imp, Bool.not_eq_true', Bool.not_eq_false]
    have hlength : counted.length = (counted.map Prod.fst).dedup.length ↔
        (counted.map Prod.fst).Nodup := by
      rw [← length_dedup_iff, List.length_map]
    rw [← hall]
    by_cases hnodup : (counted.map Prod.fst).Nodup
    · rw [if_neg (not_not.mpr (hlength.mpr hnodup)), ← required_subset_iff hnodup]
      split
      · simp_all
      · split
        · simp_all
        · simp_all
    · rw [if_pos fun h => hnodup (hlength.mp h)]
      simp [hnodup]
  rw [hvalue]
  constructor
  · rintro ⟨hdistinct, hrequired, hneutral⟩
    have hat : ∀ control ∈ predicateNeutralSettings, NeutralAt settings control :=
      fun control hcontrol => neutralAt_of_counted hneutral hcontrol
    refine ⟨hdistinct, ?_, fun control hcontrol => hat control (List.mem_append_right _ hcontrol)⟩
    intro control hcontrol
    obtain ⟨⟨name, value⟩, hcounted, hname⟩ :=
      List.mem_map.mp (hrequired (List.mem_map_of_mem hcontrol))
    obtain ⟨hmem, -⟩ := mem_counted.mp hcounted
    have hname' : name = control.1.toList := hname
    rw [hname'] at hmem
    obtain ⟨found, hfound⟩ := exists_get? hmem
    rw [hfound, hat control (List.mem_append_left _ hcontrol) found hfound]
  · intro h
    refine ⟨h.distinct, ?_, ?_⟩
    · intro name hname
      obtain ⟨control, hcontrol, rfl⟩ := List.mem_map.mp hname
      have hmem := mem_of_get? (h.required control hcontrol)
      exact List.mem_map.mpr ⟨_, mem_counted.mpr ⟨hmem,
        mem_neutralNames (List.mem_append_left _ hcontrol)⟩, rfl⟩
    · rintro ⟨name, value⟩ hmem hname
      obtain ⟨control, hcontrol, hsame⟩ := List.mem_map.mp hname
      have hcontrolName : control.1.toList = name := hsame
      subst hcontrolName
      obtain ⟨found, hfound⟩ := exists_get? hmem
      have hfirst : (control.1.toList, found) = (control.1.toList, value) :=
        List.inj_on_of_nodup_map h.distinct (mem_counted.mpr ⟨mem_of_get? hfound, hname⟩)
          (mem_counted.mpr ⟨hmem, hname⟩) rfl
      have hfoundValue := h.neutralAt hcontrol found hfound
      apply isNeutralSetting_iff.mpr
      exact ⟨control, hcontrol, by rw [← hfirst, hfoundValue]⟩

end Neutral

section Discovered

variable {other : ℕ → OtherValue} {defaults : Option Bindings} {node : ContextNode}
variable {connection : ClickHouseConnection} {settings : Effective}

theorem answered_eq_ok {α : Type} {x : Except Raised α} {a : α} :
    answered x = .ok a ↔ x = .ok a := by
  cases x <;> simp [answered]

theorem predicateAstIsNeutral_eq_true {raw : RawAnswer} :
    predicateAstIsNeutral raw = .ok true ↔ ∃ text, raw = .bytes (some text) ∧
      (Release.splitLines text).map strip = neutralPredicateAst := by
  cases raw with
  | foreign => simp [predicateAstIsNeutral, Outcome.raise]
  | bytes text => cases text <;> simp [predicateAstIsNeutral]

theorem contextAnswer_eq_true : contextAnswer node = .ok true ↔
    (∃ result, node.server.answer predicateContextQuery [] = .ok result ∧
      result.columnNames = ["predicate_context".toList] ∧ result.rows = [[.int 1]]) ∧
    ∃ text, node.rawQuery "EXPLAIN AST SELECT 1".toList = .ok (.bytes (some text)) ∧
      (Release.splitLines text).map strip = neutralPredicateAst := by
  unfold contextAnswer
  rw [Except.bind_eq_ok]
  constructor
  · rintro ⟨result, hresult, h⟩
    obtain ⟨hnames, h⟩ := passed_eq_ok.mp h
    rw [answered_eq_ok] at hresult
    split at h
    · simp at h
    · rename_i value hrows
      split at h
      · simp at h
      · split at h
        · rename_i hone
          obtain ⟨raw, hraw, h⟩ := Except.bind_eq_ok.mp h
          rw [answered_eq_ok] at hraw
          obtain ⟨text, rfl, htext⟩ := predicateAstIsNeutral_eq_true.mp h
          refine ⟨⟨result, hresult, not_not.mp hnames, ?_⟩, text, hraw, htext⟩
          rw [hrows, hone]
        · simp [malformedContext, Outcome.raise] at h
    · simp [malformedContext, Outcome.raise] at h
  · rintro ⟨⟨result, hresult, hnames, hrows⟩, text, hraw, htext⟩
    refine ⟨result, answered_eq_ok.mpr hresult, passed_eq_ok.mpr ⟨not_not.mpr hnames, ?_⟩⟩
    rw [hrows]
    refine Except.bind_eq_ok.mpr ⟨_, answered_eq_ok.mpr hraw, ?_⟩
    exact predicateAstIsNeutral_eq_true.mpr ⟨text, rfl, htext⟩

/-- The context is accepted when the configuration is neutral, the server counts to one and
leaves a constant query as it is, and no call fails. -/
theorem discoverPredicateContext_eq_true :
    discoverPredicateContext other defaults node connection = .ok true ↔
      explicitPredicateSettingsAreNeutral other defaults connection = true ∧
        node.opened = none ∧ node.closed = none ∧ contextAnswer node = .ok true := by
  unfold discoverPredicateContext
  cases hexplicit : explicitPredicateSettingsAreNeutral other defaults connection with
  | false => simp
  | true =>
    cases hopened : node.opened with
    | some raised => simp
    | none => simp [closeOver_eq_ok]

variable (node settings) in
/-- The node counts the settings of a table, unless something suppresses its answer. -/
def CountsSettings : Prop :=
  ∀ result, node.server.answer predicateContextQuery [] = .ok result →
    result.rows = [] ∨ result.rows = [[.int (contextValue settings)]]

variable (other defaults connection settings) in
/-- No setting cuts off or rewrites a result, in the configuration or on the server. -/
structure Neutral : Prop where
  explicit : explicitPredicateSettingsAreNeutral other defaults connection = true
  effective : NeutralSettings settings
  rows : ∀ (ρ : Type) (E : ServerEffects ρ) (rows : List ρ), applyControls E settings rows = rows

theorem neutral_of_context (hcounts : CountsSettings node settings)
    (h : discoverPredicateContext other defaults node connection = .ok true) :
    Neutral other defaults connection settings := by
  obtain ⟨hexplicit, -, -, hanswer⟩ := discoverPredicateContext_eq_true.mp h
  obtain ⟨⟨result, hresult, -, hrows⟩, -⟩ := contextAnswer_eq_true.mp hanswer
  have heffective : NeutralSettings settings := by
    apply contextValue_eq_one.mp
    rcases hcounts result hresult with hempty | hvalue
    · rw [hempty] at hrows
      contradiction
    · rw [hvalue] at hrows
      simpa using hrows
  refine ⟨hexplicit, heffective, ?_⟩
  intro ρ E rows
  exact applyControls_of_neutral (fun control hcontrol => heffective.neutralAt hcontrol) rows

end Discovered

section Families

variable [UnicodeDatabase] {other : ℕ → OtherValue} {defaults : Option Bindings}
variable {settings : Effective} {ray : RayVersion} {config : ReadConfig} {m : Member}
variable {answers : Answers} {family : List Member}

/-- The families whose calls learn the context from nodes with these settings. -/
inductive ContextFamily (other : ℕ → OtherValue) (defaults : Option Bindings)
    (settings : Effective) (ray : RayVersion) (config : ReadConfig) : List Member → Prop
  | root : ContextFamily other defaults settings ray config
      [⟨ClickHouseDatasource.ofConfig config, []⟩]
  | call {family : List Member} {m : Member} (index : ℕ) (answers : Answers) (request : Request)
      (node : ContextNode) (previous : ContextFamily other defaults settings ray config family)
      (hmember : family[index]? = some m) (hcounts : CountsSettings node settings)
      (hcontext : answers.discoverPredicateContext =
        discoverPredicateContext other defaults node m.datasource.config.connection) :
      ContextFamily other defaults settings ray config (served ray family index m answers request)

theorem ContextFamily.unrestricted (h : ContextFamily other defaults settings ray config family) :
    Family ray config family := by
  induction h with
  | root => exact .root
  | call index answers request node _ hmember _ _ ih => exact .call index answers request ih hmember

theorem applyPredicate_context {d clone : ClickHouseDatasource} {expr : RayExpr}
    (h : d.applyPredicate ray answers expr = .ok (some clone)) :
    answers.discoverPredicateContext = .ok true := by
  unfold ClickHouseDatasource.applyPredicate at h
  split at h
  · cases h
  · obtain ⟨protocol, -, h⟩ := Except.bind_eq_ok.mp h
    cases protocol with
    | none => cases h
    | some protocol =>
      obtain ⟨schema, -, h⟩ := Except.bind_eq_ok.mp h
      obtain ⟨selected, -, h⟩ := Except.bind_eq_ok.mp h
      split at h
      · cases h
      · cases h
      · obtain ⟨context, hcontext, h⟩ := Except.bind_eq_ok.mp h
        cases context with
        | false => simp at h
        | true => exact hcontext

/-- A call pushes a predicate only in an accepted context. -/
theorem serve_context {request : Request} (hm : m.Consistent ray config) :
    (m.serve ray answers request).member.datasource.pushedPredicate =
        m.datasource.pushedPredicate ∧
      ∀ clone, (m.serve ray answers request).clone = some clone →
        clone.datasource.pushedPredicate = m.datasource.pushedPredicate ∨
          answers.discoverPredicateContext = .ok true := by
  obtain ⟨hisolated, -⟩ := serve_spec answers request hm
  refine ⟨hisolated.steps.identity.pushedPredicate, ?_⟩
  intro clone hclone
  cases request with
  | applyPredicate expr =>
    unfold Member.serve at hclone
    cases happly : m.datasource.applyPredicate ray answers expr with
    | error failure =>
      simp only [happly] at hclone
      cases hclone
    | ok result =>
      cases result with
      | none =>
        simp only [happly] at hclone
        cases hclone
      | some made => exact Or.inr (applyPredicate_context happly)
  | applyProjection projectionMap =>
    unfold Member.serve at hclone
    rcases ClickHouseDatasource.applyProjection_cases ray answers projectionMap hm.cache with
      ⟨failure, hcall⟩ | ⟨snapshot, d, -, hsteps, -, hresult⟩
    · simp only [run_error hcall] at hclone
      cases hclone
    · rcases hresult with ⟨failure, hcall⟩ | ⟨sources, hcall, -⟩
      · simp only [run_error hcall] at hclone
        cases hclone
      · simp only [run_ok hcall] at hclone
        cases hclone
        exact Or.inl hsteps.identity.pushedPredicate
  | arrowSchema =>
    unfold Member.serve at hclone
    rw [run_clone] at hclone
    cases hclone
  | getReadTasks parallelism perTaskRowLimit =>
    unfold Member.serve at hclone
    rw [run_clone] at hclone
    cases hclone

/-- In every order of calls, a datasource pushes a predicate only where no setting of its
connection and no setting of the server cuts off or rewrites the rows of a query. -/
theorem pushed_context (h : ContextFamily other defaults settings ray config family)
    (hm : m ∈ family) (hpushed : m.datasource.pushedPredicate ≠ none) :
    Neutral other defaults config.connection settings := by
  induction h generalizing m with
  | root =>
    rw [List.mem_singleton.mp hm] at hpushed
    exact absurd rfl hpushed
  | @call family member index answers request node previous hmember hcounts hcontext ih =>
    have hmem := List.mem_of_getElem? hmember
    have hconsistent := previous.unrestricted.consistent member hmem
    obtain ⟨hsame, hclone⟩ :
        (member.serve ray answers request).member.datasource.pushedPredicate =
            member.datasource.pushedPredicate ∧
          ∀ clone, (member.serve ray answers request).clone = some clone →
            clone.datasource.pushedPredicate = member.datasource.pushedPredicate ∨
              answers.discoverPredicateContext = .ok true := serve_context hconsistent
    rcases List.mem_append.mp hm with hm | hm
    · rcases List.mem_or_eq_of_mem_set hm with hm | rfl
      · exact ih hm hpushed
      · rw [hsame] at hpushed
        exact ih hmem hpushed
    · rcases hclone m (Option.mem_toList.mp hm) with hkept | htrue
      · rw [hkept] at hpushed
        exact ih hmem hpushed
      · rw [hcontext, hconsistent.config_eq] at htrue
        exact neutral_of_context hcounts htrue

end Families

section Example

open PredicateMeaning

def plainSettings : Effective :=
  predicateRequiredSettings.map fun setting => (setting.1.toList, setting.2.toList)

def plainNode : ContextNode where
  server := ⟨exampleConnection 'a', fun _ _ =>
    .ok ⟨["predicate_context".toList], [[.int (contextValue plainSettings)]]⟩⟩
  rawQuery _ := .ok (.bytes (some (join "\n".toList neutralPredicateAst)))

theorem plainNode_counts : CountsSettings plainNode plainSettings := by
  intro result hresult
  obtain rfl := Except.ok.inj hresult
  exact Or.inr rfl

def plainAnswers : Answers :=
  { unreachable with
    discoverSchema := .ok eventsSchema
    discoverPredicateContext := discoverPredicateContext (fun _ => .object) (some []) plainNode
      (exampleConnection 'a') }

def plainFamily : List (@Member asciiDatabase) :=
  let _ := asciiDatabase
  served (some (2, 59, 0)) [exampleRoot] 0 exampleRoot plainAnswers
    (.applyPredicate (boundExpr 3))

theorem pushed_context_example :
    ∃ m ∈ plainFamily, @ClickHouseDatasource.pushedPredicate asciiDatabase
        (@Member.datasource asciiDatabase m) ≠ none ∧
      Neutral (fun _ => .object) (some []) (exampleConnection 'a') plainSettings := by
  let _ := asciiDatabase
  have hcheck : plainFamily[1]?.any (fun m => m.datasource.pushedPredicate.isSome) = true := by
    decide +kernel
  rw [Option.any_eq_true] at hcheck
  obtain ⟨m, hm, hsome⟩ := hcheck
  have hmem := List.mem_of_getElem? hm
  have hpushed : m.datasource.pushedPredicate ≠ none := Option.isSome_iff_ne_none.mp hsome
  have hroot : ContextFamily (fun _ => .object) (some []) plainSettings (some (2, 59, 0))
      (exampleConfig 'a') [exampleRoot] := .root
  have hfamily : ContextFamily (fun _ => .object) (some []) plainSettings (some (2, 59, 0))
      (exampleConfig 'a') plainFamily :=
    .call 0 plainAnswers (.applyPredicate (boundExpr 3)) plainNode hroot rfl plainNode_counts rfl
  exact ⟨m, hmem, hpushed, pushed_context hfamily hmem hpushed⟩

end Example

end RayClickHouse.PredicateContext
