import RayClickHouse.Metadata

/-!
Which effective settings the security context of a node admits, and when
settings applied to every shard scan return the rows they return when applied
once to the logical query.
-/
namespace RayClickHouse.Metadata

open Text Discovery

/-- What a server does to the rows of a query for each control at each value; a
control at its neutral value does nothing. -/
structure ServerEffects (ρ : Type) where
  effect : String → Text → List ρ → List ρ
  neutral : ∀ control ∈ predicateRequiredSettings ++ predicateOptionalSettings,
    effect control.1 control.2.toList = id

section Effects

variable {ρ : Type} (E : ServerEffects ρ) (effective : Effective)

def applyControl (rows : List ρ) (control : String × String) : List ρ :=
  match effective.get? control.1 with
  | some value => E.effect control.1 value rows
  | none => rows

def applyControls (rows : List ρ) : List ρ :=
  (predicateRequiredSettings ++ predicateOptionalSettings).foldl (applyControl E effective) rows

def NeutralAt (control : String × String) : Prop :=
  ∀ value, effective.get? control.1 = some value → value = control.2.toList

variable {E effective}

theorem applyControl_of_neutral {control : String × String}
    (hmem : control ∈ predicateRequiredSettings ++ predicateOptionalSettings)
    (h : NeutralAt effective control) (rows : List ρ) : applyControl E effective rows control = rows := by
  unfold applyControl
  split
  · rename_i value hvalue
    rw [h value hvalue, E.neutral control hmem]
    rfl
  · rfl

theorem applyControls_of_neutral
    (h : ∀ control ∈ predicateRequiredSettings ++ predicateOptionalSettings,
      NeutralAt effective control) (rows : List ρ) : applyControls E effective rows = rows := by
  unfold applyControls
  generalize hcontrols : predicateRequiredSettings ++ predicateOptionalSettings = controls at h
  have hsub : ∀ control ∈ controls,
      control ∈ predicateRequiredSettings ++ predicateOptionalSettings := by
    rw [hcontrols]
    exact fun _ hc => hc
  clear hcontrols
  induction controls with
  | nil => rfl
  | cons control rest ih =>
    rw [List.foldl_cons, applyControl_of_neutral (hsub control (List.mem_cons_self ..))
      (h control (List.mem_cons_self ..))]
    exact ih (fun c hc => h c (List.mem_cons_of_mem _ hc))
      fun c hc => hsub c (List.mem_cons_of_mem _ hc)

end Effects

/-- Settings under which shard scans can stand for the logical query. -/
structure MembershipNeutral (effective : Effective) : Prop where
  required : ∀ control ∈ predicateRequiredSettings,
    effective.get? control.1 = some control.2.toList
  optional : ∀ control ∈ predicateOptionalSettings, NeutralAt effective control
  /-- Scanning every shard returns the rows of the logical query, as a multiset. -/
  shards : ∀ (ρ : Type) (E : ServerEffects ρ) (scans : List (List ρ)) (logical : List ρ),
    logical.Perm scans.flatten →
      ((scans.map (applyControls E effective)).flatten).Perm (applyControls E effective logical)

theorem membershipNeutral_of_values {effective : Effective}
    (hrequired : ∀ control ∈ predicateRequiredSettings,
      effective.get? control.1 = some control.2.toList)
    (hoptional : ∀ control ∈ predicateOptionalSettings, NeutralAt effective control) :
    MembershipNeutral effective := by
  have hneutral : ∀ control ∈ predicateRequiredSettings ++ predicateOptionalSettings,
      NeutralAt effective control := by
    intro control hmem
    rcases List.mem_append.mp hmem with h | h
    · intro value hvalue
      rw [hrequired control h] at hvalue
      exact (Option.some.inj hvalue).symm
    · exact hoptional control h
  refine ⟨hrequired, hoptional, ?_⟩
  intro ρ E scans logical hperm
  have hid : applyControls E effective = id := funext (applyControls_of_neutral hneutral)
  rw [hid, List.map_id]
  exact hperm.symm

/-- The effective settings a node reports. -/
def effectiveSettings (server : MetadataServer) : Outcome Effective := do
  let rows ← query server settingsQuery
  effectiveOf rows

section Admitted

variable {server : MetadataServer} {reader : MetadataReader} {table : QualifiedTable}
  {effective : Effective} {result : List (Text × Text) × MetadataReader}

theorem checkDefaults_eq_ok (h : checkDefaults effective = .ok ()) :
    ∀ d ∈ contextDefaults, effective.get? d.1 = some d.2.toList := by
  unfold checkDefaults at h
  split at h
  · contradiction
  · split at h
    · contradiction
    · rename_i hall
      simp only [List.any_eq_true, decide_eq_true_eq, not_exists, not_and, not_not] at hall
      exact hall

/-- A context that is returned passed the comparison with the defaults. -/
theorem context_eq_ok (h : context server reader table = .ok result)
    (heffective : effectiveSettings server = .ok effective) :
    ∀ d ∈ contextDefaults, effective.get? d.1 = some d.2.toList := by
  obtain ⟨rows, hrows, heff⟩ := Except.bind_eq_ok.mp heffective
  obtain ⟨_, _, h⟩ := Except.bind_eq_ok.mp h
  obtain ⟨_, hrows', h⟩ := Except.bind_eq_ok.mp h
  rw [hrows] at hrows'
  cases Except.ok.inj hrows'
  obtain ⟨_, heff', h⟩ := Except.bind_eq_ok.mp h
  rw [heff] at heff'
  cases Except.ok.inj heff'
  obtain ⟨_, hdefaults, -⟩ := Except.bind_eq_ok.mp h
  exact checkDefaults_eq_ok hdefaults

/-- The controls that the context of a node does not look at. -/
def uncheckedRequired : List (String × String) := [("limit", "0"), ("offset", "0")]

theorem mem_contextDefaults {control : String × String} (h : control ∈ predicateRequiredSettings) :
    control ∈ contextDefaults ∨ control ∈ uncheckedRequired := by
  revert control
  decide

/-- The settings of an admitted node are neutral exactly when the controls that
the context does not look at are. -/
theorem context_neutral_iff (h : context server reader table = .ok result)
    (heffective : effectiveSettings server = .ok effective) :
    MembershipNeutral effective ↔
      effective.get? "limit" = some "0".toList ∧ effective.get? "offset" = some "0".toList ∧
        ∀ control ∈ predicateOptionalSettings, NeutralAt effective control := by
  constructor
  · intro hneutral
    refine ⟨?_, ?_, hneutral.optional⟩
    · exact hneutral.required ("limit", "0") (by decide)
    · exact hneutral.required ("offset", "0") (by decide)
  · rintro ⟨hlimit, hoffset, hoptional⟩
    apply membershipNeutral_of_values _ hoptional
    intro control hmem
    rcases mem_contextDefaults hmem with hchecked | hunchecked
    · exact context_eq_ok h heffective control hchecked
    · simp only [uncheckedRequired, List.mem_cons, List.not_mem_nil, or_false] at hunchecked
      rcases hunchecked with rfl | rfl
      · exact hlimit
      · exact hoffset

end Admitted

section Example

theorem exampleNode_database : isIdentifier "db".toList = true := by decide

def exampleNode : ClickHouseConnection :=
  { host := "shard".toList
    database := "db".toList
    host_nonempty := by decide
    database_valid := exampleNode_database
    username_nonempty := defaultUsername_nonempty
    port_bounds := defaultPort_bounds }

def exampleNodeTable : QualifiedTable := ⟨"db".toList, "t".toList, exampleNode_database, by decide⟩

def declared (fields : List (String × String)) : ResultSet :=
  ⟨["name".toList, "type".toList], fields.map fun f => [.str f.1.toList, .str f.2.toList]⟩

def columnsFields : List (String × String) :=
  [("name", "String"), ("type", "String"), ("database", "String"), ("table", "String")]

def settingsFields : List (String × String) := [("name", "String"), ("value", "String")]

def policyFields : List (String × String) :=
  [("id", "UUID"), ("database", "String"), ("table", "String")]

def exampleAnswer (settings : List (String × String)) (sql : Text) (parameters : Bindings) :
    Except Raised ResultSet :=
  if sql = "DESCRIBE TABLE `system`.`columns`".toList then .ok (declared columnsFields)
  else if sql = "DESCRIBE TABLE `system`.`settings`".toList then .ok (declared settingsFields)
  else if sql = "DESCRIBE TABLE `system`.`row_policies`".toList then .ok (declared policyFields)
  else if sql = settingsQuery then
    .ok ⟨["name".toList, "value".toList],
      settings.map fun s => [.str s.1.toList, .str s.2.toList]⟩
  else if sql = "SELECT currentUser() AS user, timezone() AS timezone".toList then
    .ok ⟨["user".toList, "timezone".toList], [[.str "default".toList, .str "UTC".toList]]⟩
  else if sql = policiesQuery then .ok ⟨[], []⟩
  else if sql = "SELECT id, database, table FROM system.row_policies".toList then .ok ⟨[], []⟩
  else if parameters = [("table".toList, .str "settings".toList)] then
    .ok (declared settingsFields)
  else if parameters = [("table".toList, .str "row_policies".toList)] then
    .ok (declared policyFields)
  else .ok (declared columnsFields)

def exampleServer (settings : List (String × String)) : MetadataServer :=
  ⟨exampleNode, exampleAnswer settings⟩

def neutralSettings : List (String × String) :=
  contextDefaults ++ [("enable_parallel_replicas", "0"), ("limit", "0"), ("offset", "0"),
    ("page", "0")]

def limitedSettings : List (String × String) :=
  contextDefaults ++ [("enable_parallel_replicas", "0"), ("limit", "1"), ("offset", "0")]

def effectiveTexts (settings : List (String × String)) : Effective :=
  settings.map fun s => (s.1.toList, s.2.toList)

theorem effectiveSettings_neutral :
    effectiveSettings (exampleServer neutralSettings) = .ok (effectiveTexts neutralSettings) := by
  decide +kernel

theorem effectiveSettings_limited :
    effectiveSettings (exampleServer limitedSettings) = .ok (effectiveTexts limitedSettings) := by
  decide +kernel

theorem context_neutral :
    ∃ result, context (exampleServer neutralSettings) {} exampleNodeTable = .ok result := by
  have hcheck : Outcome.check (context (exampleServer neutralSettings) {} exampleNodeTable)
      (fun _ => true) = true := by
    decide +kernel
  obtain ⟨result, h, -⟩ := Outcome.check_eq_true.mp hcheck
  exact ⟨result, h⟩

theorem context_limited :
    ∃ result, context (exampleServer limitedSettings) {} exampleNodeTable = .ok result := by
  have hcheck : Outcome.check (context (exampleServer limitedSettings) {} exampleNodeTable)
      (fun _ => true) = true := by
    decide +kernel
  obtain ⟨result, h, -⟩ := Outcome.check_eq_true.mp hcheck
  exact ⟨result, h⟩

/-- A node under neutral settings is admitted, and its settings are neutral. -/
theorem context_neutral_example :
    ∃ result, context (exampleServer neutralSettings) {} exampleNodeTable = .ok result ∧
      effectiveSettings (exampleServer neutralSettings) = .ok (effectiveTexts neutralSettings) ∧
      MembershipNeutral (effectiveTexts neutralSettings) := by
  obtain ⟨result, hcontext⟩ := context_neutral
  refine ⟨result, hcontext, effectiveSettings_neutral, ?_⟩
  apply (context_neutral_iff hcontext effectiveSettings_neutral).mpr
  have hvalues : ∀ control ∈ predicateOptionalSettings,
      (effectiveTexts neutralSettings).get? control.1 = none ∨
        (effectiveTexts neutralSettings).get? control.1 = some control.2.toList := by
    decide +kernel
  refine ⟨by decide +kernel, by decide +kernel, ?_⟩
  intro control hmem value hvalue
  rcases hvalues control hmem with h | h
  · rw [h] at hvalue
    contradiction
  · rw [h] at hvalue
    exact (Option.some.inj hvalue).symm

def limitEffects : ServerEffects ℕ where
  effect name value rows := if name = "limit" ∧ value = "1".toList then rows.take 1 else rows
  neutral := by
    intro control hmem
    funext rows
    have hne : ¬(control.1 = "limit" ∧ control.2.toList = "1".toList) := by
      revert control
      decide
    simp only [if_neg hne, id]

/-- A node under a limit is admitted: two shards of one row each return two rows,
and the logical query one. -/
theorem limit_admitted : ¬ ∀ (server : MetadataServer) (reader : MetadataReader)
    (table : QualifiedTable) (result : List (Text × Text) × MetadataReader) (effective : Effective),
    context server reader table = .ok result → effectiveSettings server = .ok effective →
    MembershipNeutral effective := by
  intro hclaim
  obtain ⟨result, hcontext⟩ := context_limited
  have hneutral := hclaim _ _ _ _ _ hcontext effectiveSettings_limited
  have hperm := (hneutral.shards ℕ limitEffects [[0], [1]] [0, 1] (List.Perm.refl _)).length_eq
  revert hperm
  decide

end Example

end RayClickHouse.Metadata
