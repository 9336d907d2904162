import RayClickHouse.BindingProtocol
import RayClickHouse.NativeSegments
import RayClickHouse.ParameterValues
import RayClickHouse.PercentConversions

/-!
When the names that the chosen protocol substitutes are the returned ones. For
Python formatting every percent sign up to the end of the filter has to be escaped
or to begin a complete conversion with a known key, and no name may stand behind
escaped percent signs only. For the server the SELECT list may show known names
only, and no line comment may end the filter.
-/
namespace RayClickHouse.Sql

open Text Lexical TypeText FilterScan Schema Predicates PercentFormat NativeScan

section Identifiers

theorem parameterNames_identifier {s : Text} : ∀ n ∈ parameterNames s, isIdentifier n = true := by
  induction s with
  | nil => simp [parameterNames]
  | cons c rest ih =>
    intro n hn
    unfold parameterNames at hn
    split at hn
    · rename_i name after hmatch
      rcases List.mem_cons.mp hn with rfl | hn
      · exact (matchParameter_eq_some hmatch).2
      · exact ih n hn
    · exact ih n hn

variable [UnicodeDatabase]

theorem add_identifiers {b b' : FilterBindings} {seg : Segment} (hseg : seg.WellFormed)
    (h : b.add seg = .ok b')
    (hb : ∀ n ∈ b.clientNames ++ b.commentClientNames, isIdentifier n = true) :
    ∀ n ∈ b'.clientNames ++ b'.commentClientNames, isIdentifier n = true := by
  cases seg with
  | quoted t =>
    cases Except.ok.inj h
    exact hb
  | plain c =>
    cases Except.ok.inj h
    exact hb
  | server name type =>
    obtain ⟨hint, _, hrest⟩ := Except.bind_eq_ok.mp h
    split at hrest
    · split at hrest
      · cases Except.ok.inj hrest
        exact hb
      · simp [Outcome.raise] at hrest
    · cases Except.ok.inj hrest
      exact hb
  | comment t line =>
    cases Except.ok.inj h
    intro n hn
    rw [← List.append_assoc] at hn
    rcases List.mem_append.mp hn with hn | hn
    · exact hb n hn
    · exact parameterNames_identifier n hn
  | client name =>
    cases Except.ok.inj h
    intro n hn
    simp only [List.mem_append, List.mem_singleton] at hn
    rcases hn with (hn | rfl) | hn
    · exact hb n (List.mem_append_left _ hn)
    · exact hseg
    · exact hb n (List.mem_append_right _ hn)

/-- The client names of a filter are identifiers. -/
theorem filterBindings_identifiers {f : Text} {b : FilterBindings} (h : filterBindings f = .ok b) :
    ∀ n ∈ b.clientNames, isIdentifier n = true := by
  obtain ⟨b₀, hfrom, hfinish⟩ := Except.bind_eq_ok.mp h
  obtain ⟨segs, hsegs, hfold⟩ := filterBindingsFrom_eq_ok hfrom
  have hwell := (segmentsFrom_spec hsegs le_rfl).2
  have hall : ∀ (ss : List Segment) (b₁ : FilterBindings), (∀ seg ∈ ss, seg.WellFormed) →
      (∀ n ∈ b₁.clientNames ++ b₁.commentClientNames, isIdentifier n = true) →
      ss.foldlM FilterBindings.add b₁ = .ok b₀ →
      ∀ n ∈ b₀.clientNames ++ b₀.commentClientNames, isIdentifier n = true := by
    intro ss
    induction ss with
    | nil =>
      intro b₁ _ hb₁ hfold
      cases Except.ok.inj hfold
      exact hb₁
    | cons seg rest ih =>
      intro b₁ hss hb₁ hfold
      rw [List.foldlM_cons] at hfold
      obtain ⟨b₂, hadd, hrest⟩ := Except.bind_eq_ok.mp hfold
      exact ih b₂ (fun s hs => hss s (List.mem_cons_of_mem _ hs))
        (add_identifiers (hss seg (List.mem_cons_self ..)) hadd hb₁) hrest
  have hnames := hall segs {} hwell (by simp) hfold
  cases Except.ok.inj hfinish
  intro n hn
  unfold FilterBindings.finish at hn
  split at hn
  · exact hnames n hn
  · exact hnames n (List.mem_append_left _ hn)

omit [UnicodeDatabase] in
theorem generated_identifiers {native : Bool} {text : Text} {names : List Text}
    (h : Generated native text names) : ∀ n ∈ names, isIdentifier n = true := by
  obtain ⟨fragments, rfl, rfl, hwell⟩ := h
  intro n hn
  obtain ⟨f, hf, hname⟩ := List.mem_filterMap.mp hn
  cases f with
  | plain t => simp [Fragment.parameterName?] at hname
  | column c => simp [Fragment.parameterName?] at hname
  | parameter name type =>
    cases Option.some.inj hname
    exact (hwell _ hf).1

end Identifiers

section Stuck

variable {s t : FormatState} {rest : Text}

/-- A conversion that is being read when the filter ends cannot be completed. -/
theorem run_stuck_flags (hs : s.mode = .spec .flags) (hrest : Follows rest)
    (hrun : run s rest = some t) : t.mode ≠ .text := by
  rcases hrest with rfl | ⟨start, hstart, hstarts⟩
  · cases Option.some.inj hrun
    simp [hs]
  · obtain ⟨more, rfl⟩ := hstarts
    rw [run_append] at hrun
    have hnone : run s start.toList = none := by
      simp only [List.mem_cons, List.not_mem_nil, or_false] at hstart
      rcases hstart with rfl | rfl | rfl | rfl <;> cases harg : s.argument <;>
        simp [run, step, hs, specStep, convert, isFlag, isModifier, isLetter, isObjectLetter, harg]
    rw [hnone] at hrun
    contradiction

/-- A character that is no part of a conversion is an error in it. -/
theorem specStep_stuck {stage : Stage} {c : Char} (hc : c = ')' ∨ c = '`') :
    specStep s stage c = none := by
  rcases hc with rfl | rfl <;> cases harg : s.argument <;>
    simp [specStep, convert, isFlag, isModifier, isLetter, isObjectLetter, harg]

theorem broken_read {depth : ℕ} {read : Text} {c : Char} (hc : isIdentPart c = false) :
    Broken { s with mode := .key depth (read ++ [c]) } :=
  Or.inr ⟨depth, _, rfl, c, by simp, hc⟩

/-- Formatting does not recover from a conversion the filter leaves open. -/
theorem run_stuck_close (hs : s.mode ≠ .text) (hrest : Follows rest)
    (hrun : run s (')' :: rest) = some t) : t.mode ≠ .text ∨ Broken t := by
  obtain ⟨u, hu, hmore⟩ := Option.bind_eq_some_iff.mp hrun
  unfold step at hu
  split at hu
  · rename_i hmode
    exact absurd hmode hs
  · rw [if_neg (by decide), specStep_stuck (Or.inl rfl)] at hu
    contradiction
  · rename_i depth read hmode
    cases Option.some.inj hu
    cases depth with
    | zero => exact Or.inl (run_stuck_flags rfl hrest hmore)
    | succ depth => exact Or.inr (broken_run hmore (broken_read (by decide)))
  · rw [specStep_stuck (Or.inl rfl)] at hu
    contradiction

/-- Behind a backquote the formatter copies text, or reads a key that is no identifier. -/
theorem run_stuck_quote {before : Text} (hrun : run s (before ++ ['`']) = some t) :
    t.mode = .text ∨ Broken t := by
  rw [run_append] at hrun
  obtain ⟨u, _, hmore⟩ := Option.bind_eq_some_iff.mp hrun
  obtain ⟨v, hv, hnil⟩ := Option.bind_eq_some_iff.mp hmore
  cases Option.some.inj hnil
  unfold step at hv
  split at hv
  · rename_i hmode
    rw [if_neg (by decide)] at hv
    cases Option.some.inj hv
    exact Or.inl hmode
  · rw [if_neg (by decide), specStep_stuck (Or.inr rfl)] at hv
    contradiction
  · cases Option.some.inj hv
    unfold keyStep
    rw [if_neg (by decide), if_neg (by decide)]
    exact Or.inr (broken_read (by decide))
  · rw [specStep_stuck (Or.inr rfl)] at hv
    contradiction

end Stuck

section Exact

/-- The names a protocol substitutes in a text, none when it fails to. -/
def substituted (native : Bool) (sql : Text) : Option (List Text) :=
  if native then some (nativeNames sql) else formatNames sql

/-- The substituted names are those of the returned parameters. -/
def BindingsExact (q : SelectQuery) : Prop :=
  ∃ names, substituted q.serverSide q.sql = some names ∧
    ∀ n, n ∈ names ↔ n ∈ q.parameters.names

variable [UnicodeDatabase]

structure ConversionsKnown (request : SelectRequest) : Prop where
  complete : Complete true (conversions (filterHead request))
  known : ∀ s ∈ conversions (filterHead request), ∀ n, keyed s = some n →
    n ∈ request.parameters.names ∨ n ∈ generatedNames request
  unescaped : ∀ n ∈ request.parameters.names, EscapedOnly n (filterHead request) →
    ∃ s ∈ conversions (filterHead request), keyed s = some n

/-- The text in front of the filter leaves no quote, comment or brace open. -/
def ClosedSelect (request : SelectRequest) : Prop :=
  opensBrace (selectPrefix request) = false ∧ endsInCode (selectPrefix request) = true

instance (request : SelectRequest) : Decidable (ClosedSelect request) := by
  unfold ClosedSelect
  infer_instance

def TrailingComment (filter : Text) : Prop :=
  ∃ segs, segments filter = .ok segs ∧ endsInComment segs = true

/-- The SELECT list shows known names only. The generated placeholders stand behind the filter,
unless it ends in a line comment; names that the SELECT list shows need no others. -/
structure SelectKnown (request : SelectRequest) : Prop where
  known : ∀ n ∈ nativeNames (selectPrefix request),
    n ∈ request.parameters.names ∨ n ∈ generatedNames request
  generated : (∀ n ∈ generatedNames request, n ∈ nativeNames (selectPrefix request)) ∨
    ∀ f, filterText request = some f → ¬TrailingComment f

/-- The typed placeholders outside quotes and comments, where the SELECT list leaves a quote, a
comment or a brace open, which takes in part of the filter. -/
structure PlaceholdersKnown (request : SelectRequest) : Prop where
  shown : ∀ n ∈ request.parameters.names, n ∈ nativeNames (filterHead request)
  known : ∀ n ∈ nativeNames (filterHead request),
    n ∈ request.parameters.names ∨ n ∈ generatedNames request
  ends : endsInCode (filterHead request) = true ∨
    ∀ n ∈ generatedNames request, n ∈ nativeNames (filterHead request)

/-- What the caller's texts must look like for the protocol that is chosen. -/
def NamesVisible (request : SelectRequest) : Prop :=
  if clientBound request then ConversionsKnown request
  else if ClosedSelect request then SelectKnown request
  else PlaceholdersKnown request

variable {request : SelectRequest} {q : SelectQuery}

theorem Accepted.user_not_generated (h : Accepted request q) (hcompiled : CompiledRequest request)
    {n : Text} (hn : n ∈ request.parameters.names) : n ∉ generatedNames request := by
  intro hgen
  have hplain := h.userNames_plain hn
  rw [internal_of_generated hcompiled hgen] at hplain
  contradiction

theorem Accepted.placeholders_exact (h : Accepted request q) (hcompiled : CompiledRequest request)
    (hnative : q.serverSide = true) : BindingsExact q ↔ PlaceholdersKnown request := by
  obtain ⟨tail, hshape⟩ := h.shaped hcompiled
  have hgen := hshape.generated
  rw [hnative] at hgen
  have hscan : nativeNames q.sql = nativeNames (filterHead request) ++
      (if endsInCode (filterHead request) then generatedNames request else []) := by
    rw [hshape.sql]
    exact nativeScan_append hgen hshape.start le_rfl le_rfl
  have hdisjoint := fun {n : Text} => h.user_not_generated hcompiled (n := n)
  unfold BindingsExact substituted
  simp only [hnative, if_true, Option.some.injEq, exists_eq_left', hscan, h.mem_parameters,
    List.mem_append]
  cases hends : endsInCode (filterHead request) with
  | true =>
    simp only [if_true]
    constructor
    · intro hexact
      refine ⟨fun n hn => ?_, fun n hn => (hexact n).mp (Or.inl hn), Or.inl hends⟩
      exact ((hexact n).mpr (Or.inl hn)).resolve_right (hdisjoint hn)
    · intro hknown n
      constructor
      · rintro (hn | hn)
        · exact hknown.known n hn
        · exact Or.inr hn
      · rintro (hn | hn)
        · exact Or.inl (hknown.shown n hn)
        · exact Or.inr hn
  | false =>
    simp only [Bool.false_eq_true, if_false, List.not_mem_nil, or_false]
    constructor
    · intro hexact
      exact ⟨fun n hn => (hexact n).mpr (Or.inl hn), fun n hn => (hexact n).mp hn,
        Or.inr fun n hn => (hexact n).mpr (Or.inr hn)⟩
    · intro hknown n
      have hgenerated := hknown.ends.resolve_left (by rw [hends]; exact Bool.false_ne_true)
      exact ⟨hknown.known n, fun hn => hn.elim (hknown.shown n) (hgenerated n)⟩

/-- Behind a closed SELECT list the server sees what the scan of the filter saw. -/
theorem Accepted.closed_scan (h : Accepted request q) (hclient : clientBound request = false)
    (hclosed : ClosedSelect request) :
    (∀ n, n ∈ nativeNames (filterHead request) ↔
      n ∈ nativeNames (selectPrefix request) ∨ n ∈ request.parameters.names) ∧
      (endsInCode (filterHead request) = false ↔
        ∃ f, filterText request = some f ∧ TrailingComment f) := by
  obtain ⟨hbrace, hcode⟩ := hclosed
  unfold filterHead
  cases hf : filterText request with
  | none =>
    simp only
    rw [hcode, (h.noFilter hf).1]
    simp [Bindings.names]
  | some f =>
    obtain ⟨b, hb, -, -⟩ := h.filter hf
    obtain ⟨segs, hsegs, -, -, hnames, -⟩ := filterBindings_spec hb.scanned
    have hnil : b.clientNames = [] := by
      simpa [clientBound, hf, hb.scanned, bne] using hclient
    have hopening : (" WHERE ".toList ++ List.replicate (openings request) '(').all plainChar =
        true := by
      simp [plainChar, isIdentPart]
    have hshape : selectPrefix request ++ " WHERE ".toList ++ List.replicate (openings request) '(' ++
        f = selectPrefix request ++ ((" WHERE ".toList ++ List.replicate (openings request) '(') ++
          f) := by simp
    obtain ⟨m, hm, hfront⟩ := nativeScan_front ((" WHERE ".toList ++
      List.replicate (openings request) '(') ++ f) hbrace hcode le_rfl
      (by
        intro d hd
        obtain rfl : ' ' = d := Option.some.inj hd
        decide) le_rfl
    rw [List.length_append] at hm
    obtain ⟨k, rfl⟩ : ∃ k, m = k + (" WHERE ".toList ++
        List.replicate (openings request) '(').length := ⟨m - _, (Nat.sub_add_cancel (by omega)).symm⟩
    have hscan := nativeScan_segments hsegs le_rfl (n := k) (by omega)
    have hused : ∀ n, n ∈ segs.filterMap Segment.serverName? ↔ n ∈ request.parameters.names := by
      intro n
      rw [← hb.used_iff, hnil, hnames]
      simp [List.mem_filterMap]
    unfold nativeNames endsInCode
    simp only
    rw [hshape, hfront, nativeScan_plain hopening, hscan]
    refine ⟨?_, ?_⟩
    · intro n
      rw [List.mem_append, hused]
    · simp only [Bool.not_eq_eq_eq_not, Bool.not_false, Option.some.injEq, exists_eq_left']
      constructor
      · intro hends
        exact ⟨segs, hsegs, hends⟩
      · rintro ⟨other, hother, hends⟩
        cases Except.ok.inj (hsegs.symm.trans hother)
        exact hends

theorem Accepted.select_known (h : Accepted request q) (hcompiled : CompiledRequest request)
    (hclient : clientBound request = false) (hclosed : ClosedSelect request) :
    PlaceholdersKnown request ↔ SelectKnown request := by
  obtain ⟨hnames, hends⟩ := h.closed_scan hclient hclosed
  constructor
  · intro hknown
    refine ⟨fun n hn => hknown.known n ((hnames n).mpr (Or.inl hn)), ?_⟩
    rcases hknown.ends with hcode | hgenerated
    · right
      intro f hf htrailing
      rw [hends.mpr ⟨f, hf, htrailing⟩] at hcode
      contradiction
    · left
      intro n hn
      have hshown := (hnames n).mp (hgenerated n hn)
      exact hshown.resolve_right fun huser => h.user_not_generated hcompiled huser hn
  · intro hknown
    refine ⟨fun n hn => (hnames n).mpr (Or.inr hn), fun n hn => ?_, ?_⟩
    · rcases (hnames n).mp hn with hselect | huser
      · exact hknown.known n hselect
      · exact Or.inl huser
    · rcases hknown.generated with hshown | hcomment
      · right
        intro n hn
        exact (hnames n).mpr (Or.inl (hshown n hn))
      · left
        by_contra hcode
        obtain ⟨f, hf, htrailing⟩ := hends.mp ((Bool.not_eq_true _).mp hcode)
        exact hcomment f hf htrailing

theorem Accepted.native_exact (h : Accepted request q) (hcompiled : CompiledRequest request)
    (hclient : clientBound request = false) (hnative : q.serverSide = true) :
    BindingsExact q ↔ NamesVisible request := by
  rw [h.placeholders_exact hcompiled hnative]
  unfold NamesVisible
  rw [if_neg (by simp [hclient])]
  by_cases hclosed : ClosedSelect request
  · rw [if_pos hclosed]
    exact h.select_known hcompiled hclient hclosed
  · rw [if_neg hclosed]

/-- Names that formatting looks up in a client-bound query are identifiers. -/
theorem Accepted.client_identifiers (h : Accepted request q) (hcompiled : CompiledRequest request)
    (hclient : clientBound request = true) {n : Text} (hn : n ∈ q.parameters.names) :
    isIdentifier n = true := by
  obtain ⟨tail, hshape⟩ := h.shaped hcompiled
  rcases (h.mem_parameters n).mp hn with huser | hgenerated
  · cases hf : filterText request with
    | none => simp [(h.noFilter hf).1, Bindings.names] at huser
    | some f =>
      obtain ⟨b, hb, _⟩ := h.filter hf
      have hbound : b.clientNames ≠ [] := by
        simpa [clientBound, hf, hb.scanned, bne] using hclient
      have hserver : b.serverTypes = [] := hb.unmixed.resolve_left hbound
      have hused := (hb.used_iff n).mpr huser
      rw [hserver] at hused
      exact filterBindings_identifiers hb.scanned n (hused.resolve_right (by simp))
  · exact generated_identifiers hshape.generated n hgenerated

omit [UnicodeDatabase] in
theorem selectPrefix_end (request : SelectRequest) : ∃ before, selectPrefix request = before ++ ['`'] := by
  refine ⟨"SELECT ".toList ++ selectList request ++ " FROM ".toList ++
    (quotePart request.table.database ++ ".".toList ++ ("`".toList ++ request.table.table)), ?_⟩
  have hquote : "`".toList = ['`'] := rfl
  unfold selectPrefix QualifiedTable.sql
  rw [quotePart_of_isIdentifier request.table.table_valid]
  simp only [hquote, List.append_assoc]

omit [UnicodeDatabase] in
/-- Formatting that succeeds on the query is done with the filter at its end. -/
theorem Shaped.format_head {tail : Text} (hshape : Shaped request q tail) {s t : FormatState}
    (hhead : run {} (filterHead request) = some s) (htail : run s tail = some t)
    (hmode : t.mode = .text) (hkeys : ∀ k ∈ t.keys, isIdentifier k = true) : s.mode = .text := by
  have hwhole : ¬ Broken t := by
    rintro (⟨k, hk, c, hc, hpart⟩ | ⟨depth, read, hkey, _⟩)
    · rw [isIdentifier_mem (hkeys k hk) c hc] at hpart
      contradiction
    · rw [hmode] at hkey
      contradiction
  by_contra hopen
  cases hf : filterText request with
  | some f =>
    obtain ⟨rest, rfl, hfollows⟩ := hshape.closed (by simp [hf])
    rcases run_stuck_close hopen hfollows htail with hstuck | hbroken
    · exact hstuck hmode
    · exact hwhole hbroken
  | none =>
    obtain ⟨before, hend⟩ := selectPrefix_end request
    have hstarts : filterHead request = before ++ ['`'] := by
      unfold filterHead
      rw [hf]
      exact hend
    rw [hstarts] at hhead
    rcases run_stuck_quote hhead with htext | hbroken
    · exact hopen htext
    · exact hwhole (broken_run htail hbroken)

theorem Accepted.client_exact (h : Accepted request q) (hcompiled : CompiledRequest request)
    (hclient : clientBound request = true) (hserver : q.serverSide = false) :
    BindingsExact q ↔ NamesVisible request := by
  obtain ⟨tail, hshape⟩ := h.shaped hcompiled
  have hgen := hshape.generated
  rw [hserver] at hgen
  unfold BindingsExact NamesVisible substituted
  simp only [hserver, hclient, if_true, Bool.false_eq_true, if_false]
  rw [hshape.sql]
  constructor
  · rintro ⟨names, hnames, hexact⟩
    obtain ⟨t, hrun, hmode, rfl⟩ := formatNames_eq_some.mp hnames
    rw [run_append] at hrun
    obtain ⟨s, hhead, htail⟩ := Option.bind_eq_some_iff.mp hrun
    have hkeys : ∀ k ∈ t.keys, isIdentifier k = true :=
      fun k hk => h.client_identifiers hcompiled hclient ((hexact k).mp hk)
    have htext := hshape.format_head hhead htail hmode hkeys
    obtain ⟨t', ht', _, hall⟩ := run_generated htext hgen
    cases Option.some.inj (htail.symm.trans ht')
    simp only [hall, List.mem_append, h.mem_parameters] at hexact
    have hident : ∀ k ∈ s.keys, isIdentifier k = true :=
      fun k hk => hkeys k (by rw [hall]; exact List.mem_append_left _ hk)
    obtain ⟨hcomplete, hkeyed⟩ := (formatNames_conversions hident).mp
      (formatNames_eq_some.mpr ⟨s, hhead, htext, rfl⟩)
    refine ⟨hcomplete, ?_, ?_⟩
    · intro conversion hconversion n hn
      apply (hexact n).mp
      left
      rw [← hkeyed]
      exact List.mem_filterMap.mpr ⟨conversion, hconversion, hn⟩
    · intro n hn _
      have hin := ((hexact n).mpr (Or.inl hn)).resolve_right (h.user_not_generated hcompiled hn)
      rw [← hkeyed] at hin
      exact List.mem_filterMap.mp hin
  · intro hvisible
    have hident : ∀ n ∈ (conversions (filterHead request)).filterMap keyed,
        isIdentifier n = true := by
      intro n hn
      obtain ⟨conversion, -, hkeyed⟩ := List.mem_filterMap.mp hn
      obtain ⟨after, c, more, -, hname, -⟩ := keyed_eq_some.mp hkeyed
      exact hname
    obtain ⟨s, hhead, htext, hkeys⟩ := formatNames_eq_some.mp
      ((formatNames_conversions hident).mpr ⟨hvisible.complete, rfl⟩)
    obtain ⟨t, htail, hmode, hall⟩ := run_generated htext hgen
    refine ⟨t.keys, formatNames_eq_some.mpr ⟨t, ?_, hmode, rfl⟩, ?_⟩
    · rw [run_append, hhead]
      exact htail
    · intro n
      rw [hall, hkeys, List.mem_append, h.mem_parameters]
      constructor
      · rintro (hn | hn)
        · obtain ⟨conversion, hconversion, hkeyed⟩ := List.mem_filterMap.mp hn
          exact hvisible.known conversion hconversion n hkeyed
        · exact Or.inr hn
      · rintro (hn | hn)
        · left
          apply List.mem_filterMap.mpr
          by_cases hescaped : EscapedOnly n (filterHead request)
          · exact hvisible.unescaped n hn hescaped
          · have hname := h.client_identifiers hcompiled hclient
              ((h.mem_parameters n).mpr (Or.inl hn))
            exact exists_keyed hname hescaped
        · exact Or.inr hn

/-- No binding is overwritten, and the substituted names are the returned ones if and only
if the percent signs, or the comments, of the caller's texts are as they must be. -/
theorem bindings_exact_iff (h : buildSelect request = .ok q) (hcompiled : CompiledRequest request)
    (hparameters : q.parameters ≠ []) :
    NoOverwrite request q ∧ (BindingsExact q ↔ NamesVisible request) := by
  have haccepted := accepted_of_buildSelect h
  have hserver := haccepted.serverSide_eq hparameters
  refine ⟨haccepted.noOverwrite hcompiled, ?_⟩
  cases hclient : clientBound request with
  | false =>
    rw [hclient] at hserver
    exact haccepted.native_exact hcompiled hclient hserver
  | true =>
    rw [hclient] at hserver
    exact haccepted.client_exact hcompiled hclient hserver

end Exact

theorem bindings_exact_escaped :
    ∃ q, @buildSelect asciiDatabase (boundRequest "x = '50%%' AND z = %(p)s") = .ok q ∧
      NoOverwrite (boundRequest "x = '50%%' AND z = %(p)s") q ∧ BindingsExact q := by
  have hok : Outcome.check (@buildSelect asciiDatabase (boundRequest "x = '50%%' AND z = %(p)s"))
      (fun q => decide (q.parameters ≠ [])) = true := by
    decide +kernel
  obtain ⟨q, hq, hparameters⟩ := Outcome.check_eq_true.mp hok
  obtain ⟨hkept, hexact⟩ := @bindings_exact_iff asciiDatabase _ q hq
    (by simp [CompiledRequest, boundRequest]) (of_decide_eq_true hparameters)
  refine ⟨q, hq, hkept, hexact.mpr ?_⟩
  have hclient : @clientBound asciiDatabase (boundRequest "x = '50%%' AND z = %(p)s") = true := by
    decide +kernel
  have hconversions : conversions (filterHead (boundRequest "x = '50%%' AND z = %(p)s")) =
      ["(p)s".toList] := by
    decide +kernel
  have hkeyed : keyed "(p)s".toList = some "p".toList := by decide +kernel
  unfold NamesVisible
  rw [if_pos hclient]
  refine ⟨?_, ?_, ?_⟩
  · rw [hconversions]
    exact ⟨Or.inl (by rw [hkeyed]; rfl), trivial⟩
  · intro s hs n hn
    rw [hconversions] at hs
    rw [List.mem_singleton.mp hs, hkeyed] at hn
    rw [← Option.some.inj hn]
    exact Or.inl (by decide +kernel)
  · intro n hn _
    have hname : n = "p".toList := List.mem_singleton.mp hn
    rw [hconversions, hname]
    exact ⟨_, List.mem_singleton_self _, hkeyed⟩

def escapedRequest : SelectRequest :=
  { boundRequest "z = %(p)s /* 100%%(note)s */" with
    parameters := [("p".toList, .int 1), ("note".toList, .int 2)] }

/-- The connector takes the escaped text for a placeholder, the formatter does not. -/
theorem escaped_percent_not_substituted :
    ∃ q, @buildSelect asciiDatabase escapedRequest = .ok q ∧ q.parameters ≠ [] ∧
      ¬ BindingsExact q := by
  have hok : Outcome.check (@buildSelect asciiDatabase escapedRequest)
      (fun q => decide (substituted q.serverSide q.sql = some ["p".toList] ∧
        "note".toList ∈ q.parameters.names)) = true := by
    decide +kernel
  obtain ⟨q, hq, hcheck⟩ := Outcome.check_eq_true.mp hok
  obtain ⟨hnames, hnote⟩ := of_decide_eq_true hcheck
  refine ⟨q, hq, ?_, ?_⟩
  · rintro hnil
    rw [hnil] at hnote
    simp [Bindings.names] at hnote
  · rintro ⟨names, hsubstituted, hexact⟩
    cases Option.some.inj (hnames.symm.trans hsubstituted)
    have hin := (hexact _).mpr hnote
    exact absurd hin (by decide)

end RayClickHouse.Sql
