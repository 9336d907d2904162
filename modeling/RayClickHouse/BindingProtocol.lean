import RayClickHouse.QueryText

/-!
The connector chooses a protocol from the segments of the filter, the driver
from one search over the query text. They agree except on a match that begins
where the connector does not look for one.
-/
namespace RayClickHouse.Sql

open Text Lexical TypeText FilterScan Schema Predicates

section Braces

variable {text : Text} {names : List Text}

/-- Generated text in the client spelling has no braces. -/
theorem generated_no_brace (h : Generated false text names) : '{' ∉ text ∧ '}' ∉ text := by
  obtain ⟨fragments, rfl, _, hwell⟩ := h
  have hfragment : ∀ f ∈ fragments, '{' ∉ f.text false ∧ '}' ∉ f.text false := by
    intro f hf
    have hf := hwell f hf
    cases f with
    | plain t =>
      rw [Fragment.WellFormed, List.all_eq_true] at hf
      refine ⟨fun hin => ?_, fun hin => ?_⟩
      · exact absurd (hf _ hin) (by decide)
      · exact absurd (hf _ hin) (by decide)
    | column name =>
      have hopen := isIdentifier_not_mem hf (c := '{') (by decide)
      have hclose := isIdentifier_not_mem hf (c := '}') (by decide)
      simp [Fragment.text, quoted, hopen, hclose]
    | parameter name type =>
      have hopen := isIdentifier_not_mem hf.1 (c := '{') (by decide)
      have hclose := isIdentifier_not_mem hf.1 (c := '}') (by decide)
      simp [Fragment.text, placeholder, clientPlaceholder, hopen, hclose]
  constructor
  · intro hin
    obtain ⟨f, hf, hin⟩ := List.mem_flatMap.mp hin
    exact (hfragment f hf).1 hin
  · intro hin
    obtain ⟨f, hf, hin⟩ := List.mem_flatMap.mp hin
    exact (hfragment f hf).2 hin

variable [UnicodeDatabase]

/-- A generated placeholder in the native spelling is found by the driver. -/
theorem generated_driverSearch (h : Generated true text names) (hnames : names ≠ []) (before : Text) :
    driverSearch (before ++ text) = true := by
  obtain ⟨fragments, rfl, rfl, hwell⟩ := h
  obtain ⟨name, hname⟩ := List.exists_mem_of_ne_nil _ hnames
  obtain ⟨f, hf, hparameter⟩ := List.mem_filterMap.mp hname
  cases f with
  | plain t => simp [Fragment.parameterName?] at hparameter
  | column c => simp [Fragment.parameterName?] at hparameter
  | parameter n type =>
    obtain ⟨start, rest, rfl⟩ := List.append_of_mem hf
    obtain ⟨hn, htype⟩ : isIdentifier n = true ∧ isIdentifier type = true := hwell _ hf
    apply driverSearch_eq_true.mpr
    refine ⟨before ++ start.flatMap (Fragment.text true), n, type,
      rest.flatMap (Fragment.text true), ?_, isIdentifier_ne_nil hn, ?_, isIdentifier_ne_nil htype, ?_⟩
    · simp [Fragment.text, placeholder, serverPlaceholder]
    · exact fun c hc => isWord_of_isIdentPart (isIdentifier_mem hn c hc)
    · intro c hc
      have hpart := isIdentifier_mem htype c hc
      have hopen : c ≠ '{' := by
        rintro rfl
        revert hpart
        decide
      have hclose : c ≠ '}' := by
        rintro rfl
        revert hpart
        decide
      simp [notBrace, hopen, hclose]

/-- A text without braces adds no match. -/
theorem driverSearch_no_brace {part rest : Text} (h : '{' ∉ rest ∧ '}' ∉ rest) :
    driverSearch (part ++ rest) = driverSearch part := by
  have hcrosses : ∀ p : Text, driverCrosses p rest = false := by
    intro p
    induction p with
    | nil => rfl
    | cons c p ih =>
      rw [driverCrosses, ih, Bool.or_false]
      by_contra hcon
      obtain ⟨after, hafter, hlen⟩ := (Option.any_eq_true _ _).mp ((Bool.not_eq_false _).mp hcon)
      obtain ⟨name, body, heq, _⟩ := matchDriverParameter_eq_some.mp hafter
      have hsplit : (c :: p) ++ rest = ('{' :: (name ++ ':' :: body)) ++ '}' :: after := by
        rw [List.cons_append, heq]
        simp
      obtain ⟨more, _, hrest⟩ | ⟨more, _, hafter'⟩ := List.append_eq_append_iff.mp hsplit
      · exact h.2 (by rw [hrest]; simp)
      · have hl := congrArg List.length hafter'
        simp only [List.length_cons, List.length_append] at hl
        cases more with
        | nil =>
          simp only [List.nil_append] at hafter'
          exact h.2 (by rw [← hafter']; simp)
        | cons d more =>
          simp only [List.length_cons] at hl
          simp only [decide_eq_true_eq] at hlen
          omega
  have hsearch : driverSearch rest = false := by
    have := driverStartsIn_of_no_brace h.1 []
    have happend := driverSearch_append rest []
    rw [List.append_nil, this] at happend
    rw [happend]
    rfl
  rw [driverSearch_append, driverStartsIn_eq, hcrosses, hsearch]
  simp

end Braces

section Protocol

variable [UnicodeDatabase] {request : SelectRequest} {q : SelectQuery}

/-- The placeholders of the filter are written for Python formatting; without a
filter, generated ones are, unless a pushed predicate asks for the other spelling. -/
def clientBound (request : SelectRequest) : Bool :=
  match filterText request with
  | none => request.pushedPredicate.isNone
  | some f =>
      match filterBindings f with
      | .ok b => b.clientNames != []
      | .error _ => false

def filterOpening (request : SelectRequest) : Text :=
  selectPrefix request ++ " WHERE ".toList ++ List.replicate (openings request) '('

/-- No match of the driver's pattern begins in front of the filter, and none
begins inside a quoted text or a comment of the filter and ends after it. -/
def NoStrayMatch (request : SelectRequest) : Prop :=
  match filterText request with
  | none => driverSearch (selectPrefix request) = false
  | some f => driverStartsIn (filterOpening request) f = false ∧
      ∀ segs, segments f = .ok segs → crossesHidden segs = false

omit [UnicodeDatabase] in
theorem generatedNames_eq_nil (hpushed : request.pushedPredicate = none)
    (hinternal : hasInternalParameters request = false) : generatedNames request = [] := by
  simp only [hasInternalParameters, Bool.or_eq_false_iff] at hinternal
  obtain ⟨⟨hpartition, hlower⟩, hupper⟩ := hinternal
  simp only [Option.isSome_eq_false_iff, Option.isNone_iff_eq_none] at hpartition hlower hupper
  simp [generatedNames, pushedNames, hpushed, hpartition, rangeNames, hlower, hupper, rangeBindings,
    Bindings.names]

/-- With parameters to bind, the protocol is decided by the client placeholders. -/
theorem Accepted.serverSide_eq (h : Accepted request q) (hparameters : q.parameters ≠ []) :
    q.serverSide = !clientBound request := by
  obtain ⟨n, hn⟩ : ∃ n, n ∈ q.parameters.names := by
    obtain ⟨p, hp⟩ := List.exists_mem_of_ne_nil _ hparameters
    exact ⟨p.1, List.mem_map_of_mem hp⟩
  unfold clientBound
  cases hf : filterText request with
  | none =>
    rw [(h.noFilter hf).2]
    cases request.pushedPredicate <;> rfl
  | some f =>
    obtain ⟨b, hb, hunpushed, hpushed⟩ := h.filter hf
    simp only [hb.scanned]
    cases hp : request.pushedPredicate with
    | some p =>
      rw [(hpushed p hp).2]
      simp [bne]
    | none =>
      rw [hunpushed hp]
      by_cases hclient : b.clientNames = []
      · by_cases hserver : b.serverTypes = []
        · cases hinternal : hasInternalParameters request with
          | true => simp [hclient]
          | false =>
            rw [h.mem_parameters, generatedNames_eq_nil hp hinternal, ← hb.used_iff] at hn
            simp [hclient, hserver] at hn
        · simp [hclient, hserver]
      · have hserver : b.serverTypes = [] := hb.unmixed.resolve_left hclient
        simp [hclient, hserver, bne]

theorem Accepted.driverSearch_native (h : Accepted request q) (hcompiled : CompiledRequest request)
    (hparameters : q.parameters ≠ []) (hnative : q.serverSide = true) :
    driverSearch q.sql = true := by
  obtain ⟨tail, hshape⟩ := h.shaped hcompiled
  obtain ⟨n, hn⟩ : ∃ n, n ∈ q.parameters.names := by
    obtain ⟨p, hp⟩ := List.exists_mem_of_ne_nil _ hparameters
    exact ⟨p.1, List.mem_map_of_mem hp⟩
  have hclient : clientBound request = false := by
    simpa [hnative] using h.serverSide_eq hparameters
  rcases (h.mem_parameters n).mp hn with huser | hgenerated
  · cases hf : filterText request with
    | none => simp [(h.noFilter hf).1, Bindings.names] at huser
    | some f =>
      obtain ⟨b, hb, _⟩ := h.filter hf
      have hnil : b.clientNames = [] := by
        simpa [clientBound, hf, hb.scanned, bne] using hclient
      have hserver : n ∈ b.serverTypes.map Prod.fst := by
        have hused := (hb.used_iff n).mpr huser
        rw [hnil] at hused
        exact hused.resolve_left (by simp)
      obtain ⟨segs, _, htext, hwell, hnames, _⟩ := filterBindings_spec hb.scanned
      obtain ⟨seg, hseg, hname⟩ := (hnames n).mp hserver
      cases seg with
      | server name type =>
        have hsearch := driverSearch_of_server hwell hseg
        rw [htext] at hsearch
        rw [hshape.sql, filterHead, hf]
        obtain ⟨before, m, body, after, heq, hmatch⟩ := driverSearch_eq_true.mp hsearch
        apply driverSearch_eq_true.mpr
        refine ⟨selectPrefix request ++ " WHERE ".toList ++ List.replicate (openings request) '(' ++
          before, m, body, after ++ tail, ?_, hmatch⟩
        simp only
        rw [heq]
        simp
      | quoted t => simp [Segment.serverName?] at hname
      | comment t line => simp [Segment.serverName?] at hname
      | client name => simp [Segment.serverName?] at hname
      | plain c => simp [Segment.serverName?] at hname
  · rw [hshape.sql]
    have hgen := hshape.generated
    rw [hnative] at hgen
    exact generated_driverSearch hgen (List.ne_nil_of_mem hgenerated) _

/-- In the client spelling a match can only be a stray one. -/
theorem Accepted.driverSearch_client (h : Accepted request q) (hcompiled : CompiledRequest request)
    (hparameters : q.parameters ≠ []) (hclient : q.serverSide = false) :
    driverSearch q.sql = false ↔ NoStrayMatch request := by
  obtain ⟨tail, hshape⟩ := h.shaped hcompiled
  have hgen := hshape.generated
  rw [hclient] at hgen
  rw [hshape.sql, driverSearch_no_brace (generated_no_brace hgen)]
  unfold filterHead NoStrayMatch
  cases hf : filterText request with
  | none => exact Iff.rfl
  | some f =>
    obtain ⟨b, hb, _, hpushed⟩ := h.filter hf
    obtain ⟨segs, hsegs, htext, hwell, hnames, hamb⟩ := filterBindings_spec hb.scanned
    have hbound : b.clientNames ≠ [] := by
      have hserver := h.serverSide_eq hparameters
      rw [hclient] at hserver
      simpa [clientBound, hf, hb.scanned, bne] using hserver
    have hserver : b.serverTypes = [] := hb.unmixed.resolve_left hbound
    have hunambiguous : b.ambiguous = false := by
      by_contra hcon
      have hnone := (hb.unambiguous ((Bool.not_eq_false _).mp hcon)).1
      obtain ⟨n, hn⟩ := List.exists_mem_of_ne_nil _ hbound
      have hused := (hb.used_iff n).mp (Or.inl hn)
      rw [hnone] at hused
      simp [Bindings.names] at hused
    have hfilter : driverSearch f = crossesHidden segs := by
      rw [← htext]
      refine driverSearch_segments hwell ?_ (by rw [← hamb, hunambiguous])
      intro seg hseg
      cases hname : seg.serverName? with
      | none => rfl
      | some name =>
        have hin := (hnames name).mpr ⟨seg, hseg, hname⟩
        simp [hserver] at hin
    simp only
    rw [driverSearch_append, hfilter, Bool.or_eq_false_iff]
    constructor
    · rintro ⟨hstart, hcross⟩
      refine ⟨hstart, ?_⟩
      intro segs' hsegs'
      cases Except.ok.inj (hsegs.symm.trans hsegs')
      exact hcross
    · rintro ⟨hstart, hcross⟩
      exact ⟨hstart, hcross segs hsegs⟩

/-- The driver's search finds a placeholder exactly when the connector rendered
the native protocol, if and only if no stray match joins a client-bound filter. -/
theorem driver_agrees_iff (h : buildSelect request = .ok q) (hcompiled : CompiledRequest request)
    (hparameters : q.parameters ≠ []) :
    (driverSearch q.sql = true ↔ q.serverSide = true) ↔
      (clientBound request = true → NoStrayMatch request) := by
  have haccepted := accepted_of_buildSelect h
  have hserver := haccepted.serverSide_eq hparameters
  cases hclient : clientBound request with
  | false =>
    rw [hclient] at hserver
    have hnative : q.serverSide = true := by simpa using hserver
    simp [hnative, haccepted.driverSearch_native hcompiled hparameters hnative]
  | true =>
    rw [hclient] at hserver
    have hfalse : q.serverSide = false := by simpa using hserver
    rw [← haccepted.driverSearch_client hcompiled hparameters hfalse, hfalse]
    simp

end Protocol

def boundRequest (filter : String) : SelectRequest :=
  { table := exampleTable
    columns := ["a".toList]
    filterSql := some filter.toList
    parameters := [("p".toList, .int 1)] }

theorem driver_agrees_plain :
    ∃ q, @buildSelect asciiDatabase (boundRequest "x = '\x7b' AND z = %(p)s") = .ok q ∧
      (@driverSearch asciiDatabase q.sql = true ↔ q.serverSide = true) := by
  have hok : Outcome.check (@buildSelect asciiDatabase (boundRequest "x = '\x7b' AND z = %(p)s"))
      (fun q => decide (q.parameters ≠ [])) = true := by
    decide +kernel
  obtain ⟨q, hq, hparameters⟩ := Outcome.check_eq_true.mp hok
  refine ⟨q, hq, (@driver_agrees_iff asciiDatabase _ q hq (by simp [CompiledRequest, boundRequest])
    (of_decide_eq_true hparameters)).mpr ?_⟩
  intro _
  have hfilter : filterText (boundRequest "x = '\x7b' AND z = %(p)s") =
      some "x = '\x7b' AND z = %(p)s".toList := by decide +kernel
  unfold NoStrayMatch
  rw [hfilter]
  refine ⟨by decide +kernel, ?_⟩
  intro segs hsegs
  have hcheck : Outcome.check (@segments "x = '\x7b' AND z = %(p)s".toList)
      (fun s => !@crossesHidden asciiDatabase s) = true := by decide +kernel
  obtain ⟨segs', hsegs', hcross⟩ := Outcome.check_eq_true.mp hcheck
  cases Except.ok.inj (hsegs.symm.trans hsegs')
  simpa using hcross

/-- A brace opened in one quoted text and closed in another one is a
placeholder to the driver only. -/
theorem driver_disagrees_across_quotes :
    ∃ q, @buildSelect asciiDatabase (boundRequest "x = '\x7ba:' AND y = '\x7d' AND z = %(p)s") = .ok q ∧
      q.parameters ≠ [] ∧ @driverSearch asciiDatabase q.sql = true ∧ q.serverSide = false := by
  have hok : Outcome.check (@buildSelect asciiDatabase
      (boundRequest "x = '\x7ba:' AND y = '\x7d' AND z = %(p)s"))
      (fun q => decide (q.parameters ≠ [] ∧ @driverSearch asciiDatabase q.sql = true ∧
        q.serverSide = false)) = true := by
    decide +kernel
  obtain ⟨q, hq, hdisagree⟩ := Outcome.check_eq_true.mp hok
  exact ⟨q, hq, of_decide_eq_true hdisagree⟩

end RayClickHouse.Sql
