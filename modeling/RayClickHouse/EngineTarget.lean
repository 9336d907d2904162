import RayClickHouse.EngineArguments
import RayClickHouse.TypeRoundTrip

/-!
The extraction reads the target of the call that follows a text, provided the
text mentions no call of its own, and loses the quote characters at the ends of
a quoted cluster name.
-/
namespace RayClickHouse.EngineScan

open Text TypeText

section Constants

theorem solid_identifier {s : Text} (h : isIdentifier s = true) : Solid s :=
  Ddl.solid_of_plain fun c hc => Ddl.isSpace_of_isIdentPart (isIdentifier_mem h c hc)

theorem Constant.solid (c : Constant) : Solid c.text := by
  obtain ⟨spelling, value, hsupported⟩ := c
  cases spelling with
  | bare => exact solid_identifier hsupported
  | single => exact solid_quoted (by decide) value
  | back => exact solid_quoted (by decide) value
  | double => exact solid_quoted (by decide) value

theorem Constant.text_ne_nil (c : Constant) : c.text ≠ [] := by
  obtain ⟨spelling, value, hsupported⟩ := c
  cases spelling with
  | bare => exact isIdentifier_ne_nil hsupported
  | single => exact List.cons_ne_nil _ _
  | back => exact List.cons_ne_nil _ _
  | double => exact List.cons_ne_nil _ _

theorem strip_argument {c : Constant} {a : Text} (h : ArgumentText c a) : strip a = c.text := by
  cases h with
  | mk left right hleft hright => exact strip_padded c.solid c.text_ne_nil hleft hright

theorem isQuotedConstant_spell {q : Char} {value : Text} (h : ∀ c ∈ value, c ≠ q ∧ c ≠ '\\') :
    isQuotedConstant q (q :: (value ++ [q])) = true := by
  simp only [isQuotedConstant, List.getLast?_concat, List.dropLast_concat, BEq.rfl, Bool.true_and,
    List.all_eq_true, Bool.and_eq_true, bne_iff_ne]
  exact h

theorem isConstant_text (c : Constant) : isConstant c.text = true := by
  obtain ⟨spelling, value, hsupported⟩ := c
  cases spelling with
  | bare =>
    have hname : isIdentifier value = true := hsupported
    simp [isConstant, Constant.text, Spelling.spell, hname]
  | single =>
    have hquoted := isQuotedConstant_spell fun c hc => ⟨(hsupported c hc).1, (hsupported c hc).2.1⟩
    simp only [isConstant, Constant.text, Spelling.spell, hquoted, Bool.or_true, Bool.true_or]
  | back =>
    have hquoted := isQuotedConstant_spell fun c hc => ⟨(hsupported c hc).1, (hsupported c hc).2.1⟩
    simp only [isConstant, Constant.text, Spelling.spell, hquoted, Bool.or_true, Bool.true_or]
  | double =>
    have hquoted := isQuotedConstant_spell fun c hc => ⟨(hsupported c hc).1, (hsupported c hc).2.1⟩
    simp only [isConstant, Constant.text, Spelling.spell, hquoted, Bool.or_true]

/-- The quotes of a constant are stripped together with those of its value. -/
theorem strip_quotes (c : Constant) :
    stripChars quoteChars c.text = stripChars quoteChars c.value := by
  obtain ⟨spelling, value, hsupported⟩ := c
  cases spelling with
  | bare => rfl
  | single => exact stripChars_wrapped (by simp [quoteChars]) value
  | back => exact stripChars_wrapped (by simp [quoteChars]) value
  | double => exact stripChars_wrapped (by simp [quoteChars]) value

theorem Constant.no_brace (c : Constant) : '{' ∉ c.value ∧ '}' ∉ c.value := by
  obtain ⟨spelling, value, hsupported⟩ := c
  cases spelling with
  | bare =>
    exact ⟨isIdentifier_not_mem hsupported (by decide), isIdentifier_not_mem hsupported (by decide)⟩
  | single =>
    exact ⟨fun h => (hsupported _ h).2.2.1 rfl, fun h => (hsupported _ h).2.2.2 rfl⟩
  | back =>
    exact ⟨fun h => (hsupported _ h).2.2.1 rfl, fun h => (hsupported _ h).2.2.2 rfl⟩
  | double =>
    exact ⟨fun h => (hsupported _ h).2.2.1 rfl, fun h => (hsupported _ h).2.2.2 rfl⟩

theorem mem_of_mem_stripChars {chars s : Text} {c : Char} (h : c ∈ stripChars chars s) : c ∈ s :=
  (List.dropWhile_suffix _).subset ((List.rdropWhile_prefix _ _).subset h)

theorem constantValue_text (c : Constant) :
    constantValue c.text = .ok (stripChars quoteChars c.value) := by
  obtain ⟨hopen, hclose⟩ := c.no_brace
  have hbrace : ¬ ('{' ∈ stripChars quoteChars c.value ∨ '}' ∈ stripChars quoteChars c.value) := by
    rintro (h | h)
    · exact hopen (mem_of_mem_stripChars h)
    · exact hclose (mem_of_mem_stripChars h)
  unfold constantValue
  rw [isConstant_text, strip_quotes, if_neg (by decide), if_neg hbrace]

theorem stripChars_name (c : NameConstant) : stripChars quoteChars c.value = c.value := by
  apply stripChars_self
  intro d hd hmem
  have hpart := isIdentifier_mem c.identifier d hd
  have hall : (quoteChars.all fun d => !isIdentPart d) = true := by decide
  have hnot := List.all_eq_true.mp hall d hmem
  rw [hpart] at hnot
  cases hnot

theorem targetConstants_read (cluster : Constant) (database table : NameConstant)
    (more : List Text) :
    targetConstants (cluster.text :: database.text :: table.text :: more) =
      .ok (stripChars quoteChars cluster.value,
        ⟨database.value, table.value, database.identifier, table.identifier⟩) := by
  have htarget : targetTable database.value table.value =
      .ok ⟨database.value, table.value, database.identifier, table.identifier⟩ := by
    unfold targetTable
    rw [dif_pos database.identifier, dif_pos table.identifier]
  simp only [targetConstants, constantValue_text, stripChars_name]
  change (targetTable database.value table.value >>= _) = _
  rw [htarget]
  rfl

end Constants

section Target

variable {before : Text} {cluster : Constant}

/-- The arguments of the call, from its opening parenthesis to the end. -/
def callText (cluster database table more suffix : Text) : Text :=
  cluster ++ ',' :: (database ++ ',' :: (table ++ (more ++ ')' :: suffix)))

theorem readArguments_call {database table : NameConstant} {a b c more : Text} (suffix : Text)
    (ha : ArgumentText cluster a) (hb : ArgumentText database.toConstant b)
    (hc : ArgumentText table.toConstant c) (hmore : Further more) :
    ∃ found, readArguments none 1 [] [] (callText a b c more suffix) =
      ⟨none, 0, cluster.text :: database.text :: table.text :: found⟩ := by
  have hthree : readArguments none 1 [] [] (callText a b c more suffix) =
      readArguments none 1 [cluster.text, database.text] c (more ++ ')' :: suffix) := by
    unfold callText
    rw [readArguments_argument ha, readArguments_comma, readArguments_argument hb,
      readArguments_comma, readArguments_argument hc]
    simp only [List.nil_append, strip_argument ha, strip_argument hb, List.singleton_append]
  rw [hthree]
  rcases hmore with rfl | ⟨m, rfl, hm⟩
  · refine ⟨[], ?_⟩
    rw [List.nil_append, readArguments_end, strip_argument hc]
    rfl
  · obtain ⟨found, current, hread⟩ := readArguments_balanced (fun q hq => by cases hq) hm
      [cluster.text, database.text, table.text] []
    refine ⟨found ++ [strip current], ?_⟩
    rw [List.cons_append, readArguments_comma, strip_argument hc]
    exact (hread (')' :: suffix)).trans (by rw [Nat.zero_add, readArguments_end]; simp)

theorem parse_found {text after : Text} {args : List Text}
    (hfound : findCall none text = .found after)
    (hread : readArguments none 1 [] [] after = ⟨none, 0, args⟩) :
    parseDistributedEngine text = targetConstants args := by
  simp only [parseDistributedEngine, hfound, hread]
  rfl

theorem parse_malformed {text after : Text} {q : Char} {depth : ℕ} {args : List Text}
    (hfound : findCall none text = .found after)
    (hread : readArguments none 1 [] [] after = ⟨some q, depth, args⟩) :
    parseDistributedEngine text = .error malformedEngine := by
  simp only [parseDistributedEngine, hfound, hread]
  rfl

/-- Without a call in the text before it, the call is read up to the quote
characters at the ends of the cluster name. -/
theorem parse_target (hclosed : quoteAfter none before = none) (hcall : ¬ MentionsCall before)
    {database table : NameConstant} {a b c more : Text} (suffix : Text)
    (ha : ArgumentText cluster a) (hb : ArgumentText database.toConstant b)
    (hc : ArgumentText table.toConstant c) (hmore : Further more) :
    parseDistributedEngine (engineText before a b c more suffix) =
      .ok (stripChars quoteChars cluster.value,
        ⟨database.value, table.value, database.identifier, table.identifier⟩) := by
  have hnone : NoCall none before := fun front after hsplit hfront hafter =>
    hcall ⟨front, after, hsplit, hfront, hafter⟩
  have hfound : findCall none (engineText before a b c more suffix) =
      .found (callText a b c more suffix) :=
    (findCall_closed (fun q hq => by cases hq) hclosed hnone).trans findCall_engine
  obtain ⟨found, hread⟩ := readArguments_call suffix ha hb hc hmore
  rw [parse_found hfound hread]
  exact targetConstants_read cluster database table found

theorem readArguments_nested {depth : ℕ} {args : List Text} {current rest : Text} :
    readArguments none (depth + 2) args current (',' :: rest) =
      readArguments none (depth + 2) args (current ++ [',']) rest := by
  rw [readArguments_code, if_neg (by decide), if_neg (by decide), if_neg (by decide),
    if_neg (by omega)]

/-- A call met inside other arguments does not end them. -/
theorem readArguments_inner_call {a b c : Text} {x y z : Constant} (ha : ArgumentText x a)
    (hb : ArgumentText y b) (hc : ArgumentText z c) (depth : ℕ) (args : List Text)
    (current suffix : Text) :
    ∃ current', readArguments none (depth + 1) args current
        (callName ++ '(' :: callText a b c [] suffix) =
      readArguments none (depth + 1) args current' suffix := by
  have hname : ∀ d ∈ callName, isSilent d = true := by
    intro d hd
    have hall : (callName.all isSilent) = true := by decide
    exact List.all_eq_true.mp hall d hd
  have hopen : ∀ current rest, readArguments none (depth + 1) args current ('(' :: rest) =
      readArguments none (depth + 2) args (current ++ ['(']) rest := by
    intro current rest
    rw [readArguments_code]
    rfl
  have hclose : ∀ current rest, readArguments none (depth + 2) args current (')' :: rest) =
      readArguments none (depth + 1) args (current ++ [')']) rest := by
    intro current rest
    rw [readArguments_code, if_neg (by decide), if_neg (by decide), if_pos rfl,
      if_neg (by omega)]
    rfl
  rw [readArguments_silent hname, hopen]
  unfold callText
  rw [readArguments_argument ha, readArguments_nested, readArguments_argument hb,
    readArguments_nested, readArguments_argument hc, List.nil_append, hclose]
  exact ⟨_, rfl⟩

def bareName (name : Text) (h : isIdentifier name = true) : NameConstant :=
  { spelling := .bare, value := name, supported := h, identifier := h }

theorem argumentText_self (c : Constant) : ArgumentText c c.text := by
  have h := ArgumentText.mk (c := c) [] [] (by simp) (by simp)
  simpa using h

theorem not_reads_of_mentions (hclosed : quoteAfter none before = none)
    (hcall : MentionsCall before) : ¬ ReadsTarget before cluster := by
  intro hreads
  have hnone : ¬ NoCall none before := by
    obtain ⟨front, after, hsplit, hfront, hafter⟩ := hcall
    exact fun h => h front after hsplit hfront hafter
  obtain ⟨inner, hinner, hfound⟩ := findCall_mentions (fun q hq => by cases hq) hclosed hnone
  let a := bareName ['a'] rfl
  let b := bareName ['b'] rfl
  have hshape : ∀ c : NameConstant, ∀ suffix,
      engineText before cluster.text c.text a.text [] suffix =
        before ++ 'D' :: ("istributed".toList ++ '(' ::
          callText cluster.text c.text a.text [] suffix) := fun _ _ => rfl
  have hread : ∀ (c : NameConstant) suffix,
      parseDistributedEngine (engineText before cluster.text c.text a.text [] suffix) =
        .ok (cluster.value, ⟨c.value, a.value, c.identifier, a.identifier⟩) := fun c suffix =>
    hreads c a _ _ _ [] suffix (argumentText_self cluster) (argumentText_self c.toConstant)
      (argumentText_self a.toConstant) (Or.inl rfl)
  rcases readArguments_through (fun q hq => by cases hq) hinner 0 [] [] with
    ⟨args, hstop⟩ | ⟨depth, args, current, hpass⟩
  · -- the call in the text before is complete, so its target is read whatever follows
    have hsame : ∀ c : NameConstant, targetConstants args =
        .ok (cluster.value, ⟨c.value, a.value, c.identifier, a.identifier⟩) := by
      intro c
      rw [← hread c []]
      exact (parse_found (hshape c [] ▸ hfound _) (hstop _)).symm
    have hnames := (hsame a).symm.trans (hsame b)
    simp only [Except.ok.injEq, Prod.mk.injEq, QualifiedTable.mk.injEq] at hnames
    exact absurd hnames.2.1 (by decide)
  · -- it is not, so an open quote after the real call leaves it unfinished
    obtain ⟨current', hinnerCall⟩ := readArguments_inner_call (argumentText_self cluster)
      (argumentText_self a.toConstant) (argumentText_self a.toConstant) depth args current ['\'']
    have hend : readArguments none (depth + 1) args current' ['\''] =
        ⟨some '\'', depth + 1, args⟩ := by
      rw [readArguments_code]
      rfl
    have hfails := parse_malformed (hshape a ['\''] ▸ hfound _)
      ((hpass _).trans (hinnerCall.trans hend))
    cases hfails.symm.trans (hread a ['\''])

/-- The target is read exactly, unless the text before the call has a longer word
that ends in a call, or the cluster name has quote characters at its ends. -/
theorem reads_target_iff [UnicodeDatabase] (h : EnginePrefix before) :
    ReadsTarget before cluster ↔ ¬ MentionsCall before ∧ EndsPlain cluster.value := by
  constructor
  · intro hreads
    have hcall : ¬ MentionsCall before := fun hcall => not_reads_of_mentions h.closed hcall hreads
    refine ⟨hcall, stripChars_eq_self_iff.mp ?_⟩
    let a := bareName ['a'] rfl
    have ha := argumentText_self a.toConstant
    have hcluster := argumentText_self cluster
    have hread := hreads a a _ _ _ [] [] hcluster ha ha (Or.inl rfl)
    have hparse := parse_target h.closed hcall [] hcluster ha ha (Or.inl rfl)
    have heq := hparse.symm.trans hread
    simp only [Except.ok.injEq, Prod.mk.injEq, and_true] at heq
    exact heq
  · rintro ⟨hcall, hends⟩ database table a b c more suffix ha hb hc hmore
    have hparse := parse_target h.closed hcall suffix ha hb hc hmore
    rw [stripChars_eq_self_iff.mpr hends] at hparse
    exact hparse

end Target

section Examples

def createPrefix : Text :=
  "CREATE TABLE t (`Distributed(x)` Int64, b String DEFAULT ')''(') ENGINE = ".toList

theorem createPrefix_silent : NoCall none createPrefix := by
  by_contra hcall
  obtain ⟨inner, -, hfound⟩ := findCall_mentions (fun q hq => by cases hq) (by decide +kernel) hcall
  have habsent : findCall none (createPrefix ++ 'D' :: []) = .absent := by decide +kernel
  cases habsent.symm.trans (hfound [])

theorem admits_cluster : Spelling.Supports .single "cluster".toList := by
  intro c hc
  have hall : ("cluster".toList.all fun c => c != '\'' && c != '\\' && c != '\x7b' && c != '\x7d') =
      true := by decide +kernel
  have h := List.all_eq_true.mp hall c hc
  simp only [Bool.and_eq_true, bne_iff_ne] at h
  exact ⟨h.1.1.1, h.1.1.2, h.1.2, h.2⟩

def exampleCluster : Constant := ⟨.single, "cluster".toList, admits_cluster⟩

theorem reads_target_after_columns : ReadsTarget createPrefix exampleCluster := by
  have hprefix : @EnginePrefix asciiDatabase createPrefix :=
    @EnginePrefix.mk asciiDatabase createPrefix (by decide +kernel)
      fun before after hsplit hbefore hcall =>
        absurd hcall (createPrefix_silent before after hsplit hbefore)
  apply ((@reads_target_iff _ exampleCluster asciiDatabase) hprefix).mpr
  refine ⟨?_, stripChars_eq_self_iff.mp (by decide +kernel)⟩
  rintro ⟨before, after, hsplit, hbefore, hcall⟩
  exact createPrefix_silent before after hsplit hbefore hcall

def quotedCluster : Constant :=
  ⟨.single, ['"', 'c', '"'], by
    intro d hd
    simp only [List.mem_cons, List.not_mem_nil, or_false] at hd
    rcases hd with rfl | rfl | rfl <;> decide⟩

theorem enginePrefix_nil : @EnginePrefix asciiDatabase [] :=
  @EnginePrefix.mk asciiDatabase [] rfl fun before after hsplit _ hcall => by
    obtain ⟨-, rfl⟩ := List.append_eq_nil_iff.mp hsplit.symm
    obtain ⟨gap, rest, heq, -⟩ := hcall
    cases heq

/-- The double quotes of the name are lost. -/
theorem quoted_cluster_misread :
    @EnginePrefix asciiDatabase [] ∧
      Outcome.check (parseDistributedEngine "Distributed('\"c\"', a, b)".toList)
        (fun target => decide (target.1 = ['c'])) = true ∧
      ¬ ReadsTarget [] quotedCluster := by
  refine ⟨enginePrefix_nil, by decide +kernel, ?_⟩
  intro hreads
  let a := bareName ['a'] rfl
  have hread := hreads a a _ _ _ [] [] (argumentText_self quotedCluster)
    (argumentText_self a.toConstant) (argumentText_self a.toConstant) (Or.inl rfl)
  have hlost : Outcome.check (parseDistributedEngine
      (engineText [] quotedCluster.text a.text a.text [] []))
      (fun target => decide (target.1 = ['c'])) = true := by
    decide +kernel
  obtain ⟨target, hok, hvalue⟩ := Outcome.check_eq_true.mp hlost
  cases hok.symm.trans hread
  exact absurd (of_decide_eq_true hvalue) (by decide)

end Examples

end RayClickHouse.EngineScan
