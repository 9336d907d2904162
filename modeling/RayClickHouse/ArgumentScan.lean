import RayClickHouse.TypePrefix
import RayClickHouse.TypeRefusals

/-!
The splitter's scan as an automaton over single characters. A text is one argument
exactly when the automaton reads it and comes back to where it started, so a piece that
the splitter cuts out is an argument again, and texts that move the automaton alike may
stand for each other.
-/
namespace RayClickHouse.TypeText

open Text EngineScan

/-- Where the scan is: in the text of a type, between quotes, or after a backslash there. -/
inductive ScanMode
  | code
  | inside (q : Char) (h : isQuote q = true)
  | escaped (q : Char) (h : isQuote q = true)

/-- One character of an argument, none at a comma or a closing parenthesis of the top
level. -/
def scanStep : ScanMode → ℕ → Char → Option (ScanMode × ℕ)
  | .escaped q h, depth, _ => some (.inside q h, depth)
  | .inside q h, depth, c =>
      if c = '\\' then some (.escaped q h, depth)
      else if c = q then some (.code, depth)
      else some (.inside q h, depth)
  | .code, depth, c =>
      if h : isQuote c = true then some (.inside c h, depth)
      else if c = '(' then some (.code, depth + 1)
      else if c = ')' then if depth = 0 then none else some (.code, depth - 1)
      else if c = ',' ∧ depth = 0 then none
      else some (.code, depth)

def scanText : ScanMode → ℕ → Text → Option (ScanMode × ℕ)
  | mode, depth, [] => some (mode, depth)
  | mode, depth, c :: rest => (scanStep mode depth c).bind fun s => scanText s.1 s.2 rest

def Scans (s : Text) : Prop := scanText .code 0 s = some (.code, 0)

section Runs

variable {mode mode' : ScanMode} {depth depth' : ℕ} {c : Char} {s t : Text}

theorem scanStep_inside {q : Char} {h : isQuote q = true} :
    scanStep (.inside q h) depth c =
      if c = '\\' then some (.escaped q h, depth)
      else if c = q then some (.code, depth)
      else some (.inside q h, depth) := rfl

theorem scanStep_code :
    scanStep .code depth c =
      if h : isQuote c = true then some (.inside c h, depth)
      else if c = '(' then some (.code, depth + 1)
      else if c = ')' then if depth = 0 then none else some (.code, depth - 1)
      else if c = ',' ∧ depth = 0 then none
      else some (.code, depth) := rfl

theorem scanText_append (mode : ScanMode) (depth : ℕ) (s t : Text) :
    scanText mode depth (s ++ t) = (scanText mode depth s).bind fun r => scanText r.1 r.2 t := by
  induction s generalizing mode depth with
  | nil => rfl
  | cons c s ih =>
    rw [List.cons_append, scanText, scanText]
    cases scanStep mode depth c with
    | none => rfl
    | some r => exact ih r.1 r.2

theorem scanText_cons (h : scanStep mode depth c = some (mode', depth')) (s : Text) :
    scanText mode depth (c :: s) = scanText mode' depth' s := by
  rw [scanText, h]
  rfl

theorem Scans.append (hs : Scans s) : Scans (s ++ t) ↔ Scans t := by
  unfold Scans at *
  rw [scanText_append, hs]
  rfl

/-- Characters that mean nothing to the scan, wherever it is. -/
def idle (c : Char) : Bool := inertChar c && c != '\\'

def ScanMode.resume : ScanMode → ScanMode
  | .escaped q h => .inside q h
  | mode => mode

theorem scanStep_idle (h : idle c = true) : scanStep mode depth c = some (mode.resume, depth) := by
  rw [idle, Bool.and_eq_true, inertChar_eq_true, bne_iff_ne] at h
  obtain ⟨⟨hquote, hopen, hclose, hcomma⟩, hescape⟩ := h
  cases mode with
  | escaped q hq => rfl
  | inside q hq =>
    have hne : c ≠ q := by
      rintro rfl
      rw [hq] at hquote
      contradiction
    rw [scanStep_inside, if_neg hescape, if_neg hne]
    rfl
  | code =>
    rw [scanStep_code, dif_neg (by simp [hquote]), if_neg hopen, if_neg hclose,
      if_neg (by simp [hcomma])]
    rfl

theorem ScanMode.resume_resume (mode : ScanMode) : mode.resume.resume = mode.resume := by
  cases mode with
  | code => rfl
  | inside q h => rfl
  | escaped q h => rfl

theorem scanText_idle (h : ∀ c ∈ s, idle c = true) (hne : s ≠ []) :
    scanText mode depth s = some (mode.resume, depth) := by
  induction s generalizing mode with
  | nil => exact absurd rfl hne
  | cons c s ih =>
    rw [scanText_cons (scanStep_idle (h c (List.mem_cons_self ..)))]
    cases s with
    | nil => rfl
    | cons d s =>
      rw [ih (fun e he => h e (List.mem_cons_of_mem _ he)) (List.cons_ne_nil d s),
        ScanMode.resume_resume]

theorem idle_of_isSpace (h : isSpace c = true) : idle c = true := by
  have hne : ∀ d : Char, isSpace d = false → c ≠ d := by
    rintro d hd rfl
    rw [h] at hd
    contradiction
  rw [idle, Bool.and_eq_true, inertChar_eq_true, bne_iff_ne]
  refine ⟨⟨?_, hne '(' (by decide), hne ')' (by decide), hne ',' (by decide)⟩, hne '\\' (by decide)⟩
  simp [isQuote, hne '\'' (by decide), hne '"' (by decide), hne '`' (by decide)]

theorem idle_of_isIdentPart (h : isIdentPart c = true) : idle c = true := by
  rw [idle, Ddl.inertChar_of_isIdentPart h, Bool.true_and, bne_iff_ne]
  rintro rfl
  contradiction

theorem scans_idle (h : ∀ c ∈ s, idle c = true) : Scans s := by
  by_cases hnil : s = []
  · rw [hnil]
    rfl
  · exact scanText_idle h hnil

/-- White space around a text does not change whether it is read to the top level. -/
theorem Scans.strip (h : Scans s) : Scans (strip s) := by
  obtain ⟨before, after, hs, hbefore, hafter⟩ := strip_decompose s
  rw [hs, List.append_assoc, (scans_idle fun c hc => idle_of_isSpace (hbefore c hc)).append] at h
  by_cases hnil : after = []
  · rwa [hnil, List.append_nil] at h
  · unfold Scans at h ⊢
    rw [scanText_append, Option.bind_eq_some_iff] at h
    obtain ⟨⟨mode, depth⟩, hread, htail⟩ := h
    rw [scanText_idle (fun c hc => idle_of_isSpace (hafter c hc)) hnil, Option.some.injEq,
      Prod.mk.injEq] at htail
    rw [hread]
    cases mode with
    | code =>
      have hzero : depth = 0 := htail.2
      rw [hzero]
    | inside q hq => cases htail.1
    | escaped q hq => cases htail.1

/-- The scan stops before a comma or a closing parenthesis of the top level. -/
theorem not_scans_separated (hs : lstrip s ≠ []) (h : Separated s) : ¬ Scans s := by
  intro hscans
  have hspaces : s = s.takeWhile isSpace ++ lstrip s := List.takeWhile_append_dropWhile.symm
  rw [hspaces, (scans_idle fun c hc => idle_of_isSpace (List.mem_takeWhile_imp hc)).append] at hscans
  cases hhead : lstrip s with
  | nil => exact hs hhead
  | cons c rest =>
    rw [hhead] at hscans
    have hc := h c (by rw [hhead]; rfl)
    unfold Scans scanText at hscans
    obtain rfl | rfl := hc
    · cases hscans
    · cases hscans

end Runs

section Pieces

def ScanMode.At : ScanMode → Option Char → Prop
  | .code, none => True
  | .inside q _, some c => q = c
  | _, _ => False

variable {value current s : Text} {q : Option Char} {mode mode' : ScanMode} {depth depth' : ℕ}
  {parts found result : List Text} {c : Char}

/-- The pieces between the commas of the top level, each read to the top level. -/
def ScannedPieces (mode : ScanMode) (depth : ℕ) (current s : Text) (found : List Text) : Prop :=
  ∃ (first : Text) (others : List Text), s = first ++ others.flatMap (',' :: ·) ∧
    found = strip (current ++ first) :: others.map strip ∧
    strip (current ++ first) ≠ [] ∧ (∀ o ∈ others, strip o ≠ []) ∧
    scanText mode depth first = some (.code, 0) ∧ ∀ o ∈ others, Scans o

theorem ScannedPieces.cons (hstep : scanStep mode depth c = some (mode', depth'))
    (h : ScannedPieces mode' depth' (current ++ [c]) s found) :
    ScannedPieces mode depth current (c :: s) found := by
  obtain ⟨first, others, hs, hfound, hfirst, hothers, hread, hscans⟩ := h
  have happend : current ++ c :: first = current ++ [c] ++ first := by simp
  refine ⟨c :: first, others, ?_, ?_, ?_, hothers, ?_, hscans⟩
  · rw [hs, List.cons_append]
  · rw [happend]
    exact hfound
  · rw [happend]
    exact hfirst
  · rw [scanText_cons hstep]
    exact hread

theorem ScanMode.at_none (h : mode.At none) : mode = .code := by
  cases mode with
  | code => rfl
  | inside q hq => exact h.elim
  | escaped q hq => exact h.elim

theorem ScanMode.at_some {q : Char} (h : mode.At (some q)) :
    ∃ hq : isQuote q = true, mode = .inside q hq := by
  cases mode with
  | code => exact h.elim
  | inside q' hq =>
    obtain rfl : q' = q := h
    exact ⟨hq, rfl⟩
  | escaped q' hq => exact h.elim

/-- One step of the automaton inside quotes, where the splitter does not see a backslash. -/
theorem scanStep_within {q : Char} {hq : isQuote q = true} (hc : c ≠ '\\') :
    ∃ mode, scanStep (.inside q hq) depth c = some (mode, depth) ∧
      mode.At (if c = q then none else some q) := by
  rw [scanStep_inside, if_neg hc]
  by_cases hclose : c = q
  · rw [if_pos hclose, if_pos hclose]
    exact ⟨.code, rfl, trivial⟩
  · rw [if_neg hclose, if_neg hclose]
    exact ⟨.inside q hq, rfl, rfl⟩

theorem scanStep_escape {q : Char} {hq : isQuote q = true} :
    scanStep (.inside q hq) depth '\\' = some (.escaped q hq, depth) := by
  rw [scanStep_inside, if_pos rfl]

theorem scanStep_escaped {q : Char} {hq : isQuote q = true} :
    scanStep (.escaped q hq) depth c = some (.inside q hq, depth) := rfl

theorem scanStep_quote (hc : isQuote c = true) :
    scanStep .code depth c = some (.inside c hc, depth) := by
  rw [scanStep_code, dif_pos hc]

theorem scanStep_open : scanStep .code depth '(' = some (.code, depth + 1) := rfl

theorem scanStep_close (h : depth ≠ 0) : scanStep .code depth ')' = some (.code, depth - 1) := by
  rw [scanStep_code, dif_neg (by decide), if_neg (by decide), if_pos rfl, if_neg h]

theorem scanStep_other (hquote : ¬ isQuote c = true) (hopen : c ≠ '(') (hclose : c ≠ ')')
    (hcomma : ¬(c = ',' ∧ depth = 0)) : scanStep .code depth c = some (.code, depth) := by
  rw [scanStep_code, dif_neg hquote, if_neg hopen, if_neg hclose, if_neg hcomma]

/-- What the splitter returns are the pieces between the top-level commas. -/
theorem splitFrom_scanned (hmode : mode.At q)
    (h : splitFrom value q depth current parts s = .ok result) :
    ∃ found, result = parts ++ found ∧ ScannedPieces mode depth current s found := by
  induction q, depth, current, parts, s using splitFrom.induct generalizing mode with
  | case1 =>
    change unbalanced _ = _ at h
    simp [unbalanced, Outcome.raise] at h
  | case2 =>
    change unbalanced _ = _ at h
    simp [unbalanced, Outcome.raise] at h
  | case3 q depth current parts d rest' ih =>
    obtain ⟨hq, rfl⟩ := ScanMode.at_some hmode
    rw [splitFrom_escape] at h
    have hinside : (ScanMode.inside q hq).At (some q) := rfl
    obtain ⟨found, hresult, hpieces⟩ := ih hinside h
    refine ⟨found, hresult, ScannedPieces.cons scanStep_escape
      (ScannedPieces.cons scanStep_escaped ?_)⟩
    rw [List.append_assoc]
    exact hpieces
  | case4 q depth current parts c rest' hc ih =>
    obtain ⟨hq, rfl⟩ := ScanMode.at_some hmode
    rw [splitFrom_inside hc] at h
    obtain ⟨next, hstep, hnext⟩ := scanStep_within hc
    obtain ⟨found, hresult, hpieces⟩ := ih hnext h
    exact ⟨found, hresult, hpieces.cons hstep⟩
  | case5 depth current parts hdepth =>
    rw [splitFrom_stop, if_pos hdepth] at h
    contradiction
  | case6 depth current parts hdepth hcurrent =>
    rw [splitFrom_stop, if_neg hdepth, if_pos hcurrent] at h
    contradiction
  | case7 depth current parts hdepth hcurrent =>
    rw [splitFrom_stop, if_neg hdepth, if_neg hcurrent] at h
    obtain rfl := ScanMode.at_none hmode
    obtain rfl : depth = 0 := not_not.mp hdepth
    refine ⟨[strip current], (Except.ok.inj h).symm, [], [], rfl, by simp, by simpa using hcurrent,
      by simp, rfl, by simp⟩
  | case8 depth current parts c rest' hquote ih =>
    obtain rfl := ScanMode.at_none hmode
    rw [splitFrom_quote hquote] at h
    have hinside : (ScanMode.inside c hquote).At (some c) := rfl
    obtain ⟨found, hresult, hpieces⟩ := ih hinside h
    exact ⟨found, hresult, hpieces.cons (scanStep_quote hquote)⟩
  | case9 depth current parts rest' _ ih =>
    obtain rfl := ScanMode.at_none hmode
    rw [splitFrom_open] at h
    obtain ⟨found, hresult, hpieces⟩ := ih hmode h
    exact ⟨found, hresult, hpieces.cons scanStep_open⟩
  | case10 current parts rest' _ _ =>
    rw [splitFrom_code, if_neg (by decide), if_neg (by decide), if_pos rfl, if_pos rfl] at h
    contradiction
  | case11 depth current parts rest' hdepth _ _ ih =>
    obtain rfl := ScanMode.at_none hmode
    rw [splitFrom_code, if_neg (by decide), if_neg (by decide), if_pos rfl, if_neg hdepth] at h
    obtain ⟨found, hresult, hpieces⟩ := ih hmode h
    exact ⟨found, hresult, hpieces.cons (scanStep_close hdepth)⟩
  | case12 depth current parts c rest' hquote hopen hclose hcomma hcurrent =>
    rw [splitFrom_code, if_neg hquote, if_neg hopen, if_neg hclose, if_pos hcomma,
      if_pos hcurrent] at h
    contradiction
  | case13 depth current parts c rest' _ _ _ hcomma hcurrent ih =>
    obtain rfl := ScanMode.at_none hmode
    obtain ⟨rfl, rfl⟩ := hcomma
    rw [splitFrom_comma hcurrent] at h
    obtain ⟨found, hresult, first, others, hs, hfound, hfirst, hothers, hread, hscans⟩ := ih hmode h
    rw [List.append_assoc] at hresult
    refine ⟨_, hresult, [], first :: others, ?_, ?_, by simpa using hcurrent, ?_, rfl, ?_⟩
    · rw [hs]
      simp
    · rw [hfound]
      simp
    · exact List.forall_mem_cons.mpr ⟨hfirst, hothers⟩
    · exact List.forall_mem_cons.mpr ⟨hread, hscans⟩
  | case14 depth current parts c rest' hquote hopen hclose hcomma ih =>
    obtain rfl := ScanMode.at_none hmode
    rw [splitFrom_code, if_neg hquote, if_neg hopen, if_neg hclose, if_neg hcomma] at h
    obtain ⟨found, hresult, hpieces⟩ := ih hmode h
    exact ⟨found, hresult, hpieces.cons (scanStep_other hquote hopen hclose hcomma)⟩

/-- A text that the automaton reads to the top level is a single argument. -/
theorem splitFrom_of_scan (hmode : mode.At q) (h : scanText mode depth s = some (.code, 0))
    (hne : strip (current ++ s) ≠ []) :
    splitFrom value q depth current parts s = .ok (parts ++ [strip (current ++ s)]) := by
  induction q, depth, current, parts, s using splitFrom.induct generalizing mode with
  | case1 =>
    obtain ⟨hq, rfl⟩ := ScanMode.at_some hmode
    cases h
  | case2 =>
    obtain ⟨hq, rfl⟩ := ScanMode.at_some hmode
    rw [scanText_cons scanStep_escape] at h
    cases h
  | case3 q depth current parts d rest' ih =>
    obtain ⟨hq, rfl⟩ := ScanMode.at_some hmode
    rw [scanText_cons scanStep_escape, scanText_cons scanStep_escaped] at h
    have hinside : (ScanMode.inside q hq).At (some q) := rfl
    have happend : current ++ '\\' :: d :: rest' = current ++ ['\\', d] ++ rest' := by simp
    rw [happend] at hne ⊢
    rw [splitFrom_escape, ih hinside h hne]
  | case4 q depth current parts c rest' hc ih =>
    obtain ⟨hq, rfl⟩ := ScanMode.at_some hmode
    obtain ⟨next, hstep, hnext⟩ := scanStep_within hc
    rw [scanText_cons hstep] at h
    rw [List.append_cons current] at hne ⊢
    rw [splitFrom_inside hc, ih hnext h hne]
  | case5 depth current parts hdepth =>
    obtain rfl := ScanMode.at_none hmode
    rw [scanText, Option.some.injEq, Prod.mk.injEq] at h
    exact absurd h.2 hdepth
  | case6 depth current parts hdepth hcurrent =>
    rw [List.append_nil] at hne
    exact absurd hcurrent hne
  | case7 depth current parts hdepth hcurrent =>
    rw [List.append_nil, splitFrom_stop, if_neg hdepth, if_neg hcurrent]
  | case8 depth current parts c rest' hquote ih =>
    obtain rfl := ScanMode.at_none hmode
    rw [scanText_cons (scanStep_quote hquote)] at h
    have hinside : (ScanMode.inside c hquote).At (some c) := rfl
    rw [List.append_cons current] at hne ⊢
    rw [splitFrom_quote hquote, ih hinside h hne]
  | case9 depth current parts rest' _ ih =>
    obtain rfl := ScanMode.at_none hmode
    rw [scanText_cons scanStep_open] at h
    rw [List.append_cons current] at hne ⊢
    rw [splitFrom_open, ih hmode h hne]
  | case10 current parts rest' _ _ =>
    obtain rfl := ScanMode.at_none hmode
    cases h
  | case11 depth current parts rest' hdepth _ _ ih =>
    obtain rfl := ScanMode.at_none hmode
    rw [scanText_cons (scanStep_close hdepth)] at h
    rw [List.append_cons current] at hne ⊢
    rw [splitFrom_code, if_neg (by decide), if_neg (by decide), if_pos rfl, if_neg hdepth,
      ih hmode h hne]
  | case12 depth current parts c rest' hquote hopen hclose hcomma hcurrent =>
    obtain rfl := ScanMode.at_none hmode
    obtain ⟨rfl, rfl⟩ := hcomma
    cases h
  | case13 depth current parts c rest' _ _ _ hcomma hcurrent ih =>
    obtain rfl := ScanMode.at_none hmode
    obtain ⟨rfl, rfl⟩ := hcomma
    cases h
  | case14 depth current parts c rest' hquote hopen hclose hcomma ih =>
    obtain rfl := ScanMode.at_none hmode
    rw [scanText_cons (scanStep_other hquote hopen hclose hcomma)] at h
    rw [List.append_cons current] at hne ⊢
    rw [splitFrom_code, if_neg hquote, if_neg hopen, if_neg hclose, if_neg hcomma, ih hmode h hne]

end Pieces

section Arguments

variable {s t u : Text} {found found' : List Text}

/-- An argument is a text without surrounding white space that is read to the top level. -/
theorem argument_iff : Argument t ↔ Scans t ∧ Solid t ∧ t ≠ [] := by
  constructor
  · intro h
    have hmode : ScanMode.code.At none := trivial
    obtain ⟨found, hfound, first, others, hs, hpieces, -, -, hread, -⟩ :=
      splitFrom_scanned hmode (splitTypeArguments_single h)
    rw [List.nil_append] at hfound
    rw [← hfound, List.cons.injEq] at hpieces
    have hnil : others = [] := List.map_eq_nil_iff.mp hpieces.2.symm
    rw [hnil, List.flatMap_nil, List.append_nil] at hs
    rw [hs]
    refine ⟨hread, ?_⟩
    rw [← hs]
    exact ⟨h.solid, h.nonempty⟩
  · rintro ⟨hscans, hsolid, hne⟩
    have hmode : ScanMode.code.At none := trivial
    have hstrip : strip ([] ++ t) = t := strip_of_solid hsolid
    have hsplit : splitTypeArguments t = .ok [t] := by
      have hne' : strip ([] ++ t) ≠ [] := by
        rw [hstrip]
        exact hne
      have hread : splitTypeArguments t = .ok ([] ++ [strip ([] ++ t)]) :=
        splitFrom_of_scan hmode hscans hne'
      rwa [hstrip] at hread
    exact ⟨transparent_of_single hsplit, hsolid, hne⟩

/-- The splitter returns arguments. -/
theorem split_arguments (h : splitTypeArguments s = .ok found) : ∀ a ∈ found, Argument a := by
  have hmode : ScanMode.code.At none := trivial
  obtain ⟨all, hall, first, others, -, rfl, hfirst, hothers, hread, hscans⟩ :=
    splitFrom_scanned hmode h
  rw [List.nil_append] at hall hfirst
  rw [hall, List.nil_append, List.forall_mem_cons]
  have hpiece : ∀ p, Scans p → strip p ≠ [] → Argument (strip p) := fun p hp hne =>
    argument_iff.mpr ⟨hp.strip, solid_strip p, hne⟩
  refine ⟨hpiece first hread hfirst, ?_⟩
  intro a ha
  obtain ⟨p, hp, rfl⟩ := List.mem_map.mp ha
  exact hpiece p (hscans p hp) (hothers p hp)

theorem split_single_iff : splitTypeArguments t = .ok [t] ↔ Argument t :=
  ⟨fun h => split_arguments h t (List.mem_singleton_self t), splitTypeArguments_single⟩

/-- Text between the end of one argument and that of a longer one would show a comma or a
closing parenthesis at the top level. -/
theorem Argument.extension {m rest : Text} (ht : Argument t) (hu : Argument (t ++ m))
    (hrest : Separated (m ++ rest)) : m = [] := by
  by_contra hne
  have hscans := (argument_iff.mp hu).1
  rw [(argument_iff.mp ht).1.append] at hscans
  have hlast : ¬ ∀ c ∈ m, isSpace c = true := by
    intro hspaces
    have hmem := List.getLast_mem hne
    have hsolid := hu.solid.last (m.getLast hne) (by
      rw [List.getLast?_append_of_ne_nil _ hne, List.getLast?_eq_getLast_of_ne_nil hne])
    rw [hspaces _ hmem] at hsolid
    contradiction
  have hstrip : lstrip m ≠ [] := by
    intro hnil
    apply hlast
    unfold lstrip at hnil
    rwa [List.dropWhile_eq_nil_iff] at hnil
  refine not_scans_separated hstrip ?_ hscans
  intro c hc
  apply hrest c
  have hspaces : m ++ rest = m.takeWhile isSpace ++ (lstrip m ++ rest) := by
    rw [← List.append_assoc]
    congr 1
    exact List.takeWhile_append_dropWhile.symm
  rw [hspaces]
  unfold lstrip at hstrip hc ⊢
  rw [List.dropWhile_append_of_pos fun c hc => List.mem_takeWhile_imp hc]
  cases hdrop : m.dropWhile isSpace with
  | nil => exact absurd hdrop hstrip
  | cons d rest' =>
    rw [hdrop] at hc
    obtain rfl := Option.some.inj hc
    have hnot := List.head?_dropWhile_not isSpace m
    rw [hdrop] at hnot
    have hd : isSpace d = false := by simpa using hnot
    rw [List.cons_append, List.dropWhile_cons_of_neg (by simp [hd])]
    rfl

/-- No other argument stands in the place of an argument. -/
theorem Argument.determined (h : Argument t) : Determined Argument t := by
  refine ⟨h.solid, h.nonempty, ?_⟩
  intro u rest rest' _ hu heq hrest hrest'
  obtain ⟨m, rfl, hm⟩ | ⟨m, rfl, hm⟩ := List.append_eq_append_iff.mp heq
  · rw [hm] at hrest
    rw [h.extension hu hrest, List.append_nil]
  · rw [hm] at hrest'
    rw [hu.extension h hrest', List.append_nil]

theorem topLevel_of_split (h : splitTypeArguments s = .ok found) : TopLevelFrom none 0 s := by
  have hfails := (splitTypeArguments_failsWhen s).2
  have hnot : ¬ ∃ e, splitTypeArguments s = .error e := by
    rw [h]
    rintro ⟨e, he⟩
    cases he
  rw [hfails, not_or, not_or] at hnot
  obtain ⟨hquote, hparens, -⟩ := hnot
  refine ⟨not_not.mp hquote, ?_⟩
  rw [Nat.zero_add]
  by_contra hcount
  exact hparens (Or.inl hcount)

/-- An argument list ends before the parenthesis that closes it. -/
theorem split_closed {m : Text} (h : splitTypeArguments s = .ok found) :
    splitTypeArguments (s ++ ')' :: m) ≠ .ok found' := by
  have hstands : StandsIn ')' none 0 (s ++ ')' :: m) := ⟨s, m, rfl, topLevel_of_split h⟩
  have hfails := (splitTypeArguments_failsWhen (s ++ ')' :: m)).2
  obtain ⟨e, he⟩ := hfails.mpr (Or.inr (Or.inl (Or.inr hstands)))
  rw [he]
  simp

theorem split_unique {s' rest rest' : Text} (h : splitTypeArguments s = .ok found)
    (h' : splitTypeArguments s' = .ok found') (heq : s ++ ')' :: rest = s' ++ ')' :: rest') :
    s = s' := by
  obtain ⟨m, rfl, hm⟩ | ⟨m, rfl, hm⟩ := List.append_eq_append_iff.mp heq
  · cases m with
    | nil => rw [List.append_nil]
    | cons c m =>
      obtain rfl := (List.cons.inj hm).1
      exact absurd h' (split_closed h)
  · cases m with
    | nil => rw [List.append_nil]
    | cons c m =>
      obtain rfl := (List.cons.inj hm).1
      exact absurd h (split_closed h')

end Arguments

end RayClickHouse.TypeText
