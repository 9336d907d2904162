import RayClickHouse.Lexical
import RayClickHouse.TypeRoundTrip

/-!
What the splitter can make of a text that starts with a declaration. A property
determines a declaration when no other text with the property can be read in its
place, up to the next comma or closing parenthesis. Applying a name to determined
arguments gives a determined declaration again.
-/
namespace RayClickHouse.TypeText

open Text Lexical

section Spaces

theorem trim_decompose (p : Char → Bool) (s : Text) :
    ∃ before after, s = before ++ (s.dropWhile p).rdropWhile p ++ after ∧
      (∀ c ∈ before, p c = true) ∧ ∀ c ∈ after, p c = true := by
  refine ⟨s.takeWhile p, (s.dropWhile p).rtakeWhile p, ?_, ?_, ?_⟩
  · rw [List.append_assoc, List.rdropWhile_append_rtakeWhile]
    exact List.takeWhile_append_dropWhile.symm
  · exact fun c hc => List.mem_takeWhile_imp hc
  · exact fun c hc => List.mem_rtakeWhile_imp hc

theorem trim_head (p : Char → Bool) (s : Text) :
    ∀ c, ((s.dropWhile p).rdropWhile p).head? = some c → p c = false := by
  intro c hc
  obtain ⟨rest, hrest⟩ := List.rdropWhile_prefix p (s.dropWhile p)
  have hhead : (s.dropWhile p).head? = some c := by
    rw [← hrest, List.head?_append, hc]
    rfl
  have hnot := List.head?_dropWhile_not p s
  rw [hhead] at hnot
  simpa using hnot

theorem trim_last (p : Char → Bool) (s : Text) :
    ∀ c, ((s.dropWhile p).rdropWhile p).getLast? = some c → p c = false := by
  intro c hc
  have hne : (s.dropWhile p).rdropWhile p ≠ [] := by
    intro hnil
    rw [hnil] at hc
    contradiction
  have hlast := List.rdropWhile_last_not p (s.dropWhile p) hne
  rw [List.getLast?_eq_getLast_of_ne_nil hne, Option.some.injEq] at hc
  rw [← hc]
  exact Bool.eq_false_iff.mpr hlast

theorem strip_decompose (s : Text) : ∃ before after, s = before ++ strip s ++ after ∧
    (∀ c ∈ before, isSpace c = true) ∧ ∀ c ∈ after, isSpace c = true :=
  trim_decompose isSpace s

theorem solid_strip (s : Text) : Solid (strip s) := ⟨trim_head isSpace s, trim_last isSpace s⟩

theorem takeWhile_append_stop {p : Char → Bool} {l s : Text} (hl : ∀ c ∈ l, p c = true)
    (hs : ∀ c, s.head? = some c → p c = false) :
    (l ++ s).takeWhile p = l ∧ (l ++ s).dropWhile p = s := by
  rw [List.takeWhile_append_of_pos hl, List.dropWhile_append_of_pos hl]
  cases s with
  | nil => simp
  | cons c rest => simp [hs c rfl]

/-- A text splits in one way only into characters of a class and a rest that starts
outside it. -/
theorem span_unique {p : Char → Bool} {l l' s s' : Text} (h : l ++ s = l' ++ s')
    (hl : ∀ c ∈ l, p c = true) (hl' : ∀ c ∈ l', p c = true)
    (hs : ∀ c, s.head? = some c → p c = false) (hs' : ∀ c, s'.head? = some c → p c = false) :
    l = l' ∧ s = s' := by
  obtain ⟨htake, hdrop⟩ := takeWhile_append_stop hl hs
  obtain ⟨htake', hdrop'⟩ := takeWhile_append_stop hl' hs'
  rw [h] at htake hdrop
  exact ⟨htake.symm.trans htake', hdrop.symm.trans hdrop'⟩

end Spaces

def Separated (rest : Text) : Prop := ∀ c, (lstrip rest).head? = some c → c = ',' ∨ c = ')'

def Satisfy (qs : List (Text → Prop)) (arguments : List Text) : Prop :=
  List.Forall₂ (fun q a => q a) qs arguments

/-- No other text with the property can be read in the place of this one. -/
structure Determined (q : Text → Prop) (t : Text) : Prop where
  solid : Solid t
  nonempty : t ≠ []
  unique : ∀ u rest rest', Solid u → q u → t ++ rest = u ++ rest' → Separated rest →
    Separated rest' → u = t

section Pieces

/-- The arguments are the pieces of a text between some of its commas, stripped; the
first piece goes on from what was read before. -/
def PiecesOf (current s : Text) (found : List Text) : Prop :=
  ∃ (first : Text) (others : List Text), s = first ++ others.flatMap (',' :: ·) ∧
    found = strip (current ++ first) :: others.map strip ∧
    strip (current ++ first) ≠ [] ∧ ∀ o ∈ others, strip o ≠ []

theorem PiecesOf.cons {current s : Text} {c : Char} {found : List Text}
    (h : PiecesOf (current ++ [c]) s found) : PiecesOf current (c :: s) found := by
  obtain ⟨first, others, hs, hfound, hfirst, hothers⟩ := h
  have happend : current ++ c :: first = current ++ [c] ++ first := by simp
  refine ⟨c :: first, others, ?_, ?_, ?_, hothers⟩
  · rw [hs, List.cons_append]
  · rw [happend]
    exact hfound
  · rw [happend]
    exact hfirst

theorem splitFrom_pieces {value current s : Text} {q : Option Char} {depth : ℕ}
    {parts result : List Text} (h : splitFrom value q depth current parts s = .ok result) :
    ∃ found, result = parts ++ found ∧ PiecesOf current s found := by
  induction q, depth, current, parts, s using splitFrom.induct with
  | case1 =>
    change unbalanced _ = _ at h
    simp [unbalanced, Outcome.raise] at h
  | case2 =>
    change unbalanced _ = _ at h
    simp [unbalanced, Outcome.raise] at h
  | case3 q depth current parts d rest' ih =>
    rw [splitFrom_escape] at h
    obtain ⟨found, hresult, hpieces⟩ := ih h
    refine ⟨found, hresult, PiecesOf.cons (PiecesOf.cons ?_)⟩
    rw [List.append_assoc]
    exact hpieces
  | case4 q depth current parts c rest' hc ih =>
    rw [splitFrom_inside hc] at h
    obtain ⟨found, hresult, hpieces⟩ := ih h
    exact ⟨found, hresult, hpieces.cons⟩
  | case5 depth current parts hdepth =>
    rw [splitFrom, if_pos hdepth] at h
    contradiction
  | case6 depth current parts hdepth hcurrent =>
    rw [splitFrom, if_neg hdepth, if_pos hcurrent] at h
    contradiction
  | case7 depth current parts hdepth hcurrent =>
    rw [splitFrom, if_neg hdepth, if_neg hcurrent] at h
    refine ⟨[strip current], (Except.ok.inj h).symm, [], [], rfl, ?_, ?_, by simp⟩
    · simp
    · simpa using hcurrent
  | case8 depth current parts c rest' hquote ih =>
    rw [splitFrom_quote hquote] at h
    obtain ⟨found, hresult, hpieces⟩ := ih h
    exact ⟨found, hresult, hpieces.cons⟩
  | case9 depth current parts rest' _ ih =>
    rw [splitFrom_open] at h
    obtain ⟨found, hresult, hpieces⟩ := ih h
    exact ⟨found, hresult, hpieces.cons⟩
  | case10 current parts rest' _ _ =>
    rw [splitFrom, if_neg (by decide), if_neg (by decide), if_pos rfl, if_pos rfl] at h
    contradiction
  | case11 depth current parts rest' hdepth _ _ ih =>
    rw [splitFrom, if_neg (by decide), if_neg (by decide), if_pos rfl, if_neg hdepth] at h
    obtain ⟨found, hresult, hpieces⟩ := ih h
    exact ⟨found, hresult, hpieces.cons⟩
  | case12 depth current parts c rest' hquote hopen hclose hcomma hcurrent =>
    rw [splitFrom, if_neg hquote, if_neg hopen, if_neg hclose, if_pos hcomma, if_pos hcurrent] at h
    contradiction
  | case13 depth current parts c rest' _ _ _ hcomma hcurrent ih =>
    obtain ⟨rfl, rfl⟩ := hcomma
    rw [splitFrom_comma hcurrent] at h
    obtain ⟨found, hresult, first, others, hs, hfound, hfirst, hothers⟩ := ih h
    rw [List.append_assoc] at hresult
    refine ⟨_, hresult, [], first :: others, ?_, ?_, by simpa using hcurrent, ?_⟩
    · rw [hs]
      simp
    · rw [hfound]
      simp
    · intro o ho
      rcases List.mem_cons.mp ho with rfl | ho
      · exact hfirst
      · exact hothers o ho
  | case14 depth current parts c rest' hquote hopen hclose hcomma ih =>
    rw [splitFrom, if_neg hquote, if_neg hopen, if_neg hclose, if_neg hcomma] at h
    obtain ⟨found, hresult, hpieces⟩ := ih h
    exact ⟨found, hresult, hpieces.cons⟩

theorem split_pieces {s : Text} {found : List Text} (h : splitTypeArguments s = .ok found) :
    PiecesOf [] s found := by
  obtain ⟨all, hall, hpieces⟩ := splitFrom_pieces h
  rw [List.nil_append] at hall
  rw [hall]
  exact hpieces

end Pieces

section Determined

variable {q : Text → Prop} {t : Text}

theorem separated_of_head {c : Char} {rest : Text} (hc : c = ',' ∨ c = ')') :
    Separated (c :: rest) := by
  intro d hd
  have hspace : isSpace c = false := by
    rcases hc with rfl | rfl
    · rfl
    · rfl
  unfold lstrip at hd
  rw [List.dropWhile_cons_of_neg (by simp [hspace])] at hd
  rw [← Option.some.inj hd]
  exact hc

theorem separated_spaces {spaces rest : Text} (h : ∀ c ∈ spaces, isSpace c = true)
    (hrest : Separated rest) : Separated (spaces ++ rest) := by
  unfold Separated lstrip at *
  rw [List.dropWhile_append_of_pos h]
  exact hrest

/-- A piece that starts like a determined text, up to white space, is that text. -/
theorem Determined.piece (h : Determined q t) {lead piece rest rest' : Text} {c c' : Char}
    (hlead : ∀ c ∈ lead, isSpace c = true) (hpiece : strip piece ≠ []) (hq : q (strip piece))
    (heq : lead ++ (t ++ c :: rest) = piece ++ c' :: rest') (hc : c = ',' ∨ c = ')')
    (hc' : c' = ',' ∨ c' = ')') :
    strip piece = t ∧ piece = lead ++ t ∧ c :: rest = c' :: rest' := by
  obtain ⟨before, after, hdecompose, hbefore, hafter⟩ := strip_decompose piece
  have hsolid := solid_strip piece
  have hstart : lead ++ (t ++ c :: rest) = before ++ (strip piece ++ (after ++ c' :: rest')) := by
    rw [heq]
    nth_rewrite 1 [hdecompose]
    simp only [List.append_assoc]
  have hhead : ∀ {s s' : Text}, Solid s → s ≠ [] → ∀ d, (s ++ s').head? = some d →
      isSpace d = false := by
    intro s s' hs hne d hd
    rw [List.head?_append_of_ne_nil _ hne] at hd
    exact hs.head d hd
  obtain ⟨hlead_eq, htail⟩ := span_unique hstart hlead hbefore (hhead h.solid h.nonempty)
    (hhead hsolid hpiece)
  have hstrip := h.unique _ _ _ hsolid hq htail (separated_of_head hc)
    (separated_spaces hafter (separated_of_head hc'))
  rw [hstrip, List.append_cancel_left_eq] at htail
  have hnil : after = [] := by
    cases after with
    | nil => rfl
    | cons d rest'' =>
      have hd := hafter d (List.mem_cons_self ..)
      have hcd : c = d := (List.cons.inj htail).1
      rw [← hcd] at hd
      rcases hc with rfl | rfl
      · contradiction
      · contradiction
  rw [hnil, List.nil_append] at htail
  refine ⟨hstrip, ?_, htail⟩
  rw [hdecompose, hstrip, hnil, hlead_eq, List.append_nil]

def Each (r : ℕ → Text → Prop) (arguments : List Text) : Prop :=
  ∀ i a, arguments[i]? = some a → r i a

theorem Each.head {r : ℕ → Text → Prop} {a : Text} {arguments : List Text}
    (h : Each r (a :: arguments)) : r 0 a := h 0 a rfl

theorem Each.tail {r : ℕ → Text → Prop} {a : Text} {arguments : List Text}
    (h : Each r (a :: arguments)) : Each (fun i => r (i + 1)) arguments :=
  fun i b hb => h (i + 1) b (by rwa [List.getElem?_cons_succ])

/-- Arguments with determined texts are cut out as these texts, however many of them the
other list has. -/
theorem pieces_agree {r : ℕ → Text → Prop} {ts : List Text} (h : Each (fun i => Determined (r i)) ts)
    {lead s rest rest' : Text} {found : List Text} (hne : ts ≠ [])
    (hlead : ∀ c ∈ lead, isSpace c = true) (hpieces : PiecesOf [] s found) (hq : Each r found)
    (heq : lead ++ (join ", ".toList ts ++ ')' :: rest) = s ++ ')' :: rest') :
    found = ts ∧ s = lead ++ join ", ".toList ts := by
  induction ts generalizing r lead s found with
  | nil => exact absurd rfl hne
  | cons t ts ih =>
    obtain ⟨first, others, hs, hfound, hfirst, hothers⟩ := hpieces
    rw [List.nil_append] at hfound hfirst
    rw [hfound] at hq
    have hdetermined := h.head
    cases ts with
    | nil =>
      rw [join_one] at heq ⊢
      cases others with
      | nil =>
        rw [List.flatMap_nil, List.append_nil] at hs
        rw [hs] at heq
        obtain ⟨hstrip, hpiece, -⟩ := hdetermined.piece hlead hfirst hq.head heq (Or.inr rfl)
          (Or.inr rfl)
        rw [hfound, hstrip, hs, hpiece]
        exact ⟨rfl, rfl⟩
      | cons o others =>
        rw [hs, List.flatMap_cons, List.append_assoc, List.append_assoc, List.cons_append] at heq
        obtain ⟨-, -, hrest⟩ := hdetermined.piece hlead hfirst hq.head heq (Or.inr rfl) (Or.inl rfl)
        cases (List.cons.inj hrest).1
    | cons t₂ ts =>
      have hjoin : join ", ".toList (t :: t₂ :: ts) =
          t ++ ',' :: ([' '] ++ join ", ".toList (t₂ :: ts)) := by
        rw [join_cons, join_cons, List.flatMap_cons]
        simp
      rw [hjoin] at heq
      cases others with
      | nil =>
        rw [List.flatMap_nil, List.append_nil] at hs
        rw [hs, List.append_assoc, List.cons_append] at heq
        obtain ⟨-, -, hrest⟩ := hdetermined.piece hlead hfirst hq.head heq (Or.inl rfl) (Or.inr rfl)
        cases (List.cons.inj hrest).1
      | cons o others =>
        rw [hs, List.flatMap_cons] at heq
        have hstep : lead ++ (t ++ ',' :: ([' '] ++ (join ", ".toList (t₂ :: ts) ++ ')' :: rest))) =
            first ++ ',' :: (o ++ others.flatMap (',' :: ·) ++ ')' :: rest') := by
          simpa only [List.append_assoc, List.cons_append] using heq
        obtain ⟨hstrip, hpiece, hrest⟩ := hdetermined.piece hlead hfirst hq.head hstep (Or.inl rfl)
          (Or.inl rfl)
        have hpieces : PiecesOf [] (o ++ others.flatMap (',' :: ·)) ((o :: others).map strip) :=
          ⟨o, others, rfl, rfl, hothers o (List.mem_cons_self ..),
            fun p hp => hothers p (List.mem_cons_of_mem _ hp)⟩
        obtain ⟨hmore, hmore'⟩ := ih h.tail (List.cons_ne_nil _ _) (by simp [isSpace]) hpieces
          hq.tail (List.cons.inj hrest).2
        rw [hfound, hstrip, hmore, hs, hpiece, List.flatMap_cons, hjoin]
        refine ⟨rfl, ?_⟩
        simp only [List.append_assoc, List.cons_append] at hmore' ⊢
        rw [hmore']

/-- A type reads as a bare name or as a name applied to arguments. -/
theorem parseType_cases {u : Text} {parsed : ClickHouseType} (hu : Solid u)
    (h : parseType u = .ok parsed) :
    ('(' ∉ u ∧ parsed = ⟨u, []⟩) ∨ ∃ before x, u = before ++ '(' :: (x ++ [')']) ∧
      '(' ∉ before ∧ parsed.name = strip before ∧
      splitTypeArguments x = .ok parsed.arguments := by
  unfold parseType at h
  rw [strip_of_solid hu] at h
  by_cases hnil : u = []
  · rw [if_pos hnil] at h
    contradiction
  · rw [if_neg hnil] at h
    by_cases hopen : '(' ∈ u
    · right
      obtain ⟨before, after, rfl, hbefore⟩ := List.eq_append_cons_of_mem hopen
      rw [splitOnce_paren hbefore] at h
      simp only at h
      split at h
      · rename_i hlast
        obtain ⟨arguments, hsplit, hparsed⟩ := Except.bind_eq_ok.mp h
        have hne : after ≠ [] := by
          rintro rfl
          contradiction
        refine ⟨before, after.dropLast, ?_, hbefore, ?_, ?_⟩
        · have hget : after.getLast hne = ')' := by
            rw [List.getLast?_eq_getLast_of_ne_nil hne] at hlast
            exact Option.some.inj hlast
          rw [← hget, List.dropLast_append_getLast]
        · rw [← Except.ok.inj hparsed]
        · rw [← Except.ok.inj hparsed]
          exact hsplit
      · contradiction
    · left
      rw [splitOnce_paren_none hopen] at h
      exact ⟨hopen, (Except.ok.inj h).symm⟩

/-- A name is read from the start of a text up to what cannot belong to a name. -/
theorem name_unique {name before rest rest' : Text} (hname : isIdentifier name = true)
    (hbefore : ∀ c ∈ strip before, isIdentPart c = true)
    (hhead : ∀ c, before.head? = some c → isSpace c = false)
    (hrest : ∀ c, rest.head? = some c → isIdentPart c = false)
    (hrest' : ∀ c, rest'.head? = some c → isIdentPart c = false)
    (heq : name ++ rest = before ++ rest') :
    strip before = name ∧ ∃ after, before = name ++ after ∧ (∀ c ∈ after, isSpace c = true) ∧
      rest = after ++ rest' := by
  obtain ⟨lead, after, hdecompose, hlead, hafter⟩ := strip_decompose before
  have hnil : lead = [] := by
    cases lead with
    | nil => rfl
    | cons c more =>
      have hc := hhead c (by rw [hdecompose]; rfl)
      rw [hlead c (List.mem_cons_self ..)] at hc
      contradiction
  rw [hnil, List.nil_append] at hdecompose
  have hstop : ∀ c, (after ++ rest').head? = some c → isIdentPart c = false := by
    intro c hc
    cases after with
    | nil => exact hrest' c hc
    | cons d more =>
      rw [← Option.some.inj hc]
      by_contra hpart
      rw [Bool.not_eq_false] at hpart
      have hspace := Ddl.isSpace_of_isIdentPart hpart
      rw [hafter d (List.mem_cons_self ..)] at hspace
      contradiction
  have hfull : name ++ rest = strip before ++ (after ++ rest') := by
    rw [heq]
    nth_rewrite 1 [hdecompose]
    rw [List.append_assoc]
  obtain ⟨hstrip, hafter_eq⟩ := span_unique hfull (isIdentifier_mem hname) hbefore hrest hstop
  refine ⟨hstrip.symm, after, ?_, hafter, hafter_eq⟩
  rw [hstrip]
  exact hdecompose

def ReadsAs (q : Text → Prop) (name : Text) (r : List Text → Prop) : Prop :=
  ∀ u, Solid u → q u → ∃ parsed, parseType u = .ok parsed ∧
    (∀ c ∈ parsed.name, isIdentPart c = true) ∧ (parsed.name = name → r parsed.arguments)

theorem ReadsAs.imp {q : Text → Prop} {name : Text} {r r' : List Text → Prop}
    (h : ReadsAs q name r) (himp : ∀ arguments, r arguments → r' arguments) : ReadsAs q name r' := by
  intro u hu hq
  obtain ⟨parsed, hparsed, hpart, hr⟩ := h u hu hq
  exact ⟨parsed, hparsed, hpart, fun hname => himp _ (hr hname)⟩

theorem identPart_head {rest : Text} {c : Char} (hc : isIdentPart c = false) :
    ∀ d, (c :: rest).head? = some d → isIdentPart d = false := by
  intro d hd
  rw [← Option.some.inj hd]
  exact hc

theorem separated_head {rest : Text} (h : Separated rest) :
    ∀ c, rest.head? = some c → isIdentPart c = false := by
  intro c hc
  by_contra hpart
  rw [Bool.not_eq_false] at hpart
  have hstay : lstrip rest = rest := by
    cases rest with
    | nil => rfl
    | cons d more =>
      rw [Option.some.inj hc]
      unfold lstrip
      rw [List.dropWhile_cons_of_neg (by simp [Ddl.isSpace_of_isIdentPart hpart])]
  rcases h c (by rw [hstay]; exact hc) with rfl | rfl
  · contradiction
  · contradiction

theorem no_spaces : ∀ c ∈ ([] : Text), isSpace c = true := by simp

theorem not_separated_open {spaces rest : Text} (h : ∀ c ∈ spaces, isSpace c = true) :
    ¬ Separated (spaces ++ '(' :: rest) := by
  intro hseparated
  have hhead : (lstrip (spaces ++ '(' :: rest)).head? = some '(' := by
    unfold lstrip
    rw [List.dropWhile_append_of_pos h, List.dropWhile_cons_of_neg (by decide)]
    rfl
  rcases hseparated '(' hhead with h | h
  · contradiction
  · contradiction

/-- A bare name is determined by a property that reads as a name. -/
theorem Determined.name {q : Text → Prop} {name : Text} {r : List Text → Prop}
    (hname : isIdentifier name = true) (hreads : ReadsAs q name r) : Determined q name := by
  have hargument := Ddl.argument_identifier hname
  refine ⟨hargument.solid, hargument.nonempty, ?_⟩
  intro u rest rest' hu hq heq hrest hrest'
  obtain ⟨parsed, hparsed, hpart, -⟩ := hreads u hu hq
  rcases parseType_cases hu hparsed with ⟨-, rfl⟩ | ⟨before, x, rfl, -, hstrip, -⟩
  · obtain ⟨hstrip, -⟩ := name_unique hname (by rw [strip_of_solid hu]; exact hpart) hu.head
      (separated_head hrest) (separated_head hrest') heq
    rw [← hstrip, strip_of_solid hu]
  · have hhead : ∀ c, before.head? = some c → isSpace c = false := by
      intro c hc
      apply hu.head c
      rw [List.head?_append, hc]
      rfl
    rw [List.append_assoc] at heq
    obtain ⟨-, after, -, hspaces, hafter⟩ := name_unique hname (by rw [← hstrip]; exact hpart) hhead
      (separated_head hrest) (identPart_head (by decide)) heq
    rw [hafter] at hrest
    exact absurd hrest (not_separated_open hspaces)

theorem solid_before {before x : Text} (hu : Solid (before ++ '(' :: x)) :
    ∀ c, before.head? = some c → isSpace c = false := by
  intro c hc
  apply hu.head c
  rw [List.head?_append, hc]
  rfl

theorem call_append (name arguments rest : Text) :
    call name arguments ++ rest = name ++ '(' :: (arguments ++ ')' :: rest) := by
  unfold TypeText.call
  simp

/-- What is read in the place of a call is a call of the same name, whose arguments
end where those of the first one do. -/
theorem call_cases {q : Text → Prop} {name arguments u rest rest' : Text}
    {r : List Text → Prop} (hname : isIdentifier name = true) (hreads : ReadsAs q name r)
    (hu : Solid u) (hq : q u) (heq : call name arguments ++ rest = u ++ rest')
    (hrest' : Separated rest') :
    ∃ x found, u = call name x ∧ splitTypeArguments x = .ok found ∧ r found ∧
      arguments ++ ')' :: rest = x ++ ')' :: rest' := by
  obtain ⟨parsed, hparsed, hpart, harguments⟩ := hreads u hu hq
  rw [call_append] at heq
  rcases parseType_cases hu hparsed with ⟨-, rfl⟩ | ⟨before, x, rfl, -, hstrip, hsplit⟩
  · obtain ⟨-, after, -, hspaces, hafter⟩ := name_unique hname
      (by rw [strip_of_solid hu]; exact hpart) hu.head (identPart_head (by decide))
      (separated_head hrest') heq
    have hnil : after = [] := by
      cases after with
      | nil => rfl
      | cons d more =>
        have hd := hspaces d (List.mem_cons_self ..)
        rw [← (List.cons.inj hafter).1] at hd
        contradiction
    rw [hnil, List.nil_append] at hafter
    rw [← hafter] at hrest'
    exact absurd hrest' (not_separated_open no_spaces)
  · have hcall : before ++ '(' :: (x ++ [')']) ++ rest' = before ++ '(' :: (x ++ ')' :: rest') := by
      simp
    rw [hcall] at heq
    obtain ⟨hbefore, after, hafter, hspaces, htail⟩ := name_unique hname
      (by rw [← hstrip]; exact hpart) (solid_before hu) (identPart_head (by decide))
      (identPart_head (by decide)) heq
    have hnil : after = [] := by
      cases after with
      | nil => rfl
      | cons d more =>
        have hd := hspaces d (List.mem_cons_self ..)
        rw [← (List.cons.inj htail).1] at hd
        contradiction
    rw [hnil, List.append_nil] at hafter
    rw [hnil, List.nil_append, List.cons.injEq] at htail
    refine ⟨x, parsed.arguments, ?_, hsplit, harguments (hstrip.trans hbefore), htail.2⟩
    rw [hafter]
    unfold TypeText.call
    simp

/-- What is read in the place of a call with determined arguments has these arguments. -/
theorem listed_cases {q : Text → Prop} {name u rest rest' : Text} {r : ℕ → Text → Prop}
    {ts : List Text} (hname : isIdentifier name = true)
    (hts : Each (fun i => Determined (r i)) ts) (hne : ts ≠ [])
    (hreads : ReadsAs q name (Each r)) (hu : Solid u) (hq : q u)
    (heq : TypeText.call name (join ", ".toList ts) ++ rest = u ++ rest') (hrest' : Separated rest') :
    u = TypeText.call name (join ", ".toList ts) ∧
      splitTypeArguments (join ", ".toList ts) = .ok ts ∧ Each r ts := by
  obtain ⟨x, found, rfl, hsplit, hfound, hequal⟩ := call_cases hname hreads hu hq heq hrest'
  obtain ⟨rfl, hx⟩ := pieces_agree hts hne no_spaces (split_pieces hsplit) hfound hequal
  rw [List.nil_append] at hx
  subst hx
  exact ⟨rfl, hsplit, hfound⟩

/-- A name applied to determined arguments is determined. -/
theorem Determined.listed {q : Text → Prop} {name : Text} {r : ℕ → Text → Prop} {ts : List Text}
    (hname : isIdentifier name = true) (hts : Each (fun i => Determined (r i)) ts) (hne : ts ≠ [])
    (hreads : ReadsAs q name (Each r)) :
    Determined q (TypeText.call name (join ", ".toList ts)) := by
  have hargument := Ddl.argument_identifier hname
  refine ⟨solid_call hargument.solid hargument.nonempty, by simp [TypeText.call], ?_⟩
  intro u rest rest' hu hq heq _ hrest'
  exact (listed_cases hname hts hne hreads hu hq heq hrest').1

/-- A call with the property is split into its arguments, and these have their properties. -/
theorem listed_arguments {q : Text → Prop} {name : Text} {r : ℕ → Text → Prop} {ts : List Text}
    (hname : isIdentifier name = true) (hts : Each (fun i => Determined (r i)) ts) (hne : ts ≠ [])
    (hreads : ReadsAs q name (Each r)) (hq : q (TypeText.call name (join ", ".toList ts))) :
    splitTypeArguments (join ", ".toList ts) = .ok ts ∧ Each r ts := by
  have hargument := Ddl.argument_identifier hname
  have hsolid : Solid (TypeText.call name (join ", ".toList ts)) :=
    solid_call hargument.solid hargument.nonempty
  have hnil : Separated [] := by
    intro c hc
    contradiction
  exact (listed_cases hname hts hne hreads hsolid hq rfl hnil).2

def At (qs : List (Text → Prop)) (i : ℕ) (a : Text) : Prop := ∀ q, qs[i]? = some q → q a

theorem each_at {qs : List (Text → Prop)} {arguments : List Text} (h : Satisfy qs arguments) :
    Each (At qs) arguments := by
  intro i a ha q hq
  unfold Satisfy at h
  rw [List.forall₂_iff_get] at h
  obtain ⟨hi, rfl⟩ := List.getElem?_eq_some_iff.mp ha
  obtain ⟨hi', rfl⟩ := List.getElem?_eq_some_iff.mp hq
  exact h.2 i hi' hi

theorem satisfy_of_each {qs : List (Text → Prop)} {arguments : List Text}
    (hlength : qs.length = arguments.length) (h : Each (At qs) arguments) :
    Satisfy qs arguments := by
  unfold Satisfy
  rw [List.forall₂_iff_get]
  refine ⟨hlength, ?_⟩
  intro i hi hi'
  exact h i _ (List.getElem?_eq_getElem hi') _ (List.getElem?_eq_getElem hi)

theorem determined_at {qs : List (Text → Prop)} {ts : List Text}
    (h : List.Forall₂ Determined qs ts) : Each (fun i => Determined (At qs i)) ts := by
  intro i t ht
  rw [List.forall₂_iff_get] at h
  obtain ⟨hi, rfl⟩ := List.getElem?_eq_some_iff.mp ht
  have hi' : i < qs.length := by
    rw [h.1]
    exact hi
  have hdetermined := h.2 i hi' hi
  refine ⟨hdetermined.solid, hdetermined.nonempty, ?_⟩
  intro u rest rest' hu hq heq hrest hrest'
  exact hdetermined.unique u rest rest' hu (hq _ (List.getElem?_eq_getElem hi')) heq hrest hrest'

theorem Determined.call {q : Text → Prop} {name : Text} {qs : List (Text → Prop)} {ts : List Text}
    (hname : isIdentifier name = true) (hts : List.Forall₂ Determined qs ts) (hne : ts ≠ [])
    (hreads : ReadsAs q name (Satisfy qs)) : Determined q (call name (join ", ".toList ts)) :=
  Determined.listed hname (determined_at hts) hne (hreads.imp fun _ => each_at)

/-- The arguments of a call with the property have their properties. -/
theorem call_arguments {q : Text → Prop} {name : Text} {qs : List (Text → Prop)} {ts : List Text}
    (hname : isIdentifier name = true) (hts : List.Forall₂ Determined qs ts) (hne : ts ≠ [])
    (hreads : ReadsAs q name (Satisfy qs)) (hq : q (call name (join ", ".toList ts))) :
    Satisfy qs ts :=
  satisfy_of_each hts.length_eq
    (listed_arguments hname (determined_at hts) hne (hreads.imp fun _ => each_at) hq).2

theorem satisfy_single {q : Text → Prop} {arguments : List Text} :
    Satisfy [q] arguments ↔ ∃ argument, arguments = [argument] ∧ q argument := by
  constructor
  · intro h
    obtain ⟨argument, more, hq, hmore, rfl⟩ := List.forall₂_cons_left_iff.mp h
    rw [List.forall₂_nil_left_iff.mp hmore]
    exact ⟨argument, rfl, hq⟩
  · rintro ⟨argument, rfl, hq⟩
    exact List.Forall₂.cons hq List.Forall₂.nil

theorem Determined.call_one {q q' : Text → Prop} {name t : Text} (hname : isIdentifier name = true)
    (h : Determined q' t) (hreads : ReadsAs q name (Satisfy [q'])) :
    Determined q (TypeText.call name t) := by
  have hcall := Determined.call hname (List.Forall₂.cons h List.Forall₂.nil)
    (List.cons_ne_nil t []) hreads
  rwa [join_one] at hcall

end Determined

end RayClickHouse.TypeText
