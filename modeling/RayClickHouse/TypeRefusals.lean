import RayClickHouse.EngineText
import RayClickHouse.TypeTrees

/-!
The texts that are no argument list. The splitter refuses a text exactly when a quote is
left open, a parenthesis outside quotes has no partner, or nothing but white space stands
between two commas of the top level.
-/
namespace RayClickHouse.TypeText

open Text EngineScan

section Positions

def bare : Option Char → Text → Text
  | _, [] => []
  | some _, [_] => []
  | some q, c :: d :: rest =>
      if c = '\\' then bare (some q) rest
      else if c = q then bare none (d :: rest)
      else bare (some q) (d :: rest)
  | none, c :: rest => if isQuote c then bare (some c) rest else c :: bare none rest

def TopLevelFrom (quote : Option Char) (depth : ℕ) (s : Text) : Prop :=
  quoteAfter quote s = none ∧ depth + (bare quote s).count '(' = (bare quote s).count ')'

/-- The character stands at the top level of the text. -/
def StandsIn (x : Char) (quote : Option Char) (depth : ℕ) (s : Text) : Prop :=
  ∃ before after, s = before ++ x :: after ∧ TopLevelFrom quote depth before

/-- White space alone between two commas of the top level, or between one of them and an
end of the text; the first argument goes on from what was read before. -/
def EmptyFrom (quote : Option Char) (depth : ℕ) (current s : Text) : Prop :=
  ∃ before blank after, s = before ++ (blank ++ after) ∧ (∀ c ∈ blank, isSpace c = true) ∧
    ((before = [] ∧ ∀ c ∈ current, isSpace c = true) ∨
      ∃ b, before = b ++ [','] ∧ TopLevelFrom quote depth b) ∧
    (after = [] ∨ ∃ a, after = ',' :: a ∧ TopLevelFrom quote depth (before ++ blank))

def UnclosedQuote (text : Text) : Prop := quoteAfter none text ≠ none

/-- A parenthesis outside quotes is never closed, or closes nothing. -/
def UnbalancedParens (text : Text) : Prop :=
  (bare none text).count '(' ≠ (bare none text).count ')' ∨ StandsIn ')' none 0 text

def EmptyArgument (text : Text) : Prop := EmptyFrom none 0 [] text

/-- What reading a few characters does to a position: the rest is judged from the new
quote and depth, and no comma or closing parenthesis of the top level is passed. -/
structure Moves (quote : Option Char) (depth : ℕ) (w : Text) (quote' : Option Char)
    (depth' : ℕ) : Prop where
  level : ∀ s, TopLevelFrom quote depth (w ++ s) ↔ TopLevelFrom quote' depth' s
  inner : ∀ p c s, w = p ++ c :: s → TopLevelFrom quote depth p → c ≠ ',' ∧ c ≠ ')'

variable {quote quote' : Option Char} {depth depth' : ℕ} {w rest current : Text} {x : Char}

theorem Moves.standsIn (h : Moves quote depth w quote' depth') (hx : x = ',' ∨ x = ')') :
    StandsIn x quote depth (w ++ rest) ↔ StandsIn x quote' depth' rest := by
  constructor
  · intro ⟨before, after, heq, htop⟩
    obtain ⟨more, hbefore, hrest⟩ | ⟨more, hw, hafter⟩ := List.append_eq_append_iff.mp heq
    · rw [hbefore] at htop
      exact ⟨more, after, hrest, (h.level more).mp htop⟩
    · cases more with
      | nil =>
        rw [List.append_nil] at hw
        rw [← hw] at htop
        have hnil : TopLevelFrom quote' depth' [] := (h.level []).mp (by rwa [List.append_nil])
        exact ⟨[], after, hafter.symm, hnil⟩
      | cons c more =>
        rw [List.cons_append, List.cons.injEq] at hafter
        obtain ⟨hcomma, hclose⟩ := h.inner before c more hw htop
        rw [← hafter.1] at hcomma hclose
        exact (hx.elim hcomma hclose).elim
  · intro ⟨before, after, heq, htop⟩
    refine ⟨w ++ before, after, ?_, (h.level before).mpr htop⟩
    rw [heq, List.append_assoc]

theorem blank_append {s t : Text} : (∀ c ∈ s ++ t, isSpace c = true) ↔
    (∀ c ∈ s, isSpace c = true) ∧ ∀ c ∈ t, isSpace c = true := by
  simp only [List.mem_append, or_imp, forall_and]

theorem Moves.emptyFrom (h : Moves quote depth w quote' depth') :
    EmptyFrom quote depth current (w ++ rest) ↔ EmptyFrom quote' depth' (current ++ w) rest := by
  constructor
  · intro ⟨before, blank, after, heq, hblank, hstart, hstop⟩
    obtain ⟨hbefore, hcurrent⟩ | ⟨b, hbefore, hb⟩ := hstart
    · -- the first argument: either it goes on after the characters that were read
      rw [hbefore, List.nil_append] at heq hstop
      obtain ⟨more, hmore, hrest⟩ | ⟨more, hw, hafter⟩ := List.append_eq_append_iff.mp heq
      · rw [hmore] at hblank hstop
        obtain ⟨hread, hleft⟩ := blank_append.mp hblank
        refine ⟨[], more, after, hrest, hleft, Or.inl ⟨rfl, blank_append.mpr ⟨hcurrent, hread⟩⟩,
          hstop.imp_right fun ⟨a, ha, htop⟩ => ⟨a, ha, (h.level more).mp htop⟩⟩
      · cases more with
        | nil =>
          rw [List.append_nil] at hw
          rw [List.nil_append] at hafter
          rw [← hw] at hblank hstop
          refine ⟨[], [], after, hafter.symm, by simp,
            Or.inl ⟨rfl, blank_append.mpr ⟨hcurrent, hblank⟩⟩, ?_⟩
          refine hstop.imp_right fun ⟨a, ha, htop⟩ => ⟨a, ha, (h.level []).mp ?_⟩
          rwa [List.append_nil]
        | cons c more =>
          obtain hnil | ⟨a, ha, htop⟩ := hstop
          · rw [hnil] at hafter
            simp at hafter
          · rw [ha, List.cons_append, List.cons.injEq] at hafter
            exact absurd hafter.1.symm (h.inner blank c more hw htop).1
    · rw [hbefore, List.append_assoc] at heq
      obtain ⟨more, hmore, hrest⟩ | ⟨more, hw, hafter⟩ := List.append_eq_append_iff.mp heq
      · rw [hmore] at hb
        refine ⟨more ++ [','], blank, after, ?_, hblank, Or.inr ⟨more, rfl, (h.level more).mp hb⟩,
          ?_⟩
        · rw [hrest, List.append_assoc]
        · refine hstop.imp_right fun ⟨a, ha, htop⟩ => ⟨a, ha, (h.level _).mp ?_⟩
          rw [hbefore, hmore] at htop
          simpa using htop
      · cases more with
        | nil =>
          rw [List.append_nil] at hw
          rw [List.nil_append] at hafter
          refine ⟨[','], blank, after, hafter.symm, hblank, Or.inr ⟨[], rfl, (h.level []).mp ?_⟩, ?_⟩
          · rwa [List.append_nil, hw]
          · refine hstop.imp_right fun ⟨a, ha, htop⟩ => ⟨a, ha, (h.level _).mp ?_⟩
            rw [hbefore, ← hw] at htop
            simpa using htop
        | cons c more =>
          rw [List.cons_append, List.cons_append, List.cons.injEq] at hafter
          exact absurd hafter.1.symm (h.inner b c more hw hb).1
  · intro ⟨before, blank, after, heq, hblank, hstart, hstop⟩
    obtain ⟨hbefore, hcurrent⟩ | ⟨b, hbefore, hb⟩ := hstart
    · obtain ⟨hcurrent, hw⟩ := blank_append.mp hcurrent
      refine ⟨[], w ++ blank, after, ?_, blank_append.mpr ⟨hw, hblank⟩, Or.inl ⟨rfl, hcurrent⟩, ?_⟩
      · rw [heq, hbefore]
        simp
      · refine hstop.imp_right fun ⟨a, ha, htop⟩ => ⟨a, ha, (h.level blank).mpr ?_⟩
        rwa [hbefore] at htop
    · refine ⟨w ++ before, blank, after, ?_, hblank, Or.inr ⟨w ++ b, ?_, (h.level b).mpr hb⟩, ?_⟩
      · rw [heq, List.append_assoc]
      · rw [hbefore, List.append_assoc]
      · refine hstop.imp_right fun ⟨a, ha, htop⟩ => ⟨a, ha, ?_⟩
        rw [List.append_assoc]
        exact (h.level _).mpr htop

end Positions

section Steps

variable {q c d : Char} {depth : ℕ} {rest current : Text}

theorem quoteAfter_within (hc : c ≠ '\\') :
    quoteAfter (some q) (c :: rest) = quoteAfter (if c = q then none else some q) rest := by
  by_cases hq : c = q
  · rw [hq] at hc ⊢
    cases rest <;> simp [quoteAfter, hc]
  · cases rest <;> simp [quoteAfter, hc, hq]

theorem bare_within (hc : c ≠ '\\') :
    bare (some q) (c :: rest) = bare (if c = q then none else some q) rest := by
  by_cases hq : c = q
  · rw [hq] at hc ⊢
    cases rest <;> simp [bare, hc]
  · cases rest <;> simp [bare, hc, hq]

theorem bare_open (hc : isQuote c = true) : bare none (c :: rest) = bare (some c) rest := by
  cases rest <;> simp [bare, hc]

theorem bare_code (hc : isQuote c = false) : bare none (c :: rest) = c :: bare none rest := by
  cases rest <;> simp [bare, hc]

theorem not_topLevel_some {s : Text} (h : quoteAfter (some q) s = some q) :
    ¬TopLevelFrom (some q) depth s := by
  intro ⟨hclosed, _⟩
  rw [h] at hclosed
  contradiction

theorem topLevelFrom_nil : TopLevelFrom none depth [] ↔ depth = 0 := by
  simp [TopLevelFrom, quoteAfter, bare]

/-- The one place inside a single character is before it. -/
theorem inner_singleton {P : Text → Prop} {x : Char} (h : P [] → x ≠ ',' ∧ x ≠ ')') :
    ∀ p c s, [x] = p ++ c :: s → P p → c ≠ ',' ∧ c ≠ ')' := by
  intro p c s heq hp
  cases p with
  | nil =>
    rw [List.nil_append, List.cons.injEq] at heq
    rw [← heq.1]
    exact h hp
  | cons y p =>
    have hlength := congrArg List.length heq
    simp at hlength

namespace Moves

theorem within (hc : c ≠ '\\') :
    Moves (some q) depth [c] (if c = q then none else some q) depth where
  level s := by
    unfold TopLevelFrom
    rw [List.singleton_append, quoteAfter_within hc, bare_within hc]
  inner := inner_singleton fun h => absurd h (not_topLevel_some rfl)

theorem escape : Moves (some q) depth ['\\', d] (some q) depth where
  level s := by
    unfold TopLevelFrom
    rw [show ['\\', d] ++ s = '\\' :: d :: s from rfl, quoteAfter, if_pos rfl, bare, if_pos rfl]
  inner := by
    intro p c s heq hp
    exfalso
    cases p with
    | nil => exact not_topLevel_some rfl hp
    | cons y p =>
      rw [List.cons_append, List.cons.injEq] at heq
      cases p with
      | nil =>
        rw [← heq.1] at hp
        exact not_topLevel_some (by simp [quoteAfter]) hp
      | cons z p =>
        have hlength := congrArg List.length heq.2
        simp at hlength

theorem opening (hc : isQuote c = true) : Moves none depth [c] (some c) depth where
  level s := by
    unfold TopLevelFrom
    rw [List.singleton_append, quoteAfter_open hc, bare_open hc]
  inner := by
    apply inner_singleton
    intro _
    constructor
    · intro heq
      rw [heq] at hc
      contradiction
    · intro heq
      rw [heq] at hc
      contradiction

theorem parenOpen : Moves none depth ['('] none (depth + 1) where
  level s := by
    unfold TopLevelFrom
    rw [List.singleton_append, quoteAfter_code rfl, bare_code rfl, List.count_cons_self,
      List.count_cons_of_ne (by decide)]
    refine and_congr_right fun _ => ?_
    omega
  inner := inner_singleton fun _ => by decide

theorem parenClose : Moves none (depth + 1) [')'] none depth where
  level s := by
    unfold TopLevelFrom
    rw [List.singleton_append, quoteAfter_code rfl, bare_code rfl, List.count_cons_self,
      List.count_cons_of_ne (by decide)]
    refine and_congr_right fun _ => ?_
    omega
  inner := by
    apply inner_singleton
    intro h
    rw [topLevelFrom_nil] at h
    omega

theorem other (hquote : isQuote c = false) (hopen : c ≠ '(') (hclose : c ≠ ')')
    (hcomma : c ≠ ',' ∨ depth ≠ 0) : Moves none depth [c] none depth where
  level s := by
    unfold TopLevelFrom
    rw [List.singleton_append, quoteAfter_code hquote, bare_code hquote,
      List.count_cons_of_ne hopen, List.count_cons_of_ne hclose]
  inner := by
    apply inner_singleton
    intro h
    rw [topLevelFrom_nil] at h
    exact ⟨hcomma.resolve_right fun hdepth => hdepth h, hclose⟩

end Moves

def Refused (quote : Option Char) (depth : ℕ) (current s : Text) : Prop :=
  ¬TopLevelFrom quote depth s ∨ StandsIn ')' quote depth s ∨ EmptyFrom quote depth current s

theorem Moves.refused {quote quote' : Option Char} {depth' : ℕ} {w : Text}
    (h : Moves quote depth w quote' depth') :
    Refused quote depth current (w ++ rest) ↔ Refused quote' depth' (current ++ w) rest := by
  unfold Refused
  rw [h.level rest, h.standsIn (Or.inr rfl), h.emptyFrom]

theorem strip_eq_nil {s : Text} : strip s = [] ↔ ∀ c ∈ s, isSpace c = true := by
  constructor
  · intro h
    obtain ⟨before, after, hs, hbefore, hafter⟩ := strip_decompose s
    rw [h, List.append_nil] at hs
    rw [hs]
    exact blank_append.mpr ⟨hbefore, hafter⟩
  · intro h
    have hspaces := strip_spaces (s := []) h
    rw [List.append_nil] at hspaces
    exact hspaces

theorem topLevelFrom_comma {s : Text} :
    TopLevelFrom none depth (',' :: s) ↔ TopLevelFrom none depth s := by
  unfold TopLevelFrom
  rw [quoteAfter_code rfl, bare_code rfl, List.count_cons_of_ne (by decide),
    List.count_cons_of_ne (by decide)]

/-- A comma of the top level ends an argument and starts the next. -/
theorem emptyFrom_comma (hcurrent : ¬∀ c ∈ current, isSpace c = true) :
    EmptyFrom none 0 current (',' :: rest) ↔ EmptyFrom none 0 [] rest := by
  constructor
  · intro ⟨before, blank, after, heq, hblank, hstart, hstop⟩
    obtain ⟨_, hall⟩ | ⟨b, hbefore, hb⟩ := hstart
    · exact absurd hall hcurrent
    · rw [hbefore] at heq hstop
      cases b with
      | nil =>
        rw [List.nil_append, List.singleton_append, List.cons.injEq] at heq
        refine ⟨[], blank, after, heq.2, hblank, Or.inl ⟨rfl, by simp⟩, ?_⟩
        exact hstop.imp_right fun ⟨a, ha, htop⟩ => ⟨a, ha, topLevelFrom_comma.mp htop⟩
      | cons c b =>
        simp only [List.cons_append, List.cons.injEq] at heq hstop
        rw [← heq.1] at hb hstop
        refine ⟨b ++ [','], blank, after, heq.2, hblank,
          Or.inr ⟨b, rfl, topLevelFrom_comma.mp hb⟩, ?_⟩
        exact hstop.imp_right fun ⟨a, ha, htop⟩ => ⟨a, ha, topLevelFrom_comma.mp htop⟩
  · intro ⟨before, blank, after, heq, hblank, hstart, hstop⟩
    have hstop' : after = [] ∨ ∃ a, after = ',' :: a ∧
        TopLevelFrom none 0 (',' :: (before ++ blank)) :=
      hstop.imp_right fun ⟨a, ha, htop⟩ => ⟨a, ha, topLevelFrom_comma.mpr htop⟩
    refine ⟨',' :: before, blank, after, by rw [heq, List.cons_append], hblank, Or.inr ?_, hstop'⟩
    obtain ⟨hbefore, _⟩ | ⟨b, hbefore, hb⟩ := hstart
    · exact ⟨[], by rw [hbefore, List.nil_append], topLevelFrom_nil.mpr rfl⟩
    · exact ⟨',' :: b, by rw [hbefore, List.cons_append], topLevelFrom_comma.mpr hb⟩

theorem refused_comma (hcurrent : strip current ≠ []) :
    Refused none 0 current (',' :: rest) ↔ Refused none 0 [] rest := by
  have hstands : StandsIn ')' none 0 (',' :: rest) ↔ StandsIn ')' none 0 rest := by
    constructor
    · intro ⟨before, after, heq, htop⟩
      cases before with
      | nil =>
        have hne := (List.cons.inj heq).1
        contradiction
      | cons c before =>
        rw [List.cons_append, List.cons.injEq] at heq
        rw [← heq.1] at htop
        exact ⟨before, after, heq.2, topLevelFrom_comma.mp htop⟩
    · intro ⟨before, after, heq, htop⟩
      exact ⟨',' :: before, after, by rw [heq, List.cons_append], topLevelFrom_comma.mpr htop⟩
  unfold Refused
  rw [topLevelFrom_comma, hstands, emptyFrom_comma (fun h => hcurrent (strip_eq_nil.mpr h))]

end Steps

section Scan

variable {value current s : Text} {quote : Option Char} {depth : ℕ} {parts : List Text}

def FailsWhen (result : Outcome (List Text)) (P : Prop) : Prop :=
  (∀ e, result = .error e → e.kind = .schema) ∧ ((∃ e, result = .error e) ↔ P)

theorem FailsWhen.congr {result : Outcome (List Text)} {P Q : Prop} (h : FailsWhen result P)
    (hiff : Q ↔ P) : FailsWhen result Q :=
  ⟨h.1, h.2.trans hiff.symm⟩

theorem failsWhen_unbalanced {P : Prop} (hP : P) : FailsWhen (unbalanced value) P := by
  refine ⟨?_, iff_of_true ⟨_, rfl⟩ hP⟩
  intro e he
  rw [← Except.error.inj he]

theorem failsWhen_emptyArgument {P : Prop} (hP : P) : FailsWhen (emptyArgument value) P := by
  refine ⟨?_, iff_of_true ⟨_, rfl⟩ hP⟩
  intro e he
  rw [← Except.error.inj he]

theorem failsWhen_ok {P : Prop} (hP : ¬P) : FailsWhen (.ok parts) P :=
  ⟨fun _ he => by contradiction, iff_of_false (fun ⟨_, he⟩ => by contradiction) hP⟩

/-- The scan fails exactly where the rest of the text is refused. -/
theorem splitFrom_failsWhen :
    FailsWhen (splitFrom value quote depth current parts s) (Refused quote depth current s) := by
  induction quote, depth, current, parts, s using splitFrom.induct with
  | case1 q depth current parts =>
    exact failsWhen_unbalanced (Or.inl (not_topLevel_some rfl))
  | case2 q depth current parts =>
    exact failsWhen_unbalanced (Or.inl (not_topLevel_some (by simp [quoteAfter])))
  | case3 q depth current parts d rest' ih =>
    rw [splitFrom_escape]
    exact ih.congr Moves.escape.refused
  | case4 q depth current parts c rest' hc ih =>
    rw [splitFrom_inside hc]
    exact ih.congr (Moves.within hc).refused
  | case5 depth current parts hdepth =>
    rw [splitFrom_stop, if_pos hdepth]
    exact failsWhen_unbalanced (Or.inl fun h => hdepth (topLevelFrom_nil.mp h))
  | case6 depth current parts hdepth hcurrent =>
    rw [splitFrom_stop, if_neg hdepth, if_pos hcurrent]
    refine failsWhen_emptyArgument (Or.inr (Or.inr ⟨[], [], [], rfl, by simp, Or.inl ⟨rfl, ?_⟩,
      Or.inl rfl⟩))
    exact strip_eq_nil.mp hcurrent
  | case7 depth current parts hdepth hcurrent =>
    rw [splitFrom_stop, if_neg hdepth, if_neg hcurrent]
    apply failsWhen_ok
    intro h
    obtain htop | ⟨before, after, heq, _⟩ | ⟨before, blank, after, heq, _, hstart, _⟩ := h
    · exact htop (topLevelFrom_nil.mpr (not_not.mp hdepth))
    · simp at heq
    · obtain ⟨_, hall⟩ | ⟨b, hbefore, _⟩ := hstart
      · exact hcurrent (strip_eq_nil.mpr hall)
      · rw [hbefore] at heq
        simp at heq
  | case8 depth current parts c rest' hquote ih =>
    rw [splitFrom_quote hquote]
    exact ih.congr (Moves.opening hquote).refused
  | case9 depth current parts rest' _ ih =>
    rw [splitFrom_open]
    exact ih.congr Moves.parenOpen.refused
  | case10 current parts rest' _ _ =>
    rw [splitFrom, if_neg (by decide), if_neg (by decide), if_pos rfl, if_pos rfl]
    exact failsWhen_unbalanced (Or.inr (Or.inl ⟨[], rest', rfl, topLevelFrom_nil.mpr rfl⟩))
  | case11 depth current parts rest' hdepth _ _ ih =>
    obtain ⟨below, hbelow⟩ := Nat.exists_eq_succ_of_ne_zero hdepth
    rw [hbelow, Nat.succ_eq_add_one] at ih ⊢
    rw [splitFrom_close]
    exact ih.congr Moves.parenClose.refused
  | case12 depth current parts c rest' hquote hopen hclose hcomma hcurrent =>
    rw [splitFrom, if_neg hquote, if_neg hopen, if_neg hclose, if_pos hcomma, if_pos hcurrent]
    refine failsWhen_emptyArgument (Or.inr (Or.inr ⟨[], [], c :: rest', rfl, by simp,
      Or.inl ⟨rfl, strip_eq_nil.mp hcurrent⟩, Or.inr ⟨rest', ?_, topLevelFrom_nil.mpr hcomma.2⟩⟩))
    rw [hcomma.1]
  | case13 depth current parts c rest' _ _ _ hcomma hcurrent ih =>
    rw [hcomma.1, hcomma.2] at *
    rw [splitFrom_comma hcurrent]
    exact ih.congr (refused_comma hcurrent)
  | case14 depth current parts c rest' hquote hopen hclose hcomma ih =>
    rw [Bool.not_eq_true] at hquote
    have hother : c ≠ ',' ∨ depth ≠ 0 := not_and_or.mp hcomma
    rw [splitFrom_other hquote hopen hclose hother]
    exact ih.congr (Moves.other hquote hopen hclose hother).refused

/-- The splitter raises SchemaError on exactly the texts with an open quote, a parenthesis
without a partner or an empty argument. -/
theorem splitTypeArguments_failsWhen (text : Text) :
    FailsWhen (splitTypeArguments text)
      (UnclosedQuote text ∨ UnbalancedParens text ∨ EmptyArgument text) := by
  have hscan : FailsWhen (splitTypeArguments text) (Refused none 0 [] text) := splitFrom_failsWhen
  apply hscan.congr
  unfold Refused TopLevelFrom UnclosedQuote UnbalancedParens EmptyArgument
  rw [not_and_or, Nat.zero_add]
  tauto

end Scan

/-- Reading inverts rendering, and the splitter returns arguments or raises SchemaError,
the latter on exactly the texts that are no argument list. -/
theorem type_text_parsing :
    (∀ t : TypeTree, t.ReadFrom t.render) ∧
      ∀ text, ((∃ parts, splitTypeArguments text = .ok parts) ∨
          ∃ e, splitTypeArguments text = .error e ∧ e.kind = .schema) ∧
        ((∃ e, splitTypeArguments text = .error e ∧ e.kind = .schema) ↔
          UnclosedQuote text ∨ UnbalancedParens text ∨ EmptyArgument text) := by
  refine ⟨TypeTree.readFrom_render, ?_⟩
  intro text
  obtain ⟨hkind, hiff⟩ := splitTypeArguments_failsWhen text
  have hsame : (∃ e, splitTypeArguments text = .error e ∧ e.kind = .schema) ↔
      ∃ e, splitTypeArguments text = .error e :=
    ⟨fun ⟨e, he, _⟩ => ⟨e, he⟩, fun ⟨e, he⟩ => ⟨e, he, hkind e he⟩⟩
  refine ⟨?_, hsame.trans hiff⟩
  cases hresult : splitTypeArguments text with
  | ok parts => exact Or.inl ⟨parts, rfl⟩
  | error e => exact Or.inr ⟨e, rfl, hkind e hresult⟩

end RayClickHouse.TypeText
