import RayClickHouse.EngineText

/-!
Where the scan for the call stops: at the call that follows a text with closed
quotes, or inside that text when it mentions a call of its own.
-/
namespace RayClickHouse.EngineScan

open Text TypeText

section Calls

variable {s after tail : Text}

theorem matchCall_eq_some : matchCall s = some after ↔
    ∃ gap, s = callName ++ (gap ++ '(' :: after) ∧ ∀ c ∈ gap, isSpace c = true := by
  constructor
  · intro h
    unfold matchCall at h
    by_cases hname : callName.isPrefixOf s = true
    · rw [if_pos hname] at h
      obtain ⟨rest, rfl⟩ := List.isPrefixOf_iff_prefix.mp hname
      rw [List.drop_left] at h
      have hsplit := @List.takeWhile_append_dropWhile _ isSpace rest
      cases hdrop : rest.dropWhile isSpace with
      | nil =>
        rw [hdrop] at h
        cases h
      | cons c more =>
        rw [hdrop] at h
        by_cases hc : c = '('
        · simp only [hc, if_true, Option.some.injEq] at h
          subst h
          refine ⟨rest.takeWhile isSpace, ?_, fun d hd => List.mem_takeWhile_imp hd⟩
          rw [← hc, ← hdrop, hsplit]
        · simp [hc] at h
    · rw [if_neg hname] at h
      cases h
  · rintro ⟨gap, rfl, hgap⟩
    unfold matchCall
    rw [if_pos (List.isPrefixOf_iff_prefix.mpr (List.prefix_append ..)), List.drop_left,
      List.dropWhile_append_of_pos hgap]
    rfl

theorem callAt_iff : CallAt s ↔ ∃ after, matchCall s = some after := by
  constructor
  · rintro ⟨gap, after, hs, hgap⟩
    exact ⟨after, matchCall_eq_some.mpr ⟨gap, hs, hgap⟩⟩
  · rintro ⟨after, h⟩
    obtain ⟨gap, hs, hgap⟩ := matchCall_eq_some.mp h
    exact ⟨gap, after, hs, hgap⟩

/-- No call begins before a text and ends in the call that follows it. -/
theorem callAt_of_append (hne : s ≠ []) (h : CallAt (s ++ 'D' :: tail)) : CallAt s := by
  obtain ⟨gap, after, heq, hgap⟩ := h
  rcases List.append_eq_append_iff.mp heq with ⟨y, hname, hy⟩ | ⟨x, rfl, hx⟩
  · exfalso
    cases y with
    | nil =>
      cases gap with
      | nil => cases hy
      | cons g gap =>
        cases hy
        exact absurd (hgap 'D' (List.mem_cons_self ..)) (by decide)
    | cons d y =>
      cases hy
      cases s with
      | nil => exact hne rfl
      | cons c s =>
        have htail : "istributed".toList = s ++ 'D' :: y := List.tail_eq_of_cons_eq hname
        have hmem : 'D' ∈ "istributed".toList := by
          rw [htail]
          simp
        exact absurd hmem (by decide)
  · rcases List.append_eq_append_iff.mp hx with ⟨y, rfl, hy⟩ | ⟨y, rfl, hy⟩
    · cases y with
      | nil => cases hy
      | cons d y =>
        cases hy
        exact ⟨gap, y, rfl, hgap⟩
    · cases y with
      | nil => cases hy
      | cons d y =>
        cases hy
        exact absurd (hgap 'D' (by simp)) (by decide)

theorem matchCall_append (hne : s ≠ []) (h : ¬ CallAt s) : matchCall (s ++ 'D' :: tail) = none := by
  cases hmatch : matchCall (s ++ 'D' :: tail) with
  | none => rfl
  | some found => exact absurd (callAt_of_append hne (callAt_iff.mpr ⟨found, hmatch⟩)) h

theorem findCall_engine : findCall none (callName ++ '(' :: after) = .found after := by
  have hmatch : matchCall (callName ++ '(' :: after) = some after :=
    matchCall_eq_some.mpr ⟨[], rfl, by simp⟩
  exact findCall_found rfl hmatch

end Calls

section Prefixes

variable {tail : Text}

/-- The texts in which a scan that starts in a quote, or outside, meets no call. -/
def NoCall (quote : Option Char) (s : Text) : Prop :=
  ∀ before after, s = before ++ after → quoteAfter quote before = none → ¬ CallAt after

theorem NoCall.drop {quote quote' : Option Char} (front : Text) {rest : Text}
    (h : NoCall quote (front ++ rest))
    (hstep : ∀ before, quoteAfter quote (front ++ before) = quoteAfter quote' before) :
    NoCall quote' rest := by
  rintro before after rfl hbefore
  apply h (front ++ before) after (List.append_assoc ..).symm
  rw [hstep before]
  exact hbefore

theorem NoCall.cons {quote quote' : Option Char} {c : Char} {rest : Text}
    (h : NoCall quote' rest)
    (hstep : ∀ before, quoteAfter quote (c :: before) = quoteAfter quote' before)
    (hhere : quote = none → ¬ CallAt (c :: rest)) : NoCall quote (c :: rest) := by
  intro before after hsplit hbefore
  cases before with
  | nil =>
    cases hsplit
    exact hhere hbefore
  | cons d before =>
    cases hsplit
    exact h before after rfl ((hstep before).symm.trans hbefore)

theorem NoCall.escape {q c : Char} {rest : Text} (h : NoCall (some q) rest) :
    NoCall (some q) ('\\' :: c :: rest) := by
  intro before after hsplit hbefore
  cases before with
  | nil => cases hbefore
  | cons d before =>
    cases before with
    | nil =>
      cases hsplit
      cases hbefore
    | cons e before =>
      cases hsplit
      exact h before after rfl hbefore

theorem not_callAt_of_isQuote {c : Char} {rest : Text} (hc : isQuote c = true) :
    ¬ CallAt (c :: rest) := by
  rintro ⟨gap, after, heq, -⟩
  cases heq
  cases hc

theorem findCall_closed {quote : Option Char} (hquote : ∀ q, quote = some q → isQuote q = true)
    {s : Text} (hclosed : quoteAfter quote s = none) (hnone : NoCall quote s) :
    findCall quote (s ++ 'D' :: tail) = findCall none ('D' :: tail) := by
  revert hclosed hnone
  refine quote_induction (motive := fun quote s => quoteAfter quote s = none → NoCall quote s →
    findCall quote (s ++ 'D' :: tail) = findCall none ('D' :: tail))
    ?nil ?stuck ?escape ?close ?inside ?opening ?code quote hquote s
  case nil =>
    intro quote hclosed _
    cases hclosed
    rfl
  case stuck =>
    intro q hclosed
    cases hclosed
  case escape =>
    intro q c rest ih hclosed hnone
    rw [List.cons_append, List.cons_append, findCall_escape]
    exact ih hclosed (NoCall.drop ['\\', c] hnone fun _ => rfl)
  case close =>
    intro q rest hq ih hclosed hnone
    rw [List.cons_append, findCall_close hq]
    exact ih ((quoteAfter_close hq).symm.trans hclosed)
      (NoCall.drop [q] hnone fun _ => quoteAfter_close hq)
  case inside =>
    intro q c rest hescape hc ih hclosed hnone
    rw [List.cons_append, findCall_inside hescape hc]
    exact ih ((quoteAfter_inside hescape hc).symm.trans hclosed)
      (NoCall.drop [c] hnone fun _ => quoteAfter_inside hescape hc)
  case opening =>
    intro c rest hc ih hclosed hnone
    rw [List.cons_append, findCall_open hc]
    exact ih ((quoteAfter_open hc).symm.trans hclosed)
      (NoCall.drop [c] hnone fun _ => quoteAfter_open hc)
  case code =>
    intro c rest hc ih hclosed hnone
    have hhere : ¬ CallAt (c :: rest) := hnone [] (c :: rest) rfl rfl
    have hmatch : matchCall (c :: (rest ++ 'D' :: tail)) = none :=
      matchCall_append (List.cons_ne_nil c rest) hhere
    rw [List.cons_append, findCall_code hc hmatch]
    exact ih ((quoteAfter_code hc).symm.trans hclosed)
      (NoCall.drop [c] hnone fun _ => quoteAfter_code hc)

theorem quoteAfter_plain {front : Text} (h : ∀ c ∈ front, isQuote c = false) (rest : Text) :
    quoteAfter none (front ++ rest) = quoteAfter none rest := by
  induction front with
  | nil => rfl
  | cons c front ih =>
    rw [List.cons_append, quoteAfter_code (h c (List.mem_cons_self ..))]
    exact ih fun d hd => h d (List.mem_cons_of_mem _ hd)

theorem isQuote_of_isSpace {c : Char} (h : isSpace c = true) : isQuote c = false := by
  apply Bool.eq_false_iff.mpr
  intro hquote
  simp only [isQuote, Bool.or_eq_true, beq_iff_eq] at hquote
  rcases hquote with (rfl | rfl) | rfl
  · exact absurd h (by decide)
  · exact absurd h (by decide)
  · exact absurd h (by decide)

/-- The scan stops inside a text that mentions a call, whatever call follows. -/
theorem findCall_mentions {quote : Option Char}
    (hquote : ∀ q, quote = some q → isQuote q = true) {s : Text}
    (hclosed : quoteAfter quote s = none) (hcall : ¬ NoCall quote s) :
    ∃ inner, quoteAfter none inner = none ∧
      ∀ tail, findCall quote (s ++ 'D' :: tail) = .found (inner ++ 'D' :: tail) := by
  revert hclosed hcall
  refine quote_induction (motive := fun quote s => quoteAfter quote s = none → ¬ NoCall quote s →
    ∃ inner, quoteAfter none inner = none ∧
      ∀ tail, findCall quote (s ++ 'D' :: tail) = .found (inner ++ 'D' :: tail))
    ?nil ?stuck ?escape ?close ?inside ?opening ?code quote hquote s
  case nil =>
    intro quote _ hcall
    refine absurd ?_ hcall
    intro before after hsplit _ hafter
    obtain ⟨-, rfl⟩ := List.append_eq_nil_iff.mp hsplit.symm
    obtain ⟨gap, rest, heq, -⟩ := hafter
    cases heq
  case stuck =>
    intro q hclosed
    cases hclosed
  case escape =>
    intro q c rest ih hclosed hcall
    obtain ⟨inner, hinner, hfound⟩ := ih hclosed fun h => hcall h.escape
    refine ⟨inner, hinner, fun tail => ?_⟩
    rw [List.cons_append, List.cons_append, findCall_escape]
    exact hfound tail
  case close =>
    intro q rest hq ih hclosed hcall
    obtain ⟨inner, hinner, hfound⟩ := ih ((quoteAfter_close hq).symm.trans hclosed) fun h =>
      hcall (h.cons (fun _ => quoteAfter_close hq) fun hnone => by cases hnone)
    refine ⟨inner, hinner, fun tail => ?_⟩
    rw [List.cons_append, findCall_close hq]
    exact hfound tail
  case inside =>
    intro q c rest hescape hc ih hclosed hcall
    obtain ⟨inner, hinner, hfound⟩ := ih ((quoteAfter_inside hescape hc).symm.trans hclosed)
      fun h => hcall (h.cons (fun _ => quoteAfter_inside hescape hc) fun hnone => by cases hnone)
    refine ⟨inner, hinner, fun tail => ?_⟩
    rw [List.cons_append, findCall_inside hescape hc]
    exact hfound tail
  case opening =>
    intro c rest hc ih hclosed hcall
    obtain ⟨inner, hinner, hfound⟩ := ih ((quoteAfter_open hc).symm.trans hclosed) fun h =>
      hcall (h.cons (fun _ => quoteAfter_open hc) fun _ => not_callAt_of_isQuote hc)
    refine ⟨inner, hinner, fun tail => ?_⟩
    rw [List.cons_append, findCall_open hc]
    exact hfound tail
  case code =>
    intro c rest hc ih hclosed hcall
    by_cases hhere : CallAt (c :: rest)
    · obtain ⟨gap, inner, heq, hgap⟩ := hhere
      refine ⟨inner, ?_, fun tail => ?_⟩
      · have hplain : ∀ d ∈ callName ++ (gap ++ ['(']), isQuote d = false := by
          intro d hd
          simp only [List.mem_append, List.mem_singleton] at hd
          rcases hd with hd | hd | rfl
          · have hall : (callName.all fun d => !isQuote d) = true := by decide
            simpa using List.all_eq_true.mp hall d hd
          · exact isQuote_of_isSpace (hgap d hd)
          · rfl
        have hshape : c :: rest = callName ++ (gap ++ ['(']) ++ inner := by
          simpa using heq
        rw [hshape, quoteAfter_plain hplain] at hclosed
        exact hclosed
      · apply findCall_found hc
        apply matchCall_eq_some.mpr
        refine ⟨gap, ?_, hgap⟩
        calc c :: (rest ++ 'D' :: tail) = (c :: rest) ++ 'D' :: tail := rfl
          _ = callName ++ (gap ++ '(' :: (inner ++ 'D' :: tail)) := by
            rw [heq]
            simp
    · obtain ⟨inner, hinner, hfound⟩ := ih ((quoteAfter_code hc).symm.trans hclosed) fun h =>
        hcall (h.cons (fun _ => quoteAfter_code hc) fun _ => hhere)
      refine ⟨inner, hinner, fun tail => ?_⟩
      have hmatch : matchCall (c :: (rest ++ 'D' :: tail)) = none :=
        matchCall_append (List.cons_ne_nil c rest) hhere
      rw [List.cons_append, findCall_code hc hmatch]
      exact hfound tail

end Prefixes

end RayClickHouse.EngineScan
