import RayClickHouse.Fragments
import RayClickHouse.Parens

/-!
The typed placeholders of a text outside quotes and comments, which is what
server-side binding sees. A quote or a comment without its end hides the rest of
the text.
-/
namespace RayClickHouse.NativeScan

open Text Lexical FilterScan

/-- The names of the placeholders, and whether the text ends in code. -/
def nativeScan : ℕ → Text → List Text × Bool
  | _, [] => ([], true)
  | 0, _ :: _ => ([], false)
  | fuel + 1, c :: rest =>
      match nextLexeme c rest with
      | .error _ => ([], false)
      | .ok (.code _, _) =>
          match matchServerParameter (c :: rest) with
          | some (name, _, after) =>
              let scanned := nativeScan fuel after
              (name :: scanned.1, scanned.2)
          | none => nativeScan fuel rest
      | .ok (l, after) =>
          if l.isLineComment ∧ after = [] then ([], false) else nativeScan fuel after

def nativeNames (s : Text) : List Text := (nativeScan s.length s).1

def endsInCode (s : Text) : Bool := (nativeScan s.length s).2

section Match

theorem matchServerParameter_append {s name type after : Text} (more : Text)
    (h : matchServerParameter s = some (name, type, after)) :
    matchServerParameter (s ++ more) = some (name, type, after ++ more) := by
  obtain ⟨rfl, hname, hne, htype⟩ := matchServerParameter_eq_some h
  rw [List.append_assoc]
  exact matchServerParameter_placeholder hname hne htype _

theorem matchServerParameter_of_ne {c : Char} (h : c ≠ '{') (rest : Text) :
    matchServerParameter (c :: rest) = none := by
  unfold matchServerParameter
  split
  · rename_i heq
    exact absurd (List.cons.inj heq).1 h
  · rfl

/-- In a generated text a closing brace comes after an opening one. -/
theorem brace_opened {text : Text} {names : List Text} (h : Generated true text names)
    {before after : Text} (heq : text = before ++ '}' :: after) : '{' ∈ before := by
  obtain ⟨fragments, rfl, rfl, hwell⟩ := h
  induction fragments generalizing before with
  | nil => simp at heq
  | cons f rest ih =>
    have hf := hwell f (List.mem_cons_self ..)
    have hrest := fun g hg => hwell g (List.mem_cons_of_mem _ hg)
    rw [List.flatMap_cons] at heq
    obtain ⟨more, hbefore, htail⟩ | ⟨more, hpart, htail⟩ := List.append_eq_append_iff.mp heq
    · rw [hbefore]
      exact List.mem_append_right _ (ih htail hrest)
    · cases more with
      | nil =>
        rw [List.nil_append] at htail
        rw [List.append_nil] at hpart
        have hopened : '{' ∈ ([] : Text) := ih htail.symm hrest
        exact absurd hopened (by simp)
      | cons d more =>
        have hd : '}' = d := (List.cons.inj htail).1
        have hmem : '}' ∈ f.text true := by rw [hpart, hd]; simp
        cases f with
        | plain t =>
          rw [Fragment.WellFormed, List.all_eq_true] at hf
          exact absurd (hf _ hmem) (by decide)
        | column name =>
          have hclose := isIdentifier_not_mem hf (c := '}') (by decide)
          simp [Fragment.text, quoted, hclose] at hmem
        | parameter name type =>
          cases before with
          | nil =>
            simp only [Fragment.text, placeholder, serverPlaceholder, if_true, List.cons_append,
              List.nil_append, List.cons.injEq] at hpart
            rw [← hd] at hpart
            exact absurd hpart.1 (by decide)
          | cons x before =>
            simp only [Fragment.text, placeholder, serverPlaceholder, if_true, List.cons_append,
              List.cons.injEq] at hpart
            rw [← hpart.1]
            simp

/-- A placeholder is not completed by generated text behind it. -/
theorem matchServerParameter_append_none {s more : Text} {names : List Text}
    (hmore : Generated true more names) (h : matchServerParameter s = none) (hs : s ≠ []) :
    matchServerParameter (s ++ more) = none := by
  cases hmatch : matchServerParameter (s ++ more) with
  | none => rfl
  | some p =>
    obtain ⟨name, type, after⟩ := p
    obtain ⟨heq, hname, hne, htype⟩ := matchServerParameter_eq_some hmatch
    have hsplit : s ++ more = ('{' :: (name ++ ':' :: type)) ++ '}' :: after := by
      rw [heq]
      simp [serverPlaceholder]
    obtain ⟨rest, hrest, htail⟩ | ⟨rest, hrest, htail⟩ := List.append_eq_append_iff.mp hsplit
    · have hopened := brace_opened hmore htail
      cases s with
      | nil => exact absurd rfl hs
      | cons c s' =>
        simp only [List.cons_append, List.cons.injEq] at hrest
        have hin : '{' ∈ name ++ ':' :: type := by
          rw [hrest.2]
          exact List.mem_append_right _ hopened
        have hopen := isIdentifier_not_mem hname (c := '{') (by decide)
        have htypeOpen : '{' ∉ type := fun hmem => absurd (htype _ hmem) (by decide)
        simp [hopen, htypeOpen] at hin
    · cases rest with
      | nil =>
        rw [List.nil_append] at htail
        have hopened : '{' ∈ ([] : Text) := brace_opened hmore htail.symm
        exact absurd hopened (by simp)
      | cons d rest =>
        obtain ⟨rfl, _⟩ := List.cons.inj htail
        have hself : s = serverPlaceholder name type ++ rest := by
          rw [hrest]
          simp [serverPlaceholder]
        rw [hself, matchServerParameter_placeholder hname hne htype] at h
        contradiction

end Match

section Code

variable {fuel : ℕ}

theorem nativeScan_plain {t : Text} (h : t.all plainChar = true) (rest : Text) :
    nativeScan (fuel + t.length) (t ++ rest) = nativeScan fuel rest := by
  induction t with
  | nil => rfl
  | cons c t ih =>
    simp only [List.all_cons, Bool.and_eq_true] at h
    have hbrace : c ≠ '{' := by
      rintro rfl
      exact absurd h.1 (by decide)
    rw [List.length_cons, ← Nat.add_assoc, List.cons_append, nativeScan, nextLexeme_plain h.1]
    simp only [matchServerParameter_of_ne hbrace]
    exact ih h.2

theorem nativeScan_column {name : Text} (h : isIdentifier name = true) (rest : Text) :
    nativeScan (fuel + 2) (quoted name ++ ' ' :: rest) = nativeScan fuel rest := by
  have hshape : quoted name ++ ' ' :: rest = '`' :: (name ++ '`' :: (' ' :: rest)) := by
    simp [quoted]
  rw [hshape, nativeScan, nextLexeme_quoted h (by simp)]
  simp only [Lexeme.isLineComment, Bool.false_eq_true, false_and, if_false]
  exact nativeScan_plain (t := [' ']) (by decide) rest

theorem nativeScan_placeholder {name type : Text} (hname : isIdentifier name = true)
    (htype : isIdentifier type = true) (rest : Text) :
    nativeScan (fuel + 1) (serverPlaceholder name type ++ rest) =
      (name :: (nativeScan fuel rest).1, (nativeScan fuel rest).2) := by
  have hbraces : ∀ c ∈ type, notBrace c = true := by
    intro c hc
    have hpart := isIdentifier_mem htype c hc
    have hopen : c ≠ '{' := by
      rintro rfl
      revert hpart
      decide
    have hclose : c ≠ '}' := by
      rintro rfl
      revert hpart
      decide
    simp [notBrace, hopen, hclose]
  have hmatch := matchServerParameter_placeholder hname (isIdentifier_ne_nil htype) hbraces rest
  have hshape : serverPlaceholder name type ++ rest =
      '{' :: (name ++ ':' :: (type ++ '}' :: rest)) := by simp [serverPlaceholder]
  rw [hshape] at hmatch ⊢
  rw [nativeScan, nextLexeme_brace]
  simp only [hmatch]

/-- Scanned from code, generated text shows exactly its placeholders. -/
theorem nativeScan_generated {text : Text} {names : List Text} (h : Generated true text names)
    (hfuel : text.length ≤ fuel) : nativeScan fuel text = (names, true) := by
  obtain ⟨fragments, rfl, rfl, hwell⟩ := h
  induction fragments generalizing fuel with
  | nil => cases fuel <;> rfl
  | cons f rest ih =>
    have hf := hwell f (List.mem_cons_self ..)
    have hrest := fun g hg => hwell g (List.mem_cons_of_mem _ hg)
    rw [List.flatMap_cons] at hfuel ⊢
    cases f with
    | plain t =>
      simp only [Fragment.text, List.length_append] at hfuel ⊢
      obtain ⟨n, rfl⟩ : ∃ n, fuel = n + t.length := ⟨fuel - t.length, by omega⟩
      rw [nativeScan_plain hf, ih (by omega) hrest]
      rfl
    | column name =>
      simp only [Fragment.text, quoted, List.length_append, List.length_cons] at hfuel
      obtain ⟨n, rfl⟩ : ∃ n, fuel = n + 2 := ⟨fuel - 2, by omega⟩
      have hshape : Fragment.text true (.column name) ++ rest.flatMap (Fragment.text true) =
          quoted name ++ ' ' :: rest.flatMap (Fragment.text true) := by simp [Fragment.text]
      rw [hshape, nativeScan_column hf, ih (by omega) hrest]
      rfl
    | parameter name type =>
      have hshape : Fragment.text true (.parameter name type) = serverPlaceholder name type := rfl
      have hpos : 1 ≤ (serverPlaceholder name type).length := by simp [serverPlaceholder]
      simp only [hshape, List.length_append] at hfuel
      obtain ⟨n, rfl⟩ : ∃ n, fuel = n + 1 := ⟨fuel - 1, by omega⟩
      rw [hshape, nativeScan_placeholder hf.1 hf.2, ih (by omega) hrest]
      rfl

end Code

section Hidden

/-- Characters that do not end a quoted text are skipped. -/
theorem scanQuote_skip {q : Char} {t u : Text} (hq : q ∉ t) (hescape : '\\' ∉ t) :
    scanQuote q (t ++ u) = (scanQuote q u).map fun p => (t ++ p.1, p.2) := by
  induction t with
  | nil => simp
  | cons c t ih =>
    simp only [List.mem_cons, not_or] at hq hescape
    have hc : c ≠ '\\' := Ne.symm hescape.1
    have hcq : c ≠ q := Ne.symm hq.1
    have hih := ih hq.2 hescape.2
    cases hrest : t ++ u with
    | nil =>
      obtain ⟨rfl, rfl⟩ := List.append_eq_nil_iff.mp hrest
      simp [scanQuote, hc, hcq]
    | cons d rest =>
      rw [hrest] at hih
      rw [List.cons_append, hrest, scanQuote, if_neg hc, if_neg hcq, hih, Option.map_map]
      rfl

/-- Inside a backquoted text, generated text shows no placeholder: a column
closes the quote and opens the next one. -/
theorem nativeScan_in_quote {text body after : Text} {names : List Text}
    (h : Generated true text names) (hscan : scanQuote '`' text = some (body, after)) {fuel : ℕ}
    (hfuel : after.length ≤ fuel) : (nativeScan fuel after).1 = [] := by
  obtain ⟨fragments, rfl, rfl, hwell⟩ := h
  induction fragments generalizing body after fuel with
  | nil => simp [scanQuote] at hscan
  | cons f rest ih =>
    have hf := hwell f (List.mem_cons_self ..)
    have hrest := fun g hg => hwell g (List.mem_cons_of_mem _ hg)
    rw [List.flatMap_cons] at hscan
    have hskip : ('`' ∉ f.text true ∧ '\\' ∉ f.text true) → (nativeScan fuel after).1 = [] := by
      rintro ⟨hquote, hescape⟩
      rw [scanQuote_skip hquote hescape] at hscan
      obtain ⟨p, hp, heq⟩ := Option.map_eq_some_iff.mp hscan
      simp only [Prod.mk.injEq] at heq
      have hscan' : scanQuote '`' (rest.flatMap (Fragment.text true)) = some (p.1, after) := by
        rw [hp, ← heq.2]
      exact ih hfuel hscan' hrest
    cases f with
    | plain t =>
      rw [Fragment.WellFormed, List.all_eq_true] at hf
      exact hskip ⟨fun hin => absurd (hf _ hin) (by decide), fun hin => absurd (hf _ hin) (by decide)⟩
    | parameter name type =>
      have hname := quote_not_identPart hf.1
      have htype := quote_not_identPart hf.2
      refine hskip ⟨?_, ?_⟩
      · simp [Fragment.text, placeholder, serverPlaceholder, hname.1, htype.1]
      · simp [Fragment.text, placeholder, serverPlaceholder, hname.2, htype.2]
    | column name =>
      have hplain : name.all plainChar = true := by
        rw [List.all_eq_true]
        intro c hc
        simp [plainChar, isIdentifier_mem hf c hc]
      obtain ⟨c, name', rfl⟩ := List.exists_cons_of_ne_nil (isIdentifier_ne_nil hf)
      have hc : c ≠ '`' := by
        rintro rfl
        exact (quote_not_identPart hf).1 (List.mem_cons_self ..)
      have hafter : after = (c :: name') ++ '`' :: ' ' :: rest.flatMap (Fragment.text true) := by
        simp only [Fragment.text, quoted, List.cons_append, List.append_assoc, scanQuote,
          if_neg (show ¬ ('`' = '\\') by decide), if_true, if_neg hc, Option.some.injEq,
          Prod.mk.injEq] at hscan
        rw [← hscan.2]
        simp
      rw [hafter, List.length_append] at hfuel
      simp only [List.length_cons] at hfuel
      rw [hafter]
      obtain ⟨n, rfl⟩ : ∃ n, fuel = n + 1 + (c :: name').length := by
        refine ⟨fuel - 1 - (c :: name').length, ?_⟩
        simp only [List.length_cons]
        omega
      rw [nativeScan_plain hplain, nativeScan]
      -- the second backquote of the column opens the next quoted text
      unfold nextLexeme
      rw [if_pos (show isQuoteChar '`' = true by decide)]
      cases hinner : scanQuote '`' (' ' :: rest.flatMap (Fragment.text true)) with
      | none => rfl
      | some p =>
        obtain ⟨body', after'⟩ := p
        simp only [Lexeme.isLineComment, Bool.false_eq_true, false_and, if_false]
        have hspace : scanQuote '`' ([' '] ++ rest.flatMap (Fragment.text true)) =
            some (body', after') := hinner
        rw [scanQuote_skip (by decide) (by decide)] at hspace
        obtain ⟨p, hp, heq⟩ := Option.map_eq_some_iff.mp hspace
        simp only [Prod.mk.injEq] at heq
        have hlen := congrArg List.length (scanQuote_eq_some hp).1
        rw [List.length_append, heq.2] at hlen
        simp only [List.length_cons] at hfuel
        have hscan' : scanQuote '`' (rest.flatMap (Fragment.text true)) = some (p.1, after') := by
          rw [hp, ← heq.2]
        exact ih (by omega) hscan' hrest

end Hidden

section Append

variable {text : Text} {names : List Text}

/-- Generated text has no other characters than those of its fragments. -/
theorem generated_not_mem {native : Bool} (h : Generated native text names) {c : Char}
    (hplain : plainChar c = false) (hmark : c ∉ ['`', '%', '{', '}', ':']) : c ∉ text := by
  obtain ⟨fragments, rfl, rfl, hwell⟩ := h
  intro hin
  obtain ⟨f, hf, hc⟩ := List.mem_flatMap.mp hin
  have hf := hwell f hf
  have hpart : isIdentPart c = false := by
    unfold plainChar at hplain
    exact (Bool.or_eq_false_iff.mp hplain).1
  have hspace : c ≠ ' ' ∧ c ≠ '(' ∧ c ≠ ')' ∧ c ≠ 's' := by
    refine ⟨?_, ?_, ?_, ?_⟩ <;>
    · rintro rfl
      revert hplain
      decide
  simp only [List.mem_cons, not_or] at hmark
  cases f with
  | plain t =>
    rw [Fragment.WellFormed, List.all_eq_true] at hf
    rw [hf c hc] at hplain
    contradiction
  | column name =>
    have hname := isIdentifier_not_mem hf hpart
    simp [Fragment.text, quoted, hname, hspace, hmark] at hc
  | parameter name type =>
    have hname := isIdentifier_not_mem hf.1 hpart
    have htype := isIdentifier_not_mem hf.2 hpart
    cases native
    · simp [Fragment.text, placeholder, clientPlaceholder, hname, hspace, hmark] at hc
    · simp [Fragment.text, placeholder, serverPlaceholder, hname, htype, hmark] at hc

/-- Without its first character of plain text, generated text is still generated. -/
theorem generated_tail {native : Bool} {c : Char} (h : Generated native (c :: text) names)
    (hc : plainChar c = true) : Generated native text names := by
  obtain ⟨fragments, heq, rfl, hwell⟩ := h
  induction fragments with
  | nil => simp at heq
  | cons f rest ih =>
    have hf := hwell f (List.mem_cons_self ..)
    have hrest := fun g hg => hwell g (List.mem_cons_of_mem _ hg)
    rw [List.flatMap_cons] at heq
    cases f with
    | plain t =>
      cases t with
      | nil => exact ih heq hrest
      | cons d t =>
        simp only [Fragment.text, List.cons_append, List.cons.injEq] at heq
        obtain ⟨rfl, rfl⟩ := heq
        have ht : t.all plainChar = true := by
          simp only [Fragment.WellFormed, List.all_cons, Bool.and_eq_true] at hf
          exact hf.2
        have hplain := Generated.plain native t ht
        exact hplain.append ⟨rest, rfl, rfl, hrest⟩
    | column name =>
      have hquote : c = '`' := (List.cons.inj heq).1
      rw [hquote] at hc
      exact absurd hc (by decide)
    | parameter name type =>
      have hopen : c = '%' ∨ c = '{' := by
        cases native
        · exact Or.inl (List.cons.inj heq).1
        · exact Or.inr (List.cons.inj heq).1
      rcases hopen with rfl | rfl <;> exact absurd hc (by decide)

/-- A quote that a text leaves open goes on in what follows it, after at most
one escaped character. -/
theorem scanQuote_continues {q : Char} {s more body after : Text} (h : scanQuote q s = none)
    (hmore : scanQuote q (s ++ more) = some (body, after)) :
    ∃ b, scanQuote q more = some (b, after) ∨ scanQuote q more.tail = some (b, after) := by
  induction s using scanQuote.induct q generalizing body after with
  | case1 => exact ⟨body, Or.inl hmore⟩
  | case2 c hc =>
    rw [scanQuote, if_pos hc] at h
    contradiction
  | case3 c hc =>
    cases more with
    | nil => simp [scanQuote, hc] at hmore
    | cons d rest =>
      simp only [List.cons_append, List.nil_append, scanQuote] at hmore
      split at hmore
      · obtain ⟨p, hp, heq⟩ := Option.map_eq_some_iff.mp hmore
        simp only [Prod.mk.injEq] at heq
        exact ⟨p.1, Or.inr (by rw [← heq.2]; exact hp)⟩
      · rename_i hescape
        rw [if_neg (fun heq => hc ⟨hescape, heq⟩)] at hmore
        obtain ⟨p, hp, heq⟩ := Option.map_eq_some_iff.mp hmore
        simp only [Prod.mk.injEq] at heq
        exact ⟨p.1, Or.inl (by rw [← heq.2]; exact hp)⟩
  | case4 d rest ih =>
    simp only [scanQuote, if_true, Option.map_eq_none_iff] at h
    simp only [List.cons_append, scanQuote, if_true] at hmore
    obtain ⟨p, hp, heq⟩ := Option.map_eq_some_iff.mp hmore
    simp only [Prod.mk.injEq] at heq
    exact heq.2 ▸ ih h hp
  | case5 rest hc ih =>
    simp only [scanQuote, if_neg hc, if_true, Option.map_eq_none_iff] at h
    simp only [List.cons_append, scanQuote, if_neg hc, if_true] at hmore
    obtain ⟨p, hp, heq⟩ := Option.map_eq_some_iff.mp hmore
    simp only [Prod.mk.injEq] at heq
    exact heq.2 ▸ ih h hp
  | case6 d rest hq hc => simp [scanQuote, hc, hq] at h
  | case7 c d rest hc hq ih =>
    simp only [scanQuote, if_neg hc, if_neg hq, Option.map_eq_none_iff] at h
    simp only [List.cons_append, scanQuote, if_neg hc, if_neg hq] at hmore
    obtain ⟨p, hp, heq⟩ := Option.map_eq_some_iff.mp hmore
    simp only [Prod.mk.injEq] at heq
    exact heq.2 ▸ ih h hp

/-- A quote closes only at its own character. -/
theorem scanQuote_close_mem {q : Char} {s body after : Text}
    (h : scanQuote q s = some (body, after)) : q ∈ s := by
  by_contra hq
  induction s using scanQuote.induct q generalizing body after with
  | case1 => simp [scanQuote] at h
  | case2 c hc => simp [hc.2] at hq
  | case3 c hc => simp [scanQuote, hc] at h
  | case4 d rest ih =>
    simp only [List.mem_cons, not_or] at hq
    simp only [scanQuote, if_true] at h
    obtain ⟨p, hp, _⟩ := Option.map_eq_some_iff.mp h
    exact ih hp hq.2.2
  | case5 rest hc ih => simp at hq
  | case6 d rest hq' hc => simp at hq
  | case7 c d rest hc hq' ih =>
    simp only [List.mem_cons, not_or] at hq
    simp only [scanQuote, if_neg hc, if_neg hq'] at h
    obtain ⟨p, hp, _⟩ := Option.map_eq_some_iff.mp h
    exact ih hp (by simpa using hq.2)

theorem splitOnce_close_mem {s more before after : Text} (h : splitOnce "*/".toList s = none)
    (hmore : splitOnce "*/".toList (s ++ more) = some (before, after)) : '/' ∈ more := by
  have hlen := splitOnce_open (by decide) h hmore
  have heq := splitOnce_eq_some hmore
  have hsplit : s ++ more = (before ++ "*".toList) ++ '/' :: after := by
    rw [heq]
    simp
  obtain ⟨rest, _, htail⟩ | ⟨rest, _, htail⟩ := List.append_eq_append_iff.mp hsplit
  · rw [htail]
    simp
  · have hl := congrArg List.length htail
    simp only [List.length_cons, List.length_append] at hl
    cases rest with
    | nil =>
      simp only [List.nil_append] at htail
      rw [← htail]
      exact List.mem_cons_self ..
    | cons d rest =>
      simp only [List.length_cons] at hl
      omega

/-- A quote left open hides the placeholders of generated text. -/
theorem nativeScan_open_quote {q : Char} {s body after : Text} {fuel : ℕ}
    (h : Generated true text names)
    (hstart : text = [] ∨ text.head? = some ' ' ∨ text.head? = some ')') (hq : isQuoteChar q = true)
    (hopen : scanQuote q s = none) (hscan : scanQuote q (s ++ text) = some (body, after))
    (hfuel : after.length ≤ fuel) : (nativeScan fuel after).1 = [] := by
  have htail : Generated true text.tail names := by
    cases text with
    | nil => exact h
    | cons c rest =>
      refine generated_tail h ?_
      rcases hstart with hs | hs | hs
      · contradiction
      · cases Option.some.inj hs
        decide
      · cases Option.some.inj hs
        decide
  obtain ⟨b, hb⟩ := scanQuote_continues hopen hscan
  have hmem : q ∈ text := by
    rcases hb with hb | hb
    · exact scanQuote_close_mem hb
    · exact List.mem_of_mem_tail (scanQuote_close_mem hb)
  have hquote : q = '`' := by
    simp only [isQuoteChar, Bool.or_eq_true, beq_iff_eq] at hq
    rcases hq with (rfl | rfl) | rfl
    · exact absurd hmem (generated_not_mem h (by decide) (by decide))
    · exact absurd hmem (generated_not_mem h (by decide) (by decide))
    · rfl
  subst hquote
  rcases hb with hb | hb
  · exact nativeScan_in_quote h hb hfuel
  · exact nativeScan_in_quote htail hb hfuel

/-- A line comment that reaches the end of a text swallows what follows on its line. -/
theorem nextLexeme_line_append {c : Char} {rest more : Text} {l : Lexeme}
    (h : nextLexeme c rest = .ok (l, [])) (hline : l.isLineComment = true) (hmore : '\n' ∉ more) :
    ∃ l', nextLexeme c (rest ++ more) = .ok (l', []) ∧ l'.isLineComment = true := by
  unfold nextLexeme at h
  split at h
  · split at h
    · contradiction
    · simp only [Except.ok.injEq, Prod.mk.injEq] at h
      rw [← h.1] at hline
      contradiction
  · rename_i hquote
    split at h
    · split at h
      · contradiction
      · simp only [Except.ok.injEq, Prod.mk.injEq] at h
        rw [← h.1] at hline
        contradiction
    · split at h
      · rename_i hstart
        simp only [Except.ok.injEq, Prod.mk.injEq] at h
        have hstart' : startsLineComment c (rest ++ more) = true := by
          simp only [startsLineComment, Bool.or_eq_true, Bool.and_eq_true, beq_iff_eq] at hstart ⊢
          rcases hstart with ⟨hc, hdash⟩ | hc
          · exact Or.inl ⟨hc, by rw [List.head?_append, hdash]; rfl⟩
          · exact Or.inr hc
        have hslash : c ≠ '/' := by
          rintro rfl
          simp [startsLineComment] at hstart
        have hdrop : (c :: (rest ++ more)).dropWhile notLineFeed = [] := by
          rw [List.dropWhile_eq_nil_iff] at h ⊢
          intro d hd
          rw [← List.cons_append] at hd
          rcases List.mem_append.mp hd with hd | hd
          · exact h.2 d hd
          · have hne : d ≠ '\n' := fun heq => hmore (heq ▸ hd)
            simpa [notLineFeed] using hne
        refine ⟨.lineComment ((c :: (rest ++ more)).takeWhile notLineFeed), ?_, rfl⟩
        unfold nextLexeme
        rw [if_neg hquote, if_neg (fun hopen => hslash hopen.1), if_pos hstart', hdrop]
      · simp only [Except.ok.injEq, Prod.mk.injEq] at h
        rw [← h.1] at hline
        contradiction

theorem nextLexeme_eq_error {c : Char} {rest : Text} {e : LexError}
    (h : nextLexeme c rest = .error e) :
    (isQuoteChar c = true ∧ scanQuote c rest = none) ∨
      (isQuoteChar c = false ∧ c = '/' ∧ rest.head? = some '*' ∧
        splitOnce "*/".toList rest.tail = none) := by
  unfold nextLexeme at h
  split at h
  · rename_i hquote
    split at h
    · rename_i hscan
      exact Or.inl ⟨hquote, hscan⟩
    · contradiction
  · rename_i hquote
    split at h
    · rename_i hopen
      split at h
      · rename_i hsplit
        exact Or.inr ⟨by simpa using hquote, hopen.1, hopen.2, hsplit⟩
      · contradiction
    · split at h <;> contradiction

/-- The placeholders of a text followed by generated text: those of the text,
and the generated ones when the text ends in code. -/
theorem nativeScan_append (h : Generated true text names)
    (hstart : text = [] ∨ text.head? = some ' ' ∨ text.head? = some ')') {fuel fuel' : ℕ} {s : Text}
    (hfuel : s.length ≤ fuel) (hfuel' : (s ++ text).length ≤ fuel') :
    (nativeScan fuel' (s ++ text)).1 =
      (nativeScan fuel s).1 ++ (if (nativeScan fuel s).2 then names else []) := by
  induction fuel generalizing fuel' s with
  | zero =>
    have hnil : s = [] := List.length_eq_zero_iff.mp (Nat.le_zero.mp hfuel)
    subst hnil
    rw [List.nil_append, nativeScan_generated h hfuel']
    rfl
  | succ fuel ih =>
    cases s with
    | nil =>
      rw [List.nil_append, nativeScan_generated h hfuel']
      rfl
    | cons c rest =>
      simp only [List.cons_append, List.length_cons, List.length_append] at hfuel hfuel'
      obtain ⟨m, rfl⟩ : ∃ m, fuel' = m + 1 := ⟨fuel' - 1, by omega⟩
      rw [List.cons_append, nativeScan, nativeScan]
      cases hlex : nextLexeme c rest with
      | error e =>
        simp only [Bool.false_eq_true, if_false, List.append_nil]
        rcases nextLexeme_eq_error hlex with ⟨hquote, hscan⟩ | ⟨hquote, rfl, hstar, hsplit⟩
        · cases hmore : nextLexeme c (rest ++ text) with
          | error e' => rfl
          | ok p =>
            unfold nextLexeme at hmore
            rw [if_pos hquote] at hmore
            split at hmore
            · contradiction
            · rename_i body after hscan'
              cases Except.ok.inj hmore
              simp only [Lexeme.isLineComment, Bool.false_eq_true, false_and, if_false]
              have hlen := scanQuote_open hscan hscan'
              exact nativeScan_open_quote h hstart hquote hscan hscan' (by omega)
        · have hmore : nextLexeme '/' (rest ++ text) = .error .unterminatedComment := by
            cases rest with
            | nil => simp at hstar
            | cons d rest' =>
              unfold nextLexeme
              rw [if_neg (by decide), if_pos ⟨rfl, by simpa using hstar⟩]
              cases hsplit' : splitOnce "*/".toList ((d :: rest') ++ text).tail with
              | none => rfl
              | some p =>
                have hslash := @splitOnce_close_mem _ text _ _ hsplit hsplit'
                exact absurd hslash (generated_not_mem h (by decide) (by decide))
          rw [hmore]
      | ok p =>
        obtain ⟨l, after⟩ := p
        have hafter := nextLexeme_length hlex
        have hseam : ∀ d, text.head? = some d → seam d = true := by
          intro d hd
          rcases hstart with rfl | hs | hs
          · simp at hd
          · rw [hs] at hd
            cases Option.some.inj hd
            decide
          · rw [hs] at hd
            cases Option.some.inj hd
            decide
        by_cases hend : l.isLineComment ∧ after = []
        · obtain ⟨hline, rfl⟩ := hend
          obtain ⟨l', hlex', hline'⟩ := nextLexeme_line_append hlex hline
            (generated_not_mem h (by decide) (by decide))
          rw [hlex']
          cases l <;> cases l' <;> simp [Lexeme.isLineComment] at hline hline' ⊢
        · have hlex' := nextLexeme_append text hlex fun hnil => ⟨by
            have hno := fun hline => hend ⟨hline, hnil⟩
            simpa using hno, hseam⟩
          have hih := @ih m after (by omega) (by simp only [List.length_append]; omega)
          rw [hlex']
          cases l with
          | code d =>
            have hcode := nextLexeme_text hlex
            simp only [Lexeme.text, List.singleton_append, List.cons.injEq] at hcode
            obtain ⟨⟨rfl, rfl⟩, _⟩ := hcode
            cases hmatch : matchServerParameter (c :: rest) with
            | none =>
              have hmatch' := matchServerParameter_append_none h hmatch (List.cons_ne_nil _ _)
              rw [List.cons_append] at hmatch'
              simp only [hmatch']
              exact hih
            | some p =>
              obtain ⟨name, type, after'⟩ := p
              have hmatch' := matchServerParameter_append text hmatch
              rw [List.cons_append] at hmatch'
              simp only [hmatch', List.cons_append]
              have hlen := congrArg List.length (matchServerParameter_eq_some hmatch).1
              simp only [serverPlaceholder, List.length_cons, List.length_append] at hlen
              rw [@ih m after' (by omega) (by simp only [List.length_append]; omega)]
          | quoted t => simpa [Lexeme.isLineComment] using hih
          | blockComment t => simpa [Lexeme.isLineComment] using hih
          | lineComment t =>
            have hne : after ≠ [] := fun hnil => hend ⟨rfl, hnil⟩
            simpa [Lexeme.isLineComment, hne] using hih

end Append

end RayClickHouse.NativeScan
