import RayClickHouse.FilterSegments
import RayClickHouse.NativeScan

/-!
What the server sees of a query: the placeholders in front of the filter, then
those that the connector's scan of the filter saw, provided that the text in front
leaves no quote, comment or brace open.
-/
namespace RayClickHouse.NativeScan

open Text Lexical FilterScan

section Front

/-- The last brace of a text is an opening one. -/
def opensBrace (s : Text) : Bool := s.reverse.find? (fun c => !notBrace c) == some '{'

theorem opensBrace_suffix {before s : Text} (h : opensBrace (before ++ s) = false) :
    opensBrace s = false := by
  unfold opensBrace at h ⊢
  rw [List.reverse_append, List.find?_append] at h
  cases hfind : s.reverse.find? (fun c => !notBrace c) with
  | none => rfl
  | some c =>
    rw [hfind] at h
    exact h

/-- An opening brace that is not the last brace has another one behind it. -/
theorem exists_brace {rest : Text} (h : opensBrace ('{' :: rest) = false) :
    ∃ c ∈ rest, notBrace c = false := by
  by_contra hnone
  push Not at hnone
  have hfind : rest.reverse.find? (fun c => !notBrace c) = none := by
    rw [List.find?_eq_none]
    intro c hc
    simpa using hnone c (List.mem_reverse.mp hc)
  unfold opensBrace at h
  rw [List.reverse_cons, List.find?_append, hfind] at h
  revert h
  decide

/-- A placeholder does not begin at a brace that is closed before the text ends. -/
theorem matchServerParameter_closed {rest : Text} (more : Text)
    (hclosed : opensBrace ('{' :: rest) = false) (h : matchServerParameter ('{' :: rest) = none) :
    matchServerParameter ('{' :: (rest ++ more)) = none := by
  cases hmatch : matchServerParameter ('{' :: (rest ++ more)) with
  | none => rfl
  | some p =>
    obtain ⟨name, type, after⟩ := p
    obtain ⟨heq, hname, hne, htype⟩ := matchServerParameter_eq_some hmatch
    have hsplit : rest ++ more = (name ++ ':' :: type) ++ '}' :: after := by
      rw [serverPlaceholder, List.cons_append] at heq
      rw [(List.cons.inj heq).2]
      simp
    have hplain : ∀ c ∈ name ++ ':' :: type, notBrace c = true := by
      intro c hc
      rcases List.mem_append.mp hc with hc | hc
      · have hopen := isIdentifier_not_mem hname (c := '{') (by decide)
        have hclose := isIdentifier_not_mem hname (c := '}') (by decide)
        unfold notBrace
        rw [Bool.and_eq_true, bne_iff_ne, bne_iff_ne]
        exact ⟨fun hsame => hopen (hsame ▸ hc), fun hsame => hclose (hsame ▸ hc)⟩
      · rcases List.mem_cons.mp hc with rfl | hc
        · decide
        · exact htype c hc
    obtain ⟨d, hd, hbrace⟩ := exists_brace hclosed
    obtain ⟨left, hleft, -⟩ | ⟨left, hleft, htail⟩ := List.append_eq_append_iff.mp hsplit
    · rw [hplain d (hleft ▸ List.mem_append_left _ hd)] at hbrace
      contradiction
    · cases left with
      | nil =>
        rw [List.append_nil] at hleft
        rw [hplain d (hleft ▸ hd)] at hbrace
        contradiction
      | cons e left =>
        obtain ⟨rfl, -⟩ := List.cons.inj htail
        have hself : '{' :: rest = serverPlaceholder name type ++ left := by
          rw [hleft]
          simp [serverPlaceholder]
        rw [hself, matchServerParameter_placeholder hname hne htype] at h
        contradiction

/-- What the server reads first does not depend on the text behind: a lexeme, or the placeholder
that begins there. -/
theorem nativeScan_step {fuel n : ℕ} {c : Char} {rest more : Text}
    (hbrace : opensBrace (c :: rest) = false) (hcode : (nativeScan (fuel + 1) (c :: rest)).2 = true)
    (hseam : ∀ d, more.head? = some d → seam d = true) :
    ∃ names next, opensBrace next = false ∧ next.length ≤ rest.length ∧
      (nativeScan fuel next).2 = true ∧
      (nativeScan (fuel + 1) (c :: rest)).1 = names ++ (nativeScan fuel next).1 ∧
      nativeScan (n + 1) (c :: (rest ++ more)) =
        (names ++ (nativeScan n (next ++ more)).1, (nativeScan n (next ++ more)).2) := by
  rw [nativeScan] at hcode
  cases hlex : nextLexeme c rest with
  | error e =>
    simp only [hlex] at hcode
    contradiction
  | ok p =>
    obtain ⟨lexeme, after⟩ := p
    obtain ⟨htext, hne⟩ := nextLexeme_text hlex
    have hafter := nextLexeme_length hlex
    have hrest : opensBrace after = false := opensBrace_suffix (htext ▸ hbrace)
    have hclosed : lexeme.isLineComment = true → after ≠ [] := by
      rintro hline rfl
      simp only [hlex] at hcode
      cases lexeme with
      | lineComment t => simp [Lexeme.isLineComment] at hcode
      | code d => contradiction
      | quoted t => contradiction
      | blockComment t => contradiction
    have hlex' : nextLexeme c (rest ++ more) = .ok (lexeme, after ++ more) := by
      refine nextLexeme_append more hlex fun hnil => ⟨?_, hseam⟩
      by_contra hline
      exact hclosed ((Bool.not_eq_false _).mp hline) hnil
    rw [nativeScan, nativeScan, hlex']
    simp only [hlex] at hcode ⊢
    cases lexeme with
    | code d =>
      simp only [Lexeme.text, List.singleton_append, List.cons.injEq] at htext
      obtain ⟨rfl, rfl⟩ := htext
      cases hmatch : matchServerParameter (c :: rest) with
      | some p =>
        obtain ⟨name, type, next⟩ := p
        have hmore := matchServerParameter_append more hmatch
        rw [List.cons_append] at hmore
        have hshape := (matchServerParameter_eq_some hmatch).1
        have hlength := congrArg List.length hshape
        simp only [serverPlaceholder, List.length_cons, List.length_append] at hlength
        simp only [hmatch] at hcode
        simp only [hmore]
        exact ⟨[name], next, opensBrace_suffix (hshape ▸ hbrace), by omega, hcode, rfl, rfl⟩
      | none =>
        have hmore : matchServerParameter (c :: (rest ++ more)) = none := by
          by_cases hopen : c = '{'
          · subst hopen
            exact matchServerParameter_closed more hbrace hmatch
          · exact matchServerParameter_of_ne hopen _
        simp only [hmatch] at hcode
        simp only [hmore]
        exact ⟨[], rest, hrest, le_rfl, hcode, rfl, rfl⟩
    | quoted t =>
      simp only [Lexeme.isLineComment, Bool.false_eq_true, false_and, if_false] at hcode ⊢
      exact ⟨[], after, hrest, by omega, hcode, rfl, rfl⟩
    | blockComment t =>
      simp only [Lexeme.isLineComment, Bool.false_eq_true, false_and, if_false] at hcode ⊢
      exact ⟨[], after, hrest, by omega, hcode, rfl, rfl⟩
    | lineComment t =>
      have hleft : after ≠ [] := hclosed rfl
      have hmore : after ++ more ≠ [] := by simp [hleft]
      simp only [hleft, and_false, if_false] at hcode
      simp only [hleft, hmore, and_false, if_false]
      exact ⟨[], after, hrest, by omega, hcode, rfl, rfl⟩

/-- The server sees the placeholders of a text that leaves no quote, comment or brace open, and
then those of the text behind it. -/
theorem nativeScan_front {fuel n : ℕ} {front : Text} (more : Text)
    (hbrace : opensBrace front = false) (hcode : (nativeScan fuel front).2 = true)
    (hfuel : front.length ≤ fuel) (hseam : ∀ d, more.head? = some d → seam d = true)
    (hn : (front ++ more).length ≤ n) :
    ∃ m, more.length ≤ m ∧ nativeScan n (front ++ more) =
      ((nativeScan fuel front).1 ++ (nativeScan m more).1, (nativeScan m more).2) := by
  induction fuel generalizing n front with
  | zero =>
    have hnil : front = [] := List.length_eq_zero_iff.mp (Nat.le_zero.mp hfuel)
    subst hnil
    exact ⟨n, hn, rfl⟩
  | succ fuel ih =>
    cases front with
    | nil => exact ⟨n, hn, rfl⟩
    | cons c rest =>
      simp only [List.cons_append, List.length_cons, List.length_append] at hfuel hn
      obtain ⟨m, rfl⟩ : ∃ m, n = m + 1 := ⟨n - 1, by omega⟩
      obtain ⟨names, next, hopens, hshort, hends, hfirst, hscan⟩ :=
        nativeScan_step (n := m) hbrace hcode hseam
      have hlength : (next ++ more).length ≤ m := by
        rw [List.length_append]
        omega
      obtain ⟨k, hk, hnext⟩ := ih hopens hends (by omega) hlength
      refine ⟨k, hk, ?_⟩
      rw [List.cons_append, hscan, hnext, hfirst, List.append_assoc]

end Front

section Segments

def endsInComment (segs : List Segment) : Bool := (segs.getLast?.map Segment.isLineComment).getD false

theorem endsInComment_cons {seg : Segment} {segs : List Segment}
    (h : segs ≠ [] ∨ seg.isLineComment = false) :
    endsInComment (seg :: segs) = endsInComment segs := by
  unfold endsInComment
  cases segs with
  | nil =>
    rcases h with hne | hline
    · exact absurd rfl hne
    · simp [hline]
  | cons last rest => rw [List.getLast?_cons_cons]

/-- Of code the server sees the typed placeholders that the scan saw. -/
theorem nativeScan_code {c : Char} {rest after : Text} {seg : Segment} {m : ℕ}
    (hlex : nextLexeme c rest = .ok (.code c, rest)) (h : nextCode c rest = .ok (seg, after))
    (hm : rest.length ≤ m) :
    seg.isLineComment = false ∧ ∃ k, after.length ≤ k ∧
      nativeScan (m + 1) (c :: rest) =
        (seg.serverName?.toList ++ (nativeScan k after).1, (nativeScan k after).2) := by
  rw [nativeScan]
  simp only [hlex]
  unfold nextCode at h
  split at h
  · next name after' hmatch =>
    obtain ⟨rfl, rfl⟩ := Prod.mk.inj (Except.ok.inj h)
    obtain ⟨hshape, hname⟩ := matchParameter_eq_some hmatch
    have hwhole : c :: rest = '%' :: (('(' :: (name ++ ")s".toList)) ++ after') := by
      rw [hshape]
      simp [clientPlaceholder]
    obtain ⟨rfl, rfl⟩ := List.cons.inj hwhole
    have hplain : ('(' :: (name ++ ")s".toList)).all plainChar = true := by
      rw [List.all_eq_true]
      intro d hd
      rcases List.mem_cons.mp hd with rfl | hd
      · decide
      · rcases List.mem_append.mp hd with hd | hd
        · simp [plainChar, isIdentifier_mem hname d hd]
        · have hclose : ")s".toList.all plainChar = true := by decide
          exact List.all_eq_true.mp hclose d hd
    rw [List.length_append] at hm
    refine ⟨rfl, m - ('(' :: (name ++ ")s".toList)).length, by omega, ?_⟩
    simp only [matchServerParameter_of_ne (show '%' ≠ '{' by decide)]
    conv_lhs => rw [show m = (m - ('(' :: (name ++ ")s".toList)).length) +
      ('(' :: (name ++ ")s".toList)).length by omega]
    rw [nativeScan_plain hplain]
    rfl
  · split at h
    · split at h
      · simp [Outcome.raise] at h
      · next name type after' hmatch =>
        obtain ⟨rfl, rfl⟩ := Prod.mk.inj (Except.ok.inj h)
        have hlength := congrArg List.length (matchServerParameter_eq_some hmatch).1
        simp only [serverPlaceholder, List.length_cons, List.length_append] at hlength
        refine ⟨rfl, m, by omega, ?_⟩
        simp only [hmatch]
        rfl
    · next hbrace =>
      split at h
      · simp [Outcome.raise] at h
      · obtain ⟨rfl, rfl⟩ := Prod.mk.inj (Except.ok.inj h)
        refine ⟨rfl, m, hm, ?_⟩
        simp only [matchServerParameter_of_ne hbrace]
        rfl

/-- The server sees the placeholders that the scan of the filter saw, and the filter ends
in code for it unless its last segment is a line comment. -/
theorem nativeScan_segments {fuel n : ℕ} {value : Text} {segs : List Segment}
    (h : segmentsFrom fuel value = .ok segs) (hfuel : value.length ≤ fuel)
    (hn : value.length ≤ n) :
    nativeScan n value = (segs.filterMap Segment.serverName?, !endsInComment segs) := by
  induction fuel generalizing n value segs with
  | zero =>
    have hnil : value = [] := List.length_eq_zero_iff.mp (Nat.le_zero.mp hfuel)
    subst hnil
    cases Except.ok.inj h
    cases n <;> rfl
  | succ fuel ih =>
    cases value with
    | nil =>
      cases Except.ok.inj h
      cases n <;> rfl
    | cons c rest =>
      obtain ⟨⟨seg, after⟩, hseg, hrest⟩ := Except.bind_eq_ok.mp h
      obtain ⟨tail, htail, heq⟩ := Except.bind_eq_ok.mp hrest
      cases Except.ok.inj heq
      obtain ⟨htext, hne, hwell⟩ := nextSegment_spec hseg
      have hlength := congrArg List.length htext
      have hpos := List.length_pos_iff.mpr hne
      simp only [List.length_cons, List.length_append] at hlength hfuel hn
      obtain ⟨m, rfl⟩ : ∃ m, n = m + 1 := ⟨n - 1, by omega⟩
      have hafter := segmentsFrom_spec htail (by omega)
      have hih : ∀ k, after.length ≤ k →
          nativeScan k after = (tail.filterMap Segment.serverName?, !endsInComment tail) :=
        fun k hk => ih htail (by omega) hk
      cases hlex : nextLexeme c rest with
      | error e => cases e <;> simp [nextSegment, hlex, Outcome.raise] at hseg
      | ok p =>
        obtain ⟨lexeme, after'⟩ := p
        unfold nextSegment at hseg
        simp only [hlex] at hseg
        cases lexeme with
        | quoted t =>
          obtain ⟨rfl, rfl⟩ := Prod.mk.inj (Except.ok.inj hseg)
          rw [nativeScan, endsInComment_cons (Or.inr rfl)]
          simp only [hlex, Lexeme.isLineComment, Bool.false_eq_true, false_and, if_false]
          exact hih m (by omega)
        | blockComment t =>
          obtain ⟨rfl, rfl⟩ := Prod.mk.inj (Except.ok.inj hseg)
          rw [nativeScan, endsInComment_cons (Or.inr rfl)]
          simp only [hlex, Lexeme.isLineComment, Bool.false_eq_true, false_and, if_false]
          exact hih m (by omega)
        | lineComment t =>
          obtain ⟨rfl, rfl⟩ := Prod.mk.inj (Except.ok.inj hseg)
          rw [nativeScan]
          simp only [hlex]
          by_cases hnil : after' = []
          · subst hnil
            have htailNil : tail = [] := by
              cases fuel with
              | zero => exact (Except.ok.inj htail).symm
              | succ fuel => exact (Except.ok.inj htail).symm
            rw [htailNil]
            simp [Lexeme.isLineComment, Segment.serverName?, endsInComment, Segment.isLineComment]
          · have htailNe : tail ≠ [] := by
              rintro rfl
              exact hnil hafter.1.symm
            simp only [hnil, and_false, if_false]
            rw [endsInComment_cons (Or.inl htailNe)]
            exact hih m (by omega)
        | code d =>
          have hcode : d = c ∧ after' = rest := by
            obtain ⟨hlexeme, -⟩ := nextLexeme_text hlex
            simp only [Lexeme.text, List.singleton_append, List.cons.injEq] at hlexeme
            exact ⟨hlexeme.1.symm, hlexeme.2.symm⟩
          obtain ⟨rfl, rfl⟩ := hcode
          obtain ⟨hline, k, hk, hscan⟩ := nativeScan_code (m := m) hlex hseg (by omega)
          rw [hscan, hih k hk, endsInComment_cons (Or.inr hline)]
          cases hname : seg.serverName? with
          | none => simp [hname]
          | some name => simp [hname]

end Segments

end RayClickHouse.NativeScan
