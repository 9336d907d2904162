import RayClickHouse.FilterScan

/-!
The segments of a filter and what its bindings say about them. The scan is a
fold over the segments; a text whose code has no typed placeholder can match the
driver's pattern only from inside a quoted text or a comment.
-/
namespace RayClickHouse.FilterScan

open Text Lexical TypeText

def segmentsFrom : ℕ → Text → Outcome (List Segment)
  | _, [] => .ok []
  | 0, _ :: _ => .ok []
  | fuel + 1, c :: rest => do
      let (segment, after) ← nextSegment c rest
      let segments ← segmentsFrom fuel after
      .ok (segment :: segments)

def segments (value : Text) : Outcome (List Segment) := segmentsFrom value.length value

def segmentsText (segs : List Segment) : Text := segs.flatMap Segment.text

@[simp] theorem segmentsText_nil : segmentsText [] = [] := rfl

@[simp] theorem segmentsText_cons (seg : Segment) (segs : List Segment) :
    segmentsText (seg :: segs) = seg.text ++ segmentsText segs := rfl

section Step

theorem nextCode_text {c : Char} {rest after : Text} {seg : Segment}
    (h : nextCode c rest = .ok (seg, after)) : c :: rest = seg.text ++ after ∧ seg.text ≠ [] := by
  unfold nextCode at h
  split at h
  · rename_i name after' hmatch
    simp only [Except.ok.injEq, Prod.mk.injEq] at h
    obtain ⟨rfl, rfl⟩ := h
    exact ⟨(matchParameter_eq_some hmatch).1, by simp [Segment.text, clientPlaceholder]⟩
  · split at h
    · split at h
      · simp [Outcome.raise] at h
      · rename_i name type after' hmatch
        simp only [Except.ok.injEq, Prod.mk.injEq] at h
        obtain ⟨rfl, rfl⟩ := h
        exact ⟨(matchServerParameter_eq_some hmatch).1, by simp [Segment.text, serverPlaceholder]⟩
    · split at h
      · simp [Outcome.raise] at h
      · simp only [Except.ok.injEq, Prod.mk.injEq] at h
        obtain ⟨rfl, rfl⟩ := h
        simp [Segment.text]

/-- A segment of plain code is not an opening brace. -/
theorem nextCode_plain {c d : Char} {rest after : Text}
    (h : nextCode c rest = .ok (.plain d, after)) : d ≠ '{' := by
  unfold nextCode at h
  split at h
  · simp at h
  · split at h
    · split at h
      · simp [Outcome.raise] at h
      · simp at h
    · rename_i hbrace
      split at h
      · simp [Outcome.raise] at h
      · simp only [Except.ok.injEq, Prod.mk.injEq, Segment.plain.injEq] at h
        exact h.1 ▸ hbrace

theorem nextCode_client {c : Char} {rest after name : Text}
    (h : nextCode c rest = .ok (.client name, after)) : isIdentifier name = true := by
  unfold nextCode at h
  split at h
  · rename_i name' after' hmatch
    simp only [Except.ok.injEq, Prod.mk.injEq, Segment.client.injEq] at h
    exact h.1 ▸ (matchParameter_eq_some hmatch).2
  · split at h
    · split at h
      · simp [Outcome.raise] at h
      · simp at h
    · split at h
      · simp [Outcome.raise] at h
      · simp at h

theorem nextCode_server {c : Char} {rest after name type : Text}
    (h : nextCode c rest = .ok (.server name type, after)) :
    isIdentifier name = true ∧ type ≠ [] ∧ ∀ d ∈ type, notBrace d = true := by
  unfold nextCode at h
  split at h
  · simp at h
  · split at h
    · split at h
      · simp [Outcome.raise] at h
      · rename_i name' type' after' hmatch
        simp only [Except.ok.injEq, Prod.mk.injEq, Segment.server.injEq] at h
        obtain ⟨⟨rfl, rfl⟩, _⟩ := h
        exact (matchServerParameter_eq_some hmatch).2
    · split at h
      · simp [Outcome.raise] at h
      · simp at h

def Segment.WellFormed : Segment → Prop
  | .client name => isIdentifier name = true
  | .server name type => isIdentifier name = true ∧ type ≠ [] ∧ ∀ d ∈ type, notBrace d = true
  | .plain c => c ≠ '{'
  | _ => True

theorem nextSegment_spec {c : Char} {rest after : Text} {seg : Segment}
    (h : nextSegment c rest = .ok (seg, after)) :
    c :: rest = seg.text ++ after ∧ seg.text ≠ [] ∧ seg.WellFormed := by
  unfold nextSegment at h
  cases hlex : nextLexeme c rest with
  | error e => cases e <;> simp [hlex, Outcome.raise] at h
  | ok p =>
    obtain ⟨lexeme, after'⟩ := p
    have htext := nextLexeme_text hlex
    cases lexeme with
    | quoted t =>
      simp only [hlex, Except.ok.injEq, Prod.mk.injEq] at h
      obtain ⟨rfl, rfl⟩ := h
      exact ⟨htext.1, htext.2, trivial⟩
    | blockComment t =>
      simp only [hlex, Except.ok.injEq, Prod.mk.injEq] at h
      obtain ⟨rfl, rfl⟩ := h
      exact ⟨htext.1, htext.2, trivial⟩
    | lineComment t =>
      simp only [hlex, Except.ok.injEq, Prod.mk.injEq] at h
      obtain ⟨rfl, rfl⟩ := h
      exact ⟨htext.1, htext.2, trivial⟩
    | code d =>
      simp only [hlex] at h
      refine ⟨(nextCode_text h).1, (nextCode_text h).2, ?_⟩
      cases seg with
      | quoted t => trivial
      | comment t line => trivial
      | client name => exact nextCode_client h
      | server name type => exact nextCode_server h
      | plain d => exact nextCode_plain h

end Step

section Scan

/-- Enough fuel reads the whole text, and every segment is well formed. -/
theorem segmentsFrom_spec {fuel : ℕ} {value : Text} {segs : List Segment}
    (h : segmentsFrom fuel value = .ok segs) (hfuel : value.length ≤ fuel) :
    segmentsText segs = value ∧ ∀ seg ∈ segs, seg.WellFormed := by
  induction fuel generalizing value segs with
  | zero =>
    have hnil : value = [] := List.length_eq_zero_iff.mp (Nat.le_zero.mp hfuel)
    subst hnil
    cases Except.ok.inj h
    simp
  | succ fuel ih =>
    cases value with
    | nil =>
      cases Except.ok.inj h
      simp
    | cons c rest =>
      obtain ⟨⟨seg, after⟩, hseg, hrest⟩ := Except.bind_eq_ok.mp h
      obtain ⟨tail, htail, heq⟩ := Except.bind_eq_ok.mp hrest
      cases Except.ok.inj heq
      obtain ⟨htext, hne, hwell⟩ := nextSegment_spec hseg
      have hlen : after.length ≤ fuel := by
        have hl := congrArg List.length htext
        have hpos := List.length_pos_iff.mpr hne
        simp only [List.length_cons, List.length_append] at hl hfuel
        omega
      obtain ⟨ihtext, ihwell⟩ := ih htail hlen
      refine ⟨by rw [segmentsText_cons, ihtext, htext], ?_⟩
      intro s hs
      rcases List.mem_cons.mp hs with rfl | hs
      · exact hwell
      · exact ihwell s hs

theorem filterBindingsFrom_eq_ok [UnicodeDatabase] {fuel : ℕ} {value : Text} {b b' : FilterBindings}
    (h : filterBindingsFrom fuel b value = .ok b') :
    ∃ segs, segmentsFrom fuel value = .ok segs ∧ segs.foldlM FilterBindings.add b = .ok b' := by
  induction fuel generalizing value b with
  | zero =>
    cases value <;> exact ⟨[], rfl, h⟩
  | succ fuel ih =>
    cases value with
    | nil => exact ⟨[], rfl, h⟩
    | cons c rest =>
      obtain ⟨⟨seg, after⟩, hseg, hrest⟩ := Except.bind_eq_ok.mp h
      obtain ⟨b₁, hadd, hrec⟩ := Except.bind_eq_ok.mp hrest
      obtain ⟨segs, hsegs, hfold⟩ := ih hrec
      refine ⟨seg :: segs, ?_, ?_⟩
      · exact Except.bind_eq_ok.mpr ⟨(seg, after), hseg,
          Except.bind_eq_ok.mpr ⟨segs, hsegs, rfl⟩⟩
      · rw [List.foldlM_cons]
        exact Except.bind_eq_ok.mpr ⟨b₁, hadd, hfold⟩

end Scan

section Fold

theorem finish_serverTypes (b : FilterBindings) : b.finish.serverTypes = b.serverTypes := by
  unfold FilterBindings.finish
  split <;> rfl

theorem finish_ambiguous (b : FilterBindings) : b.finish.ambiguous = b.ambiguous := by
  unfold FilterBindings.finish
  split <;> rfl

variable [UnicodeDatabase]

def Segment.serverName? : Segment → Option Text
  | .server name _ => some name
  | _ => none

def Segment.looksTyped (seg : Segment) : Bool := (seg.hidden.map driverSearch).getD false

theorem add_clientNames {b b' : FilterBindings} {seg : Segment} (h : b.add seg = .ok b') :
    b.clientNames ⊆ b'.clientNames := by
  cases seg with
  | server name type =>
    obtain ⟨hint, _, hrest⟩ := Except.bind_eq_ok.mp h
    split at hrest
    · split at hrest
      · cases Except.ok.inj hrest
        exact fun n hn => hn
      · simp [Outcome.raise] at hrest
    · cases Except.ok.inj hrest
      exact fun n hn => hn
  | client name =>
    cases Except.ok.inj h
    exact List.subset_append_left _ _
  | quoted t =>
    cases Except.ok.inj h
    exact fun n hn => hn
  | comment t line =>
    cases Except.ok.inj h
    exact fun n hn => hn
  | plain c =>
    cases Except.ok.inj h
    exact fun n hn => hn

/-- The client names collected so far stay collected. -/
theorem filterBindingsFrom_clientNames {fuel : ℕ} {b b' : FilterBindings} {value : Text}
    (h : filterBindingsFrom fuel b value = .ok b') : b.clientNames ⊆ b'.clientNames := by
  induction fuel generalizing b value with
  | zero =>
    cases value <;> cases Except.ok.inj h <;> exact fun n hn => hn
  | succ fuel ih =>
    cases value with
    | nil =>
      cases Except.ok.inj h
      exact fun n hn => hn
    | cons c rest =>
      obtain ⟨⟨seg, after⟩, _, hrest⟩ := Except.bind_eq_ok.mp h
      obtain ⟨b₁, hadd, hrec⟩ := Except.bind_eq_ok.mp hrest
      exact fun n hn => ih hrec (add_clientNames hadd hn)

/-- One segment changes the names of the typed placeholders and the ambiguity
flag, each by what that segment shows. -/
theorem add_spec {b b' : FilterBindings} {seg : Segment} (h : b.add seg = .ok b') :
    (∀ name, name ∈ b'.serverTypes.map Prod.fst ↔
        name ∈ b.serverTypes.map Prod.fst ∨ seg.serverName? = some name) ∧
      b'.ambiguous = (b.ambiguous || seg.looksTyped) := by
  cases seg with
  | quoted t =>
    cases Except.ok.inj h
    simp [Segment.serverName?, Segment.looksTyped, Segment.hidden]
  | comment t line =>
    cases Except.ok.inj h
    simp [Segment.serverName?, Segment.looksTyped, Segment.hidden]
  | client name =>
    cases Except.ok.inj h
    simp [Segment.serverName?, Segment.looksTyped, Segment.hidden]
  | plain c =>
    cases Except.ok.inj h
    simp [Segment.serverName?, Segment.looksTyped, Segment.hidden]
  | server name type =>
    obtain ⟨hint, _, hrest⟩ := Except.bind_eq_ok.mp h
    cases hlookup : b.serverTypes.lookup name with
    | some known =>
      simp only [hlookup] at hrest
      split at hrest
      · cases Except.ok.inj hrest
        have hmem : name ∈ b.serverTypes.map Prod.fst := by
          by_contra hcon
          have hnone : b.serverTypes.lookup name = none := by
            rw [List.lookup_eq_none_iff]
            intro p hp
            have hne : p.1 ≠ name := fun heq => hcon (heq ▸ List.mem_map_of_mem hp)
            simpa using Ne.symm hne
          rw [hnone] at hlookup
          contradiction
        refine ⟨?_, by simp [Segment.looksTyped, Segment.hidden]⟩
        intro other
        constructor
        · exact Or.inl
        · rintro (hin | heq)
          · exact hin
          · cases Option.some.inj heq
            exact hmem
      · simp [Outcome.raise] at hrest
    | none =>
      simp only [hlookup] at hrest
      cases Except.ok.inj hrest
      refine ⟨?_, by simp [Segment.looksTyped, Segment.hidden]⟩
      intro other
      simp only [List.map_append, List.map_cons, List.map_nil, List.mem_append,
        List.mem_singleton, Segment.serverName?, Option.some.injEq]
      exact or_congr_right eq_comm

theorem foldlM_add_spec {segs : List Segment} {b b' : FilterBindings}
    (h : segs.foldlM FilterBindings.add b = .ok b') :
    (∀ name, name ∈ b'.serverTypes.map Prod.fst ↔
        name ∈ b.serverTypes.map Prod.fst ∨ ∃ seg ∈ segs, seg.serverName? = some name) ∧
      b'.ambiguous = (b.ambiguous || segs.any Segment.looksTyped) := by
  induction segs generalizing b with
  | nil =>
    cases Except.ok.inj h
    simp
  | cons seg rest ih =>
    rw [List.foldlM_cons] at h
    obtain ⟨b₁, hadd, hrest⟩ := Except.bind_eq_ok.mp h
    obtain ⟨hnames, hamb⟩ := add_spec hadd
    obtain ⟨ihnames, ihamb⟩ := ih hrest
    refine ⟨?_, ?_⟩
    · intro name
      rw [ihnames, hnames]
      simp only [List.mem_cons, exists_eq_or_imp, or_assoc]
    · rw [ihamb, hamb, List.any_cons, Bool.or_assoc]

/-- The bindings of a filter in terms of its segments. -/
theorem filterBindings_spec {value : Text} {b : FilterBindings} (h : filterBindings value = .ok b) :
    ∃ segs, segments value = .ok segs ∧ segmentsText segs = value ∧
      (∀ seg ∈ segs, seg.WellFormed) ∧
      (∀ name, name ∈ b.serverTypes.map Prod.fst ↔ ∃ seg ∈ segs, seg.serverName? = some name) ∧
      b.ambiguous = segs.any Segment.looksTyped := by
  obtain ⟨b₀, hscan, hfinish⟩ := Except.bind_eq_ok.mp h
  cases Except.ok.inj hfinish
  obtain ⟨segs, hsegs, hfold⟩ := filterBindingsFrom_eq_ok hscan
  obtain ⟨htext, hwell⟩ := segmentsFrom_spec hsegs (Nat.le_refl _)
  obtain ⟨hnames, hamb⟩ := foldlM_add_spec hfold
  refine ⟨segs, hsegs, htext, hwell, ?_, ?_⟩
  · intro name
    rw [finish_serverTypes, hnames]
    simp
  · rw [finish_ambiguous, hamb]
    simp

end Fold

section Crossing

variable [UnicodeDatabase]

/-- A match of the driver's pattern begins in the first text, whatever its end. -/
def driverStartsIn : Text → Text → Bool
  | [], _ => false
  | c :: part, rest =>
      (matchDriverParameter (c :: (part ++ rest))).isSome || driverStartsIn part rest

def driverCrosses : Text → Text → Bool
  | [], _ => false
  | c :: part, rest =>
      ((matchDriverParameter (c :: (part ++ rest))).any fun after => after.length < rest.length) ||
        driverCrosses part rest

/-- Some quoted text or comment is left by a match that begins inside it. -/
def crossesHidden : List Segment → Bool
  | [] => false
  | seg :: rest =>
      (seg.hidden.any fun t => driverCrosses t (segmentsText rest)) || crossesHidden rest

theorem driverSearch_append (part rest : Text) :
    driverSearch (part ++ rest) = (driverStartsIn part rest || driverSearch rest) := by
  induction part with
  | nil => simp [driverStartsIn]
  | cons c part ih =>
    have hsearch : driverSearch (c :: (part ++ rest)) =
        ((matchDriverParameter (c :: (part ++ rest))).isSome || driverSearch (part ++ rest)) := rfl
    rw [List.cons_append, hsearch, ih, driverStartsIn, Bool.or_assoc]

theorem driverStartsIn_of_no_brace {part : Text} (h : '{' ∉ part) (rest : Text) :
    driverStartsIn part rest = false := by
  induction part with
  | nil => rfl
  | cons c part ih =>
    have hc : c ≠ '{' := fun heq => h (heq ▸ List.mem_cons_self ..)
    have hnone : matchDriverParameter (c :: (part ++ rest)) = none := by
      unfold matchDriverParameter
      split
      · rename_i heq
        exact absurd (List.cons.inj heq).1 hc
      · rfl
    rw [driverStartsIn, hnone, ih (fun hin => h (List.mem_cons_of_mem _ hin))]
    rfl

/-- A match that begins in a text ends in it or crosses its end. -/
theorem driverStartsIn_eq (part rest : Text) :
    driverStartsIn part rest = (driverSearch part || driverCrosses part rest) := by
  induction part with
  | nil => rfl
  | cons c part ih =>
    have hsearch : driverSearch (c :: part) =
        ((matchDriverParameter (c :: part)).isSome || driverSearch part) := rfl
    rw [driverStartsIn, ih, hsearch, driverCrosses]
    have hhead : (matchDriverParameter (c :: (part ++ rest))).isSome =
        ((matchDriverParameter (c :: part)).isSome ||
          (matchDriverParameter (c :: (part ++ rest))).any
            fun after => after.length < rest.length) := by
      rw [Bool.eq_iff_iff]
      simp only [Bool.or_eq_true, Option.isSome_iff_exists, Option.any_eq_true, decide_eq_true_eq]
      constructor
      · rintro ⟨after, hafter⟩
        by_cases hlen : after.length < rest.length
        · exact Or.inr ⟨after, hafter, hlen⟩
        · left
          obtain ⟨name, body, heq, hmatch⟩ := matchDriverParameter_eq_some.mp hafter
          have hsplit : (c :: part) ++ rest = ('{' :: (name ++ ':' :: (body ++ ['}']))) ++ after := by
            rw [List.cons_append, heq]
            simp
          obtain ⟨more, hmore, hrest⟩ | ⟨more, hmore, hrest⟩ := List.append_eq_append_iff.mp hsplit
          · have hl := congrArg List.length hrest
            simp only [List.length_append] at hl
            have hnil : more = [] := List.length_eq_zero_iff.mp (by omega)
            subst hnil
            refine ⟨[], matchDriverParameter_eq_some.mpr ⟨name, body, ?_, hmatch⟩⟩
            simpa using hmore.symm
          · exact ⟨more, matchDriverParameter_eq_some.mpr ⟨name, body, by simpa using hmore, hmatch⟩⟩
      · rintro (⟨after, hafter⟩ | ⟨after, hafter, _⟩)
        · obtain ⟨name, body, heq, hmatch⟩ := matchDriverParameter_eq_some.mp hafter
          refine ⟨after ++ rest, matchDriverParameter_eq_some.mpr ⟨name, body, ?_, hmatch⟩⟩
          rw [← List.cons_append, heq]
          simp
        · exact ⟨after, hafter⟩
    rw [hhead]
    cases (matchDriverParameter (c :: part)).isSome <;>
      cases driverSearch part <;> simp

/-- Without typed placeholders in code and without matches inside quotes and
comments, only a crossing match is left. -/
theorem driverSearch_segments {segs : List Segment} (hwell : ∀ seg ∈ segs, seg.WellFormed)
    (hserver : ∀ seg ∈ segs, seg.serverName? = none)
    (hplain : segs.any Segment.looksTyped = false) :
    driverSearch (segmentsText segs) = crossesHidden segs := by
  induction segs with
  | nil => rfl
  | cons seg rest ih =>
    rw [List.any_cons, Bool.or_eq_false_iff] at hplain
    have hrest := ih (fun s hs => hwell s (List.mem_cons_of_mem _ hs))
      (fun s hs => hserver s (List.mem_cons_of_mem _ hs)) hplain.2
    rw [segmentsText_cons, driverSearch_append, hrest, crossesHidden]
    congr 1
    have hself := hwell seg (List.mem_cons_self ..)
    cases seg with
    | quoted t =>
      have ht : driverSearch t = false := by
        simpa [Segment.looksTyped, Segment.hidden] using hplain.1
      simp [Segment.text, Segment.hidden, driverStartsIn_eq, ht]
    | comment t line =>
      have ht : driverSearch t = false := by
        simpa [Segment.looksTyped, Segment.hidden] using hplain.1
      simp [Segment.text, Segment.hidden, driverStartsIn_eq, ht]
    | client name =>
      have hbrace : '{' ∉ clientPlaceholder name := by
        have hname := isIdentifier_not_mem hself (c := '{') (by decide)
        simp [clientPlaceholder, hname]
      simp [Segment.text, Segment.hidden, driverStartsIn_of_no_brace hbrace]
    | plain c =>
      have hbrace : '{' ∉ [c] := by
        simpa using Ne.symm hself
      simp [Segment.text, Segment.hidden, driverStartsIn_of_no_brace hbrace]
    | server name type =>
      have := hserver _ (List.mem_cons_self ..)
      simp [Segment.serverName?] at this

/-- A typed placeholder in code matches the driver's pattern. -/
theorem driverSearch_of_server {segs : List Segment} (hwell : ∀ seg ∈ segs, seg.WellFormed)
    {name type : Text} (hmem : Segment.server name type ∈ segs) :
    driverSearch (segmentsText segs) = true := by
  obtain ⟨before, after, rfl⟩ := List.append_of_mem hmem
  obtain ⟨hname, hne, htype⟩ : isIdentifier name = true ∧ type ≠ [] ∧
      ∀ d ∈ type, notBrace d = true := hwell _ hmem
  apply driverSearch_eq_true.mpr
  refine ⟨segmentsText before, name, type, segmentsText after, ?_, isIdentifier_ne_nil hname, ?_,
    hne, htype⟩
  · simp [segmentsText, Segment.text, serverPlaceholder]
  · intro c hc
    exact isWord_of_isIdentPart (isIdentifier_mem hname c hc)

end Crossing

end RayClickHouse.FilterScan
