import RayClickHouse.QueryCode
import RayClickHouse.SteadyText
import RayClickHouse.SelectText
import RayClickHouse.TransportReading

/-!
A filter whose bindings can be read has a mask. Both scans agree on quoted text and on
comments; they differ at placeholders only, and a placeholder that is read as one
segment falls apart into code, or into code and one quoted time zone.
-/
namespace RayClickHouse.FilterScan

open Text Lexical TypeText Schema

def Lexable (s : Text) : Prop := ∃ ls, Lexes s ls

/-- What follows the text, other than a quote, is read as if the text were not there. -/
def Passes (t : Text) : Prop := ∀ rest, noQuote rest → Lexable rest → Lexable (t ++ rest)

def openers : List Char := ['\'', '"', '`', '/', '-', '#']

def quietChar (c : Char) : Bool := !(isQuoteChar c || c == '/' || c == '-' || c == '#')

section Quiet

variable {c : Char} {s t rest : Text}

theorem quietChar_eq_true :
    quietChar c = true ↔ isQuoteChar c = false ∧ c ≠ '/' ∧ c ≠ '-' ∧ c ≠ '#' := by
  simp only [quietChar, Bool.not_eq_true', Bool.or_eq_false_iff, beq_eq_false_iff_ne, ne_eq,
    and_assoc]

theorem nextLexeme_quiet (h : quietChar c = true) (rest : Text) :
    nextLexeme c rest = .ok (.code c, rest) := by
  obtain ⟨hquote, hslash, hminus, hhash⟩ := quietChar_eq_true.mp h
  exact nextLexeme_code hquote hslash (by simp [startsLineComment, hminus, hhash])

theorem noQuote_of_quiet (h : quietChar c = true) (rest : Text) : noQuote (c :: rest) :=
  noQuote_cons (quietChar_eq_true.mp h).1 rest

theorem lexable_cons (h : quietChar c = true) (hrest : Lexable rest) : Lexable (c :: rest) := by
  obtain ⟨ls, hls⟩ := hrest
  exact ⟨_, .cons (nextLexeme_quiet h rest) hls⟩

theorem lexable_quiet (hs : ∀ c ∈ s, quietChar c = true) (hrest : Lexable rest) :
    Lexable (s ++ rest) := by
  induction s with
  | nil => exact hrest
  | cons c s ih =>
    exact lexable_cons (hs c (List.mem_cons_self ..))
      (ih fun d hd => hs d (List.mem_cons_of_mem _ hd))

theorem Passes.of_quiet (hs : ∀ c ∈ s, quietChar c = true) : Passes s :=
  fun _ _ hrest => lexable_quiet hs hrest

theorem Passes.append (hs : Passes s) (ht : Passes t) (hhead : noQuote t) : Passes (s ++ t) := by
  intro rest hnoQuote hrest
  rw [List.append_assoc]
  exact hs _ (noQuote_append hhead hnoQuote) (ht _ hnoQuote hrest)

theorem Passes.plain (hs : ∀ c ∈ s, quietChar c = true) (ht : Passes t) : Passes (s ++ t) := by
  intro rest hnoQuote hrest
  rw [List.append_assoc]
  exact lexable_quiet hs (ht _ hnoQuote hrest)

theorem noQuote_quiet (hs : ∀ c ∈ s, quietChar c = true) : noQuote s := by
  intro c hc
  exact (quietChar_eq_true.mp (hs c (List.mem_of_mem_head? hc))).1

theorem quietChar_of_ne (hne : ∀ d ∈ openers, c ≠ d) : quietChar c = true := by
  refine quietChar_eq_true.mpr ⟨?_, hne '/' (by decide), hne '-' (by decide), hne '#' (by decide)⟩
  simp [isQuoteChar, hne '\'' (by decide), hne '"' (by decide), hne '`' (by decide)]

theorem quietChar_of_isSpace (h : isSpace c = true) : quietChar c = true := by
  apply quietChar_of_ne
  rintro d hd rfl
  have hall : openers.all (fun e => !isSpace e) = true := by decide
  simpa [h] using List.all_eq_true.mp hall c hd

theorem quietChar_of_isIdentPart (h : isIdentPart c = true) : quietChar c = true := by
  apply quietChar_of_ne
  rintro d hd rfl
  have hall : openers.all (fun e => !isIdentPart e) = true := by decide
  simpa [h] using List.all_eq_true.mp hall c hd

theorem Passes.spaced (hs : Passes s) {before after : Text} (hbefore : ∀ c ∈ before, isSpace c = true)
    (hafter : ∀ c ∈ after, isSpace c = true) : Passes (before ++ s ++ after) := by
  have hquiet : ∀ c ∈ after, quietChar c = true := fun c hc => quietChar_of_isSpace (hafter c hc)
  rw [List.append_assoc]
  exact Passes.plain (fun c hc => quietChar_of_isSpace (hbefore c hc))
    (hs.append (Passes.of_quiet hquiet) (noQuote_quiet hquiet))

theorem Passes.of_strip (h : Passes (strip s)) : Passes s := by
  obtain ⟨before, after, hs, hbefore, hafter⟩ := strip_decompose s
  rw [hs]
  exact h.spaced hbefore hafter

end Quiet

section Numbers

variable [UnicodeDatabase] {c : Char} {s : Text}

theorem quietChar_of_decimal {v : ℕ} (h : UnicodeDatabase.decimal c = some v) :
    quietChar c = true := by
  apply quietChar_of_ne
  rintro d hd rfl
  have hall : openers.all (fun e => decide (e.toNat < 128) && !e.isDigit) = true := by decide
  have hascii : c.toNat < 128 ∧ c.isDigit = false := by
    simpa using List.all_eq_true.mp hall c hd
  rw [UnicodeDatabase.decimal_ascii c hascii.1, hascii.2] at h
  contradiction

theorem intDigits_quiet {acc n : ℕ} (h : intDigits acc s = some n) :
    ∀ c ∈ s, quietChar c = true := by
  induction acc, s using intDigits.induct with
  | case1 acc => simp
  | case2 acc => simp [intDigits] at h
  | case3 acc d rest ih =>
    obtain ⟨v, hv, hrest⟩ := Option.bind_eq_some_iff.mp (show _ = some n from h)
    intro c hc
    rcases List.mem_cons.mp hc with rfl | hc
    · decide
    · rcases List.mem_cons.mp hc with rfl | hc
      · exact quietChar_of_decimal hv
      · exact ih v hrest c hc
  | case4 acc d rest hne ih =>
    rw [intDigits] at h
    · obtain ⟨v, hv, hrest⟩ := Option.bind_eq_some_iff.mp h
      intro c hc
      rcases List.mem_cons.mp hc with rfl | hc
      · exact quietChar_of_decimal hv
      · exact ih v hrest c hc
    · exact hne

/-- The digits of a number are code, also behind a minus sign. -/
theorem Passes.of_toInt {n : ℤ} (h : toInt s = some n) : Passes s := by
  apply Passes.of_strip
  have hdigits : ∀ {d : Char} {rest : Text} {f : ℤ → ℤ} {i : ℤ},
      ((UnicodeDatabase.decimal d).bind fun v => Option.map f do
        let n ← intDigits v rest
        pure (n : ℤ)) = some i → ∀ c ∈ d :: rest, quietChar c = true := by
    intro d rest f i hi
    obtain ⟨v, hv, hmap⟩ := Option.bind_eq_some_iff.mp hi
    obtain ⟨_, hcast, -⟩ := Option.map_eq_some_iff.mp hmap
    obtain ⟨m, hm, -⟩ := Option.bind_eq_some_iff.mp hcast
    intro c hc
    rcases List.mem_cons.mp hc with rfl | hc
    · exact quietChar_of_decimal hv
    · exact intDigits_quiet hm c hc
  unfold toInt at h
  split at h
  · contradiction
  · rename_i d rest hstrip
    rw [hstrip]
    intro more _ hmore
    have hquiet := hdigits h
    have hd : d ≠ '-' := (quietChar_eq_true.mp (hquiet d (List.mem_cons_self ..))).2.2.1
    obtain ⟨ls, hls⟩ := lexable_quiet hquiet hmore
    exact ⟨_, .cons (nextLexeme_code rfl (by decide) (by simp [startsLineComment, hd])) hls⟩
  · rename_i d rest hstrip
    rw [hstrip]
    refine Passes.of_quiet fun c hc => ?_
    rcases List.mem_cons.mp hc with rfl | hc
    · decide
    · exact hdigits h c hc
  · rename_i d rest _ _ hstrip
    rw [hstrip]
    exact Passes.of_quiet (hdigits h)

omit [UnicodeDatabase] in
theorem Passes.of_timezone (h : isTimezoneLiteral s = true) : Passes s := by
  unfold isTimezoneLiteral at h
  split at h
  · rename_i rest
    simp only [Bool.and_eq_true, beq_iff_eq, List.all_eq_true] at h
    obtain ⟨⟨hlast, -⟩, hbody⟩ := h
    have hne : rest ≠ [] := by
      rintro rfl
      simp at hlast
    have hrest : rest = rest.dropLast ++ ['\''] := by
      rw [List.getLast?_eq_getLast_of_ne_nil hne, Option.some.injEq] at hlast
      rw [← hlast, List.dropLast_append_getLast]
    have hmem : ∀ d : Char, (isIdentPart d || "./+:-".toList.contains d) = false →
        d ∉ rest.dropLast := by
      intro d hd hin
      rw [hbody d hin] at hd
      contradiction
    intro more hmore hlex
    obtain ⟨ls, hls⟩ := hlex
    have hclosed : more.head? ≠ some '\'' := by
      intro heq
      have hquote := hmore '\'' heq
      contradiction
    have hnext : nextLexeme '\'' (rest ++ more) =
        .ok (.quoted ('\'' :: (rest.dropLast ++ ['\''])), more) := by
      rw [hrest, List.append_assoc, List.singleton_append]
      unfold nextLexeme
      rw [if_pos (by decide), scanQuote_plain (hmem '\'' (by decide)) (hmem '\\' (by decide))
        (by decide) hclosed]
      simp
    exact ⟨_, .cons hnext hls⟩
  · contradiction

end Numbers

section Types

variable [UnicodeDatabase] {value name inner : Text} {arguments : List Text}

omit [UnicodeDatabase] in
theorem Passes.of_arguments (h : splitTypeArguments inner = .ok arguments)
    (harguments : ∀ a ∈ arguments, Passes a) : Passes inner := by
  obtain ⟨first, others, rfl, rfl, -, -⟩ := split_pieces h
  rw [List.forall_mem_cons, List.forall_mem_map] at harguments
  obtain ⟨hfirst, hothers⟩ := harguments
  clear h
  refine Passes.append (Passes.of_strip hfirst) ?_ ?_
  · induction others with
    | nil => exact Passes.of_quiet (by simp)
    | cons o others ih =>
      have ho : Passes (',' :: o) :=
        Passes.plain (List.all_eq_true.mp (show [','].all quietChar = true by decide))
          (Passes.of_strip (hothers o (List.mem_cons_self ..)))
      have hhead : noQuote (others.flatMap (',' :: ·)) := by
        cases others with
        | nil => simp [noQuote]
        | cons p others => exact noQuote_of_quiet (by decide) _
      rw [List.flatMap_cons]
      exact ho.append (ih (fun a ha => hothers a (List.mem_cons_of_mem _ ha))) hhead
  · cases others with
    | nil => simp [noQuote]
    | cons o others => exact noQuote_of_quiet (by decide) _

omit [UnicodeDatabase] in
theorem Passes.of_type (h : parseType value = .ok ⟨name, arguments⟩)
    (hname : isIdentifier name = true) (harguments : ∀ a ∈ arguments, Passes a) :
    Passes value := by
  have hquiet : ∀ c ∈ name, quietChar c = true :=
    fun c hc => quietChar_of_isIdentPart (isIdentifier_mem hname c hc)
  apply Passes.of_strip
  obtain ⟨hstrip, -⟩ | ⟨gap, x, hstrip, hgap, hsplit⟩ := parseType_form h hname
  · rw [hstrip]
    exact Passes.of_quiet hquiet
  · have hparen : Passes (x ++ [')']) :=
      (Passes.of_arguments hsplit harguments).append (Passes.of_quiet (List.all_eq_true.mp (by decide)))
        (noQuote_of_quiet (by decide) _)
    have hopen : ∀ c ∈ gap ++ ['('], quietChar c = true := by
      intro c hc
      rcases List.mem_append.mp hc with hc | hc
      · exact quietChar_of_isSpace (hgap c hc)
      · rw [List.mem_singleton.mp hc]
        decide
    have happend : gap ++ '(' :: (x ++ [')']) = gap ++ ['('] ++ (x ++ [')']) := by simp
    rw [hstrip]
    simp only
    rw [happend]
    exact Passes.plain hquiet (Passes.plain hopen hparen)

theorem decimalParameter_passes {hint : Text} (h : decimalParameter name arguments = some hint) :
    ∀ a ∈ arguments, Passes a := by
  unfold decimalParameter at h
  simp only at h
  split at h
  · rename_i p s _
    obtain ⟨_, hp, hrest⟩ := Option.bind_eq_some_iff.mp h
    obtain ⟨_, hs, -⟩ := Option.bind_eq_some_iff.mp hrest
    simp [Passes.of_toInt hp, Passes.of_toInt hs]
  · rename_i s _
    obtain ⟨_, hs, -⟩ := Option.bind_eq_some_iff.mp h
    simp [Passes.of_toInt hs]
  · contradiction

omit [UnicodeDatabase] in
/-- A last argument that is accepted as a time zone. -/
theorem zone_passes {values : List Text} {zone : Text} {k : ℕ} (hlast : values.getLast? = some zone)
    (hlength : k < values.length)
    (h : ¬ (k < values.length ∧ (values.getLast?.map isTimezoneLiteral).getD false = false)) :
    Passes zone := by
  rw [hlast] at h
  apply Passes.of_timezone
  by_contra hcon
  exact h ⟨hlength, by simpa using hcon⟩

theorem dateTimeParameter_passes {hint : Text} (h : dateTimeParameter name arguments = some hint) :
    ∀ a ∈ arguments, Passes a := by
  unfold dateTimeParameter at h
  simp only at h
  split at h
  · split at h
    · contradiction
    · rename_i hlength
      obtain ⟨values, hvalues, hlast⟩ := Option.bind_eq_some_iff.mp h
      obtain rfl := Option.some.inj hvalues
      split at hlast
      · contradiction
      · rename_i hzone
        cases arguments with
        | nil => simp
        | cons zone more =>
          obtain rfl : more = [] := List.length_eq_zero_iff.mp (by simpa using hlength)
          intro a ha
          rw [List.mem_singleton.mp ha]
          exact zone_passes rfl (by simp) hzone
  · cases arguments with
    | nil => contradiction
    | cons precision zone =>
      obtain ⟨n, hn, hrest⟩ := Option.bind_eq_some_iff.mp h
      split at hrest
      · rename_i hbounds
        obtain ⟨values, hvalues, hlast⟩ := Option.bind_eq_some_iff.mp hrest
        obtain rfl := Option.some.inj hvalues
        split at hlast
        · contradiction
        · rename_i hzone
          rw [List.forall_mem_cons]
          refine ⟨Passes.of_toInt hn, ?_⟩
          cases zone with
          | nil => simp
          | cons zone more =>
            obtain rfl : more = [] := List.length_eq_zero_iff.mp (by simpa using hbounds.1)
            intro a ha
            rw [List.mem_singleton.mp ha]
            exact zone_passes rfl (by simp) hzone
      · contradiction

omit [UnicodeDatabase] in
theorem scalar_identifiers : ∀ n ∈ scalarParameterTypes, isIdentifier n = true := by
  decide

omit [UnicodeDatabase] in
theorem decimal_identifiers :
    ∀ n ∈ ["Decimal", "Decimal32", "Decimal64", "Decimal128"].map String.toList,
      isIdentifier n = true := by
  decide

theorem parameterTypeWithin_passes {fuel : ℕ} {hint : Text}
    (h : parameterTypeWithin fuel value = some hint) : Passes value := by
  induction fuel generalizing value hint with
  | zero => contradiction
  | succ fuel ih =>
    unfold parameterTypeWithin at h
    split at h
    · contradiction
    · rename_i name arguments hparse
      split at h
      · rename_i hscalar
        rw [hscalar.2] at hparse
        exact Passes.of_type hparse (scalar_identifiers name hscalar.1) (by simp)
      · split at h
        · rename_i hname
          split at h
          · rename_i argument
            obtain ⟨inner, hinner, -⟩ := Option.bind_eq_some_iff.mp h
            refine Passes.of_type hparse (by rw [hname]; decide) ?_
            intro a ha
            rw [List.mem_singleton.mp ha]
            exact ih hinner
          · contradiction
        · split at h
          · rename_i hname
            split at h
            · rename_i argument
              obtain ⟨length, hlength, -⟩ := Option.bind_eq_some_iff.mp h
              refine Passes.of_type hparse (by rw [hname]; decide) ?_
              intro a ha
              rw [List.mem_singleton.mp ha]
              exact Passes.of_toInt hlength
            · contradiction
          · split at h
            · rename_i hname
              exact Passes.of_type hparse (decimal_identifiers name hname)
                (decimalParameter_passes h)
            · split at h
              · rename_i hname
                refine Passes.of_type hparse ?_ (dateTimeParameter_passes h)
                rcases hname with rfl | rfl <;> decide
              · contradiction

end Types

section Filter

variable [UnicodeDatabase] {value name type rest : Text}

omit [UnicodeDatabase] in
theorem lexable_client (hname : isIdentifier name = true) (hrest : Lexable rest) :
    Lexable (clientPlaceholder name ++ rest) := by
  refine lexable_quiet (fun c hc => ?_) hrest
  rcases List.mem_append.mp hc with hc | hc
  · rcases List.mem_append.mp hc with hc | hc
    · exact List.all_eq_true.mp (show "%(".toList.all quietChar = true by decide) c hc
    · exact quietChar_of_isIdentPart (isIdentifier_mem hname c hc)
  · exact List.all_eq_true.mp (show ")s".toList.all quietChar = true by decide) c hc

omit [UnicodeDatabase] in
theorem lexable_server (hname : isIdentifier name = true) (htype : Passes type)
    (hrest : Lexable rest) : Lexable (serverPlaceholder name type ++ rest) := by
  have hshape : serverPlaceholder name type ++ rest =
      '{' :: (name ++ ':' :: (type ++ '}' :: rest)) := by
    simp [serverPlaceholder]
  rw [hshape]
  apply lexable_cons (by decide)
  apply lexable_quiet fun c hc => quietChar_of_isIdentPart (isIdentifier_mem hname c hc)
  apply lexable_cons (by decide)
  exact htype _ (noQuote_of_quiet (by decide) rest) (lexable_cons (by decide) hrest)

theorem parameterType_passes {hint : Text} (h : parameterType value = .ok hint) :
    Passes value := by
  unfold parameterType at h
  cases hwithin : parameterTypeWithin (value.length + 1) value with
  | none =>
    rw [hwithin] at h
    contradiction
  | some hint => exact parameterTypeWithin_passes hwithin

omit [UnicodeDatabase] in
theorem nextCode_hidden {c : Char} {after : Text} {segment : Segment}
    (h : nextCode c rest = .ok (segment, after)) : segment.hidden = none := by
  unfold nextCode at h
  split at h
  · rw [← (Prod.mk.inj (Except.ok.inj h)).1]
    rfl
  · split at h
    · split at h
      · contradiction
      · rw [← (Prod.mk.inj (Except.ok.inj h)).1]
        rfl
    · split at h
      · contradiction
      · rw [← (Prod.mk.inj (Except.ok.inj h)).1]
        rfl

/-- A segment whose bindings are read can stand before any text that has a mask. -/
theorem lexable_segment {c : Char} {after : Text} {segment : Segment} {b b' : FilterBindings}
    (hsegment : nextSegment c rest = .ok (segment, after)) (hadd : b.add segment = .ok b')
    (hafter : Lexable after) : Lexable (c :: rest) := by
  obtain ⟨htext, -, hwell⟩ := nextSegment_spec hsegment
  unfold nextSegment at hsegment
  obtain ⟨ls, hls⟩ := hafter
  cases hlex : nextLexeme c rest with
  | error e =>
    rw [hlex] at hsegment
    cases e <;> contradiction
  | ok p =>
    obtain ⟨l, more⟩ := p
    rw [hlex] at hsegment
    cases l with
    | quoted t =>
      obtain ⟨-, rfl⟩ := Prod.mk.inj (Except.ok.inj hsegment)
      exact ⟨_, .cons hlex hls⟩
    | blockComment t =>
      obtain ⟨-, rfl⟩ := Prod.mk.inj (Except.ok.inj hsegment)
      exact ⟨_, .cons hlex hls⟩
    | lineComment t =>
      obtain ⟨-, rfl⟩ := Prod.mk.inj (Except.ok.inj hsegment)
      exact ⟨_, .cons hlex hls⟩
    | code d =>
      have hhidden : segment.hidden = none := nextCode_hidden hsegment
      cases segment with
      | quoted t => contradiction
      | comment t line => contradiction
      | client n =>
        rw [htext]
        exact lexable_client hwell ⟨ls, hls⟩
      | server n t =>
        obtain ⟨hint, hhint, -⟩ := Except.bind_eq_ok.mp hadd
        rw [htext]
        exact lexable_server hwell.1 (parameterType_passes hhint) ⟨ls, hls⟩
      | plain e =>
        obtain ⟨-, rfl⟩ := List.cons.inj htext
        obtain ⟨-, hmore⟩ := List.cons.inj (nextLexeme_text hlex).1
        rw [hmore] at hls
        exact ⟨_, .cons hlex hls⟩

theorem lexable_of_bindingsFrom {fuel : ℕ} {b b' : FilterBindings}
    (h : filterBindingsFrom fuel b value = .ok b') (hfuel : value.length ≤ fuel) :
    Lexable value := by
  induction fuel generalizing b value with
  | zero =>
    obtain rfl : value = [] := List.length_eq_zero_iff.mp (by omega)
    exact ⟨[], .nil⟩
  | succ fuel ih =>
    cases value with
    | nil => exact ⟨[], .nil⟩
    | cons c rest =>
      obtain ⟨⟨segment, after⟩, hsegment, hrest⟩ := Except.bind_eq_ok.mp h
      obtain ⟨b₁, hadd, hmore⟩ := Except.bind_eq_ok.mp hrest
      obtain ⟨htext, hne, -⟩ := nextSegment_spec hsegment
      have hlength := congrArg List.length htext
      have hpos := List.length_pos_iff.mpr hne
      simp only [List.length_cons, List.length_append] at hlength hfuel
      exact lexable_segment hsegment hadd (ih hmore (by omega))

/-- A filter whose bindings are read has a mask. -/
theorem lexable_of_bindings {b : FilterBindings} (h : filterBindings value = .ok b) :
    Lexable value := by
  obtain ⟨b', hscan, -⟩ := Except.bind_eq_ok.mp h
  exact lexable_of_bindingsFrom hscan (Nat.le_refl _)

end Filter

end RayClickHouse.FilterScan
