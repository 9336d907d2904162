import RayClickHouse.PercentFormat

/-!
The conversions of a format by its percent signs. A run of percent signs is read in
pairs; one that is left over begins a conversion. Formatting succeeds with
identifiers for keys exactly when every such conversion is complete, and it then
looks up their keys.
-/
namespace RayClickHouse.PercentFormat

open Text

def conversions : Text → List Text
  | '%' :: '%' :: rest => conversions rest
  | '%' :: rest => rest :: conversions rest
  | _ :: rest => conversions rest
  | [] => []

def skipPrecision : Text → Text
  | '.' :: rest => rest.dropWhile Char.isDigit
  | s => s

def skipModifier : Text → Text
  | c :: rest => if isModifier c then rest else c :: rest
  | [] => []

def conversionLetter (s : Text) : Option (Char × Text) :=
  match skipModifier (skipPrecision ((s.dropWhile isFlag).dropWhile Char.isDigit)) with
  | c :: rest => if isLetter c then some (c, rest) else none
  | [] => none

def conversionKey : Text → Option (Text × Text)
  | '(' :: rest =>
      match takeIdentifier rest with
      | some (name, ')' :: after) => some (name, after)
      | _ => none
  | _ => none

def keyed (s : Text) : Option Text :=
  match conversionKey s with
  | some (name, after) => (conversionLetter after).map fun _ => name
  | none => none

def keyless (s : Text) : Bool := (conversionLetter s).any fun p => isObjectLetter p.1

/-- Every conversion is complete; only the first may go without a key. -/
def Complete : Bool → List Text → Prop
  | _, [] => True
  | first, s :: later =>
      ((keyed s).isSome = true ∨ (first = true ∧ keyless s = true)) ∧ Complete false later

theorem isLetter_of_object {c : Char} (h : isObjectLetter c = true) : isLetter c = true := by
  have hletters : "sra".toList = ['s', 'r', 'a'] := by decide
  simp only [isObjectLetter, List.contains_eq_mem, decide_eq_true_eq, hletters, List.mem_cons,
    List.not_mem_nil, or_false] at h
  rcases h with rfl | rfl | rfl
  · decide
  · decide
  · decide

def accepts : Argument → Char → Bool
  | .mapping, c => isObjectLetter c
  | .value, c => isLetter c
  | .spent, _ => false

theorem isLetter_of_accepts {argument : Argument} {c : Char} (h : accepts argument c = true) :
    isLetter c = true := by
  cases argument with
  | mapping => exact isLetter_of_object h
  | value => exact h
  | spent => contradiction

def finish (s : FormatState) (text : Text) : Option FormatState :=
  (run s text).bind fun t => if t.mode = .text then some t else none

theorem finish_cons (s : FormatState) (c : Char) (rest : Text) :
    finish s (c :: rest) = (step s c).bind fun u => finish u rest := by
  unfold finish
  rw [run, Option.bind_assoc]

theorem formatNames_eq_finish (text : Text) : formatNames text = (finish {} text).map (·.keys) := by
  unfold formatNames finish
  cases run {} text with
  | none => rfl
  | some t =>
    simp only [Option.bind_some]
    split
    · rfl
    · rfl

section Letters

variable {s : FormatState} {text : Text}

def FormatState.reading (s : FormatState) (stage : Stage) : FormatState := { s with mode := .spec stage }

def FormatState.converted (s : FormatState) : FormatState :=
  { s with argument := .spent, mode := .text }

theorem finish_reading_nil (s : FormatState) (stage : Stage) : finish (s.reading stage) [] = none := by
  simp [finish, run, FormatState.reading]

theorem finish_reading_cons (s : FormatState) (stage : Stage) (c : Char) (rest : Text) :
    finish (s.reading stage) (c :: rest) =
      (specStep s stage c).bind fun u => finish u rest := by
  rw [finish_cons]
  rfl

/-- Once the value is spent a conversion is not completed. -/
theorem finish_spent (hspent : s.argument = .spent) (stage : Stage) :
    finish (s.reading stage) text = none := by
  induction text generalizing s stage with
  | nil => exact finish_reading_nil s stage
  | cons c rest ih =>
    rw [finish_reading_cons]
    simp only [specStep, takeWidth, convert, hspent]
    split_ifs
    all_goals first
      | rfl
      | exact ih (s := { s with argument := .spent }) rfl _

theorem convert_eq (s : FormatState) (c : Char) :
    convert s c = if accepts s.argument c then some s.converted else none := by
  unfold convert accepts
  cases s.argument with
  | mapping => rfl
  | value => rfl
  | spent => rfl

/-- Behind a length modifier only the letter is left. -/
theorem finish_letter (s : FormatState) (c : Char) (rest : Text) :
    finish (s.reading .letter) (c :: rest) =
      if accepts s.argument c then finish s.converted rest else none := by
  rw [finish_reading_cons]
  simp only [specStep, reduceCtorEq, false_and, or_self, if_false, ne_eq, not_true, convert_eq]
  split
  · rfl
  · rfl

/-- Characters that leave the stage as it is are passed over. -/
theorem finish_dropWhile {stage : Stage} {passes : Char → Bool}
    (h : ∀ c, passes c = true → specStep s stage c = some (s.reading stage)) (text : Text) :
    finish (s.reading stage) text = finish (s.reading stage) (text.dropWhile passes) := by
  induction text with
  | nil => rfl
  | cons c rest ih =>
    cases hc : passes c with
    | false => rw [List.dropWhile_cons_of_neg (by simp [hc])]
    | true =>
      rw [List.dropWhile_cons_of_pos hc, ← ih, finish_reading_cons, h c hc]
      rfl

/-- An asterisk is never completed: it takes the value, and nothing is left to convert. -/
theorem finish_star {stage : Stage} (hstage : stage = .flags ∨ stage = .point) (rest : Text) :
    finish (s.reading stage) ('*' :: rest) = none := by
  have htake : ∀ next, (takeWidth s next).bind (fun u => finish u rest) = none := by
    intro next
    unfold takeWidth
    cases s.argument with
    | mapping => rfl
    | spent => rfl
    | value => exact finish_spent (s := { s with argument := .spent }) rfl next
  have hflag : isFlag '*' = false := by decide
  rw [finish_reading_cons]
  rcases hstage with rfl | rfl
  · simp only [specStep, hflag, Bool.false_eq_true, and_false, if_false, true_and, if_true]
    exact htake .widthTaken
  · simp only [specStep, reduceCtorEq, false_and, if_false, true_and, if_true]
    exact htake .precisionTaken

/-- What is left of a specification after its precision. -/
theorem finish_precision (text : Text) (hdigit : ∀ c, text.head? = some c → c.isDigit = false) :
    finish (s.reading .precision) text =
      match skipModifier text with
      | c :: rest => if accepts s.argument c then finish s.converted rest else none
      | [] => none := by
  cases text with
  | nil => exact finish_reading_nil s .precision
  | cons c rest =>
    have hc := hdigit c rfl
    rw [finish_reading_cons]
    simp only [specStep, reduceCtorEq, false_and, if_false, hc, Bool.false_eq_true, and_false,
      or_self, ne_eq, not_false_eq_true, true_and, skipModifier]
    cases hmodifier : isModifier c with
    | true =>
      simp only [if_true, Option.bind_some]
      cases rest with
      | nil => exact finish_reading_nil s .letter
      | cons d rest => exact finish_letter s d rest
    | false =>
      simp only [Bool.false_eq_true, if_false, convert_eq]
      split
      · rfl
      · rfl

theorem head_dropWhile {p : Char → Bool} (text : Text) :
    ∀ c, (text.dropWhile p).head? = some c → p c = false := by
  intro c hc
  have hnot := List.head?_dropWhile_not p text
  rw [hc] at hnot
  exact hnot

theorem finish_point (text : Text) :
    finish (s.reading .point) text =
      finish (s.reading .precision) (text.dropWhile Char.isDigit) := by
  have hdigits : ∀ c : Char, c.isDigit = true →
      specStep s .precision c = some (s.reading .precision) := by
    intro c hc
    simp only [specStep, reduceCtorEq, false_and, if_false, or_self, or_true, hc, true_and, if_true]
    rfl
  rw [← finish_dropWhile hdigits]
  cases text with
  | nil => rw [finish_reading_nil, finish_reading_nil]
  | cons c rest =>
    by_cases hstar : c = '*'
    · subst hstar
      have hletter : accepts s.argument '*' = false := by
        cases s.argument with
        | mapping => decide
        | value => decide
        | spent => rfl
      have hmodifier : skipModifier ('*' :: rest) = '*' :: rest := by
        simp [skipModifier, isModifier]
      rw [finish_star (Or.inr rfl), finish_precision ('*' :: rest) (by simp), hmodifier]
      simp [hletter]
    · rw [finish_reading_cons, finish_reading_cons]
      simp only [specStep, reduceCtorEq, false_and, if_false, hstar, and_false, or_self, true_or,
        or_true, ne_eq, not_false_eq_true]

theorem finish_width (text : Text) (hdigit : ∀ c, text.head? = some c → c.isDigit = false) :
    finish (s.reading .width) text =
      match skipModifier (skipPrecision text) with
      | c :: rest => if accepts s.argument c then finish s.converted rest else none
      | [] => none := by
  cases text with
  | nil => exact finish_reading_nil s .width
  | cons c rest =>
    have hc := hdigit c rfl
    by_cases hdot : c = '.'
    · subst hdot
      have hpoint : finish (s.reading .width) ('.' :: rest) = finish (s.reading .point) rest := by
        rw [finish_reading_cons]
        simp only [specStep, reduceCtorEq, false_and, if_false, hc, Bool.false_eq_true, and_false,
          or_self, or_true, true_or, and_self, if_true]
        rfl
      rw [hpoint, finish_point]
      exact finish_precision _ (head_dropWhile rest)
    · have hskip : skipPrecision (c :: rest) = c :: rest := by
        unfold skipPrecision
        split
        · next heq => exact absurd (List.cons.inj heq).1 hdot
        · rfl
      rw [hskip, ← finish_precision (c :: rest) hdigit, finish_reading_cons, finish_reading_cons]
      simp only [specStep, reduceCtorEq, false_and, if_false, hc, Bool.false_eq_true, and_false,
        or_self, hdot, ne_eq, not_false_eq_true]

/-- A conversion is completed exactly by a letter that takes what is there. -/
theorem finish_specification (s : FormatState) (text : Text) :
    finish (s.reading .flags) text =
      (conversionLetter text).bind fun p =>
        if accepts s.argument p.1 then finish s.converted p.2 else none := by
  have hflags : ∀ c : Char, isFlag c = true → specStep s .flags c = some (s.reading .flags) := by
    intro c hc
    simp only [specStep, hc, and_self, if_true]
    rfl
  have hdigits : ∀ c : Char, c.isDigit = true → specStep s .width c = some (s.reading .width) := by
    intro c hc
    simp only [specStep, reduceCtorEq, false_and, if_false, or_true, hc, and_self, if_true]
    rfl
  have hletters : ∀ after : Text,
      (match skipModifier (skipPrecision after) with
        | c :: rest => if accepts s.argument c then finish s.converted rest else none
        | [] => none) =
      (match skipModifier (skipPrecision after) with
        | c :: rest => if isLetter c then some (c, rest) else none
        | [] => none).bind fun p =>
          if accepts s.argument p.1 then finish s.converted p.2 else none := by
    intro after
    cases skipModifier (skipPrecision after) with
    | nil => rfl
    | cons c rest =>
      cases hletter : isLetter c with
      | true => simp [hletter]
      | false =>
        have hnot : accepts s.argument c = false := by
          by_contra hcon
          rw [isLetter_of_accepts ((Bool.not_eq_false _).mp hcon)] at hletter
          contradiction
        simp [hletter, hnot]
  unfold conversionLetter
  rw [finish_dropWhile hflags]
  have hhead := head_dropWhile (p := isFlag) text
  generalize text.dropWhile isFlag = spec at hhead ⊢
  cases spec with
  | nil =>
    rw [finish_reading_nil]
    rfl
  | cons c rest =>
    by_cases hstar : c = '*'
    · subst hstar
      rw [finish_star (Or.inl rfl)]
      rfl
    · have hwidth : finish (s.reading .flags) (c :: rest) = finish (s.reading .width) (c :: rest) := by
        rw [finish_reading_cons, finish_reading_cons]
        simp only [specStep, hhead c rfl, Bool.false_eq_true, and_false, if_false, hstar,
          reduceCtorEq, or_self, or_true, or_false, ne_eq, not_false_eq_true]
      rw [hwidth, finish_dropWhile hdigits, finish_width _ (head_dropWhile (c :: rest)), hletters]

end Letters

section Consumed

/-- Text without percent signs holds no conversion. -/
theorem conversions_skip {skipped : Text} (h : '%' ∉ skipped) (rest : Text) :
    conversions (skipped ++ rest) = conversions rest := by
  induction skipped with
  | nil => rfl
  | cons c skipped ih =>
    simp only [List.mem_cons, not_or] at h
    rw [List.cons_append, conversions.eq_3 c _ (fun _ hc _ => h.1 hc.symm) (fun hc => h.1 hc.symm),
      ih h.2]

theorem not_mem_takeWhile {p : Char → Bool} (h : p '%' = false) (text : Text) :
    '%' ∉ text.takeWhile p := by
  intro hin
  rw [List.mem_takeWhile_imp hin] at h
  contradiction

theorem skipPrecision_skips (text : Text) :
    ∃ skipped, text = skipped ++ skipPrecision text ∧ '%' ∉ skipped := by
  unfold skipPrecision
  split
  · next rest =>
    refine ⟨'.' :: rest.takeWhile Char.isDigit, ?_, ?_⟩
    · rw [List.cons_append, List.takeWhile_append_dropWhile]
    · simp only [List.mem_cons, not_or]
      exact ⟨by decide, not_mem_takeWhile (by decide) rest⟩
  · exact ⟨[], rfl, List.not_mem_nil⟩

theorem skipModifier_skips (text : Text) :
    ∃ skipped, text = skipped ++ skipModifier text ∧ '%' ∉ skipped := by
  cases text with
  | nil => exact ⟨[], rfl, List.not_mem_nil⟩
  | cons c rest =>
    simp only [skipModifier]
    cases hmodifier : isModifier c with
    | true =>
      refine ⟨[c], rfl, ?_⟩
      simp only [List.mem_singleton]
      rintro rfl
      revert hmodifier
      decide
    | false => exact ⟨[], rfl, List.not_mem_nil⟩

/-- A specification with its letter holds no percent sign. -/
theorem conversionLetter_conversions {text rest : Text} {c : Char}
    (h : conversionLetter text = some (c, rest)) :
    conversions text = conversions rest ∧ rest.length < text.length := by
  have hflags : text = text.takeWhile isFlag ++ text.dropWhile isFlag :=
    List.takeWhile_append_dropWhile.symm
  have hdigits : text.dropWhile isFlag = (text.dropWhile isFlag).takeWhile Char.isDigit ++
      (text.dropWhile isFlag).dropWhile Char.isDigit := List.takeWhile_append_dropWhile.symm
  obtain ⟨precision, hprecision, hplain⟩ :=
    skipPrecision_skips ((text.dropWhile isFlag).dropWhile Char.isDigit)
  obtain ⟨modifier, hmodifier, hbare⟩ :=
    skipModifier_skips (skipPrecision ((text.dropWhile isFlag).dropWhile Char.isDigit))
  unfold conversionLetter at h
  generalize hleft : skipModifier (skipPrecision ((text.dropWhile isFlag).dropWhile Char.isDigit)) =
    left at h hmodifier
  cases left with
  | nil => contradiction
  | cons d left =>
    simp only at h
    split at h
    · next hletter =>
      obtain ⟨rfl, rfl⟩ := Prod.mk.inj (Option.some.inj h)
      have hnot : '%' ∉ [d] := by
        simp only [List.mem_singleton]
        rintro rfl
        revert hletter
        decide
      have hwhole : text = (text.takeWhile isFlag ++
          (text.dropWhile isFlag).takeWhile Char.isDigit ++ precision ++ modifier ++ [d]) ++ left := by
        conv_lhs => rw [hflags, hdigits, hprecision, hmodifier]
        simp only [List.append_assoc, List.singleton_append]
      refine ⟨?_, ?_⟩
      · conv_lhs => rw [hwhole]
        apply conversions_skip
        simp only [List.mem_append, not_or]
        exact ⟨⟨⟨⟨not_mem_takeWhile (by decide) _, not_mem_takeWhile (by decide) _⟩, hplain⟩, hbare⟩,
          hnot⟩
      · have hlength := congrArg List.length hwhole
        simp only [List.length_append, List.length_cons, List.length_nil] at hlength
        omega
    · contradiction

theorem conversionLetter_isLetter {text rest : Text} {c : Char}
    (h : conversionLetter text = some (c, rest)) : isLetter c = true := by
  unfold conversionLetter at h
  split at h
  · split at h
    · next hletter =>
      rw [← (Prod.mk.inj (Option.some.inj h)).1]
      exact hletter
    · contradiction
  · contradiction

theorem conversionKey_eq_some {text name after : Text} :
    conversionKey text = some (name, after) ↔
      text = '(' :: (name ++ ')' :: after) ∧ isIdentifier name = true := by
  constructor
  · intro h
    unfold conversionKey at h
    split at h
    · split at h
      · next heq =>
        obtain ⟨rfl, rfl⟩ := Prod.mk.inj (Option.some.inj h)
        obtain ⟨rfl, hname, -⟩ := takeIdentifier_eq_some heq
        exact ⟨rfl, hname⟩
      · contradiction
    · contradiction
  · rintro ⟨rfl, hname⟩
    have htake : takeIdentifier (name ++ ')' :: after) = some (name, ')' :: after) :=
      takeIdentifier_append hname (by simp [isIdentPart])
    simp only [conversionKey, htake]

end Consumed

section Run

variable {s t : FormatState} {text : Text}

/-- A key that is looked up begins with what has been read of it. -/
theorem finish_key {depth : ℕ} {read : Text} (hs : s.mode = .key depth read)
    (h : finish s text = some t) :
    ∃ name after, text = name ++ ')' :: after ∧
      finish (FormatState.reading ⟨s.keys ++ [read ++ name], .value, .text⟩ .flags) after =
        some t := by
  induction text generalizing s depth read with
  | nil => simp [finish, run, hs] at h
  | cons c rest ih =>
    rw [finish_cons, step, hs] at h
    simp only [Option.bind_some, keyStep] at h
    by_cases hclose : c = ')'
    · subst hclose
      rw [if_pos rfl] at h
      cases depth with
      | zero =>
        refine ⟨[], rest, rfl, ?_⟩
        rw [List.append_nil]
        exact h
      | succ depth =>
        obtain ⟨name, after, rfl, hfinish⟩ := ih rfl h
        refine ⟨')' :: name, after, rfl, ?_⟩
        rw [List.append_assoc] at hfinish
        exact hfinish
    · rw [if_neg hclose] at h
      split at h
      · obtain ⟨name, after, rfl, hfinish⟩ := ih rfl h
        refine ⟨c :: name, after, rfl, ?_⟩
        rw [List.append_assoc] at hfinish
        exact hfinish
      · obtain ⟨name, after, rfl, hfinish⟩ := ih rfl h
        refine ⟨c :: name, after, rfl, ?_⟩
        rw [List.append_assoc] at hfinish
        exact hfinish

theorem keys_step {c : Char} (h : step s c = some t) : s.keys ⊆ t.keys := by
  unfold step at h
  split at h
  · rw [← Option.some.inj h]
    split
    · exact List.Subset.refl _
    · exact List.Subset.refl _
  · split at h
    · exact (Option.some.inj h) ▸ List.Subset.refl _
    · split at h
      · exact (Option.some.inj h) ▸ List.Subset.refl _
      · exact keys_specStep h ▸ List.Subset.refl _
  · rw [← Option.some.inj h]
    unfold keyStep
    split
    · split
      · exact List.subset_append_left _ _
      · exact List.Subset.refl _
    · split
      · exact List.Subset.refl _
      · exact List.Subset.refl _
  · exact keys_specStep h ▸ List.Subset.refl _

theorem keys_finish (h : finish s text = some t) : s.keys ⊆ t.keys := by
  induction text generalizing s with
  | nil =>
    simp only [finish, run, Option.bind_some] at h
    split at h
    · exact (Option.some.inj h) ▸ List.Subset.refl _
    · contradiction
  | cons c rest ih =>
    rw [finish_cons] at h
    obtain ⟨u, hu, hrest⟩ := Option.bind_eq_some_iff.mp h
    exact List.Subset.trans (keys_step hu) (ih hrest)

theorem finish_nil (hs : s.mode = .text) : finish s [] = some s := by
  simp [finish, run, hs]

theorem finish_plain {c : Char} (hs : s.mode = .text) (hc : c ≠ '%') (rest : Text) :
    finish s (c :: rest) = finish s rest := by
  rw [finish_cons, step, hs]
  simp only [if_neg hc, Option.bind_some]

theorem finish_escaped (hs : s.mode = .text) (rest : Text) :
    finish s ('%' :: '%' :: rest) = finish s rest := by
  have hsame : ({ s with mode := .text } : FormatState) = s := by
    rw [← hs]
  rw [finish_cons, step, hs]
  simp only [if_true, Option.bind_some]
  rw [finish_cons, step]
  simp only [if_true, Option.bind_some, hsame]

theorem finish_opening (hs : s.mode = .text) (rest : Text) :
    finish s ('%' :: '(' :: rest) = finish { s with mode := .key 0 [] } rest := by
  have hopen : ¬ '(' = '%' := by decide
  rw [finish_cons, step, hs]
  simp only [if_true, Option.bind_some]
  rw [finish_cons, step]
  simp only [if_neg hopen, if_true, Option.bind_some]

/-- Without a key the specification follows at once. -/
theorem finish_bare (hs : s.mode = .text) (hpercent : text.head? ≠ some '%')
    (hopen : text.head? ≠ some '(') : finish s ('%' :: text) = finish (s.reading .flags) text := by
  rw [finish_cons, step, hs]
  simp only [if_true, Option.bind_some]
  cases text with
  | nil => simp [finish, run, FormatState.reading]
  | cons c rest =>
    have hc : c ≠ '%' := fun heq => hpercent (by rw [heq]; rfl)
    have hparen : c ≠ '(' := fun heq => hopen (by rw [heq]; rfl)
    rw [finish_cons, finish_reading_cons, step]
    simp only [if_neg hc, if_neg hparen]
    rfl

end Run

section Complete

variable {s t : FormatState}

theorem keyed_eq_some {text name : Text} :
    keyed text = some name ↔
      ∃ after c more, text = '(' :: (name ++ ')' :: after) ∧ isIdentifier name = true ∧
        conversionLetter after = some (c, more) := by
  unfold keyed
  constructor
  · intro h
    cases hkey : conversionKey text with
    | none =>
      rw [hkey] at h
      contradiction
    | some p =>
      obtain ⟨key, after⟩ := p
      simp only [hkey] at h
      obtain ⟨⟨c, more⟩, hletter, rfl⟩ := Option.map_eq_some_iff.mp h
      obtain ⟨rfl, hname⟩ := conversionKey_eq_some.mp hkey
      exact ⟨after, c, more, rfl, hname, hletter⟩
  · rintro ⟨after, c, more, rfl, hname, hletter⟩
    have hkey : conversionKey ('(' :: (name ++ ')' :: after)) = some (name, after) :=
      conversionKey_eq_some.mpr ⟨rfl, hname⟩
    simp only [hkey, hletter, Option.map_some]

theorem keyless_opening (rest : Text) : keyless ('(' :: rest) = false := by
  have hnone : conversionLetter ('(' :: rest) = none := by
    simp [conversionLetter, isFlag, skipPrecision, skipModifier, isModifier, isLetter]
  simp [keyless, hnone]

theorem keyed_of_keyless {text : Text} (h : keyless text = true) : keyed text = none := by
  cases hkeyed : keyed text with
  | none => rfl
  | some name =>
    obtain ⟨after, c, more, rfl, -, -⟩ := keyed_eq_some.mp hkeyed
    rw [keyless_opening] at h
    contradiction

/-- A keyed conversion looks its key up and spends the value. -/
theorem finish_keyed (hs : s.mode = .text) {name after more : Text} {c : Char}
    (hname : isIdentifier name = true) (hletter : conversionLetter after = some (c, more)) :
    finish s ('%' :: '(' :: (name ++ ')' :: after)) =
      finish ⟨s.keys ++ [name], .spent, .text⟩ more := by
  have hopened : finish { s with mode := .key 0 [] } (name ++ ')' :: after) =
      finish (FormatState.reading ⟨s.keys ++ [name], .value, .text⟩ .flags) after := by
    unfold finish
    rw [run_name (isIdentifier_mem hname) rfl]
    rfl
  have hvalue : accepts .value c = true := conversionLetter_isLetter hletter
  rw [finish_opening hs, hopened, finish_specification, hletter]
  simp only [Option.bind_some, hvalue, if_true]
  rfl

/-- The first conversion may take the mapping itself. -/
theorem finish_keyless (hs : s.mode = .text) {text : Text} (hpercent : text.head? ≠ some '%')
    (hkeyless : keyless text = true) (hfresh : s.argument = .mapping) :
    ∃ more, finish s ('%' :: text) = finish s.converted more ∧
      conversions text = conversions more ∧ more.length < text.length := by
  obtain ⟨⟨c, more⟩, hletter, hobject⟩ := (Option.any_eq_true _ _).mp hkeyless
  have hopen : text.head? ≠ some '(' := by
    intro hhead
    obtain ⟨rest, rfl⟩ : ∃ rest, text = '(' :: rest := by
      cases text with
      | nil => contradiction
      | cons d rest => exact ⟨rest, by rw [Option.some.inj hhead]⟩
    rw [keyless_opening] at hkeyless
    contradiction
  obtain ⟨hconversions, hlength⟩ := conversionLetter_conversions hletter
  refine ⟨more, ?_, hconversions, hlength⟩
  rw [finish_bare hs hpercent hopen, finish_specification, hletter]
  have haccepts : accepts s.argument c = true := by
    rw [hfresh]
    exact hobject
  simp only [Option.bind_some, haccepts, if_true]

theorem conversions_opening {rest : Text} (hpercent : rest.head? ≠ some '%') :
    conversions ('%' :: rest) = rest :: conversions rest := by
  cases rest with
  | nil => rfl
  | cons c rest =>
    have hc : c ≠ '%' := fun heq => hpercent (by rw [heq]; rfl)
    exact conversions.eq_2 (c :: rest) (fun _ heq => hc (List.cons.inj heq).1)

theorem conversions_plain {c : Char} (hc : c ≠ '%') (rest : Text) :
    conversions (c :: rest) = conversions rest :=
  conversions.eq_3 c rest (fun _ heq _ => hc heq) (fun heq => hc heq)

theorem conversions_keyed {name after more : Text} {c : Char} (hname : isIdentifier name = true)
    (hletter : conversionLetter after = some (c, more)) :
    conversions ('(' :: (name ++ ')' :: after)) = conversions more ∧
      more.length < ('(' :: (name ++ ')' :: after)).length := by
  obtain ⟨hconversions, hlength⟩ := conversionLetter_conversions hletter
  refine ⟨?_, ?_⟩
  · have hpercent := isIdentifier_not_mem hname (c := '%') (by decide)
    have hwhole : '(' :: (name ++ ')' :: after) = ('(' :: (name ++ [')'])) ++ after := by simp
    rw [hwhole, ← hconversions]
    apply conversions_skip
    simp only [List.mem_cons, List.mem_append, List.not_mem_nil, or_false, not_or]
    exact ⟨by decide, hpercent, by decide⟩
  · simp only [List.length_cons, List.length_append]
    omega

/-- Complete conversions are formatted, and their keys looked up. -/
theorem finish_of_complete {text : Text} (hs : s.mode = .text)
    (h : Complete (decide (s.argument = .mapping)) (conversions text)) :
    ∃ t, finish s text = some t ∧ t.keys = s.keys ++ (conversions text).filterMap keyed := by
  induction hlength : text.length using Nat.strong_induction_on generalizing s text with
  | _ n ih =>
    cases text with
    | nil => exact ⟨s, finish_nil hs, by simp [conversions]⟩
    | cons c rest =>
      by_cases hc : c = '%'
      · subst hc
        by_cases hpercent : rest.head? = some '%'
        · obtain ⟨more, rfl⟩ : ∃ more, rest = '%' :: more := by
            cases rest with
            | nil => contradiction
            | cons d more => exact ⟨more, by rw [Option.some.inj hpercent]⟩
          rw [finish_escaped hs, conversions]
          rw [conversions] at h
          refine ih more.length ?_ hs h rfl
          simp only [List.length_cons] at hlength
          omega
        · rw [conversions_opening hpercent] at h ⊢
          obtain ⟨hfirst, hlater⟩ := h
          rcases hfirst with hkeyed | ⟨hfresh, hkeyless⟩
          · obtain ⟨name, hname⟩ := Option.isSome_iff_exists.mp hkeyed
            obtain ⟨after, d, more, rfl, hident, hletter⟩ := keyed_eq_some.mp hname
            obtain ⟨hconversions, hshort⟩ := conversions_keyed hident hletter
            rw [hconversions] at hlater
            obtain ⟨t, ht, hkeys⟩ := ih more.length
              (by simp only [List.length_cons] at hlength hshort; omega)
              (s := ⟨s.keys ++ [name], .spent, .text⟩) rfl hlater rfl
            refine ⟨t, ?_, ?_⟩
            · rw [finish_keyed hs hident hletter]
              exact ht
            · rw [hkeys, hconversions, List.filterMap_cons_some hname, List.append_assoc]
              rfl
          · obtain ⟨more, hfinish, hconversions, hshort⟩ :=
              finish_keyless hs hpercent hkeyless (of_decide_eq_true hfresh)
            rw [hconversions] at hlater
            obtain ⟨t, ht, hkeys⟩ := ih more.length
              (by simp only [List.length_cons] at hlength; omega) (s := s.converted) rfl hlater rfl
            refine ⟨t, by rw [hfinish, ht], ?_⟩
            rw [hkeys, hconversions, List.filterMap_cons_none (keyed_of_keyless hkeyless)]
            rfl
      · rw [finish_plain hs hc, conversions_plain hc]
        rw [conversions_plain hc] at h
        refine ih rest.length ?_ hs h rfl
        simp only [List.length_cons] at hlength
        omega

/-- Where formatting succeeds and looks up identifiers, every conversion is complete. -/
theorem complete_of_finish {text : Text} (hs : s.mode = .text) (hvalue : s.argument ≠ .value)
    (h : finish s text = some t) (hkeys : ∀ k ∈ t.keys, isIdentifier k = true) :
    Complete (decide (s.argument = .mapping)) (conversions text) := by
  induction hlength : text.length using Nat.strong_induction_on generalizing s text with
  | _ n ih =>
    cases text with
    | nil => exact trivial
    | cons c rest =>
      simp only [List.length_cons] at hlength
      by_cases hc : c = '%'
      · subst hc
        by_cases hpercent : rest.head? = some '%'
        · obtain ⟨more, rfl⟩ : ∃ more, rest = '%' :: more := by
            cases rest with
            | nil => contradiction
            | cons d more => exact ⟨more, by rw [Option.some.inj hpercent]⟩
          rw [finish_escaped hs] at h
          rw [conversions]
          simp only [List.length_cons] at hlength
          exact ih more.length (by omega) hs hvalue h rfl
        · rw [conversions_opening hpercent]
          by_cases hopen : rest.head? = some '('
          · obtain ⟨inner, rfl⟩ : ∃ inner, rest = '(' :: inner := by
              cases rest with
              | nil => contradiction
              | cons d inner => exact ⟨inner, by rw [Option.some.inj hopen]⟩
            rw [finish_opening hs] at h
            obtain ⟨name, after, rfl, hfinish⟩ := finish_key rfl h
            have hident : isIdentifier name = true := by
              refine hkeys name (keys_finish hfinish ?_)
              simp [FormatState.reading]
            rw [finish_specification] at hfinish
            obtain ⟨⟨d, more⟩, hletter, hmore⟩ := Option.bind_eq_some_iff.mp hfinish
            obtain ⟨hconversions, hshort⟩ := conversions_keyed hident hletter
            refine ⟨Or.inl ?_, ?_⟩
            · rw [keyed_eq_some.mpr ⟨after, d, more, rfl, hident, hletter⟩]
              rfl
            · rw [hconversions]
              simp only at hmore
              split at hmore
              · exact ih more.length (by omega) (s := FormatState.converted _) rfl (by
                  simp [FormatState.converted]) hmore rfl
              · contradiction
          · rw [finish_bare hs hpercent hopen, finish_specification] at h
            obtain ⟨⟨d, more⟩, hletter, hmore⟩ := Option.bind_eq_some_iff.mp h
            obtain ⟨hconversions, hshort⟩ := conversionLetter_conversions hletter
            simp only at hmore
            split at hmore
            · next haccepts =>
              have hmapping : s.argument = .mapping := by
                cases hargument : s.argument with
                | mapping => rfl
                | value => exact absurd hargument hvalue
                | spent =>
                  rw [hargument] at haccepts
                  contradiction
              refine ⟨Or.inr ⟨decide_eq_true hmapping, ?_⟩, ?_⟩
              · rw [hmapping] at haccepts
                unfold keyless
                rw [hletter]
                exact haccepts
              · rw [hconversions]
                exact ih more.length (by omega) (s := s.converted) rfl (by
                  simp [FormatState.converted]) hmore rfl
            · contradiction
      · rw [finish_plain hs hc] at h
        rw [conversions_plain hc]
        exact ih rest.length (by omega) hs hvalue h rfl

/-- Formatting succeeds with identifiers for keys exactly when every conversion is
complete, and looks up the keys of the conversions. -/
theorem formatNames_conversions {text : Text} {names : List Text}
    (hnames : ∀ n ∈ names, isIdentifier n = true) :
    formatNames text = some names ↔
      Complete true (conversions text) ∧ (conversions text).filterMap keyed = names := by
  rw [formatNames_eq_finish, Option.map_eq_some_iff]
  constructor
  · rintro ⟨t, ht, rfl⟩
    have hcomplete : Complete true (conversions text) :=
      complete_of_finish (s := {}) rfl (by simp) ht hnames
    obtain ⟨u, hu, hkeys⟩ := finish_of_complete (s := {}) rfl hcomplete
    obtain rfl := Option.some.inj (ht.symm.trans hu)
    exact ⟨hcomplete, hkeys.symm⟩
  · rintro ⟨hcomplete, rfl⟩
    obtain ⟨t, ht, hkeys⟩ := finish_of_complete (s := {}) rfl hcomplete
    exact ⟨t, ht, hkeys⟩

end Complete

section Escaped

/-- Whether the last percent sign of a text is left over, so that it escapes the next one. -/
def escapesNext (before : Text) : Bool := before.foldl (fun left c => c == '%' && !left) false

/-- What stands behind a percent sign that is not escaped is a conversion. -/
theorem mem_conversions {before rest : Text} (hescape : escapesNext before = false)
    (hpercent : rest.head? ≠ some '%') : rest ∈ conversions (before ++ '%' :: rest) := by
  induction before using conversions.induct with
  | case1 before ih =>
    rw [List.cons_append, List.cons_append, conversions]
    exact ih hescape
  | case2 before hnot ih =>
    cases before with
    | nil => contradiction
    | cons c before =>
      have hc : c ≠ '%' := fun heq => hnot before (by rw [heq])
      have hshape : ('%' :: c :: before) ++ '%' :: rest = '%' :: ((c :: before) ++ '%' :: rest) := rfl
      rw [hshape, conversions_opening (by simpa using hc)]
      apply List.mem_cons_of_mem
      apply ih
      have hfalse : (c == '%') = false := beq_eq_false_iff_ne.mpr hc
      simpa [escapesNext, hfalse] using hescape
  | case3 c before hnot hplain ih =>
    have hc : c ≠ '%' := hplain
    rw [List.cons_append, conversions_plain hc]
    apply ih
    have hfalse : (c == '%') = false := beq_eq_false_iff_ne.mpr hc
    simpa [escapesNext, hfalse] using hescape
  | case4 =>
    rw [List.nil_append, conversions_opening hpercent]
    exact List.mem_cons_self ..

theorem keyed_placeholder {name : Text} (h : isIdentifier name = true) (after : Text) :
    keyed ('(' :: (name ++ ')' :: 's' :: after)) = some name := by
  refine keyed_eq_some.mpr ⟨'s' :: after, 's', after, rfl, h, ?_⟩
  simp [conversionLetter, isFlag, skipPrecision, skipModifier, isModifier, isLetter]

/-- The placeholders of a name in a text are all escaped. -/
def EscapedOnly (name text : Text) : Prop :=
  ∀ before after, text = before ++ clientPlaceholder name ++ after → escapesNext before = true

/-- A placeholder that is not escaped is a conversion with its name for a key. -/
theorem exists_keyed {name text : Text} (hname : isIdentifier name = true)
    (h : ¬EscapedOnly name text) : ∃ s ∈ conversions text, keyed s = some name := by
  unfold EscapedOnly at h
  push Not at h
  obtain ⟨before, after, rfl, hescape⟩ := h
  have hshape : before ++ clientPlaceholder name ++ after =
      before ++ '%' :: '(' :: (name ++ ')' :: 's' :: after) := by simp [clientPlaceholder]
  rw [hshape]
  exact ⟨_, mem_conversions (by simpa using hescape) (by simp), keyed_placeholder hname after⟩

end Escaped

end RayClickHouse.PercentFormat
