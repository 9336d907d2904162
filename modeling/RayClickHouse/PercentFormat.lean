import RayClickHouse.Fragments

/-!
Percent formatting of a text with a mapping, as far as names are concerned: a
conversion is a percent sign, an optional key in parentheses, flags, width,
precision, a length modifier and one letter, or a percent sign right behind the
first. A key looks a value up; a conversion without one takes the last value
looked up, or the mapping itself, once. Whether a letter suits the value and how
large a width may be is not a matter of names.
-/
namespace RayClickHouse.PercentFormat

open Text

inductive Argument
  | mapping
  | value
  | spent
  deriving DecidableEq, Repr

inductive Stage
  | flags
  | width
  | widthTaken
  | point
  | precision
  | precisionTaken
  | letter
  deriving DecidableEq, Repr

inductive Mode
  | text
  | percent
  | key (depth : ℕ) (read : Text)
  | spec (stage : Stage)
  deriving DecidableEq, Repr

structure FormatState where
  keys : List Text := []
  argument : Argument := .mapping
  mode : Mode := .text
  deriving DecidableEq, Repr

def isFlag (c : Char) : Bool := "-+ #0".toList.contains c

def isModifier (c : Char) : Bool := "hlL".toList.contains c

def isObjectLetter (c : Char) : Bool := "sra".toList.contains c

def isLetter (c : Char) : Bool := "diouxXeEfFgGcrsa".toList.contains c

def convert (s : FormatState) (c : Char) : Option FormatState :=
  match s.argument with
  | .spent => none
  | .mapping => if isObjectLetter c then some { s with argument := .spent, mode := .text } else none
  | .value => if isLetter c then some { s with argument := .spent, mode := .text } else none

def takeWidth (s : FormatState) (stage : Stage) : Option FormatState :=
  match s.argument with
  | .value => some { s with argument := .spent, mode := .spec stage }
  | _ => none

def specStep (s : FormatState) (stage : Stage) (c : Char) : Option FormatState :=
  if stage = .flags ∧ isFlag c then some { s with mode := .spec .flags }
  else if stage = .flags ∧ c = '*' then takeWidth s .widthTaken
  else if stage = .point ∧ c = '*' then takeWidth s .precisionTaken
  else if (stage = .flags ∨ stage = .width) ∧ c.isDigit then some { s with mode := .spec .width }
  else if (stage = .point ∨ stage = .precision) ∧ c.isDigit then
    some { s with mode := .spec .precision }
  else if (stage = .flags ∨ stage = .width ∨ stage = .widthTaken) ∧ c = '.' then
    some { s with mode := .spec .point }
  else if stage ≠ .letter ∧ isModifier c then some { s with mode := .spec .letter }
  else convert s c

def keyStep (s : FormatState) (depth : ℕ) (read : Text) (c : Char) : FormatState :=
  if c = ')' then
    match depth with
    | 0 => { keys := s.keys ++ [read], argument := .value, mode := .spec .flags }
    | depth + 1 => { s with mode := .key depth (read ++ [c]) }
  else if c = '(' then { s with mode := .key (depth + 1) (read ++ [c]) }
  else { s with mode := .key depth (read ++ [c]) }

def step (s : FormatState) (c : Char) : Option FormatState :=
  match s.mode with
  | .text => some (if c = '%' then { s with mode := .percent } else s)
  | .percent =>
      if c = '%' then some { s with mode := .text }
      else if c = '(' then some { s with mode := .key 0 [] }
      else specStep s .flags c
  | .key depth read => some (keyStep s depth read c)
  | .spec stage => specStep s stage c

def run : FormatState → Text → Option FormatState
  | s, [] => some s
  | s, c :: rest => (step s c).bind fun s' => run s' rest

/-- The keys a complete format looks up. -/
def formatNames (s : Text) : Option (List Text) :=
  (run {} s).bind fun t => if t.mode = .text then some t.keys else none

theorem run_append (s : FormatState) (a b : Text) :
    run s (a ++ b) = (run s a).bind fun t => run t b := by
  induction a generalizing s with
  | nil => rfl
  | cons c a ih =>
    simp only [List.cons_append, run, Option.bind_assoc]
    congr 1
    funext t
    exact ih t

theorem formatNames_eq_some {s : Text} {ks : List Text} :
    formatNames s = some ks ↔ ∃ t, run {} s = some t ∧ t.mode = .text ∧ t.keys = ks := by
  unfold formatNames
  rw [Option.bind_eq_some_iff]
  constructor
  · rintro ⟨t, ht, hmode⟩
    split at hmode
    · rename_i htext
      exact ⟨t, ht, htext, Option.some.inj hmode⟩
    · contradiction
  · rintro ⟨t, ht, htext, rfl⟩
    exact ⟨t, ht, if_pos htext⟩

section Generated

/-- Text without percent signs is copied. -/
theorem run_plain {s : FormatState} (hs : s.mode = .text) {t : Text} (ht : '%' ∉ t) :
    run s t = some s := by
  induction t with
  | nil => rfl
  | cons c t ih =>
    simp only [List.mem_cons, not_or] at ht
    have hc : c ≠ '%' := Ne.symm ht.1
    simp only [run, step, hs, if_neg hc, Option.bind_some]
    exact ih ht.2

/-- A key without parentheses is read to its closing one. -/
theorem run_name {s : FormatState} {read name : Text} (hname : ∀ c ∈ name, isIdentPart c = true)
    (hs : s.mode = .key 0 read) (rest : Text) :
    run s (name ++ ')' :: rest) =
      run { keys := s.keys ++ [read ++ name], argument := .value, mode := .spec .flags } rest := by
  induction name generalizing s read with
  | nil => simp [run, step, hs, keyStep]
  | cons c name ih =>
    have hc := hname c (List.mem_cons_self ..)
    have hopen : c ≠ '(' := by
      rintro rfl
      revert hc
      decide
    have hclose : c ≠ ')' := by
      rintro rfl
      revert hc
      decide
    simp only [List.cons_append, run, step, hs, keyStep, if_neg hopen, if_neg hclose,
      Option.bind_some]
    rw [ih (fun d hd => hname d (List.mem_cons_of_mem _ hd)) rfl]
    simp

theorem run_placeholder {s : FormatState} {name : Text} (hname : isIdentifier name = true)
    (hs : s.mode = .text) (rest : Text) :
    run s (clientPlaceholder name ++ rest) =
      run { keys := s.keys ++ [name], argument := .spent, mode := .text } rest := by
  have hshape : clientPlaceholder name ++ rest =
      '%' :: '(' :: (name ++ ')' :: 's' :: rest) := by simp [clientPlaceholder]
  have hopen : ¬ '(' = '%' := by decide
  have hletter : isLetter 's' = true := by decide
  rw [hshape]
  simp only [run, step, hs, if_true, if_neg hopen, Option.bind_some]
  rw [run_name (isIdentifier_mem hname) rfl]
  simp [run, step, specStep, convert, isFlag, isModifier, hletter]

/-- Generated text in the client spelling looks up exactly its placeholders. -/
theorem run_generated {s : FormatState} (hs : s.mode = .text) {text : Text} {names : List Text}
    (h : Generated false text names) :
    ∃ t, run s text = some t ∧ t.mode = .text ∧ t.keys = s.keys ++ names := by
  obtain ⟨fragments, rfl, rfl, hwell⟩ := h
  induction fragments generalizing s with
  | nil => exact ⟨s, rfl, hs, by simp⟩
  | cons f rest ih =>
    have hf := hwell f (List.mem_cons_self ..)
    have hrest := fun g hg => hwell g (List.mem_cons_of_mem _ hg)
    rw [List.flatMap_cons]
    cases f with
    | plain t =>
      have hpercent : '%' ∉ t := by
        rw [Fragment.WellFormed, List.all_eq_true] at hf
        exact fun hin => absurd (hf _ hin) (by decide)
      obtain ⟨u, hu, hmode, hkeys⟩ := ih hs hrest
      refine ⟨u, ?_, hmode, by rw [hkeys]; rfl⟩
      rw [Fragment.text, run_append, run_plain hs hpercent]
      exact hu
    | column name =>
      have hpercent : '%' ∉ quoted name ++ " ".toList := by
        have hname := isIdentifier_not_mem hf (c := '%') (by decide)
        simp [quoted, hname]
      obtain ⟨u, hu, hmode, hkeys⟩ := ih hs hrest
      refine ⟨u, ?_, hmode, by rw [hkeys]; rfl⟩
      rw [Fragment.text, run_append, run_plain hs hpercent]
      exact hu
    | parameter name type =>
      obtain ⟨u, hu, hmode, hkeys⟩ :=
        ih (s := { keys := s.keys ++ [name], argument := .spent, mode := .text }) rfl hrest
      refine ⟨u, ?_, hmode, by simpa [Fragment.parameterName?] using hkeys⟩
      rw [Fragment.text, placeholder, if_neg (by simp), run_placeholder hf.1 hs]
      exact hu

end Generated

section Broken

def Broken (s : FormatState) : Prop :=
  (∃ k ∈ s.keys, ∃ c ∈ k, isIdentPart c = false) ∨
    ∃ depth read, s.mode = .key depth read ∧ ∃ c ∈ read, isIdentPart c = false

theorem keys_convert {s t : FormatState} {c : Char} (h : convert s c = some t) : t.keys = s.keys := by
  unfold convert at h
  split at h
  · contradiction
  · split at h
    · exact (Option.some.inj h) ▸ rfl
    · contradiction
  · split at h
    · exact (Option.some.inj h) ▸ rfl
    · contradiction

theorem keys_takeWidth {s t : FormatState} {stage : Stage} (h : takeWidth s stage = some t) :
    t.keys = s.keys := by
  unfold takeWidth at h
  split at h
  · exact (Option.some.inj h) ▸ rfl
  · contradiction

theorem keys_specStep {s t : FormatState} {stage : Stage} {c : Char}
    (h : specStep s stage c = some t) : t.keys = s.keys := by
  unfold specStep at h
  split at h
  · exact (Option.some.inj h) ▸ rfl
  · split at h
    · exact keys_takeWidth h
    · split at h
      · exact keys_takeWidth h
      · split at h
        · exact (Option.some.inj h) ▸ rfl
        · split at h
          · exact (Option.some.inj h) ▸ rfl
          · split at h
            · exact (Option.some.inj h) ▸ rfl
            · split at h
              · exact (Option.some.inj h) ▸ rfl
              · exact keys_convert h

theorem broken_keyStep {s : FormatState} {depth : ℕ} {read : Text} (c : Char)
    (hs : s.mode = .key depth read) (h : Broken s) : Broken (keyStep s depth read c) := by
  rcases h with ⟨k, hk, hbad⟩ | ⟨d, r, hmode, hbad⟩
  · left
    refine ⟨k, ?_, hbad⟩
    unfold keyStep
    split
    · cases depth with
      | zero => exact List.mem_append_left _ hk
      | succ depth => exact hk
    · split <;> exact hk
  · rw [hs] at hmode
    cases hmode
    obtain ⟨x, hx, hpart⟩ := hbad
    unfold keyStep
    split
    · cases depth with
      | zero => exact Or.inl ⟨read, by simp, x, hx, hpart⟩
      | succ depth => exact Or.inr ⟨depth, _, rfl, x, List.mem_append_left _ hx, hpart⟩
    · split
      · exact Or.inr ⟨depth + 1, _, rfl, x, List.mem_append_left _ hx, hpart⟩
      · exact Or.inr ⟨depth, _, rfl, x, List.mem_append_left _ hx, hpart⟩

theorem broken_step {s t : FormatState} {c : Char} (hs : step s c = some t) (h : Broken s) :
    Broken t := by
  unfold step at hs
  split at hs
  · rename_i hmode
    have hkeys : t.keys = s.keys := by
      rw [← Option.some.inj hs]
      split <;> rfl
    rcases h with hbad | ⟨d, r, hkey, _⟩
    · exact Or.inl (hkeys ▸ hbad)
    · rw [hmode] at hkey
      contradiction
  · rename_i hmode
    rcases h with hbad | ⟨d, r, hkey, _⟩
    · left
      split at hs
      · exact (Option.some.inj hs) ▸ hbad
      · split at hs
        · exact (Option.some.inj hs) ▸ hbad
        · exact keys_specStep hs ▸ hbad
    · rw [hmode] at hkey
      contradiction
  · rename_i depth read hmode
    exact (Option.some.inj hs) ▸ broken_keyStep c hmode h
  · rename_i stage hmode
    rcases h with hbad | ⟨d, r, hkey, _⟩
    · exact Or.inl (keys_specStep hs ▸ hbad)
    · rw [hmode] at hkey
      contradiction

theorem broken_run {s t : FormatState} {text : Text} (hs : run s text = some t) (h : Broken s) :
    Broken t := by
  induction text generalizing s with
  | nil => exact (Option.some.inj hs) ▸ h
  | cons c rest ih =>
    obtain ⟨u, hu, hrest⟩ := Option.bind_eq_some_iff.mp hs
    exact ih hrest (broken_step hu h)

end Broken

end RayClickHouse.PercentFormat
