import Mathlib

/-!
Replacement of all occurrences of a word, from the left and without overlap.
What is kept lies between occurrences and holds none itself. With a marker whose
two ends do not belong to a word, no replacement makes the word appear: an
occurrence in the result lies in a piece that was kept or inside the marker.
-/
namespace RayClickHouse.Replacement

section Infixes

variable {α : Type*} {w a b s : List α}

/-- A word without the separating element lies on one side of it. -/
theorem infix_apart {c : α} (hc : c ∉ w) (h : w <:+: a ++ c :: b) : w <:+: a ∨ w <:+: b := by
  obtain ⟨before, after, heq⟩ := h
  rw [List.append_assoc, List.append_eq_append_iff] at heq
  rcases heq with ⟨mid, rfl, hmid⟩ | ⟨mid, rfl, hmid⟩
  · rcases List.append_eq_append_iff.mp hmid with ⟨more, rfl, hmore⟩ | ⟨more, rfl, hmore⟩
    · exact Or.inl ⟨before, more, by simp⟩
    · cases more with
      | nil => exact Or.inl ⟨before, [], by simp⟩
      | cons d more =>
        obtain ⟨rfl, -⟩ := List.cons.inj hmore
        exact absurd (by simp) hc
  · cases mid with
    | nil =>
      rw [List.nil_append] at hmid
      cases w with
      | nil => exact Or.inl List.nil_infix
      | cons d w =>
        obtain ⟨rfl, -⟩ := List.cons.inj hmid
        exact absurd (by simp) hc
    | cons d mid =>
      obtain ⟨-, rfl⟩ := List.cons.inj hmid
      exact Or.inr ⟨mid, after, by simp⟩

theorem infix_before (hw : w ≠ []) (hb : ∀ c ∈ b, c ∉ w) (h : w <:+: a ++ b) : w <:+: a := by
  induction b generalizing a with
  | nil => rwa [List.append_nil] at h
  | cons c b ih =>
    have hrest : ∀ d ∈ b, d ∉ w := fun d hd => hb d (List.mem_cons_of_mem _ hd)
    rcases infix_apart (hb c (List.mem_cons_self ..)) h with h | h
    · exact h
    · have hnil : w <:+: [] := ih hrest (a := []) h
      exact absurd (List.eq_nil_of_infix_nil hnil) hw

theorem infix_after (hw : w ≠ []) (ha : ∀ c ∈ a, c ∉ w) (h : w <:+: a ++ b) : w <:+: b := by
  induction a with
  | nil => exact h
  | cons c a ih =>
    rcases infix_apart (a := []) (ha c (List.mem_cons_self ..)) h with h | h
    · exact absurd (List.eq_nil_of_infix_nil h) hw
    · exact ih (fun d hd => ha d (List.mem_cons_of_mem _ hd)) h

end Infixes

section Replace

variable {α : Type*} [DecidableEq α] (old new : List α)

def replaceFrom : ℕ → List α → List α
  | _, [] => []
  | skip + 1, _ :: rest => replaceFrom skip rest
  | 0, c :: rest =>
      if old.isPrefixOf (c :: rest) then new ++ replaceFrom (old.length - 1) rest
      else c :: replaceFrom 0 rest

def replace (text : List α) : List α :=
  if old = [] then new ++ text.flatMap (fun c => c :: new) else replaceFrom old new 0 text

def pieces : ℕ → List α → List (List α)
  | _, [] => [[]]
  | skip + 1, _ :: rest => pieces skip rest
  | 0, c :: rest =>
      if old.isPrefixOf (c :: rest) then [] :: pieces (old.length - 1) rest
      else (pieces 0 rest).modifyHead (c :: ·)

variable {new}

theorem pieces_eq_cons (skip : ℕ) (text : List α) : ∃ p ps, pieces old skip text = p :: ps := by
  induction text generalizing skip with
  | nil => exact ⟨[], [], by unfold pieces; rfl⟩
  | cons c rest ih =>
    cases skip with
    | succ skip =>
      unfold pieces
      exact ih skip
    | zero =>
      unfold pieces
      split
      · exact ⟨_, _, rfl⟩
      · obtain ⟨p, ps, hps⟩ := ih 0
        rw [hps]
        exact ⟨_, _, rfl⟩

omit [DecidableEq α] in
theorem intercalate_cons (p q : List α) (ps : List (List α)) :
    new.intercalate (p :: q :: ps) = p ++ (new ++ new.intercalate (q :: ps)) := by
  simp [List.intercalate]

omit [DecidableEq α] in
theorem intercalate_head (c : α) (p : List α) (ps : List (List α)) :
    new.intercalate ((c :: p) :: ps) = c :: new.intercalate (p :: ps) := by
  cases ps with
  | nil => simp [List.intercalate]
  | cons q ps => rw [intercalate_cons, intercalate_cons, List.cons_append]

/-- The result joins the kept pieces. -/
theorem replaceFrom_eq (skip : ℕ) (text : List α) :
    replaceFrom old new skip text = new.intercalate (pieces old skip text) := by
  induction text generalizing skip with
  | nil =>
    unfold replaceFrom pieces
    simp [List.intercalate]
  | cons c rest ih =>
    cases skip with
    | succ skip =>
      unfold replaceFrom pieces
      exact ih skip
    | zero =>
      unfold replaceFrom pieces
      split
      · obtain ⟨p, ps, hps⟩ := pieces_eq_cons old (old.length - 1) rest
        rw [ih, hps, intercalate_cons, List.nil_append]
      · obtain ⟨p, ps, hps⟩ := pieces_eq_cons old 0 rest
        rw [ih, hps]
        exact (intercalate_head c p ps).symm

/-- Every piece was part of the text; the first one began it. -/
theorem pieces_inside (skip : ℕ) (text : List α) :
    (∀ p ∈ pieces old skip text, p <:+: text) ∧
      (skip = 0 → ∀ p, (pieces old skip text).head? = some p → p <+: text) := by
  induction text generalizing skip with
  | nil =>
    unfold pieces
    simp
  | cons c rest ih =>
    cases skip with
    | succ skip =>
      unfold pieces
      refine ⟨?_, fun h => absurd h (Nat.succ_ne_zero skip)⟩
      intro p hp
      exact ((ih skip).1 p hp).trans (List.suffix_cons c rest).isInfix
    | zero =>
      unfold pieces
      split
      · constructor
        · intro p hp
          rcases List.mem_cons.mp hp with rfl | hp
          · exact List.nil_infix
          · exact ((ih _).1 p hp).trans (List.suffix_cons c rest).isInfix
        · intro _ p hp
          cases hp
          exact List.nil_prefix
      · obtain ⟨q, ps, hps⟩ := pieces_eq_cons old 0 rest
        obtain ⟨hall, hhead⟩ := ih 0
        rw [hps] at hall hhead ⊢
        have hprefix : c :: q <+: c :: rest := by
          obtain ⟨after, hafter⟩ := hhead rfl q rfl
          exact ⟨after, by rw [List.cons_append, hafter]⟩
        constructor
        · intro p hp
          rcases List.mem_cons.mp hp with rfl | hp
          · exact hprefix.isInfix
          · exact (hall p (List.mem_cons_of_mem _ hp)).trans (List.suffix_cons c rest).isInfix
        · intro _ p hp
          cases hp
          exact hprefix

/-- No piece holds an occurrence. -/
theorem pieces_free (hold : old ≠ []) (skip : ℕ) (text : List α) :
    ∀ p ∈ pieces old skip text, ¬ old <:+: p := by
  induction text generalizing skip with
  | nil =>
    unfold pieces
    simpa using hold
  | cons c rest ih =>
    cases skip with
    | succ skip =>
      unfold pieces
      exact ih skip
    | zero =>
      unfold pieces
      split
      · intro p hp
        rcases List.mem_cons.mp hp with rfl | hp
        · simpa using hold
        · exact ih _ p hp
      · rename_i hnone
        obtain ⟨q, ps, hps⟩ := pieces_eq_cons old 0 rest
        have hall := ih 0
        have hhead := (pieces_inside old 0 rest).2 rfl q (by rw [hps]; rfl)
        rw [hps] at hall ⊢
        intro p hp
        rcases List.mem_cons.mp hp with rfl | hp
        · intro hinfix
          rcases List.infix_cons_iff.mp hinfix with hprefix | hinner
          · apply hnone
            rw [List.isPrefixOf_iff_prefix]
            obtain ⟨after, hafter⟩ := hhead
            exact hprefix.trans ⟨after, by rw [List.cons_append, hafter]⟩
          · exact hall q (List.mem_cons_self ..) hinner
        · exact hall p (List.mem_cons_of_mem _ hp)

end Replace

section Markers

variable {α : Type*} [DecidableEq α] {w old text inner : List α} {l r : α}

omit [DecidableEq α] in
/-- A word without the ends of a marker lies in a piece or inside the marker. -/
theorem infix_intercalate (hl : l ∉ w) (hr : r ∉ w) {ps : List (List α)}
    (h : w <:+: (l :: inner ++ [r]).intercalate ps) : (∃ p ∈ ps, w <:+: p) ∨ w <:+: inner := by
  induction ps with
  | nil =>
    right
    have hnil : w = [] := List.eq_nil_of_infix_nil (by simpa [List.intercalate] using h)
    rw [hnil]
    exact List.nil_infix
  | cons p ps ih =>
    cases ps with
    | nil => exact Or.inl ⟨p, List.mem_singleton_self p, by simpa [List.intercalate] using h⟩
    | cons q ps =>
      have hshape : (l :: inner ++ [r]).intercalate (p :: q :: ps) =
          p ++ l :: (inner ++ r :: (l :: inner ++ [r]).intercalate (q :: ps)) := by
        rw [intercalate_cons]
        simp
      rw [hshape] at h
      rcases infix_apart hl h with h | h
      · exact Or.inl ⟨p, List.mem_cons_self .., h⟩
      · rcases infix_apart hr h with h | h
        · exact Or.inr h
        · rcases ih h with ⟨p', hp', hinfix⟩ | hinner
          · exact Or.inl ⟨p', List.mem_cons_of_mem _ hp', hinfix⟩
          · exact Or.inr hinner

/-- A replacement by a marker makes no word appear that avoids the ends of the marker. -/
theorem replace_absent (hold : old ≠ []) (hl : l ∉ w) (hr : r ∉ w) (hinner : ¬ w <:+: inner)
    (h : ¬ w <:+: text) : ¬ w <:+: replace old (l :: inner ++ [r]) text := by
  unfold replace
  rw [if_neg hold, replaceFrom_eq]
  intro hinfix
  rcases infix_intercalate hl hr hinfix with ⟨p, hp, hw⟩ | hw
  · exact h (hw.trans ((pieces_inside old 0 text).1 p hp))
  · exact hinner hw

/-- The replaced word is gone. -/
theorem replace_removed (hw : w ≠ []) (hl : l ∉ w) (hr : r ∉ w) (hinner : ¬ w <:+: inner) :
    ¬ w <:+: replace w (l :: inner ++ [r]) text := by
  unfold replace
  rw [if_neg hw, replaceFrom_eq]
  intro hinfix
  rcases infix_intercalate hl hr hinfix with ⟨p, hp, hinside⟩ | hinside
  · exact pieces_free w hw 0 text p hp hinside
  · exact hinner hinside

end Markers

end RayClickHouse.Replacement
