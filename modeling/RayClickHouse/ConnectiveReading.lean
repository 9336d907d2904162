import RayClickHouse.Connectives

/-!
The reader of formulas against its grammar. Whatever it reads is derivable, a
derivable text is read whatever follows it, and it fails only at an unclosed
group, at the nesting bound, or where an atomic formula it reached fails.
-/
namespace RayClickHouse.Connectives

variable {τ ε α : Type*}

section Grammar

variable {role : τ → Role} {Atomic : α → List τ → Prop} {l : Level} {f : Formula α}

theorem Derives.mono {Atomic' : α → List τ → Prop} {P : τ → Prop}
    (hatomic : ∀ a us, (∀ u ∈ us, P u) → Atomic a us → Atomic' a us) {ts : List τ}
    (h : Derives role Atomic l f ts) (hall : ∀ t ∈ ts, P t) : Derives role Atomic' l f ts := by
  induction h with
  | leaf ha => exact .leaf (hatomic _ _ hall ha)
  | negation ht _ ih => exact .negation ht (ih fun u hu => hall u (List.mem_cons_of_mem _ hu))
  | group ho _ hc ih =>
    apply Derives.group ho _ hc
    apply ih
    intro u hu
    apply hall u
    simp only [List.mem_cons, List.mem_append]
    exact Or.inr (Or.inl hu)
  | single _ ih => exact .single (ih hall)
  | conjoin _ ht _ ihf ihg =>
    apply Derives.conjoin (ihf _) ht (ihg _)
    · intro u hu
      exact hall u (List.mem_append_left _ hu)
    · intro u hu
      exact hall u (List.mem_append_right _ (List.mem_cons_of_mem _ hu))
  | only _ ih => exact .only (ih hall)
  | disjoin _ ht _ ihf ihg =>
    apply Derives.disjoin (ihf _) ht (ihg _)
    · intro u hu
      exact hall u (List.mem_append_left _ hu)
    · intro u hu
      exact hall u (List.mem_append_right _ (List.mem_cons_of_mem _ hu))

/-- Every token of a derivable text joins, negates or groups, or stands in an
atomic formula. -/
theorem Derives.forall_mem {P : τ → Prop} (hrole : ∀ t, role t ≠ .plain → P t)
    (hatomic : ∀ a us, Atomic a us → ∀ u ∈ us, P u) {ts : List τ}
    (h : Derives role Atomic l f ts) : ∀ t ∈ ts, P t := by
  induction h with
  | leaf ha => exact hatomic _ _ ha
  | negation ht _ ih =>
    intro u hu
    rcases List.mem_cons.mp hu with rfl | hu
    · apply hrole
      simp [ht]
    · exact ih u hu
  | group ho _ hc ih =>
    intro u hu
    simp only [List.mem_cons, List.mem_append, List.not_mem_nil, or_false] at hu
    rcases hu with rfl | hu | rfl
    · apply hrole
      simp [ho]
    · exact ih u hu
    · apply hrole
      simp [hc]
  | single _ ih => exact ih
  | only _ ih => exact ih
  | conjoin _ ht _ ihf ihg | disjoin _ ht _ ihf ihg =>
    intro u hu
    simp only [List.mem_cons, List.mem_append] at hu
    rcases hu with hu | rfl | hu
    · exact ihf u hu
    · apply hrole
      simp [ht]
    · exact ihg u hu

end Grammar

namespace Reader

variable {R : Reader τ ε α} {Atomic : α → List τ → Prop}

/-- The reader of atomic formulas reads their texts, whatever follows, and no others. -/
structure Lawful (R : Reader τ ε α) (Atomic : α → List τ → Prop) : Prop where
  sound : ∀ ts a rest, R.atomic ts = .ok (a, rest) → ∃ used, ts = used ++ rest ∧ Atomic a used
  complete : ∀ a used rest, Atomic a used → R.atomic (used ++ rest) = .ok (a, rest)
  head : ∀ a used, Atomic a used →
    ∃ t us, used = t :: us ∧ R.role t ≠ .negate ∧ R.role t ≠ .opening

theorem joinsAnd_iff {t : τ} : R.joinsAnd t = true ↔ R.role t = .conjoin := decide_eq_true_iff

theorem joinsOr_iff {t : τ} : R.joinsOr t = true ↔ R.role t = .disjoin := decide_eq_true_iff

theorem leafAt_eq_ok {ts rest : List τ} {f : Formula α} :
    R.leafAt ts = .ok (f, rest) ↔ ∃ a, R.atomic ts = .ok (a, rest) ∧ f = .leaf a := by
  unfold leafAt
  cases h : R.atomic ts with
  | error e => simp
  | ok p =>
    obtain ⟨a, after⟩ := p
    simp only [Except.ok.injEq, Prod.mk.injEq]
    constructor
    · rintro ⟨rfl, rfl⟩
      exact ⟨a, ⟨rfl, rfl⟩, rfl⟩
    · rintro ⟨b, ⟨rfl, rfl⟩, rfl⟩
      exact ⟨rfl, rfl⟩

theorem leafAt_eq_error {ts : List τ} {e : ε} :
    R.leafAt ts = .error e ↔ R.atomic ts = .error e := by
  unfold leafAt
  cases R.atomic ts <;> simp

theorem negated_eq_ok {r : Reading τ ε α} {f : Formula α} {rest : List τ}
    (h : negated r = .ok (f, rest)) : ∃ g, r = .ok (g, rest) ∧ f = .neg g := by
  cases r with
  | error e => cases h
  | ok p =>
    obtain ⟨g, after⟩ := p
    cases h
    exact ⟨g, rfl, rfl⟩

theorem negated_eq_error {r : Reading τ ε α} {e : ε} : negated r = .error e ↔ r = .error e := by
  cases r with
  | error e' => simp [negated]
  | ok p => simp [negated]

theorem closeGroup_eq_ok {r : Reading τ ε α} {f : Formula α} {rest : List τ}
    (h : R.closeGroup r = .ok (f, rest)) :
    ∃ c, r = .ok (f, c :: rest) ∧ R.role c = .closing := by
  rcases r with e | ⟨g, tail⟩
  · cases h
  · cases tail with
    | nil => cases h
    | cons c after =>
      simp only [closeGroup] at h
      by_cases hc : R.role c = .closing
      · rw [if_pos hc] at h
        cases h
        exact ⟨c, rfl, hc⟩
      · rw [if_neg hc] at h
        cases h

theorem closeGroup_eq_error {r : Reading τ ε α} {e : ε} (h : R.closeGroup r = .error e) :
    r = .error e ∨ e = R.unclosed := by
  rcases r with e' | ⟨g, tail⟩
  · cases h
    exact Or.inl rfl
  · right
    cases tail with
    | nil =>
      cases h
      rfl
    | cons c after =>
      simp only [closeGroup] at h
      by_cases hc : R.role c = .closing
      · rw [if_pos hc] at h
        cases h
      · rw [if_neg hc] at h
        cases h
        rfl

section Soundness

def SoundAt (R : Reader τ ε α) (Atomic : α → List τ → Prop) (l : Level)
    (operand : List τ → Reading τ ε α) : Prop :=
  ∀ ts f rest, operand ts = .ok (f, rest) →
    ∃ used, ts = used ++ rest ∧ Derives R.role Atomic l f used

theorem SoundAt.shrinks {l : Level} {operand : List τ → Reading τ ε α}
    (h : SoundAt R Atomic l operand) : Shrinks operand := by
  intro ts f rest hread
  obtain ⟨used, rfl, -⟩ := h ts f rest hread
  simp

theorem conjunction_sound {depth : ℕ} (hterm : SoundAt R Atomic .term (R.term depth)) :
    SoundAt R Atomic .conjunction (R.conjunction depth) := by
  intro ts f rest h
  obtain ⟨used, hused, hd, -⟩ := chain_rule _ (Derives R.role Atomic .conjunction) hterm
    (fun f us hd => .single hd)
    (fun f us t g vs hf ht hg => .conjoin hf (joinsAnd_iff.mp ht) hg) h
  exact ⟨used, hused, hd⟩

theorem expression_sound {depth : ℕ} (hterm : SoundAt R Atomic .term (R.term depth)) :
    SoundAt R Atomic .expression (R.expression depth) := by
  intro ts f rest h
  obtain ⟨used, hused, hd, -⟩ := chain_rule _ (Derives R.role Atomic .expression)
    (conjunction_sound hterm) (fun f us hd => .only hd)
    (fun f us t g vs hf ht hg => .disjoin hf (joinsOr_iff.mp ht) hg) h
  exact ⟨used, hused, hd⟩

theorem term_sound (hlaw : R.Lawful Atomic) (depth : ℕ) :
    SoundAt R Atomic .term (R.term depth) := by
  induction depth with
  | zero =>
    intro ts f rest h
    rw [term_zero] at h
    cases h
  | succ depth ih =>
    have hleaf : SoundAt R Atomic .term R.leafAt := by
      intro ts f rest h
      obtain ⟨a, hread, rfl⟩ := leafAt_eq_ok.mp h
      obtain ⟨used, hused, ha⟩ := hlaw.sound ts a rest hread
      exact ⟨used, hused, .leaf ha⟩
    intro ts f rest h
    cases ts with
    | nil => exact hleaf [] f rest h
    | cons t tail =>
      by_cases hneg : R.role t = .negate
      · rw [term_negate R hneg] at h
        obtain ⟨g, hread, rfl⟩ := negated_eq_ok h
        obtain ⟨used, rfl, hd⟩ := ih tail g rest hread
        exact ⟨t :: used, rfl, .negation hneg hd⟩
      · by_cases hopen : R.role t = .opening
        · rw [term_opening R hopen] at h
          obtain ⟨c, hread, hc⟩ := closeGroup_eq_ok h
          obtain ⟨used, rfl, hd⟩ := expression_sound ih tail f (c :: rest) hread
          refine ⟨t :: (used ++ [c]), ?_, .group hopen hd hc⟩
          simp
        · rw [term_leaf R hneg hopen] at h
          exact hleaf (t :: tail) f rest h

end Soundness

section Completeness

def ReadsAs (R : Reader τ ε α) (depth : ℕ) (f : Formula α) (ts : List τ) : Level → Prop
  | .term => ∀ rest, R.term depth (ts ++ rest) = .ok (f, rest)
  | .conjunction => ∀ rest,
      R.conjunction depth (ts ++ rest) = more (R.term depth) R.joinsAnd .conj f rest
  | .expression => ∀ rest, Halts R.joinsAnd rest →
      R.expression depth (ts ++ rest) = more (R.conjunction depth) R.joinsOr .disj f rest

theorem joinsAnd_eq_false {t : τ} (h : R.role t ≠ .conjoin) : R.joinsAnd t = false :=
  decide_eq_false h

theorem joinsOr_eq_false {t : τ} (h : R.role t ≠ .disjoin) : R.joinsOr t = false :=
  decide_eq_false h

theorem halts_cons {joins : τ → Bool} {t : τ} {rest : List τ} (h : joins t = false) :
    Halts joins (t :: rest) := by
  intro u hu
  cases hu
  exact h

theorem read_complete (hlaw : R.Lawful Atomic) {l : Level} {f : Formula α} {ts : List τ}
    (h : Derives R.role Atomic l f ts) {depth : ℕ} (hdepth : ts.length ≤ depth) :
    R.ReadsAs depth f ts l := by
  have hshrinks := fun depth => (term_sound hlaw depth).shrinks
  have hshrinks' := fun depth => (conjunction_sound (term_sound hlaw depth)).shrinks
  induction h generalizing depth with
  | leaf ha =>
    intro rest
    obtain ⟨t, us, rfl, hneg, hopen⟩ := hlaw.head _ _ ha
    obtain ⟨depth, rfl⟩ : ∃ k, depth = k + 1 := by
      rw [List.length_cons] at hdepth
      exact ⟨depth - 1, by omega⟩
    rw [List.cons_append, term_leaf R hneg hopen, ← List.cons_append]
    exact leafAt_eq_ok.mpr ⟨_, hlaw.complete _ _ rest ha, rfl⟩
  | negation ht _ ih =>
    intro rest
    rw [List.length_cons] at hdepth
    obtain ⟨depth, rfl⟩ : ∃ k, depth = k + 1 := ⟨depth - 1, by omega⟩
    rw [List.cons_append, term_negate R ht, ih (by omega) rest]
    rfl
  | @group o f ts c ho _ hc ih =>
    intro rest
    simp only [List.length_cons, List.length_append] at hdepth
    obtain ⟨depth, rfl⟩ : ∃ k, depth = k + 1 := ⟨depth - 1, by omega⟩
    have hand : R.joinsAnd c = false := joinsAnd_eq_false (by simp [hc])
    have hor : R.joinsOr c = false := joinsOr_eq_false (by simp [hc])
    have hread : R.expression depth (ts ++ (c :: rest)) = .ok (f, c :: rest) := by
      rw [ih (by omega) (c :: rest) (halts_cons hand)]
      exact more_halts (halts_cons hor)
    rw [List.cons_append, List.append_assoc, List.singleton_append, term_opening R ho, hread]
    simp only [closeGroup, hc, if_true]
  | single _ ih =>
    intro rest
    exact chain_ok (ih hdepth rest)
  | @conjoin f ts t g us _ ht _ ihf ihg =>
    intro rest
    simp only [List.length_append, List.length_cons] at hdepth
    rw [List.append_assoc, List.cons_append, ihf (by omega)]
    exact more_join (hshrinks depth) (joinsAnd_iff.mpr ht) (ihg (by omega) rest)
  | only _ ih =>
    intro rest hhalts
    apply chain_ok
    rw [ih hdepth rest]
    exact more_halts hhalts
  | @disjoin f ts t g us _ ht _ ihf ihg =>
    intro rest hhalts
    simp only [List.length_append, List.length_cons] at hdepth
    have hand : R.joinsAnd t = false := joinsAnd_eq_false (by simp [ht])
    rw [List.append_assoc, List.cons_append, ihf (by omega) _ (halts_cons hand)]
    apply more_join (hshrinks' depth) (joinsOr_iff.mpr ht)
    rw [ihg (by omega) rest]
    exact more_halts hhalts

/-- A whole derivable text is read to its end. -/
theorem expression_complete (hlaw : R.Lawful Atomic) {f : Formula α} {ts : List τ}
    (h : Derives R.role Atomic .expression f ts) {depth : ℕ} (hdepth : ts.length ≤ depth) :
    R.expression depth ts = .ok (f, []) := by
  have hread := read_complete hlaw h hdepth [] (halts_nil _)
  rw [List.append_nil] at hread
  exact hread.trans (more_halts (halts_nil _))

end Completeness

section Failures

/-- An error of the reader's own, or of an atomic formula it reached. -/
def FailsAt (R : Reader τ ε α) (Atomic : α → List τ → Prop) (e : ε) (l : Level) (ts : List τ) :
    Prop :=
  e = R.unclosed ∨ e = R.nested ∨
    ∃ p rest, ts = p ++ rest ∧ Opens R.role Atomic l p ∧ R.atomic rest = .error e

theorem FailsAt.lift {e : ε} {l l' : Level} {ts ts' : List τ} (h : R.FailsAt Atomic e l ts)
    (hopens : ∀ p rest, ts = p ++ rest → Opens R.role Atomic l p →
      ∃ p', ts' = p' ++ rest ∧ Opens R.role Atomic l' p') : R.FailsAt Atomic e l' ts' := by
  rcases h with h | h | ⟨p, rest, hts, hp, hread⟩
  · exact Or.inl h
  · exact Or.inr (Or.inl h)
  · obtain ⟨p', hts', hp'⟩ := hopens p rest hts hp
    exact Or.inr (Or.inr ⟨p', rest, hts', hp', hread⟩)

theorem conjunction_error (hlaw : R.Lawful Atomic) {depth : ℕ} {e : ε}
    (hterm : ∀ ts, R.term depth ts = .error e → R.FailsAt Atomic e .term ts) {ts : List τ}
    (h : R.conjunction depth ts = .error e) : R.FailsAt Atomic e .conjunction ts := by
  apply chain_error_rule (Derives R.role Atomic .term) (Derives R.role Atomic .conjunction)
    (R.FailsAt Atomic e .conjunction) (term_sound hlaw depth) (fun f us hd => .single hd)
    (fun f us t g vs hf ht hg => .conjoin hf (joinsAnd_iff.mp ht) hg) _ _ h
  · intro ts hread
    exact (hterm ts hread).lift fun p rest hts hp => ⟨p, hts, .single hp⟩
  · intro f us t vs hf ht hread
    apply (hterm vs hread).lift
    rintro p rest rfl hp
    exact ⟨us ++ t :: p, by simp, .conjoin hf (joinsAnd_iff.mp ht) hp⟩

theorem expression_error (hlaw : R.Lawful Atomic) {depth : ℕ} {e : ε}
    (hterm : ∀ ts, R.term depth ts = .error e → R.FailsAt Atomic e .term ts) {ts : List τ}
    (h : R.expression depth ts = .error e) : R.FailsAt Atomic e .expression ts := by
  apply chain_error_rule (Derives R.role Atomic .conjunction) (Derives R.role Atomic .expression)
    (R.FailsAt Atomic e .expression) (conjunction_sound (term_sound hlaw depth))
    (fun f us hd => .only hd) (fun f us t g vs hf ht hg => .disjoin hf (joinsOr_iff.mp ht) hg)
    _ _ h
  · intro ts hread
    exact (conjunction_error hlaw hterm hread).lift fun p rest hts hp => ⟨p, hts, .only hp⟩
  · intro f us t vs hf ht hread
    apply (conjunction_error hlaw hterm hread).lift
    rintro p rest rfl hp
    exact ⟨us ++ t :: p, by simp, .disjoin hf (joinsOr_iff.mp ht) hp⟩

theorem term_error (hlaw : R.Lawful Atomic) {depth : ℕ} {e : ε} {ts : List τ}
    (h : R.term depth ts = .error e) : R.FailsAt Atomic e .term ts := by
  induction depth generalizing ts with
  | zero =>
    rw [term_zero] at h
    cases h
    exact Or.inr (Or.inl rfl)
  | succ depth ih =>
    have hleaf : ∀ ts, R.leafAt ts = .error e → R.FailsAt Atomic e .term ts := by
      intro ts hread
      exact Or.inr (Or.inr ⟨[], ts, rfl, .here, leafAt_eq_error.mp hread⟩)
    cases ts with
    | nil => exact hleaf [] h
    | cons t tail =>
      by_cases hneg : R.role t = .negate
      · rw [term_negate R hneg] at h
        apply (ih (negated_eq_error.mp h)).lift
        rintro p rest rfl hp
        exact ⟨t :: p, rfl, .negation hneg hp⟩
      · by_cases hopen : R.role t = .opening
        · rw [term_opening R hopen] at h
          rcases closeGroup_eq_error h with h | h
          · apply (expression_error hlaw (fun ts => ih) h).lift
            rintro p rest rfl hp
            exact ⟨t :: p, rfl, .group hopen hp⟩
          · exact Or.inl h
        · rw [term_leaf R hneg hopen] at h
          exact hleaf (t :: tail) h

/-- An atomic formula that fails where the grammar expects one fails the reading. -/
theorem read_error (hlaw : R.Lawful Atomic) {l : Level} {p rest : List τ} {e : ε}
    (hopens : Opens R.role Atomic l p) (hread : R.atomic rest = .error e)
    (hhead : ∀ t, rest.head? = some t → R.role t ≠ .negate ∧ R.role t ≠ .opening)
    {depth : ℕ} (hdepth : p.length < depth) :
    match l with
    | .term => R.term depth (p ++ rest) = .error e
    | .conjunction => R.conjunction depth (p ++ rest) = .error e
    | .expression => R.expression depth (p ++ rest) = .error e := by
  induction hopens generalizing depth with
  | here =>
    obtain ⟨depth, rfl⟩ : ∃ k, depth = k + 1 := ⟨depth - 1, by omega⟩
    have hleaf : R.leafAt rest = .error e := leafAt_eq_error.mpr hread
    cases rest with
    | nil => exact hleaf
    | cons t tail =>
      obtain ⟨hneg, hopen⟩ := hhead t rfl
      exact (term_leaf R hneg hopen depth tail).trans hleaf
  | negation ht _ ih =>
    rw [List.length_cons] at hdepth
    obtain ⟨depth, rfl⟩ : ∃ k, depth = k + 1 := ⟨depth - 1, by omega⟩
    show R.term (depth + 1) _ = _
    rw [List.cons_append, term_negate R ht]
    exact negated_eq_error.mpr (ih (by omega))
  | @group o p ho _ ih =>
    rw [List.length_cons] at hdepth
    obtain ⟨depth, rfl⟩ : ∃ k, depth = k + 1 := ⟨depth - 1, by omega⟩
    show R.term (depth + 1) _ = _
    have hinner : R.expression depth (p ++ rest) = .error e := ih (by omega)
    rw [List.cons_append, term_opening R ho, hinner]
    rfl
  | single _ ih => exact chain_error (ih hdepth)
  | only _ ih => exact chain_error (ih hdepth)
  | conjoin hf ht _ ih =>
    simp only [List.length_append, List.length_cons] at hdepth
    show R.conjunction depth _ = _
    rw [List.append_assoc, List.cons_append, read_complete hlaw hf (by omega)]
    exact more_error (joinsAnd_iff.mpr ht) (ih (by omega))
  | @disjoin f ts t p hf ht _ ih =>
    simp only [List.length_append, List.length_cons] at hdepth
    have hand : R.joinsAnd t = false := joinsAnd_eq_false (by simp [ht])
    show R.expression depth _ = _
    rw [List.append_assoc, List.cons_append,
      read_complete hlaw hf (by omega) _ (halts_cons hand)]
    exact more_error (joinsOr_iff.mpr ht) (ih (by omega))

end Failures

end Reader

end RayClickHouse.Connectives
