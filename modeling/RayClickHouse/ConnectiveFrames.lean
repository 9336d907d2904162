import RayClickHouse.ConnectiveReading

/-!
Readings of formulas inside a larger text. What was read before a token that
joins nothing is read there whatever follows, a deeper bound changes no reading,
and a bracketed text is a term. The reader of atomic formulas only has to read
its own text the same way in front of any other.
-/
namespace RayClickHouse.Connectives

variable {τ ε α : Type*}

def Consumes (operand : List τ → Reading τ ε α) : Prop :=
  ∀ ts f rest, operand ts = .ok (f, rest) → ∃ used, ts = used ++ rest

/-- A reading goes on in front of further tokens. Where it used up its text, they
must stop it. -/
def Extensible (operand : List τ → Reading τ ε α) (stops : List τ → Prop) : Prop :=
  ∀ ts f rest extra, operand ts = .ok (f, rest) → (rest = [] → stops extra) →
    operand (ts ++ extra) = .ok (f, rest ++ extra)

def Refines (operand operand' : List τ → Reading τ ε α) : Prop :=
  ∀ ts r, operand ts = .ok r → operand' ts = .ok r

theorem Consumes.shrinks {operand : List τ → Reading τ ε α} (h : Consumes operand) :
    Shrinks operand := by
  intro ts f rest hread
  obtain ⟨used, rfl⟩ := h ts f rest hread
  simp

section Chains

variable {operand operand' : List τ → Reading τ ε α} {joins : τ → Bool}
variable {join : Formula α → Formula α → Formula α}

theorem Consumes.chain (h : Consumes operand) : Consumes (chain operand joins join) := by
  intro ts f rest hread
  have hoperand : ∀ ts f rest, operand ts = .ok (f, rest) →
      ∃ used, ts = used ++ rest ∧ True := by
    intro ts f rest hok
    obtain ⟨used, hused⟩ := h ts f rest hok
    exact ⟨used, hused, trivial⟩
  obtain ⟨used, hused, -⟩ := chain_rule (fun _ _ => True) (fun _ _ => True) hoperand
    (fun _ _ _ => trivial) (fun _ _ _ _ _ _ _ _ => trivial) hread
  exact ⟨used, hused⟩

theorem more_extends {stops stops' : List τ → Prop} (hconsumes : Consumes operand)
    (hoperand : Extensible operand stops)
    (hstops : ∀ extra, stops' extra → Halts joins extra ∧ stops extra)
    {f g : Formula α} {ts rest extra : List τ} {fuel : ℕ} (hlength : ts.length ≤ fuel)
    (h : moreWithin operand joins join fuel g ts = .ok (f, rest)) (hrest : rest = [] → stops' extra) :
    more operand joins join g (ts ++ extra) = .ok (f, rest ++ extra) := by
  induction fuel generalizing g ts with
  | zero =>
    have hnil : ts = [] := List.length_eq_zero_iff.mp (Nat.le_zero.mp hlength)
    subst hnil
    cases h
    exact more_halts (hstops extra (hrest rfl)).1
  | succ fuel ih =>
    cases ts with
    | nil =>
      cases h
      exact more_halts (hstops extra (hrest rfl)).1
    | cons t tail =>
      simp only [moreWithin] at h
      by_cases ht : joins t = true
      · simp only [ht, if_true] at h
        cases hread : operand tail with
        | error e =>
          rw [hread] at h
          cases h
        | ok p =>
          obtain ⟨next, after⟩ := p
          rw [hread] at h
          have hshort := hconsumes.shrinks tail next after hread
          have hlong : operand (tail ++ extra) = .ok (next, after ++ extra) := by
            refine hoperand tail next after extra hread ?_
            intro hafter
            subst hafter
            have hend : rest = [] := by
              cases fuel <;> cases h <;> rfl
            exact (hstops extra (hrest hend)).2
          rw [List.cons_append, more_join hconsumes.shrinks ht hlong]
          simp only [List.length_cons] at hlength
          exact ih (by omega) h
      · simp only [ht] at h
        cases h
        have hhalts : Halts joins (t :: (tail ++ extra)) := by
          intro u hu
          cases hu
          exact Bool.eq_false_iff.mpr ht
        exact more_halts hhalts

theorem Extensible.chain {stops stops' : List τ → Prop} (hconsumes : Consumes operand)
    (hoperand : Extensible operand stops)
    (hstops : ∀ extra, stops' extra → Halts joins extra ∧ stops extra) :
    Extensible (chain operand joins join) stops' := by
  intro ts f rest extra h hrest
  cases hread : operand ts with
  | error e =>
    rw [chain_error hread] at h
    cases h
  | ok p =>
    obtain ⟨g, after⟩ := p
    rw [chain_ok hread] at h
    have hlong : operand (ts ++ extra) = .ok (g, after ++ extra) := by
      refine hoperand ts g after extra hread ?_
      intro hafter
      subst hafter
      cases h
      exact (hstops extra (hrest rfl)).2
    rw [chain_ok hlong]
    exact more_extends hconsumes hoperand hstops le_rfl h hrest

theorem Refines.moreWithin (h : Refines operand operand') (fuel : ℕ) {f : Formula α}
    {ts : List τ} {r : Formula α × List τ}
    (hread : moreWithin operand joins join fuel f ts = .ok r) :
    moreWithin operand' joins join fuel f ts = .ok r := by
  induction fuel generalizing f ts with
  | zero => cases ts <;> exact hread
  | succ fuel ih =>
    cases ts with
    | nil => exact hread
    | cons t tail =>
      simp only [Connectives.moreWithin] at hread ⊢
      by_cases ht : joins t = true
      · simp only [ht, if_true] at hread ⊢
        cases hoperand : operand tail with
        | error e =>
          rw [hoperand] at hread
          cases hread
        | ok p =>
          rw [hoperand] at hread
          rw [h tail p hoperand]
          exact ih hread
      · simp only [ht] at hread ⊢
        exact hread

theorem Refines.chain (h : Refines operand operand') :
    Refines (chain operand joins join) (chain operand' joins join) := by
  intro ts r hread
  cases hoperand : operand ts with
  | error e =>
    rw [chain_error hoperand] at hread
    cases hread
  | ok p =>
    rw [chain_ok hoperand] at hread
    rw [chain_ok (h ts p hoperand)]
    exact h.moreWithin p.2.length hread

end Chains

namespace Reader

variable {R : Reader τ ε α} {depth : ℕ} {f g : Formula α} {ts us rest : List τ}

/-- The reader of atomic formulas consumes a text that is not empty and reads it
the same way in front of any other. -/
structure Steady (R : Reader τ ε α) : Prop where
  consumes : ∀ ts a rest, R.atomic ts = .ok (a, rest) → ∃ used, used ≠ [] ∧ ts = used ++ rest
  extended : ∀ ts a rest extra, R.atomic ts = .ok (a, rest) →
    R.atomic (ts ++ extra) = .ok (a, rest ++ extra)

/-- The text behind a closing token, or any other that joins nothing. -/
def Stops (R : Reader τ ε α) (extra : List τ) : Prop :=
  Halts R.joinsAnd extra ∧ Halts R.joinsOr extra

theorem stops_closing {c : τ} (h : R.role c = .closing) (extra : List τ) :
    R.Stops (c :: extra) :=
  ⟨halts_cons (joinsAnd_eq_false (by simp [h])), halts_cons (joinsOr_eq_false (by simp [h]))⟩

theorem closeGroup_ok {c : τ} (h : R.role c = .closing) :
    R.closeGroup (.ok (f, c :: rest)) = .ok (f, rest) := by
  simp only [closeGroup, h, if_true]

section Growing

theorem term_consumes (hsteady : R.Steady) (depth : ℕ) : Consumes (R.term depth) := by
  have hleaf : Consumes R.leafAt := by
    intro ts f rest h
    obtain ⟨a, hread, -⟩ := leafAt_eq_ok.mp h
    obtain ⟨used, -, hused⟩ := hsteady.consumes ts a rest hread
    exact ⟨used, hused⟩
  induction depth with
  | zero =>
    intro ts f rest h
    rw [term_zero] at h
    cases h
  | succ depth ih =>
    intro ts f rest h
    cases ts with
    | nil => exact hleaf [] f rest h
    | cons t tail =>
      by_cases hneg : R.role t = .negate
      · rw [term_negate R hneg] at h
        obtain ⟨g, hread, -⟩ := negated_eq_ok h
        obtain ⟨used, rfl⟩ := ih tail g rest hread
        exact ⟨t :: used, rfl⟩
      · by_cases hopen : R.role t = .opening
        · rw [term_opening R hopen] at h
          obtain ⟨c, hread, -⟩ := closeGroup_eq_ok h
          obtain ⟨used, rfl⟩ := ih.chain.chain tail f (c :: rest) hread
          exact ⟨t :: (used ++ [c]), by simp⟩
        · rw [term_leaf R hneg hopen] at h
          exact hleaf (t :: tail) f rest h

theorem conjunction_consumes (hsteady : R.Steady) (depth : ℕ) : Consumes (R.conjunction depth) :=
  (term_consumes hsteady depth).chain

theorem expression_extensible_of_term (hsteady : R.Steady)
    (hterm : Extensible (R.term depth) fun _ => True) :
    Extensible (R.expression depth) R.Stops := by
  have hconjunction : Extensible (R.conjunction depth) (Halts R.joinsAnd) :=
    Extensible.chain (term_consumes hsteady depth) hterm fun _ hhalts => ⟨hhalts, trivial⟩
  exact Extensible.chain (conjunction_consumes hsteady depth) hconjunction
    fun _ hstops => ⟨hstops.2, hstops.1⟩

theorem term_extensible (hsteady : R.Steady) (depth : ℕ) :
    Extensible (R.term depth) fun _ => True := by
  induction depth with
  | zero =>
    intro ts f rest extra h
    rw [term_zero] at h
    cases h
  | succ depth ih =>
    intro ts f rest extra h _
    have hleaf : ∀ us, R.leafAt us = .ok (f, rest) →
        R.leafAt (us ++ extra) = .ok (f, rest ++ extra) := by
      intro us hus
      obtain ⟨a, hread, hf⟩ := leafAt_eq_ok.mp hus
      exact leafAt_eq_ok.mpr ⟨a, hsteady.extended us a rest extra hread, hf⟩
    cases ts with
    | nil =>
      obtain ⟨a, hread, -⟩ := leafAt_eq_ok.mp h
      obtain ⟨used, hne, hused⟩ := hsteady.consumes [] a rest hread
      exact absurd (List.append_eq_nil_iff.mp hused.symm).1 hne
    | cons t tail =>
      rw [List.cons_append]
      by_cases hneg : R.role t = .negate
      · rw [term_negate R hneg] at h ⊢
        obtain ⟨g, hread, rfl⟩ := negated_eq_ok h
        rw [ih tail g rest extra hread fun _ => trivial]
        rfl
      · by_cases hopen : R.role t = .opening
        · rw [term_opening R hopen] at h ⊢
          obtain ⟨c, hread, hc⟩ := closeGroup_eq_ok h
          have hlong := expression_extensible_of_term hsteady ih tail f (c :: rest) extra hread
            (by simp)
          rw [hlong]
          exact closeGroup_ok hc
        · rw [term_leaf R hneg hopen] at h ⊢
          exact hleaf (t :: tail) h

/-- A whole text that was read is read in front of any text that stops it. -/
theorem expression_extensible (hsteady : R.Steady) (depth : ℕ) :
    Extensible (R.expression depth) R.Stops :=
  expression_extensible_of_term hsteady (term_extensible hsteady depth)

theorem term_refines (R : Reader τ ε α) (depth : ℕ) : Refines (R.term depth) (R.term (depth + 1)) := by
  induction depth with
  | zero =>
    intro ts r h
    rw [term_zero] at h
    cases h
  | succ depth ih =>
    intro ts r h
    cases ts with
    | nil => exact h
    | cons t tail =>
      by_cases hneg : R.role t = .negate
      · rw [term_negate R hneg] at h ⊢
        obtain ⟨f, rest⟩ := r
        obtain ⟨g, hread, rfl⟩ := negated_eq_ok h
        rw [ih tail _ hread]
        rfl
      · by_cases hopen : R.role t = .opening
        · rw [term_opening R hopen] at h ⊢
          obtain ⟨f, rest⟩ := r
          obtain ⟨c, hread, hc⟩ := closeGroup_eq_ok h
          have hdeeper : R.expression (depth + 1) tail = .ok (f, c :: rest) :=
            ih.chain.chain tail _ hread
          rw [hdeeper]
          exact closeGroup_ok hc
        · rw [term_leaf R hneg hopen] at h ⊢
          exact h

end Growing

section Terms

/-- A text that reads as a term does so at every deeper bound. -/
theorem ReadsAs.deeper (h : R.ReadsAs depth f ts .term) {deeper : ℕ} (hle : depth ≤ deeper) :
    R.ReadsAs deeper f ts .term := by
  intro rest
  induction deeper, hle using Nat.le_induction with
  | base => exact h rest
  | succ n _ ih => exact term_refines R n _ _ ih

theorem ReadsAs.negation {t : τ} (ht : R.role t = .negate) (h : R.ReadsAs depth f ts .term) :
    R.ReadsAs (depth + 1) (.neg f) (t :: ts) .term := by
  intro rest
  rw [List.cons_append, term_negate R ht, h rest]
  rfl

theorem ReadsAs.expression (h : R.ReadsAs depth f ts .term) (hstops : R.Stops rest) :
    R.expression depth (ts ++ rest) = .ok (f, rest) := by
  have hconjunction : R.conjunction depth (ts ++ rest) = .ok (f, rest) := by
    rw [conjunction, chain_ok (h rest)]
    exact more_halts hstops.1
  rw [Reader.expression, chain_ok hconjunction]
  exact more_halts hstops.2

theorem ReadsAs.conjunction {a : τ} (hsteady : R.Steady) (ha : R.role a = .conjoin)
    (hf : R.ReadsAs depth f ts .term) (hg : R.ReadsAs depth g us .term) (hstops : R.Stops rest) :
    R.expression depth (ts ++ a :: (us ++ rest)) = .ok (.conj f g, rest) := by
  have hconjunction : R.conjunction depth (ts ++ a :: (us ++ rest)) = .ok (.conj f g, rest) := by
    rw [Reader.conjunction, chain_ok (hf _),
      more_join (term_consumes hsteady depth).shrinks (joinsAnd_iff.mpr ha) (hg rest)]
    exact more_halts hstops.1
  rw [Reader.expression, chain_ok hconjunction]
  exact more_halts hstops.2

theorem ReadsAs.disjunction {o : τ} (hsteady : R.Steady) (ho : R.role o = .disjoin)
    (hf : R.ReadsAs depth f ts .term) (hg : R.ReadsAs depth g us .term) (hstops : R.Stops rest) :
    R.expression depth (ts ++ o :: (us ++ rest)) = .ok (.disj f g, rest) := by
  have hand : Halts R.joinsAnd (o :: (us ++ rest)) :=
    halts_cons (joinsAnd_eq_false (by simp [ho]))
  have hleft : R.conjunction depth (ts ++ o :: (us ++ rest)) = .ok (f, o :: (us ++ rest)) := by
    rw [Reader.conjunction, chain_ok (hf _)]
    exact more_halts hand
  have hright : R.conjunction depth (us ++ rest) = .ok (g, rest) := by
    rw [Reader.conjunction, chain_ok (hg rest)]
    exact more_halts hstops.1
  rw [Reader.expression, chain_ok hleft,
    more_join (conjunction_consumes hsteady depth).shrinks (joinsOr_iff.mpr ho) hright]
  exact more_halts hstops.2

/-- A text between brackets is a term where it reads as an expression up to the
closing one. -/
theorem ReadsAs.group {o c : τ} (ho : R.role o = .opening) (hc : R.role c = .closing)
    (h : ∀ rest, R.Stops rest → R.expression depth (ts ++ rest) = .ok (f, rest)) :
    R.ReadsAs (depth + 1) f (o :: (ts ++ [c])) .term := by
  intro rest
  rw [List.cons_append, List.append_assoc, List.singleton_append, term_opening R ho,
    h (c :: rest) (stops_closing hc rest)]
  exact closeGroup_ok hc

/-- A whole text between brackets is a term. -/
theorem ReadsAs.whole {o c : τ} (hsteady : R.Steady) (ho : R.role o = .opening)
    (hc : R.role c = .closing) (h : R.expression depth ts = .ok (f, [])) :
    R.ReadsAs (depth + 1) f (o :: (ts ++ [c])) .term := by
  apply ReadsAs.group ho hc
  intro rest hstops
  exact expression_extensible hsteady depth ts f [] rest h fun _ => hstops

end Terms

end Reader

end RayClickHouse.Connectives
