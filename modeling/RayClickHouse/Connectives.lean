import Mathlib

/-!
Formulas over NOT, AND and OR with parentheses: a grammar in which NOT binds
more tightly than AND and AND more tightly than OR, and a reader that descends
along it without going back. The tokens, the atomic formulas and the errors are
parameters.
-/
namespace RayClickHouse.Connectives

inductive Role
  | conjoin
  | disjoin
  | negate
  | opening
  | closing
  | plain
  deriving DecidableEq, Repr

inductive Formula (α : Type*)
  | leaf (a : α)
  | neg (f : Formula α)
  | conj (f g : Formula α)
  | disj (f g : Formula α)
  deriving DecidableEq, Repr

inductive Level
  | term
  | conjunction
  | expression

variable {τ ε α : Type*}

def Formula.leaves : Formula α → List α
  | .leaf a => [a]
  | .neg f => f.leaves
  | .conj f g => f.leaves ++ g.leaves
  | .disj f g => f.leaves ++ g.leaves

inductive Derives (role : τ → Role) (Atomic : α → List τ → Prop) :
    Level → Formula α → List τ → Prop
  | leaf {a ts} : Atomic a ts → Derives role Atomic .term (.leaf a) ts
  | negation {t f ts} : role t = .negate → Derives role Atomic .term f ts →
      Derives role Atomic .term (.neg f) (t :: ts)
  | group {o f ts c} : role o = .opening → Derives role Atomic .expression f ts →
      role c = .closing → Derives role Atomic .term f (o :: (ts ++ [c]))
  | single {f ts} : Derives role Atomic .term f ts → Derives role Atomic .conjunction f ts
  | conjoin {f ts t g us} : Derives role Atomic .conjunction f ts → role t = .conjoin →
      Derives role Atomic .term g us → Derives role Atomic .conjunction (.conj f g) (ts ++ t :: us)
  | only {f ts} : Derives role Atomic .conjunction f ts → Derives role Atomic .expression f ts
  | disjoin {f ts t g us} : Derives role Atomic .expression f ts → role t = .disjoin →
      Derives role Atomic .conjunction g us →
      Derives role Atomic .expression (.disj f g) (ts ++ t :: us)

/-- The tokens before a position at which the grammar expects an atomic formula. -/
inductive Opens (role : τ → Role) (Atomic : α → List τ → Prop) : Level → List τ → Prop
  | here : Opens role Atomic .term []
  | negation {t p} : role t = .negate → Opens role Atomic .term p →
      Opens role Atomic .term (t :: p)
  | group {o p} : role o = .opening → Opens role Atomic .expression p →
      Opens role Atomic .term (o :: p)
  | single {p} : Opens role Atomic .term p → Opens role Atomic .conjunction p
  | conjoin {f ts t p} : Derives role Atomic .conjunction f ts → role t = .conjoin →
      Opens role Atomic .term p → Opens role Atomic .conjunction (ts ++ t :: p)
  | only {p} : Opens role Atomic .conjunction p → Opens role Atomic .expression p
  | disjoin {f ts t p} : Derives role Atomic .expression f ts → role t = .disjoin →
      Opens role Atomic .conjunction p → Opens role Atomic .expression (ts ++ t :: p)

/-- What a reader of formulas depends on: the roles of the tokens, a reader of
atomic formulas, and the errors for an unclosed group and for deep nesting. -/
structure Reader (τ ε α : Type*) where
  role : τ → Role
  atomic : List τ → Except ε (α × List τ)
  unclosed : ε
  nested : ε

abbrev Reading (τ ε α : Type*) := Except ε (Formula α × List τ)

def moreWithin (operand : List τ → Reading τ ε α) (joins : τ → Bool)
    (join : Formula α → Formula α → Formula α) : ℕ → Formula α → List τ → Reading τ ε α
  | _, f, [] => .ok (f, [])
  | 0, f, t :: rest => .ok (f, t :: rest)
  | fuel + 1, f, t :: rest =>
      if joins t then
        match operand rest with
        | .error e => .error e
        | .ok (g, after) => moreWithin operand joins join fuel (join f g) after
      else .ok (f, t :: rest)

def more (operand : List τ → Reading τ ε α) (joins : τ → Bool)
    (join : Formula α → Formula α → Formula α) (f : Formula α) (rest : List τ) : Reading τ ε α :=
  moreWithin operand joins join rest.length f rest

def chain (operand : List τ → Reading τ ε α) (joins : τ → Bool)
    (join : Formula α → Formula α → Formula α) (ts : List τ) : Reading τ ε α :=
  match operand ts with
  | .error e => .error e
  | .ok (f, rest) => more operand joins join f rest

def negated : Reading τ ε α → Reading τ ε α
  | .error e => .error e
  | .ok (f, rest) => .ok (.neg f, rest)

def Halts (joins : τ → Bool) (rest : List τ) : Prop :=
  ∀ t, rest.head? = some t → joins t = false

def Shrinks (operand : List τ → Reading τ ε α) : Prop :=
  ∀ ts f rest, operand ts = .ok (f, rest) → rest.length ≤ ts.length

theorem halts_nil (joins : τ → Bool) : Halts joins [] := by
  intro t ht
  cases ht

section Chains

variable {operand : List τ → Reading τ ε α} {joins : τ → Bool}
variable {join : Formula α → Formula α → Formula α}

theorem moreWithin_enough (hshrinks : Shrinks operand) {fuel : ℕ} {f : Formula α} {rest : List τ}
    (h : rest.length ≤ fuel) :
    moreWithin operand joins join fuel f rest = more operand joins join f rest := by
  suffices hsame : ∀ m n f rest, List.length rest ≤ m → List.length rest ≤ n →
      moreWithin operand joins join m f rest = moreWithin operand joins join n f rest by
    exact hsame fuel rest.length f rest h le_rfl
  intro m
  induction m with
  | zero =>
    intro n f rest hm hn
    have hnil : rest = [] := List.length_eq_zero_iff.mp (Nat.le_zero.mp hm)
    subst hnil
    cases n <;> rfl
  | succ m ih =>
    intro n f rest hm hn
    cases rest with
    | nil => cases n <;> rfl
    | cons t rest =>
      simp only [List.length_cons] at hm hn
      obtain ⟨n, rfl⟩ : ∃ k, n = k + 1 := ⟨n - 1, by omega⟩
      simp only [moreWithin]
      by_cases hjoins : joins t = true
      · simp only [hjoins, if_true]
        cases hread : operand rest with
        | error e => rfl
        | ok p =>
          have hlength := hshrinks rest p.1 p.2 hread
          apply ih n (join f p.1) p.2
          · omega
          · omega
      · simp only [hjoins]
        rfl

theorem more_halts {f : Formula α} {rest : List τ} (h : Halts joins rest) :
    more operand joins join f rest = .ok (f, rest) := by
  cases rest with
  | nil => rfl
  | cons t rest =>
    have ht : joins t = false := h t rfl
    simp only [more, List.length_cons, moreWithin, ht]
    rfl

theorem more_join (hshrinks : Shrinks operand) {f g : Formula α} {t : τ} {rest after : List τ}
    (ht : joins t = true) (h : operand rest = .ok (g, after)) :
    more operand joins join f (t :: rest) = more operand joins join (join f g) after := by
  have hlength := hshrinks rest g after h
  have hstep : more operand joins join f (t :: rest) =
      moreWithin operand joins join rest.length (join f g) after := by
    simp only [more, List.length_cons, moreWithin, ht, if_true, h]
  rw [hstep]
  exact moreWithin_enough hshrinks hlength

theorem more_error {f : Formula α} {t : τ} {rest : List τ} {e : ε} (ht : joins t = true)
    (h : operand rest = .error e) : more operand joins join f (t :: rest) = .error e := by
  simp only [more, List.length_cons, moreWithin, ht, if_true, h]

theorem chain_ok {f : Formula α} {ts rest : List τ} (h : operand ts = .ok (f, rest)) :
    chain operand joins join ts = more operand joins join f rest := by
  simp only [chain, h]

theorem chain_error {ts : List τ} {e : ε} (h : operand ts = .error e) :
    chain operand joins join ts = .error e := by
  simp only [chain, h]

/-- What every operand read satisfies, and the join of a chain with a further
operand keeps, holds of the whole chain. -/
theorem chain_rule (P Q : Formula α → List τ → Prop)
    (hoperand : ∀ ts f rest, operand ts = .ok (f, rest) → ∃ used, ts = used ++ rest ∧ P f used)
    (hfirst : ∀ f us, P f us → Q f us)
    (hjoin : ∀ f us t g vs, Q f us → joins t = true → P g vs → Q (join f g) (us ++ t :: vs))
    {ts : List τ} {f : Formula α} {rest : List τ}
    (h : chain operand joins join ts = .ok (f, rest)) :
    ∃ used, ts = used ++ rest ∧ Q f used ∧ Halts joins rest := by
  have hmore : ∀ fuel g us tail, List.length tail ≤ fuel → Q g us →
      moreWithin operand joins join fuel g tail = .ok (f, rest) →
      ∃ used, us ++ tail = used ++ rest ∧ Q f used ∧ Halts joins rest := by
    intro fuel
    induction fuel with
    | zero =>
      intro g us tail hlength hg heq
      have hnil : tail = [] := List.length_eq_zero_iff.mp (Nat.le_zero.mp hlength)
      subst hnil
      obtain ⟨rfl, rfl⟩ := Prod.mk.inj (Except.ok.inj heq)
      exact ⟨us, rfl, hg, halts_nil joins⟩
    | succ fuel ih =>
      intro g us tail hlength hg heq
      cases tail with
      | nil =>
        obtain ⟨rfl, rfl⟩ := Prod.mk.inj (Except.ok.inj heq)
        exact ⟨us, rfl, hg, halts_nil joins⟩
      | cons t tail =>
        simp only [moreWithin] at heq
        by_cases ht : joins t = true
        · simp only [ht, if_true] at heq
          cases hread : operand tail with
          | error e =>
            rw [hread] at heq
            cases heq
          | ok p =>
            rw [hread] at heq
            obtain ⟨used, hused, hP⟩ := hoperand tail p.1 p.2 hread
            have hshort : p.2.length ≤ fuel := by
              have hsum := congrArg List.length hused
              simp only [List.length_append] at hsum
              simp only [List.length_cons] at hlength
              omega
            obtain ⟨all, hall, hQ, hhalts⟩ := ih (join g p.1) (us ++ t :: used) p.2 hshort
              (hjoin g us t p.1 used hg ht hP) heq
            refine ⟨all, ?_, hQ, hhalts⟩
            rw [← hall, hused, List.append_assoc, List.cons_append]
        · simp only [ht] at heq
          obtain ⟨rfl, rfl⟩ := Prod.mk.inj (Except.ok.inj heq)
          refine ⟨us, rfl, hg, ?_⟩
          intro u hu
          cases hu
          exact Bool.eq_false_iff.mpr ht
  cases hread : operand ts with
  | error e =>
    rw [chain_error hread] at h
    cases h
  | ok p =>
    rw [chain_ok hread] at h
    obtain ⟨used, hused, hP⟩ := hoperand ts p.1 p.2 hread
    obtain ⟨all, hall, hQ, hhalts⟩ := hmore p.2.length p.1 used p.2 le_rfl (hfirst p.1 used hP) h
    exact ⟨all, hused.trans hall, hQ, hhalts⟩

/-- A failing chain failed in its first operand, or in one that follows a chain
it had read and a joining token. -/
theorem chain_error_rule (P Q : Formula α → List τ → Prop) (F : List τ → Prop)
    (hoperand : ∀ ts f rest, operand ts = .ok (f, rest) → ∃ used, ts = used ++ rest ∧ P f used)
    (hfirst : ∀ f us, P f us → Q f us)
    (hjoin : ∀ f us t g vs, Q f us → joins t = true → P g vs → Q (join f g) (us ++ t :: vs))
    {e : ε} (hfails : ∀ ts, operand ts = .error e → F ts)
    (hlater : ∀ f us t vs, Q f us → joins t = true → operand vs = .error e → F (us ++ t :: vs))
    {ts : List τ} (h : chain operand joins join ts = .error e) : F ts := by
  have hmore : ∀ fuel g us tail, Q g us →
      moreWithin operand joins join fuel g tail = .error e → F (us ++ tail) := by
    intro fuel
    induction fuel with
    | zero =>
      intro g us tail hg heq
      cases tail <;> cases heq
    | succ fuel ih =>
      intro g us tail hg heq
      cases tail with
      | nil => cases heq
      | cons t tail =>
        simp only [moreWithin] at heq
        by_cases ht : joins t = true
        · simp only [ht, if_true] at heq
          cases hread : operand tail with
          | error e' =>
            rw [hread] at heq
            cases heq
            exact hlater g us t tail hg ht hread
          | ok p =>
            rw [hread] at heq
            obtain ⟨used, hused, hP⟩ := hoperand tail p.1 p.2 hread
            have hrest := ih (join g p.1) (us ++ t :: used) p.2 (hjoin g us t p.1 used hg ht hP) heq
            rwa [List.append_assoc, List.cons_append, ← hused] at hrest
        · simp only [ht] at heq
          cases heq
  cases hread : operand ts with
  | error e' =>
    rw [chain_error hread] at h
    cases h
    exact hfails ts hread
  | ok p =>
    rw [chain_ok hread] at h
    obtain ⟨used, hused, hP⟩ := hoperand ts p.1 p.2 hread
    have hrest := hmore p.2.length p.1 used p.2 (hfirst p.1 used hP) h
    rwa [← hused] at hrest

end Chains

namespace Reader

variable (R : Reader τ ε α)

def leafAt (ts : List τ) : Reading τ ε α :=
  match R.atomic ts with
  | .error e => .error e
  | .ok (a, rest) => .ok (.leaf a, rest)

def closeGroup : Reading τ ε α → Reading τ ε α
  | .error e => .error e
  | .ok (_, []) => .error R.unclosed
  | .ok (f, c :: rest) => if R.role c = .closing then .ok (f, rest) else .error R.unclosed

def joinsAnd (t : τ) : Bool := R.role t = .conjoin

def joinsOr (t : τ) : Bool := R.role t = .disjoin

def term : ℕ → List τ → Reading τ ε α
  | 0, _ => .error R.nested
  | _ + 1, [] => R.leafAt []
  | depth + 1, t :: rest =>
      match R.role t with
      | .negate => negated (term depth rest)
      | .opening =>
          R.closeGroup (chain (chain (term depth) R.joinsAnd .conj) R.joinsOr .disj rest)
      | _ => R.leafAt (t :: rest)

def conjunction (depth : ℕ) : List τ → Reading τ ε α := chain (R.term depth) R.joinsAnd .conj

def expression (depth : ℕ) : List τ → Reading τ ε α :=
  chain (R.conjunction depth) R.joinsOr .disj

theorem term_zero (ts : List τ) : R.term 0 ts = .error R.nested := by
  cases ts <;> rfl

theorem term_negate {t : τ} (h : R.role t = .negate) (depth : ℕ) (rest : List τ) :
    R.term (depth + 1) (t :: rest) = negated (R.term depth rest) := by
  simp only [term, h]

theorem term_opening {o : τ} (h : R.role o = .opening) (depth : ℕ) (rest : List τ) :
    R.term (depth + 1) (o :: rest) = R.closeGroup (R.expression depth rest) := by
  simp only [term, h]
  rfl

theorem term_leaf {t : τ} (hneg : R.role t ≠ .negate) (hopen : R.role t ≠ .opening) (depth : ℕ)
    (rest : List τ) : R.term (depth + 1) (t :: rest) = R.leafAt (t :: rest) := by
  cases hrole : R.role t with
  | negate => exact absurd hrole hneg
  | opening => exact absurd hrole hopen
  | _ => simp only [term, hrole]

end Reader

end RayClickHouse.Connectives
