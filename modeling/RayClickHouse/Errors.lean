import RayClickHouse.Pointwise
import RayClickHouse.Text

/-!
The connector's error hierarchy. A failure carries the class that is raised,
the fixed part of its message and the names the message lists.
-/
namespace RayClickHouse

/-- The connector's own classes; `builtin` stands for those of the language and
`interrupt` for KeyboardInterrupt, SystemExit and GeneratorExit. -/
inductive ErrorKind
  | configuration
  | authentication
  | permission
  | objectNotFound
  | discovery
  | schema
  | transport
  | read
  | write
  | ambiguousWrite
  | ambiguousTableManagement
  | notApplicable
  | builtin
  | interrupt
  deriving DecidableEq, Repr

structure Failure where
  kind : ErrorKind
  message : String
  names : List Text := []
  deriving DecidableEq, Repr

abbrev Outcome (α : Type*) := Except Failure α

namespace Outcome

def raise {α : Type*} (kind : ErrorKind) (message : String) (names : List Text := []) : Outcome α :=
  .error ⟨kind, message, names⟩

def ofOption {α : Type*} (failure : Failure) : Option α → Outcome α
  | none => .error failure
  | some a => .ok a

def check {α : Type*} (x : Outcome α) (test : α → Bool) : Bool :=
  match x with
  | .ok a => test a
  | .error _ => false

theorem check_eq_true {α : Type*} {x : Outcome α} {test : α → Bool} :
    check x test = true ↔ ∃ a, x = .ok a ∧ test a = true := by
  cases x with
  | error e => simp [check]
  | ok a => simp [check]

def checkFailure {α : Type*} (x : Outcome α) (test : Failure → Bool) : Bool :=
  match x with
  | .ok _ => false
  | .error failure => test failure

theorem checkFailure_eq_true {α : Type*} {x : Outcome α} {test : Failure → Bool} :
    checkFailure x test = true ↔ ∃ failure, x = .error failure ∧ test failure = true := by
  cases x with
  | error e => simp [checkFailure]
  | ok a => simp [checkFailure]

end Outcome

/-- What a call into the client library raises; the message is in lower case. -/
inductive Raised
  | interrupt
  | error (code : Option ℤ) (message : Text)

def mentions (message : Text) (word : String) : Bool :=
  Text.search (fun s => word.toList.isPrefixOf s) message

def interrupted : Failure := ⟨.interrupt, "interrupted", []⟩

section Bind

universe u

variable {ε : Type*} {α β : Type u}

theorem Except.bind_eq_ok {x : Except ε α} {f : α → Except ε β} {b : β} :
    (x >>= f) = .ok b ↔ ∃ a, x = .ok a ∧ f a = .ok b := by
  cases x with
  | error e => simp [bind, Except.bind]
  | ok a => simp [bind, Except.bind]

theorem Except.bind_eq_error {x : Except ε α} {f : α → Except ε β} {e : ε} :
    (x >>= f) = .error e ↔ x = .error e ∨ ∃ a, x = .ok a ∧ f a = .error e := by
  cases x with
  | error e' => simp [bind, Except.bind]
  | ok a => simp [bind, Except.bind]

theorem Except.map_eq_ok {x : Except ε α} {f : α → β} {b : β} :
    (f <$> x) = .ok b ↔ ∃ a, x = .ok a ∧ f a = b := by
  cases x with
  | error e => simp [Functor.map, Except.map]
  | ok a => simp [Functor.map, Except.map]

theorem Except.mapM_eq_ok {f : α → Except ε β} {xs : List α} {ys : List β} :
    xs.mapM f = .ok ys ↔ List.Forall₂ (fun x y => f x = .ok y) xs ys := by
  induction xs generalizing ys with
  | nil =>
    constructor
    · intro h
      cases Except.ok.inj h
      exact List.Forall₂.nil
    · intro h
      cases h
      rfl
  | cons x rest ih =>
    rw [List.mapM_cons, Except.bind_eq_ok]
    constructor
    · rintro ⟨y, hy, h⟩
      obtain ⟨tail, htail, hpure⟩ := Except.bind_eq_ok.mp h
      cases Except.ok.inj hpure
      exact List.Forall₂.cons hy (ih.mp htail)
    · intro h
      cases h with
      | cons hy htail => exact ⟨_, hy, Except.bind_eq_ok.mpr ⟨_, ih.mpr htail, rfl⟩⟩

theorem Except.mapM_succeeds {f : α → Except ε β} {xs : List α} :
    (∃ ys, xs.mapM f = .ok ys) ↔ ∀ x ∈ xs, ∃ y, f x = .ok y := by
  induction xs with
  | nil =>
    constructor
    · intro _ x hx
      exact absurd hx List.not_mem_nil
    · intro _
      exact ⟨[], rfl⟩
  | cons x rest ih =>
    simp only [Except.mapM_eq_ok] at ih ⊢
    constructor
    · rintro ⟨_, hall⟩
      obtain ⟨y, tail, hy, htail, rfl⟩ := List.forall₂_cons_left_iff.mp hall
      intro z hz
      rcases List.mem_cons.mp hz with rfl | hz
      · exact ⟨y, hy⟩
      · exact ih.mp ⟨tail, htail⟩ z hz
    · intro hall
      obtain ⟨y, hy⟩ := hall x (List.mem_cons_self ..)
      obtain ⟨tail, htail⟩ := ih.mpr fun z hz => hall z (List.mem_cons_of_mem _ hz)
      exact ⟨y :: tail, List.Forall₂.cons hy htail⟩

end Bind

end RayClickHouse
