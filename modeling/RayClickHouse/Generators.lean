import Mathlib

/-!
Generators and the consumers that pull from them. A body records what it does
and may raise. Every yield hands over one block, and a consumer that does not
pull again closes the generator there, so that the yield raises and the cleanups
around it run.
-/
namespace RayClickHouse.Generators

variable {ε τ : Type*} {α β : Type}

/-- From the pulls that are left: a result, the pulls left then, and the events on the way. -/
def Body (ε τ : Type*) (α : Type) := ℕ → Except ε α × ℕ × List τ

namespace Body

def run (body : Body ε τ α) (pulls : ℕ) : Except ε α × ℕ × List τ := body pulls

def value (a : α) : Body ε τ α := fun pulls => (.ok a, pulls, [])

def andThen (body : Body ε τ α) (f : α → Body ε τ β) : Body ε τ β := fun pulls =>
  match body.run pulls with
  | (.ok a, left, events) =>
      let rest := (f a).run left
      (rest.1, rest.2.1, events ++ rest.2.2)
  | (.error e, left, events) => (.error e, left, events)

instance : Monad (Body ε τ) where
  pure := value
  bind := andThen

def raise (e : ε) : Body ε τ α := fun pulls => (.error e, pulls, [])

def emit (event : τ) : Body ε τ Unit := fun pulls => (.ok (), pulls, [event])

/-- Hands over a block; `closing` is raised when the consumer closes the generator here. -/
def yields (closing : ε) (event : τ) : Body ε τ Unit := fun pulls =>
  match pulls with
  | 0 => (.error closing, 0, [event])
  | left + 1 => (.ok (), left, [event])

def finalize (body : Body ε τ α) (cleanup : Body ε τ Unit) : Body ε τ α := fun pulls =>
  match body.run pulls with
  | (result, left, events) =>
      match cleanup.run left with
      | (.ok _, left', events') => (result, left', events ++ events')
      | (.error e, left', events') => (.error e, left', events ++ events')

def catching (body : Body ε τ α) (handler : ε → Body ε τ α) : Body ε τ α := fun pulls =>
  match body.run pulls with
  | (.ok a, left, events) => (.ok a, left, events)
  | (.error e, left, events) =>
      let rest := (handler e).run left
      (rest.1, rest.2.1, events ++ rest.2.2)

section Rules

variable {body : Body ε τ α} {pulls left : ℕ} {events : List τ}

@[simp] theorem run_pure (a : α) : (pure a : Body ε τ α).run pulls = (.ok a, pulls, []) := rfl

@[simp] theorem run_raise (e : ε) : (raise e : Body ε τ α).run pulls = (.error e, pulls, []) := rfl

@[simp] theorem run_emit (event : τ) :
    (emit event : Body ε τ Unit).run pulls = (.ok (), pulls, [event]) := rfl

theorem run_yields_last (closing : ε) (event : τ) :
    (yields closing event).run 0 = (.error closing, 0, [event]) := rfl

theorem run_yields_succ (closing : ε) (event : τ) :
    (yields closing event).run (left + 1) = (.ok (), left, [event]) := rfl

theorem run_bind_ok {a : α} (f : α → Body ε τ β) (h : body.run pulls = (.ok a, left, events)) :
    (body >>= f).run pulls =
      (((f a).run left).1, ((f a).run left).2.1, events ++ ((f a).run left).2.2) := by
  change andThen body f pulls = _
  unfold andThen
  rw [h]

theorem run_bind_error {e : ε} (f : α → Body ε τ β)
    (h : body.run pulls = (.error e, left, events)) :
    (body >>= f).run pulls = (.error e, left, events) := by
  change andThen body f pulls = _
  unfold andThen
  rw [h]

theorem run_finalize {result : Except ε α} {cleanup : Body ε τ Unit} {left' : ℕ}
    {events' : List τ} (h : body.run pulls = (result, left, events))
    (hcleanup : cleanup.run left = (.ok (), left', events')) :
    (body.finalize cleanup).run pulls = (result, left', events ++ events') := by
  change finalize body cleanup pulls = _
  unfold finalize
  rw [h]
  simp only [hcleanup]

theorem run_finalize_raised {result : Except ε α} {cleanup : Body ε τ Unit} {e : ε} {left' : ℕ}
    {events' : List τ} (h : body.run pulls = (result, left, events))
    (hcleanup : cleanup.run left = (.error e, left', events')) :
    (body.finalize cleanup).run pulls = (.error e, left', events ++ events') := by
  change finalize body cleanup pulls = _
  unfold finalize
  rw [h]
  simp only [hcleanup]

theorem run_catching_ok {a : α} {handler : ε → Body ε τ α}
    (h : body.run pulls = (.ok a, left, events)) :
    (body.catching handler).run pulls = (.ok a, left, events) := by
  change catching body handler pulls = _
  unfold catching
  rw [h]

theorem run_catching_error {e : ε} {handler : ε → Body ε τ α}
    (h : body.run pulls = (.error e, left, events)) :
    (body.catching handler).run pulls =
      (((handler e).run left).1, ((handler e).run left).2.1,
        events ++ ((handler e).run left).2.2) := by
  change catching body handler pulls = _
  unfold catching
  rw [h]

end Rules

end Body

/-- What a consumer sees that pulls a number of times and closes the generator then. -/
def consume (closing : ε) (body : Body ε τ Unit) : ℕ → Except ε Unit × List τ
  | 0 => (.error closing, [])
  | pulls + 1 => ((body.run pulls).1, (body.run pulls).2.2)

end RayClickHouse.Generators
