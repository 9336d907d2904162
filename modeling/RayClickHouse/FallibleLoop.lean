import Mathlib

/-!
A loop over a list whose body updates a state and may fail. The loop stops at
the first failure and keeps the state the failing body left.
-/
namespace RayClickHouse.FallibleLoop

variable {σ α ε : Type*}

def runLoop (step : σ → α → σ × Except ε Unit) : σ → List α → σ × Except ε Unit
  | s, [] => (s, .ok ())
  | s, a :: rest =>
      match step s a with
      | (next, .ok ()) => runLoop step next rest
      | (next, .error e) => (next, .error e)

section Rules

variable {step : σ → α → σ × Except ε Unit}

theorem runLoop_cons_ok {s next : σ} {a : α} (rest : List α) (h : step s a = (next, .ok ())) :
    runLoop step s (a :: rest) = runLoop step next rest := by
  simp only [runLoop, h]

theorem runLoop_cons_error {s next : σ} {a : α} {e : ε} (rest : List α)
    (h : step s a = (next, .error e)) : runLoop step s (a :: rest) = (next, .error e) := by
  simp only [runLoop, h]

end Rules

/-- An invariant of the completed items carries a loop to its end, or to the
item whose body failed. -/
theorem runLoop_rule (step : σ → α → σ × Except ε Unit) (Inv : σ → List α → Prop) {all : List α}
    (hstep : ∀ s done a rest next, all = done ++ a :: rest → Inv s done →
      step s a = (next, .ok ()) → Inv next (done ++ [a]))
    {s : σ} (before : List α) (hinit : Inv s before) (items : List α)
    (hall : all = before ++ items) :
    (∃ last, runLoop step s items = (last, .ok ()) ∧ Inv last all) ∨
      ∃ done a rest mid last e, all = done ++ a :: rest ∧ Inv mid done ∧
        step mid a = (last, .error e) ∧ runLoop step s items = (last, .error e) := by
  induction items generalizing s before with
  | nil =>
    left
    refine ⟨s, rfl, ?_⟩
    rw [hall, List.append_nil]
    exact hinit
  | cons a rest ih =>
    obtain ⟨next, answer, hout⟩ : ∃ next answer, step s a = (next, answer) := ⟨_, _, rfl⟩
    cases answer with
    | error e =>
      right
      exact ⟨before, a, rest, s, next, e, hall, hinit, hout, runLoop_cons_error rest hout⟩
    | ok u =>
      rw [runLoop_cons_ok rest hout]
      apply ih (before ++ [a]) (hstep s before a rest next hall hinit hout)
      rw [hall, List.append_assoc, List.singleton_append]

/-- What every body keeps, whether it fails or not, a loop keeps. -/
theorem runLoop_preserves {step : σ → α → σ × Except ε Unit} (Inv : σ → Prop)
    (hstep : ∀ s a, Inv s → Inv (step s a).1) (items : List α) {s : σ} (h : Inv s) :
    Inv (runLoop step s items).1 := by
  induction items generalizing s with
  | nil => exact h
  | cons a rest ih =>
    have hnext := hstep s a h
    obtain ⟨next, answer, hout⟩ : ∃ next answer, step s a = (next, answer) := ⟨_, _, rfl⟩
    rw [hout] at hnext
    cases answer with
    | error e =>
      rw [runLoop_cons_error rest hout]
      exact hnext
    | ok u =>
      rw [runLoop_cons_ok rest hout]
      exact ih hnext

end RayClickHouse.FallibleLoop
