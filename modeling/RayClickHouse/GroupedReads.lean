import RayClickHouse.Generators

/-!
The read task that streams a group of scans one after another. All scans draw on
one row budget, and a scan is closed before the next one is opened, also when it
fails and when the consumer goes away.
-/
namespace RayClickHouse.GroupedReads

open Generators

variable {ρ ε : Type}

/-- The stream of a scan: its blocks, and the error it ends in, if any. -/
structure ScanStream (ρ ε : Type) where
  blocks : List (List ρ)
  failure : Option ε

inductive Event (ρ : Type)
  | opened (index : ℕ)
  | yielded (block : List ρ)
  | closed (index : ℕ)
  deriving DecidableEq

inductive Exit (ε : Type)
  | raised (failure : ε)
  | generatorExit
  deriving DecidableEq

inductive Flow
  | returned
  | finished (remaining : Option ℤ)

def exhausted (remaining : Option ℤ) : Bool := remaining.any fun rows => decide (rows ≤ 0)

def cut (remaining : Option ℤ) (block : List ρ) : List ρ :=
  match remaining with
  | some rows => block.take rows.toNat
  | none => block

def spend (remaining : Option ℤ) (rows : ℕ) : Option ℤ := remaining.map fun left => left - rows

def yieldRows (block : List ρ) : Body (Exit ε) (Event ρ) Unit :=
  if block = [] then pure () else Body.yields .generatorExit (.yielded block)

def readBlocks (failure : Option ε) :
    List (List ρ) → Option ℤ → Body (Exit ε) (Event ρ) Flow
  | [], remaining =>
      match failure with
      | some e => Body.raise (.raised e)
      | none => pure (.finished remaining)
  | block :: rest, remaining => do
      let piece := cut remaining block
      let remaining := spend remaining piece.length
      yieldRows piece
      if exhausted remaining then pure .returned else readBlocks failure rest remaining

def readScan (scan : ScanStream ρ ε) (index : ℕ) (remaining : Option ℤ) :
    Body (Exit ε) (Event ρ) Flow := do
  Body.emit (.opened index)
  (readBlocks scan.failure scan.blocks remaining).finalize (Body.emit (.closed index))

def readScans : List (ScanStream ρ ε) → ℕ → Option ℤ → Body (Exit ε) (Event ρ) Unit
  | [], _, _ => pure ()
  | scan :: rest, index, remaining =>
      if exhausted remaining then pure ()
      else do
        let flow ← readScan scan index remaining
        match flow with
        | .returned => pure ()
        | .finished remaining => readScans rest (index + 1) remaining

theorem readScans_cons {scan : ScanStream ρ ε} {rest : List (ScanStream ρ ε)}
    {remaining : Option ℤ} (index : ℕ) (hremaining : exhausted remaining = false) :
    readScans (scan :: rest) index remaining =
      (readScan scan index remaining >>= fun flow =>
        match flow with
        | .returned => pure ()
        | .finished remaining => readScans rest (index + 1) remaining) := by
  rw [readScans, hremaining, if_neg (by simp)]

def groupReadTasks (tasks : List (ScanStream ρ ε)) (rowLimit : Option ℤ) (pulls : ℕ) :
    Except (Exit ε) Unit × List (Event ρ) :=
  consume .generatorExit (readScans tasks 0 rowLimit) pulls

/-- The first rows a limit admits, all of them without a limit. -/
def firstRows : Option ℤ → List ρ → List ρ
  | none, rows => rows
  | some limit, rows => rows.take limit.toNat

/-- The rows of the scans in order, up to the first error. -/
def rowsBeforeError : List (ScanStream ρ ε) → List ρ
  | [] => []
  | scan :: rest =>
      scan.blocks.flatten ++ (if scan.failure.isSome then [] else rowsBeforeError rest)

def firstError (tasks : List (ScanStream ρ ε)) : Option ε := tasks.findSome? ScanStream.failure

/-- The events of scans that are opened in order, each closed before the next. -/
def bracketed : ℕ → List (List (List ρ)) → List (Event ρ)
  | _, [] => []
  | index, blocks :: rest =>
      .opened index :: (blocks.map .yielded ++ .closed index :: bracketed (index + 1) rest)

section Blocks

def limited : Option ℤ → List (List ρ) → List (List ρ)
  | _, [] => []
  | remaining, block :: rest =>
      let piece := cut remaining block
      let remaining := spend remaining piece.length
      (if piece = [] then [] else [piece]) ++
        (if exhausted remaining then [] else limited remaining rest)

theorem cut_append (remaining : Option ℤ) (rows more : List ρ) :
    cut remaining (rows ++ more) =
      cut remaining rows ++ cut (spend remaining (cut remaining rows).length) more := by
  cases remaining with
  | none => rfl
  | some left =>
    simp only [cut, spend, Option.map_some, List.take_append, List.length_take]
    congr 2
    omega

theorem cut_of_exhausted {remaining : Option ℤ} (h : exhausted remaining = true) (rows : List ρ) :
    cut remaining rows = [] := by
  cases remaining with
  | none => simp [exhausted] at h
  | some left =>
    have hleft : left ≤ 0 := by simpa [exhausted] using h
    simp only [cut, Int.toNat_of_nonpos hleft, List.take_zero]

theorem flatten_limited (remaining : Option ℤ) (blocks : List (List ρ)) :
    (limited remaining blocks).flatten = cut remaining blocks.flatten := by
  induction blocks generalizing remaining with
  | nil => cases remaining <;> simp [limited, cut]
  | cons block rest ih =>
    rw [List.flatten_cons, cut_append, limited, List.flatten_append]
    congr 1
    · by_cases hpiece : cut remaining block = []
      · simp [hpiece]
      · simp [hpiece]
    · by_cases hexhausted : exhausted (spend remaining (cut remaining block).length) = true
      · rw [if_pos hexhausted, cut_of_exhausted hexhausted, List.flatten_nil]
      · rw [if_neg hexhausted, ih]

theorem nil_not_mem_limited (remaining : Option ℤ) (blocks : List (List ρ)) :
    [] ∉ limited remaining blocks := by
  induction blocks generalizing remaining with
  | nil => simp [limited]
  | cons block rest ih =>
    rw [limited, List.mem_append]
    rintro (h | h)
    · by_cases hpiece : cut remaining block = []
      · simp [hpiece] at h
      · simp only [if_neg hpiece, List.mem_singleton] at h
        exact hpiece h.symm
    · by_cases hexhausted : exhausted (spend remaining (cut remaining block).length) = true
      · simp [hexhausted] at h
      · rw [if_neg hexhausted] at h
        exact ih _ h

def loopResult (failure : Option ε) (after : Option ℤ) : Except (Exit ε) Flow :=
  if exhausted after then .ok .returned
  else
    match failure with
    | some e => .error (.raised e)
    | none => .ok (.finished after)

theorem loopResult_returned (failure : Option ε) {after : Option ℤ} (h : exhausted after = true) :
    loopResult failure after = .ok .returned := by
  unfold loopResult
  rw [if_pos h]

theorem loopResult_failed (e : ε) {after : Option ℤ} (h : exhausted after = false) :
    loopResult (some e) after = .error (.raised e) := by
  unfold loopResult
  rw [h, if_neg (by simp)]

theorem loopResult_finished {after : Option ℤ} (h : exhausted after = false) :
    loopResult (none : Option ε) after = .ok (.finished after) := by
  unfold loopResult
  rw [h, if_neg (by simp)]

theorem spend_spend (remaining : Option ℤ) (m n : ℕ) :
    spend (spend remaining m) n = spend remaining (m + n) := by
  cases remaining with
  | none => rfl
  | some left =>
    simp only [spend, Option.map_some, Option.some.injEq]
    omega

/-- A consumer that takes every block sees the whole loop; one that stops at a
block closes the generator there. -/
theorem run_readBlocks (failure : Option ε) (blocks : List (List ρ)) (remaining : Option ℤ)
    (hremaining : exhausted remaining = false) (pulls : ℕ) :
    ((limited remaining blocks).length ≤ pulls →
      (readBlocks failure blocks remaining).run pulls =
        (loopResult failure (spend remaining (limited remaining blocks).flatten.length),
          pulls - (limited remaining blocks).length, (limited remaining blocks).map .yielded)) ∧
    (pulls < (limited remaining blocks).length →
      (readBlocks failure blocks remaining).run pulls =
        (.error .generatorExit, 0,
          ((limited remaining blocks).take (pulls + 1)).map .yielded)) := by
  induction blocks generalizing remaining pulls with
  | nil =>
    refine ⟨fun _ => ?_, fun hlt => absurd hlt (Nat.not_lt_zero _)⟩
    have hspend : spend remaining 0 = remaining := by cases remaining <;> simp [spend]
    cases failure with
    | none => simp [readBlocks, limited, loopResult, hspend, hremaining]
    | some e => simp [readBlocks, limited, loopResult, hspend, hremaining]
  | cons block rest ih =>
    let piece := cut remaining block
    let after := spend remaining piece.length
    let tail := if exhausted after then [] else limited after rest
    have hlimited : limited remaining (block :: rest) =
        (if piece = [] then [] else [piece]) ++ tail := rfl
    -- the rest of the loop, once the piece is taken
    have hrest : ∀ left, (tail.length ≤ left →
          (if exhausted after then (pure .returned : Body (Exit ε) (Event ρ) Flow)
            else readBlocks failure rest after).run left =
            (loopResult failure (spend after tail.flatten.length), left - tail.length,
              tail.map .yielded)) ∧
        (left < tail.length →
          (if exhausted after then (pure .returned : Body (Exit ε) (Event ρ) Flow)
            else readBlocks failure rest after).run left =
            (.error .generatorExit, 0, (tail.take (left + 1)).map .yielded)) := by
      intro left
      by_cases hexhausted : exhausted after = true
      · simp only [tail, if_pos hexhausted]
        have hspend : spend after 0 = after := by
          simp only [after, spend_spend, Nat.add_zero]
        simp [loopResult, hspend, hexhausted]
      · simp only [tail, if_neg hexhausted]
        exact ih after (by simpa using hexhausted) left
    have hunfold : readBlocks failure (block :: rest) remaining =
        (yieldRows piece >>= fun _ => if exhausted after then pure .returned
          else readBlocks failure rest after) := rfl
    have hspend : spend after tail.flatten.length =
        spend remaining (piece.length + tail.flatten.length) := spend_spend _ _ _
    rw [hunfold, hlimited]
    by_cases hpiece : piece = []
    · have hyield : (yieldRows piece : Body (Exit ε) (Event ρ) Unit).run pulls =
          (.ok (), pulls, []) := by
        rw [yieldRows, if_pos hpiece]
        rfl
      rw [Body.run_bind_ok _ hyield, if_pos hpiece, List.nil_append]
      rw [hpiece, List.length_nil, Nat.zero_add] at hspend
      refine ⟨fun hle => ?_, fun hlt => ?_⟩
      · rw [(hrest pulls).1 hle, hspend, List.nil_append]
      · rw [(hrest pulls).2 hlt, List.nil_append]
    · rw [if_neg hpiece, List.singleton_append, List.length_cons, List.flatten_cons,
        List.length_append, ← hspend]
      cases pulls with
      | zero =>
        have hyield : (yieldRows piece : Body (Exit ε) (Event ρ) Unit).run 0 =
            (.error .generatorExit, 0, [.yielded piece]) := by
          rw [yieldRows, if_neg hpiece, Body.run_yields_last]
        rw [Body.run_bind_error _ hyield]
        refine ⟨fun hle => absurd hle (Nat.not_succ_le_zero _), fun _ => ?_⟩
        simp
      | succ left =>
        have hyield : (yieldRows piece : Body (Exit ε) (Event ρ) Unit).run (left + 1) =
            (.ok (), left, [.yielded piece]) := by
          rw [yieldRows, if_neg hpiece, Body.run_yields_succ]
        rw [Body.run_bind_ok _ hyield]
        refine ⟨fun hle => ?_, fun hlt => ?_⟩
        · rw [(hrest left).1 (by omega), Nat.add_sub_add_right]
          rfl
        · rw [(hrest left).2 (by omega)]
          rfl

end Blocks

end RayClickHouse.GroupedReads
