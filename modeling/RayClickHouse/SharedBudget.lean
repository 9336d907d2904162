import RayClickHouse.GroupedReads

/-!
The row budget of a group over whole runs. The blocks of a group are those its
budget admits, up to the first error; a consumer sees an initial part of them,
with every scan it opened closed again.
-/
namespace RayClickHouse.GroupedReads

open Generators

variable {ρ ε : Type}

section Budget

theorem exhausted_spend_cut (remaining : Option ℤ) (rows : List ρ) :
    exhausted (spend remaining (cut remaining rows).length) =
      exhausted (spend remaining rows.length) := by
  cases remaining with
  | none => rfl
  | some left =>
    simp only [exhausted, spend, cut, Option.map_some, Option.any_some, List.length_take]
    congr 1
    rw [eq_iff_iff]
    omega

/-- What is left of the budget shows that nothing was cut off. -/
theorem cut_eq_self {remaining : Option ℤ} {rows : List ρ}
    (h : exhausted (spend remaining (cut remaining rows).length) = false) :
    cut remaining rows = rows := by
  cases remaining with
  | none => rfl
  | some left =>
    rw [exhausted_spend_cut] at h
    have hlt : (rows.length : ℤ) < left := by
      simpa [exhausted, spend] using h
    simp only [cut]
    apply List.take_of_length_le
    omega

theorem exhausted_spend {remaining : Option ℤ} (h : exhausted remaining = true) (n : ℕ) :
    exhausted (spend remaining n) = true := by
  cases remaining with
  | none => simp [exhausted] at h
  | some left =>
    have hleft : left ≤ 0 := by simpa [exhausted] using h
    simp only [exhausted, spend, Option.map_some, Option.any_some, decide_eq_true_eq]
    omega

end Budget

/-- How a group ends when every block is taken: with the first error, unless the
budget is exhausted before it. -/
def groupResult (tasks : List (ScanStream ρ ε)) (limit : Option ℤ) : Except (Exit ε) Unit :=
  match firstError tasks with
  | none => .ok ()
  | some e =>
      if exhausted (spend limit (rowsBeforeError tasks).length) then .ok ()
      else .error (.raised e)

/-- The blocks of a group, scan by scan, are the rows its budget admits. A scan is
opened only where no earlier one failed and the earlier ones left some of the budget. -/
structure SharesBudget (tasks : List (ScanStream ρ ε)) (limit : Option ℤ)
    (sections : List (List (List ρ))) : Prop where
  rows_eq : sections.flatten.flatten = firstRows limit (rowsBeforeError tasks)
  nonempty : [] ∉ sections.flatten
  opened_le : sections.length ≤ tasks.length
  no_earlier_error : ∀ i < sections.length, ∀ scan ∈ tasks.take i, scan.failure = none
  budget_left : ∀ i < sections.length,
    exhausted (spend limit ((tasks.take i).flatMap fun scan => scan.blocks.flatten).length) = false

section Scans

variable {scan : ScanStream ρ ε} {rest : List (ScanStream ρ ε)} {remaining : Option ℤ}

theorem firstRows_eq (limit : Option ℤ) (rows : List ρ) :
    firstRows limit rows = cut limit rows := by
  cases limit <;> rfl

theorem spend_zero (remaining : Option ℤ) : spend remaining 0 = remaining := by
  cases remaining <;> simp [spend]

theorem sharesBudget_nil (tasks : List (ScanStream ρ ε)) (limit : Option ℤ)
    (h : firstRows limit (rowsBeforeError tasks) = []) : SharesBudget tasks limit [] where
  rows_eq := h.symm
  nonempty := List.not_mem_nil
  opened_le := Nat.zero_le _
  no_earlier_error := fun _ h => absurd h (Nat.not_lt_zero _)
  budget_left := fun _ h => absurd h (Nat.not_lt_zero _)

/-- The last scan that is opened. -/
theorem sharesBudget_last (hremaining : exhausted remaining = false)
    (h : cut (spend remaining (cut remaining scan.blocks.flatten).length)
        (if scan.failure.isSome then [] else rowsBeforeError rest) = []) :
    SharesBudget (scan :: rest) remaining [limited remaining scan.blocks] where
  rows_eq := by
    rw [firstRows_eq, rowsBeforeError, cut_append, h, List.append_nil, List.flatten_singleton,
      flatten_limited]
  nonempty := by
    rw [List.flatten_singleton]
    exact nil_not_mem_limited remaining scan.blocks
  opened_le := by simp
  no_earlier_error := by simp
  budget_left := by simp [spend_zero, hremaining]

/-- A scan that ends with some of the budget left, and the scans after it. -/
theorem sharesBudget_cons {sections : List (List (List ρ))}
    (hremaining : exhausted remaining = false)
    (hfailure : scan.failure = none)
    (hafter : exhausted (spend remaining (cut remaining scan.blocks.flatten).length) = false)
    (h : SharesBudget rest (spend remaining (cut remaining scan.blocks.flatten).length) sections) :
    SharesBudget (scan :: rest) remaining (limited remaining scan.blocks :: sections) where
  rows_eq := by
    rw [firstRows_eq, rowsBeforeError, cut_append, hfailure, List.flatten_cons, List.flatten_append,
      flatten_limited, h.rows_eq, firstRows_eq]
    rfl
  nonempty := by
    rw [List.flatten_cons, List.mem_append]
    rintro (hmem | hmem)
    · exact nil_not_mem_limited remaining scan.blocks hmem
    · exact h.nonempty hmem
  opened_le := by simpa using h.opened_le
  no_earlier_error := by
    intro i hi other hother
    cases i with
    | zero => simp at hother
    | succ i =>
      rw [List.take_succ_cons] at hother
      rcases List.mem_cons.mp hother with rfl | hother
      · exact hfailure
      · exact h.no_earlier_error i (by simpa using hi) other hother
  budget_left := by
    intro i hi
    cases i with
    | zero => simpa [spend_zero] using hremaining
    | succ i =>
      have hleft := h.budget_left i (by simpa using hi)
      rw [cut_eq_self hafter, spend_spend] at hleft
      rw [List.take_succ_cons, List.flatMap_cons, List.length_append]
      exact hleft

theorem run_readScan (scan : ScanStream ρ ε) (index : ℕ)
    (hremaining : exhausted remaining = false) (pulls : ℕ) :
    ((limited remaining scan.blocks).length ≤ pulls →
      (readScan scan index remaining).run pulls =
        (loopResult scan.failure (spend remaining (cut remaining scan.blocks.flatten).length),
          pulls - (limited remaining scan.blocks).length,
          .opened index :: ((limited remaining scan.blocks).map .yielded ++ [.closed index]))) ∧
    (pulls < (limited remaining scan.blocks).length →
      (readScan scan index remaining).run pulls =
        (.error .generatorExit, 0, .opened index ::
          (((limited remaining scan.blocks).take (pulls + 1)).map .yielded ++
            [.closed index]))) := by
  have hloop := run_readBlocks scan.failure scan.blocks remaining hremaining pulls
  rw [flatten_limited] at hloop
  have hopen : (Body.emit (.opened index) : Body (Exit ε) (Event ρ) Unit).run pulls =
      (.ok (), pulls, [.opened index]) := rfl
  refine ⟨fun hle => ?_, fun hlt => ?_⟩
  · rw [readScan, Body.run_bind_ok _ hopen, Body.run_finalize (hloop.1 hle) (Body.run_emit _)]
    rfl
  · rw [readScan, Body.run_bind_ok _ hopen, Body.run_finalize (hloop.2 hlt) (Body.run_emit _)]
    rfl

theorem groupResult_of_exhausted {tasks : List (ScanStream ρ ε)}
    (h : exhausted (spend remaining (rowsBeforeError tasks).length) = true) :
    groupResult tasks remaining = .ok () := by
  unfold groupResult
  cases firstError tasks with
  | none => rfl
  | some e => simp only [if_pos h]

theorem groupResult_failed {e : ε} (hfailure : scan.failure = some e)
    (hafter : exhausted (spend remaining (cut remaining scan.blocks.flatten).length) = false) :
    groupResult (scan :: rest) remaining = .error (.raised e) := by
  have hfirst : firstError (scan :: rest) = some e := by simp [firstError, hfailure]
  have hrows : rowsBeforeError (scan :: rest) = scan.blocks.flatten := by
    simp [rowsBeforeError, hfailure]
  rw [exhausted_spend_cut] at hafter
  simp only [groupResult, hfirst, hrows, hafter, Bool.false_eq_true, if_false]

theorem groupResult_finished (hfailure : scan.failure = none)
    (hafter : exhausted (spend remaining (cut remaining scan.blocks.flatten).length) = false) :
    groupResult (scan :: rest) remaining =
      groupResult rest (spend remaining (cut remaining scan.blocks.flatten).length) := by
  have hfirst : firstError (scan :: rest) = firstError rest := by simp [firstError, hfailure]
  have hrows : rowsBeforeError (scan :: rest) = scan.blocks.flatten ++ rowsBeforeError rest := by
    simp [rowsBeforeError, hfailure]
  rw [groupResult, groupResult, hfirst, hrows, cut_eq_self hafter, spend_spend, List.length_append]

/-- What the blocks of a group are to a consumer: it takes all of them, or those
up to the one at which it closes the generator. -/
def Sees (tasks : List (ScanStream ρ ε)) (index : ℕ) (remaining : Option ℤ)
    (sections : List (List (List ρ))) : Prop :=
  ∀ pulls,
    (sections.flatten.length ≤ pulls →
      (readScans tasks index remaining).run pulls =
        (groupResult tasks remaining, pulls - sections.flatten.length,
          bracketed index sections)) ∧
    (pulls < sections.flatten.length → ∃ seen,
      (readScans tasks index remaining).run pulls =
          (.error .generatorExit, 0, bracketed index seen) ∧
        seen.flatten = sections.flatten.take (pulls + 1) ∧ seen.length ≤ sections.length)

theorem sees_nil {tasks : List (ScanStream ρ ε)} {index : ℕ}
    (hrun : ∀ pulls, (readScans tasks index remaining).run pulls = (.ok (), pulls, []))
    (hresult : groupResult tasks remaining = .ok ()) : Sees tasks index remaining [] := by
  intro pulls
  refine ⟨fun _ => ?_, fun hlt => absurd hlt (Nat.not_lt_zero _)⟩
  rw [hrun, hresult]
  rfl

/-- The consumer goes away at a block of the first scan. -/
theorem run_stopped (index : ℕ) (hremaining : exhausted remaining = false) {pulls : ℕ}
    (hlt : pulls < (limited remaining scan.blocks).length) :
    (readScans (scan :: rest) index remaining).run pulls =
      (.error .generatorExit, 0,
        bracketed index [(limited remaining scan.blocks).take (pulls + 1)]) := by
  rw [readScans_cons index hremaining,
    Body.run_bind_error _ ((run_readScan scan index hremaining pulls).2 hlt)]
  rfl

theorem sees_last (index : ℕ) (hremaining : exhausted remaining = false)
    (hrun : ∀ pulls, (limited remaining scan.blocks).length ≤ pulls →
      (readScans (scan :: rest) index remaining).run pulls =
        (groupResult (scan :: rest) remaining, pulls - (limited remaining scan.blocks).length,
          bracketed index [limited remaining scan.blocks])) :
    Sees (scan :: rest) index remaining [limited remaining scan.blocks] := by
  intro pulls
  rw [List.flatten_singleton]
  refine ⟨hrun pulls, fun hlt => ?_⟩
  exact ⟨[(limited remaining scan.blocks).take (pulls + 1)], run_stopped index hremaining hlt,
    List.flatten_singleton, le_rfl⟩

theorem sees_cons (index : ℕ) {sections : List (List (List ρ))}
    (hremaining : exhausted remaining = false) (hfailure : scan.failure = none)
    (hafter : exhausted (spend remaining (cut remaining scan.blocks.flatten).length) = false)
    (h : Sees rest (index + 1) (spend remaining (cut remaining scan.blocks.flatten).length)
      sections) :
    Sees (scan :: rest) index remaining (limited remaining scan.blocks :: sections) := by
  intro pulls
  have hloop : loopResult scan.failure
      (spend remaining (cut remaining scan.blocks.flatten).length) =
        .ok (.finished (spend remaining (cut remaining scan.blocks.flatten).length)) := by
    rw [hfailure, loopResult_finished hafter]
  have hscan := (run_readScan scan index hremaining pulls).1
  rw [hloop] at hscan
  rw [List.flatten_cons, List.length_append]
  refine ⟨fun hle => ?_, fun hlt => ?_⟩
  · rw [readScans_cons index hremaining, Body.run_bind_ok _ (hscan (by omega)),
      (h (pulls - (limited remaining scan.blocks).length)).1 (by omega),
      groupResult_finished hfailure hafter, Nat.sub_sub]
    simp [bracketed]
  · by_cases hfirst : pulls < (limited remaining scan.blocks).length
    · refine ⟨[(limited remaining scan.blocks).take (pulls + 1)],
        run_stopped index hremaining hfirst, ?_, by simp⟩
      rw [List.flatten_singleton, List.take_append_of_le_length (by omega)]
    · obtain ⟨seen, hrun, hflatten, hlength⟩ :=
        (h (pulls - (limited remaining scan.blocks).length)).2 (by omega)
      refine ⟨limited remaining scan.blocks :: seen, ?_, ?_, by simpa using hlength⟩
      · rw [readScans_cons index hremaining, Body.run_bind_ok _ (hscan (by omega)), hrun]
        simp [bracketed]
      · have hwhole : (limited remaining scan.blocks).take (pulls + 1) =
            limited remaining scan.blocks := List.take_of_length_le (by omega)
        have hleft : pulls + 1 - (limited remaining scan.blocks).length =
            pulls - (limited remaining scan.blocks).length + 1 := by omega
        rw [List.flatten_cons, hflatten, List.take_append, hwhole, hleft]

/-- The whole group, and what a consumer sees that stops on the way. -/
theorem readScans_sees (tasks : List (ScanStream ρ ε)) (index : ℕ) (remaining : Option ℤ) :
    ∃ sections, SharesBudget tasks remaining sections ∧ Sees tasks index remaining sections := by
  induction tasks generalizing index remaining with
  | nil =>
    refine ⟨[], sharesBudget_nil [] remaining ?_, sees_nil (fun _ => rfl) rfl⟩
    cases remaining <;> simp [firstRows, rowsBeforeError]
  | cons scan rest ih =>
    by_cases hremaining : exhausted remaining = true
    · refine ⟨[], sharesBudget_nil _ remaining ?_, sees_nil (fun pulls => ?_) ?_⟩
      · rw [firstRows_eq, cut_of_exhausted hremaining]
      · rw [readScans, if_pos hremaining]
        rfl
      · exact groupResult_of_exhausted (exhausted_spend hremaining _)
    have hremaining : exhausted remaining = false := by simpa using hremaining
    by_cases hafter : exhausted (spend remaining (cut remaining scan.blocks.flatten).length) = true
    · refine ⟨[limited remaining scan.blocks],
        sharesBudget_last hremaining (cut_of_exhausted hafter _),
        sees_last index hremaining fun pulls hle => ?_⟩
      have hresult : groupResult (scan :: rest) remaining = .ok () := by
        apply groupResult_of_exhausted
        rw [exhausted_spend_cut] at hafter
        rw [rowsBeforeError, List.length_append, ← spend_spend]
        exact exhausted_spend hafter _
      have hscan := (run_readScan scan index hremaining pulls).1 hle
      rw [loopResult_returned _ hafter] at hscan
      rw [readScans_cons index hremaining, Body.run_bind_ok _ hscan, hresult]
      simp [bracketed]
    have hafter :
        exhausted (spend remaining (cut remaining scan.blocks.flatten).length) = false := by
      simpa using hafter
    cases hfailure : scan.failure with
    | some e =>
      refine ⟨[limited remaining scan.blocks], sharesBudget_last hremaining ?_,
        sees_last index hremaining fun pulls hle => ?_⟩
      · rw [hfailure]
        generalize spend remaining (cut remaining scan.blocks.flatten).length = after
        cases after <;> simp [cut]
      · have hscan := (run_readScan scan index hremaining pulls).1 hle
        rw [hfailure, loopResult_failed e hafter] at hscan
        rw [readScans_cons index hremaining, Body.run_bind_error _ hscan,
          groupResult_failed hfailure hafter]
        rfl
    | none =>
      obtain ⟨sections, hbudget, hsees⟩ := ih (index + 1)
        (spend remaining (cut remaining scan.blocks.flatten).length)
      exact ⟨limited remaining scan.blocks :: sections,
        sharesBudget_cons hremaining hfailure hafter hbudget,
        sees_cons index hremaining hfailure hafter hsees⟩

end Scans

def Event.block? : Event ρ → Option (List ρ)
  | .yielded block => some block
  | _ => none

def yieldedBlocks (events : List (Event ρ)) : List (List ρ) := events.filterMap Event.block?

theorem yieldedBlocks_bracketed (index : ℕ) (sections : List (List (List ρ))) :
    yieldedBlocks (bracketed index sections) = sections.flatten := by
  induction sections generalizing index with
  | nil => rfl
  | cons blocks rest ih =>
    have hblocks : (blocks.map Event.yielded).filterMap Event.block? = blocks := by
      rw [List.filterMap_map]
      exact List.filterMap_some
    have htail := ih (index + 1)
    unfold yieldedBlocks at htail ⊢
    simp only [bracketed, List.filterMap_cons, Event.block?, List.filterMap_append, hblocks,
      List.flatten_cons]
    rw [htail]

/-- Whenever the consumer stops, it has seen the first blocks of those the budget
admits, and every scan it opened is closed. -/
theorem group_shares_budget (tasks : List (ScanStream ρ ε)) (rowLimit : Option ℤ) :
    ∃ sections, SharesBudget tasks rowLimit sections ∧ ∀ pulls, ∃ seen,
      (groupReadTasks tasks rowLimit pulls).2 = bracketed 0 seen ∧
        yieldedBlocks (bracketed 0 seen) = sections.flatten.take pulls ∧
        seen.length ≤ sections.length ∧
        (groupReadTasks tasks rowLimit pulls).1 =
          if pulls ≤ sections.flatten.length then .error .generatorExit
          else groupResult tasks rowLimit := by
  obtain ⟨sections, hbudget, hsees⟩ := readScans_sees tasks 0 rowLimit
  refine ⟨sections, hbudget, fun pulls => ?_⟩
  cases pulls with
  | zero => exact ⟨[], rfl, rfl, Nat.zero_le _, by rw [if_pos (Nat.zero_le _)]; rfl⟩
  | succ pulls =>
    by_cases hall : sections.flatten.length ≤ pulls
    · have hrun := (hsees pulls).1 hall
      refine ⟨sections, ?_, ?_, le_rfl, ?_⟩
      · simp only [groupReadTasks, consume, hrun]
      · rw [yieldedBlocks_bracketed, List.take_of_length_le (by omega)]
      · rw [if_neg (by omega)]
        simp only [groupReadTasks, consume, hrun]
    · obtain ⟨seen, hrun, hflatten, hlength⟩ := (hsees pulls).2 (by omega)
      refine ⟨seen, ?_, ?_, hlength, ?_⟩
      · simp only [groupReadTasks, consume, hrun]
      · rw [yieldedBlocks_bracketed, hflatten]
      · rw [if_pos (by omega)]
        simp only [groupReadTasks, consume, hrun]

/-- The limit falls on the last row of the first scan; the second is never opened. -/
example : groupReadTasks [⟨[[1, 2], [], [3]], none⟩, ⟨[[4]], some "offline"⟩] (some 3) 9 =
    (.ok (), [.opened 0, .yielded [1, 2], .yielded [3], .closed 0]) := by
  rfl

end RayClickHouse.GroupedReads
