import RayClickHouse.Batches

/-!
The two loops of iter_batch_slices as runs that end. A completed run exists for
every table, and it is the only one, so the slices computed with a bounded
number of passes are those the generator yields. Each of them is the longest
that satisfies the limits when a longer slice never needs fewer bytes.
-/
namespace RayClickHouse.Batches

/-- The inner loop run from low, high and size until low passes high. It starts with low = 1. -/
inductive Bisects (fits : ℕ → Bool) : ℕ → ℕ → ℕ → ℕ → Prop
  | done {low high size : ℕ} (hend : high < low) : Bisects fits low high size size
  | fit {low high size final : ℕ} (hle : low ≤ high) (hfits : fits ((low + high) / 2) = true)
      (hrest : Bisects fits ((low + high) / 2 + 1) high ((low + high) / 2) final) :
      Bisects fits low high size final
  | exceed {low high size final : ℕ} (hle : low ≤ high)
      (hfits : fits ((low + high) / 2) = false)
      (hrest : Bisects fits low ((low + high) / 2 - 1) size final) :
      Bisects fits low high size final

section Runs

variable (nbytes : Batch → ℕ) (t : ArrowTable) (maxRows maxBytes : ℕ)

inductive Chooses (offset : ℕ) : ℕ → Prop
  | whole (hfits : nbytes ⟨t, offset, min maxRows (t.rows.length - offset)⟩ ≤ maxBytes) :
      Chooses offset (min maxRows (t.rows.length - offset))
  | bisect {size : ℕ}
      (hexceed : maxBytes < nbytes ⟨t, offset, min maxRows (t.rows.length - offset)⟩)
      (hrun : Bisects (fun size => decide (nbytes ⟨t, offset, size⟩ ≤ maxBytes)) 1
        (min maxRows (t.rows.length - offset)) 1 size) :
      Chooses offset size

/-- The outer loop run from an offset until no row is left, with the slices it yields. -/
inductive Yields : ℕ → List Batch → Prop
  | done {offset : ℕ} (hend : t.rows.length ≤ offset) : Yields offset []
  | slice {offset size : ℕ} {rest : List Batch} (hoffset : offset < t.rows.length)
      (hsize : Chooses nbytes t maxRows maxBytes offset size)
      (hrest : Yields (offset + size) rest) :
      Yields offset (⟨t, offset, size⟩ :: rest)

/-- No longer slice at the same offset satisfies both limits, unless none does. -/
structure Longest (b : Batch) : Prop where
  limits : (b.size ≤ maxRows ∧ nbytes b ≤ maxBytes) ∨
    (b.size = 1 ∧ ∀ size, 1 ≤ size → size ≤ maxRows → b.offset + size ≤ t.rows.length →
      maxBytes < nbytes ⟨t, b.offset, size⟩)
  longest : ∀ size, size ≤ maxRows → b.offset + size ≤ t.rows.length →
    nbytes ⟨t, b.offset, size⟩ ≤ maxBytes → size ≤ b.size

end Runs

namespace Bisects

variable {fits : ℕ → Bool}

theorem unique {low high size first second : ℕ} (h : Bisects fits low high size first)
    (h' : Bisects fits low high size second) : first = second := by
  induction h with
  | done hend =>
    cases h' with
    | done _ => rfl
    | fit hle _ _ => omega
    | exceed hle _ _ => omega
  | fit hle hfits _ ih =>
    cases h' with
    | done hend => omega
    | fit _ _ hrest => exact ih hrest
    | exceed _ hexceed _ => simp [hfits] at hexceed
  | exceed hle hexceed _ ih =>
    cases h' with
    | done hend => omega
    | fit _ hfits _ => simp [hfits] at hexceed
    | exceed _ _ hrest => exact ih hrest

/-- Enough passes complete the run. -/
theorem of_bisectSize (fuel low high size : ℕ) (hlow : 1 ≤ low) (hfuel : high < low + fuel) :
    Bisects fits low high size (bisectSize fits fuel low high size) := by
  induction fuel generalizing low high size with
  | zero => exact done (by omega)
  | succ fuel ih =>
    unfold bisectSize
    by_cases hle : low ≤ high
    · rw [if_pos hle]
      by_cases hfits : fits ((low + high) / 2) = true
      · simp only [hfits, if_true]
        apply fit hle hfits
        apply ih <;> omega
      · simp only [hfits, if_false, Bool.false_eq_true]
        apply exceed hle (by simpa using hfits)
        apply ih <;> omega
    · rw [if_neg hle]
      exact done (by omega)

/-- Where what fits is closed under shorter sizes, nothing above the result fits. -/
theorem maximal {low high size final : ℕ} (h : Bisects fits low high size final) (bound : ℕ)
    (hmono : ∀ m n, m ≤ n → n ≤ bound → fits n = true → fits m = true)
    (hsize : low ≤ size + 1) (habove : ∀ n, high < n → n ≤ bound → fits n = false) :
    ∀ n, final < n → n ≤ bound → fits n = false := by
  induction h with
  | done hend =>
    intro n hn hbound
    exact habove n (by omega) hbound
  | fit hle hfits _ ih => exact ih le_rfl habove
  | @exceed low high size final hle hexceed _ ih =>
    apply ih hsize
    intro n hn hbound
    by_contra hfits
    have hcandidate := hmono ((low + high) / 2) n (by omega) hbound (by simpa using hfits)
    simp [hexceed] at hcandidate

end Bisects

section Completion

variable {nbytes : Batch → ℕ} {t : ArrowTable} {maxRows maxBytes : ℕ}

theorem Chooses.unique {offset first second : ℕ}
    (h : Chooses nbytes t maxRows maxBytes offset first)
    (h' : Chooses nbytes t maxRows maxBytes offset second) : first = second := by
  cases h with
  | whole hfits =>
    cases h' with
    | whole _ => rfl
    | bisect hexceed _ => omega
  | bisect hexceed hrun =>
    cases h' with
    | whole hfits => omega
    | bisect _ hrun' => exact hrun.unique hrun'

theorem Yields.unique {offset : ℕ} {first second : List Batch}
    (h : Yields nbytes t maxRows maxBytes offset first)
    (h' : Yields nbytes t maxRows maxBytes offset second) : first = second := by
  induction h generalizing second with
  | done hend =>
    cases h' with
    | done _ => rfl
    | slice hoffset _ _ => omega
  | slice hoffset hsize _ ih =>
    cases h' with
    | done hend => omega
    | slice _ hsize' hrest =>
      obtain rfl := hsize.unique hsize'
      rw [ih hrest]

theorem chooses_sliceSize (offset : ℕ) :
    Chooses nbytes t maxRows maxBytes offset (sliceSize nbytes t maxRows maxBytes offset) := by
  unfold sliceSize
  by_cases hfits : nbytes ⟨t, offset, min maxRows (t.rows.length - offset)⟩ ≤ maxBytes
  · simp only [hfits, decide_true, if_true]
    exact Chooses.whole hfits
  · simp only [hfits, decide_false, Bool.false_eq_true, if_false]
    apply Chooses.bisect (Nat.lt_of_not_le hfits)
    apply Bisects.of_bisectSize <;> omega

theorem yields_slicesFrom (hrows : 1 ≤ maxRows) (fuel offset : ℕ)
    (hfuel : t.rows.length ≤ offset + fuel) :
    Yields nbytes t maxRows maxBytes offset
      (slicesFrom nbytes t maxRows maxBytes fuel offset) := by
  induction fuel generalizing offset with
  | zero => exact Yields.done hfuel
  | succ fuel ih =>
    unfold slicesFrom
    by_cases hlt : offset < t.rows.length
    · rw [if_pos hlt]
      obtain ⟨hpos, -, -⟩ := sliceSize_bounds nbytes maxBytes hrows hlt
      apply Yields.slice hlt (chooses_sliceSize offset)
      apply ih
      omega
    · rw [if_neg hlt]
      exact Yields.done (by omega)

/-- The size a run chooses is the longest that satisfies the limits. -/
theorem Chooses.longest {offset size : ℕ} (h : Chooses nbytes t maxRows maxBytes offset size)
    (hrows : 1 ≤ maxRows) (hoffset : offset < t.rows.length)
    (hmono : ∀ m n, m ≤ n → offset + n ≤ t.rows.length →
      nbytes ⟨t, offset, m⟩ ≤ nbytes ⟨t, offset, n⟩) :
    Longest nbytes t maxRows maxBytes ⟨t, offset, size⟩ := by
  have hsize := h.unique (chooses_sliceSize offset)
  have hmax : size ≤ maxRows := by
    rw [hsize]
    exact (sliceSize_bounds nbytes maxBytes hrows hoffset).2.1
  have hlongest : ∀ n, n ≤ maxRows → offset + n ≤ t.rows.length →
      nbytes ⟨t, offset, n⟩ ≤ maxBytes → n ≤ size := by
    intro n hn hend hfits
    cases h with
    | whole _ => omega
    | bisect hexceed hrun =>
      by_contra hlt
      have hfalse := hrun.maximal (min maxRows (t.rows.length - offset)) ?_ (by omega)
        (by omega) n (by omega) (by omega)
      · exact absurd hfits (of_decide_eq_false hfalse)
      · intro m k hmk hk hfits
        have hle := hmono m k hmk (by omega)
        exact decide_eq_true (hle.trans (of_decide_eq_true hfits))
  refine ⟨?_, hlongest⟩
  by_cases hfits : nbytes ⟨t, offset, size⟩ ≤ maxBytes
  · exact Or.inl ⟨hmax, hfits⟩
  · right
    have hone : size = 1 := by
      rw [hsize] at hfits ⊢
      exact (sliceSize_fits nbytes maxBytes).resolve_left hfits
    refine ⟨hone, ?_⟩
    intro n hpos hn hend
    rw [hone] at hfits
    have hle := hmono 1 n hpos hend
    exact lt_of_lt_of_le (Nat.lt_of_not_le hfits) hle

theorem Yields.longest {offset : ℕ} {batches : List Batch}
    (h : Yields nbytes t maxRows maxBytes offset batches) (hrows : 1 ≤ maxRows)
    (hmono : ∀ offset m n, m ≤ n → offset + n ≤ t.rows.length →
      nbytes ⟨t, offset, m⟩ ≤ nbytes ⟨t, offset, n⟩) :
    ∀ b ∈ batches, Longest nbytes t maxRows maxBytes b := by
  induction h with
  | done _ => simp
  | @slice offset size rest hoffset hsize _ ih =>
    intro b hb
    rcases List.mem_cons.mp hb with rfl | hb
    · exact hsize.longest hrows hoffset (hmono offset)
    · exact ih b hb

end Completion

structure Slicing (nbytes : Batch → ℕ) (t : ArrowTable) (maxRows maxBytes : ℕ)
    (batches : List Batch) : Prop where
  consecutive : Tiles t 0 batches
  rows_eq : batches.flatMap Batch.rows = t.rows
  limits : ∀ b ∈ batches, 1 ≤ b.numRows ∧ b.numRows ≤ maxRows ∧
    (nbytes b ≤ maxBytes ∨ b.numRows = 1)
  longest : (∀ offset m n, m ≤ n → offset + n ≤ t.rows.length →
      nbytes ⟨t, offset, m⟩ ≤ nbytes ⟨t, offset, n⟩) →
    ∀ b ∈ batches, Longest nbytes t maxRows maxBytes b

/-- The generator comes to an end on every table, in one way only. -/
theorem batch_slices (nbytes : Batch → ℕ) (t : ArrowTable) (maxRows maxBytes : ℕ)
    (hrows : 1 ≤ maxRows) :
    Yields nbytes t maxRows maxBytes 0 (iterBatchSlices nbytes t maxRows maxBytes) ∧
      (∀ batches, Yields nbytes t maxRows maxBytes 0 batches →
        batches = iterBatchSlices nbytes t maxRows maxBytes) ∧
      Slicing nbytes t maxRows maxBytes (iterBatchSlices nbytes t maxRows maxBytes) := by
  have hyields : Yields nbytes t maxRows maxBytes 0 (iterBatchSlices nbytes t maxRows maxBytes) :=
    yields_slicesFrom hrows t.rows.length 0 (by omega)
  refine ⟨hyields, fun batches h => h.unique hyields, ?_⟩
  have htiles : Tiles t 0 (iterBatchSlices nbytes t maxRows maxBytes) :=
    iterBatchSlices_tiles nbytes hrows
  refine ⟨htiles, htiles.rows, ?_, ?_⟩
  · intro b hb
    exact iterBatchSlices_bounded nbytes hrows hb
  · intro hmono
    exact hyields.longest hrows hmono

theorem emptyRows_width : ∀ row ∈ List.replicate 5 ([] : List ArrowValue),
    row.length = ([] : ArrowSchema).length := by
  intro row hrow
  rw [List.eq_of_mem_replicate hrow, List.length_nil, List.length_nil]

/-- Five rows, at most three a slice; the slice at the second row needs more bytes when shorter. -/
theorem five_rows_slices :
    Yields (fun b => if b.offset = 2 then 9 - b.size else 4 * b.size)
        ⟨[], List.replicate 5 [], 0, emptyRows_width⟩ 3 8 0
        (iterBatchSlices (fun b => if b.offset = 2 then 9 - b.size else 4 * b.size)
          ⟨[], List.replicate 5 [], 0, emptyRows_width⟩ 3 8) ∧
      (∀ batches, Yields (fun b => if b.offset = 2 then 9 - b.size else 4 * b.size)
          ⟨[], List.replicate 5 [], 0, emptyRows_width⟩ 3 8 0 batches →
        batches = iterBatchSlices (fun b => if b.offset = 2 then 9 - b.size else 4 * b.size)
          ⟨[], List.replicate 5 [], 0, emptyRows_width⟩ 3 8) ∧
      Slicing (fun b => if b.offset = 2 then 9 - b.size else 4 * b.size)
        ⟨[], List.replicate 5 [], 0, emptyRows_width⟩ 3 8
        (iterBatchSlices (fun b => if b.offset = 2 then 9 - b.size else 4 * b.size)
          ⟨[], List.replicate 5 [], 0, emptyRows_width⟩ 3 8) := by
  apply batch_slices
  omega

end RayClickHouse.Batches
