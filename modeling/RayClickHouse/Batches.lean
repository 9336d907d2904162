import RayClickHouse.Schema

/-!
Arrow tables and the batches a write cuts them into. The byte size of a slice
depends on buffers that the rows do not show, so it is a function of the slice.
-/
namespace RayClickHouse.Batches

open Text TypeText Schema

/-- A table by its rows; `layout` stands for the buffers behind them. -/
structure ArrowTable where
  schema : ArrowSchema
  rows : List (List ArrowValue)
  layout : ℕ := 0
  rows_width : ∀ row ∈ rows, row.length = schema.length

namespace ArrowTable

/-- The position of a column; an absent or repeated name has none. -/
def columnIndex (t : ArrowTable) (name : Text) : Outcome ℕ :=
  match t.schema.names.idxsOf name with
  | [i] => .ok i
  | _ => Outcome.raise .builtin "KeyError" [name]

def project (t : ArrowTable) (indices : List ℕ) : ArrowTable where
  schema := indices.map fun i => t.schema.getD i ⟨[], .null, true⟩
  rows := t.rows.map fun row => indices.map fun i => row.getD i .null
  layout := t.layout
  rows_width := by
    intro row hrow
    obtain ⟨source, -, rfl⟩ := List.mem_map.mp hrow
    simp only [List.length_map]

def select (t : ArrowTable) (names : List Text) : Outcome ArrowTable := do
  let indices ← names.mapM t.columnIndex
  .ok (t.project indices)

def nullCount (t : ArrowTable) (index : ℕ) : ℕ :=
  t.rows.countP fun row => row.getD index .null = .null

end ArrowTable

section Prepare

variable [UnicodeDatabase]

def decimalArgument (arguments : List Text) (i : ℕ) : Outcome ℤ := do
  let argument ← Outcome.ofOption ⟨.builtin, "tuple index out of range", []⟩ arguments[i]?
  Outcome.ofOption ⟨.builtin, "invalid literal for int()", [argument]⟩ (toInt argument)

def checkDecimal (column : TargetColumn) (parsed : ClickHouseType) (type : ArrowType) :
    Outcome Unit :=
  match type with
  | .decimal _ precision scale =>
      if parsed.name = "Decimal".toList then do
        let declaredPrecision ← decimalArgument parsed.arguments 0
        if (precision : ℤ) ≠ declaredPrecision then
          Outcome.raise .write "column has incompatible Decimal precision/scale" [column.name]
        else do
          let declaredScale ← decimalArgument parsed.arguments 1
          if scale ≠ declaredScale then
            Outcome.raise .write "column has incompatible Decimal precision/scale" [column.name]
          else .ok ()
      else .ok ()
  | _ => .ok ()

def checkColumn (projected : ArrowTable) (column : TargetColumn) : Outcome Unit := do
  let index ← projected.columnIndex column.name
  let field := projected.schema.getD index ⟨[], .null, true⟩
  let (parsed, nullable) ← unwrap column.declaredType
  if field.nullable ∧ ¬nullable ∧ projected.nullCount index ≠ 0 then
    Outcome.raise .write "column contains NULL for a non-nullable target" [column.name]
  else checkDecimal column parsed field.type

def prepareArrowTable (t : ArrowTable) (source : ArrowSchema) (columns : List TargetColumn) :
    Outcome ArrowTable :=
  if t.schema.names ≠ source.names ∨ t.schema ≠ source then
    Outcome.raise .write "write micropartitions do not share one stable Arrow schema"
  else do
    let projected ← t.select (columns.map TargetColumn.name)
    let _ ← columns.mapM (checkColumn projected)
    .ok projected

theorem prepareArrowTable_eq_ok {t prepared : ArrowTable} {source : ArrowSchema}
    {columns : List TargetColumn} (h : prepareArrowTable t source columns = .ok prepared) :
    t.schema = source ∧ t.select (columns.map TargetColumn.name) = .ok prepared := by
  unfold prepareArrowTable at h
  split at h
  · contradiction
  · rename_i hsame
    obtain ⟨projected, hselect, h⟩ := Except.bind_eq_ok.mp h
    obtain ⟨_, _, h⟩ := Except.bind_eq_ok.mp h
    refine ⟨?_, ?_⟩
    · by_contra hne
      exact hsame (Or.inr hne)
    · rw [hselect, Except.ok.inj h]

end Prepare

structure Batch where
  table : ArrowTable
  offset : ℕ
  size : ℕ

namespace Batch

def rows (b : Batch) : List (List ArrowValue) := (b.table.rows.drop b.offset).take b.size

def numRows (b : Batch) : ℕ := b.rows.length

end Batch

section Slices

variable (nbytes : Batch → ℕ)

/-- The bisection of iter_batch_slices over [low, high]; every pass at least
halves the interval. -/
def bisectSize (fits : ℕ → Bool) : ℕ → ℕ → ℕ → ℕ → ℕ
  | 0, _, _, size => size
  | fuel + 1, low, high, size =>
      if low ≤ high then
        let candidate := (low + high) / 2
        if fits candidate then bisectSize fits fuel (candidate + 1) high candidate
        else bisectSize fits fuel low (candidate - 1) size
      else size

/-- The rows of the next batch: as many as allowed, and one row even when it is
too large. -/
def sliceSize (t : ArrowTable) (maxRows maxBytes offset : ℕ) : ℕ :=
  let upper := min maxRows (t.rows.length - offset)
  let fits := fun size => decide (nbytes ⟨t, offset, size⟩ ≤ maxBytes)
  if fits upper then upper else bisectSize fits (upper + 1) 1 upper 1

def slicesFrom (t : ArrowTable) (maxRows maxBytes : ℕ) : ℕ → ℕ → List Batch
  | 0, _ => []
  | fuel + 1, offset =>
      if offset < t.rows.length then
        let size := sliceSize nbytes t maxRows maxBytes offset
        ⟨t, offset, size⟩ :: slicesFrom t maxRows maxBytes fuel (offset + size)
      else []

/-- A batch has at least one row, so there are at most as many as rows. -/
def iterBatchSlices (t : ArrowTable) (maxRows maxBytes : ℕ) : List Batch :=
  slicesFrom nbytes t maxRows maxBytes t.rows.length 0

/-- The result is one of the sizes tried: the initial one, or one that fits. -/
theorem bisectSize_spec (fits : ℕ → Bool) (fuel low high size : ℕ) (hlow : 1 ≤ low) :
    bisectSize fits fuel low high size = size ∨
      (low ≤ bisectSize fits fuel low high size ∧ bisectSize fits fuel low high size ≤ high ∧
        fits (bisectSize fits fuel low high size) = true) := by
  induction fuel generalizing low high size with
  | zero => exact Or.inl rfl
  | succ fuel ih =>
    unfold bisectSize
    by_cases hle : low ≤ high
    · simp only [if_pos hle]
      by_cases hfits : fits ((low + high) / 2) = true
      · simp only [hfits, if_true]
        right
        rcases ih ((low + high) / 2 + 1) high ((low + high) / 2) (by omega) with h | ⟨h₁, h₂, h₃⟩
        · rw [h]
          exact ⟨by omega, by omega, hfits⟩
        · exact ⟨by omega, h₂, h₃⟩
      · simp only [hfits, if_false, Bool.false_eq_true]
        rcases ih low ((low + high) / 2 - 1) size hlow with h | ⟨h₁, h₂, h₃⟩
        · exact Or.inl h
        · right
          exact ⟨h₁, by omega, h₃⟩
    · simp only [if_neg hle]
      exact Or.inl trivial

section Bounds

variable {t : ArrowTable} {maxRows offset : ℕ} (maxBytes : ℕ)

theorem sliceSize_bounds (hrows : 1 ≤ maxRows) (hoffset : offset < t.rows.length) :
    1 ≤ sliceSize nbytes t maxRows maxBytes offset ∧
      sliceSize nbytes t maxRows maxBytes offset ≤ maxRows ∧
      offset + sliceSize nbytes t maxRows maxBytes offset ≤ t.rows.length := by
  unfold sliceSize
  have hupper : 1 ≤ min maxRows (t.rows.length - offset) := by omega
  simp only
  split
  · omega
  · rcases bisectSize_spec (fun size => decide (nbytes ⟨t, offset, size⟩ ≤ maxBytes))
      (min maxRows (t.rows.length - offset) + 1) 1 (min maxRows (t.rows.length - offset)) 1
      (le_refl 1) with h | ⟨h₁, h₂, -⟩
    · rw [h]
      omega
    · omega

/-- A batch over the byte limit is a single row. -/
theorem sliceSize_fits :
    nbytes ⟨t, offset, sliceSize nbytes t maxRows maxBytes offset⟩ ≤ maxBytes ∨
      sliceSize nbytes t maxRows maxBytes offset = 1 := by
  unfold sliceSize
  simp only
  split
  · rename_i h
    exact Or.inl (of_decide_eq_true h)
  · rcases bisectSize_spec (fun size => decide (nbytes ⟨t, offset, size⟩ ≤ maxBytes))
      (min maxRows (t.rows.length - offset) + 1) 1 (min maxRows (t.rows.length - offset)) 1
      (le_refl 1) with h | ⟨-, -, h₃⟩
    · exact Or.inr h
    · exact Or.inl (of_decide_eq_true h₃)

end Bounds

/-- Slices that follow one another without a gap from a row to the last one. -/
inductive Tiles (t : ArrowTable) : ℕ → List Batch → Prop
  | nil : Tiles t t.rows.length []
  | cons {offset size : ℕ} {rest : List Batch} (hpos : 1 ≤ size)
      (hend : offset + size ≤ t.rows.length) (htail : Tiles t (offset + size) rest) :
      Tiles t offset (⟨t, offset, size⟩ :: rest)

namespace Tiles

variable {t : ArrowTable} {offset : ℕ} {batches : List Batch}

theorem rows (h : Tiles t offset batches) : batches.flatMap Batch.rows = t.rows.drop offset := by
  induction h with
  | nil => simp only [List.flatMap_nil, List.drop_length]
  | @cons offset size rest _ _ _ ih =>
    rw [List.flatMap_cons, ih]
    calc
      _ = (t.rows.drop offset).take size ++ (t.rows.drop offset).drop size := by
        rw [List.drop_drop]
        rfl
      _ = t.rows.drop offset := List.take_append_drop ..

theorem offset_le (h : Tiles t offset batches) : ∀ b ∈ batches, offset ≤ b.offset := by
  induction h with
  | nil => simp
  | @cons offset size rest hpos _ _ ih =>
    intro b hb
    rcases List.mem_cons.mp hb with rfl | hb
    · exact le_refl _
    · have := ih b hb
      omega

theorem nodup (h : Tiles t offset batches) : batches.Nodup := by
  induction h with
  | nil => exact List.nodup_nil
  | @cons offset size rest hpos _ htail ih =>
    refine List.nodup_cons.mpr ⟨?_, ih⟩
    intro hmem
    have hle := htail.offset_le _ hmem
    simp only at hle
    omega

end Tiles

theorem slicesFrom_tiles {t : ArrowTable} {maxRows maxBytes : ℕ} (hrows : 1 ≤ maxRows)
    (fuel offset : ℕ) (hoffset : offset ≤ t.rows.length) (hfuel : t.rows.length ≤ offset + fuel) :
    Tiles t offset (slicesFrom nbytes t maxRows maxBytes fuel offset) := by
  induction fuel generalizing offset with
  | zero =>
    have hend : offset = t.rows.length := by omega
    subst hend
    exact Tiles.nil
  | succ fuel ih =>
    unfold slicesFrom
    by_cases hlt : offset < t.rows.length
    · rw [if_pos hlt]
      obtain ⟨hpos, -, hend⟩ := sliceSize_bounds nbytes maxBytes hrows hlt
      exact Tiles.cons hpos hend (ih _ hend (by omega))
    · rw [if_neg hlt]
      have hend : offset = t.rows.length := by omega
      subst hend
      exact Tiles.nil

/-- The batches tile the table, whatever the byte sizes are. -/
theorem iterBatchSlices_tiles {t : ArrowTable} {maxRows maxBytes : ℕ} (hrows : 1 ≤ maxRows) :
    Tiles t 0 (iterBatchSlices nbytes t maxRows maxBytes) :=
  slicesFrom_tiles nbytes hrows t.rows.length 0 (Nat.zero_le _) (by omega)

/-- Every batch respects the limits, a single row possibly excepted for bytes. -/
theorem iterBatchSlices_bounded {t : ArrowTable} {maxRows maxBytes : ℕ} (hrows : 1 ≤ maxRows)
    {b : Batch} (hb : b ∈ iterBatchSlices nbytes t maxRows maxBytes) :
    1 ≤ b.numRows ∧ b.numRows ≤ maxRows ∧ (nbytes b ≤ maxBytes ∨ b.numRows = 1) := by
  suffices h : ∀ fuel offset, b ∈ slicesFrom nbytes t maxRows maxBytes fuel offset →
      1 ≤ b.numRows ∧ b.numRows ≤ maxRows ∧ (nbytes b ≤ maxBytes ∨ b.numRows = 1) from
    h _ _ hb
  intro fuel
  induction fuel with
  | zero => simp [slicesFrom]
  | succ fuel ih =>
    intro offset hmem
    unfold slicesFrom at hmem
    by_cases hlt : offset < t.rows.length
    · rw [if_pos hlt] at hmem
      rcases List.mem_cons.mp hmem with rfl | hmem
      · obtain ⟨hpos, hmax, hend⟩ := sliceSize_bounds nbytes maxBytes hrows hlt
        have hnum : (Batch.mk t offset (sliceSize nbytes t maxRows maxBytes offset)).numRows =
            sliceSize nbytes t maxRows maxBytes offset := by
          simp only [Batch.numRows, Batch.rows, List.length_take, List.length_drop]
          omega
        rw [hnum]
        exact ⟨hpos, hmax, sliceSize_fits nbytes maxBytes⟩
      · exact ih _ hmem
    · rw [if_neg hlt] at hmem
      simp at hmem

end Slices

end RayClickHouse.Batches
