import RayClickHouse.StreamRuns

/-!
Fidelity and lifecycle of a read, for every server and every consumer. What remains
open are two ways in which a second failure hides that the first one, or the
consumer, ended the read.
-/
namespace RayClickHouse.Streaming

open Text Batches Generators

namespace Event

def isOpened : Event → Bool
  | opened => true
  | _ => false

def isQueried : Event → Bool
  | queried => true
  | _ => false

def isLooked : Event → Bool
  | looked => true
  | _ => false

def isClosed : Event → Bool
  | closed => true
  | _ => false

def block? : Event → Option Batch
  | yielded block => some block
  | _ => none

end Event

def yieldedBlocks (events : List Event) : List Batch := events.filterMap Event.block?

def yieldedRows (events : List Event) : List (List ArrowValue) :=
  (yieldedBlocks events).flatMap Batch.rows

def Thrown.isOrdinary : Thrown → Bool
  | failed _ => true
  | other _ _ => true
  | _ => false

section Fidelity

variable (nbytes : Batch → ℕ) (limits : ResourceLimits) (server : ReadServer) (query : QuerySpec)

/-- A table of the planned schema without NULL in a field that is not nullable. -/
structure StrictlyPlanned (t : ArrowTable) : Prop where
  schema : t.schema = query.arrowSchema
  notNull : ∀ (i : ℕ) (field : Field), query.arrowSchema[i]? = some field →
    field.nullable = false → ArrowValue.null ∉ t.cells i

/-- The consumer closed the generator early, or a signal came at a step of the read. -/
def Cancelled (pulls : ℕ) : Prop :=
  server.getClient = some .interrupt ∨ (server.getClient = none ∧
    (server.openStream = some .interrupt ∨ (server.openStream = none ∧
      (pulls < (blocks nbytes limits server query).length ∨
        loopEnd server query server.batches = some .signal ∨
          server.leaveStream = some .interrupt))))

/-- Every step succeeded and the consumer took every block. -/
structure NothingFailed (pulls : ℕ) : Prop where
  client : server.getClient = none
  stream : server.openStream = none
  taken : (blocks nbytes limits server query).length ≤ pulls
  loop : loopEnd server query server.batches = none
  leaving : server.leaveStream = none

structure Faithful (pulls : ℕ) (run : Except Thrown Unit × List Event) : Prop where
  oneQuery : run.2.countP Event.isQueried ≤ 1
  rows : yieldedRows run.2 <+:
    (validatedTables server query server.batches).flatMap ArrowTable.rows
  complete : run.1 = .ok () →
    yieldedRows run.2 = (validatedTables server query server.batches).flatMap ArrowTable.rows ∧
      ∀ item ∈ server.batches, ∃ t, canonicalTable server query item = .ok t
  validated : ∀ block ∈ yieldedBlocks run.2,
    block.table ∈ validatedTables server query server.batches
  strict : query.strictSchema = true → ∀ block ∈ yieldedBlocks run.2,
    .table block.table ∈ server.batches ∧ StrictlyPlanned query block.table
  closed : run.2.countP Event.isOpened ≤ 1 ∧
    run.2.countP Event.isClosed = run.2.countP Event.isOpened
  cancelled : ∀ left, pulls = left + 1 → Cancelled nbytes limits server query left →
    run.2.countP Event.isLooked = 0
  closeError : run.1 = .error (.failed closeFailure) →
    ∃ left, pulls = left + 1 ∧ NothingFailed nbytes limits server query left

/-- Leaving the stream raises an ordinary error over a cancellation. -/
def LeavingFails (pulls : ℕ) : Prop :=
  server.getClient = none ∧ server.openStream = none ∧
    (pulls < (blocks nbytes limits server query).length ∨
      loopEnd server query server.batches = some .signal) ∧
    ∃ code message, server.leaveStream = some (.error code message)

/-- A signal interrupts the lookup of a failed read, and the client fails to close. -/
def LookupInterrupted (pulls : ℕ) : Prop :=
  server.getClient = none ∧
    (∃ thrown, tryEnd nbytes limits server query pulls = some thrown ∧ thrown.isOrdinary = true) ∧
    lookupQueryDiagnostic server.diagnostics query.diagnosticFlushLogs = .error .signal ∧
    ∃ code message, server.closeClient = some (.error code message)

end Fidelity

section Validated

variable {nbytes : Batch → ℕ} {limits : ResourceLimits} {server : ReadServer} {query : QuerySpec}

theorem mem_validatedTables {items : List Delivered} {t : ArrowTable}
    (h : t ∈ validatedTables server query items) :
    ∃ item ∈ items, canonicalTable server query item = .ok t := by
  induction items with
  | nil => simp [validatedTables] at h
  | cons item rest ih =>
    unfold validatedTables at h
    split at h
    · rename_i first hfirst
      rcases List.mem_cons.mp h with rfl | h
      · exact ⟨item, List.mem_cons_self .., hfirst⟩
      · obtain ⟨other, hother, hcanonical⟩ := ih h
        exact ⟨other, List.mem_cons_of_mem _ hother, hcanonical⟩
    · simp at h

theorem validated_of_loopEnd {items : List Delivered} (h : loopEnd server query items = none) :
    ∀ item ∈ items, ∃ t, canonicalTable server query item = .ok t := by
  induction items with
  | nil => simp
  | cons item rest ih =>
    unfold loopEnd at h
    split at h
    · rename_i t ht
      intro other hother
      rcases List.mem_cons.mp hother with rfl | hother
      · exact ⟨t, ht⟩
      · exact ih h other hother
    · contradiction

theorem table_of_tiles {t : ArrowTable} {offset : ℕ} {batches : List Batch}
    (h : Tiles t offset batches) : ∀ b ∈ batches, b.table = t := by
  induction h with
  | nil => simp
  | cons _ _ _ ih =>
    intro b hb
    rcases List.mem_cons.mp hb with rfl | hb
    · rfl
    · exact ih b hb

theorem slices_tiles (t : ArrowTable) : Tiles t 0 (slices nbytes limits t) :=
  iterBatchSlices_tiles nbytes limits.batchRows_bounds.1

/-- The blocks hold the rows of the validated tables. -/
theorem blocks_rows : (blocks nbytes limits server query).flatMap Batch.rows =
    (validatedTables server query server.batches).flatMap ArrowTable.rows := by
  unfold blocks
  rw [List.flatMap_assoc]
  congr 1
  funext t
  rw [(slices_tiles t).rows, List.drop_zero]

theorem table_of_block {block : Batch} (h : block ∈ blocks nbytes limits server query) :
    block.table ∈ validatedTables server query server.batches := by
  obtain ⟨t, ht, hblock⟩ := List.mem_flatMap.mp h
  rw [table_of_tiles (slices_tiles t) block hblock]
  exact ht

theorem not_null_of_holdsNull {t : ArrowTable} {fields : List Field}
    (h : holdsNull t fields = .ok false) :
    ∀ field ∈ fields, field.nullable = false →
      ∃ index, t.columnIndex field.name = .ok index ∧ t.nullCount index = 0 := by
  induction fields with
  | nil => simp
  | cons first rest ih =>
    intro field hfield hnullable
    unfold holdsNull at h
    rcases List.mem_cons.mp hfield with rfl | hfield
    · rw [hnullable, if_neg (by simp)] at h
      obtain ⟨nulls, hnulls, h⟩ := Except.bind_eq_ok.mp h
      unfold columnNulls at hnulls
      split at hnulls
      · rename_i index hindex
        refine ⟨index, hindex, ?_⟩
        rw [Except.ok.inj hnulls]
        by_contra hne
        rw [if_pos hne] at h
        simp at h
      · contradiction
    · split at h
      · exact ih h field hfield hnullable
      · obtain ⟨nulls, -, h⟩ := Except.bind_eq_ok.mp h
        split at h
        · simp at h
        · exact ih h field hfield hnullable

theorem strictlyPlanned_of_check {t : ArrowTable} (h : checkStrict query t = .ok ()) :
    StrictlyPlanned query t := by
  unfold checkStrict at h
  split at h
  · simp [readError] at h
  · rename_i hschema
    rw [not_not] at hschema
    obtain ⟨null, hnull, h⟩ := Except.bind_eq_ok.mp h
    have hfalse : null = false := by
      cases null with
      | false => rfl
      | true => simp [readError] at h
    subst hfalse
    refine ⟨hschema, fun i field hfield hnullable => ?_⟩
    obtain ⟨index, hindex, hcount⟩ :=
      not_null_of_holdsNull hnull field (List.mem_of_getElem? hfield) hnullable
    have hposition : i = index := by
      refine (columnIndex_field hindex i).mpr ?_
      obtain ⟨hlt, hget⟩ := List.getElem?_eq_some_iff.mp hfield
      unfold ArrowTable.field
      rw [hschema]
      refine ⟨hlt, ?_⟩
      rw [List.getD_eq_getElem _ _ hlt, hget]
    rw [hposition]
    exact nullCount_eq_zero.mp hcount

theorem strict_canonical (hstrict : query.strictSchema = true) {item : Delivered} {t : ArrowTable}
    (h : canonicalTable server query item = .ok t) :
    item = .table t ∧ StrictlyPlanned query t := by
  cases item with
  | foreign => simp [canonicalTable, readError] at h
  | broken raised => simp [canonicalTable] at h
  | table source =>
    simp only [canonicalTable, hstrict, if_true] at h
    obtain ⟨_, hcheck, h⟩ := Except.bind_eq_ok.mp h
    have hplanned := strictlyPlanned_of_check hcheck
    unfold validateTable at h
    rw [if_neg (by rw [hplanned.schema]; simp), if_pos hplanned.schema] at h
    obtain rfl := Except.ok.inj h
    exact ⟨rfl, hplanned⟩

end Validated

end RayClickHouse.Streaming
