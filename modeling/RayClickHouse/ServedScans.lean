import RayClickHouse.DeliveredRows
import RayClickHouse.FaithfulReads

/-!
The stream of a scan is a read of a worker. Where the server delivers rows that the
scan keeps, and all of them when its stream ends well, the worker's read is a stream
that serves the scan: every consumer sees the same blocks of it, and it ends well for
the same consumers.
-/
namespace RayClickHouse.DeliveredRows

open Text Predicates Planning GroupedReads Generators Datasource Batches StaticReads
open Streaming (ReadServer Delivered Thrown canonicalTable validatedTables readRun)

section Cuts

variable {α β : Type*} {f : α → β}

/-- A list is cut the way its image is cut. -/
theorem exists_cut {xs : List α} {pieces : List (List β)} (h : xs.map f = pieces.flatten) :
    ∃ cut : List (List α), cut.flatten = xs ∧ cut.map (List.map f) = pieces := by
  induction pieces generalizing xs with
  | nil =>
    obtain rfl := List.map_eq_nil_iff.mp h
    exact ⟨[], rfl, rfl⟩
  | cons piece pieces ih =>
    obtain ⟨first, rest, rfl, hfirst, hrest⟩ := List.map_eq_append_iff.mp h
    obtain ⟨cut, rfl, hcut⟩ := ih hrest
    exact ⟨first :: cut, rfl, by rw [List.map_cons, hfirst, hcut]⟩

end Cuts

section Ends

variable {nbytes : Batch → ℕ} {limits : ResourceLimits} {server : ReadServer}
variable {query : Streaming.QuerySpec}

def handedBlocks (nbytes : Batch → ℕ) (limits : ResourceLimits) (server : ReadServer)
    (query : Streaming.QuerySpec) : List Batch :=
  if server.getClient.isSome || server.openStream.isSome then []
  else Streaming.blocks nbytes limits server query

theorem yieldedBlocks_readRun (pulls : ℕ) :
    Streaming.yieldedBlocks (readRun nbytes limits server query pulls).2 =
      (handedBlocks nbytes limits server query).take pulls := by
  cases pulls with
  | zero => rfl
  | succ left =>
    unfold handedBlocks
    cases hclient : server.getClient with
    | none =>
      obtain ⟨-, hevents⟩ := @Streaming.run_streamQuery nbytes limits server query hclient left
      have hread : (readRun nbytes limits server query (left + 1)).2 =
          Streaming.readEvents nbytes limits server query left := hevents
      rw [hread, Streaming.yieldedBlocks_readEvents, Option.isSome_none, Bool.false_or]
      split
      · exact List.take_nil.symm
      · rfl
    | some raised =>
      have hread : (readRun nbytes limits server query (left + 1)).2 = [] := by
        show ((Streaming.streamQuery nbytes limits server query).run left).2.2 = []
        unfold Streaming.streamQuery
        rw [hclient]
        rfl
      rw [hread, Option.isSome_some, Bool.true_or, if_pos rfl]
      exact List.take_nil.symm

/-- A read ends well when nothing fails up to its last block, the client can be closed and the
consumer goes on behind that block. -/
theorem readRun_ok_iff (pulls : ℕ) : (readRun nbytes limits server query pulls).1 = .ok () ↔
    Streaming.closingResult server none false = .ok () ∧
      ∃ left, pulls = left + 1 ∧ Streaming.NothingFailed nbytes limits server query left := by
  cases pulls with
  | zero =>
    constructor
    · intro h
      cases h
    · rintro ⟨-, left, hleft, -⟩
      omega
  | succ left =>
    cases hclient : server.getClient with
    | none =>
      obtain ⟨hresult, -⟩ := @Streaming.run_streamQuery nbytes limits server query hclient left
      have hread : (readRun nbytes limits server query (left + 1)).1 =
          Streaming.readResult server query (Streaming.tryEnd nbytes limits server query left) :=
        hresult
      rw [hread]
      constructor
      · intro h
        have hnone := Streaming.readResult_ok h
        rw [hnone] at h
        exact ⟨h, left, rfl, (Streaming.nothingFailed_iff hclient).mp hnone⟩
      · rintro ⟨hclosing, other, hother, hnothing⟩
        obtain rfl : left = other := by omega
        rw [(Streaming.nothingFailed_iff hclient).mpr hnothing]
        exact hclosing
    | some raised =>
      constructor
      · intro h
        have hread : (readRun nbytes limits server query (left + 1)).1 =
            .error (Streaming.translated "read client initialization" (Thrown.ofRaised raised)) := by
          show ((Streaming.streamQuery nbytes limits server query).run left).1 = _
          unfold Streaming.streamQuery
          rw [hclient]
          rfl
        rw [hread] at h
        cases h
      · rintro ⟨-, other, -, hnothing⟩
        rw [hnothing.client] at hclient
        cases hclient

def readFailure (nbytes : Batch → ℕ) (limits : ResourceLimits) (server : ReadServer)
    (query : Streaming.QuerySpec) : Option Thrown :=
  match (readRun nbytes limits server query
      ((handedBlocks nbytes limits server query).length + 1)).1 with
  | .ok () => none
  | .error thrown => some thrown

theorem readFailure_eq_none :
    readFailure nbytes limits server query = none ↔
      (readRun nbytes limits server query
        ((handedBlocks nbytes limits server query).length + 1)).1 = .ok () := by
  unfold readFailure
  split
  · rename_i h
    exact iff_of_true rfl h
  · rename_i thrown h
    rw [h]
    exact iff_of_false (Option.some_ne_none _) (by simp)

theorem handedBlocks_of_nothingFailed {left : ℕ}
    (h : Streaming.NothingFailed nbytes limits server query left) :
    handedBlocks nbytes limits server query = Streaming.blocks nbytes limits server query := by
  unfold handedBlocks
  rw [h.client, h.stream]
  rfl

theorem readRun_ok_iff_failure (pulls : ℕ) :
    (readRun nbytes limits server query pulls).1 = .ok () ↔
      readFailure nbytes limits server query = none ∧
        (handedBlocks nbytes limits server query).length < pulls := by
  rw [readFailure_eq_none, readRun_ok_iff, readRun_ok_iff]
  constructor
  · rintro ⟨hclosing, left, rfl, h⟩
    have hhanded := handedBlocks_of_nothingFailed h
    have htaken := h.taken
    rw [hhanded]
    exact ⟨⟨hclosing, _, rfl, h.client, h.stream, le_rfl, h.loop, h.leaving⟩, by omega⟩
  · rintro ⟨⟨hclosing, left, hleft, h⟩, hlt⟩
    have hhanded := handedBlocks_of_nothingFailed h
    rw [hhanded] at hlt
    refine ⟨hclosing, pulls - 1, by omega, h.client, h.stream, by omega, h.loop, h.leaving⟩

theorem ending_of_loopEnd {items : List Delivered}
    (h : Streaming.loopEnd server query items = none) : server.ending = none := by
  induction items with
  | nil => exact Option.map_eq_none_iff.mp h
  | cons item items ih =>
    unfold Streaming.loopEnd at h
    split at h
    · exact ih h
    · contradiction

end Ends

section Consumers

variable {ρ ε : Type} {stream : ScanStream ρ ε}

theorem yieldedBlocks_one (stream : ScanStream ρ ε) (pulls : ℕ) :
    yieldedBlocks ((TaskRead.one stream).run pulls).2 = stream.blocks.take pulls := by
  cases pulls with
  | zero => rfl
  | succ left =>
    have hrun : yieldedBlocks ((TaskRead.one stream).run (left + 1)).2 =
        yieldedBlocks ((readFn stream).run left).2.2 := rfl
    obtain ⟨hall, hsome⟩ := run_readFn stream left
    rw [hrun]
    by_cases hle : stream.blocks.length ≤ left
    · rw [(hall hle).2, List.take_of_length_le (by omega)]
    · rw [(hsome (by omega)).2]

theorem run_one_ok_iff (stream : ScanStream ρ ε) (pulls : ℕ) :
    ((TaskRead.one stream).run pulls).1 = .ok () ↔
      stream.failure = none ∧ stream.blocks.length < pulls := by
  cases pulls with
  | zero =>
    refine iff_of_false (fun h => ?_) (fun h => by omega)
    cases h
  | succ left =>
    have hrun : ((TaskRead.one stream).run (left + 1)).1 = ((readFn stream).run left).1 := rfl
    obtain ⟨hall, hsome⟩ := run_readFn stream left
    rw [hrun]
    by_cases hle : stream.blocks.length ≤ left
    · rw [(hall hle).1]
      unfold forwardResult
      cases stream.failure with
      | none => exact iff_of_true rfl ⟨rfl, by omega⟩
      | some e => exact iff_of_false (by simp) (fun h => Option.some_ne_none _ h.1)
    · rw [(hsome (by omega)).1]
      refine iff_of_false (fun h => ?_) (fun h => by omega)
      cases h

end Consumers

section Scans

variable {ρ : Type} {v : Sql.RowView ρ}
variable {stored : ClickHouseConnection → QualifiedTable → Multiset ρ} {scan : Scan}
variable {cells : ρ → List ArrowValue} {server : ReadServer} {query : Streaming.QuerySpec}
variable {kept : Multiset ρ} {rows : List (List ρ)}

/-- The batches of a server hold rows that a scan keeps, in the cells of its columns; the stream
ends well only behind the last of them. -/
structure AnswersScan (cells : ρ → List ArrowValue) (server : ReadServer) (query : Streaming.QuerySpec)
    (kept : Multiset ρ) (rows : List (List ρ)) : Prop where
  shows : List.Forall₂ (fun item part => ∀ t, canonicalTable server query item = .ok t →
    t.rows = part.map cells) server.batches rows
  held : (rows.flatten : Multiset ρ) ≤ kept
  complete : server.ending = none → (rows.flatten : Multiset ρ) = kept

/-- The rows of the batches before the first that is refused. -/
theorem exists_validated {items : List Delivered}
    (h : List.Forall₂ (fun item part => ∀ t, canonicalTable server query item = .ok t →
      t.rows = part.map cells) items rows) :
    ∃ seen rest, rows.flatten = seen ++ rest ∧
      (validatedTables server query items).flatMap ArrowTable.rows = seen.map cells ∧
      ((∀ item ∈ items, ∃ t, canonicalTable server query item = .ok t) → rest = []) := by
  induction h with
  | nil => exact ⟨[], [], rfl, rfl, fun _ => rfl⟩
  | @cons item part items rows hitem _ ih =>
    obtain ⟨seen, rest, hrows, hvalidated, hall⟩ := ih
    unfold validatedTables
    cases hcanonical : canonicalTable server query item with
    | ok t =>
      refine ⟨part ++ seen, rest, ?_, ?_, fun hevery => hall fun other hother => ?_⟩
      · rw [List.flatten_cons, hrows, List.append_assoc]
      · rw [List.flatMap_cons, hvalidated, hitem t hcanonical, List.map_append]
      · exact hevery other (List.mem_cons_of_mem _ hother)
    | error thrown =>
      refine ⟨[], (part :: rows).flatten, rfl, rfl, fun hevery => ?_⟩
      obtain ⟨t, ht⟩ := hevery item (List.mem_cons_self ..)
      rw [hcanonical] at ht
      cases ht

/-- The rows of the blocks that are handed over, and those that no consumer sees. -/
theorem exists_handed {nbytes : Batch → ℕ} {limits : ResourceLimits} {seen : List ρ}
    (h : seen.map cells =
      ((Streaming.blocks nbytes limits server query).map Batch.rows).flatten) :
    ∃ shown more, seen = shown ++ more ∧
      shown.map cells = ((handedBlocks nbytes limits server query).map Batch.rows).flatten ∧
      (handedBlocks nbytes limits server query = Streaming.blocks nbytes limits server query →
        more = []) := by
  by_cases hsame :
      handedBlocks nbytes limits server query = Streaming.blocks nbytes limits server query
  · refine ⟨seen, [], (List.append_nil _).symm, ?_, fun _ => rfl⟩
    rw [hsame]
    exact h
  · refine ⟨[], seen, rfl, ?_, fun hother => absurd hother hsame⟩
    unfold handedBlocks at hsame ⊢
    split at hsame
    · rename_i hfailed
      rw [if_pos hfailed]
      rfl
    · exact absurd rfl hsame

/-- A read of a scan from a server that answers it is a stream that serves the scan: every
consumer receives the cells of the same rows from both, and both end well for the same ones. -/
theorem served_stream (nbytes : Batch → ℕ) (limits : ResourceLimits)
    (h : AnswersScan cells server query (scan.rows v stored) rows) :
    ∃ stream : ScanStream ρ Thrown, Serves v stored scan stream ∧ ∀ pulls,
      (yieldedBlocks ((TaskRead.one stream).run pulls).2).map (List.map cells) =
        (Streaming.yieldedBlocks (readRun nbytes limits server query pulls).2).map Batch.rows ∧
      (((TaskRead.one stream).run pulls).1 = .ok () ↔
        (readRun nbytes limits server query pulls).1 = .ok ()) := by
  obtain ⟨seen, rest, hrows, hvalidated, hall⟩ := exists_validated h.shows
  have hblocks : seen.map cells =
      ((Streaming.blocks nbytes limits server query).map Batch.rows).flatten := by
    rw [← hvalidated, ← List.flatMap_def, Streaming.blocks_rows]
  obtain ⟨shown, more, rfl, hshown, hmore⟩ := exists_handed hblocks
  obtain ⟨cut, rfl, hcut⟩ := exists_cut hshown
  have hlength : cut.length = (handedBlocks nbytes limits server query).length := by
    have hmaps := congrArg List.length hcut
    rwa [List.length_map, List.length_map] at hmaps
  refine ⟨⟨cut, readFailure nbytes limits server query⟩, ⟨?_, ?_⟩, ?_⟩
  · have hsublist : cut.flatten.Sublist rows.flatten := by
      rw [hrows, List.append_assoc]
      exact List.sublist_append_left _ _
    exact le_trans (Multiset.coe_le.mpr hsublist.subperm) h.held
  · intro hnone
    obtain ⟨-, left, -, hnothing⟩ := (readRun_ok_iff _).mp (readFailure_eq_none.mp hnone)
    obtain rfl := hmore (handedBlocks_of_nothingFailed hnothing)
    obtain rfl := hall (Streaming.validated_of_loopEnd hnothing.loop)
    rw [← h.complete (ending_of_loopEnd hnothing.loop), hrows]
    simp
  · intro pulls
    constructor
    · rw [yieldedBlocks_one, yieldedBlocks_readRun, List.map_take, List.map_take, hcut]
    · rw [run_one_ok_iff, readRun_ok_iff_failure, hlength]

end Scans

section Example

def keyCells (k : ℤ) : List ArrowValue := [.scalar (.int k)]

theorem keyCells_width (keys : List ℤ) :
    ∀ row ∈ keys.map keyCells, row.length = keySchema.arrowSchema.length := by
  intro row hrow
  obtain ⟨k, -, rfl⟩ := List.mem_map.mp hrow
  rfl

def keyServer (keys : List ℤ) : ReadServer where
  getClient := none
  openStream := none
  batches := [.table ⟨keySchema.arrowSchema, keys.map keyCells, 0, keyCells_width keys⟩]
  ending := none
  leaveStream := none
  cast := fun _ _ => .error .unfit
  closeClient := none
  diagnostics := ⟨none, none, .ok [], fun _ => .ok [], none⟩

def keyLimits : ResourceLimits :=
  { batchRows_bounds := defaultBatchRows_bounds
    batchBytes_bounds := defaultBatchBytes_bounds
    queryTimeout_bounds := defaultQueryTimeout_bounds }

def keyQuery : Streaming.QuerySpec where
  arrowSchema := keySchema.arrowSchema

theorem keyServer_answers (keys : List ℤ) :
    AnswersScan keyCells (keyServer keys) keyQuery (keys : Multiset ℤ) [keys] := by
  have hflatten : [keys].flatten = keys := by simp
  refine ⟨List.Forall₂.cons ?_ List.Forall₂.nil, ?_, fun _ => ?_⟩
  · intro t ht
    obtain ⟨u, -, hvalid⟩ := Except.bind_eq_ok.mp ht
    unfold Streaming.validateTable at hvalid
    rw [if_neg (by simp [keyQuery]), if_pos (by rfl)] at hvalid
    obtain rfl := Except.ok.inj hvalid
    rfl
  · rw [hflatten]
  · rw [hflatten]

/-- The first task of the example family, read from a server that delivers its key. -/
theorem served_stream_example :
    ∃ m ∈ keyFamily, ∃ tasks, (keyReads m).1 = .ok tasks ∧
      ∃ scan ∈ tasks.flatMap ReadTask.scans, ∃ stream : ScanStream ℤ Thrown,
        Serves (@viewOf asciiDatabase _ keyDatabase (@Member.datasource asciiDatabase m))
          keyDatabase.stored scan stream ∧
        (yieldedBlocks ((TaskRead.one stream).run 2).2).map (List.map keyCells) =
          [[keyCells 5]] ∧
        ((TaskRead.one stream).run 2).1 = .ok () := by
  let _ := asciiDatabase
  have hcheck : keyFamily[1]?.any (fun m =>
      Outcome.check (keyReads m).1 (fun tasks => (tasks.flatMap ReadTask.scans).any fun scan =>
        decide (scan.rows (viewOf keyDatabase m.datasource) keyDatabase.stored =
          (([5] : List ℤ) : Multiset ℤ)))) = true := by
    decide +kernel
  rw [Option.any_eq_true] at hcheck
  obtain ⟨m, hm, hcheck⟩ := hcheck
  obtain ⟨tasks, htasks, hscans⟩ := Outcome.check_eq_true.mp hcheck
  obtain ⟨scan, hscan, hrows⟩ := List.any_eq_true.mp hscans
  have hanswers : AnswersScan keyCells (keyServer [5]) keyQuery
      (scan.rows (viewOf keyDatabase m.datasource) keyDatabase.stored) [[5]] := by
    rw [of_decide_eq_true hrows]
    exact keyServer_answers [5]
  obtain ⟨stream, hserves, hsame⟩ := served_stream Batch.numRows keyLimits hanswers
  refine ⟨m, List.mem_of_getElem? hm, tasks, htasks, scan, hscan, stream, hserves, ?_, ?_⟩
  · rw [(hsame 2).1]
    decide +kernel
  · rw [(hsame 2).2]
    rfl

end Example

end RayClickHouse.DeliveredRows
