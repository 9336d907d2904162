import RayClickHouse.NullPositions
import RayClickHouse.StreamQuery

/-!
The runs of a read in closed form: the blocks that its stream can hand over, how the
loop over them ends, and what the except and finally clauses make of it.
-/
namespace RayClickHouse.Streaming

open Text Batches Generators

section Closed

variable (nbytes : Batch → ℕ) (limits : ResourceLimits) (server : ReadServer) (query : QuerySpec)

/-- The tables of the batches before the first that is refused. -/
def validatedTables : List Delivered → List ArrowTable
  | [] => []
  | item :: rest =>
      match canonicalTable server query item with
      | .ok t => t :: validatedTables rest
      | .error _ => []

def loopEnd : List Delivered → Option Thrown
  | [] => server.ending.map Thrown.ofRaised
  | item :: rest =>
      match canonicalTable server query item with
      | .ok _ => loopEnd rest
      | .error thrown => some thrown

def blocks : List Batch :=
  (validatedTables server query server.batches).flatMap (slices nbytes limits)

def resultOf (thrown : Option Thrown) : Except Thrown Unit := thrown.elim (.ok ()) .error

def tryEnd (pulls : ℕ) : Option Thrown :=
  match server.openStream, server.leaveStream with
  | some raised, _ => some (Thrown.ofRaised raised)
  | none, some raised => some (Thrown.ofRaised raised)
  | none, none =>
      if (blocks nbytes limits server query).length ≤ pulls then loopEnd server query server.batches
      else some .generatorExit

def streamEvents (pulls : ℕ) : List Event :=
  match server.openStream with
  | some _ => [.queried]
  | none =>
      .queried :: (((blocks nbytes limits server query).take (pulls + 1)).map .yielded ++
        [.streamLeft])

def handledResult : Thrown → (Thrown × Bool) × List Event
  | .generatorExit => ((.generatorExit, true), [])
  | .signal => ((.signal, true), [])
  | thrown =>
      match lookupQueryDiagnostic server.diagnostics query.diagnosticFlushLogs with
      | .ok _ => ((translated "Arrow query" thrown, true), [.looked])
      | .error interruption => ((interruption, false), [.looked])

def closingResult (raised : Option Thrown) (recorded : Bool) : Except Thrown Unit :=
  match server.closeClient, recorded with
  | some .interrupt, _ => .error .signal
  | some (.error _ _), false => .error (.failed closeFailure)
  | _, _ => resultOf raised

def readResult : Option Thrown → Except Thrown Unit
  | none => closingResult server none false
  | some thrown =>
      closingResult server (some (handledResult server query thrown).1.1)
        (handledResult server query thrown).1.2

def handledEvents : Option Thrown → List Event
  | none => []
  | some thrown => (handledResult server query thrown).2

end Closed

section Runs

variable {nbytes : Batch → ℕ} {limits : ResourceLimits} {server : ReadServer} {query : QuerySpec}

theorem run_raising (raised : Option Raised) (pulls : ℕ) :
    (raising raised).run pulls = (resultOf (raised.map Thrown.ofRaised), pulls, []) := by
  cases raised with
  | none => rfl
  | some raised => rfl

/-- The blocks are taken one by one; the consumer may close at any of them. -/
theorem run_yieldBlocks (bs : List Batch) (pulls : ℕ) :
    (bs.length ≤ pulls →
      (yieldBlocks bs).run pulls = (.ok (), pulls - bs.length, bs.map .yielded)) ∧
    (pulls < bs.length →
      (yieldBlocks bs).run pulls =
        (.error .generatorExit, 0, (bs.take (pulls + 1)).map .yielded)) := by
  induction bs generalizing pulls with
  | nil => exact ⟨fun _ => rfl, fun h => absurd h (Nat.not_lt_zero _)⟩
  | cons block rest ih =>
    cases pulls with
    | zero =>
      refine ⟨fun h => absurd h (by simp), fun _ => ?_⟩
      rw [yieldBlocks, Body.run_bind_error _ (Body.run_yields_last _ _)]
      rfl
    | succ left =>
      have hstep : (Body.yields .generatorExit (.yielded block) : Body Thrown Event Unit).run
          (left + 1) = (.ok (), left, [.yielded block]) := Body.run_yields_succ _ _
      refine ⟨fun h => ?_, fun h => ?_⟩
      · rw [yieldBlocks, Body.run_bind_ok _ hstep, (ih left).1 (by simpa using h)]
        simp only [List.length_cons, Nat.add_sub_add_right, List.map_cons, List.singleton_append]
      · rw [yieldBlocks, Body.run_bind_ok _ hstep, (ih left).2 (by simpa using h)]
        simp only [List.take_succ_cons, List.map_cons, List.singleton_append]

/-- The loop over the batches hands over their blocks in order. -/
theorem run_readBatches (items : List Delivered) (pulls : ℕ) :
    (((validatedTables server query items).flatMap (slices nbytes limits)).length ≤ pulls →
      (readBatches nbytes limits server query items).run pulls =
        (resultOf (loopEnd server query items),
          pulls - ((validatedTables server query items).flatMap (slices nbytes limits)).length,
          ((validatedTables server query items).flatMap (slices nbytes limits)).map .yielded)) ∧
    (pulls < ((validatedTables server query items).flatMap (slices nbytes limits)).length →
      (readBatches nbytes limits server query items).run pulls =
        (.error .generatorExit, 0,
          (((validatedTables server query items).flatMap (slices nbytes limits)).take
            (pulls + 1)).map .yielded)) := by
  induction items generalizing pulls with
  | nil =>
    refine ⟨fun _ => ?_, fun h => absurd h (Nat.not_lt_zero _)⟩
    rw [readBatches, run_raising]
    rfl
  | cons item rest ih =>
    cases hitem : canonicalTable server query item with
    | error thrown =>
      simp only [readBatches, validatedTables, loopEnd, hitem, List.flatMap_nil, List.length_nil]
      exact ⟨fun _ => rfl, fun h => absurd h (Nat.not_lt_zero _)⟩
    | ok t =>
      simp only [readBatches, validatedTables, loopEnd, hitem, List.flatMap_cons,
        List.length_append, List.map_append]
      have hblocks := run_yieldBlocks (slices nbytes limits t) pulls
      refine ⟨fun h => ?_, fun h => ?_⟩
      · rw [Body.run_bind_ok _ (hblocks.1 (by omega)), (ih _).1 (by omega)]
        simp only [Prod.mk.injEq, true_and, and_true]
        omega
      · by_cases hfirst : (slices nbytes limits t).length ≤ pulls
        · rw [Body.run_bind_ok _ (hblocks.1 hfirst), (ih _).2 (by omega)]
          have htake : pulls + 1 = (slices nbytes limits t).length +
              (pulls - (slices nbytes limits t).length + 1) := by omega
          simp only [Prod.mk.injEq, true_and]
          rw [htake, List.take_length_add_append, List.map_append]
        · rw [Body.run_bind_error _ (hblocks.2 (by omega))]
          simp only [Prod.mk.injEq, true_and]
          rw [List.take_append_of_le_length (by omega)]

theorem run_leaving (raised : Option Raised) (pulls : ℕ) :
    (do Body.emit .streamLeft; raising raised : Body Thrown Event Unit).run pulls =
      (resultOf (raised.map Thrown.ofRaised), pulls, [.streamLeft]) := by
  rw [Body.run_bind_ok _ (Body.run_emit _), run_raising]
  rfl

/-- The loop, whether or not the consumer takes every block. -/
theorem run_loop (pulls : ℕ) : ∃ left,
    (readBatches nbytes limits server query server.batches).run pulls =
      (resultOf (if (blocks nbytes limits server query).length ≤ pulls then
        loopEnd server query server.batches else some .generatorExit), left,
        ((blocks nbytes limits server query).take (pulls + 1)).map .yielded) := by
  have hloop := @run_readBatches nbytes limits server query server.batches pulls
  by_cases h : (blocks nbytes limits server query).length ≤ pulls
  · rw [if_pos h, List.take_of_length_le (by omega)]
    exact ⟨_, hloop.1 h⟩
  · rw [if_neg h]
    exact ⟨_, hloop.2 (by unfold blocks at h; omega)⟩

/-- The statements under try, in closed form. -/
theorem run_readStream (pulls : ℕ) : ∃ left,
    (readStream nbytes limits server query).run pulls =
      (resultOf (tryEnd nbytes limits server query pulls), left,
        streamEvents nbytes limits server query pulls) := by
  unfold readStream tryEnd streamEvents
  rw [Body.run_bind_ok _ (Body.run_emit _)]
  cases hopen : server.openStream with
  | some raised =>
    have hraise : (raising (some raised)).run pulls =
        (.error (Thrown.ofRaised raised), pulls, []) := run_raising _ _
    rw [Body.run_bind_error _ hraise]
    exact ⟨pulls, rfl⟩
  | none =>
    have hpass : (raising none).run pulls = (.ok (), pulls, []) := run_raising _ _
    obtain ⟨left, hloop⟩ := @run_loop nbytes limits server query pulls
    rw [Body.run_bind_ok _ hpass]
    have hleave := run_leaving server.leaveStream left
    cases hraised : server.leaveStream with
    | none =>
      rw [hraised] at hleave
      rw [Body.run_finalize hloop hleave]
      exact ⟨left, rfl⟩
    | some raised =>
      rw [hraised] at hleave
      rw [Body.run_finalize_raised hloop hleave]
      exact ⟨left, rfl⟩

theorem run_handled (thrown : Thrown) (pulls : ℕ) :
    (handled server query thrown).run pulls =
      (.ok (handledResult server query thrown).1, pulls,
        (handledResult server query thrown).2) := by
  unfold handled handledResult
  cases thrown with
  | generatorExit => rfl
  | signal => rfl
  | failed failure =>
    simp only
    rw [Body.run_bind_ok _ (Body.run_emit _)]
    cases lookupQueryDiagnostic server.diagnostics query.diagnosticFlushLogs with
    | ok _ => rfl
    | error _ => rfl
  | other code message =>
    simp only
    rw [Body.run_bind_ok _ (Body.run_emit _)]
    cases lookupQueryDiagnostic server.diagnostics query.diagnosticFlushLogs with
    | ok _ => rfl
    | error _ => rfl

theorem run_closing (raised : Option Thrown) (recorded : Bool) (pulls : ℕ) :
    (closing server raised recorded).run pulls =
      (closingResult server raised recorded, pulls, [.closed]) := by
  have hraise : ∀ thrown : Option Thrown,
      (thrown.elim (pure ()) Body.raise : Body Thrown Event Unit).run pulls =
        (resultOf thrown, pulls, []) := by
    intro thrown
    cases thrown with
    | none => rfl
    | some thrown => rfl
  unfold closing closingResult
  rw [Body.run_bind_ok _ (Body.run_emit _)]
  cases server.closeClient with
  | none => simp only [hraise, List.append_nil]
  | some raised' =>
    cases raised' with
    | interrupt => rfl
    | error code message =>
      cases recorded with
      | false => rfl
      | true => simp only [hraise, List.append_nil]

/-- A read with a client, in closed form. -/
theorem run_streamQuery (hclient : server.getClient = none) (pulls : ℕ) :
    ((streamQuery nbytes limits server query).run pulls).1 =
      readResult server query (tryEnd nbytes limits server query pulls) ∧
    ((streamQuery nbytes limits server query).run pulls).2.2 =
      .opened :: (streamEvents nbytes limits server query pulls ++
        (handledEvents server query (tryEnd nbytes limits server query pulls) ++ [.closed])) := by
  obtain ⟨left, hstream⟩ := @run_readStream nbytes limits server query pulls
  unfold streamQuery
  rw [hclient]
  simp only
  rw [Body.run_bind_ok _ (Body.run_emit _)]
  cases hend : tryEnd nbytes limits server query pulls with
  | none =>
    rw [hend] at hstream
    have htry : (do
        readStream nbytes limits server query
        pure none : Body Thrown Event (Option Thrown)).run pulls =
          (.ok none, left, streamEvents nbytes limits server query pulls) := by
      rw [Body.run_bind_ok _ hstream, Body.run_pure]
      simp only [List.append_nil]
    rw [Body.run_bind_ok _ (Body.run_catching_ok htry)]
    simp only [run_closing]
    exact ⟨rfl, rfl⟩
  | some thrown =>
    rw [hend] at hstream
    have htry : (do
        readStream nbytes limits server query
        pure none : Body Thrown Event (Option Thrown)).run pulls =
          (.error thrown, left, streamEvents nbytes limits server query pulls) :=
      Body.run_bind_error _ hstream
    have hcaught := @Body.run_catching_error _ _ _ _ _ _ _ _
      (fun thrown => (pure (some thrown) : Body Thrown Event (Option Thrown))) htry
    simp only [Body.run_pure, List.append_nil] at hcaught
    rw [Body.run_bind_ok _ hcaught]
    simp only [Body.run_bind_ok _ (run_handled thrown left), run_closing]
    exact ⟨rfl, rfl⟩

end Runs

end RayClickHouse.Streaming
