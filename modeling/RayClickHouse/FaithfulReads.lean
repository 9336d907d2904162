import RayClickHouse.StreamLifecycle

/-!
A read is faithful to every consumer exactly when neither leaving the stream fails
over a cancellation nor a signal interrupts the lookup of a failed read whose client
then fails to close.
-/
namespace RayClickHouse.Streaming

open Text Batches Generators

section Reads

variable {nbytes : Batch → ℕ} {limits : ResourceLimits} {server : ReadServer} {query : QuerySpec}

def readEvents (nbytes : Batch → ℕ) (limits : ResourceLimits) (server : ReadServer)
    (query : QuerySpec) (pulls : ℕ) : List Event :=
  .opened :: (streamEvents nbytes limits server query pulls ++
    (handledEvents server query (tryEnd nbytes limits server query pulls) ++ [.closed]))

theorem handledEvents_cases (thrown : Option Thrown) :
    handledEvents server query thrown = [] ∨ handledEvents server query thrown = [.looked] := by
  cases thrown with
  | none => exact Or.inl rfl
  | some thrown =>
    cases hordinary : thrown.isOrdinary with
    | false =>
      left
      simp only [handledEvents, handledResult_cancelled hordinary]
    | true =>
      right
      cases hlookup : lookupQueryDiagnostic server.diagnostics query.diagnosticFlushLogs with
      | ok row => simp only [handledEvents, handledResult_translated hordinary hlookup]
      | error interruption =>
        simp only [handledEvents, handledResult_interrupted hordinary hlookup]

theorem countP_yielded {p : Event → Bool} (hp : ∀ block, p (.yielded block) = false)
    (bs : List Batch) : (bs.map Event.yielded).countP p = 0 := by
  rw [List.countP_eq_zero]
  intro event hevent
  obtain ⟨block, -, rfl⟩ := List.mem_map.mp hevent
  simp [hp block]

theorem yieldedBlocks_yielded (bs : List Batch) : yieldedBlocks (bs.map .yielded) = bs := by
  unfold yieldedBlocks
  rw [List.filterMap_map]
  exact List.filterMap_some

/-- The blocks of a read: none where the stream is not opened. -/
theorem yieldedBlocks_readEvents (pulls : ℕ) :
    yieldedBlocks (readEvents nbytes limits server query pulls) =
      if server.openStream.isSome then []
      else (blocks nbytes limits server query).take (pulls + 1) := by
  have hhandled : yieldedBlocks
      (handledEvents server query (tryEnd nbytes limits server query pulls) ++ [.closed]) = [] := by
    rcases @handledEvents_cases server query (tryEnd nbytes limits server query pulls) with h | h
    · rw [h]
      rfl
    · rw [h]
      rfl
  have happend : ∀ xs ys : List Event, yieldedBlocks (xs ++ ys) =
      yieldedBlocks xs ++ yieldedBlocks ys := fun xs ys => List.filterMap_append ..
  show yieldedBlocks (streamEvents nbytes limits server query pulls ++ _) = _
  rw [happend, hhandled, List.append_nil]
  unfold streamEvents
  cases server.openStream with
  | some raised => rfl
  | none =>
    show yieldedBlocks (_ ++ [Event.streamLeft]) = _
    rw [happend, yieldedBlocks_yielded]
    exact List.append_nil _

theorem counts_readEvents (pulls : ℕ) :
    (readEvents nbytes limits server query pulls).countP Event.isQueried = 1 ∧
    (readEvents nbytes limits server query pulls).countP Event.isOpened = 1 ∧
    (readEvents nbytes limits server query pulls).countP Event.isClosed = 1 ∧
    (readEvents nbytes limits server query pulls).countP Event.isLooked =
      (handledEvents server query
        (tryEnd nbytes limits server query pulls)).countP Event.isLooked := by
  have hstream : ∀ p : Event → Bool, (∀ block, p (.yielded block) = false) →
      p .streamLeft = false → (streamEvents nbytes limits server query pulls).countP p =
        [Event.queried].countP p := by
    intro p hyielded hleft
    unfold streamEvents
    cases server.openStream with
    | some raised => rfl
    | none =>
      simp only [List.countP_cons, List.countP_append, countP_yielded hyielded, hleft,
        List.countP_nil, if_false, Bool.false_eq_true]
  have hhandled : ∀ p : Event → Bool, p .looked = false → (handledEvents server query
      (tryEnd nbytes limits server query pulls)).countP p = 0 := by
    intro p hp
    rcases @handledEvents_cases server query (tryEnd nbytes limits server query pulls) with h | h
    · rw [h]
      rfl
    · rw [h]
      simp [hp]
  unfold readEvents
  simp only [List.countP_cons, List.countP_append, List.countP_nil]
  rw [hstream _ (fun _ => rfl) rfl, hstream _ (fun _ => rfl) rfl, hstream _ (fun _ => rfl) rfl,
    hstream _ (fun _ => rfl) rfl, hhandled Event.isQueried rfl, hhandled Event.isOpened rfl,
    hhandled Event.isClosed rfl]
  simp [Event.isQueried, Event.isOpened, Event.isClosed, Event.isLooked]

/-- The parts of fidelity that no failure breaks. -/
theorem rows_readEvents (pulls : ℕ) :
    yieldedRows (readEvents nbytes limits server query pulls) <+:
      (validatedTables server query server.batches).flatMap ArrowTable.rows := by
  unfold yieldedRows
  rw [yieldedBlocks_readEvents]
  split
  · exact List.nil_prefix
  · rw [← @blocks_rows nbytes limits]
    exact (List.take_prefix _ _).flatMap _

theorem mem_yielded {pulls : ℕ} {block : Batch}
    (h : block ∈ yieldedBlocks (readEvents nbytes limits server query pulls)) :
    block.table ∈ validatedTables server query server.batches := by
  rw [yieldedBlocks_readEvents] at h
  split at h
  · simp at h
  · exact table_of_block (List.mem_of_mem_take h)

theorem nothingFailed_iff (hclient : server.getClient = none) {pulls : ℕ} :
    tryEnd nbytes limits server query pulls = none ↔
      NothingFailed nbytes limits server query pulls := by
  constructor
  · intro h
    unfold tryEnd at h
    split at h
    · contradiction
    · contradiction
    · rename_i hopen hleave
      split at h
      · rename_i htaken
        exact ⟨hclient, hopen, htaken, h, hleave⟩
      · contradiction
  · intro h
    unfold tryEnd
    simp only [h.stream, h.leaving, if_pos h.taken, h.loop]

/-- A cancelled read is not translated unless leaving the stream fails. -/
theorem ordinary_of_cancelled (hclient : server.getClient = none) {pulls : ℕ}
    (hcancelled : Cancelled nbytes limits server query pulls)
    (hleaving : ¬ LeavingFails nbytes limits server query pulls) :
    ∀ t, tryEnd nbytes limits server query pulls = some t → t.isOrdinary = false := by
  intro t ht
  rcases hcancelled with h | ⟨-, h | ⟨hopen, h⟩⟩
  · rw [hclient] at h
    contradiction
  · unfold tryEnd at ht
    rw [h] at ht
    rw [← Option.some.inj ht]
    rfl
  · unfold tryEnd at ht
    rw [hopen] at ht
    cases hleave : server.leaveStream with
    | some raised =>
      rw [hleave] at ht
      rw [← Option.some.inj ht]
      cases raised with
      | interrupt => rfl
      | error code message =>
        rcases h with h | h | h
        · exact absurd ⟨hclient, hopen, Or.inl h, code, message, hleave⟩ hleaving
        · exact absurd ⟨hclient, hopen, Or.inr h, code, message, hleave⟩ hleaving
        · rw [hleave] at h
          cases Option.some.inj h
    | none =>
      simp only [hleave] at ht
      split at ht
      · rcases h with h | h | h
        · omega
        · rw [h] at ht
          rw [← Option.some.inj ht]
          rfl
        · rw [hleave] at h
          contradiction
      · rw [← Option.some.inj ht]
        rfl

/-- Leaving that fails turns a cancellation into an error that is looked up. -/
theorem leavingFails_translated {pulls : ℕ} (h : LeavingFails nbytes limits server query pulls) :
    Cancelled nbytes limits server query pulls ∧
      ∃ t, tryEnd nbytes limits server query pulls = some t ∧ t.isOrdinary = true := by
  obtain ⟨hclient, hopen, hcancelled, code, message, hleave⟩ := h
  refine ⟨Or.inr ⟨hclient, Or.inr ⟨hopen, ?_⟩⟩, .other code message, ?_, rfl⟩
  · exact hcancelled.imp id Or.inl
  · unfold tryEnd
    rw [hopen, hleave]
    rfl

theorem closeError_iff (hclient : server.getClient = none) (pulls : ℕ) :
    (readResult server query (tryEnd nbytes limits server query pulls) =
        .error (.failed closeFailure) → NothingFailed nbytes limits server query pulls) ↔
      ¬ LookupInterrupted nbytes limits server query pulls := by
  have hclose := @readResult_closeFailure server query
    (tryEnd nbytes limits server query pulls) fun failure h => tryEnd_failed h
  rw [hclose, ← nothingFailed_iff hclient]
  constructor
  · rintro h ⟨-, ⟨t, ht, hordinary⟩, hlookup, hraised⟩
    have hnone := h ⟨hraised, Or.inr ⟨⟨t, ht, hordinary⟩, hlookup⟩⟩
    rw [ht] at hnone
    contradiction
  · rintro h ⟨hraised, hnone | ⟨hordinary, hlookup⟩⟩
    · exact hnone
    · exact absurd ⟨hclient, hordinary, hlookup, hraised⟩ h

/-- Fidelity of a read that has a client. -/
theorem faithful_closed (hclient : server.getClient = none) (pulls : ℕ) :
    Faithful nbytes limits server query (pulls + 1)
        (readResult server query (tryEnd nbytes limits server query pulls),
          readEvents nbytes limits server query pulls) ↔
      ¬ LeavingFails nbytes limits server query pulls ∧
        ¬ LookupInterrupted nbytes limits server query pulls := by
  obtain ⟨hqueried, hopened, hclosed, hlooked⟩ := @counts_readEvents nbytes limits server query pulls
  constructor
  · intro h
    constructor
    · intro hleaving
      obtain ⟨hcancelled, t, ht, hordinary⟩ := leavingFails_translated hleaving
      have hcount := h.cancelled pulls rfl hcancelled
      rw [hlooked] at hcount
      have hfalse := (handledEvents_looked _).mp hcount t ht
      rw [hordinary] at hfalse
      contradiction
    · rw [← closeError_iff hclient]
      intro hresult
      obtain ⟨left, hleft, hnothing⟩ := h.closeError hresult
      rw [Nat.succ.inj hleft]
      exact hnothing
  · rintro ⟨hleaving, hinterrupted⟩
    refine ⟨?_, rows_readEvents pulls, ?_, fun block => mem_yielded, ?_, ?_, ?_, ?_⟩
    · rw [hqueried]
    · intro hok
      have hnothing := (nothingFailed_iff hclient).mp (readResult_ok hok)
      refine ⟨?_, validated_of_loopEnd hnothing.loop⟩
      unfold yieldedRows
      rw [yieldedBlocks_readEvents, hnothing.stream, ← @blocks_rows nbytes limits,
        List.take_of_length_le (by have := hnothing.taken; omega)]
      rfl
    · intro hstrict block hblock
      obtain ⟨item, hitem, hcanonical⟩ := mem_validatedTables (mem_yielded hblock)
      obtain ⟨rfl, hplanned⟩ := strict_canonical hstrict hcanonical
      exact ⟨hitem, hplanned⟩
    · rw [hopened, hclosed]
      exact ⟨le_refl 1, rfl⟩
    · intro left hleft hcancelled
      obtain rfl := Nat.succ.inj hleft
      rw [hlooked, handledEvents_looked]
      exact ordinary_of_cancelled hclient hcancelled hleaving
    · intro hresult
      exact ⟨pulls, rfl, (closeError_iff hclient pulls).mpr hinterrupted hresult⟩

/-- A read that yields nothing and opens nothing is faithful unless it reports the close
error. -/
theorem faithful_nothing {pulls : ℕ} {result : Except Thrown Unit} (hok : result ≠ .ok ())
    (hclose : result ≠ .error (.failed closeFailure)) :
    Faithful nbytes limits server query pulls (result, []) where
  oneQuery := Nat.zero_le 1
  rows := List.nil_prefix
  complete h := absurd h hok
  validated _ h := absurd h List.not_mem_nil
  strict _ _ h := absurd h List.not_mem_nil
  closed := ⟨Nat.zero_le 1, rfl⟩
  cancelled _ _ _ := rfl
  closeError h := absurd h hclose

/-- A read is faithful exactly when leaving the stream does not fail over a cancellation,
and no signal interrupts the lookup of a failed read whose client fails to close. -/
theorem readRun_faithful_iff (nbytes : Batch → ℕ) (limits : ResourceLimits) (server : ReadServer)
    (query : QuerySpec) (pulls : ℕ) :
    Faithful nbytes limits server query pulls (readRun nbytes limits server query pulls) ↔
      ∀ left, pulls = left + 1 → ¬ LeavingFails nbytes limits server query left ∧
        ¬ LookupInterrupted nbytes limits server query left := by
  cases pulls with
  | zero =>
    refine ⟨fun _ left hleft => by omega, fun _ => ?_⟩
    exact faithful_nothing (fun h => by cases h) fun h => by cases h
  | succ pulls =>
    have hone : (∀ left, pulls + 1 = left + 1 → ¬ LeavingFails nbytes limits server query left ∧
        ¬ LookupInterrupted nbytes limits server query left) ↔
          ¬ LeavingFails nbytes limits server query pulls ∧
            ¬ LookupInterrupted nbytes limits server query pulls :=
      ⟨fun h => h pulls rfl, fun h left hleft => by rw [← Nat.succ.inj hleft]; exact h⟩
    rw [hone]
    cases hclient : server.getClient with
    | none =>
      obtain ⟨hresult, hevents⟩ := @run_streamQuery nbytes limits server query hclient pulls
      have hrun : readRun nbytes limits server query (pulls + 1) =
          (readResult server query (tryEnd nbytes limits server query pulls),
            readEvents nbytes limits server query pulls) := Prod.ext hresult hevents
      rw [hrun]
      exact faithful_closed hclient pulls
    | some raised =>
      have hrun : readRun nbytes limits server query (pulls + 1) =
          (.error (translated "read client initialization" (Thrown.ofRaised raised)), []) := by
        show (((streamQuery nbytes limits server query).run pulls).1,
          ((streamQuery nbytes limits server query).run pulls).2.2) = _
        unfold streamQuery
        rw [hclient]
        rfl
      rw [hrun]
      refine ⟨fun _ => ⟨fun h => ?_, fun h => ?_⟩, fun _ => faithful_nothing (fun h => by cases h) ?_⟩
      · rw [h.1] at hclient
        contradiction
      · rw [h.1] at hclient
        contradiction
      · intro h
        cases raised with
        | interrupt => cases h
        | error code message =>
          exact translate_ne_closeFailure code message _ (Or.inr rfl)
            (Thrown.failed.inj (Except.error.inj h))

end Reads

section Example

def interruptedServer : ReadServer where
  getClient := none
  openStream := none
  batches := []
  ending := some (.error none [])
  leaveStream := none
  cast _ _ := .error .unfit
  closeClient := some (.error none [])
  diagnostics := ⟨some .interrupt, none, .ok [], fun _ => .ok [], none⟩

/-- The failure to close is raised over the failure of the read. -/
theorem interrupted_lookup_closeError : ¬ ∀ (limits : ResourceLimits) (server : ReadServer)
    (query : QuerySpec) (pulls : ℕ), Faithful (fun _ => 0) limits server query pulls
      (readRun (fun _ => 0) limits server query pulls) := by
  intro hclaim
  have hfaithful := hclaim {} interruptedServer ⟨[], false, false⟩ 1
  obtain ⟨left, -, hnothing⟩ := hfaithful.closeError rfl
  have hloop := hnothing.loop
  contradiction

end Example

end RayClickHouse.Streaming
