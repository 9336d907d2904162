import RayClickHouse.InsertOutcomes
import RayClickHouse.Datasink

/-!
What the table takes over of a write task's requests. The settings make every answer
wait for the rows, so a confirmed batch is in the table; an attempt that is not
confirmed is the last one, and may leave any of its rows.
-/
namespace RayClickHouse.WriteJobs

open Text Schema Batches InsertSession FallibleLoop Datasink

abbrev Row := List ArrowValue

section Requests

/-- The server answers such a request only after the rows are in the table. -/
def Awaited (settings : Bindings) : Prop :=
  settings.get? "async_insert".toList = some (.int 0) ∨
    settings.get? "wait_for_async_insert".toList = some (.int 1)

theorem Awaited.set {settings : Bindings} {name : Text} (value : Value) (h : Awaited settings)
    (hinsert : name ≠ "async_insert".toList) (hwait : name ≠ "wait_for_async_insert".toList) :
    Awaited (settings.set name value) := by
  unfold Awaited
  rw [Bindings.get?_set, Bindings.get?_set, if_neg hinsert.symm, if_neg hwait.symm]
  exact h

/-- Whatever settings the connection has, the requests of a session are awaited. -/
theorem insertSettings_awaited (session : ClickHouseInsertSession) :
    Awaited session.insertSettings := by
  have hrest : ∀ (waiting : Bindings) (limit comment : Value), Awaited waiting →
      Awaited (if "log_comment".toList ∈ (waiting.set "max_execution_time".toList limit).names then
        waiting.set "max_execution_time".toList limit
        else (waiting.set "max_execution_time".toList limit).set "log_comment".toList comment) := by
    intro waiting limit comment hwaiting
    have htimed : Awaited (waiting.set "max_execution_time".toList limit) :=
      hwaiting.set limit (by decide) (by decide)
    split
    · exact htimed
    · exact htimed.set comment (by decide) (by decide)
  apply hrest
  by_cases hasync : session.insertMode = .async
  · rw [if_pos hasync]
    right
    rw [Bindings.get?_set, if_pos rfl]
  · rw [if_neg hasync]
    left
    rw [Bindings.get?_set, if_pos rfl, if_neg hasync]

def keptRows (kept : ℕ → Bool) (rows : List Row) : List Row :=
  (rows.zipIdx.filter fun p => kept p.2).map Prod.fst

theorem keptRows_sublist (kept : ℕ → Bool) (rows : List Row) :
    (keptRows kept rows).Sublist rows := by
  have hall : (rows.zipIdx.map Prod.fst) = rows := List.zipIdx_map_fst 0 rows
  conv_rhs => rw [← hall]
  exact List.filter_sublist.map Prod.fst

theorem keptRows_all {kept : ℕ → Bool} {rows : List Row} (h : ∀ i < rows.length, kept i = true) :
    keptRows kept rows = rows := by
  unfold keptRows
  rw [List.filter_eq_self.mpr ?_, List.zipIdx_map_fst]
  intro p hp
  have hlt := List.snd_lt_of_mem_zipIdx hp
  exact h p.2 (by omega)

/-- A server together with what the table takes over of each request: all rows of a
confirmed one that is awaited, any of another. -/
structure StoringServer extends InsertServer where
  keeps : List InsertRequest → InsertRequest → ℕ → Bool
  durable : ∀ history request, insertArrow history request = none → Awaited request.settings →
    ∀ i < request.batch.numRows, keeps history request i = true

abbrev Attempt := InsertRequest × Outcome Unit

def attempt? : WriteEvent → Option Attempt
  | .inserted sent outcome => sent.map fun request => (request, outcome)
  | _ => none

def attempts (events : List WriteEvent) : List Attempt := events.filterMap attempt?

theorem attempts_append (events more : List WriteEvent) :
    attempts (events ++ more) = attempts events ++ attempts more := List.filterMap_append

theorem attempts_snoc {e : WriteEvent} (events : List WriteEvent) (h : attempt? e = none) :
    attempts (events ++ [e]) = attempts events := by
  unfold attempts
  rw [List.filterMap_append, List.filterMap_cons_none h, List.filterMap_nil, List.append_nil]

theorem attempts_requests (events : List WriteEvent) :
    (attempts events).map Prod.fst = events.filterMap WriteEvent.request? := by
  unfold attempts
  rw [List.map_filterMap]
  congr 1
  funext e
  cases e with
  | inserted sent outcome =>
    simp only [attempt?, Option.map_map]
    cases sent with
    | none => rfl
    | some request => rfl
  | started outcome => rfl
  | prepared outcome => rfl
  | closed outcome => rfl

/-- Every attempt is awaited, and confirmed only where the server confirmed it. -/
def Answered (server : InsertServer) : List InsertRequest → List Attempt → Prop
  | _, [] => True
  | history, (request, outcome) :: rest =>
      (Awaited request.settings ∧ (outcome = .ok () → server.insertArrow history request = none)) ∧
        Answered server (history ++ [request]) rest

theorem answered_snoc {server : InsertServer} {history : List InsertRequest}
    {before : List Attempt} {request : InsertRequest} {outcome : Outcome Unit}
    (h : Answered server history before) (hsettings : Awaited request.settings)
    (hok : outcome = .ok () →
      server.insertArrow (history ++ before.map Prod.fst) request = none) :
    Answered server history (before ++ [(request, outcome)]) := by
  induction before generalizing history with
  | nil =>
    rw [List.map_nil, List.append_nil] at hok
    exact ⟨⟨hsettings, hok⟩, trivial⟩
  | cons first rest ih =>
    refine ⟨h.1, ih h.2 ?_⟩
    intro houtcome
    rw [List.append_assoc]
    exact hok houtcome

end Requests

section Attempts

variable {server : InsertServer} {session : ClickHouseInsertSession}

theorem insert_eq_ok {history : List InsertRequest} {b : Batch} (hclient : session.client = true)
    (h : (session.insert server history b).2 = .ok ()) :
    server.insertArrow history (session.request server history b) = none := by
  cases hanswer : server.insertArrow history (session.request server history b) with
  | none => rfl
  | some raised =>
    cases raised with
    | interrupt =>
      simp only [ClickHouseInsertSession.insert, hclient, if_true, hanswer] at h
      contradiction
    | error code message =>
      rw [ClickHouseInsertSession.insert_snd_of_error hclient hanswer] at h
      split at h
      · contradiction
      · contradiction

variable (server) in
def AnsweredSoFar (s : WriteState) : Prop := Answered server [] (attempts s.events)

theorem insertBatch_answered (nbytes : Batch → ℕ) (hclient : session.client = true)
    (s : WriteState) (b : Batch) (h : AnsweredSoFar server s) :
    AnsweredSoFar server (insertBatch nbytes server session s b).1 := by
  have hsent := ClickHouseInsertSession.insert_fst server hclient s.requests b
  have hanswer : (session.insert server s.requests b).2 = .ok () → _ := insert_eq_ok hclient
  obtain ⟨sent, outcome, hout⟩ : ∃ sent outcome,
      session.insert server s.requests b = (sent, outcome) := ⟨_, _, rfl⟩
  rw [hout] at hsent hanswer
  simp only at hsent hanswer
  have hevents : (insertBatch nbytes server session s b).1.events =
      s.events ++ [.inserted sent outcome] := by
    unfold insertBatch
    rw [hout]
    cases outcome with
    | ok u => rfl
    | error failure => rfl
  have hattempt : attempts [.inserted sent outcome] =
      [(session.request server s.requests b, outcome)] := by
    rw [hsent]
    rfl
  unfold AnsweredSoFar
  rw [hevents, attempts_append, hattempt]
  apply answered_snoc h
  · exact insertSettings_awaited session
  · intro hok
    rw [attempts_requests, List.nil_append]
    exact hanswer hok

variable [UnicodeDatabase]

theorem writeBlock_answered (nbytes : Batch → ℕ) (target : TargetTable)
    (hclient : session.client = true) (s : WriteState) (block : Block)
    (h : AnsweredSoFar server s) :
    AnsweredSoFar server (writeBlock nbytes server session target s block).1 := by
  obtain ⟨sink, outcome, hout⟩ : ∃ sink outcome,
      s.sink.prepareBlock target block = (sink, outcome) := ⟨_, _, rfl⟩
  have hnoted : AnsweredSoFar server
      { s with sink := sink, events := s.events ++ [.prepared outcome] } := by
    unfold AnsweredSoFar
    rw [attempts_snoc _ rfl]
    exact h
  unfold writeBlock
  rw [hout]
  cases outcome with
  | error failure => exact hnoted
  | ok prepared =>
    exact runLoop_preserves (AnsweredSoFar server) (insertBatch_answered nbytes hclient) _ hnoted

/-- In a run every attempt is awaited, and confirmed only where the server confirmed it. -/
theorem write_answered (nbytes : Batch → ℕ) (server : InsertServer) (sink : ClickHouseDataSink)
    (blocks : List Block) : Answered server [] (attempts (sink.write nbytes server blocks).events) := by
  unfold ClickHouseDataSink.write
  cases htarget : sink.target with
  | none => exact trivial
  | some target =>
    obtain ⟨opened, outcome, hstart⟩ : ∃ opened outcome,
        sink.session.start server = (opened, outcome) := ⟨_, _, rfl⟩
    unfold ClickHouseDataSink.writeBody
    simp only [hstart]
    cases outcome with
    | error failure => exact trivial
    | ok u =>
      have hclient : opened.client = true := by
        rw [ClickHouseInsertSession.start_eq_ok server hstart]
      have hinit : AnsweredSoFar server { sink := sink, events := [.started (.ok ())] } := trivial
      rw [attempts_snoc (e := .closed (opened.close server).2) _ rfl]
      exact runLoop_preserves (AnsweredSoFar server) (writeBlock_answered nbytes target hclient)
        blocks hinit

end Attempts

section Taken

def takenRows (server : StoringServer) : List InsertRequest → List Attempt → List (List Row)
  | _, [] => []
  | history, (request, _) :: rest =>
      keptRows (server.keeps history request) request.batch.rows ::
        takenRows server (history ++ [request]) rest

def isConfirmed (attempt : Attempt) : Bool := attempt.2.isOk

theorem isConfirmed_iff {attempt : Attempt} : isConfirmed attempt = true ↔ attempt.2 = .ok () := by
  unfold isConfirmed
  cases attempt.2 with
  | ok u => exact iff_of_true rfl rfl
  | error failure => exact iff_of_false Bool.false_ne_true (by simp)

def confirmedBatches (attempts : List Attempt) : List Batch :=
  (attempts.filter isConfirmed).map fun attempt => attempt.1.batch

variable {server : StoringServer} {history : List InsertRequest}

/-- Of confirmed attempts every row is taken over. -/
theorem takenRows_confirmed {done : List Attempt}
    (h : Answered server.toInsertServer history done) (hok : ∀ attempt ∈ done, attempt.2 = .ok ()) :
    takenRows server history done = done.map fun attempt => attempt.1.batch.rows := by
  induction done generalizing history with
  | nil => rfl
  | cons first rest ih =>
    obtain ⟨⟨hsettings, hconfirmed⟩, hrest⟩ := h
    rw [takenRows, List.map_cons, ih hrest fun a ha => hok a (List.mem_cons_of_mem _ ha)]
    congr 1
    apply keptRows_all
    exact server.durable history first.1 (hconfirmed (hok first (List.mem_cons_self ..))) hsettings

theorem takenRows_append (done more : List Attempt) :
    takenRows server history (done ++ more) =
      takenRows server history done ++ takenRows server (history ++ done.map Prod.fst) more := by
  induction done generalizing history with
  | nil => simp [takenRows]
  | cons first rest ih =>
    rw [List.cons_append, takenRows, takenRows, ih, List.map_cons, List.append_assoc,
      List.singleton_append, List.cons_append]

theorem answered_of_append {done more : List Attempt}
    (h : Answered server.toInsertServer history (done ++ more)) :
    Answered server.toInsertServer history done := by
  induction done generalizing history with
  | nil => exact trivial
  | cons first rest ih => exact ⟨h.1, ih h.2⟩

/-- When nothing is inserted after a failure, all attempts but the last are confirmed. -/
theorem attempts_halt {events : List WriteEvent}
    (h : events.Pairwise fun earlier later => earlier.failed = true → later.isInsert = false) :
    (∀ attempt ∈ attempts events, attempt.2 = .ok ()) ∨
      ∃ done last, attempts events = done ++ [last] ∧ isConfirmed last = false ∧
        ∀ attempt ∈ done, attempt.2 = .ok () := by
  induction events with
  | nil => exact Or.inl (by simp [attempts])
  | cons e rest ih =>
    obtain ⟨hfirst, hrest⟩ := List.pairwise_cons.mp h
    cases hattempt : attempt? e with
    | none =>
      have hsame : attempts (e :: rest) = attempts rest := List.filterMap_cons_none hattempt
      rw [hsame]
      exact ih hrest
    | some attempt =>
      have hcons : attempts (e :: rest) = attempt :: attempts rest :=
        List.filterMap_cons_some hattempt
      have hfailed : e.failed = !isConfirmed attempt := by
        cases e with
        | inserted sent outcome =>
          obtain ⟨request, -, rfl⟩ := Option.map_eq_some_iff.mp hattempt
          rfl
        | started outcome => contradiction
        | prepared outcome => contradiction
        | closed outcome => contradiction
      rw [hcons]
      cases hconfirmed : isConfirmed attempt with
      | true =>
        have hok := isConfirmed_iff.mp hconfirmed
        rcases ih hrest with hall | ⟨done, last, hsplit, hlast, hdone⟩
        · left
          exact List.forall_mem_cons.mpr ⟨hok, hall⟩
        · right
          refine ⟨attempt :: done, last, ?_, hlast, List.forall_mem_cons.mpr ⟨hok, hdone⟩⟩
          rw [hsplit, List.cons_append]
      | false =>
        right
        have hnone : attempts rest = [] := by
          apply List.filterMap_eq_nil_iff.mpr
          intro later hlater
          have hinsert := hfirst later hlater (by rw [hfailed, hconfirmed]; rfl)
          cases later with
          | inserted sent outcome => contradiction
          | started outcome => rfl
          | prepared outcome => rfl
          | closed outcome => rfl
        refine ⟨[], attempt, ?_, hconfirmed, by simp⟩
        rw [hnone, List.nil_append]

end Taken

end RayClickHouse.WriteJobs
