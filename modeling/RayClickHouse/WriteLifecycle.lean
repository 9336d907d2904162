import RayClickHouse.WriteJobs

/-!
A write job from its start to its receipt. The start leaves the table that the job
fills; the tasks run with the datasink as the start left it, and what they insert is
all that the job adds to the table.
-/
namespace RayClickHouse.WriteJobs

open Text Schema Batches InsertSession Datasink WriteAccounting Interleavings Ddl

section Lifecycle

variable [UnicodeDatabase]

/-- A job whose start succeeds fills the table that it found, for an append, or else one
without rows. In whatever order the requests of its tasks reach the server, the table gains
the rows of confirmed batches, and of the others only what the server took over. -/
theorem write_job (nbytes : Batch → ℕ) (sink : ClickHouseDataSink) (server : TableServer)
    (schema : Option ArrowSchema) (store : Option StoredTable) (tasks : List WriteTask)
    (log : List (List Row)) (hcounts : sink.writeMode ≠ .append → Counts server store)
    (hstart : (sink.onWriteStart server schema store).result = .ok ())
    (hlog : Interleaves (tasks.map
      (WriteTask.taken nbytes (sink.onWriteStart server schema store).sink)) log) :
    (∃ stored, (sink.onWriteStart server schema store).store = some stored ∧
      (sink.writeMode = .append → store = some stored) ∧
      (sink.writeMode ≠ .append → stored.rows = [])) ∧
    JobStored nbytes (sink.onWriteStart server schema store).sink tasks log :=
  ⟨onWriteStart_stored hcounts hstart, job_stored hlog⟩

end Lifecycle

section Example

def eventsTarget : TargetTable :=
  ⟨"analytics".toList, "events".toList, "MergeTree".toList, reportedTarget tagsColumns⟩

def startedSink : ClickHouseDataSink :=
  { eventsSink none with
    target := some eventsTarget
    sourceSchema := some tagsSchema
    sourceColumns := some (reportedTarget tagsColumns) }

/-- The start replaces the table that it finds. -/
theorem eventsSink_started : ∃ commands,
    @ClickHouseDataSink.onWriteStart asciiDatabase (eventsSink none) answeringServer
      (some tagsSchema) (some oldTable) =
        ⟨startedSink, some ⟨"MergeTree".toList, tagsColumns, []⟩, commands, .ok ()⟩ := by
  have hmanaged : ((eventsSink none).management answeringServer tagsSchema (some oldTable)).result =
        .ok () ∧
      ((eventsSink none).management answeringServer tagsSchema (some oldTable)).store =
        some ⟨"MergeTree".toList, tagsColumns, []⟩ := by
    decide +kernel
  have hdiscover := discoverTarget_answered eventsTable ⟨"MergeTree".toList, tagsColumns, []⟩
    (⟨rfl, rfl, rfl, rfl⟩ : Discoverable answeringServer) (by decide) (List.cons_ne_nil _ _)
    tagsColumns_solid
  rw [if_pos (by decide)] at hdiscover
  have hvalid : @validateSourceSchema asciiDatabase tagsSchema eventsTarget none =
      .ok (reportedTarget tagsColumns) := by
    decide +kernel
  have hplan : @ClickHouseDataSink.planTarget asciiDatabase (eventsSink none) answeringServer
      (some tagsSchema) (some ⟨"MergeTree".toList, tagsColumns, []⟩) = (startedSink, .ok ()) := by
    unfold ClickHouseDataSink.planTarget
    have hfound : discoverTarget answeringServer (eventsSink none).table
        (some ⟨"MergeTree".toList, tagsColumns, []⟩) = .ok eventsTarget := hdiscover
    have hchecked : @validateSourceSchema asciiDatabase tagsSchema eventsTarget
        (eventsSink none).columns = .ok (reportedTarget tagsColumns) := hvalid
    rw [hfound]
    simp only
    rw [hchecked]
    rfl
  refine ⟨((eventsSink none).management answeringServer tagsSchema (some oldTable)).commands, ?_⟩
  rw [@onWriteStart_overwrite (eventsSink none) answeringServer tagsSchema (some oldTable)
    asciiDatabase rfl, hmanaged.1, hmanaged.2, hplan]

def taggedRow (id : ℤ) : Row := [.scalar (.int id), .list (.cons (.scalar (.int 1)) .nil)]

theorem taggedRow_width (ids : List ℤ) :
    ∀ row ∈ ids.map taggedRow, row.length = tagsSchema.length := by
  intro row hrow
  obtain ⟨id, -, rfl⟩ := List.mem_map.mp hrow
  rfl

def taggedBlock (ids : List ℤ) : Block :=
  .table ⟨tagsSchema, ids.map taggedRow, 0, taggedRow_width ids⟩

def insertServer (answers : List InsertRequest → InsertRequest → Option Raised) : InsertServer where
  getClient := none
  insertArrow := answers
  closeClient := none
  newQueryId := fun _ => "q".toList

def confirmingServer : StoringServer where
  toInsertServer := insertServer fun _ _ => none
  keeps := fun _ _ _ => true
  durable := fun _ _ _ _ _ _ => rfl

def brokenAnswer (history : List InsertRequest) (_ : InsertRequest) : Option Raised :=
  if history.isEmpty then none else some (.error none "timeout".toList)

def brokenKeeps (history : List InsertRequest) (_ : InsertRequest) (i : ℕ) : Bool :=
  history.isEmpty || i == 0

theorem broken_durable (history : List InsertRequest) (request : InsertRequest)
    (hconfirmed : brokenAnswer history request = none) (_ : Awaited request.settings) :
    ∀ i < request.batch.numRows, brokenKeeps history request i = true := by
  intro i _
  cases history with
  | nil => rfl
  | cons earlier history => contradiction

def brokenServer : StoringServer where
  toInsertServer := insertServer brokenAnswer
  keeps := brokenKeeps
  durable := broken_durable

def eventsTasks : List WriteTask :=
  [⟨confirmingServer, [taggedBlock [1, 2], taggedBlock [3]]⟩,
    ⟨brokenServer, [taggedBlock [4], taggedBlock [5, 6]]⟩]

def eventsLog : List (List Row) :=
  [[taggedRow 4], [taggedRow 1, taggedRow 2], [taggedRow 5], [taggedRow 3]]

theorem events_interleaved : Interleaves (eventsTasks.map
    (@WriteTask.taken asciiDatabase Batch.numRows startedSink)) eventsLog := by
  have htaken : eventsTasks.map (@WriteTask.taken asciiDatabase Batch.numRows startedSink) =
      [[[taggedRow 1, taggedRow 2], [taggedRow 3]], [[taggedRow 4], [taggedRow 5]]] := by
    decide +kernel
  rw [htaken]
  apply @Interleaves.step _ [[[taggedRow 1, taggedRow 2], [taggedRow 3]]] []
  apply @Interleaves.step _ [] [[[taggedRow 5]]]
  apply @Interleaves.step _ [[[taggedRow 3]]] []
  apply @Interleaves.step _ [] [[]]
  apply Interleaves.done
  simp

theorem write_job_example : ∃ run,
    @ClickHouseDataSink.onWriteStart asciiDatabase (eventsSink none) answeringServer
      (some tagsSchema) (some oldTable) = run ∧ run.result = .ok () ∧
    (∃ stored, run.store = some stored ∧ stored.rows = []) ∧
    @JobStored asciiDatabase Batch.numRows run.sink eventsTasks eventsLog := by
  obtain ⟨commands, hrun⟩ := eventsSink_started
  have hcounts : Counts answeringServer (some oldTable) := by
    rintro count hcount
    obtain rfl := Except.ok.inj hcount
    simp
  have hresult : (@ClickHouseDataSink.onWriteStart asciiDatabase (eventsSink none) answeringServer
      (some tagsSchema) (some oldTable)).result = .ok () := by
    rw [hrun]
  have hlog : Interleaves (eventsTasks.map (@WriteTask.taken asciiDatabase Batch.numRows
      (@ClickHouseDataSink.onWriteStart asciiDatabase (eventsSink none) answeringServer
        (some tagsSchema) (some oldTable)).sink)) eventsLog := by
    rw [hrun]
    exact events_interleaved
  obtain ⟨⟨stored, hstored, -, hempty⟩, hjob⟩ := @write_job asciiDatabase Batch.numRows
    (eventsSink none) answeringServer (some tagsSchema) (some oldTable) eventsTasks eventsLog
    (fun _ => hcounts) hresult hlog
  exact ⟨_, rfl, hresult, ⟨stored, hstored, hempty (by decide)⟩, hjob⟩

end Example

end RayClickHouse.WriteJobs
