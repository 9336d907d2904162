import RayClickHouse.Ddl
import RayClickHouse.FallibleLoop
import RayClickHouse.InsertSession

/-!
The Datasink of one table. A write task fixes the source schema at its first
block, cuts every block into batches and confirms them one by one; the driver
sums what the tasks return.
-/
namespace RayClickHouse.Datasink

open Text Schema Batches InsertSession FallibleLoop Ddl

/-- What the iterator of blocks yields: a table, an object that does not convert
to one, or an exception. -/
inductive Block
  | table (t : ArrowTable)
  | notTable
  | raised (failure : Failure)

structure ClickHouseDataSink where
  connection : ClickHouseConnection
  table : QualifiedTable
  insertMode : InsertMode := .sync
  writeMode : WriteMode := .append
  engine : Text := "MergeTree".toList
  orderBy : Option (List Text) := none
  nullableColumns : Option (List Text) := none
  columns : Option (List Text) := none
  limits : ResourceLimits := {}
  target : Option TargetTable := none
  sourceSchema : Option ArrowSchema := none
  sourceColumns : Option (List TargetColumn) := none
  receipt : Option WriteReceipt := none

structure Totals where
  rows : ℕ := 0
  bytes : ℕ := 0
  batches : ℕ := 0
  deriving DecidableEq, Repr

inductive WriteEvent
  | started (outcome : Outcome Unit)
  | prepared (outcome : Outcome ArrowTable)
  | inserted (sent : Option InsertRequest) (outcome : Outcome Unit)
  | closed (outcome : Outcome Unit)

namespace WriteEvent

def request? : WriteEvent → Option InsertRequest
  | inserted sent _ => sent
  | _ => none

def failed : WriteEvent → Bool
  | started outcome => !outcome.isOk
  | prepared outcome => !outcome.isOk
  | inserted _ outcome => !outcome.isOk
  | closed outcome => !outcome.isOk

def isInsert : WriteEvent → Bool
  | inserted _ _ => true
  | _ => false

end WriteEvent

structure TaskResult where
  rows : ℕ
  bytes : ℕ
  batches : ℕ
  status : String := "confirmed"
  deriving DecidableEq, Repr

structure WriteState where
  sink : ClickHouseDataSink
  totals : Totals := {}
  events : List WriteEvent := []

def WriteState.requests (s : WriteState) : List InsertRequest :=
  s.events.filterMap WriteEvent.request?

structure WriteRun where
  sink : ClickHouseDataSink
  events : List WriteEvent
  result : Outcome TaskResult

namespace WriteRun

def batches (run : WriteRun) : List Batch :=
  (run.events.filterMap WriteEvent.request?).map InsertRequest.batch

end WriteRun

section Write

variable [UnicodeDatabase] (nbytes : Batch → ℕ) (server : InsertServer)

def Totals.confirm (totals : Totals) (b : Batch) : Totals :=
  ⟨totals.rows + b.numRows, totals.bytes + nbytes b, totals.batches + 1⟩

namespace ClickHouseDataSink

/-- The first block fixes the source schema when the driver had none. -/
def fixSource (sink : ClickHouseDataSink) (target : TargetTable) (t : ArrowTable) :
    ClickHouseDataSink × Outcome Unit :=
  match sink.sourceSchema with
  | some _ => (sink, .ok ())
  | none =>
      match validateSourceSchema t.schema target sink.columns with
      | .ok columns =>
          ({ sink with sourceSchema := some t.schema, sourceColumns := some columns }, .ok ())
      | .error failure => ({ sink with sourceSchema := some t.schema }, .error failure)

def prepareTable (sink : ClickHouseDataSink) (t : ArrowTable) : Outcome ArrowTable :=
  match sink.sourceSchema, sink.sourceColumns with
  | some schema, some columns => prepareArrowTable t schema columns
  | _, _ =>
      Outcome.raise .write "write schema validation did not produce a target plan"

def prepareBlock (sink : ClickHouseDataSink) (target : TargetTable) :
    Block → ClickHouseDataSink × Outcome ArrowTable
  | .raised failure => (sink, .error failure)
  | .notTable => (sink, Outcome.raise .write "Ray produced a non-Arrow write block")
  | .table t =>
      match sink.fixSource target t with
      | (fixed, .ok ()) => (fixed, fixed.prepareTable t)
      | (fixed, .error failure) => (fixed, .error failure)

end ClickHouseDataSink

def insertBatch (session : ClickHouseInsertSession) (s : WriteState) (b : Batch) :
    WriteState × Outcome Unit :=
  let (sent, outcome) := session.insert server s.requests b
  let noted := { s with events := s.events ++ [.inserted sent outcome] }
  match outcome with
  | .ok () => ({ noted with totals := s.totals.confirm nbytes b }, .ok ())
  | .error failure => (noted, .error failure)

def writeBlock (session : ClickHouseInsertSession) (target : TargetTable) (s : WriteState)
    (block : Block) : WriteState × Outcome Unit :=
  let (sink, outcome) := s.sink.prepareBlock target block
  let noted := { s with sink := sink, events := s.events ++ [.prepared outcome] }
  match outcome with
  | .ok prepared =>
      runLoop (insertBatch nbytes server session) noted
        (iterBatchSlices nbytes prepared sink.limits.batchRows sink.limits.batchBytes)
  | .error failure => (noted, .error failure)

/-- What leaves the finally block: a failing close is raised when nothing failed
before it, and an interrupt always is. -/
def finish (closing : Outcome Unit) (body : Outcome TaskResult) : Outcome TaskResult :=
  match closing, body with
  | .ok (), body => body
  | .error failure, .ok _ => .error failure
  | .error failure, .error earlier =>
      if failure.kind = .interrupt then .error failure else .error earlier

namespace ClickHouseDataSink

def session (sink : ClickHouseDataSink) : ClickHouseInsertSession where
  connection := sink.connection
  limits := sink.limits
  database := sink.table.database
  table := sink.table.table
  insertMode := sink.insertMode

def writeBody (sink : ClickHouseDataSink) (target : TargetTable) (blocks : List Block) :
    ClickHouseInsertSession × WriteState × Outcome Unit :=
  match sink.session.start server with
  | (opened, .ok ()) =>
      (opened, runLoop (writeBlock nbytes server opened target)
        { sink := sink, events := [.started (.ok ())] } blocks)
  | (opened, .error failure) =>
      (opened, { sink := sink, events := [.started (.error failure)] }, .error failure)

def write (sink : ClickHouseDataSink) (blocks : List Block) : WriteRun :=
  match sink.target with
  | none =>
      ⟨sink, [], Outcome.raise .configuration
        "ClickHouseDataSink.on_write_start must run before write"⟩
  | some target =>
      let (opened, last, body) := sink.writeBody nbytes server target blocks
      let (_, closing) := opened.close server
      ⟨last.sink, last.events ++ [.closed closing],
        finish closing
          ((fun _ => ⟨last.totals.rows, last.totals.bytes, last.totals.batches, "confirmed"⟩) <$>
            body)⟩

end ClickHouseDataSink

end Write

section Start

variable [UnicodeDatabase]

/-- A write start: the sink and the stored table afterwards, and the commands sent. -/
structure StartRun where
  sink : ClickHouseDataSink
  store : Option StoredTable
  commands : List Command
  result : Outcome Unit

namespace ClickHouseDataSink

/-- The discovery of the target and the check of the source schema. -/
def planTarget (sink : ClickHouseDataSink) (server : TableServer) (schema : Option ArrowSchema)
    (store : Option StoredTable) : ClickHouseDataSink × Outcome Unit :=
  match discoverTarget server sink.table store with
  | .error failure => (sink, .error failure)
  | .ok target =>
      let planned := { sink with target := some target, sourceSchema := schema }
      match schema with
      | none => (planned, .ok ())
      | some source =>
          match validateSourceSchema source target sink.columns with
          | .error failure => (planned, .error failure)
          | .ok columns => ({ planned with sourceColumns := some columns }, .ok ())

def onWriteStart (sink : ClickHouseDataSink) (server : TableServer) (schema : Option ArrowSchema)
    (store : Option StoredTable) : StartRun :=
  let managed : ManagementRun :=
    if sink.writeMode = .append then ⟨store, [], .ok ()⟩
    else
      match schema with
      | none =>
          ⟨store, [], Outcome.raise .configuration
            "create/overwrite requires the Ray Dataset to provide an Arrow schema"⟩
      | some source =>
          createOrReplaceTable server sink.writeMode sink.table source sink.engine sink.orderBy
            sink.nullableColumns store
  match managed.result with
  | .error failure => ⟨sink, managed.store, managed.commands, .error failure⟩
  | .ok () =>
      let (planned, result) := sink.planTarget server schema managed.store
      ⟨planned, managed.store, managed.commands, result⟩

end ClickHouseDataSink

end Start

section Complete

variable [UnicodeDatabase]

def toInteger : Value → Outcome ℤ
  | .int i => .ok i
  | .bool b => .ok (if b then 1 else 0)
  | .str s => Outcome.ofOption ⟨.builtin, "invalid literal for int()", [s]⟩ (toInt s)
  | .bytes bs =>
      if bs.all fun b => (b < 28 || 31 < b) && b < 128 then
        Outcome.ofOption ⟨.builtin, "invalid literal for int()", []⟩ (toInt (bs.map Char.ofNat))
      else Outcome.raise .builtin "invalid literal for int()"
  | .null => Outcome.raise .builtin "int() argument must be a string or a number"
  | .other _ => Outcome.raise .builtin "int() argument must be a string or a number"

def TaskResult.entries (result : TaskResult) : Bindings :=
  [("rows".toList, .int result.rows), ("bytes".toList, .int result.bytes),
    ("batches".toList, .int result.batches), ("status".toList, .str result.status.toList)]

/-- What a task returned, which need not be a mapping. -/
inductive TaskReturn
  | mapping (entries : Bindings)
  | other

namespace TaskReturn

def entries? : TaskReturn → Option Bindings
  | mapping entries => some entries
  | other => none

def ofResult : Option TaskResult → TaskReturn
  | some result => mapping result.entries
  | none => other

end TaskReturn

def sumOf (key : String) (returns : List TaskReturn) : Outcome ℤ := do
  let counts ← (returns.filterMap TaskReturn.entries?).mapM fun entries =>
    toInteger ((entries.get? key.toList).getD (.int 0))
  .ok counts.sum

namespace ClickHouseDataSink

/-- The argument is the write_returns attribute, if there is one. -/
def onWriteComplete (sink : ClickHouseDataSink) (writeReturns : Option (List TaskReturn)) :
    Outcome ClickHouseDataSink := do
  let returns := writeReturns.getD []
  let rows ← sumOf "rows" returns
  let bytes ← sumOf "bytes" returns
  let batches ← sumOf "batches" returns
  .ok { sink with receipt := some ⟨rows, bytes, batches, "confirmed", 0⟩ }

def onWriteFailed (sink : ClickHouseDataSink) (_error : Failure) : ClickHouseDataSink :=
  { sink with receipt := none }

end ClickHouseDataSink

end Complete

end RayClickHouse.Datasink
