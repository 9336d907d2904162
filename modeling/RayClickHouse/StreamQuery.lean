import RayClickHouse.Generators
import RayClickHouse.InsertSession

/-!
The worker's read of one query. The batches of the stream are checked, cut into
blocks and handed over one by one; a failure is translated and annotated with a
lookup in the query log, and the client is closed whatever happens.
-/
namespace RayClickHouse.Streaming

open Text Batches Generators

/-- What unwinds a read. -/
inductive Thrown
  /-- The consumer closes the generator. -/
  | generatorExit
  /-- KeyboardInterrupt or SystemExit. -/
  | signal
  /-- An error of the connector. -/
  | failed (failure : Failure)
  /-- Any other exception. -/
  | other (code : Option ℤ) (message : Text)

def Thrown.ofRaised : Raised → Thrown
  | .interrupt => signal
  | .error code message => other code message

/-- The query and its planned schema. -/
structure QuerySpec where
  arrowSchema : ArrowSchema
  strictSchema : Bool := false
  diagnosticFlushLogs : Bool := false

/-- A value that the stream delivers; turning a record batch into a table may fail. -/
inductive Delivered
  | table (table : ArrowTable)
  | foreign
  | broken (raised : Raised)

/-- table.cast(schema, safe=True); some errors say that the values do not fit. -/
inductive CastFailure
  | unfit
  | raised (raised : Raised)

structure DiagnosticServer where
  getClient : Option Raised
  flushLogs : Option Raised
  showTables : Except Raised (List (List Value))
  lookup : ℕ → Except Raised (List (List Value))
  close : Option Raised

/-- How each step of a read ends. -/
structure ReadServer where
  getClient : Option Raised
  openStream : Option Raised
  batches : List Delivered
  ending : Option Raised
  leaveStream : Option Raised
  cast : ArrowTable → ArrowSchema → Except CastFailure ArrowTable
  closeClient : Option Raised
  diagnostics : DiagnosticServer

inductive Event
  | opened
  | queried
  | yielded (block : Batch)
  | streamLeft
  | looked
  | closed

section Diagnostics

def passing {α : Type} (fallback : α) : Except Raised α → Except Thrown α
  | .ok a => .ok a
  | .error .interrupt => .error .signal
  | .error (.error _ _) => .ok fallback

def queryLogColumns : List String :=
  ["type", "exception_code", "exception", "read_rows", "result_rows", "read_bytes",
    "result_bytes", "query_duration_ms"]

def queryLogNames (rows : List (List Value)) : List Text :=
  sortedNames (rows.filterMap fun row =>
    match row with
    | .str name :: _ => if isIdentifier name then some name else none
    | _ => none)

def queryLogName (names : List Text) : Option Text :=
  if "query_log".toList ∈ names then some "query_log".toList
  else
    (names.find? fun name => "query_log".toList.isSuffixOf (name.map Char.toLower)).or names.head?

def discoverQueryLogTable (d : DiagnosticServer) : Except Thrown (Option Text) := do
  let rows ← passing [] d.showTables
  .ok (queryLogName (queryLogNames rows))

/-- The lookups that are left, of four; rows of another width are given up. -/
def lookupAttempts (d : DiagnosticServer) : ℕ → Except Thrown (Option (List (String × Value)))
  | 0 => .ok none
  | left + 1 =>
      match d.lookup (4 - (left + 1)) with
      | .error .interrupt => .error .signal
      | .error (.error _ _) => .ok none
      | .ok [] => lookupAttempts d left
      | .ok (row :: _) =>
          .ok (if row.length = queryLogColumns.length then some (queryLogColumns.zip row) else none)

def closeDiagnostics {α : Type} (d : DiagnosticServer) (result : Except Thrown α) :
    Except Thrown α :=
  match d.close with
  | some .interrupt => .error .signal
  | _ => result

/-- A best effort: only a signal gets out of it. -/
def lookupQueryDiagnostic (d : DiagnosticServer) (flushLogs : Bool) :
    Except Thrown (Option (List (String × Value))) :=
  match d.getClient with
  | some .interrupt => .error .signal
  | some (.error _ _) => .ok none
  | none =>
      closeDiagnostics d do
        let _ ← if flushLogs then passing () (d.flushLogs.elim (.ok ()) .error) else .ok ()
        let table ← discoverQueryLogTable d
        match table with
        | none => .ok none
        | some _ => lookupAttempts d 4

end Diagnostics

section Validation

variable (server : ReadServer) (query : QuerySpec)

def readError {α : Type} (message : String) : Except Thrown α :=
  .error (.failed ⟨.read, message, []⟩)

def validateTable (t : ArrowTable) (schema : ArrowSchema) : Except Thrown ArrowTable :=
  if t.schema.names ≠ schema.names then
    readError "ClickHouse result columns do not match the planned schema"
  else if t.schema = schema then .ok t
  else
    match server.cast t schema with
    | .ok canonical => .ok canonical
    | .error .unfit => readError "ClickHouse result does not match the planned Arrow schema"
    | .error (.raised raised) => .error (Thrown.ofRaised raised)

/-- batch[name].null_count; a repeated name is a KeyError. -/
def columnNulls (t : ArrowTable) (name : Text) : Except Thrown ℕ :=
  match t.columnIndex name with
  | .ok index => .ok (t.nullCount index)
  | .error _ => .error (.other none (name.map Char.toLower))

/-- The first column, in the order of the fields, that must not hold NULL and does. -/
def holdsNull (t : ArrowTable) : List Field → Except Thrown Bool
  | [] => .ok false
  | field :: rest =>
      if field.nullable then holdsNull t rest
      else do
        let nulls ← columnNulls t field.name
        if nulls ≠ 0 then .ok true else holdsNull t rest

def checkStrict (t : ArrowTable) : Except Thrown Unit :=
  if t.schema ≠ query.arrowSchema then
    readError "query result schema changed since planning"
  else do
    let null ← holdsNull t query.arrowSchema
    if null then readError "query result contains NULL in a non-nullable field" else .ok ()

def canonicalTable : Delivered → Except Thrown ArrowTable
  | .broken raised => .error (Thrown.ofRaised raised)
  | .foreign => readError "ClickHouse yielded a non-Arrow table"
  | .table t => do
      if query.strictSchema then checkStrict query t else .ok ()
      validateTable server t query.arrowSchema

end Validation

section Stream

variable (nbytes : Batch → ℕ) (limits : ResourceLimits) (server : ReadServer) (query : QuerySpec)

def raising (raised : Option Raised) : Body Thrown Event Unit :=
  match raised with
  | none => pure ()
  | some raised => Body.raise (Thrown.ofRaised raised)

def yieldBlocks : List Batch → Body Thrown Event Unit
  | [] => pure ()
  | block :: rest => do
      Body.yields .generatorExit (.yielded block)
      yieldBlocks rest

def slices (t : ArrowTable) : List Batch :=
  iterBatchSlices nbytes t limits.batchRows limits.batchBytes

def readBatches : List Delivered → Body Thrown Event Unit
  | [] => raising server.ending
  | item :: rest =>
      match canonicalTable server query item with
      | .error thrown => Body.raise thrown
      | .ok canonical => do
          yieldBlocks (slices nbytes limits canonical)
          readBatches rest

def readStream : Body Thrown Event Unit := do
  Body.emit .queried
  raising server.openStream
  (readBatches nbytes limits server query server.batches).finalize do
    Body.emit .streamLeft
    raising server.leaveStream

def translated (operation : String) : Thrown → Thrown
  | .other code message => .failed (InsertSession.translate code message operation)
  | thrown => thrown

/-- The except clauses: what is raised, and whether it was recorded as the failure. -/
def handled (thrown : Thrown) : Body Thrown Event (Thrown × Bool) :=
  match thrown with
  | .generatorExit => pure (.generatorExit, true)
  | .signal => pure (.signal, true)
  | thrown => do
      Body.emit .looked
      match lookupQueryDiagnostic server.diagnostics query.diagnosticFlushLogs with
      | .ok _ => pure (translated "Arrow query" thrown, true)
      | .error interruption => pure (interruption, false)

def closeFailure : Failure := ⟨.transport, "failed to close ClickHouse read client", []⟩

/-- The finally clause; a failure to close is raised when none was recorded. -/
def closing (raised : Option Thrown) (recorded : Bool) : Body Thrown Event Unit := do
  Body.emit .closed
  match server.closeClient, recorded with
  | some .interrupt, _ => Body.raise .signal
  | some (.error _ _), false => Body.raise (.failed closeFailure)
  | _, _ => raised.elim (pure ()) Body.raise

/-- The generator. Without a client nothing is queried, looked up or closed. -/
def streamQuery : Body Thrown Event Unit :=
  match server.getClient with
  | some raised => Body.raise (translated "read client initialization" (Thrown.ofRaised raised))
  | none => do
      Body.emit .opened
      let thrown ← Body.catching (do
        readStream nbytes limits server query
        pure none) fun thrown => pure (some thrown)
      match thrown with
      | none => closing server none false
      | some thrown => do
          let (raised, recorded) ← handled server query thrown
          closing server (some raised) recorded

def readRun (pulls : ℕ) : Except Thrown Unit × List Event :=
  consume .generatorExit (streamQuery nbytes limits server query) pulls

end Stream

end RayClickHouse.Streaming
