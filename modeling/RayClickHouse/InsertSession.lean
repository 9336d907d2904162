import RayClickHouse.Batches

/-!
The worker's insert session: one client, one request for each batch, and the
translation of what the client raises. The server is a function of the requests
it has seen.
-/
namespace RayClickHouse.InsertSession

open Text Batches

def translate (code : Option ℤ) (message : Text) (operation : String) : Failure :=
  if code = some 516 ∨ code = some 193 ∨ mentions message "authentication" then
    ⟨.authentication, s!"ClickHouse authentication failed during {operation}", []⟩
  else if code = some 497 ∨ code = some 551 ∨ mentions message "not enough privileges" ∨
      mentions message "access denied" then
    ⟨.permission, s!"ClickHouse permission denied during {operation}", []⟩
  else if mentions message "timeout" ∨ mentions message "connection" ∨ mentions message "http" then
    ⟨.transport, s!"ClickHouse transport failed during {operation}", []⟩
  else if operation = "Arrow insert" then
    ⟨.write, "ClickHouse rejected an Arrow insert batch", []⟩
  else ⟨.read, "ClickHouse Arrow query failed", []⟩

structure InsertRequest where
  database : Text
  table : Text
  batch : Batch
  settings : Bindings
  queryId : Text

/-- The other side of a session: whether a client can be opened and closed, and
how each request is answered after the earlier ones. -/
structure InsertServer where
  getClient : Option Raised
  insertArrow : List InsertRequest → InsertRequest → Option Raised
  closeClient : Option Raised
  newQueryId : ℕ → Text

structure ClickHouseInsertSession where
  connection : ClickHouseConnection
  limits : ResourceLimits
  database : Text
  table : Text
  insertMode : InsertMode
  client : Bool := false

namespace ClickHouseInsertSession

variable (server : InsertServer)

def start (session : ClickHouseInsertSession) : ClickHouseInsertSession × Outcome Unit :=
  match server.getClient with
  | none => ({ session with client := true }, .ok ())
  | some .interrupt => (session, .error interrupted)
  | some (.error code message) =>
      (session, .error (translate code message "write client initialization"))

def insertSettings (session : ClickHouseInsertSession) : Bindings :=
  let mode := session.connection.settings.set "async_insert".toList
    (.int (if session.insertMode = .async then 1 else 0))
  let waiting :=
    if session.insertMode = .async then mode.set "wait_for_async_insert".toList (.int 1) else mode
  let timed := waiting.set "max_execution_time".toList
    (.int (max 1 ⌈session.limits.queryTimeoutSeconds⌉))
  if "log_comment".toList ∈ timed.names then timed
  else timed.set "log_comment".toList (.str "ray-clickhouse operation=insert".toList)

def request (session : ClickHouseInsertSession) (history : List InsertRequest) (batch : Batch) :
    InsertRequest where
  database := session.database
  table := session.table
  batch := batch
  settings := session.insertSettings
  queryId := server.newQueryId history.length

def insert (session : ClickHouseInsertSession) (history : List InsertRequest) (batch : Batch) :
    Option InsertRequest × Outcome Unit :=
  if session.client then
    let sent := session.request server history batch
    match server.insertArrow history sent with
    | none => (some sent, .ok ())
    | some .interrupt => (some sent, .error interrupted)
    | some (.error code message) =>
        let translated := translate code message "Arrow insert"
        if translated.kind = .transport then
          (some sent, Outcome.raise .ambiguousWrite
            "ClickHouse insert outcome is unknown after a transport failure")
        else (some sent, .error translated)
  else (none, Outcome.raise .transport "ClickHouse write session is not started")

def close (session : ClickHouseInsertSession) : ClickHouseInsertSession × Outcome Unit :=
  if session.client then
    let closed := { session with client := false }
    match server.closeClient with
    | none => (closed, .ok ())
    | some .interrupt => (closed, .error interrupted)
    | some (.error _ _) =>
        (closed, Outcome.raise .transport "failed to close ClickHouse write client")
  else (session, .ok ())

theorem start_eq_ok {session started : ClickHouseInsertSession}
    (h : session.start server = (started, .ok ())) : started = { session with client := true } := by
  unfold start at h
  split at h
  · exact (congrArg Prod.fst h).symm
  · have := congrArg Prod.snd h
    contradiction
  · have := congrArg Prod.snd h
    contradiction

/-- A started session sends every batch it is given. -/
theorem insert_fst {session : ClickHouseInsertSession} (hclient : session.client = true)
    (history : List InsertRequest) (batch : Batch) :
    (session.insert server history batch).1 = some (session.request server history batch) := by
  unfold insert
  rw [if_pos hclient]
  simp only
  split
  · rfl
  · rfl
  · split <;> rfl

end ClickHouseInsertSession

end RayClickHouse.InsertSession
