import RayClickHouse.Interleavings
import RayClickHouse.OverwriteStart
import RayClickHouse.WriteAccounting
import RayClickHouse.WriteAttempts

/-!
A write job. Its tasks insert independently, so their requests reach the table in
any order. The table gains the confirmed batches, at most part of one further batch
for each task that failed, and nothing else; when every task returned, each row of
the blocks once, and the receipt counts them.
-/
namespace RayClickHouse.WriteJobs

open Text Schema Batches InsertSession Datasink WriteAccounting Interleavings Ddl

section Task

variable [UnicodeDatabase]

structure WriteTask where
  server : StoringServer
  blocks : List Block

namespace WriteTask

variable (nbytes : Batch → ℕ) (sink : ClickHouseDataSink) (task : WriteTask)

def run : WriteRun := sink.write nbytes task.server.toInsertServer task.blocks

/-- What the table gains from the requests of the task, one list of rows for each. -/
def taken : List (List Row) := takenRows task.server [] (attempts (task.run nbytes sink).events)

def planned : List Batch := task.blocks.flatMap (blockBatches nbytes sink task.blocks)

def confirmed : List Batch := confirmedBatches (attempts (task.run nbytes sink).events)

def returned : Option TaskResult := (task.run nbytes sink).result.toOption

variable {nbytes} {sink} {task}

theorem batches_run : (task.run nbytes sink).batches =
    (attempts (task.run nbytes sink).events).map fun attempt => attempt.1.batch := by
  unfold WriteRun.batches
  rw [← attempts_requests, List.map_map]
  rfl

theorem batches_planned : (task.run nbytes sink).batches <+: task.planned nbytes sink := by
  have haccounted : Accounted nbytes sink task.blocks (task.run nbytes sink) :=
    write_accounted task.server.toInsertServer sink task.blocks
  obtain ⟨-, k, hbatches⟩ := haccounted.once
  rw [hbatches, List.map_take, flatMap_canonicalPlaces]
  exact List.take_prefix k _

/-- The table gains the confirmed batches, in order from the first, or these and any part
of the one that follows them. -/
theorem taken_cases (nbytes : Batch → ℕ) (sink : ClickHouseDataSink) (task : WriteTask) :
    (task.taken nbytes sink = (task.confirmed nbytes sink).map Batch.rows ∧
      task.confirmed nbytes sink = (task.run nbytes sink).batches) ∨
    ∃ next kept, task.confirmed nbytes sink ++ [next] = (task.run nbytes sink).batches ∧
      task.taken nbytes sink =
        (task.confirmed nbytes sink).map Batch.rows ++ [keptRows kept next.rows] := by
  have haccounted : Accounted nbytes sink task.blocks (task.run nbytes sink) :=
    write_accounted task.server.toInsertServer sink task.blocks
  have hanswered : Answered task.server.toInsertServer []
      (attempts (task.run nbytes sink).events) :=
    write_answered nbytes task.server.toInsertServer sink task.blocks
  rw [batches_run]
  unfold taken confirmed
  rcases attempts_halt haccounted.halts with hall | ⟨done, last, hsplit, hlast, hdone⟩
  · left
    have hconfirmed : confirmedBatches (attempts (task.run nbytes sink).events) =
        (attempts (task.run nbytes sink).events).map fun attempt => attempt.1.batch := by
      unfold confirmedBatches
      rw [List.filter_eq_self.mpr fun a ha => isConfirmed_iff.mpr (hall a ha)]
    refine ⟨?_, hconfirmed⟩
    rw [takenRows_confirmed hanswered hall, hconfirmed, List.map_map]
    rfl
  · right
    rw [hsplit] at hanswered ⊢
    have hconfirmed : confirmedBatches (done ++ [last]) = done.map fun attempt => attempt.1.batch := by
      unfold confirmedBatches
      rw [List.filter_append, List.filter_eq_self.mpr fun a ha => isConfirmed_iff.mpr (hdone a ha),
        List.filter_cons_of_neg (by rw [hlast]; exact Bool.false_ne_true), List.filter_nil,
        List.append_nil]
    refine ⟨last.1.batch, task.server.keeps ([] ++ done.map Prod.fst) last.1, ?_, ?_⟩
    · rw [hconfirmed, List.map_append]
      rfl
    · rw [takenRows_append, takenRows_confirmed (answered_of_append hanswered) hdone, hconfirmed,
        List.map_map]
      rfl

theorem confirmed_planned : task.confirmed nbytes sink <+: task.planned nbytes sink := by
  refine List.IsPrefix.trans ?_ batches_planned
  rcases taken_cases nbytes sink task with ⟨-, hall⟩ | ⟨next, kept, hnext, -⟩
  · rw [hall]
  · rw [← hnext]
    exact List.prefix_append _ _

/-- The rows of confirmed batches are in the table, and only rows of planned batches. -/
theorem taken_between :
    ((task.confirmed nbytes sink).flatMap Batch.rows).Sublist (task.taken nbytes sink).flatten ∧
      (task.taken nbytes sink).flatten.Sublist
        ((task.planned nbytes sink).flatMap Batch.rows) := by
  obtain ⟨more, hmore⟩ : task.confirmed nbytes sink <+: _ := confirmed_planned
  obtain ⟨rest, hrest⟩ : (task.run nbytes sink).batches <+: _ := batches_planned
  rcases taken_cases nbytes sink task with ⟨htaken, -⟩ | ⟨next, kept, hnext, htaken⟩
  · rw [htaken, ← List.flatMap_def, ← hmore, List.flatMap_append]
    exact ⟨List.Sublist.refl _, List.sublist_append_left _ _⟩
  · rw [htaken, List.flatten_append, ← List.flatMap_def, ← hrest, ← hnext, List.flatMap_append,
      List.flatMap_append, List.flatten_singleton, List.flatMap_singleton]
    refine ⟨List.sublist_append_left _ _, ?_⟩
    exact ((List.Sublist.refl _).append (keptRows_sublist kept next.rows)).trans
      (List.sublist_append_left _ _)

theorem confirmed_of_clean (h : ∀ e ∈ (task.run nbytes sink).events, e.failed = false) :
    task.confirmed nbytes sink = (task.run nbytes sink).batches := by
  unfold confirmed confirmedBatches
  rw [batches_run, List.filter_eq_self.mpr ?_]
  intro attempt hattempt
  obtain ⟨e, he, hsome⟩ := List.mem_filterMap.mp hattempt
  have hclean := h e he
  cases e with
  | inserted sent outcome =>
    obtain ⟨request, -, rfl⟩ := Option.map_eq_some_iff.mp hsome
    simpa [WriteEvent.failed, isConfirmed] using hclean
  | started outcome => contradiction
  | prepared outcome => contradiction
  | closed outcome => contradiction

/-- Of a task that returns, the table gains the rows of all its blocks. -/
theorem taken_of_returned {result : TaskResult} (h : task.returned nbytes sink = some result) :
    task.confirmed nbytes sink = task.planned nbytes sink ∧
      task.taken nbytes sink = (task.planned nbytes sink).map Batch.rows ∧
      ∃ projected, List.Forall₂ (Projects sink task.blocks) task.blocks projected ∧
        (task.planned nbytes sink).flatMap Batch.rows = projected.flatMap ArrowTable.rows ∧
        result = ⟨((task.taken nbytes sink).flatten).length,
          ((task.planned nbytes sink).map nbytes).sum, (task.taken nbytes sink).length,
          "confirmed"⟩ := by
  have hresult : (task.run nbytes sink).result = .ok result := by
    unfold returned at h
    cases hrun : (task.run nbytes sink).result with
    | ok other =>
      rw [hrun] at h
      rw [Option.some.inj h]
    | error failure =>
      rw [hrun] at h
      contradiction
  have haccounted : Accounted nbytes sink task.blocks (task.run nbytes sink) :=
    write_accounted task.server.toInsertServer sink task.blocks
  obtain ⟨-, hclean⟩ := haccounted.returns.mp ⟨result, hresult⟩
  obtain ⟨hbatches, projected, hprojects, hrows, hcounts⟩ := haccounted.complete result hresult
  rw [flatMap_canonicalPlaces] at hbatches
  have hplanned : (task.run nbytes sink).batches = task.planned nbytes sink := hbatches
  have hconfirmed : task.confirmed nbytes sink = (task.run nbytes sink).batches :=
    confirmed_of_clean hclean
  have htaken : task.taken nbytes sink = (task.planned nbytes sink).map Batch.rows := by
    rcases taken_cases nbytes sink task with ⟨htaken, hall⟩ | ⟨next, kept, hnext, -⟩
    · rw [htaken, hall, hplanned]
    · rw [← hconfirmed] at hnext
      simp at hnext
  refine ⟨hconfirmed.trans hplanned, htaken, projected, hprojects, ?_, ?_⟩
  · rw [← hplanned, hrows]
  · rw [hcounts, htaken, ← List.flatMap_def, List.length_map, ← hplanned, hrows]

theorem length_taken : (task.taken nbytes sink).length ≤ (task.confirmed nbytes sink).length +
    (if (task.returned nbytes sink).isSome then 0 else 1) := by
  cases hreturned : task.returned nbytes sink with
  | none =>
    rcases taken_cases nbytes sink task with ⟨htaken, -⟩ | ⟨next, kept, -, htaken⟩
    · simp [htaken]
    · simp [htaken]
  | some result =>
    obtain ⟨hconfirmed, htaken, -⟩ := taken_of_returned hreturned
    simp [hconfirmed, htaken]

end WriteTask

end Task

section Start

variable {server : TableServer} {sink : ClickHouseDataSink} {store : Option StoredTable}

/-- The count that the server gives tells whether the table is there. -/
def Counts (server : TableServer) (store : Option StoredTable) : Prop :=
  ∀ count, server.tableCount = .ok count → (count.getD 0 ≠ 0 ↔ store.isSome = true)

/-- A creation that succeeds leaves a table without rows. -/
theorem manage_empty {mode : WriteMode} {table : QualifiedTable} {statement : CreateTable}
    (hmode : mode ≠ .append) (hcounts : Counts server store)
    (hok : (manage server mode table statement store).result = .ok ()) :
    (manage server mode table statement store).store =
      some ⟨statement.engine, statement.columns, []⟩ := by
  cases hcount : server.tableCount with
  | error e =>
    unfold manage at hok
    simp only [hcount] at hok
    contradiction
  | ok count =>
    by_cases hfound : count.getD 0 ≠ 0
    · cases mode with
      | append => exact absurd rfl hmode
      | create =>
        unfold manage at hok
        simp only [hcount] at hok
        rw [if_pos (by simp [hfound])] at hok
        contradiction
      | overwrite =>
        cases count with
        | none => exact absurd rfl hfound
        | some n => exact (manage_found hcount hfound).2.2 hok
    · have hnone : store = none := by
        rw [← Option.not_isSome_iff_eq_none, ← hcounts count hcount]
        exact hfound
      have hcreate : manage server mode table statement store =
          createTable server mode table statement false [.opened, .counted] store := by
        unfold manage
        simp only [hcount]
        rw [if_neg (by simp [hfound]), if_neg (by simp [hfound])]
      rw [hcreate, hnone] at hok ⊢
      rw [createTable_result] at hok
      unfold createTable send
      cases hanswer : server.create with
      | none => rfl
      | some e =>
        rw [hanswer] at hok
        contradiction

theorem management_empty {schema : ArrowSchema} (hmode : sink.writeMode ≠ .append)
    (hcounts : Counts server store) (hok : (sink.management server schema store).result = .ok ()) :
    ∃ stored, (sink.management server schema store).store = some stored ∧ stored.rows = [] := by
  unfold ClickHouseDataSink.management at hok ⊢
  cases hstatement : checkedStatement sink.writeMode sink.table schema sink.engine sink.orderBy
      sink.nullableColumns with
  | error failure =>
    rw [createOrReplaceTable_of_error hstatement] at hok
    contradiction
  | ok statement =>
    cases hopen : server.openManagement with
    | some e =>
      rw [createOrReplaceTable_of_closed hstatement hopen] at hok
      contradiction
    | none =>
      rw [createOrReplaceTable_of_open hstatement hopen, closeManagement_eq] at hok ⊢
      exact ⟨_, manage_empty hmode hcounts hok, rfl⟩

variable [UnicodeDatabase]

/-- Only a table that is there is planned for. -/
theorem planTarget_stored {schema : Option ArrowSchema}
    (h : (sink.planTarget server schema store).2 = .ok ()) : ∃ stored, store = some stored := by
  cases store with
  | some stored => exact ⟨stored, rfl⟩
  | none =>
    exfalso
    have hengine : ∀ engine, discoverEngine server sink.table none ≠ .ok engine := by
      intro engine
      unfold discoverEngine
      cases server.openEngine with
      | some e => simp
      | none =>
        cases server.engineQuery with
        | some e => simp
        | none => simp [Outcome.raise]
    have htarget : ∀ target, discoverTarget server sink.table none ≠ .ok target := by
      intro target htarget
      unfold discoverTarget at htarget
      cases hopen : server.openTarget with
      | some e =>
        rw [hopen] at htarget
        contradiction
      | none =>
        rw [hopen] at htarget
        obtain ⟨engine, hfound, -⟩ := Except.bind_eq_ok.mp htarget
        exact hengine engine hfound
    unfold ClickHouseDataSink.planTarget at h
    cases hdiscovered : discoverTarget server sink.table none with
    | ok target => exact htarget target hdiscovered
    | error failure =>
      rw [hdiscovered] at h
      contradiction

/-- A start that succeeds leaves a table: the one that was there, for an append, or else
one without rows. -/
theorem onWriteStart_stored {schema : Option ArrowSchema}
    (hcounts : sink.writeMode ≠ .append → Counts server store)
    (h : (sink.onWriteStart server schema store).result = .ok ()) :
    ∃ stored, (sink.onWriteStart server schema store).store = some stored ∧
      (sink.writeMode = .append → store = some stored) ∧
      (sink.writeMode ≠ .append → stored.rows = []) := by
  by_cases hmode : sink.writeMode = .append
  · have hstart : sink.onWriteStart server schema store =
        ⟨(sink.planTarget server schema store).1, store, [],
          (sink.planTarget server schema store).2⟩ := by
      unfold ClickHouseDataSink.onWriteStart
      rw [if_pos hmode]
      rfl
    rw [hstart] at h ⊢
    obtain ⟨stored, hstored⟩ := planTarget_stored h
    exact ⟨stored, hstored, fun _ => hstored, fun hother => absurd hmode hother⟩
  · cases schema with
    | none =>
      unfold ClickHouseDataSink.onWriteStart at h
      rw [if_neg hmode] at h
      contradiction
    | some source =>
      have hstart : (sink.onWriteStart server (some source) store).store =
            (sink.management server source store).store ∧
          ((sink.onWriteStart server (some source) store).result = .ok () →
            (sink.management server source store).result = .ok ()) := by
        unfold ClickHouseDataSink.onWriteStart ClickHouseDataSink.management
        rw [if_neg hmode]
        simp only
        split
        · next failure hfailure =>
          refine ⟨rfl, fun hok => ?_⟩
          contradiction
        · next hmanaged => exact ⟨rfl, fun _ => hmanaged⟩
      obtain ⟨stored, hstored, hempty⟩ := management_empty hmode (hcounts hmode) (hstart.2 h)
      exact ⟨stored, hstart.1.trans hstored, fun hother => absurd hother hmode, fun _ => hempty⟩

end Start

section Job

variable [UnicodeDatabase] (nbytes : Batch → ℕ) (sink : ClickHouseDataSink)
  (tasks : List WriteTask)

def jobReceipt (log : List (List Row)) : WriteReceipt where
  rowsWritten := log.flatten.length
  bytesWritten := ((tasks.flatMap fun task => task.planned nbytes sink).map nbytes).sum
  batchesWritten := log.length

/-- What the requests of a job, in the order they reached the server, add to the table. -/
structure JobStored (log : List (List Row)) : Prop where
  /-- No confirmed batch is missing. -/
  confirmed : (tasks.flatMap fun task => (task.confirmed nbytes sink).flatMap Batch.rows).Subperm
    log.flatten
  /-- No row is added that is not in a block, and none twice. -/
  planned : log.flatten.Subperm
    (tasks.flatMap fun task => (task.planned nbytes sink).flatMap Batch.rows)
  /-- Each task that raised adds at most one batch that is not confirmed. -/
  excess : log.length ≤ (tasks.flatMap fun task => task.confirmed nbytes sink).length +
    tasks.countP fun task => (task.returned nbytes sink).isNone
  /-- When every task returned, the rows are those of the projected blocks, and the receipt
  counts them. -/
  complete : (∀ task ∈ tasks, (task.returned nbytes sink).isSome = true) →
    (∃ projected, List.Forall₂
      (fun (task : WriteTask) => List.Forall₂ (Projects sink task.blocks) task.blocks)
      tasks projected ∧ log.flatten.Perm (projected.flatten.flatMap ArrowTable.rows)) ∧
    sink.onWriteComplete
        (some (tasks.map fun task => TaskReturn.ofResult (task.returned nbytes sink))) =
      .ok { sink with receipt := some (jobReceipt nbytes sink tasks log) }

variable {nbytes} {sink} {tasks} {log : List (List Row)}

/-- The projected blocks of tasks that all returned, and their results. -/
theorem exists_job_projected
    (h : ∀ task ∈ tasks, (task.returned nbytes sink).isSome = true) :
    ∃ projected, List.Forall₂
        (fun (task : WriteTask) => List.Forall₂ (Projects sink task.blocks) task.blocks)
        tasks projected ∧
      (tasks.flatMap fun task => (task.taken nbytes sink).flatten) =
        projected.flatten.flatMap ArrowTable.rows := by
  induction tasks with
  | nil => exact ⟨[], List.Forall₂.nil, rfl⟩
  | cons task rest ih =>
    obtain ⟨hfirst, hrest⟩ := List.forall_mem_cons.mp h
    obtain ⟨result, hresult⟩ := Option.isSome_iff_exists.mp hfirst
    obtain ⟨-, htaken, tables, htables, hrows, -⟩ := WriteTask.taken_of_returned hresult
    obtain ⟨projected, hall, hmore⟩ := ih hrest
    refine ⟨tables :: projected, List.Forall₂.cons htables hall, ?_⟩
    rw [List.flatMap_cons, hmore, htaken, ← List.flatMap_def, hrows, List.flatten_cons,
      List.flatMap_append]

/-- The receipt of tasks that all returned. -/
theorem receiptOf_returned
    (h : ∀ task ∈ tasks, (task.returned nbytes sink).isSome = true) :
    receiptOf (tasks.map (WriteTask.returned nbytes sink)).reduceOption =
      jobReceipt nbytes sink tasks (tasks.flatMap fun task => task.taken nbytes sink) := by
  induction tasks with
  | nil => rfl
  | cons task rest ih =>
    obtain ⟨hfirst, hrest⟩ := List.forall_mem_cons.mp h
    obtain ⟨result, hresult⟩ := Option.isSome_iff_exists.mp hfirst
    obtain ⟨-, -, -, -, -, hcounts⟩ := WriteTask.taken_of_returned hresult
    have hmore := ih hrest
    unfold receiptOf jobReceipt at hmore ⊢
    obtain ⟨hrows, hbytes, hbatches, -, -⟩ := WriteReceipt.mk.inj hmore
    rw [List.map_cons, hresult, List.reduceOption_cons_of_some]
    simp only [List.map_cons, List.sum_cons, hrows, hbytes, hbatches, hcounts, List.flatMap_cons,
      List.length_append, List.map_append, List.sum_append, List.flatten_append, Nat.cast_add]

theorem length_flatMap_taken (tasks : List WriteTask) :
    (tasks.flatMap fun task => task.taken nbytes sink).length ≤
      (tasks.flatMap fun task => task.confirmed nbytes sink).length +
        tasks.countP fun task => (task.returned nbytes sink).isNone := by
  induction tasks with
  | nil => exact le_refl 0
  | cons task rest ih =>
    have hfirst : (task.taken nbytes sink).length ≤ _ := WriteTask.length_taken
    rw [List.flatMap_cons, List.flatMap_cons, List.length_append, List.length_append,
      List.countP_cons]
    cases hreturned : task.returned nbytes sink with
    | none =>
      simp only [hreturned, Option.isSome_none, Option.isNone_none] at hfirst ⊢
      simp only [Bool.false_eq_true, if_false, if_true] at hfirst ⊢
      omega
    | some result =>
      simp only [hreturned, Option.isSome_some, Option.isNone_some] at hfirst ⊢
      simp only [Bool.false_eq_true, if_false, if_true] at hfirst ⊢
      omega

theorem job_stored (h : Interleaves (tasks.map (WriteTask.taken nbytes sink)) log) :
    JobStored nbytes sink tasks log := by
  have hlog : log.Perm (tasks.flatMap fun task => task.taken nbytes sink) := by
    rw [List.flatMap_def]
    exact h.perm
  have hrows : log.flatten.Perm (tasks.flatMap fun task => (task.taken nbytes sink).flatten) := by
    refine hlog.flatten.trans ?_
    rw [List.flatMap_def, List.flatMap_def, List.flatten_flatten, List.map_map]
    rfl
  refine ⟨?_, ?_, ?_, ?_⟩
  · exact (List.Sublist.flatMap_right tasks fun task _ => WriteTask.taken_between.1).subperm.trans
      hrows.symm.subperm
  · exact hrows.subperm.trans
      (List.Sublist.flatMap_right tasks fun task _ => WriteTask.taken_between.2).subperm
  · rw [hlog.length_eq]
    exact length_flatMap_taken tasks
  · intro hall
    obtain ⟨projected, hprojects, hprojected⟩ := exists_job_projected hall
    refine ⟨⟨projected, hprojects, ?_⟩, ?_⟩
    · rw [← hprojected]
      exact hrows
    · have hreceipt : jobReceipt nbytes sink tasks log =
          jobReceipt nbytes sink tasks (tasks.flatMap fun task => task.taken nbytes sink) := by
        unfold jobReceipt
        rw [hlog.length_eq, hlog.flatten.length_eq]
      rw [hreceipt, ← receiptOf_returned hall, ← onWriteComplete_ofResult, List.map_map]
      rfl

end Job

end RayClickHouse.WriteJobs
