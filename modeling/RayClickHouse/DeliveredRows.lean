import RayClickHouse.SharedBudget
import RayClickHouse.StaticReads

/-!
What the consumers of a read receive. A task hands over the rows of its scans in
order, up to an error, its row limit or the point at which its consumer stops.
On tables that do not change no row of a read is handed over twice and no other
row at all; tasks that run to their end without a limit hand over all of them.
-/
namespace RayClickHouse.DeliveredRows

open Text Predicates Planning GroupedReads Generators Datasource StaticReads

section Bodies

variable {ρ ε : Type}

/-- The read function of a task: of its one scan, or of a group of scans under one limit. -/
inductive TaskRead (ρ ε : Type)
  | one (stream : ScanStream ρ ε)
  | group (streams : List (ScanStream ρ ε)) (rowLimit : Option ℤ)

def forwardBlocks (failure : Option ε) : List (List ρ) → Body (Exit ε) (Event ρ) Unit
  | [] =>
      match failure with
      | some e => Body.raise (.raised e)
      | none => pure ()
  | block :: rest => do
      Body.yields .generatorExit (.yielded block)
      forwardBlocks failure rest

def readFn (stream : ScanStream ρ ε) : Body (Exit ε) (Event ρ) Unit := do
  Body.emit (.opened 0)
  (forwardBlocks stream.failure stream.blocks).finalize (Body.emit (.closed 0))

namespace TaskRead

def streams : TaskRead ρ ε → List (ScanStream ρ ε)
  | one stream => [stream]
  | group streams _ => streams

def ownLimit : TaskRead ρ ε → Option ℤ
  | one _ => none
  | group _ rowLimit => rowLimit

def run (pulls : ℕ) : TaskRead ρ ε → Except (Exit ε) Unit × List (Event ρ)
  | one stream => consume .generatorExit (readFn stream) pulls
  | group streams rowLimit => GroupedReads.groupReadTasks streams rowLimit pulls

/-- The rows handed over to a consumer that pulls a number of times. -/
def delivered (read : TaskRead ρ ε) (pulls : ℕ) : List ρ :=
  (yieldedBlocks (read.run pulls).2).flatten

end TaskRead

end Bodies

section Runs

variable {ρ ε : Type} {failure : Option ε} {blocks : List (List ρ)} {stream : ScanStream ρ ε}

def forwardResult (failure : Option ε) : Except (Exit ε) Unit :=
  failure.elim (.ok ()) fun e => .error (.raised e)

theorem run_forwardBlocks (failure : Option ε) (blocks : List (List ρ)) (pulls : ℕ) :
    (blocks.length ≤ pulls → (forwardBlocks failure blocks).run pulls =
      (forwardResult failure, pulls - blocks.length, blocks.map .yielded)) ∧
    (pulls < blocks.length → (forwardBlocks failure blocks).run pulls =
      (.error .generatorExit, 0, (blocks.take (pulls + 1)).map .yielded)) := by
  induction blocks generalizing pulls with
  | nil =>
    refine ⟨fun _ => ?_, fun hlt => absurd hlt (Nat.not_lt_zero _)⟩
    cases failure <;> rfl
  | cons block rest ih =>
    cases pulls with
    | zero =>
      refine ⟨fun hle => absurd hle (by simp), fun _ => ?_⟩
      rw [forwardBlocks, Body.run_bind_error _ (Body.run_yields_last _ _)]
      rfl
    | succ left =>
      have hstep : (Body.yields .generatorExit (.yielded block) :
          Body (Exit ε) (Event ρ) Unit).run (left + 1) = (.ok (), left, [.yielded block]) :=
        Body.run_yields_succ _ _
      refine ⟨fun hle => ?_, fun hlt => ?_⟩
      · rw [forwardBlocks, Body.run_bind_ok _ hstep, (ih left).1 (by simpa using hle)]
        simp only [List.length_cons, Nat.add_sub_add_right, List.map_cons, List.singleton_append]
      · rw [forwardBlocks, Body.run_bind_ok _ hstep, (ih left).2 (by simpa using hlt)]
        simp only [List.take_succ_cons, List.map_cons, List.singleton_append]

theorem yieldedBlocks_section (index : ℕ) (blocks : List (List ρ)) :
    yieldedBlocks (.opened index :: (blocks.map .yielded ++ [.closed index])) = blocks := by
  have hsection := yieldedBlocks_bracketed index [blocks]
  rwa [List.flatten_singleton] at hsection

/-- The rows a task hands over begin what it hands over when its consumer goes on; it ends well
only when nothing failed or its limit is used up. -/
structure HandsOver (read : TaskRead ρ ε) (pulls : ℕ) (total : List (List ρ)) : Prop where
  rows : total.flatten = firstRows read.ownLimit (rowsBeforeError read.streams)
  taken : yieldedBlocks (read.run pulls).2 <+: total
  finished : (read.run pulls).1 = .ok () → yieldedBlocks (read.run pulls).2 = total ∧
    (firstError read.streams = none ∨
      exhausted (spend read.ownLimit (rowsBeforeError read.streams).length) = true)

/-- The read of one scan with its stream closed at the end. -/
theorem run_readFn (stream : ScanStream ρ ε) (pulls : ℕ) :
    (stream.blocks.length ≤ pulls → ((readFn stream).run pulls).1 = forwardResult stream.failure ∧
      yieldedBlocks ((readFn stream).run pulls).2.2 = stream.blocks) ∧
    (pulls < stream.blocks.length → ((readFn stream).run pulls).1 = .error .generatorExit ∧
      yieldedBlocks ((readFn stream).run pulls).2.2 = stream.blocks.take (pulls + 1)) := by
  have hopen : (Body.emit (.opened 0) : Body (Exit ε) (Event ρ) Unit).run pulls =
      (.ok (), pulls, [.opened 0]) := rfl
  obtain ⟨hall, hsome⟩ := run_forwardBlocks stream.failure stream.blocks pulls
  constructor
  · intro hle
    rw [readFn, Body.run_bind_ok _ hopen, Body.run_finalize (hall hle) (Body.run_emit _)]
    exact ⟨rfl, yieldedBlocks_section 0 stream.blocks⟩
  · intro hlt
    rw [readFn, Body.run_bind_ok _ hopen, Body.run_finalize (hsome hlt) (Body.run_emit _)]
    exact ⟨rfl, yieldedBlocks_section 0 _⟩

theorem one_handsOver (stream : ScanStream ρ ε) (pulls : ℕ) :
    HandsOver (.one stream) pulls stream.blocks := by
  have hrows : stream.blocks.flatten = firstRows none (rowsBeforeError [stream]) := by
    simp [firstRows, rowsBeforeError]
  cases pulls with
  | zero => exact ⟨hrows, List.nil_prefix, fun h => by cases h⟩
  | succ pulls =>
    have htaken : yieldedBlocks ((TaskRead.one stream).run (pulls + 1)).2 =
        yieldedBlocks ((readFn stream).run pulls).2.2 := rfl
    have hresult : ((TaskRead.one stream).run (pulls + 1)).1 = ((readFn stream).run pulls).1 := rfl
    obtain ⟨hall, hsome⟩ := run_readFn stream pulls
    by_cases hle : stream.blocks.length ≤ pulls
    · obtain ⟨hend, hblocks⟩ := hall hle
      refine ⟨hrows, ?_, ?_⟩
      · rw [htaken, hblocks]
      · rw [hresult, htaken, hblocks, hend]
        intro hok
        refine ⟨rfl, Or.inl ?_⟩
        cases hfailure : stream.failure with
        | none => simp [firstError, TaskRead.streams, hfailure]
        | some e =>
          rw [hfailure] at hok
          cases hok
    · obtain ⟨hend, hblocks⟩ := hsome (by omega)
      refine ⟨hrows, ?_, ?_⟩
      · rw [htaken, hblocks]
        exact List.take_prefix _ _
      · rw [hresult, hend]
        intro hok
        cases hok

theorem exhausted_of_groupResult {streams : List (ScanStream ρ ε)} {limit : Option ℤ}
    (h : groupResult streams limit = .ok ()) : firstError streams = none ∨
      exhausted (spend limit (rowsBeforeError streams).length) = true := by
  unfold groupResult at h
  cases hfirst : firstError streams with
  | none => exact Or.inl rfl
  | some e =>
    rw [hfirst] at h
    simp only at h
    split at h
    · rename_i hexhausted
      exact Or.inr hexhausted
    · cases h

theorem group_handsOver (streams : List (ScanStream ρ ε)) (limit : Option ℤ) (pulls : ℕ) :
    ∃ total, HandsOver (.group streams limit) pulls total := by
  obtain ⟨sections, hbudget, hsees⟩ := readScans_sees streams 0 limit
  refine ⟨sections.flatten, ?_⟩
  cases pulls with
  | zero => exact ⟨hbudget.rows_eq, List.nil_prefix, fun h => by cases h⟩
  | succ pulls =>
    have htaken : yieldedBlocks ((TaskRead.group streams limit).run (pulls + 1)).2 =
        yieldedBlocks ((readScans streams 0 limit).run pulls).2.2 := rfl
    have hresult : ((TaskRead.group streams limit).run (pulls + 1)).1 =
        ((readScans streams 0 limit).run pulls).1 := rfl
    by_cases hle : sections.flatten.length ≤ pulls
    · have hrun := (hsees pulls).1 hle
      refine ⟨hbudget.rows_eq, ?_, ?_⟩
      · rw [htaken, hrun, yieldedBlocks_bracketed]
      · rw [hresult, htaken, hrun, yieldedBlocks_bracketed]
        exact fun hok => ⟨rfl, exhausted_of_groupResult hok⟩
    · obtain ⟨seen, hrun, hflatten, -⟩ := (hsees pulls).2 (by omega)
      refine ⟨hbudget.rows_eq, ?_, ?_⟩
      · rw [htaken, hrun, yieldedBlocks_bracketed, hflatten]
        exact List.take_prefix _ _
      · rw [hresult, hrun]
        intro hok
        cases hok

theorem exists_handsOver (read : TaskRead ρ ε) (pulls : ℕ) : ∃ total, HandsOver read pulls total := by
  cases read with
  | one stream => exact ⟨stream.blocks, one_handsOver stream pulls⟩
  | group streams limit => exact group_handsOver streams limit pulls

end Runs

section Served

variable {ρ ε : Type} (v : Sql.RowView ρ)
variable (stored : ClickHouseConnection → QualifiedTable → Multiset ρ)

/-- The stream of a scan delivers rows that the scan keeps, all of them unless it fails. -/
structure Serves (scan : Scan) (stream : ScanStream ρ ε) : Prop where
  rows : (stream.blocks.flatten : Multiset ρ) ≤ scan.rows v stored
  complete : stream.failure = none → (stream.blocks.flatten : Multiset ρ) = scan.rows v stored

/-- A task and the read that performs it: its one scan, or its scans in order under its limit. -/
inductive Performs : ReadTask → TaskRead ρ ε → Prop
  | one {task : ReadTask} {scan : Scan} {stream : ScanStream ρ ε} (hscan : task.scans = [scan])
      (hserved : Serves v stored scan stream) : Performs task (.one stream)
  | group {task : ReadTask} {streams : List (ScanStream ρ ε)}
      (hserved : List.Forall₂ (Serves v stored) task.scans streams) :
      Performs task (.group streams task.perTaskRowLimit)

variable {v stored} {task : ReadTask} {read : TaskRead ρ ε}

theorem Performs.served (h : Performs v stored task read) :
    List.Forall₂ (Serves v stored) task.scans read.streams := by
  cases h with
  | one hscan hserved =>
    rw [hscan]
    exact List.Forall₂.cons hserved List.Forall₂.nil
  | group hserved => exact hserved

theorem rowsBeforeError_le {scans : List Scan} {streams : List (ScanStream ρ ε)}
    (h : List.Forall₂ (Serves v stored) scans streams) :
    (rowsBeforeError streams : Multiset ρ) ≤ (scans.map (Scan.rows v stored)).sum := by
  induction h with
  | nil => exact le_rfl
  | @cons scan stream scans streams hserved _ ih =>
    rw [rowsBeforeError, List.map_cons, List.sum_cons, ← Multiset.coe_add]
    apply add_le_add hserved.rows
    split
    · exact Multiset.zero_le _
    · exact ih

theorem rowsBeforeError_eq {scans : List Scan} {streams : List (ScanStream ρ ε)}
    (h : List.Forall₂ (Serves v stored) scans streams) (hnone : firstError streams = none) :
    (rowsBeforeError streams : Multiset ρ) = (scans.map (Scan.rows v stored)).sum := by
  induction h with
  | nil => rfl
  | @cons scan stream scans streams hserved _ ih =>
    unfold firstError at hnone
    rw [List.findSome?_cons] at hnone
    cases hfailure : stream.failure with
    | some e => simp [hfailure] at hnone
    | none =>
      rw [hfailure] at hnone
      rw [rowsBeforeError, List.map_cons, List.sum_cons, ← Multiset.coe_add,
        hserved.complete hfailure, hfailure]
      simp only [Option.isSome_none, Bool.false_eq_true, if_false]
      rw [ih hnone]

theorem firstRows_initial (limit : Option ℤ) (rows : List ρ) : firstRows limit rows <+: rows := by
  cases limit with
  | none => exact List.prefix_rfl
  | some left => exact List.take_prefix _ _

theorem length_firstRows (left : ℤ) (rows : List ρ) :
    (firstRows (some left) rows).length = min left.toNat rows.length := List.length_take

variable (v stored) in
/-- What a consumer of one task receives, however often it pulls and however the task ends. -/
structure Received (task : ReadTask) (read : TaskRead ρ ε) (pulls : ℕ) : Prop where
  rows : (read.delivered pulls : Multiset ρ) ≤ task.rows v stored
  complete : (read.run pulls).1 = .ok () → read.ownLimit = none →
    (read.delivered pulls : Multiset ρ) = task.rows v stored
  limited : ∀ left, read.ownLimit = some left → (read.delivered pulls).length ≤ left.toNat
  spent : ∀ left, read.ownLimit = some left → (read.run pulls).1 = .ok () →
    (read.delivered pulls).length = min left.toNat (task.rows v stored).card

theorem Performs.received (h : Performs v stored task read) (pulls : ℕ) :
    Received v stored task read pulls := by
  obtain ⟨total, hover⟩ := exists_handsOver read pulls
  have hprefix : read.delivered pulls <+: total.flatten := by
    obtain ⟨rest, hrest⟩ := hover.taken
    rw [← hrest, List.flatten_append]
    exact List.prefix_append _ _
  have hbefore := rowsBeforeError_le h.served
  have hwhole : read.delivered pulls <+: rowsBeforeError read.streams := by
    rw [hover.rows] at hprefix
    exact hprefix.trans (firstRows_initial _ _)
  have hrows : (read.delivered pulls : Multiset ρ) ≤ task.rows v stored :=
    le_trans (Multiset.coe_le.mpr hwhole.sublist.subperm) hbefore
  have hfinished : (read.run pulls).1 = .ok () →
      read.delivered pulls = firstRows read.ownLimit (rowsBeforeError read.streams) := by
    intro hok
    obtain ⟨htotal, -⟩ := hover.finished hok
    rw [← hover.rows, ← htotal]
    rfl
  refine ⟨hrows, ?_, ?_, ?_⟩
  · intro hok hnone
    obtain ⟨-, hend⟩ := hover.finished hok
    rw [hfinished hok, hnone]
    apply rowsBeforeError_eq h.served
    rw [hnone] at hend
    simpa [exhausted, spend] using hend
  · intro left hleft
    rw [hover.rows, hleft] at hprefix
    have hlength := hprefix.length_le
    rw [length_firstRows] at hlength
    omega
  · intro left hleft hok
    have hcard := Multiset.card_le_card hbefore
    rw [Multiset.coe_card] at hcard
    rw [hfinished hok, hleft, length_firstRows]
    obtain ⟨-, hnone | hexhausted⟩ := hover.finished hok
    · have hequal := rowsBeforeError_eq h.served hnone
      have hsame : (rowsBeforeError read.streams).length = (task.rows v stored).card := by
        rw [← Multiset.coe_card, hequal]
        rfl
      rw [hsame]
    · rw [hleft] at hexhausted
      have hle : left ≤ (rowsBeforeError read.streams).length := by
        simpa [exhausted, spend] using hexhausted
      have hsum : (rowsBeforeError read.streams).length ≤ (task.rows v stored).card := hcard
      omega

variable (v stored) in
def Performed (tasks : List ReadTask) (runs : List (TaskRead ρ ε × ℕ)) : Prop :=
  List.Forall₂ (fun task run => Performs v stored task run.1) tasks runs

def deliveredRows (runs : List (TaskRead ρ ε × ℕ)) : Multiset ρ :=
  (runs.map fun run => (run.1.delivered run.2 : Multiset ρ)).sum

variable {tasks : List ReadTask} {runs : List (TaskRead ρ ε × ℕ)}

theorem Performed.delivered_le (h : Performed v stored tasks runs) :
    deliveredRows runs ≤ (tasks.map (ReadTask.rows v stored)).sum := by
  unfold deliveredRows
  induction h with
  | nil => exact le_rfl
  | cons hrun _ ih =>
    rw [List.map_cons, List.map_cons, List.sum_cons, List.sum_cons]
    exact add_le_add (hrun.received _).rows ih

theorem Performed.delivered_eq (h : Performed v stored tasks runs)
    (hend : ∀ run ∈ runs, (run.1.run run.2).1 = .ok () ∧ run.1.ownLimit = none) :
    deliveredRows runs = (tasks.map (ReadTask.rows v stored)).sum := by
  unfold deliveredRows
  induction h with
  | nil => rfl
  | @cons task run tasks runs hrun _ ih =>
    obtain ⟨hok, hnone⟩ := hend run (List.mem_cons_self ..)
    rw [List.map_cons, List.map_cons, List.sum_cons, List.sum_cons,
      (hrun.received run.2).complete hok hnone,
      ih fun other hother => hend other (List.mem_cons_of_mem _ hother)]

end Served

section Delivery

variable [UnicodeDatabase] {ρ ε : Type} {db : StaticDatabase ρ} {ray : RayVersion}
variable {config : ReadConfig} {m : Member} {answers : Answers} {family : List Member}
variable {parallelism : ℤ} {limit : Option ℤ} {tasks : List ReadTask}
variable {after : ClickHouseDatasource} {runs : List (TaskRead ρ ε × ℕ)}

/-- On static tables the consumers of a member's tasks receive no row but those on which the
filter and every accepted expression hold, and none of them twice, whatever fails and wherever
they stop; they receive all of them when every task ends without a limit. -/
theorem delivered_reads (hlawful : db.Lawful) (h : StaticFamily db ray config family)
    (hm : m ∈ family) (htruthful : Truthful db m.datasource answers)
    (htasks : (ClickHouseDatasource.getReadTasks answers parallelism limit).call m.datasource =
      (.ok tasks, after))
    (hruns : Performed (viewOf db m.datasource) db.stored tasks runs) :
    deliveredRows runs ≤ wanted db config m.accepted ∧
      ((∀ run ∈ runs, (run.1.run run.2).1 = .ok () ∧ run.1.ownLimit = none) →
        deliveredRows runs = wanted db config m.accepted) ∧
      List.Forall₂ (fun task run => Received (viewOf db m.datasource) db.stored task run.1 run.2)
        tasks runs := by
  obtain ⟨hstatic, hsame, snapshot, source, hsnapshot, hsource, hlocal, hplan⟩ :=
    getReadTasks_static h hm htruthful htasks
  obtain ⟨hrows, -⟩ := plan_static hstatic hsnapshot hsource hlocal hplan
  rw [hsame.view, hsame.stored, hsame.config, hsame.pushedPredicate,
    select_wanted hlawful h hm] at hrows
  rw [← hrows]
  exact ⟨hruns.delivered_le, hruns.delivered_eq, hruns.imp fun _ run hrun => hrun.received run.2⟩

end Delivery

section Example

theorem performs_of_rows {ρ ε : Type} {v : Sql.RowView ρ}
    {stored : ClickHouseConnection → QualifiedTable → Multiset ρ} {task : ReadTask}
    {rows : List ρ} (h : task.scans.map (Scan.rows v stored) = [(rows : Multiset ρ)]) :
    Performs v stored task (.one (⟨[rows], none⟩ : ScanStream ρ ε)) := by
  obtain ⟨scan, hscan, hrows⟩ := List.map_eq_singleton_iff.mp h
  have hflatten : ([rows].flatten : Multiset ρ) = scan.rows v stored := by
    rw [hrows, List.flatten_singleton]
  exact .one hscan ⟨hflatten.le, fun _ => hflatten⟩

def wholeRead (rows : List ℤ) : TaskRead ℤ Text × ℕ := (.one ⟨[rows], none⟩, 2)

theorem delivered_reads_example :
    ∃ m ∈ keyFamily, ∃ tasks, (keyReads m).1 = .ok tasks ∧
      @Performed ℤ Text (@viewOf asciiDatabase _ keyDatabase (@Member.datasource asciiDatabase m))
        keyDatabase.stored tasks [wholeRead [5], wholeRead [7]] ∧
      deliveredRows [wholeRead [5], wholeRead [7]] = {5, 7} := by
  let _ := asciiDatabase
  have hcheck : keyFamily[1]?.any (fun m =>
      Outcome.check (keyReads m).1 (fun tasks => decide (tasks.map (fun task =>
        task.scans.map (Scan.rows (viewOf keyDatabase m.datasource) keyDatabase.stored)) =
          [[(([5] : List ℤ) : Multiset ℤ)], [(([7] : List ℤ) : Multiset ℤ)]])) &&
      decide (wanted keyDatabase (exampleConfig 'a') m.accepted = {5, 7})) = true := by
    decide +kernel
  rw [Option.any_eq_true] at hcheck
  obtain ⟨m, hm, hcheck⟩ := hcheck
  rw [Bool.and_eq_true, decide_eq_true_eq] at hcheck
  obtain ⟨tasks, htasks, hrows⟩ := Outcome.check_eq_true.mp hcheck.1
  have hmem := List.mem_of_getElem? hm
  have hcall : keyReads m = (.ok tasks, (keyReads m).2) := by
    rw [← htasks]
  obtain ⟨first, others, rfl, hfirst, hothers⟩ :=
    List.map_eq_cons_iff.mp (of_decide_eq_true hrows)
  obtain ⟨second, rfl, hsecond⟩ := List.map_eq_singleton_iff.mp hothers
  have hruns : Performed (viewOf keyDatabase m.datasource) keyDatabase.stored [first, second]
      [wholeRead [5], wholeRead [7]] :=
    List.Forall₂.cons (performs_of_rows hfirst)
      (List.Forall₂.cons (performs_of_rows hsecond) List.Forall₂.nil)
  have hreads := delivered_reads keyDatabase_lawful keyFamily_static hmem
    (keyAnswers_truthful m.datasource) hcall hruns
  refine ⟨m, hmem, _, htasks, hruns, ?_⟩
  rw [← hcheck.2]
  apply hreads.2.1
  intro run hrun
  have hcases : run = wholeRead [5] ∨ run = wholeRead [7] := by
    simpa using hrun
  rcases hcases with rfl | rfl <;> exact ⟨rfl, rfl⟩

end Example

end RayClickHouse.DeliveredRows
