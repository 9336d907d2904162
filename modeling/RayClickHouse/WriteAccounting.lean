import RayClickHouse.Datasink

/-!
What a write task inserts. The plan fixed by the driver or by the first block
determines the batches of every block; the inserted ones are a prefix of that
sequence, and all of it when the task returns.
-/
namespace RayClickHouse.WriteAccounting

open Text Schema Batches InsertSession FallibleLoop Datasink

section Totals

variable (nbytes : Batch → ℕ)

def totalsOf (bs : List Batch) : Totals :=
  ⟨(bs.flatMap Batch.rows).length, (bs.map nbytes).sum, bs.length⟩

theorem totalsOf_snoc (bs : List Batch) (b : Batch) :
    totalsOf nbytes (bs ++ [b]) = (totalsOf nbytes bs).confirm nbytes b := by
  simp only [totalsOf, Totals.confirm, List.flatMap_append, List.length_append, List.map_append,
    List.sum_append, List.flatMap_cons, List.flatMap_nil, List.append_nil, List.map_cons,
    List.map_nil, List.sum_cons, List.sum_nil, List.length_cons, List.length_nil, Batch.numRows]
  rfl

end Totals

section Plan

variable [UnicodeDatabase]

structure WritePlan where
  source : ArrowSchema
  columns : List TargetColumn

def WritePlan.prepare (plan : WritePlan) : Block → Outcome ArrowTable
  | .table t => prepareArrowTable t plan.source plan.columns
  | .notTable => Outcome.raise .write "not a table"
  | .raised failure => .error failure

/-- The plan the driver fixed, or else the one the first block fixes. -/
def writePlan (sink : ClickHouseDataSink) (blocks : List Block) : Outcome WritePlan :=
  match sink.target, sink.sourceSchema, sink.sourceColumns, blocks with
  | some _, some source, some columns, _ => .ok ⟨source, columns⟩
  | some target, none, _, .table t :: _ => do
      let columns ← validateSourceSchema t.schema target sink.columns
      .ok ⟨t.schema, columns⟩
  | _, _, _, _ => Outcome.raise .write "no plan"

def preparedBlock (sink : ClickHouseDataSink) (blocks : List Block) (block : Block) :
    Outcome ArrowTable := do
  let plan ← writePlan sink blocks
  plan.prepare block

/-- The sink during a run: the schema state is that of the plan, except before
the first block of a write without one. -/
def Planned (sink : ClickHouseDataSink) (blocks done : List Block)
    (current : ClickHouseDataSink) : Prop :=
  current.limits = sink.limits ∧
    ((done = [] ∧ current = sink) ∨
      ∃ plan, writePlan sink blocks = .ok plan ∧ current.sourceSchema = some plan.source ∧
        current.sourceColumns = some plan.columns)

section Block

variable {sink current : ClickHouseDataSink} {target : TargetTable} {blocks done rest : List Block}
  {block : Block}

theorem preparedBlock_of_plan {plan : WritePlan} (h : writePlan sink blocks = .ok plan) :
    preparedBlock sink blocks block = plan.prepare block := by
  unfold preparedBlock
  rw [h]
  rfl

theorem prepareTable_of_plan {plan : WritePlan} {t : ArrowTable}
    (hsource : current.sourceSchema = some plan.source)
    (hcolumns : current.sourceColumns = some plan.columns) :
    current.prepareTable t = plan.prepare (.table t) := by
  unfold ClickHouseDataSink.prepareTable
  rw [hsource, hcolumns]
  rfl

/-- Once the schema state is fixed, a block leaves the sink as it is. -/
theorem prepareBlock_of_plan {plan : WritePlan} (target : TargetTable) (block : Block)
    (hsource : current.sourceSchema = some plan.source)
    (hcolumns : current.sourceColumns = some plan.columns) :
    (current.prepareBlock target block).1 = current ∧
      ∀ prepared, (current.prepareBlock target block).2 = .ok prepared ↔
        plan.prepare block = .ok prepared := by
  cases block with
  | raised failure => simp [ClickHouseDataSink.prepareBlock, WritePlan.prepare]
  | notTable => simp [ClickHouseDataSink.prepareBlock, WritePlan.prepare, Outcome.raise]
  | table t =>
    have hfix : current.fixSource target t = (current, .ok ()) := by
      simp only [ClickHouseDataSink.fixSource, hsource]
    simp only [ClickHouseDataSink.prepareBlock, hfix, prepareTable_of_plan hsource hcolumns,
      implies_true, and_self]

theorem writePlan_of_state {source : ArrowSchema} {columns : List TargetColumn}
    (htarget : sink.target = some target) (hsource : sink.sourceSchema = some source)
    (hcolumns : sink.sourceColumns = some columns) :
    writePlan sink blocks = .ok ⟨source, columns⟩ := by
  simp only [writePlan, htarget, hsource, hcolumns]

/-- The code prepares the first block of a write without a plan as the plan that
this block fixes does. -/
theorem prepareBlock_first (htarget : sink.target = some target)
    (hsource : sink.sourceSchema = none) (hblocks : blocks = block :: rest) :
    (sink.prepareBlock target block).1.limits = sink.limits ∧
      (∀ prepared, (sink.prepareBlock target block).2 = .ok prepared ↔
        preparedBlock sink blocks block = .ok prepared) ∧
      ∀ prepared, (sink.prepareBlock target block).2 = .ok prepared →
        ∃ plan, writePlan sink blocks = .ok plan ∧
          (sink.prepareBlock target block).1.sourceSchema = some plan.source ∧
          (sink.prepareBlock target block).1.sourceColumns = some plan.columns := by
  subst hblocks
  cases block with
  | raised failure =>
    simp [ClickHouseDataSink.prepareBlock, preparedBlock, writePlan, htarget, hsource,
      Outcome.raise, bind, Except.bind]
  | notTable =>
    simp [ClickHouseDataSink.prepareBlock, preparedBlock, writePlan, htarget, hsource,
      Outcome.raise, bind, Except.bind]
  | table t =>
    cases hcolumns : validateSourceSchema t.schema target sink.columns with
    | error failure =>
      have hfix : sink.fixSource target t =
          ({ sink with sourceSchema := some t.schema }, .error failure) := by
        simp only [ClickHouseDataSink.fixSource, hsource, hcolumns]
      simp [ClickHouseDataSink.prepareBlock, hfix, preparedBlock, writePlan, htarget, hsource,
        hcolumns, bind, Except.bind]
    | ok columns =>
      have hfix : sink.fixSource target t =
          ({ sink with sourceSchema := some t.schema, sourceColumns := some columns }, .ok ()) := by
        simp only [ClickHouseDataSink.fixSource, hsource, hcolumns]
      have hplan : writePlan sink (.table t :: rest) = .ok ⟨t.schema, columns⟩ := by
        simp only [writePlan, htarget, hsource, hcolumns, bind, Except.bind]
      rw [preparedBlock_of_plan hplan]
      simp only [ClickHouseDataSink.prepareBlock, hfix]
      refine ⟨trivial, fun _ => Iff.rfl, fun _ _ => ⟨_, hplan, rfl, rfl⟩⟩

/-- Without target columns for the fixed schema, no block is prepared. -/
theorem prepareBlock_no_columns {source : ArrowSchema} (blocks : List Block) (block : Block)
    (htarget : sink.target = some target) (hsource : sink.sourceSchema = some source)
    (hcolumns : sink.sourceColumns = none) :
    (sink.prepareBlock target block).1 = sink ∧
      ∀ prepared, (sink.prepareBlock target block).2 = .ok prepared ↔
        preparedBlock sink blocks block = .ok prepared := by
  have hplan : ∀ prepared, preparedBlock sink blocks block ≠ .ok prepared := by
    simp [preparedBlock, writePlan, htarget, hsource, hcolumns, Outcome.raise, bind, Except.bind]
  cases block with
  | raised failure => simp [ClickHouseDataSink.prepareBlock, hplan]
  | notTable => simp [ClickHouseDataSink.prepareBlock, hplan, Outcome.raise]
  | table t =>
    have hfix : sink.fixSource target t = (sink, .ok ()) := by
      simp only [ClickHouseDataSink.fixSource, hsource]
    simp [ClickHouseDataSink.prepareBlock, hfix, ClickHouseDataSink.prepareTable, hsource, hcolumns,
      hplan, Outcome.raise]

theorem prepareBlock_planned (htarget : sink.target = some target)
    (hsplit : blocks = done ++ block :: rest) (h : Planned sink blocks done current) :
    (current.prepareBlock target block).1.limits = sink.limits ∧
      (∀ prepared, (current.prepareBlock target block).2 = .ok prepared ↔
        preparedBlock sink blocks block = .ok prepared) ∧
      ∀ prepared, (current.prepareBlock target block).2 = .ok prepared →
        Planned sink blocks (done ++ [block]) (current.prepareBlock target block).1 := by
  have hfixed : ∀ plan, writePlan sink blocks = .ok plan → current.limits = sink.limits →
      current.sourceSchema = some plan.source → current.sourceColumns = some plan.columns →
      (current.prepareBlock target block).1.limits = sink.limits ∧
        (∀ prepared, (current.prepareBlock target block).2 = .ok prepared ↔
          preparedBlock sink blocks block = .ok prepared) ∧
        ∀ prepared, (current.prepareBlock target block).2 = .ok prepared →
          Planned sink blocks (done ++ [block]) (current.prepareBlock target block).1 := by
    intro plan hplan hlimits hsource hcolumns
    obtain ⟨hsame, hiff⟩ :=
      prepareBlock_of_plan target block hsource hcolumns
    rw [hsame, preparedBlock_of_plan hplan]
    exact ⟨hlimits, hiff, fun _ _ => ⟨hlimits, Or.inr ⟨plan, hplan, hsource, hcolumns⟩⟩⟩
  obtain ⟨hlimits, ⟨hdone, hsame⟩ | ⟨plan, hplan, hsource, hcolumns⟩⟩ := h
  · subst hdone hsame
    by_cases hnone : current.sourceSchema = none
    · obtain ⟨hlim, hiff, hnext⟩ := prepareBlock_first htarget hnone hsplit
      exact ⟨hlim, hiff, fun prepared hok => ⟨hlim, Or.inr (hnext prepared hok)⟩⟩
    · obtain ⟨source, hsource⟩ := Option.ne_none_iff_exists'.mp hnone
      by_cases hcolumns : current.sourceColumns = none
      · obtain ⟨hsame, hiff⟩ :=
          prepareBlock_no_columns blocks block htarget hsource hcolumns
        refine ⟨by rw [hsame], hiff, ?_⟩
        intro prepared hok
        have hfail := (hiff prepared).mp hok
        simp [preparedBlock, writePlan, htarget, hsource, hcolumns, Outcome.raise, bind,
          Except.bind] at hfail
      · obtain ⟨columns, hcolumns⟩ := Option.ne_none_iff_exists'.mp hcolumns
        exact hfixed _ (writePlan_of_state htarget hsource hcolumns) rfl hsource hcolumns
  · exact hfixed plan hplan hlimits hsource hcolumns

end Block

end Plan

section Events

def batchesOf (events : List WriteEvent) : List Batch :=
  (events.filterMap WriteEvent.request?).map InsertRequest.batch

theorem batchesOf_append (events more : List WriteEvent) :
    batchesOf (events ++ more) = batchesOf events ++ batchesOf more := by
  simp only [batchesOf, List.filterMap_append, List.map_append]

theorem pairwise_of_clean {events : List WriteEvent} (h : ∀ e ∈ events, e.failed = false) :
    events.Pairwise fun earlier later => earlier.failed = true → later.isInsert = false := by
  apply List.Pairwise.imp_of_mem _ (List.pairwise_of_forall fun _ _ => trivial)
  intro a b ha _ _ hfailed
  rw [h a ha] at hfailed
  contradiction

theorem batchesOf_closed (events : List WriteEvent) (closing : Outcome Unit) :
    batchesOf (events ++ [.closed closing]) = batchesOf events := by
  rw [batchesOf_append]
  exact List.append_nil _

theorem finish_eq_ok {closing : Outcome Unit} {body : Outcome TaskResult} {result : TaskResult} :
    finish closing body = .ok result ↔ closing = .ok () ∧ body = .ok result := by
  cases closing with
  | ok u => simp [finish]
  | error failure =>
    cases body with
    | ok r => simp [finish]
    | error earlier =>
      simp only [finish]
      split <;> simp

end Events

section Insert

variable (nbytes : Batch → ℕ) {server : InsertServer}

/-- Every event so far succeeded, and the totals count the inserted batches. -/
structure Confirmed (s : WriteState) (bs : List Batch) : Prop where
  batches : batchesOf s.events = bs
  clean : ∀ e ∈ s.events, e.failed = false
  totals : s.totals = totalsOf nbytes bs

structure Halted (events : List WriteEvent) (bs : List Batch) : Prop where
  batches : batchesOf events = bs
  stopped : ∃ earlier e, events = earlier ++ [e] ∧ e.failed = true ∧
    ∀ e ∈ earlier, e.failed = false

variable {nbytes}

variable {session : ClickHouseInsertSession} {s next : WriteState} {b : Batch} {bs : List Batch}

/-- A batch is sent either way; only a confirmed one is counted. -/
theorem insertBatch_cases (nbytes : Batch → ℕ) (server : InsertServer)
    (hclient : session.client = true) (s : WriteState) (b : Batch) :
    ∃ sent, sent.batch = b ∧
      (insertBatch nbytes server session s b =
          (⟨s.sink, s.totals.confirm nbytes b, s.events ++ [.inserted (some sent) (.ok ())]⟩,
            .ok ()) ∨
        ∃ failure, insertBatch nbytes server session s b =
          (⟨s.sink, s.totals, s.events ++ [.inserted (some sent) (.error failure)]⟩,
            .error failure)) := by
  have hsent := ClickHouseInsertSession.insert_fst server hclient s.requests b
  obtain ⟨sent, outcome, hout⟩ : ∃ sent outcome,
      session.insert server s.requests b = (sent, outcome) := ⟨_, _, rfl⟩
  rw [hout] at hsent
  refine ⟨session.request server s.requests b, rfl, ?_⟩
  cases outcome with
  | ok u =>
    left
    simp only [insertBatch, hout, hsent]
  | error failure =>
    right
    refine ⟨failure, ?_⟩
    simp only [insertBatch, hout, hsent]

theorem insertBatch_ok (hclient : session.client = true) (h : Confirmed nbytes s bs)
    (hstep : insertBatch nbytes server session s b = (next, .ok ())) :
    Confirmed nbytes next (bs ++ [b]) ∧ next.sink = s.sink := by
  obtain ⟨sent, rfl, hok | ⟨failure, hbad⟩⟩ := insertBatch_cases nbytes server hclient s b
  · rw [hok] at hstep
    cases congrArg Prod.fst hstep
    refine ⟨⟨?_, ?_, ?_⟩, rfl⟩
    · rw [batchesOf_append, h.batches]
      rfl
    · intro e he
      rcases List.mem_append.mp he with he | he
      · exact h.clean e he
      · rw [List.mem_singleton.mp he]
        rfl
    · rw [totalsOf_snoc, ← h.totals]
  · rw [hbad] at hstep
    have := congrArg Prod.snd hstep
    contradiction

theorem insertBatch_error {failure : Failure} (hclient : session.client = true)
    (h : Confirmed nbytes s bs)
    (hstep : insertBatch nbytes server session s b = (next, .error failure)) :
    Halted next.events (bs ++ [b]) ∧ next.sink = s.sink := by
  obtain ⟨sent, rfl, hok | ⟨failure, hbad⟩⟩ := insertBatch_cases nbytes server hclient s b
  · rw [hok] at hstep
    have := congrArg Prod.snd hstep
    contradiction
  · rw [hbad] at hstep
    cases congrArg Prod.fst hstep
    refine ⟨⟨?_, ⟨s.events, _, rfl, rfl, h.clean⟩⟩, rfl⟩
    rw [batchesOf_append, h.batches]
    rfl

/-- The inner loop inserts a prefix of its batches, and all of them when it ends
normally. -/
theorem insertBatches_run (hclient : session.client = true) (h : Confirmed nbytes s bs)
    (items : List Batch) :
    (∃ last, runLoop (insertBatch nbytes server session) s items = (last, .ok ()) ∧
        Confirmed nbytes last (bs ++ items) ∧ last.sink = s.sink) ∨
      ∃ last failure part, runLoop (insertBatch nbytes server session) s items =
          (last, .error failure) ∧ part <+: items ∧ Halted last.events (bs ++ part) ∧
        last.sink = s.sink := by
  have hinit : Confirmed nbytes s (bs ++ []) ∧ s.sink = s.sink := by
    rw [List.append_nil]
    exact ⟨h, rfl⟩
  have hrule := runLoop_rule (insertBatch nbytes server session)
    (fun current done => Confirmed nbytes current (bs ++ done) ∧ current.sink = s.sink)
    ?_ [] hinit items rfl
  · rcases hrule with hdone | hfail
    · left
      obtain ⟨last, hrun, hconf, hsink⟩ := hdone
      exact ⟨last, hrun, hconf, hsink⟩
    · right
      obtain ⟨done, b, rest, mid, last, failure, hall, ⟨hconf, hsink⟩, hbad, hrun⟩ := hfail
      obtain ⟨hhalted, hsame⟩ := insertBatch_error hclient hconf hbad
      refine ⟨last, failure, done ++ [b], hrun, ?_, ?_, hsame.trans hsink⟩
      · refine ⟨rest, ?_⟩
        rw [List.append_assoc, List.singleton_append]
        exact hall.symm
      · rw [← List.append_assoc]
        exact hhalted
  · intro current done b _ next _ hinv hstep
    obtain ⟨hconf, hsame⟩ := insertBatch_ok hclient hinv.1 hstep
    rw [← List.append_assoc]
    exact ⟨hconf, hsame.trans hinv.2⟩

end Insert

section Run

variable [UnicodeDatabase] (nbytes : Batch → ℕ) {server : InsertServer}

def blockBatches (sink : ClickHouseDataSink) (blocks : List Block) (block : Block) : List Batch :=
  match preparedBlock sink blocks block with
  | .ok prepared =>
      iterBatchSlices nbytes prepared sink.limits.batchRows sink.limits.batchBytes
  | .error _ => []

structure Completed (sink : ClickHouseDataSink) (blocks : List Block) (s : WriteState)
    (done : List Block) : Prop where
  confirmed : Confirmed nbytes s (done.flatMap (blockBatches nbytes sink blocks))
  planned : Planned sink blocks done s.sink
  prepared : ∀ block ∈ done, ∃ t, preparedBlock sink blocks block = .ok t

variable {nbytes} {sink : ClickHouseDataSink} {target : TargetTable} {blocks done rest : List Block}
  {block : Block} {session : ClickHouseInsertSession} {s next : WriteState}

/-- A block runs to its end, or stops in its preparation or at one of its batches. -/
theorem writeBlock_cases (server : InsertServer) (htarget : sink.target = some target)
    (hclient : session.client = true) (hsplit : blocks = done ++ block :: rest)
    (h : Completed nbytes sink blocks s done) :
    (∃ last, writeBlock nbytes server session target s block = (last, .ok ()) ∧
        Completed nbytes sink blocks last (done ++ [block])) ∨
      ∃ last failure part, writeBlock nbytes server session target s block =
          (last, .error failure) ∧ part <+: blockBatches nbytes sink blocks block ∧
        Halted last.events (done.flatMap (blockBatches nbytes sink blocks) ++ part) := by
  obtain ⟨hlimits, hiff, hnext⟩ := prepareBlock_planned htarget hsplit h.planned
  obtain ⟨after, outcome, hout⟩ : ∃ after outcome,
      s.sink.prepareBlock target block = (after, outcome) := ⟨_, _, rfl⟩
  rw [hout] at hlimits hiff hnext
  cases outcome with
  | error failure =>
    right
    refine ⟨⟨after, s.totals, s.events ++ [.prepared (.error failure)]⟩, failure, [], ?_,
      List.nil_prefix, ?_, ⟨s.events, _, rfl, rfl, h.confirmed.clean⟩⟩
    · simp only [writeBlock, hout]
    · rw [batchesOf_append, h.confirmed.batches]
      rfl
  | ok t =>
    have hprepared : preparedBlock sink blocks block = .ok t := (hiff t).mp rfl
    have hbatches : blockBatches nbytes sink blocks block =
        iterBatchSlices nbytes t sink.limits.batchRows sink.limits.batchBytes := by
      simp only [blockBatches, hprepared]
    have hnoted : Confirmed nbytes ⟨after, s.totals, s.events ++ [.prepared (.ok t)]⟩
        (done.flatMap (blockBatches nbytes sink blocks)) := by
      refine ⟨?_, ?_, h.confirmed.totals⟩
      · rw [batchesOf_append, h.confirmed.batches]
        exact List.append_nil _
      · intro e he
        rcases List.mem_append.mp he with he | he
        · exact h.confirmed.clean e he
        · rw [List.mem_singleton.mp he]
          rfl
    change after.limits = sink.limits at hlimits
    have hrun : writeBlock nbytes server session target s block =
        runLoop (insertBatch nbytes server session)
          ⟨after, s.totals, s.events ++ [.prepared (.ok t)]⟩
          (blockBatches nbytes sink blocks block) := by
      simp only [writeBlock, hout, hbatches, hlimits]
    rw [hrun]
    rcases insertBatches_run hclient hnoted (blockBatches nbytes sink blocks block) with
      ⟨last, hok, hconf, hsame⟩ | ⟨last, failure, part, hbad, hpart, hhalted, -⟩
    · left
      refine ⟨last, hok, ?_, ?_, ?_⟩
      · simpa only [List.flatMap_append, List.flatMap_cons, List.flatMap_nil,
          List.append_nil] using hconf
      · rw [hsame]
        exact hnext t rfl
      · intro other hother
        rcases List.mem_append.mp hother with hother | hother
        · exact h.prepared other hother
        · rw [List.mem_singleton.mp hother]
          exact ⟨t, hprepared⟩
    · right
      exact ⟨last, failure, part, hbad, hpart, hhalted⟩

/-- The outer loop completes every block, or halts inside one of them. -/
theorem writeBlocks_run (server : InsertServer) (htarget : sink.target = some target)
    (hclient : session.client = true) (h : Completed nbytes sink blocks s []) :
    (∃ last, runLoop (writeBlock nbytes server session target) s blocks = (last, .ok ()) ∧
        Completed nbytes sink blocks last blocks) ∨
      ∃ last failure done block rest part,
        runLoop (writeBlock nbytes server session target) s blocks = (last, .error failure) ∧
        blocks = done ++ block :: rest ∧ part <+: blockBatches nbytes sink blocks block ∧
        (∀ block ∈ done, ∃ t, preparedBlock sink blocks block = .ok t) ∧
        Halted last.events (done.flatMap (blockBatches nbytes sink blocks) ++ part) := by
  have hrule := runLoop_rule (writeBlock nbytes server session target)
    (Completed nbytes sink blocks) ?_ [] h blocks rfl
  · rcases hrule with hdone | hfail
    · exact Or.inl hdone
    · right
      obtain ⟨done, block, rest, mid, last, failure, hall, hinv, hbad, hrun⟩ := hfail
      rcases writeBlock_cases server htarget hclient hall hinv with
        ⟨other, hok, -⟩ | ⟨other, failure', part, hstop, hpart, hhalted⟩
      · rw [hbad] at hok
        have := congrArg Prod.snd hok
        contradiction
      · rw [hbad] at hstop
        cases congrArg Prod.fst hstop
        exact ⟨last, failure, done, block, rest, part, hrun, hall, hpart, hinv.prepared, hhalted⟩
  · intro current done block rest next hall hinv hstep
    rcases writeBlock_cases server htarget hclient hall hinv with
      ⟨last, hok, hcompleted⟩ | ⟨last, failure, part, hbad, -, -⟩
    · rw [hstep] at hok
      cases congrArg Prod.fst hok
      exact hcompleted
    · rw [hstep] at hbad
      have := congrArg Prod.snd hbad
      contradiction

/-- The try block completes every block, or halts with the batches of the
completed blocks and some of the next one. -/
theorem writeBody_cases (nbytes : Batch → ℕ) (server : InsertServer)
    (htarget : sink.target = some target) (blocks : List Block) :
    (∃ opened last, sink.writeBody nbytes server target blocks = (opened, last, .ok ()) ∧
        Completed nbytes sink blocks last blocks) ∨
      ∃ opened last failure done rest part,
        sink.writeBody nbytes server target blocks = (opened, last, .error failure) ∧
        blocks = done ++ rest ∧ (∀ block ∈ done, ∃ t, preparedBlock sink blocks block = .ok t) ∧
        part <+: (rest.take 1).flatMap (blockBatches nbytes sink blocks) ∧
        Halted last.events (done.flatMap (blockBatches nbytes sink blocks) ++ part) := by
  obtain ⟨opened, outcome, hstart⟩ : ∃ opened outcome,
      sink.session.start server = (opened, outcome) := ⟨_, _, rfl⟩
  unfold ClickHouseDataSink.writeBody
  simp only [hstart]
  cases outcome with
  | error failure =>
    right
    refine ⟨opened, _, failure, [], blocks, [], rfl, rfl, by simp, List.nil_prefix, rfl, ?_⟩
    exact ⟨[], _, rfl, rfl, by simp⟩
  | ok u =>
    have hclient : opened.client = true := by
      rw [ClickHouseInsertSession.start_eq_ok server hstart]
    have hinit : Completed nbytes sink blocks ⟨sink, {}, [.started (.ok ())]⟩ [] := by
      refine ⟨⟨rfl, ?_, rfl⟩, ⟨rfl, Or.inl ⟨rfl, rfl⟩⟩, by simp⟩
      intro e he
      rw [List.mem_singleton.mp he]
      rfl
    rcases writeBlocks_run server htarget hclient hinit with
      ⟨last, hrun, hcompleted⟩ |
        ⟨last, failure, done, block, rest, part, hrun, hsplit, hpart, hdone, hhalted⟩
    · left
      exact ⟨opened, last, congrArg (Prod.mk opened) hrun, hcompleted⟩
    · right
      refine ⟨opened, last, failure, done, block :: rest, part, congrArg (Prod.mk opened) hrun,
        hsplit, hdone, ?_, hhalted⟩
      simpa only [List.take_succ_cons, List.take_zero, List.flatMap_cons, List.flatMap_nil,
        List.append_nil] using hpart

end Run

section Places

variable {α β : Type*} (f : α → List β)

def placesFrom : ℕ → List α → List (ℕ × β)
  | _, [] => []
  | k, a :: rest => (f a).map (fun b => (k, b)) ++ placesFrom (k + 1) rest

theorem map_snd_placesFrom (k : ℕ) (as : List α) :
    (placesFrom f k as).map Prod.snd = as.flatMap f := by
  induction as generalizing k with
  | nil => rfl
  | cons a rest ih =>
    rw [placesFrom, List.map_append, List.map_map, ih, List.flatMap_cons]
    congr 1
    exact List.map_id (f a)

theorem le_of_mem_placesFrom {k : ℕ} {as : List α} {place : ℕ × β}
    (h : place ∈ placesFrom f k as) : k ≤ place.1 := by
  induction as generalizing k with
  | nil => simp [placesFrom] at h
  | cons a rest ih =>
    rcases List.mem_append.mp h with h | h
    · obtain ⟨b, -, rfl⟩ := List.mem_map.mp h
      exact le_refl k
    · have := ih h
      omega

theorem nodup_placesFrom (hnodup : ∀ a, (f a).Nodup) (k : ℕ) (as : List α) :
    (placesFrom f k as).Nodup := by
  induction as generalizing k with
  | nil => exact List.nodup_nil
  | cons a rest ih =>
    refine List.nodup_append'.mpr ⟨?_, ih (k + 1), ?_⟩
    · apply (hnodup a).map
      intro b c hbc
      exact congrArg Prod.snd hbc
    · intro place hhere hlater
      obtain ⟨b, -, rfl⟩ := List.mem_map.mp hhere
      have hle := le_of_mem_placesFrom f hlater
      simp only at hle
      omega

end Places

section Account

variable [UnicodeDatabase] (nbytes : Batch → ℕ)

/-- The canonical sequence of a write: the batches of every block, in order. -/
def canonicalPlaces (sink : ClickHouseDataSink) (blocks : List Block) : List (ℕ × Batch) :=
  placesFrom (blockBatches nbytes sink blocks) 0 blocks

def Projects (sink : ClickHouseDataSink) (blocks : List Block) (block : Block) (t : ArrowTable) :
    Prop :=
  ∃ plan source, writePlan sink blocks = .ok plan ∧ block = .table source ∧
    source.schema = plan.source ∧
    source.select (plan.columns.map TargetColumn.name) = .ok t

/-- What a run does with the canonical sequence and what it reports. -/
structure Accounted (sink : ClickHouseDataSink) (blocks : List Block) (run : WriteRun) : Prop where
  /-- Every place is inserted at most once, in order. -/
  once : (canonicalPlaces nbytes sink blocks).Nodup ∧
    ∃ k, run.batches = ((canonicalPlaces nbytes sink blocks).take k).map Prod.snd
  /-- Nothing is inserted after a failure. -/
  halts : run.events.Pairwise fun earlier later =>
    earlier.failed = true → later.isInsert = false
  /-- A block that fails preparation contributes no batch, and ends the run. -/
  skips : ∀ front bad back, blocks = front ++ bad :: back →
    (∀ t, preparedBlock sink blocks bad ≠ .ok t) →
    run.batches <+: front.flatMap (blockBatches nbytes sink blocks)
  returns : (∃ result, run.result = .ok result) ↔
    sink.target.isSome = true ∧ ∀ e ∈ run.events, e.failed = false
  complete : ∀ result, run.result = .ok result →
    run.batches = (canonicalPlaces nbytes sink blocks).map Prod.snd ∧
    ∃ projected, List.Forall₂ (Projects sink blocks) blocks projected ∧
      run.batches.flatMap Batch.rows = projected.flatMap ArrowTable.rows ∧
      result = ⟨(projected.flatMap ArrowTable.rows).length, (run.batches.map nbytes).sum,
        run.batches.length, "confirmed"⟩

variable {nbytes} {server : InsertServer} {sink : ClickHouseDataSink} {blocks : List Block}

theorem preparedBlock_eq_ok {block : Block} {t : ArrowTable}
    (h : preparedBlock sink blocks block = .ok t) : Projects sink blocks block t := by
  obtain ⟨plan, hplan, hprepare⟩ := Except.bind_eq_ok.mp h
  cases block with
  | raised failure => contradiction
  | notTable => contradiction
  | table source =>
    obtain ⟨hschema, hselect⟩ := prepareArrowTable_eq_ok hprepare
    exact ⟨plan, source, hplan, rfl, hschema, hselect⟩

theorem blockBatches_of_ok {block : Block} {t : ArrowTable}
    (h : preparedBlock sink blocks block = .ok t) :
    Tiles t 0 (blockBatches nbytes sink blocks block) := by
  unfold blockBatches
  rw [h]
  exact iterBatchSlices_tiles nbytes sink.limits.batchRows_bounds.1

theorem blockBatches_of_not_ok {block : Block}
    (h : ∀ t, preparedBlock sink blocks block ≠ .ok t) :
    blockBatches nbytes sink blocks block = [] := by
  unfold blockBatches
  split
  · rename_i t ht
    exact absurd ht (h t)
  · rfl

theorem nodup_blockBatches (block : Block) : (blockBatches nbytes sink blocks block).Nodup := by
  by_cases h : ∃ t, preparedBlock sink blocks block = .ok t
  · obtain ⟨t, ht⟩ := h
    exact (blockBatches_of_ok ht).nodup
  · rw [blockBatches_of_not_ok (not_exists.mp h)]
    exact List.nodup_nil

/-- The projected tables of prepared blocks, and the rows of their batches. -/
theorem exists_projected (nbytes : Batch → ℕ) {done : List Block}
    (h : ∀ block ∈ done, ∃ t, preparedBlock sink blocks block = .ok t) :
    ∃ projected, List.Forall₂ (Projects sink blocks) done projected ∧
      (done.flatMap (blockBatches nbytes sink blocks)).flatMap Batch.rows =
        projected.flatMap ArrowTable.rows := by
  induction done with
  | nil => exact ⟨[], List.Forall₂.nil, rfl⟩
  | cons block rest ih =>
    obtain ⟨t, ht⟩ := h block (List.mem_cons_self ..)
    obtain ⟨projected, hall, hrows⟩ := ih fun b hb => h b (List.mem_cons_of_mem _ hb)
    refine ⟨t :: projected, List.Forall₂.cons (preparedBlock_eq_ok ht) hall, ?_⟩
    rw [List.flatMap_cons, List.flatMap_append, hrows, (blockBatches_of_ok ht).rows,
      List.flatMap_cons, List.drop_zero]

theorem flatMap_canonicalPlaces :
    (canonicalPlaces nbytes sink blocks).map Prod.snd =
      blocks.flatMap (blockBatches nbytes sink blocks) :=
  map_snd_placesFrom _ 0 blocks

/-- A prefix of the canonical batches is taken from the first places. -/
theorem once_of_initial {bs : List Batch}
    (h : bs <+: blocks.flatMap (blockBatches nbytes sink blocks)) :
    (canonicalPlaces nbytes sink blocks).Nodup ∧
      ∃ k, bs = ((canonicalPlaces nbytes sink blocks).take k).map Prod.snd := by
  refine ⟨nodup_placesFrom _ nodup_blockBatches 0 blocks, bs.length, ?_⟩
  rw [List.map_take, flatMap_canonicalPlaces]
  exact List.prefix_iff_eq_take.mp h

/-- A run that completed every block is accounted for, whatever its close does. -/
theorem accounted_of_completed {last : WriteState} {run : WriteRun} (closing : Outcome Unit)
    (htarget : sink.target.isSome = true) (h : Completed nbytes sink blocks last blocks)
    (hevents : run.events = last.events ++ [.closed closing])
    (hresult : run.result = finish closing
      (.ok ⟨last.totals.rows, last.totals.bytes, last.totals.batches, "confirmed"⟩)) :
    Accounted nbytes sink blocks run := by
  have hbatches : run.batches = blocks.flatMap (blockBatches nbytes sink blocks) := by
    show batchesOf run.events = _
    rw [hevents, batchesOf_closed, h.confirmed.batches]
  obtain ⟨projected, hall, hrows⟩ := exists_projected nbytes h.prepared
  refine ⟨once_of_initial (by rw [hbatches]), ?_, ?_, ?_, ?_⟩
  · rw [hevents]
    refine List.pairwise_append.mpr ⟨pairwise_of_clean h.confirmed.clean, List.pairwise_singleton ..,
      ?_⟩
    intro _ _ e he _
    rw [List.mem_singleton.mp he]
    rfl
  · intro front bad back hsplit hbad
    obtain ⟨t, ht⟩ := h.prepared bad (by rw [hsplit]; simp)
    exact absurd ht (hbad t)
  · rw [hresult, hevents]
    simp only [finish_eq_ok, htarget, true_and, List.mem_append, List.mem_singleton]
    constructor
    · rintro ⟨result, hclosing, -⟩ e he
      rcases he with he | rfl
      · exact h.confirmed.clean e he
      · rw [hclosing]
        rfl
    · intro hclean
      have hclosed := hclean _ (Or.inr rfl)
      cases closing with
      | error failure => contradiction
      | ok u => exact ⟨_, rfl, rfl⟩
  · intro result hok
    rw [hresult] at hok
    obtain ⟨-, hbody⟩ := finish_eq_ok.mp hok
    refine ⟨by rw [hbatches, flatMap_canonicalPlaces], projected, hall, by rw [hbatches, hrows], ?_⟩
    rw [← Except.ok.inj hbody, h.confirmed.totals, hbatches]
    simp only [totalsOf, hrows]

/-- Before a block that is not prepared, completed blocks and some batches of the
next one are batches of what precedes it. -/
theorem prefix_of_stopped {done rest front back : List Block} {bad : Block} {part : List Batch}
    (hsplit : done ++ rest = front ++ bad :: back)
    (hdone : ∀ block ∈ done, ∃ t, preparedBlock sink blocks block = .ok t)
    (hpart : part <+: (rest.take 1).flatMap (blockBatches nbytes sink blocks))
    (hbad : ∀ t, preparedBlock sink blocks bad ≠ .ok t) :
    done.flatMap (blockBatches nbytes sink blocks) ++ part <+:
      front.flatMap (blockBatches nbytes sink blocks) := by
  obtain ⟨mid, hfront, hrest⟩ : ∃ mid, front = done ++ mid ∧ rest = mid ++ bad :: back := by
    rcases List.append_eq_append_iff.mp hsplit with h | ⟨mid, hdone', hmid⟩
    · exact h
    · cases mid with
      | nil => exact ⟨[], by simpa using hdone'.symm, by simpa using hmid.symm⟩
      | cons m mid =>
        obtain ⟨rfl, -⟩ := List.cons.inj hmid
        obtain ⟨t, ht⟩ := hdone bad (by rw [hdone']; simp)
        exact absurd ht (hbad t)
  rw [hfront, List.flatMap_append]
  apply (List.prefix_append_right_inj _).mpr
  apply hpart.trans
  rw [hrest]
  cases mid with
  | nil => simp [blockBatches_of_not_ok hbad]
  | cons m mid => simp

/-- A run that stopped at a failure is accounted for, whatever its close does. -/
theorem accounted_of_halted {done rest : List Block} {part : List Batch}
    {events : List WriteEvent} {run : WriteRun} (closing : Outcome Unit) (failure : Failure)
    (hsplit : blocks = done ++ rest)
    (hdone : ∀ block ∈ done, ∃ t, preparedBlock sink blocks block = .ok t)
    (hpart : part <+: (rest.take 1).flatMap (blockBatches nbytes sink blocks))
    (h : Halted events (done.flatMap (blockBatches nbytes sink blocks) ++ part))
    (hevents : run.events = events ++ [.closed closing])
    (hresult : run.result = finish closing (.error failure)) :
    Accounted nbytes sink blocks run := by
  have hbatches : run.batches = done.flatMap (blockBatches nbytes sink blocks) ++ part := by
    show batchesOf run.events = _
    rw [hevents, batchesOf_closed, h.batches]
  have hraises : ∀ result, run.result ≠ .ok result := by
    intro result hok
    rw [hresult] at hok
    have := (finish_eq_ok.mp hok).2
    contradiction
  obtain ⟨earlier, e, hsnoc, hfailed, hclean⟩ := h.stopped
  refine ⟨once_of_initial ?_, ?_, ?_, ?_, ?_⟩
  · rw [hbatches, hsplit, List.flatMap_append]
    apply (List.prefix_append_right_inj _).mpr
    rw [← hsplit]
    apply hpart.trans
    conv_rhs => rw [← List.take_append_drop 1 rest, List.flatMap_append]
    exact List.prefix_append _ _
  · rw [hevents, hsnoc, List.append_assoc]
    refine List.pairwise_append.mpr ⟨pairwise_of_clean hclean, ?_, ?_⟩
    · simp [WriteEvent.isInsert]
    · intro a ha b _ hfail
      rw [hclean a ha] at hfail
      contradiction
  · intro front bad back hbadsplit hbad
    rw [hbatches]
    exact prefix_of_stopped (hsplit.symm.trans hbadsplit) hdone hpart hbad
  · constructor
    · rintro ⟨result, hok⟩
      exact absurd hok (hraises result)
    · rintro ⟨-, hall⟩
      have := hall e (by rw [hevents, hsnoc]; simp)
      rw [hfailed] at this
      contradiction
  · intro result hok
    exact absurd hok (hraises result)

theorem write_accounted (server : InsertServer) (sink : ClickHouseDataSink) (blocks : List Block) :
    Accounted nbytes sink blocks (sink.write nbytes server blocks) := by
  by_cases hnone : sink.target = none
  · have hunprepared : ∀ block t, preparedBlock sink blocks block ≠ .ok t := by
      simp [preparedBlock, writePlan, hnone, Outcome.raise, bind, Except.bind]
    have hrun : sink.write nbytes server blocks = ⟨sink, [], Outcome.raise .configuration
        "ClickHouseDataSink.on_write_start must run before write"⟩ := by
      simp only [ClickHouseDataSink.write, hnone]
    rw [hrun]
    refine ⟨once_of_initial List.nil_prefix, List.Pairwise.nil, fun _ _ _ _ _ => List.nil_prefix,
      ?_, ?_⟩
    · simp [hnone, Outcome.raise]
    · intro result hok
      contradiction
  · obtain ⟨target, htarget⟩ := Option.ne_none_iff_exists'.mp hnone
    rcases writeBody_cases nbytes server htarget blocks with
      ⟨opened, last, hbody, hcompleted⟩ |
        ⟨opened, last, failure, done, rest, part, hbody, hsplit, hdone, hpart, hhalted⟩
    · apply accounted_of_completed (opened.close server).2 (by rw [htarget]; rfl) hcompleted
      · simp only [ClickHouseDataSink.write, htarget, hbody]
      · simp only [ClickHouseDataSink.write, htarget, hbody]
        rfl
    · apply accounted_of_halted (opened.close server).2 failure hsplit hdone hpart hhalted
      · simp only [ClickHouseDataSink.write, htarget, hbody]
      · simp only [ClickHouseDataSink.write, htarget, hbody]
        rfl

end Account

theorem entries_ofResult (tasks : List (Option TaskResult)) :
    (tasks.map TaskReturn.ofResult).filterMap TaskReturn.entries? =
      tasks.reduceOption.map TaskResult.entries := by
  induction tasks with
  | nil => rfl
  | cons task rest ih =>
    cases task with
    | none =>
      rw [List.map_cons, List.reduceOption_cons_of_none, ← ih]
      rfl
    | some result =>
      rw [List.map_cons, List.reduceOption_cons_of_some, List.map_cons, ← ih]
      rfl

def receiptOf (results : List TaskResult) : WriteReceipt where
  rowsWritten := (results.map fun r => (r.rows : ℤ)).sum
  bytesWritten := (results.map fun r => (r.bytes : ℤ)).sum
  batchesWritten := (results.map fun r => (r.batches : ℤ)).sum

section Receipt

variable [UnicodeDatabase]

/-- Returns without a result add nothing to a sum over the tasks. -/
theorem sumOf_ofResult {key : String} (count : TaskResult → ℤ)
    (hcount : ∀ result : TaskResult,
      result.entries.get? key.toList = some (.int (count result)))
    (tasks : List (Option TaskResult)) :
    sumOf key (tasks.map TaskReturn.ofResult) = .ok (tasks.reduceOption.map count).sum := by
  unfold sumOf
  rw [entries_ofResult]
  refine Except.bind_eq_ok.mpr ⟨tasks.reduceOption.map count, ?_, rfl⟩
  apply Except.mapM_eq_ok.mpr
  simp only [List.forall₂_map_left_iff, List.forall₂_map_right_iff, List.forall₂_same]
  intro result _
  rw [hcount result]
  rfl

theorem onWriteComplete_ofResult (sink : ClickHouseDataSink) (tasks : List (Option TaskResult)) :
    sink.onWriteComplete (some (tasks.map TaskReturn.ofResult)) =
      .ok { sink with receipt := some (receiptOf tasks.reduceOption) } := by
  have hrows : sumOf "rows" (tasks.map TaskReturn.ofResult) = _ :=
    sumOf_ofResult (fun r => (r.rows : ℤ)) (fun _ => rfl) tasks
  have hbytes : sumOf "bytes" (tasks.map TaskReturn.ofResult) = _ :=
    sumOf_ofResult (fun r => (r.bytes : ℤ)) (fun _ => rfl) tasks
  have hbatches : sumOf "batches" (tasks.map TaskReturn.ofResult) = _ :=
    sumOf_ofResult (fun r => (r.batches : ℤ)) (fun _ => rfl) tasks
  simp only [ClickHouseDataSink.onWriteComplete, Option.getD_some, hrows, hbytes, hbatches, bind,
    Except.bind, receiptOf]

/-- Every run of a task is accounted for; the receipt of finished tasks is the sum
over them, and a failed write leaves none. -/
theorem write_accounting (nbytes : Batch → ℕ) :
    (∀ (server : InsertServer) (sink : ClickHouseDataSink) (blocks : List Block),
      Accounted nbytes sink blocks (sink.write nbytes server blocks)) ∧
    (∀ (sink : ClickHouseDataSink) (tasks : List (Option TaskResult)),
      sink.onWriteComplete (some (tasks.map TaskReturn.ofResult)) =
        .ok { sink with receipt := some (receiptOf tasks.reduceOption) }) ∧
    ∀ (sink : ClickHouseDataSink) (failure : Failure),
      (sink.onWriteFailed failure).receipt = none := by
  refine ⟨write_accounted, onWriteComplete_ofResult, ?_⟩
  intro sink failure
  rfl

end Receipt

end RayClickHouse.WriteAccounting
