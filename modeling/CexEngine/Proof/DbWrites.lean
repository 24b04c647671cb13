import CexEngine.Lib.StableSort
import CexEngine.Proof.WriterPass

/-!
# What the DB writer applies

`flush_batch` handles a filtered and sorted copy of the batch and then removes the indices of
the copy from the batch itself.

* `flushBatch_cases`: what one call can do, whatever the database answers.
* `orders_replay`: the table is what the committed commands make of it, in their order.
* `appliesOnce_iff`: **commands are applied exactly once, in order, as long as no batch with
  an `UpdateBalance` is flushed, and never otherwise.**
-/

namespace CexEngine

variable {db : ℕ → Attempt} {batch : List DbCommand} {orders : OrdersTable}

/-! ## One flush -/

/-- A transaction whose commands all succeed. -/
theorem processCommands_ok {executes : ℕ → Option String} {written : OrdersTable} {indices : List ℕ} :
    ∀ {cmds : List DbCommand} {idx : ℕ} {done : OrdersTable × List ℕ},
      processCommands executes idx cmds done = .ok (written, indices) →
      written = cmds.foldl DbCommand.apply done.1 ∧ indices = done.2 ++ List.range' idx cmds.length := by
  intro cmds
  induction cmds with
  | nil =>
    intro idx done h
    obtain ⟨rfl, rfl⟩ := Prod.mk.inj (Except.ok.inj h)
    simp
  | cons cmd cmds ih =>
    intro idx done h
    rw [processCommands] at h
    -- the first command succeeds, or the loop would have ended
    have hfirst : processDbCommand done.1 (executes idx) cmd = .ok (cmd.apply done.1) := by
      cases cmd <;> cases hx : executes idx <;> simp_all [processDbCommand]
    rw [hfirst] at h
    obtain ⟨hw, hi⟩ := ih h
    refine ⟨hw, ?_⟩
    rw [hi, List.append_assoc, List.length_cons, List.range'_succ]
    rfl

/-- What a flush can do: commit its whole copy of the batch, or leave everything as it is. -/
def Flush.Outcome (batch : List DbCommand) (orders : OrdersTable) (f : Flush) : Prop :=
  f.before = batch ∧
    ((f.isOk = true ∧ f.committed = processedBatch batch ∧ f.batch = batch.drop (processedBatch batch).length ∧
        f.orders = f.committed.foldl DbCommand.apply orders) ∨
      (f.isOk = false ∧ f.committed = [] ∧ f.batch = batch ∧ f.orders = orders))

theorem flushAttempt_cases {attempt : Attempt} {retry : String → Flush}
    (hretry : ∀ e, (retry e).Outcome batch orders) : (flushAttempt batch orders attempt retry).Outcome batch orders := by
  have hfailed : ∀ e, (Flush.failed batch orders e).Outcome batch orders := fun e => ⟨rfl, .inr ⟨rfl, rfl, rfl, rfl⟩⟩
  rw [flushAttempt]
  cases attempt.begins with
  | some e => exact hretry _
  | none =>
    cases hp : processCommands attempt.executes 0 (processedBatch batch) (orders, []) with
    | error e =>
      simp only
      split
      · exact hretry _
      · exact hfailed _
    | ok done =>
      obtain ⟨hw, hi⟩ := processCommands_ok hp
      cases attempt.commits with
      | some e =>
        simp only
        split
        · exact hretry _
        · exact hfailed _
      | none =>
        -- the indices of the copy are all those below its length
        refine ⟨rfl, .inl ⟨rfl, rfl, ?_, hw⟩⟩
        simp only [hi, List.nil_append, removeSuccessful, ← List.range_eq_range', List.insertionSort_range_ge,
          List.foldl_eraseIdx_range]

/-- **One flush.** -/
theorem flushBatch_cases (db : ℕ → Attempt) (batch : List DbCommand) (orders : OrdersTable) :
    (flushBatch db batch orders).Outcome batch orders := by
  have hloop : ∀ left, (flushLoop db batch orders left).Outcome batch orders := by
    intro left
    induction left with
    | zero => exact flushAttempt_cases fun e => ⟨rfl, .inr ⟨rfl, rfl, rfl, rfl⟩⟩
    | succ left ih => exact flushAttempt_cases fun _ => ih
  rw [flushBatch]
  split_ifs with hb
  · subst hb
    exact ⟨rfl, .inl ⟨rfl, rfl, rfl, rfl⟩⟩
  · exact hloop 5

/-- The copy holds the commands of the batch but the balance updates. -/
theorem processedBatch_perm (batch : List DbCommand) :
    (processedBatch batch).Perm (batch.filter fun cmd => !cmd.isUpdateBalance) := List.perm_insertionSort _ _

/-- Sorting keeps the statuses of an order in their order. -/
theorem processedBatch_filter (id : OrderId) (batch : List DbCommand) :
    (processedBatch batch).filter (·.isStatusOf id) = batch.filter (·.isStatusOf id) := by
  have hpriority : ∀ cmd : DbCommand, cmd.isStatusOf id = true → cmd.priority = 2 := by
    intro cmd h
    cases cmd <;> simp_all [DbCommand.isStatusOf, DbCommand.priority]
  have hkept : ∀ cmd : DbCommand, cmd.isStatusOf id = true → (!cmd.isUpdateBalance) = true := by
    intro cmd h
    cases cmd <;> simp_all [DbCommand.isStatusOf, DbCommand.isUpdateBalance]
  rw [processedBatch, List.filter_insertionSort, List.filter_filter]
  · exact List.filter_congr fun cmd _ => by have := hkept cmd; simp_all
  · exact fun a b ha hb => by rw [hpriority a ha, hpriority b hb]

theorem filter_eq_self_of_none (h : ∀ cmd ∈ batch, cmd.isUpdateBalance = false) :
    batch.filter (fun cmd => !cmd.isUpdateBalance) = batch := by
  rw [List.filter_eq_self]
  exact fun cmd hcmd => by simp [h cmd hcmd]

/-- A batch is emptied if and only if the copy lacks nothing. -/
theorem drop_processedBatch_eq_nil :
    batch.drop (processedBatch batch).length = [] ↔ ∀ cmd ∈ batch, cmd.isUpdateBalance = false := by
  rw [List.drop_eq_nil_iff, (processedBatch_perm batch).length_eq]
  constructor
  · intro h cmd hcmd
    have hall := List.length_filter_eq_length_iff.1 (le_antisymm (List.length_filter_le _ _) h)
    simpa using hall cmd hcmd
  · intro h
    rw [filter_eq_self_of_none h]

/-! ## The thread -/

namespace DbWriter

variable {w w' : DbWriter}

/-- Commands are applied exactly once and each order's statuses in the order received. -/
structure AppliesOnce (w : DbWriter) : Prop where
  /-- What was received was committed once or is still to be flushed. -/
  once : (w.committed ++ w.batch.filter fun cmd => !cmd.isUpdateBalance).Perm
    (w.received.filter fun cmd => !cmd.isUpdateBalance)
  inOrder : ∀ id, (w.committed ++ w.batch).filter (·.isStatusOf id) = w.received.filter (·.isStatusOf id)
  emptied : ∀ f ∈ w.flushes, f.batch = []
  finished : w.phase = .exited → w.batch = []

/-- No flush was given a batch with an `UpdateBalance`. -/
def FlushesNoBalance (w : DbWriter) : Prop := ∀ f ∈ w.flushes, ∀ cmd ∈ f.before, cmd.isUpdateBalance = false

def AllOk (w : DbWriter) : Prop := ∀ f ∈ w.flushes, f.isOk = true

instance : DecidablePred AllOk := fun w => inferInstanceAs (Decidable (∀ f ∈ w.flushes, f.isOk = true))

theorem AllOk.of_flush (h : (w.flush db).AllOk) : w.AllOk ∧ (flushBatch db w.batch w.orders).isOk = true := by
  simp only [AllOk, flush_flushes, List.forall_mem_append, List.forall_mem_singleton] at h
  exact h

theorem FlushesNoBalance.of_flush (h : (w.flush db).FlushesNoBalance) :
    w.FlushesNoBalance ∧ ∀ cmd ∈ w.batch, cmd.isUpdateBalance = false := by
  simp only [FlushesNoBalance, flush_flushes, List.forall_mem_append, List.forall_mem_singleton,
    (flushBatch_cases db w.batch w.orders).1] at h
  exact h

/-- A flush that succeeds on a batch without balance updates. -/
theorem flush_commits (hok : (flushBatch db w.batch w.orders).isOk = true)
    (hno : ∀ cmd ∈ w.batch, cmd.isUpdateBalance = false) :
    (w.flush db).batch = [] ∧ (w.flush db).committed = w.committed ++ processedBatch w.batch := by
  obtain ⟨-, ⟨-, hc, hb, -⟩ | ⟨hfail, -⟩⟩ := flushBatch_cases db w.batch w.orders
  · rw [flush_batch, hb, committed_flush, hc]
    exact ⟨drop_processedBatch_eq_nil.2 hno, rfl⟩
  · rw [hok] at hfail
    cases hfail

/-- Every command is committed or waits, and so do the statuses of an order in their order. -/
def Accounted (w : DbWriter) : Prop :=
  (w.committed ++ w.batch.filter fun cmd => !cmd.isUpdateBalance).Perm
      (w.received.filter fun cmd => !cmd.isUpdateBalance) ∧
    ∀ id, (w.committed ++ w.batch).filter (·.isStatusOf id) = w.received.filter (·.isStatusOf id)

theorem accounted_run {as : List WriterAction} (hrun : Machine.run DbWriter.step (.start orders) as = some w) :
    w.AllOk → w.FlushesNoBalance → w.Accounted := by
  refine run_keeps (I := fun w => w.AllOk → w.FlushesNoBalance → w.Accounted) ?_ ?_ ?_ ?_ hrun
  · intro w w' hs hw
    rw [AllOk, FlushesNoBalance, Accounted, committed, hs.flushes, hs.batch, hs.received]
    exact hw
  · intro w cmd rest hw hok hno
    -- what is received waits in the batch
    obtain ⟨hperm, hfilter⟩ := hw hok hno
    refine ⟨?_, fun id => ?_⟩
    · simp only [take, List.filter_append, ← List.append_assoc]
      exact hperm.append_right _
    · have := hfilter id
      simp only [List.filter_append] at this
      simp only [take, List.filter_append, ← List.append_assoc]
      rw [← this]
      rfl
  · intro w db hw hok hno
    obtain ⟨hok, hflush⟩ := hok.of_flush
    obtain ⟨hno, hbatch⟩ := hno.of_flush
    obtain ⟨hperm, hfilter⟩ := hw hok hno
    -- a flush commits the batch in the order of its priorities, which keeps the statuses in order
    obtain ⟨hempty, hc⟩ := flush_commits hflush hbatch
    rw [Accounted, hempty, hc]
    refine ⟨?_, fun id => ?_⟩
    · rw [List.filter_nil, List.append_nil]
      exact ((processedBatch_perm w.batch).append_left _).trans hperm
    · rw [List.append_nil, List.filter_append, processedBatch_filter, ← List.filter_append]
      exact hfilter id
  · intro _ _
    simp [DbWriter.start, Accounted, committed]

/-- Flushes are emptied exactly when they are given no balance update. -/
theorem emptied_run {as : List WriterAction} (hrun : Machine.run DbWriter.step (.start orders) as = some w) :
    w.AllOk → ((∀ f ∈ w.flushes, f.batch = []) ↔ w.FlushesNoBalance) := by
  have hevery : ∀ f ∈ w.flushes, ∃ table, f.Outcome f.before table := by
    refine run_keeps (I := fun w => ∀ f ∈ w.flushes, ∃ table, f.Outcome f.before table) ?_ ?_ ?_ ?_ hrun
    · intro w w' hs hw
      rwa [hs.flushes]
    · exact fun w cmd rest hw => hw
    · intro w db hw
      simp only [flush_flushes, List.forall_mem_append, List.forall_mem_singleton]
      refine ⟨hw, w.orders, ?_⟩
      rw [(flushBatch_cases db w.batch w.orders).1]
      exact flushBatch_cases db w.batch w.orders
    · simp [DbWriter.start]
  intro hok
  refine forall₂_congr fun f hf => ?_
  obtain ⟨table, -, ⟨-, -, hb, -⟩ | ⟨hfail, -⟩⟩ := hevery f hf
  · rw [hb, drop_processedBatch_eq_nil]
  · rw [hok f hf] at hfail
    cases hfail

/-- The thread does not end with commands in its batch. -/
theorem finished_run {as : List WriterAction} (hrun : Machine.run DbWriter.step (.start orders) as = some w) :
    w.AllOk → w.FlushesNoBalance → w.phase = .exited → w.batch = [] := by
  refine Machine.run_inv (I := fun w => w.AllOk → w.FlushesNoBalance → w.phase = .exited → w.batch = []) ?_ ?_ hrun
  · intro w a w' hw h hok hno hexit
    have hgrow : w.flushes <+: w'.flushes := by
      obtain ⟨u, hu, hw'⟩ := step_cases h
      have hsame : u.flushes = w.flushes := by
        rcases hu with rfl | ⟨cmd, rest, -, rfl⟩ <;> rfl
      rcases hw' with hs | ⟨db, hs⟩
      · exact (hs.flushes.trans hsame) ▸ List.prefix_rfl
      · rw [hs.flushes, flush_flushes, hsame]
        exact List.prefix_append _ _
    rcases exit_cases h hexit with ⟨hphase, hb⟩ | hb | ⟨db, hs⟩
    · rw [hb]
      exact hw (fun f hf => hok f (hgrow.subset hf)) (fun f hf => hno f (hgrow.subset hf)) hphase
    · exact hb
    · -- the flush on the way out
      rw [AllOk, hs.flushes] at hok
      rw [FlushesNoBalance, hs.flushes] at hno
      rw [hs.batch]
      exact (flush_commits (AllOk.of_flush hok).2 (FlushesNoBalance.of_flush hno).2).1
  · intro _ _ hexit
    cases hexit

/-- **The table is the start table after the committed commands**, in the order in which they
were handled. A flush that fails leaves nothing. -/
theorem orders_replay {as : List WriterAction} (hrun : Machine.run DbWriter.step (.start orders) as = some w) :
    w.orders = w.committed.foldl DbCommand.apply orders := by
  refine run_keeps (I := fun w => w.orders = w.committed.foldl DbCommand.apply orders) ?_ ?_ ?_ rfl hrun
  · intro w w' hs hw
    rwa [hs.orders, committed, hs.flushes]
  · exact fun w cmd rest hw => hw
  · intro w db hw
    obtain ⟨-, ⟨-, -, -, ht⟩ | ⟨-, hc, -, ht⟩⟩ := flushBatch_cases db w.batch w.orders
    · rw [flush_orders, committed_flush, ht, List.foldl_append, hw]
    · rw [flush_orders, committed_flush, ht, hc, List.append_nil, hw]

end DbWriter

/-- **Commands are applied exactly once** in a run whose flushes succeed if and only if no
flush is given a batch with an `UpdateBalance`: the indices removed from the batch are those
of a copy without them. A flush that fails leaves its batch as it was. -/
theorem appliesOnce_iff {w : DbWriter} {as : List WriterAction}
    (hrun : Machine.run DbWriter.step (.start orders) as = some w) :
    (∀ f ∈ w.flushes, f.isOk = false → f.batch = f.before) ∧
      (w.AllOk → (w.AppliesOnce ↔ w.FlushesNoBalance)) := by
  refine ⟨?_, fun hok => ⟨fun h => (DbWriter.emptied_run hrun hok).1 h.emptied, fun hno => ?_⟩⟩
  · refine DbWriter.run_keeps (I := fun w => ∀ f ∈ w.flushes, f.isOk = false → f.batch = f.before) ?_ ?_ ?_ ?_ hrun
    · intro w w' hs hw
      rwa [hs.flushes]
    · exact fun w cmd rest hw => hw
    · intro w db hw
      simp only [DbWriter.flush_flushes, List.forall_mem_append, List.forall_mem_singleton]
      refine ⟨hw, fun hfail => ?_⟩
      obtain ⟨hbefore, ⟨hok, -⟩ | ⟨-, -, hb, -⟩⟩ := flushBatch_cases db w.batch w.orders
      · rw [hfail] at hok
        cases hok
      · rw [hb, hbefore]
    · simp [DbWriter.start]
  · obtain ⟨honce, horder⟩ := DbWriter.accounted_run hrun hok hno
    exact ⟨honce, horder, (DbWriter.emptied_run hrun hok).2 hno, DbWriter.finished_run hrun hok hno⟩

/-- Order 1 is partly filled, traded again and filled: three commands are received and flushed as
one batch. -/
theorem appliesOnce_iff_filled :
    ∃ w, Machine.run DbWriter.step (.start ∅)
        [.send (.updateOrderStatus 1 "partial" 2 20), .send (.insertTrade ⟨1, 3, 7, 8, 10, 1, "SOL", "USDT"⟩),
          .send (.updateOrderStatus 1 "filled" 3 30), .pass false fun _ => .ok, .pass false fun _ => .ok,
          .pass false fun _ => .ok, .pass true fun _ => .ok] = some w ∧
      w.flushes.length = 1 ∧ w.committed.length = 3 ∧ w.AppliesOnce := by
  obtain ⟨w, hrun, hok, hflushes, hcommitted, hno⟩ := Machine.exists_run DbWriter.step (.start ∅)
    [.send (.updateOrderStatus 1 "partial" 2 20), .send (.insertTrade ⟨1, 3, 7, 8, 10, 1, "SOL", "USDT"⟩),
      .send (.updateOrderStatus 1 "filled" 3 30), .pass false fun _ => .ok, .pass false fun _ => .ok,
      .pass false fun _ => .ok, .pass true fun _ => .ok]
    (fun w => w.AllOk ∧ w.flushes.length = 1 ∧ w.committed.length = 3 ∧
      ∀ f ∈ w.flushes, ∀ cmd ∈ f.before, cmd.isUpdateBalance = false) (by decide +kernel)
  exact ⟨w, hrun, hflushes, hcommitted, ((appliesOnce_iff hrun).2 hok).2 hno⟩

/-- With the lock of order 1 before its status in the batch, the flush removes the lock and
keeps the status, and the next flush applies it again. -/
theorem appliesOnce_not :
    ∃ w, Machine.run DbWriter.step (.start ∅)
        [.send (.updateBalance 1 "USDT" (some (-20)) (some 20)), .send (.updateOrderStatus 1 "filled" 2 20),
          .pass false fun _ => .ok, .pass false fun _ => .ok, .pass true fun _ => .ok, .pass false fun _ => .ok,
          .pass true fun _ => .ok] = some w ∧
      w.AllOk ∧ w.committed = [.updateOrderStatus 1 "filled" 2 20, .updateOrderStatus 1 "filled" 2 20] ∧
      ¬ w.AppliesOnce := by
  obtain ⟨w, hrun, hok, hc, hleft⟩ := Machine.exists_run DbWriter.step (.start ∅)
    [.send (.updateBalance 1 "USDT" (some (-20)) (some 20)), .send (.updateOrderStatus 1 "filled" 2 20),
      .pass false fun _ => .ok, .pass false fun _ => .ok, .pass true fun _ => .ok, .pass false fun _ => .ok,
      .pass true fun _ => .ok]
    (fun w => w.AllOk ∧
      w.committed = [.updateOrderStatus 1 "filled" 2 20, .updateOrderStatus 1 "filled" 2 20] ∧
      ∃ f ∈ w.flushes, f.batch ≠ []) (by decide +kernel)
  obtain ⟨f, hf, hne⟩ := hleft
  exact ⟨w, hrun, hok, hc, fun h => hne (h.emptied f hf)⟩

end CexEngine
