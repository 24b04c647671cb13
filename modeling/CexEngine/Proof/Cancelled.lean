import CexEngine.Proof.DbWrites
import CexEngine.Proof.Taken

/-!
# Cancelled orders

`cancel_order` writes the status of its order past the DB writer, which may still have statuses
of the same order to write.

* `flush_lookup`: a flush leaves the row of an order alone if no status of it is in the batch.
* `dbCommands_status`: a submission sends statuses of its own order only.
* `staysCancelled_run`: **a cancelled order stays cancelled in the table**, if no status of it is
  on its way when `cancel_order` writes and it is not submitted again.
* `staysCancelled_not`: the status of a partial fill is written after the cancellation.
-/

namespace CexEngine

variable {dv : Decimal → Decimal → Decimal} {id : OrderId}

/-! ## What the writer does to a row -/

theorem OrdersTable.lookup_update_self {orders : OrdersTable} {row : OrderRow} (h : orders.lookup id = some row)
    (set : OrderRow → OrderRow) : (orders.update id set).lookup id = some (set row) := by
  simp only [OrdersTable.update, h]
  exact AList.lookup_insert orders

theorem OrdersTable.lookup_update_ne {orders : OrdersTable} {other : OrderId} (h : id ≠ other)
    (set : OrderRow → OrderRow) : (orders.update other set).lookup id = orders.lookup id := by
  unfold OrdersTable.update
  cases orders.lookup other with
  | none => rfl
  | some row => exact AList.lookup_insert_ne h

/-- A command that is no status of an order leaves the row of the order. -/
theorem DbCommand.lookup_apply {orders : OrdersTable} {cmd : DbCommand} {row : OrderRow}
    (hrow : orders.lookup id = some row) (hcmd : cmd.isStatusOf id = false) :
    (cmd.apply orders).lookup id = some row := by
  cases cmd with
  | insertOrder orderId =>
    rw [apply]
    by_cases hid : id = orderId
    · subst hid
      rw [hrow]
      exact hrow
    · cases orders.lookup orderId with
      | none => rw [← hrow]; exact AList.lookup_insert_ne hid
      | some _ => exact hrow
  | updateOrderStatus orderId status filled filledQuote =>
    have hid : id ≠ orderId := fun h => by simp [isStatusOf, h] at hcmd
    rw [apply]
    split_ifs <;> rw [OrdersTable.lookup_update_ne hid, hrow]
  | insertTrade trade => exact hrow
  | updateBalance user mint availableDelta lockedDelta => exact hrow

theorem foldl_lookup {row : OrderRow} : ∀ {cmds : List DbCommand} {orders : OrdersTable},
    orders.lookup id = some row → (∀ cmd ∈ cmds, cmd.isStatusOf id = false) →
      (cmds.foldl DbCommand.apply orders).lookup id = some row := by
  intro cmds
  induction cmds with
  | nil => intro orders hrow _; exact hrow
  | cons cmd cmds ih =>
    intro orders hrow h
    rw [List.forall_mem_cons] at h
    exact ih (DbCommand.lookup_apply hrow h.1) h.2

/-- **A flush leaves the row of an order alone** if no status of it is in the batch, and adds
nothing to the batch. -/
theorem flush_lookup {w : DbWriter} {row : OrderRow} (db : ℕ → Attempt) (hrow : w.orders.lookup id = some row)
    (h : ∀ cmd ∈ w.batch, cmd.isStatusOf id = false) :
    (w.flush db).orders.lookup id = some row ∧ ∀ cmd ∈ (w.flush db).batch, cmd ∈ w.batch := by
  obtain ⟨-, ⟨-, hcommitted, hbatch, horders⟩ | ⟨-, -, hbatch, horders⟩⟩ := flushBatch_cases db w.batch w.orders
  · rw [DbWriter.flush_orders, DbWriter.flush_batch, horders, hcommitted, hbatch]
    refine ⟨foldl_lookup hrow fun cmd hcmd => h cmd ?_, fun cmd hcmd => List.mem_of_mem_drop hcmd⟩
    exact List.mem_of_mem_filter ((processedBatch_perm w.batch).mem_iff.1 hcmd)
  · rw [DbWriter.flush_orders, DbWriter.flush_batch, horders, hbatch]
    exact ⟨hrow, fun cmd hcmd => hcmd⟩

/-- What the writer does between two reads leaves it alone too, if no status of the order waits. -/
theorem pass_lookup {w w' : DbWriter} {row : OrderRow} {db : ℕ → Attempt} {overdue : Bool}
    (hpass : w.pass db overdue = some w') (hrow : w.orders.lookup id = some row)
    (h : ∀ cmd ∈ w.dbRx ++ w.batch, cmd.isStatusOf id = false) :
    w'.orders.lookup id = some row ∧ ∀ cmd ∈ w'.dbRx ++ w'.batch, cmd ∈ w.dbRx ++ w.batch := by
  obtain ⟨u, hu, hrx, hwork⟩ := DbWriter.pass_cases hpass
  have hmoved : u.orders = w.orders ∧ ∀ cmd ∈ u.dbRx ++ u.batch, cmd ∈ w.dbRx ++ w.batch := by
    rcases hu with rfl | ⟨cmd, rest, hhead, rfl⟩
    · exact ⟨rfl, fun _ hcmd => hcmd⟩
    · refine ⟨rfl, fun x hx => ?_⟩
      rw [hhead]
      simp only [DbWriter.take, List.mem_append, List.mem_cons] at hx ⊢
      tauto
  obtain ⟨horders, hsub⟩ := hmoved
  rw [← horders] at hrow
  rcases hwork with hs | hs
  · rw [hs.orders, hs.batch, hrx]
    exact ⟨hrow, hsub⟩
  · obtain ⟨hlookup, hbatch⟩ := flush_lookup db hrow fun cmd hcmd => h cmd (hsub cmd (List.mem_append_right _ hcmd))
    rw [hs.orders, hs.batch, hrx]
    refine ⟨hlookup, fun cmd hcmd => hsub cmd ?_⟩
    rcases List.mem_append.1 hcmd with hcmd | hcmd
    · exact List.mem_append_left _ hcmd
    · exact List.mem_append_right _ (hbatch cmd hcmd)

/-! ## What the engine sends -/

/-- Trades send no statuses. -/
theorem executeTrades_status (skip : Bool) : ∀ (ms : List MatchResult) (c : BalanceCache),
    ∀ t ∈ (c.executeTrades skip ms).2, ∀ cmd ∈ (t.2.toOption).getD [], cmd.isStatusOf id = false := by
  intro ms
  induction ms with
  | nil => intro c t ht; exact absurd ht List.not_mem_nil
  | cons m ms ih =>
    intro c
    have hrefused : (c.executeTrade m skip).2.isOk = false → ((c.executeTrade m skip).2.toOption).getD [] = [] := by
      intro herr
      cases hr : (c.executeTrade m skip).2 with
      | ok cmds => rw [hr] at herr; cases herr
      | error e => rfl
    rw [BalanceCache.executeTrades_cons, List.forall_mem_cons]
    refine ⟨fun cmd hcmd => ?_, ih _⟩
    rcases BalanceCache.executeTrade_cases c m skip with ⟨-, herr, -⟩ | ⟨-, -, herr, -⟩ | ⟨-, -, hok, -⟩
    · rw [hrefused herr] at hcmd
      cases hcmd
    · rw [hrefused herr] at hcmd
      cases hcmd
    · rw [hok] at hcmd
      cases skip with
      | false => obtain rfl := List.mem_singleton.1 hcmd; rfl
      | true => cases hcmd

/-- **A submission sends statuses of its own order only.** -/
theorem dbCommands_status {s : Engine} {order : OrderEntry} (hk : order.Kind) {cmd : DbCommand}
    (h : cmd ∈ (processSubmitOrder dv s order).dbCommands) (hcmd : cmd.isStatusOf id = true) : order.id = id := by
  have hfound : (matchAndRest dv order (s.orderbook order.pair)).order.id = order.id := by
    rw [(matchAndRest_spec dv hk (s.orderbook order.pair)).1]
    exact (OrderEntry.terms_eq (matchAgainst_terms _ _ _)).1
  rw [← hfound]
  unfold processSubmitOrder at h
  dsimp only at h
  split at h
  · exact absurd h List.not_mem_nil
  · split_ifs at h
    · obtain rfl := List.mem_singleton.1 h
      cases hcmd
    · simp only [finishLimitOrder, List.mem_append, List.mem_singleton, List.mem_flatMap] at h
      rcases h with ((rfl | ⟨t, ht, hmem⟩) | h) | h
      · cases hcmd
      · rw [executeTrades_status _ _ _ t ht cmd hmem] at hcmd
        cases hcmd
      · split_ifs at h
        · obtain rfl := List.mem_singleton.1 h
          simpa [DbCommand.isStatusOf] using hcmd
        · exact absurd h List.not_mem_nil
      · split_ifs at h
        · obtain rfl := List.mem_singleton.1 h
          simpa [DbCommand.isStatusOf] using hcmd
        · exact absurd h List.not_mem_nil

namespace System

variable {s s' : System} {a : SystemAction} {k : ℕ} {orderId : OrderId}

/-- The order of a `cancel_order` that has returned `Ok` is cancelled in the table. -/
def StaysCancelled (s : System) : Prop :=
  ∀ (k : ℕ) userId orderId, s.tasks[k]? = some ⟨.cancelOrder userId orderId, .returned (.ok ())⟩ →
    ∃ row, s.writer.orders.lookup orderId = some row ∧ row.status = "cancelled"

/-- The orders of the `cancel_order`s that have returned `Ok`. -/
def cancelled (s : System) : List OrderId :=
  s.tasks.filterMap fun task =>
    match task with
    | ⟨.cancelOrder _ orderId, .returned (.ok ())⟩ => some orderId
    | _ => none

/-- What is on its way to the table. -/
def onTheWay (s : System) : List DbCommand := s.thread.dbOut ++ (s.writer.dbRx ++ s.writer.batch)

/-- The order whose row a task writes when it goes on. -/
def cancelling (s : System) (id : ℕ) : Option OrderId :=
  match s.tasks[id]? with
  | some ⟨.cancelOrder _ orderId, .writing⟩ => some orderId
  | _ => none

/-- The order that the engine takes when it goes on. -/
def submitting (s : System) : Option OrderId :=
  if s.thread.pastPoll then
    match s.thread.orderRx.head? with
    | some ⟨_, .submitOrder order⟩ => some order.id
    | _ => none
  else none

/-- When `cancel_order` writes, no status of its order is on its way, and the engine takes no
submission of an order whose cancellation has returned. -/
def NoLateStatus (s : System) : SystemAction → Prop
  | .poll id _ => ∀ orderId ∈ s.cancelling id, ∀ cmd ∈ s.onTheWay, cmd.isStatusOf orderId = false
  | .engine => ∀ orderId ∈ s.submitting, orderId ∉ s.cancelled
  | _ => True

instance (s : System) : DecidablePred s.NoLateStatus
  -- not by way of all ids
  | .poll id _ => Option.decidableForallMem (s.cancelling id)
  | .engine => Option.decidableForallMem s.submitting
  | .call _ => inferInstanceAs (Decidable True)
  | .giveUp _ => inferInstanceAs (Decidable True)
  | .writer _ _ => inferInstanceAs (Decidable True)

theorem mem_cancelled :
    orderId ∈ s.cancelled ↔
      ∃ (k : ℕ) (userId : UserId), s.tasks[k]? = some ⟨.cancelOrder userId orderId, .returned (.ok ())⟩ := by
  rw [cancelled, List.mem_filterMap]
  constructor
  · rintro ⟨task, htask, heq⟩
    obtain ⟨k, hk⟩ := List.mem_iff_getElem?.1 htask
    split at heq
    · obtain rfl := Option.some.inj heq
      exact ⟨k, _, hk⟩
    · cases heq
  · rintro ⟨k, userId, hk⟩
    exact ⟨_, List.mem_of_getElem? hk, rfl⟩

theorem mem_cancelled_goTo {task : Task} {stage : Stage} (htask : s.tasks[k]? = some task)
    (h : orderId ∈ (s.goTo k stage).cancelled) :
    orderId ∈ s.cancelled ∨ stage = .returned (.ok ()) ∧ ∃ userId, task.job = .cancelOrder userId orderId := by
  obtain ⟨i, userId, hi⟩ := mem_cancelled.1 h
  by_cases hne : i = k
  · subst hne
    rw [goTo_self htask] at hi
    obtain ⟨hjob, hstage⟩ := Task.mk.inj (Option.some.inj hi)
    exact .inr ⟨hstage, userId, hjob⟩
  · rw [goTo_ne hne] at hi
    exact .inl (mem_cancelled.2 ⟨i, userId, hi⟩)

theorem mem_cancelled_spawn {job : Job} (h : orderId ∈ (s.spawn job).cancelled) : orderId ∈ s.cancelled := by
  obtain ⟨i, userId, hi⟩ := mem_cancelled.1 h
  by_cases hne : i = s.tasks.length
  · -- no call returns `Ok` at once
    subst hne
    rw [spawn_self] at hi
    obtain ⟨-, hstage⟩ := Task.mk.inj (Option.some.inj hi)
    rcases job.opening_cases with ⟨command, ho, -⟩ | ⟨ho, -⟩ | ⟨e, ho, -⟩ <;> rw [ho] at hstage <;> cases hstage
  · rw [spawn_ne hne] at hi
    exact mem_cancelled.2 ⟨i, userId, hi⟩

/-- What keeps the cancelled orders cancelled. -/
structure Settled (s : System) : Prop extends Running s where
  row : ∀ orderId ∈ s.cancelled, ∃ row, s.writer.orders.lookup orderId = some row ∧ row.status = "cancelled"
  quiet : ∀ orderId ∈ s.cancelled, ∀ cmd ∈ s.onTheWay, cmd.isStatusOf orderId = false

/-- A step that cancels nothing, writes nothing and sends nothing more. -/
theorem Settled.same (h : s.Settled) (hrun : s'.Running) (hcancelled : ∀ orderId ∈ s'.cancelled, orderId ∈ s.cancelled)
    (horders : s'.writer.orders = s.writer.orders) (hway : ∀ cmd ∈ s'.onTheWay, cmd ∈ s.onTheWay) : s'.Settled where
  toRunning := hrun
  row orderId ho := by
    rw [horders]
    exact h.row orderId (hcancelled orderId ho)
  quiet orderId ho cmd hcmd := h.quiet orderId (hcancelled orderId ho) cmd (hway cmd hcmd)

/-- A task moves and is not a `cancel_order` that returns `Ok`. -/
theorem Settled.goTo {task : Task} {stage : Stage} (h : s.Settled) (hrun : s'.Running)
    (htasks : s'.tasks = (s.goTo k stage).tasks) (hwriter : s'.writer = s.writer) (hout : s'.thread.dbOut = s.thread.dbOut)
    (htask : s.tasks[k]? = some task) (hstage : stage = .returned (.ok ()) → task.job.isCancel = false) : s'.Settled := by
  refine h.same hrun (fun orderId ho => ?_) (by rw [hwriter]) fun cmd hcmd => ?_
  · rw [cancelled, htasks] at ho
    refine (mem_cancelled_goTo htask ho).resolve_right ?_
    rintro ⟨hreturned, userId, hjob⟩
    have hcancel := hstage hreturned
    rw [hjob] at hcancel
    cases hcancel
  · rwa [onTheWay, hwriter, hout] at hcmd

/-- `cancel_order` writes and returns. -/
theorem Settled.written {userId : UserId} {row : OrderRow} (h : s.Settled)
    (hrun : s'.Running) (htask : s.tasks[k]? = some ⟨.cancelOrder userId orderId, .writing⟩)
    (hrow : s.writer.orders.lookup orderId = some row)
    (hlate : ∀ cmd ∈ s.onTheWay, cmd.isStatusOf orderId = false)
    (htasks : s'.tasks = (s.goTo k (.returned (.ok ()))).tasks)
    (horders : s'.writer.orders = s.writer.orders.update orderId fun row => { row with status := "cancelled" })
    (hway : s'.onTheWay = s.onTheWay) : s'.Settled := by
  have hmem : ∀ x ∈ s'.cancelled, x ∈ s.cancelled ∨ x = orderId := by
    intro x hx
    rw [cancelled, htasks] at hx
    refine (mem_cancelled_goTo htask hx).imp_right ?_
    rintro ⟨-, u, hjob⟩
    exact (Job.cancelOrder.inj hjob).2.symm
  refine ⟨hrun, fun x hx => ?_, fun x hx => ?_⟩
  · rw [horders]
    by_cases hne : x = orderId
    · subst hne
      exact ⟨_, OrdersTable.lookup_update_self hrow _, rfl⟩
    · rw [OrdersTable.lookup_update_ne hne]
      exact h.row x ((hmem x hx).resolve_right hne)
  · rw [hway]
    rcases hmem x hx with hx | rfl
    · exact h.quiet x hx
    · exact hlate

/-- The engine goes on: it sends no status of a cancelled order. -/
theorem Settled.engine {thread : EngineThread} {out : List DbCommand} (h : s.Settled) (hrun : s'.Running)
    (hlate : ∀ orderId ∈ s.submitting, orderId ∉ s.cancelled) (hpass : s.thread.pass dv = some (thread, out))
    (hthread : s'.thread = thread) (htasks : s'.tasks = s.tasks)
    (hwriter : s'.writer = { s.writer with dbRx := s.writer.dbRx ++ out }) : s'.Settled := by
  have hcancelled : s'.cancelled = s.cancelled := by rw [cancelled, htasks, cancelled]
  have hway : s'.onTheWay = thread.dbOut ++ (s.writer.dbRx ++ out ++ s.writer.batch) := by
    rw [onTheWay, hthread, hwriter]
  refine ⟨hrun, by rw [hcancelled, hwriter]; exact h.row, fun orderId ho cmd hcmd => ?_⟩
  rw [hcancelled] at ho
  rw [hway] at hcmd
  cases h.takes hpass with
  | nothing _ _ hout =>
    -- what is left to send moves over to the channel
    apply h.quiet orderId ho
    rw [onTheWay, hout]
    simp only [List.mem_append] at hcmd ⊢
    tauto
  | command r task hhead _ _ hvalid _ hserves =>
    rw [hserves.out, List.append_nil] at hcmd
    rcases List.mem_append.1 hcmd with hcmd | hcmd
    · rw [hserves.dbOut] at hcmd
      cases hr : r.command with
      | submitOrder order =>
        rw [hr] at hcmd hvalid
        by_contra hstatus
        have hid : order.id = orderId := dbCommands_status (validated_kind hvalid) hcmd (by simpa using hstatus)
        refine hlate orderId ?_ ho
        rcases hhead with ⟨hpast, hhead⟩ | hbalance
        · rw [submitting, if_pos hpast, hhead, ← hid]
          obtain ⟨tag, command⟩ := r
          obtain rfl : command = .submitOrder order := hr
          rfl
        · rw [Request.isBalance, hr] at hbalance
          cases hbalance
      | _ => rw [hr] at hcmd; exact absurd hcmd List.not_mem_nil
    · exact h.quiet orderId ho cmd (List.mem_append_right _ hcmd)

theorem Settled.step (h : s.Settled) (hlate : s.NoLateStatus a) (hstep : s.step dv a = some s') : s'.Settled := by
  have hrun := h.toRunning.step hstep
  have hway : ∀ {t : System}, t.writer = s.writer → t.thread = s.thread → ∀ cmd ∈ t.onTheWay, cmd ∈ s.onTheWay := by
    intro t hwriter hthread cmd hcmd
    rwa [onTheWay, hwriter, hthread] at hcmd
  cases step_moves hstep with
  | spawn job hjob => exact h.same hrun (fun _ => mem_cancelled_spawn) rfl (hway rfl rfl)
  | fetch id now userId orderId htask => exact h.goTo hrun rfl rfl rfl htask fun hs => by cases hs
  | joinSubmit id now creator order htask => exact h.goTo hrun rfl rfl rfl htask fun hs => by cases hs
  | joinCancel id now userId orderId row pair htask => exact h.goTo hrun rfl rfl rfl htask fun hs => by cases hs
  | send id now job command thread hjob htask hhead hsend =>
    exact h.goTo hrun rfl rfl (EngineThread.served_send hsend).2 htask fun hs => by cases hs
  | submit id now creator order command thread htask hhead hsend =>
    exact h.goTo hrun rfl rfl (EngineThread.served_send hsend).2 htask fun _ => rfl
  | fail id now userId orderId stage e htask => exact h.goTo hrun rfl rfl rfl htask fun hs => by cases hs
  | leave id a job stage stage' hjob htask hstage hends =>
    refine h.goTo hrun rfl rfl rfl htask fun hs => ?_
    rcases hends with ⟨e, rfl⟩ | ⟨-, rfl⟩ | ⟨-, hcancel, -⟩
    · cases hs
    · cases hs
    · exact hcancel
  | created id now userId request order htask =>
    refine h.same hrun (fun orderId ho => ?_) rfl (hway rfl rfl)
    refine (mem_cancelled_goTo htask (mem_cancelled_spawn ho)).resolve_right ?_
    rintro ⟨-, u, hjob⟩
    cases hjob
  | written id now userId orderId row htask hrow =>
    refine h.written hrun htask hrow (hlate orderId ?_) rfl rfl rfl
    simp [cancelling, htask]
  | engine thread out hpass => exact h.engine hrun hlate hpass rfl rfl rfl
  | writer overdue db writer hpass =>
    have hquiet : ∀ orderId ∈ s.cancelled, ∀ cmd ∈ s.writer.dbRx ++ s.writer.batch, cmd.isStatusOf orderId = false :=
      fun orderId ho cmd hcmd => h.quiet orderId ho cmd (List.mem_append_right _ hcmd)
    refine ⟨hrun, fun orderId ho => ?_, fun orderId ho cmd hcmd => ?_⟩
    · obtain ⟨row, hrow, hstatus⟩ := h.row orderId ho
      exact ⟨row, (pass_lookup hpass hrow (hquiet orderId ho)).1, hstatus⟩
    · obtain ⟨row, hrow, -⟩ := h.row orderId ho
      have hsub := (pass_lookup hpass hrow (hquiet orderId ho)).2
      apply h.quiet orderId ho
      rcases List.mem_append.1 hcmd with hcmd | hcmd
      · exact List.mem_append_left _ hcmd
      · exact List.mem_append_right _ (hsub cmd hcmd)

end System

/-- **A cancelled order stays cancelled in the table**, in a run in which no status of an order is
on its way when its `cancel_order` writes, and the engine takes no submission of an order whose
cancellation has returned. -/
theorem staysCancelled_run {dv : Decimal → Decimal → Decimal} {cache : BalanceCache} {orders : OrdersTable}
    {as : List SystemAction} {s : System}
    (hlate : Machine.Each (System.step dv) System.NoLateStatus (.start (.start cache) orders) as)
    (hrun : Machine.run (System.step dv) (.start (.start cache) orders) as = some s) : s.StaysCancelled := by
  have hsettled : s.Settled := by
    refine Machine.run_inv_of (fun s a t hs ha h => hs.step ha h) ⟨.start cache orders, ?_, ?_⟩ hlate hrun
    · exact fun orderId ho => absurd ho List.not_mem_nil
    · exact fun orderId ho => absurd ho List.not_mem_nil
  exact fun k userId orderId htask => hsettled.row orderId (System.mem_cancelled.2 ⟨k, userId, htask⟩)

/-- A `cancel_order` as task `id` that returns before anything else happens: the engine thread is at
the top of its loop, takes the cancellation and answers. -/
def cancelCall (id : ℕ) (userId : UserId) (orderId : OrderId) : List SystemAction :=
  [.call (.cancelOrder userId orderId), .poll id 0, .poll id 0, .poll id 0, .engine, .engine, .engine, .poll id 0,
    .poll id 0]

/-- The row that the Java server inserts for a limit buy of SOL. -/
def buyRow (userId : UserId) (price amount : Decimal) : OrderRow where
  userId
  orderType := .buy
  orderSide := .limit
  baseMint := "SOL"
  quoteMint := "USDT"
  price := some price
  amount
  filledAmount := 0
  filledQuoteAmount := 0
  status := "pending"
  createdAt := 0

/-- A buy that rests is cancelled, and the DB writer flushes what the engine has sent. -/
theorem staysCancelled_run_buy :
    ∃ s, Machine.run (System.step (· / ·))
        (.start (.start (BalanceCache.new.setBalance 1 "USDT" 100 0)) ((∅ : OrdersTable).insert 2 (buyRow 1 10 2)))
        (createCall 0 1 (buyRequest 2 10 2) ++ [.poll 1 0, .poll 1 0, .engine, .engine, .engine, .engine] ++
          cancelCall 2 1 2 ++ [.writer false fun _ => .ok, .writer true fun _ => .ok]) = some s ∧
      s.cancelled = [2] ∧ s.StaysCancelled := by
  obtain ⟨s, hrun, hcancelled⟩ := Machine.exists_run (System.step (· / ·))
    (.start (.start (BalanceCache.new.setBalance 1 "USDT" 100 0)) ((∅ : OrdersTable).insert 2 (buyRow 1 10 2)))
    (createCall 0 1 (buyRequest 2 10 2) ++ [.poll 1 0, .poll 1 0, .engine, .engine, .engine, .engine] ++
      cancelCall 2 1 2 ++ [.writer false fun _ => .ok, .writer true fun _ => .ok])
    (fun s => s.cancelled = [2]) (by decide +kernel)
  exact ⟨s, hrun, hcancelled, staysCancelled_run (by decide +kernel) hrun⟩

/-- User 2 sells 1 SOL at 10 and user 1 buys 2. The order of user 1 is partly filled and is
cancelled while its status is still in the channel. Then the DB writer flushes. -/
theorem staysCancelled_not :
    ∃ s, Machine.run (System.step (· / ·))
        (.start (.start ((BalanceCache.new.setBalance 1 "USDT" 100 0).setBalance 2 "SOL" 1 0))
          ((∅ : OrdersTable).insert 2 (buyRow 1 10 2)))
        (createCall 0 2 { buyRequest 1 10 1 with orderType := .sell } ++
          [.poll 1 0, .poll 1 0, .engine, .engine, .engine, .engine] ++ createCall 2 1 (buyRequest 2 10 2) ++
          [.poll 3 0, .poll 3 0] ++ List.replicate 6 .engine ++ cancelCall 4 1 2 ++
          List.replicate 4 (.writer false fun _ => .ok) ++ [.writer true fun _ => .ok]) = some s ∧
      ¬ s.StaysCancelled := by
  obtain ⟨s, hrun, htask, hstatus⟩ := Machine.exists_run (System.step (· / ·))
    (.start (.start ((BalanceCache.new.setBalance 1 "USDT" 100 0).setBalance 2 "SOL" 1 0))
      ((∅ : OrdersTable).insert 2 (buyRow 1 10 2)))
    (createCall 0 2 { buyRequest 1 10 1 with orderType := .sell } ++
      [.poll 1 0, .poll 1 0, .engine, .engine, .engine, .engine] ++ createCall 2 1 (buyRequest 2 10 2) ++
      [.poll 3 0, .poll 3 0] ++ List.replicate 6 .engine ++ cancelCall 4 1 2 ++
      List.replicate 4 (.writer false fun _ => .ok) ++ [.writer true fun _ => .ok])
    (fun s => s.tasks[4]? = some ⟨.cancelOrder 1 2, .returned (.ok ())⟩ ∧
      (s.writer.orders.lookup 2).map OrderRow.status = some "partial") (by decide +kernel)
  refine ⟨s, hrun, fun hstays => ?_⟩
  obtain ⟨row, hrow, hcancelled⟩ := hstays 4 1 2 htask
  rw [hrow, Option.map_some, hcancelled] at hstatus
  exact absurd hstatus (by decide)

end CexEngine
