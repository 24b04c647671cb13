import CexEngine.Proof.Answers
import CexEngine.Proof.Delivered

/-!
# What the rows say

The DB writer and the `cancel_order` calls write to the rows of the orders past each other, and the
writer may write a status twice or much later.

* `OrderRow.told`: a row after a command for the database.
* `System.Follows`: a row says what it said at first, or what the engine has sent of its order, and
  it may be cancelled on top if the engine has cancelled the order.

**`rows_run`**: so it is with every row, in every interleaving and with any failures of the
database; and what the engine has sent is what the submission of the order was matched for.
-/

namespace CexEngine

variable {dv : Decimal → Decimal → Decimal} {id : OrderId}

/-! ## Commands -/

/-- The row of an order after a command for the database. -/
def OrderRow.told (id : OrderId) (row : OrderRow) : DbCommand → OrderRow
  | .updateOrderStatus orderId status filled filledQuote =>
    if orderId ≠ id then row
    else if status = "cancelled" then { row with status, filledAmount := baseColumn filled }
    else { row with status, filledAmount := baseColumn filled, filledQuoteAmount := quoteColumn filledQuote }
  | _ => row

/-- What a row says of an order whose submission was matched, as far as its columns go. -/
def OrderRow.filledBy (row : OrderRow) (order : OrderEntry) (fills : List MatchResult) : OrderRow :=
  { row with
    status := if amountUsed fills = order.amount then "filled" else "partial"
    filledAmount := baseColumn (amountUsed fills)
    filledQuoteAmount := quoteColumn (quoteUsed fills) }

/-- The engine inserts no row, and cancels none. -/
def DbCommand.Plain : DbCommand → Prop
  | .insertOrder .. => False
  | .updateOrderStatus _ status _ _ => status ≠ "cancelled"
  | _ => True

theorem OrderRow.told_of_not_status {row : OrderRow} {cmd : DbCommand} (h : cmd.isStatusOf id = false) :
    row.told id cmd = row := by
  cases cmd with
  | updateOrderStatus orderId status filled filledQuote =>
    rw [told, if_pos (by simpa [DbCommand.isStatusOf] using h)]
  | _ => rfl

/-- A status overwrites the one before. -/
theorem OrderRow.told_told {row : OrderRow} {cmd cmd' : DbCommand} (hplain : cmd'.Plain) (h : cmd'.isStatusOf id = true) :
    (row.told id cmd).told id cmd' = row.told id cmd' := by
  cases cmd' with
  | updateOrderStatus orderId status filled filledQuote =>
    obtain rfl : orderId = id := by simpa [DbCommand.isStatusOf] using h
    have hstatus : status ≠ "cancelled" := hplain
    cases cmd with
    | updateOrderStatus orderId' status' filled' filledQuote' =>
      simp only [told]
      split_ifs <;> simp_all
    | _ => rfl
  | _ => cases h

/-- And a cancellation. -/
theorem OrderRow.told_cancelled {row : OrderRow} {cmd : DbCommand} (hplain : cmd.Plain) (h : cmd.isStatusOf id = true) :
    ({ row with status := "cancelled" } : OrderRow).told id cmd = row.told id cmd := by
  cases cmd with
  | updateOrderStatus orderId status filled filledQuote =>
    obtain rfl : orderId = id := by simpa [DbCommand.isStatusOf] using h
    have hstatus : status ≠ "cancelled" := hplain
    simp [told, hstatus]
  | _ => cases h

/-- What a command does to the row of an order. -/
theorem DbCommand.lookup_apply_plain {orders : OrdersTable} {cmd : DbCommand} (hplain : cmd.Plain) :
    (cmd.apply orders).lookup id = (orders.lookup id).map fun row => row.told id cmd := by
  cases cmd with
  | insertOrder => exact hplain.elim
  | updateOrderStatus orderId status filled filledQuote =>
    have hstatus : status ≠ "cancelled" := hplain
    rw [apply, if_neg hstatus]
    by_cases hid : orderId = id
    · subst hid
      cases hrow : orders.lookup orderId with
      | none => simp only [OrdersTable.update, hrow, Option.map_none]
      | some row =>
        rw [OrdersTable.lookup_update_self hrow]
        simp [OrderRow.told, hstatus]
    · rw [OrdersTable.lookup_update_ne (Ne.symm hid)]
      simp only [OrderRow.told, if_pos hid, Option.map_id']
  | insertTrade trade => exact Option.map_id'.symm
  | updateBalance user mint availableDelta lockedDelta => exact Option.map_id'.symm

/-- Trades send the inserts of trades. -/
theorem executeTrades_plain (skip : Bool) : ∀ (ms : List MatchResult) (c : BalanceCache),
    ∀ t ∈ (c.executeTrades skip ms).2, ∀ cmd ∈ (t.2.toOption).getD [], cmd.Plain := by
  intro ms
  induction ms with
  | nil => intro c t ht; exact absurd ht List.not_mem_nil
  | cons m ms ih =>
    intro c
    rw [BalanceCache.executeTrades_cons, List.forall_mem_cons]
    refine ⟨fun cmd hcmd => ?_, ih _⟩
    cases hr : (c.executeTrade m skip).2 with
    | error e =>
      rw [hr] at hcmd
      exact absurd hcmd List.not_mem_nil
    | ok cmds =>
      rcases BalanceCache.executeTrade_cases c m skip with ⟨-, herr, -⟩ | ⟨-, -, herr, -⟩ | ⟨-, -, hok, -⟩
      · rw [hr] at herr
        cases herr
      · rw [hr] at herr
        cases herr
      · change cmd ∈ ((c.executeTrade m skip).2.toOption).getD [] at hcmd
        rw [hok] at hcmd
        cases skip with
        | false => obtain rfl := List.mem_singleton.1 hcmd; trivial
        | true => cases hcmd

theorem dbCommands_plain {s : Engine} {order : OrderEntry} (hk : order.Kind) :
    ∀ cmd ∈ s.dbCommands dv (.submitOrder order), cmd.Plain := by
  intro cmd hcmd
  rcases processSubmitOrder_cases dv s hk with hr | ⟨cache, book, settled, counted, released, hg⟩
  · rw [hr.dbCommands] at hcmd
    exact absurd hcmd List.not_mem_nil
  · rw [hg.dbCommands hk] at hcmd
    rcases List.mem_cons.1 hcmd with rfl | hcmd
    · trivial
    split_ifs at hcmd with hside
    · exact absurd hcmd List.not_mem_nil
    · simp only [List.mem_append, List.mem_flatMap] at hcmd
      rcases hcmd with (⟨t, ht, hmem⟩ | hcmd) | hcmd
      · rw [hg.trades] at ht
        exact executeTrades_plain _ _ _ t ht cmd hmem
      · split_ifs at hcmd
        · obtain rfl := List.mem_singleton.1 hcmd
          exact (by decide : "partial" ≠ "cancelled")
        · exact absurd hcmd List.not_mem_nil
      · split_ifs at hcmd
        · obtain rfl := List.mem_singleton.1 hcmd
          exact (by decide : "filled" ≠ "cancelled")
        · exact absurd hcmd List.not_mem_nil

theorem dbLog_plain : ∀ (cs : List Command) (s : Engine), (∀ c ∈ cs, c.Validated) → ∀ cmd ∈ s.dbLog dv cs, cmd.Plain := by
  intro cs
  induction cs with
  | nil => intro s _ cmd hcmd; exact absurd hcmd List.not_mem_nil
  | cons c cs ih =>
    intro s hcs
    obtain ⟨hc, hcs⟩ := List.forall_mem_cons.1 hcs
    rw [Engine.dbLog]
    refine List.forall_mem_append.2 ⟨?_, ih _ hcs⟩
    cases c with
    | submitOrder order => exact dbCommands_plain (validated_kind hc)
    | _ => exact fun cmd hcmd => absurd hcmd List.not_mem_nil

/-! ## Rows -/

theorem rel_imp {α β : Type*} {R R' : α → β → Prop} {a : Option α} {b : Option β} (h : Option.Rel R a b)
    (himp : ∀ x y, R x y → R' x y) : Option.Rel R' a b := by
  cases h with
  | some hR => exact .some (himp _ _ hR)
  | none => exact .none

theorem rel_imp_map {α β : Type*} {R R' : α → β → Prop} {f : β → β} {a : Option α} {b : Option β}
    (h : Option.Rel R a b) (himp : ∀ x y, R x y → R' x (f y)) : Option.Rel R' a (b.map f) := by
  cases h with
  | some hR => exact .some (himp _ _ hR)
  | none => exact .none

namespace System

variable {cache : BalanceCache} {orders table : OrdersTable} {s s' : System} {a : SystemAction} {log log' : List DbCommand}
  {row₀ row : OrderRow} {cmd : DbCommand}

/-- The engine has cancelled the order. -/
def HasCancelled (s : System) (id : OrderId) : Prop :=
  ∃ h ∈ s.thread.served, ∃ userId pair order,
    h.request.command = .cancelOrder id userId pair ∧ h.reply = .cancelled (.ok order)

/-- What a row may say that said `row₀` at first, when `log` has been sent. -/
def Follows (s : System) (log : List DbCommand) (id : OrderId) (row₀ row : OrderRow) : Prop :=
  ∃ base, (base = row₀ ∨ ∃ cmd ∈ log, cmd.isStatusOf id = true ∧ base = row₀.told id cmd) ∧
    (row = base ∨ row = { base with status := "cancelled" } ∧ s.HasCancelled id)

/-- No row comes or goes, and each follows what it said at first. -/
def RowsFollow (s : System) (log : List DbCommand) (orders table : OrdersTable) : Prop :=
  ∀ id, Option.Rel (s.Follows log id) (orders.lookup id) (table.lookup id)

theorem Follows.mono (h : s.Follows log id row₀ row) (hlog : ∀ cmd ∈ log, cmd ∈ log')
    (hserved : s.thread.served <+: s'.thread.served) : s'.Follows log' id row₀ row := by
  obtain ⟨base, hbase, hrow⟩ := h
  refine ⟨base, hbase.imp_right ?_, hrow.imp_right fun hc => ⟨hc.1, ?_⟩⟩
  · rintro ⟨cmd, hcmd, hstatus, rfl⟩
    exact ⟨cmd, hlog cmd hcmd, hstatus, rfl⟩
  · obtain ⟨handled, hmem, hcancelled⟩ := hc.2
    exact ⟨handled, hserved.subset hmem, hcancelled⟩

/-- A command of the log is written to a row. -/
theorem Follows.told (h : s.Follows log id row₀ row) (hcmd : cmd ∈ log) (hplain : cmd.Plain) :
    s.Follows log id row₀ (row.told id cmd) := by
  cases hstatus : cmd.isStatusOf id with
  | false =>
    rw [OrderRow.told_of_not_status hstatus]
    exact h
  | true =>
    -- it overwrites whatever there was
    obtain ⟨base, hbase, hrow⟩ := h
    have htold : row.told id cmd = base.told id cmd := by
      rcases hrow with rfl | ⟨rfl, -⟩
      · rfl
      · exact OrderRow.told_cancelled hplain hstatus
    refine ⟨row₀.told id cmd, .inr ⟨cmd, hcmd, hstatus, rfl⟩, .inl (htold.trans ?_)⟩
    rcases hbase with rfl | ⟨cmd', -, -, rfl⟩
    · rfl
    · exact OrderRow.told_told hplain hstatus

theorem RowsFollow.mono (h : s.RowsFollow log orders table) (hlog : ∀ cmd ∈ log, cmd ∈ log')
    (hserved : s.thread.served <+: s'.thread.served) : s'.RowsFollow log' orders table := by
  intro id
  exact rel_imp (h id) fun _ _ hfollows => hfollows.mono hlog hserved

theorem RowsFollow.apply (h : s.RowsFollow log orders table) (hcmd : cmd ∈ log) (hplain : cmd.Plain) :
    s.RowsFollow log orders (cmd.apply table) := by
  intro id
  rw [DbCommand.lookup_apply_plain hplain]
  exact rel_imp_map (h id) fun _ _ hfollows => hfollows.told hcmd hplain

theorem RowsFollow.flush {w : DbWriter} (db : ℕ → Attempt) (h : s.RowsFollow log orders w.orders)
    (hbatch : ∀ cmd ∈ w.batch, cmd ∈ log) (hplain : ∀ cmd ∈ log, cmd.Plain) :
    s.RowsFollow log orders (w.flush db).orders := by
  have hfold : ∀ (cmds : List DbCommand) (table : OrdersTable), (∀ cmd ∈ cmds, cmd ∈ log) →
      s.RowsFollow log orders table → s.RowsFollow log orders (cmds.foldl DbCommand.apply table) := by
    intro cmds
    induction cmds with
    | nil => exact fun table _ ht => ht
    | cons cmd cmds ih =>
      intro table hcmds ht
      obtain ⟨hcmd, hcmds⟩ := List.forall_mem_cons.1 hcmds
      exact ih _ hcmds (ht.apply hcmd (hplain cmd hcmd))
  obtain ⟨-, ⟨-, hcommitted, -, horders⟩ | ⟨-, -, -, horders⟩⟩ := flushBatch_cases db w.batch w.orders
  · rw [DbWriter.flush_orders, horders, hcommitted]
    refine hfold _ _ (fun cmd hcmd => hbatch cmd ?_) h
    exact List.mem_of_mem_filter ((processedBatch_perm w.batch).mem_iff.1 hcmd)
  · rw [DbWriter.flush_orders, horders]
    exact h

/-! ## Steps -/

/-- `cancel_order` writes to the row of an order that the engine has cancelled. -/
theorem Answered.hasCancelled {k : ℕ} {userId : UserId} (h : s.Answered)
    (htask : s.tasks[k]? = some ⟨.cancelOrder userId id, .writing⟩) : s.HasCancelled id := by
  obtain ⟨handled, hmem, rfl, hafter⟩ := h.answered k _ .writing htask rfl rfl
  have hsent : handled.request ∈ s.thread.sent :=
    h.accounted.once.subset (List.mem_append_left _ (List.mem_map_of_mem hmem))
  obtain ⟨pair, hcommand⟩ := h.sent _ hsent _ (task_job htask)
  cases hreply : handled.reply with
  | cancelled answer =>
    rw [hreply] at hafter
    cases answer with
    | ok order => exact ⟨handled, hmem, userId, pair, order, hcommand, hreply⟩
    | error e => exact absurd hafter (by simp [Reply.answer, Except.toOption, Job.After])
  | _ =>
    rw [hreply] at hafter
    exact hafter.elim

theorem Follows.cancel (h : s.Follows log id row₀ row) (hcancelled : s.HasCancelled id) :
    s.Follows log id row₀ { row with status := "cancelled" } := by
  obtain ⟨base, hbase, rfl | ⟨rfl, -⟩⟩ := h
  · exact ⟨row, hbase, .inr ⟨rfl, hcancelled⟩⟩
  · exact ⟨base, hbase, .inr ⟨rfl, hcancelled⟩⟩

theorem RowsFollow.cancel {orderId : OrderId} (h : s.RowsFollow log orders table) (hcancelled : s.HasCancelled orderId) :
    s.RowsFollow log orders (table.update orderId fun row => { row with status := "cancelled" }) := by
  intro id
  by_cases hid : id = orderId
  · subst hid
    have hlookup : (table.update id fun row => { row with status := "cancelled" }).lookup id =
        (table.lookup id).map fun row => { row with status := "cancelled" } := by
      cases hrow : table.lookup id with
      | none => simp only [OrdersTable.update, hrow, Option.map_none]
      | some row => exact OrdersTable.lookup_update_self hrow _
    rw [hlookup]
    exact rel_imp_map (h id) fun _ _ hfollows => hfollows.cancel hcancelled
  · rw [OrdersTable.lookup_update_ne hid]
    exact h id

/-- The writer goes on. -/
theorem RowsFollow.pass {w w' : DbWriter} {db : ℕ → Attempt} {overdue : Bool} (h : s.RowsFollow log orders w.orders)
    (hkeeps : w.Keeps) (hpass : w.pass db overdue = some w') (hlog : ∀ cmd ∈ w.received ++ w.dbRx, cmd ∈ log)
    (hplain : ∀ cmd ∈ log, cmd.Plain) : s.RowsFollow log orders w'.orders := by
  obtain ⟨u, hu, -, hwork⟩ := DbWriter.pass_cases hpass
  have htaken : u.orders = w.orders ∧ ∀ cmd ∈ u.batch, cmd ∈ log := by
    rcases hu with rfl | ⟨cmd, rest, hrx, rfl⟩
    · exact ⟨rfl, fun cmd hcmd => hlog cmd (List.mem_append_left _ (hkeeps.batch cmd hcmd))⟩
    · refine ⟨rfl, fun c hc => hlog c ?_⟩
      rcases List.mem_append.1 hc with hc | hc
      · exact List.mem_append_left _ (hkeeps.batch c hc)
      · rw [List.mem_singleton.1 hc, hrx]
        exact List.mem_append_right _ List.mem_cons_self
  rw [← htaken.1] at h
  rcases hwork with hs | hs
  · rw [hs.orders]
    exact h
  · rw [hs.orders]
    exact h.flush db htaken.2 hplain

/-- What every state has. -/
structure Recorded (dv : Decimal → Decimal → Decimal) (cache : BalanceCache) (orders : OrdersTable) (s : System) :
    Prop where
  answered : s.Answered
  keeps : s.writer.Keeps
  piped : s.Piped dv (.start cache)
  rows : s.RowsFollow ((Engine.start cache).dbLog dv s.thread.commands) orders s.writer.orders

theorem Recorded.start (dv : Decimal → Decimal → Decimal) (cache : BalanceCache) (orders : OrdersTable) :
    (System.start (.start cache) orders).Recorded dv cache orders where
  answered := .start orders
  keeps := .start orders
  piped := .start _ orders
  rows id := by
    change Option.Rel _ (orders.lookup id) (orders.lookup id)
    cases orders.lookup id with
    | none => exact .none
    | some row => exact .some ⟨row, .inl rfl, .inl rfl⟩

theorem commands_extend (h : s.Running) (hstep : s.step dv a = some s') : s.thread.commands <+: s'.thread.commands :=
  ((served_extends h hstep).map Handled.request).map Request.command

theorem Recorded.step (h : s.Recorded dv cache orders) (hstep : s.step dv a = some s') :
    s'.Recorded dv cache orders where
  answered := h.answered.step hstep
  keeps := keeps_step h.keeps hstep
  piped := h.piped.step hstep
  rows := by
    have hrun := h.answered.toRunning
    have hlog : ∀ cmd ∈ (Engine.start cache).dbLog dv s.thread.commands,
        cmd ∈ (Engine.start cache).dbLog dv s'.thread.commands := by
      obtain ⟨more, hmore⟩ := commands_extend hrun hstep
      intro cmd hcmd
      rw [← hmore, Engine.dbLog_append]
      exact List.mem_append_left _ hcmd
    have hserved := served_extends hrun hstep
    cases step_moves hstep with
    | writer overdue db writer hpass =>
      refine h.rows.pass h.keeps hpass (fun cmd hcmd => ?_) (dbLog_plain _ _ hrun.validated)
      rw [← h.piped.piped, System.piped]
      exact List.mem_append_left _ hcmd
    | written id now userId orderId row htask hrow =>
      exact (h.rows.mono hlog hserved).cancel (h.answered.hasCancelled htask)
    | _ => exact h.rows.mono hlog hserved

/-! ## What the submission of an order says -/

theorem exists_submitted {cs : List Command} (h : id ∈ submittedIds cs) :
    ∃ order, order.id = id ∧ .submitOrder order ∈ cs := by
  obtain ⟨c, hc, hid⟩ := List.mem_filterMap.1 h
  cases c with
  | submitOrder order => exact ⟨order, Option.some.inj hid, hc⟩
  | _ => cases hid

/-- What a row may say that said `row₀` at first. -/
def Says (dv : Decimal → Decimal → Decimal) (cache : BalanceCache) (s : System) (id : OrderId) (row₀ row : OrderRow) :
    Prop :=
  ∃ base, (base = row₀ ∨ ∃ done order more, s.thread.commands = done ++ .submitOrder order :: more ∧ order.id = id ∧
      order.orderSide = .limit ∧
      let fills := ((Engine.start cache).run dv done).fillsOf dv (.submitOrder order)
      fills ≠ [] ∧ base = row₀.filledBy order fills) ∧
    (row = base ∨ row = { base with status := "cancelled" } ∧ s.HasCancelled id)

/-- A status in the log is the one of the order's own submission. -/
theorem Recorded.status (h : s.Recorded dv cache orders) (hids : (submittedIds s.thread.commands).Nodup)
    (hcmd : cmd ∈ (Engine.start cache).dbLog dv s.thread.commands) (hstatus : cmd.isStatusOf id = true) (row : OrderRow) :
    ∃ done order more, s.thread.commands = done ++ .submitOrder order :: more ∧ order.id = id ∧ order.orderSide = .limit ∧
      let fills := ((Engine.start cache).run dv done).fillsOf dv (.submitOrder order)
      fills ≠ [] ∧ row.told id cmd = row.filledBy order fills := by
  have hvalid := h.answered.toRunning.validated
  have hmem : cmd ∈ ((Engine.start cache).dbLog dv s.thread.commands).filter (·.isStatusOf id) :=
    List.mem_filter.2 ⟨hcmd, hstatus⟩
  have hid : id ∈ submittedIds s.thread.commands := by
    by_contra hnot
    rw [statuses_others _ _ hvalid hnot] at hmem
    exact absurd hmem List.not_mem_nil
  obtain ⟨order, rfl, horder⟩ := exists_submitted hid
  obtain ⟨done, more, hcommands⟩ := List.append_of_mem horder
  rw [hcommands] at hvalid hids hmem
  rw [statuses_log dv cache hvalid hids, Engine.statusOf] at hmem
  by_cases hfilled : order.orderSide = .limit ∧
      ((Engine.start cache).run dv done).fillsOf dv (.submitOrder order) ≠ []
  · rw [if_pos hfilled] at hmem
    refine ⟨done, order, more, hcommands, rfl, hfilled.1, hfilled.2, ?_⟩
    rw [List.mem_singleton.1 hmem, OrderRow.told, if_neg (not_not.2 rfl), if_neg]
    · rfl
    · split_ifs <;> decide
  · rw [if_neg hfilled] at hmem
    exact absurd hmem List.not_mem_nil

end System

/-- **What the rows say**, in every interleaving of calls, tasks, engine thread and DB writer, with
any failures of the database: no row comes or goes, and each says what it said at first or what the
submission of its order was matched for; or it is cancelled, when the engine has cancelled the
order. No row says what its order was matched for later. -/
theorem rows_run {dv : Decimal → Decimal → Decimal} {cache : BalanceCache} {orders : OrdersTable}
    {as : List SystemAction} {s : System}
    (hrun : Machine.run (System.step dv) (.start (.start cache) orders) as = some s)
    (hids : (submittedIds s.thread.commands).Nodup) (id : OrderId) :
    Option.Rel (s.Says dv cache id) (orders.lookup id) (s.writer.orders.lookup id) := by
  have h : s.Recorded dv cache orders :=
    Machine.run_inv (fun _ _ _ h hstep => h.step hstep) (System.Recorded.start dv cache orders) hrun
  refine rel_imp (h.rows id) fun row₀ row hfollows => ?_
  obtain ⟨base, hbase, hrow⟩ := hfollows
  refine ⟨base, hbase.imp_right ?_, hrow⟩
  rintro ⟨cmd, hcmd, hstatus, rfl⟩
  exact h.status hids hcmd hstatus row₀

/-- User 2 sells 3 SOL at 1.2345678 and user 1 buys 1.23 of them, for 1.518518394; then user 2 cancels.
The row of the sale is cancelled and says nothing of the 1.23. -/
theorem rows_run_sale :
    let sale : OrderRow := { buyRow 2 1.2345678 3 with orderType := .sell }
    ∃ s, Machine.run (System.step (· / ·))
        (.start (.start ((BalanceCache.new.setBalance 1 "USDT" 100 0).setBalance 2 "SOL" 3 0))
          (((∅ : OrdersTable).insert 2 (buyRow 1 1.2345678 1.23)).insert 1 sale))
        (createCall 0 2 { buyRequest 1 1.2345678 3 with orderType := .sell } ++
          [.poll 1 0, .poll 1 0, .engine, .engine, .engine, .engine] ++ createCall 2 1 (buyRequest 2 1.2345678 1.23) ++
          [.poll 3 0, .poll 3 0] ++ List.replicate 6 .engine ++ cancelCall 4 2 1 ++
          List.replicate 4 (.writer false fun _ => .ok) ++ [.writer true fun _ => .ok]) = some s ∧
      s.writer.orders.lookup 2 = some { buyRow 1 1.2345678 1.23 with
        status := "filled", filledAmount := 1.23, filledQuoteAmount := 1.51851839 } ∧
      s.Says (· / ·) ((BalanceCache.new.setBalance 1 "USDT" 100 0).setBalance 2 "SOL" 3 0) 1 sale
        { sale with status := "cancelled" } := by
  intro sale
  obtain ⟨s, hrun, hids, hbuy, hsale⟩ := Machine.exists_run (System.step (· / ·))
    (.start (.start ((BalanceCache.new.setBalance 1 "USDT" 100 0).setBalance 2 "SOL" 3 0))
      (((∅ : OrdersTable).insert 2 (buyRow 1 1.2345678 1.23)).insert 1 sale))
    (createCall 0 2 { buyRequest 1 1.2345678 3 with orderType := .sell } ++
      [.poll 1 0, .poll 1 0, .engine, .engine, .engine, .engine] ++ createCall 2 1 (buyRequest 2 1.2345678 1.23) ++
      [.poll 3 0, .poll 3 0] ++ List.replicate 6 .engine ++ cancelCall 4 2 1 ++
      List.replicate 4 (.writer false fun _ => .ok) ++ [.writer true fun _ => .ok])
    (fun s => submittedIds s.thread.commands = [1, 2] ∧
      s.writer.orders.lookup 2 = some { buyRow 1 1.2345678 1.23 with
        status := "filled", filledAmount := 1.23, filledQuoteAmount := 1.51851839 } ∧
      s.writer.orders.lookup 1 = some { sale with status := "cancelled" }) (by decide +kernel)
  refine ⟨s, hrun, hbuy, ?_⟩
  have hrel := rows_run hrun (by rw [hids]; decide) 1
  rw [AList.lookup_insert, hsale] at hrel
  cases hrel with
  | some hsays => exact hsays

end CexEngine
