import CexEngine.Proof.Cancelled
import CexEngine.Proof.Lifetime
import CexEngine.Proof.Serial

/-!
# What the database is told

The DB writer may fail to flush, commit a command again and keep it for the next flush.

* `delivered_run`: **no trade and no status is lost on its way**: whatever the engine has sent is
  committed, in the batch, in the channel or in the hands of the engine thread, and nothing else
  is committed.
* `statuses_run`: **an order's row is told of its fills once at most**, by its own submission. The
  fills that it has as a resting order are told to no row.
-/

namespace CexEngine

variable {dv : Decimal → Decimal → Decimal}

namespace DbWriter

variable {db : ℕ → Attempt} {w w' : DbWriter}

/-- What was received is committed or is still in the batch, and what is committed was received. -/
structure Keeps (w : DbWriter) : Prop where
  kept : (w.received.filter fun cmd => !cmd.isUpdateBalance).Subperm (w.committed ++ w.batch)
  batch : ∀ cmd ∈ w.batch, cmd ∈ w.received
  committed : ∀ cmd ∈ w.committed, cmd ∈ w.received ∧ cmd.isUpdateBalance = false

theorem Keeps.start (orders : OrdersTable) : (DbWriter.start orders).Keeps :=
  ⟨List.nil_subperm, fun _ h => absurd h List.not_mem_nil, fun _ h => absurd h List.not_mem_nil⟩

theorem Keeps.take (cmd : DbCommand) (rest : List DbCommand) (h : w.Keeps) : (w.take cmd rest).Keeps := by
  have hreceived : ∀ c ∈ w.received, c ∈ (w.take cmd rest).received := fun c hc => List.mem_append_left _ hc
  refine ⟨?_, fun c hc => ?_, fun c hc => ⟨hreceived c (h.committed c hc).1, (h.committed c hc).2⟩⟩
  · simp only [DbWriter.take, List.filter_append]
    change List.Subperm _ (w.committed ++ (w.batch ++ [cmd]))
    rw [← List.append_assoc]
    exact h.kept.append List.filter_sublist.subperm
  · rcases List.mem_append.1 hc with hc | hc
    · exact hreceived c (h.batch c hc)
    · exact List.mem_append_right _ hc

/-- **A flush loses nothing**, if it fails and if it succeeds: then it has committed the whole batch. -/
theorem Keeps.flush (db : ℕ → Attempt) (h : w.Keeps) : (w.flush db).Keeps := by
  obtain ⟨-, ⟨-, hcommitted, hbatch, -⟩ | ⟨-, hcommitted, hbatch, -⟩⟩ := flushBatch_cases db w.batch w.orders
  · have hprocessed := processedBatch_perm w.batch
    refine ⟨?_, fun c hc => ?_, fun c hc => ?_⟩
    · rw [committed_flush, hcommitted]
      have hkept := h.kept.filter fun cmd => !cmd.isUpdateBalance
      rw [List.filter_filter, List.filter_append] at hkept
      simp only [Bool.and_self] at hkept
      have hleft : (w.committed.filter (fun cmd => !cmd.isUpdateBalance) ++
          w.batch.filter fun cmd => !cmd.isUpdateBalance).Subperm (w.committed ++ processedBatch w.batch) :=
        List.filter_sublist.subperm.append hprocessed.symm.subperm
      exact (hkept.trans hleft).trans (List.sublist_append_left _ _).subperm
    · rw [flush_batch, hbatch] at hc
      exact h.batch c (List.mem_of_mem_drop hc)
    · rw [committed_flush, hcommitted] at hc
      rcases List.mem_append.1 hc with hc | hc
      · exact h.committed c hc
      · obtain ⟨hmem, hkind⟩ := List.mem_filter.1 (hprocessed.subset hc)
        exact ⟨h.batch c hmem, by simpa using hkind⟩
  · refine ⟨?_, fun c hc => ?_, fun c hc => ?_⟩
    · rw [committed_flush, hcommitted, List.append_nil, flush_batch, hbatch]
      exact h.kept
    · rw [flush_batch, hbatch] at hc
      exact h.batch c hc
    · rw [committed_flush, hcommitted, List.append_nil] at hc
      exact h.committed c hc

theorem Keeps.same (h : w.Keeps) (hs : w.SameWork w') : w'.Keeps := by
  have hcommitted : w'.committed = w.committed := by rw [DbWriter.committed, hs.flushes]; rfl
  exact ⟨by rw [hs.received, hcommitted, hs.batch]; exact h.kept, by rw [hs.batch, hs.received]; exact h.batch,
    by rw [hcommitted, hs.received]; exact h.committed⟩

theorem Keeps.pass {overdue : Bool} (h : w.Keeps) (hpass : w.pass db overdue = some w') : w'.Keeps := by
  obtain ⟨u, hu, -, hwork⟩ := pass_cases hpass
  have hkeeps : u.Keeps := by
    rcases hu with rfl | ⟨cmd, rest, -, rfl⟩
    · exact h
    · exact h.take cmd rest
  rcases hwork with hs | hs
  · exact hkeeps.same hs
  · exact (hkeeps.flush db).same hs

end DbWriter

namespace System

variable {s s' : System} {a : SystemAction}

/-- The commands on their way from the engine thread to the table, with those that are there. -/
def sentToDb (s : System) : List DbCommand := s.writer.committed ++ s.writer.batch ++ s.writer.dbRx ++ s.thread.dbOut

theorem keeps_step (h : s.writer.Keeps) (hstep : s.step dv a = some s') : s'.writer.Keeps := by
  cases step_moves hstep with
  | engine => exact h.same ⟨rfl, rfl, rfl, rfl⟩
  | writer overdue db writer hpass => exact h.pass hpass
  | written => exact ⟨h.kept, h.batch, h.committed⟩
  | _ => exact h

end System

/-- **Nothing is lost on its way to the database**, and nothing is made up: in every interleaving,
with any failures of the database, every trade and every status that the begun requests give rise
to is committed, in the batch of the writer, in its channel or still to be sent. -/
theorem delivered_run (dv : Decimal → Decimal → Decimal) (origin : Engine) (orders : OrdersTable)
    {as : List SystemAction} {s : System}
    (hrun : Machine.run (System.step dv) (.start origin orders) as = some s) :
    ((origin.dbLog dv s.thread.commands).filter fun cmd => !cmd.isUpdateBalance).Subperm s.sentToDb ∧
      ∀ cmd ∈ s.writer.committed, cmd ∈ origin.dbLog dv s.thread.commands ∧ cmd.isUpdateBalance = false := by
  obtain ⟨hkeeps, hpiped⟩ := Machine.run_inv (I := fun s => s.writer.Keeps ∧ s.Piped dv origin)
    (fun _ _ _ h hstep => ⟨System.keeps_step h.1 hstep, h.2.step hstep⟩)
    ⟨DbWriter.Keeps.start orders, System.Piped.start origin orders⟩ hrun
  rw [← hpiped.piped, System.piped, System.sentToDb]
  refine ⟨?_, fun cmd hcmd => ⟨?_, (hkeeps.committed cmd hcmd).2⟩⟩
  · rw [List.filter_append, List.filter_append]
    exact (hkeeps.kept.append List.filter_sublist.subperm).append List.filter_sublist.subperm
  · exact List.mem_append_left _ (List.mem_append_left _ (hkeeps.committed cmd hcmd).1)

/-- The trade of two orders, whose first flush fails to commit. -/
theorem delivered_run_failed :
    ∃ s, Machine.run (System.step (· / ·))
        (.start (.start ((BalanceCache.new.setBalance 1 "USDT" 100 0).setBalance 2 "SOL" 1 0)) ∅)
        (createCall 0 2 { buyRequest 1 10 1 with orderType := .sell } ++
          [.poll 1 0, .poll 1 0, .engine, .engine, .engine, .engine] ++ createCall 2 1 (buyRequest 2 10 2) ++
          [.poll 3 0, .poll 3 0] ++ List.replicate 5 .engine ++ List.replicate 3 (.writer false fun _ => .ok) ++
          [.writer false fun _ => .ok, .writer true fun _ => ⟨none, fun _ => none, some "lost"⟩]) = some s ∧
      s.writer.flushes.map Flush.isOk = [false] ∧
      (((Engine.start ((BalanceCache.new.setBalance 1 "USDT" 100 0).setBalance 2 "SOL" 1 0)).dbLog (· / ·)
        s.thread.commands).filter fun cmd => !cmd.isUpdateBalance).Subperm s.sentToDb := by
  obtain ⟨s, hrun, hfailed⟩ := Machine.exists_run (System.step (· / ·))
    (.start (.start ((BalanceCache.new.setBalance 1 "USDT" 100 0).setBalance 2 "SOL" 1 0)) ∅)
    (createCall 0 2 { buyRequest 1 10 1 with orderType := .sell } ++
      [.poll 1 0, .poll 1 0, .engine, .engine, .engine, .engine] ++ createCall 2 1 (buyRequest 2 10 2) ++
      [.poll 3 0, .poll 3 0] ++ List.replicate 5 .engine ++ List.replicate 3 (.writer false fun _ => .ok) ++
      [.writer false fun _ => .ok, .writer true fun _ => ⟨none, fun _ => none, some "lost"⟩])
    (fun s => s.writer.flushes.map Flush.isOk = [false]) (by decide +kernel)
  exact ⟨s, hrun, hfailed, (delivered_run (· / ·) _ ∅ hrun).1⟩

/-! ## The rows of the orders -/

/-- What the row of a submitted order is told: for a limit order that is matched, how much of it. -/
def Engine.statusOf (dv : Decimal → Decimal → Decimal) (s : Engine) (order : OrderEntry) : List DbCommand :=
  let results := s.fillsOf dv (.submitOrder order)
  if order.orderSide = .limit ∧ results ≠ [] then
    [.updateOrderStatus order.id (if amountUsed results = order.amount then "filled" else "partial")
      (amountUsed results) (quoteUsed results)]
  else []

section Statuses

variable {s : Engine} {order : OrderEntry} {id : OrderId}

/-- A limit order is filled exactly when it is matched for its amount. -/
theorem remaining_eq_zero_iff (dv : Decimal → Decimal → Decimal) (hk : order.Kind) (hplaced : s.Placed)
    (hside : order.orderSide = .limit) :
    ((order.matching dv (s.orderbook order.pair)).incoming.remainingAmount = 0 ↔
        amountUsed (order.matching dv (s.orderbook order.pair)).results = order.amount) ∧
      0 < order.amount ∧ 0 ≤ (order.matching dv (s.orderbook order.pair)).incoming.remainingAmount := by
  have hquantity : order.Quantity := by
    cases hk with
    | limitBuy _ _ _ _ _ hquantity => exact hquantity
    | limitSell _ _ _ _ _ hquantity => exact hquantity
    | marketSell _ hmarket => rw [hmarket] at hside; cases hside
    | marketBuy _ _ hmarket => rw [hmarket] at hside; cases hside
  have hlive : Live order (order.matching dv (s.orderbook order.pair)).incoming :=
    (matching_rests hk (hplaced order.pair _)).live
  obtain ⟨hnonneg, hadds, -⟩ := hlive.quantity (hlive.budget_none.2 hquantity.budget)
  have hadds := hadds inferInstance
  obtain ⟨hfilled, hamount, -⟩ := matching_amount hk (hplaced order.pair _) hquantity.budget
  refine ⟨⟨fun h => by linarith, fun h => by linarith⟩, ?_, hnonneg⟩
  rw [hquantity.amount]
  exact hquantity.remaining_pos

theorem Refused.dbCommands (hr : Refused dv s order) : s.dbCommands dv (.submitOrder order) = [] := by
  obtain ⟨e, he⟩ := (BalanceCache.lockBalanceForOrder_refused hr.funds).1
  simp only [Engine.dbCommands, processSubmitOrder, he]

theorem OrderEntry.Kind.limit_of_ne_market (hk : order.Kind) (h : order.orderSide ≠ .market) :
    order.orderSide = .limit := by
  cases hk with
  | limitBuy _ _ hlimit => exact hlimit
  | limitSell _ _ hlimit => exact hlimit
  | marketSell _ hmarket => exact absurd hmarket h
  | marketBuy _ _ hmarket => exact absurd hmarket h

/-- What a submission sends whose lock succeeds. -/
theorem Granted.dbCommands {cache : BalanceCache} {book : OrderBook}
    {settled : BalanceCache × List (MatchResult × Except EngineError (List DbCommand))}
    {counted : List MatchResult} {released : BalanceCache × Option (Except EngineError Unit)} (hk : order.Kind)
    (hg : Granted dv s order cache book settled counted released) : s.dbCommands dv (.submitOrder order) =
      .updateBalance order.userId order.lock.1 (some (-order.lock.2)) (some order.lock.2) ::
        if order.orderSide = .market then []
        else
          let found := order.matching dv (s.orderbook order.pair)
          let status (text : String) : DbCommand :=
            .updateOrderStatus order.id text (amountUsed found.results) (quoteUsed found.results)
          settled.2.flatMap (fun t => (t.2.toOption).getD []) ++
            (if found.results ≠ [] ∧ found.incoming.remainingAmount > 0 then [status "partial"] else []) ++
            (if found.incoming.remainingAmount = 0 then [status "filled"] else []) := by
  obtain ⟨hfound, hresults, -⟩ := matchAndRest_spec dv hk (s.orderbook order.pair)
  have hid : (order.matching dv (s.orderbook order.pair)).incoming.id = order.id :=
    (OrderEntry.terms_eq (matchAgainst_terms _ _ _)).1
  have hlocked := BalanceCache.lockBalanceForOrder_ok hg.funds
  by_cases hside : order.orderSide = .market
  · simp only [Engine.dbCommands, processSubmitOrder, hlocked, hside, if_true, finishMarketOrder]
  · simp only [Engine.dbCommands, processSubmitOrder, hlocked, hside, if_false, finishLimitOrder, hresults, hfound, hid,
      hg.trades, hg.lock, decide_false, List.append_assoc, List.singleton_append]
    rfl

/-- **What a submission tells**: its own row, once if it is matched. -/
theorem statuses_submit (hk : order.Kind) (hplaced : s.Placed) :
    (s.dbCommands dv (.submitOrder order)).filter (·.isStatusOf order.id) = s.statusOf dv order := by
  rw [Engine.statusOf]
  rcases processSubmitOrder_cases dv s hk with hr | ⟨cache, book, settled, counted, released, hg⟩
  · rw [hr.fillsOf, hr.dbCommands]
    simp
  · rw [hg.fillsOf hk, hg.dbCommands hk, List.filter_cons_of_neg (by simp [DbCommand.isStatusOf])]
    by_cases hside : order.orderSide = .market
    · simp [hside]
    have hlimit := hk.limit_of_ne_market hside
    obtain ⟨hfilled, hamount, hnonneg⟩ := remaining_eq_zero_iff dv hk hplaced hlimit
    have htrades : (settled.2.flatMap fun t => (t.2.toOption).getD []).filter (·.isStatusOf order.id) = [] := by
      rw [List.filter_eq_nil_iff]
      intro cmd hcmd
      obtain ⟨t, ht, hmem⟩ := List.mem_flatMap.1 hcmd
      rw [hg.trades] at ht
      rw [executeTrades_status _ _ _ t ht cmd hmem]
      exact Bool.false_ne_true
    rw [if_neg hside]
    simp only [List.filter_append, htrades, List.nil_append]
    set results := (order.matching dv (s.orderbook order.pair)).results with hresults
    by_cases hzero : (order.matching dv (s.orderbook order.pair)).incoming.remainingAmount = 0
    · -- filled, so matched
      have hne : results ≠ [] := by
        intro hnil
        have := hfilled.1 hzero
        rw [hnil] at this
        rw [amountUsed_eq_sum, List.map_nil, List.sum_nil] at this
        linarith
      simp [hzero, hne, hlimit, hfilled.1 hzero, DbCommand.isStatusOf]
    · have hpos := lt_of_le_of_ne hnonneg (Ne.symm hzero)
      have hpart : ¬ amountUsed results = order.amount := fun h => hzero (hfilled.2 h)
      by_cases hne : results = []
      · simp [hzero, hne]
      · simp [hzero, hne, hlimit, hpos, hpart, DbCommand.isStatusOf]

/-- Commands that submit no order of an id send no status of it. -/
theorem statuses_others : ∀ (cs : List Command) (s : Engine), (∀ c ∈ cs, c.Validated) → id ∉ submittedIds cs →
    (s.dbLog dv cs).filter (·.isStatusOf id) = [] := by
  intro cs
  induction cs with
  | nil => intro s _ _; rfl
  | cons c cs ih =>
    intro s hcs hid
    have hrest : id ∉ submittedIds cs ∧ ∀ order, c = .submitOrder order → order.id ≠ id := by
      cases c with
      | submitOrder order =>
        obtain ⟨hne, hrest⟩ := not_or.1 (fun h => hid (List.mem_cons.2 h))
        exact ⟨hrest, fun o ho he => hne (by cases ho; exact he.symm)⟩
      | _ => exact ⟨hid, fun order ho => by cases ho⟩
    rw [Engine.dbLog, List.filter_append, ih _ (fun c' hc' => hcs c' (List.mem_cons_of_mem _ hc')) hrest.1,
      List.append_nil, List.filter_eq_nil_iff]
    intro cmd hcmd hstatus
    cases c with
    | submitOrder order =>
      exact hrest.2 order rfl (dbCommands_status (validated_kind (hcs _ List.mem_cons_self)) hcmd hstatus)
    | _ => exact absurd hcmd List.not_mem_nil

end Statuses

/-- Along a run with distinct ids the statuses of an order are those of its own submission. -/
theorem statuses_log (dv : Decimal → Decimal → Decimal) (cache : BalanceCache) {done more : List Command}
    {order : OrderEntry} (hcs : ∀ c ∈ done ++ .submitOrder order :: more, c.Validated)
    (hids : (submittedIds (done ++ .submitOrder order :: more)).Nodup) :
    ((Engine.start cache).dbLog dv (done ++ .submitOrder order :: more)).filter (·.isStatusOf order.id) =
      ((Engine.start cache).run dv done).statusOf dv order := by
  have h : ((Engine.start cache).run dv done).Explained (submittedOrders done) ((Engine.start cache).fills dv done)
      (.submitOrder order :: more) := explained_run dv _ done _ [] [] (explained_start cache hcs hids)
  -- the ids before and after are other ones
  have hfresh : order.id ∉ submittedIds done := by
    rw [submittedIds_eq]
    exact h.fresh.1
  have hlater : order.id ∉ submittedIds more := h.freshIds.coming.notMem
  rw [Engine.dbLog_append, Engine.dbLog, List.filter_append, List.filter_append,
    statuses_others done _ (fun c hc => hcs c (List.mem_append_left _ hc)) hfresh,
    statuses_others more _ (fun c hc => hcs c (List.mem_append_right _ (List.mem_cons_of_mem _ hc))) hlater,
    List.nil_append, List.append_nil]
  exact statuses_submit (validated_kind (hcs (.submitOrder order) (List.mem_append_right _ List.mem_cons_self))) h.placed

/-- **What the rows of the orders are told**, along every run of admitted orders with distinct ids
and of any other commands. An order's row is told what the submission of the order was matched for,
once, and nothing else: not what it is matched for later, while it rests. -/
theorem statuses_run (dv : Decimal → Decimal → Decimal) (cache : BalanceCache) (cs : List Command)
    (hcs : ∀ c ∈ cs, c.Validated) (hids : (submittedIds cs).Nodup) :
    (∀ done order more, cs = done ++ .submitOrder order :: more →
        let s := (Engine.start cache).run dv done
        ((Engine.start cache).dbLog dv cs).filter (·.isStatusOf order.id) = s.statusOf dv order ∧
          filledFor order.id ((Engine.start cache).fills dv cs) = amountUsed (s.fillsOf dv (.submitOrder order)) +
            filledFor order.id ((s.step dv (.submitOrder order)).fills dv more)) ∧
      ∀ id ∉ submittedIds cs, ((Engine.start cache).dbLog dv cs).filter (·.isStatusOf id) = [] := by
  refine ⟨?_, fun id hid => statuses_others cs _ hcs hid⟩
  rintro done order more rfl s
  have hk := validated_kind (hcs (.submitOrder order) (List.mem_append_right _ List.mem_cons_self))
  have h : s.Explained (submittedOrders done) ((Engine.start cache).fills dv done) (.submitOrder order :: more) :=
    explained_run dv _ done _ [] [] (explained_start cache hcs hids)
  refine ⟨statuses_log dv cache hcs hids, ?_⟩
  rw [Engine.fills_append, Engine.fills, filledFor_append, filledFor_append, filledFor_eq_zero h.between h.fresh.1,
    zero_add]
  congr 1
  refine filledFor_taker fun m hm => ?_
  rw [Engine.fillsOf] at hm
  split_ifs at hm
  · rw [(matchAndRest_spec dv hk _).2.1] at hm
    exact (h.matching_between hk m hm).2.1
  · exact absurd hm List.not_mem_nil

/-- A buy takes one of five for sale: its row is told. The seller's is told nothing, now and when the
next buy takes another three. -/
theorem statuses_run_two_buys :
    let s := Engine.start ((BalanceCache.new.setBalance 1 "USDT" 100 0).setBalance 2 "SOL" 5 0)
    let cs := [.submitOrder (limitOrder 1 2 .sell 10 5), .submitOrder (limitOrder 2 1 .buy 10 1),
      .submitOrder (limitOrder 3 1 .buy 10 3)]
    (s.dbLog (· / ·) cs).filter (·.isStatusOf 2) = [.updateOrderStatus 2 "filled" 1 10] ∧
      (s.dbLog (· / ·) cs).filter (·.isStatusOf 1) = [] ∧ filledFor 1 (s.fills (· / ·) cs) = 4 := by
  intro s cs
  have hcs : ∀ c ∈ cs, c.Validated := by
    simp only [cs, List.forall_mem_cons]
    exact ⟨limitOrder_validated 1 2 (Or.inr rfl) (by norm_num) (by norm_num),
      limitOrder_validated 2 1 (Or.inl rfl) (by norm_num) (by norm_num),
      limitOrder_validated 3 1 (Or.inl rfl) (by norm_num) (by norm_num), by simp⟩
  obtain ⟨hrun, -⟩ := statuses_run (· / ·) ((BalanceCache.new.setBalance 1 "USDT" 100 0).setBalance 2 "SOL" 5 0) cs hcs
    (by decide)
  refine ⟨?_, ?_, by decide +kernel⟩
  · exact (hrun [.submitOrder (limitOrder 1 2 .sell 10 5)] _ _ rfl).1.trans (by decide +kernel)
  · exact (hrun [] _ _ rfl).1.trans (by decide +kernel)

end CexEngine
