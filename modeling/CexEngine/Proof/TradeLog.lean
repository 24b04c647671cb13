import CexEngine.Proof.Agreement
import CexEngine.Proof.Delivered
import CexEngine.Proof.Ledger
import CexEngine.Proof.Within

/-!
# The log of the trades

The submitters of orders are answered with the trades, the trades are published, and the DB writer
is sent those of the limit orders.

* `Engine.credited`: what deposits and withdrawals enter into an account.
* `tradeLog_run`: **the trades that are answered account for every balance**, together with the
  deposits and withdrawals; and what is sent to the database are those of limit orders.
-/

namespace CexEngine

variable {dv : Decimal → Decimal → Decimal} {s : Engine} {u : UserId} {m : Mint}

/-- What an account holds, available and locked. -/
def BalanceCache.total (c : BalanceCache) (u : UserId) (m : Mint) : Decimal := c.available u m + c.locked u m

/-- What a command enters into an account. No more is taken than is available. -/
def Command.credit (s : Engine) (c : Command) (u : UserId) (m : Mint) : Decimal :=
  match c with
  | .updateBalance user mint delta => posting user mint (max delta (-s.balanceCache.available user mint)) u m
  | _ => 0

/-- What the deposits and withdrawals of a run enter into an account. -/
def Engine.credited (dv : Decimal → Decimal → Decimal) : Engine → List Command → UserId → Mint → Decimal
  | _, [], _, _ => 0
  | s, c :: cs, u, m => c.credit s u m + (s.step dv c).credited dv cs u m

/-- The submission of a limit order. -/
def Command.submitsLimit : Command → Bool
  | .submitOrder order => order.orderSide = .limit
  | _ => false

/-- The trades of the limit orders of a run. -/
def Engine.limitTrades (dv : Decimal → Decimal → Decimal) : Engine → List Command → List MatchResult
  | _, [] => []
  | s, c :: cs => (if c.submitsLimit then s.tradesOf dv c else []) ++ (s.step dv c).limitTrades dv cs

/-- The trade that a command to the DB writer inserts. -/
def DbCommand.trade : DbCommand → Option MatchResult
  | .insertTrade trade => some trade
  | _ => none

/-! ## One command -/

theorem BalanceCache.Moves.total {c c' : BalanceCache} {user : UserId} {mint : Mint} {amount : Decimal}
    (h : BalanceCache.Moves c c' (posting user mint (-amount)) (posting user mint amount)) :
    c'.total u m = c.total u m := by
  rw [BalanceCache.total, BalanceCache.total, h.available, h.locked, posting, posting]
  split_ifs <;> ring

theorem BalanceCache.SameBalances.total {c c' : BalanceCache} (h : BalanceCache.SameBalances c c') :
    c'.total u m = c.total u m := by
  rw [BalanceCache.total, BalanceCache.total, h.available, h.locked]

theorem total_lockBalance (c : BalanceCache) (user : UserId) (mint : Mint) (amount : Decimal) :
    (c.lockBalance user mint amount).1.total u m = c.total u m := by
  rcases BalanceCache.lockBalance_cases c user mint amount with ⟨-, -, hsame⟩ | ⟨-, -, hmoves⟩
  · exact hsame.total
  · exact hmoves.total

theorem total_unlockBalance (c : BalanceCache) (user : UserId) (mint : Mint) (amount : Decimal) :
    (c.unlockBalance user mint amount).1.total u m = c.total u m := by
  rcases BalanceCache.unlockBalance_cases c user mint amount with ⟨-, -, hsame⟩ | ⟨-, -, hmoves⟩
  · exact hsame.total
  · have hback : BalanceCache.Moves c (c.unlockBalance user mint amount).1 (posting user mint (- -amount))
        (posting user mint (-amount)) := by simpa using hmoves
    exact hback.total

/-- The executed trades of a limit order are the ones that are sent. -/
theorem executeTrades_sent : ∀ (ms : List MatchResult) (c : BalanceCache),
    ((c.executeTrades false ms).2.flatMap fun t => (t.2.toOption).getD []).filterMap DbCommand.trade =
      executed (c.executeTrades false ms).2 := by
  intro ms
  induction ms with
  | nil => intro c; rfl
  | cons m ms ih =>
    intro c
    rw [BalanceCache.executeTrades_cons, List.flatMap_cons, List.filterMap_append, ih]
    have herror : (c.executeTrade m false).2.isOk = false →
        (((c.executeTrade m false).2.toOption).getD []).filterMap DbCommand.trade = [] := by
      intro herr
      cases hr : (c.executeTrade m false).2 with
      | ok cmds => rw [hr] at herr; cases herr
      | error e => rfl
    rcases BalanceCache.executeTrade_cases c m false with ⟨-, herr, -⟩ | ⟨-, -, herr, -⟩ | ⟨-, -, hok, -⟩
    · rw [executed_cons_err (by simp [herr]), herror herr, List.nil_append]
    · rw [executed_cons_err (by simp [herr]), herror herr, List.nil_append]
    · rw [executed_cons_ok (by rw [hok]; rfl), hok]
      rfl

/-- What a command tells of the trades it makes, and what it moves. -/
structure Logs (dv : Decimal → Decimal → Decimal) (s : Engine) (c : Command) : Prop where
  all : s.tradesOf dv c = s.fillsOf dv c
  sent : (s.dbCommands dv c).filterMap DbCommand.trade = if c.submitsLimit then s.tradesOf dv c else []
  moves : ∀ u m, (s.step dv c).balanceCache.total u m =
    s.balanceCache.total u m + c.credit s u m + ((s.tradesOf dv c).map fun t => t.net u m).sum

section Submission

variable {order : OrderEntry} {cache : BalanceCache} {book : OrderBook}
  {settled : BalanceCache × List (MatchResult × Except EngineError (List DbCommand))} {counted : List MatchResult}
  {released : BalanceCache × Option (Except EngineError Unit)}

theorem Refused.logs (hr : Refused dv s order) : Logs dv s (.submitOrder order) where
  all := by rw [hr.tradesOf, hr.fillsOf]
  sent := by
    rw [hr.dbCommands, hr.tradesOf]
    simp
  moves u m := by
    rw [hr.tradesOf, Engine.step, Engine.handle, BalanceCache.total, BalanceCache.total, hr.balances.available,
      hr.balances.locked]
    simp [Command.credit]

/-- The trades that a submission sends when they all settle: those of a limit order. -/
theorem Granted.sent_trades (hk : order.Kind) (hg : Granted dv s order cache book settled counted released)
    (hall : BalanceCache.AllOk settled.2) : (s.dbCommands dv (.submitOrder order)).filterMap DbCommand.trade =
      if order.orderSide = .market then [] else (order.matching dv (s.orderbook order.pair)).results := by
  rw [hg.dbCommands hk, List.filterMap_cons_none rfl]
  by_cases hside : order.orderSide = .market
  · rw [if_pos hside, if_pos hside]
    rfl
  · have hsent : (settled.2.flatMap fun t => (t.2.toOption).getD []).filterMap DbCommand.trade =
        (order.matching dv (s.orderbook order.pair)).results := by
      rw [hg.trades, decide_eq_false hside] at hall ⊢
      rw [executeTrades_sent, executed_of_allOk hall, BalanceCache.executeTrades_fst]
    rw [if_neg hside, if_neg hside]
    dsimp only
    rw [List.filterMap_append, List.filterMap_append, hsent]
    split_ifs <;> simp [DbCommand.trade]

theorem Granted.logs (hk : order.Kind) (hplaced : s.Placed) (hcov : s.Covered)
    (hg : Granted dv s order cache book settled counted released)
    (hused : order.used (order.matching dv (s.orderbook order.pair)).results +
      (order.matching dv (s.orderbook order.pair)).incoming.restRequired ≤ order.lock.2) :
    Logs dv s (.submitOrder order) := by
  have hall := (submit_trades hk hplaced hcov hg hused).1
  have htrades : s.tradesOf dv (.submitOrder order) = (order.matching dv (s.orderbook order.pair)).results := by
    rw [hg.tradesOf, counted_eq hk hplaced hcov hg hused]
  refine ⟨?_, ?_, fun u m => ?_⟩
  · rw [htrades, hg.fillsOf hk]
  · rw [hg.sent_trades hk hall, htrades]
    by_cases hside : order.orderSide = .market
    · rw [if_pos hside, if_neg (by simp [Command.submitsLimit, hside])]
    · rw [if_neg hside, if_pos (by simp [Command.submitsLimit, hk.limit_of_ne_market hside])]
  · have hbalances := balances_matching hg .exact hall u m
    rw [htrades, Engine.step, Engine.handle, BalanceCache.total, BalanceCache.total]
    simp only [Command.credit]
    linarith

end Submission

/-- **One command.** -/
theorem logs_step {c : Command} (hc : c.LocksNonneg) (h : c.Within dv s) (htidy : s.Tidy) (hcov : s.Covered) :
    Logs dv s c := by
  cases c with
  | submitOrder order =>
    have hk := validated_kind hc
    rcases processSubmitOrder_cases dv s hk with hr | ⟨_, _, _, _, _, hg⟩
    · exact hr.logs
    · exact hg.logs hk htidy.placed hcov (h.submit hk htidy hg.funds)
  | cancelOrder orderId userId pair =>
    refine ⟨rfl, rfl, fun u m => ?_⟩
    change (handleCancelOrder s orderId userId pair).engine.balanceCache.total u m = _ + 0 + 0
    rw [add_zero, add_zero]
    rcases handleCancelOrder_cases s orderId userId pair with hn | ⟨book, buys, price, order, unlocked, -, ht⟩
    · rw [hn.engine]
    · rw [ht.engine, ht.unlock, (BalanceCache.unlockBalanceForCancel_eq _ _ _ _).1]
      exact total_unlockBalance _ _ _ _
  | updateBalance user mint delta =>
    refine ⟨rfl, rfl, fun u m => ?_⟩
    have hmoves := addAvailable_moves s.balanceCache user mint delta
    change (s.balanceCache.addAvailable user mint delta).total u m = _ + posting user mint _ u m + 0
    rw [BalanceCache.total, BalanceCache.total, hmoves.available, hmoves.locked]
    ring
  | getOrderbook pair depth =>
    exact ⟨rfl, rfl, fun u m => by simp [Engine.step, Engine.handle, Command.credit, Engine.tradesOf]⟩
  | getBalance user mint =>
    exact ⟨rfl, rfl, fun u m => by simp [Engine.step, Engine.handle, Command.credit, Engine.tradesOf]⟩
  | lockBalance user mint amount =>
    refine ⟨rfl, rfl, fun u m => ?_⟩
    change (s.balanceCache.lockBalanceForOrder user mint amount).1.total u m = _ + 0 + 0
    rw [add_zero, add_zero, (BalanceCache.lockBalanceForOrder_eq _ _ _ _).1]
    exact total_lockBalance _ _ _ _
  | unlockBalance user mint amount =>
    refine ⟨rfl, rfl, fun u m => ?_⟩
    change (s.balanceCache.unlockBalanceForCancel user mint amount).1.total u m = _ + 0 + 0
    rw [add_zero, add_zero, (BalanceCache.unlockBalanceForCancel_eq _ _ _ _).1]
    exact total_unlockBalance _ _ _ _

/-! ## Runs -/

/-- **The log along a run** from books that are covered. -/
theorem logs_run (dv : Decimal → Decimal → Decimal) (u : UserId) (m : Mint) : ∀ (cs : List Command) (s : Engine),
    s.Tidy → s.Covered → (∀ c ∈ cs, c.LocksNonneg) → s.WithinRun dv cs →
      (s.run dv cs).balanceCache.total u m = s.balanceCache.total u m + s.credited dv cs u m +
          ((s.trades dv cs).map fun t => t.net u m).sum ∧
        s.trades dv cs = s.fills dv cs ∧ (s.dbLog dv cs).filterMap DbCommand.trade = s.limitTrades dv cs := by
  intro cs
  induction cs with
  | nil =>
    intro s _ _ _ _
    refine ⟨?_, rfl, rfl⟩
    rw [run_nil, Engine.credited, Engine.trades, List.map_nil, List.sum_nil, add_zero, add_zero]
  | cons c cs ih =>
    intro s htidy hcov hcs hwithin
    have hc := hcs c List.mem_cons_self
    have hlogs := logs_step hc hwithin.1 htidy hcov
    obtain ⟨htotal, hall, hsent⟩ := ih (s.step dv c) (tidy_step hc.validated htidy)
      (covered_within hc hwithin.1 htidy hcov) (fun c' hc' => hcs c' (List.mem_cons_of_mem _ hc')) hwithin.2
    refine ⟨?_, ?_, ?_⟩
    · rw [run_cons, htotal, hlogs.moves, Engine.credited, Engine.trades, List.map_append, List.sum_append]
      ring
    · rw [Engine.trades, Engine.fills, hlogs.all, hall]
    · rw [Engine.dbLog, List.filterMap_append, hlogs.sent, hsent]
      rfl

/-- **The trades account for the balances**, along every run from empty books and balances that are
not negative in which no market buy costs more than its budget and nothing is unlocked that a resting
order needs: what a user holds of a mint is what was there, what deposits and withdrawals have
entered, and the net of the trades that were answered. Every match is answered as a trade. The trades
that are sent to the database are those of the limit orders, in their order; a market order's trades
are not. -/
theorem tradeLog_run (dv : Decimal → Decimal → Decimal) (cache : BalanceCache) (hcache : cache.Sound)
    (cs : List Command) (hcs : ∀ c ∈ cs, c.LocksNonneg) (hwithin : (Engine.start cache).WithinRun dv cs) :
    (∀ u m, ((Engine.start cache).run dv cs).balanceCache.total u m = cache.total u m +
        (Engine.start cache).credited dv cs u m + (((Engine.start cache).trades dv cs).map fun t => t.net u m).sum) ∧
      (Engine.start cache).trades dv cs = (Engine.start cache).fills dv cs ∧
      ((Engine.start cache).dbLog dv cs).filterMap DbCommand.trade = (Engine.start cache).limitTrades dv cs := by
  have hlogs := fun u m => logs_run dv u m cs (.start cache) (tidy_start cache) (covered_start hcache) hcs hwithin
  exact ⟨fun u m => (hlogs u m).1, (hlogs 0 "").2⟩

/-- User 1 buys two with a limit order, sells one with a market order and buys it back for a budget
of 10, of which an unlock leaves enough: the database is told of two. -/
theorem tradeLog_run_market :
    let cache := (BalanceCache.new.setBalance 1 "USDT" 100 0).setBalance 2 "SOL" 5 0
    let cs := [.submitOrder (limitOrder 1 2 .sell 10 3), .submitOrder (limitOrder 2 1 .buy 10 2),
      .submitOrder (limitOrder 3 2 .buy 9 1), .lockBalance 1 "USDT" 5, .unlockBalance 1 "USDT" 5,
      .submitOrder { limitOrder 4 1 .sell 9 1 with orderSide := .market, price := none },
      .submitOrder (marketBuyOrder 5 1 10)]
    (((Engine.start cache).dbLog (· / ·) cs).filterMap DbCommand.trade).map MatchResult.amount = [2] ∧
      ((Engine.start cache).run (· / ·) cs).balanceCache.total 1 "SOL" = 2 := by
  intro cache cs
  have hcs : ∀ c ∈ cs, c.LocksNonneg := by
    simp only [cs, List.forall_mem_cons]
    exact ⟨limitOrder_validated 1 2 (Or.inr rfl) (by norm_num) (by norm_num),
      limitOrder_validated 2 1 (Or.inl rfl) (by norm_num) (by norm_num),
      limitOrder_validated 3 2 (Or.inl rfl) (by norm_num) (by norm_num),
      show (0 : Decimal) ≤ 5 by norm_num, show (0 : Decimal) ≤ 5 by norm_num,
      kind_validated (.marketSell rfl rfl rfl ⟨by norm_num [limitOrder], rfl, rfl, rfl, rfl⟩),
      marketBuyOrder_validated 5 1 (by norm_num), by simp⟩
  have hwithin : (Engine.start cache).WithinRun (· / ·) cs := by
    simp only [cs, Engine.WithinRun, Command.Within, true_and, and_true]
    decide +kernel
  have hlog := tradeLog_run (· / ·) cache ((BalanceCache.sound_new.setBalance 1 "USDT" (by norm_num) le_rfl).setBalance
    2 "SOL" (by norm_num) le_rfl) cs hcs hwithin
  refine ⟨?_, ?_⟩
  · rw [hlog.2.2]
    decide +kernel
  · rw [hlog.1]
    decide +kernel

end CexEngine
