import CexEngine.Lib.AssocSum
import CexEngine.Spec.Executor
import CexEngine.Spec.Matcher
import CexEngine.Spec.OrderService

/-!
# The engine thread

The command handlers of `engine/runtime/threads.rs`. The engine thread takes one command at
a time, so a run of the engine is a list of commands (`Engine.run`).

What a handler sends to other threads is part of its result: commands to the DB writer and
events to Kafka, as sent when a DB sender and a Kafka producer are there. The errors that
the source only logs are kept too (`trades`, `release`).
-/

namespace CexEngine

open Arithmetic (add sub mul)

variable [Arithmetic]

/-- The state the engine thread works on: the order books and the executor's balances. -/
structure Engine where
  orderbooks : AList fun _ : TradingPair => OrderBook
  balanceCache : BalanceCache

/-! ## Events -/

/-- `kafka/events.rs`; the eight balances are read from the cache when the event is built. -/
structure TradeExecutedEvent where
  trade : MatchResult
  buyerBase : Balance
  buyerQuote : Balance
  sellerBase : Balance
  sellerQuote : Balance
  deriving DecidableEq, Repr

structure OrderCancelledEvent where
  orderId : OrderId
  userId : UserId
  baseMint : Mint
  quoteMint : Mint
  deriving DecidableEq, Repr

/-- The `trade_executed` event of a match, with the balances as they are in `c`. -/
def tradeExecuted (c : BalanceCache) (m : MatchResult) : TradeExecutedEvent where
  trade := m
  buyerBase := c.entry m.buyerId m.baseMint
  buyerQuote := c.entry m.buyerId m.quoteMint
  sellerBase := c.entry m.sellerId m.baseMint
  sellerQuote := c.entry m.sellerId m.quoteMint

/-! ## SubmitOrder -/

/-- What `process_submit_order` leaves and answers. -/
structure SubmitOutcome where
  engine : Engine
  answer : Except EngineError (List MatchResult)
  /-- Every call of `execute_trade`, with its answer. -/
  trades : List (MatchResult × Except EngineError (List DbCommand))
  /-- The answer of the unlock at the end, if one is made. -/
  release : Option (Except EngineError Unit)
  dbCommands : List DbCommand
  events : List TradeExecutedEvent

/-- The mint and the amount that an order locks. -/
def OrderEntry.lock (order : OrderEntry) : Mint × Decimal :=
  if order.orderType = .buy then
    (order.quoteMint,
      if order.orderSide = .market then order.quoteAmount.getD 0 else mul (order.price.getD 0) order.amount)
  else (order.baseMint, order.amount)

/-- The book of a pair, made when it is not there (`entry(pair).or_insert_with`). -/
def Engine.orderbook (s : Engine) (pair : TradingPair) : OrderBook := (s.orderbooks.lookup pair).getD (.new pair)

/-- Matches an order and rests what is left of it, if it is a limit order. -/
def matchAndRest (dv : Decimal → Decimal → Decimal) (order : OrderEntry) (book : OrderBook) : MatchOutcome :=
  let m := matchOrder dv order book
  if m.order.orderSide = .limit then
    if m.order.hasRemaining then { m with book := m.book.addOrder m.order } else m
  else m

/-- `unlock_balance_for_cancel`, called only for a positive amount. -/
def BalanceCache.release (c : BalanceCache) (user : UserId) (mint : Mint) (amount : Decimal) :
    BalanceCache × Option (Except EngineError Unit) :=
  if amount > 0 then
    let r := c.unlockBalanceForCancel user mint amount
    (r.1, some r.2)
  else (c, none)

/-- A running total, from zero. -/
def runningTotal (xs : List Decimal) : Decimal := xs.foldl add 0

/-- `Σ price * amount` of some matches. -/
def quoteUsed (ms : List MatchResult) : Decimal := runningTotal (ms.map MatchResult.totalValue)

/-- `Σ amount` of some matches. -/
def amountUsed (ms : List MatchResult) : Decimal := runningTotal (ms.map MatchResult.amount)

/-- The matches whose trade was executed. -/
def executed (trades : List (MatchResult × Except EngineError (List DbCommand))) : List MatchResult :=
  (trades.filter fun t => t.2.isOk).map Prod.fst

/-- What is left of the lock of a market order (IOC): it is not rested. -/
def marketLeftover (order : OrderEntry) (done : List MatchResult) : Mint × Decimal :=
  if order.orderType = .buy then (order.quoteMint, sub (order.quoteAmount.getD 0) (quoteUsed done))
  else (order.baseMint, sub order.amount (amountUsed done))

/-- Steps 8 on of `process_submit_order` for a market order: only the executed matches count.
`order` is the order before the matching, `c` the cache after the lock. -/
def finishMarketOrder (order : OrderEntry) (found : MatchOutcome) (s : Engine) (locked : DbCommand) : SubmitOutcome :=
  let settled := s.balanceCache.executeTrades true found.results
  let done := executed settled.2
  let leftover := marketLeftover order done
  let released := settled.1.release order.userId leftover.1 leftover.2
  { engine := { s with balanceCache := released.1 }
    answer := .ok done
    trades := settled.2
    release := released.2
    dbCommands := [locked]
    events := done.map (tradeExecuted released.1) }

/-- What is left of the lock of a filled limit order. -/
def limitLeftover (order : OrderEntry) (results : List MatchResult) : Mint × Decimal :=
  if order.orderType = .buy then (order.quoteMint, sub (mul (order.price.getD 0) order.amount) (quoteUsed results))
  else (order.baseMint, sub order.amount (amountUsed results))

/-- The same steps for any other order: every match counts, executed or not, and the events
are built before the leftover of the lock is released. -/
def finishLimitOrder (order : OrderEntry) (found : MatchOutcome) (s : Engine) (locked : DbCommand) : SubmitOutcome :=
  let settled := s.balanceCache.executeTrades false found.results
  let status (text : String) : DbCommand :=
    .updateOrderStatus found.order.id text (amountUsed found.results) (quoteUsed found.results)
  let leftover := limitLeftover order found.results
  let released :=
    if found.order.remainingAmount = 0 then settled.1.release order.userId leftover.1 leftover.2
    else (settled.1, none)
  { engine := { s with balanceCache := released.1 }
    answer := .ok found.results
    trades := settled.2
    release := released.2
    dbCommands := [locked] ++ settled.2.flatMap (fun t => (t.2.toOption).getD []) ++
      (if found.results ≠ [] ∧ found.order.remainingAmount > 0 then [status "partial"] else []) ++
      (if found.order.remainingAmount = 0 then [status "filled"] else [])
    events := found.results.map (tradeExecuted settled.1) }

/-- `process_submit_order` -/
def processSubmitOrder (dv : Decimal → Decimal → Decimal) (s : Engine) (order : OrderEntry) : SubmitOutcome :=
  let lock := order.lock
  let r := s.balanceCache.lockBalanceForOrder order.userId lock.1 lock.2
  match r.2 with
  | .error e =>
    { engine := { s with balanceCache := r.1 }, answer := .error (.context "Failed to lock balance: " e)
      trades := [], release := none, dbCommands := [], events := [] }
  | .ok () =>
    let found := matchAndRest dv order (s.orderbook order.pair)
    let s' : Engine := { orderbooks := s.orderbooks.insert order.pair found.book, balanceCache := r.1 }
    let locked : DbCommand := .updateBalance order.userId lock.1 (some (-lock.2)) (some lock.2)
    if order.orderSide = .market then finishMarketOrder order found s' locked
    else finishLimitOrder order found s' locked

/-! ## CancelOrder -/

/-- The first level, lowest price first, that has an order with this id, and the first such
order of its queue. -/
def OrderBookSide.locate (side : OrderBookSide) (orderId : OrderId) : Option (Decimal × OrderEntry) :=
  side.orders.entries.findSome? fun e => (e.2.find? fun o => o.id = orderId).map fun o => (e.1, o)

/-- Takes the first order with this id out of the queue at `price`; an emptied level goes. -/
def OrderBookSide.takeOut (side : OrderBookSide) (price : Decimal) (orderId : OrderId) : OrderBookSide :=
  side.setQueue price ((side.queueAt price).eraseP fun o => o.id = orderId)

structure CancelOutcome where
  engine : Engine
  answer : Except EngineError OrderEntry
  events : List OrderCancelledEvent

/-- What an order's cancellation unlocks. -/
def OrderEntry.unlock (order : OrderEntry) : Mint × Decimal :=
  if order.orderType = .buy then (order.quoteMint, mul (order.price.getD 0) order.remainingAmount)
  else (order.baseMint, order.remainingAmount)

/-- Step 4 on of `handle_cancel_order`: the order is out of the book by now. -/
def cancelFound (s : Engine) (order : OrderEntry) (orderId : OrderId) (userId : UserId) : CancelOutcome :=
  let unlock := order.unlock
  let r := s.balanceCache.unlockBalanceForCancel userId unlock.1 unlock.2
  match r.2 with
  | .error e =>
    { engine := { s with balanceCache := r.1 }, answer := .error (.context "Failed to unlock balance: " e)
      events := [] }
  | .ok () =>
    { engine := { s with balanceCache := r.1 }, answer := .ok order
      events := [⟨orderId, userId, order.baseMint, order.quoteMint⟩] }

def CancelOutcome.refused (s : Engine) (text : String) : CancelOutcome := ⟨s, .error (.message text), []⟩

/-- `handle_cancel_order`. An order of another user is put back where it was. -/
def handleCancelOrder (s : Engine) (orderId : OrderId) (userId : UserId) (pair : TradingPair) : CancelOutcome :=
  match s.orderbooks.lookup pair with
  | none => .refused s "OrderBook not found for trading pair"
  | some book =>
    match book.buyOrders.locate orderId with
    | some (price, order) =>
      if order.userId = userId then
        let book := { book with buyOrders := book.buyOrders.takeOut price orderId }
        cancelFound { s with orderbooks := s.orderbooks.insert pair book } order orderId userId
      else .refused s "Unauthorized: You don't own this order"
    | none =>
      match book.sellOrders.locate orderId with
      | some (price, order) =>
        if order.userId = userId then
          let book := { book with sellOrders := book.sellOrders.takeOut price orderId }
          cancelFound { s with orderbooks := s.orderbooks.insert pair book } order orderId userId
        else .refused s "Unauthorized: You don't own this order"
      | none => .refused s "Order not found in OrderBook. It may have been already filled or cancelled."

/-! ## Queries -/

/-- The inner loop of `handle_get_orderbook`: collect, and break at the depth. -/
def collectQueue (depth : Option ℕ) : List OrderEntry → List OrderEntry → List OrderEntry
  | collected, [] => collected
  | collected, o :: queue =>
    let collected := collected ++ [o]
    if depth.any (collected.length ≥ ·) then collected else collectQueue depth collected queue

/-- The outer loop, over the levels from the best one on. -/
def collectLevels (depth : Option ℕ) : List OrderEntry → List (Decimal × List OrderEntry) → List OrderEntry
  | collected, [] => collected
  | collected, level :: levels =>
    let collected := collectQueue depth collected level.2
    if depth.any (collected.length ≥ ·) then collected else collectLevels depth collected levels

/-- `handle_get_orderbook`: the buy and the sell orders. -/
def handleGetOrderbook (s : Engine) (pair : TradingPair) (depth : Option ℕ) : List OrderEntry × List OrderEntry :=
  match s.orderbooks.lookup pair with
  | none => ([], [])
  | some book =>
    (collectLevels depth [] (book.buyOrders.levels true), collectLevels depth [] (book.sellOrders.levels false))

/-- `get_best_bid` of `runtime/engine.rs`: the price of the first buy order. -/
def Engine.getBestBid (s : Engine) (pair : TradingPair) : Option Decimal :=
  match (handleGetOrderbook s pair (some 1)).1 with
  | [] => none
  | order :: _ => order.price

/-- `get_best_ask`: the price of the first sell order. -/
def Engine.getBestAsk (s : Engine) (pair : TradingPair) : Option Decimal :=
  match (handleGetOrderbook s pair (some 1)).2 with
  | [] => none
  | order :: _ => order.price

/-- `handle_get_balance` -/
def handleGetBalance (s : Engine) (userId : UserId) (mint : Mint) : Decimal × Decimal :=
  match s.balanceCache.getBalance userId mint with
  | some b => (b.available, b.locked)
  | none => (0, 0)

/-! ## Balance commands -/

/-- `handle_lock_balance` -/
def handleLockBalance (s : Engine) (userId : UserId) (mint : Mint) (amount : Decimal) :
    Engine × Except EngineError Unit :=
  let r := s.balanceCache.lockBalanceForOrder userId mint amount
  ({ s with balanceCache := r.1 }, r.2)

/-- `handle_unlock_balance` -/
def handleUnlockBalance (s : Engine) (userId : UserId) (mint : Mint) (amount : Decimal) :
    Engine × Except EngineError Unit :=
  let r := s.balanceCache.unlockBalanceForCancel userId mint amount
  ({ s with balanceCache := r.1 }, r.2)

/-- `handle_update_balance`: always answered `Ok`. -/
def handleUpdateBalance (s : Engine) (userId : UserId) (mint : Mint) (availableDelta : Decimal) :
    Engine × Except EngineError Unit :=
  ({ s with balanceCache := s.balanceCache.addAvailable userId mint availableDelta }, .ok ())

/-! ## Runs -/

/-- The commands of the two channels (`runtime/commands.rs`, `runtime/balance_commands.rs`). -/
inductive Command where
  | submitOrder (order : OrderEntry)
  | cancelOrder (orderId : OrderId) (userId : UserId) (pair : TradingPair)
  | getOrderbook (pair : TradingPair) (depth : Option ℕ)
  | getBalance (userId : UserId) (mint : Mint)
  | lockBalance (userId : UserId) (mint : Mint) (amount : Decimal)
  | unlockBalance (userId : UserId) (mint : Mint) (amount : Decimal)
  | updateBalance (userId : UserId) (mint : Mint) (availableDelta : Decimal)
  deriving DecidableEq, Repr

/-- The answers, by command. -/
inductive Reply where
  | submitted (answer : Except EngineError (List MatchResult))
  | cancelled (answer : Except EngineError OrderEntry)
  | orderbook (answer : List OrderEntry × List OrderEntry)
  | balance (answer : Decimal × Decimal)
  | done (answer : Except EngineError Unit)

def Reply.isErr : Reply → Bool
  | .submitted a => !a.isOk
  | .cancelled a => !a.isOk
  | .done a => !a.isOk
  | .orderbook _ => false
  | .balance _ => false

variable (dv : Decimal → Decimal → Decimal)

/-- One command: the state after it and the answer. -/
def Engine.handle (s : Engine) : Command → Engine × Reply
  | .submitOrder order =>
    let r := processSubmitOrder dv s order
    (r.engine, .submitted r.answer)
  | .cancelOrder orderId userId pair =>
    let r := handleCancelOrder s orderId userId pair
    (r.engine, .cancelled r.answer)
  | .getOrderbook pair depth => (s, .orderbook (handleGetOrderbook s pair depth))
  | .getBalance userId mint => (s, .balance (handleGetBalance s userId mint))
  | .lockBalance userId mint amount =>
    let r := handleLockBalance s userId mint amount
    (r.1, .done r.2)
  | .unlockBalance userId mint amount =>
    let r := handleUnlockBalance s userId mint amount
    (r.1, .done r.2)
  | .updateBalance userId mint delta =>
    let r := handleUpdateBalance s userId mint delta
    (r.1, .done r.2)

def Engine.step (s : Engine) (c : Command) : Engine := (s.handle dv c).1

/-- The state after a list of commands. -/
def Engine.run (s : Engine) (cs : List Command) : Engine := cs.foldl (Engine.step dv) s

/-- The engine with these balances and no order books. -/
def Engine.start (c : BalanceCache) : Engine := ⟨∅, c⟩

end CexEngine
