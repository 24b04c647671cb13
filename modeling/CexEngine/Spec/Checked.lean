import Mathlib.Algebra.Order.Ring.Abs
import CexEngine.Spec.Threads

/-!
# Panics

`rust_decimal` panics when a result does not fit and on a division by zero, and `expect` and
`unwrap` panic on `None`. These are the command handlers with these panics: every function is
its namesake with each operation checked, and `none` is a panic.

The DB sender is there, as it is for `SubmitOutcome`.
-/

namespace CexEngine

open Arithmetic (add sub mul)

/-- The largest value of a `Decimal`: a mantissa of 96 bits. -/
def maxValue : Decimal := 2 ^ 96 - 1

namespace Checked

/-- The result of an operation. -/
def value (x : Decimal) : Option Decimal := if |x| ≤ maxValue then some x else none

/-- `a / b` -/
def div (dv : Decimal → Decimal → Decimal) (a b : Decimal) : Option Decimal := if b = 0 then none else value (dv a b)

/-! ## Balances -/

variable [Arithmetic]

def lockBalance (c : BalanceCache) (user : UserId) (mint : Mint) (amount : Decimal) :
    Option (BalanceCache × Except EngineError Unit) :=
  let b := c.entry user mint
  if b.available < amount then
    some (c.put user mint b, .error (.insufficientBalance user mint amount b.available))
  else do
    let available ← value (sub b.available amount)
    let locked ← value (add b.locked amount)
    some (c.put user mint { available, locked }, .ok ())

def unlockBalance (c : BalanceCache) (user : UserId) (mint : Mint) (amount : Decimal) :
    Option (BalanceCache × Except EngineError Unit) :=
  let b := c.entry user mint
  if b.locked < amount then
    some (c.put user mint b, .error (.message "Not enough locked balance to unlock"))
  else do
    let locked ← value (sub b.locked amount)
    let available ← value (add b.available amount)
    some (c.put user mint { available, locked }, .ok ())

/-- `transfer` from a locked balance. -/
def transfer (c : BalanceCache) (fromUser toUser : UserId) (mint : Mint) (amount : Decimal) :
    Option (BalanceCache × Except EngineError Unit) :=
  let b := c.entry fromUser mint
  if b.locked < amount then
    some (c.put fromUser mint b, .error (.insufficientLocked fromUser mint amount b.locked b.available))
  else do
    let locked ← value (sub b.locked amount)
    let c := c.put fromUser mint { b with locked }
    let t := c.entry toUser mint
    let available ← value (add t.available amount)
    some (c.put toUser mint { t with available }, .ok ())

def lockBalanceForOrder (c : BalanceCache) (user : UserId) (mint : Mint) (amount : Decimal) :
    Option (BalanceCache × Except EngineError Unit) := do
  let r ← lockBalance c user mint amount
  match r.2 with
  | .error e => some (r.1, .error (.context "Failed to lock balance" e))
  | .ok () => some (r.1, .ok ())

def unlockBalanceForCancel (c : BalanceCache) (user : UserId) (mint : Mint) (amount : Decimal) :
    Option (BalanceCache × Except EngineError Unit) := do
  let r ← unlockBalance c user mint amount
  match r.2 with
  | .error e => some (r.1, .error (.context "Failed to unlock balance" e))
  | .ok () => some (r.1, .ok ())

def release (c : BalanceCache) (user : UserId) (mint : Mint) (amount : Decimal) :
    Option (BalanceCache × Option (Except EngineError Unit)) :=
  if amount > 0 then do
    let r ← unlockBalanceForCancel c user mint amount
    some (r.1, some r.2)
  else some (c, none)

def executeTrade (c : BalanceCache) (m : MatchResult) (skipDbUpdates : Bool) :
    Option (BalanceCache × Except EngineError (List DbCommand)) := do
  let totalValue ← value (mul m.price m.amount)
  let quote ← transfer c m.buyerId m.sellerId m.quoteMint totalValue
  match quote.2 with
  | .error e => some (quote.1, .error (.context "Failed to transfer USDT from buyer to seller" e))
  | .ok () => do
    let base ← transfer quote.1 m.sellerId m.buyerId m.baseMint m.amount
    match base.2 with
    | .error e => some (base.1, .error (.context "Failed to transfer base asset from seller to buyer" e))
    | .ok () => some (base.1, .ok (if skipDbUpdates then [] else [.insertTrade m]))

def executeTrades (skipDbUpdates : Bool) : BalanceCache → List MatchResult →
    Option (BalanceCache × List (MatchResult × Except EngineError (List DbCommand)))
  | c, [] => some (c, [])
  | c, m :: ms => do
    let r ← executeTrade c m skipDbUpdates
    let rs ← executeTrades skipDbUpdates r.1 ms
    some (rs.1, (m, r.2) :: rs.2)

/-! ## Matching -/

/-- A `MatchRule` with the operations that may panic. -/
structure Rule where
  rule : MatchRule
  accepts : OrderEntry → Decimal → Option Bool
  matchAmount : OrderEntry → OrderEntry → Decimal → Option Decimal
  take : OrderEntry → Decimal → Decimal → Option OrderEntry

def fill (o : OrderEntry) (amount : Decimal) : Option OrderEntry := do
  let remainingAmount ← value (sub o.remainingAmount amount)
  let filledAmount ← value (add o.filledAmount amount)
  some { o with remainingAmount, filledAmount }

def scanBody (C : Rule) (price : Decimal) (initialQueueLen : ℕ) (s : Scan) : Option (Pass Scan) :=
  match s.queue with
  | [] => some (.stop s)
  | resting :: rest =>
    if s.processedCount + 1 > initialQueueLen * 2 then
      some (.stop { s with queue := rest, processedCount := s.processedCount + 1, dropped := s.dropped ++ [resting] })
    else if s.incoming.userId = resting.userId then
      some (.next { s with queue := rest ++ [resting], processedCount := s.processedCount + 1 })
    else do
      let amount ← C.matchAmount s.incoming resting price
      if C.rule.breaksAt amount then
        some (.stop
          { s with queue := rest, processedCount := s.processedCount + 1, dropped := s.dropped ++ [resting] })
      else do
        let incoming ← C.take s.incoming amount price
        let filled ← fill resting amount
        let t : Scan :=
          { queue := if 0 < filled.remainingAmount then filled :: rest else rest
            incoming
            processedCount := s.processedCount + 1
            results := s.results ++ [C.rule.report s.incoming resting price amount]
            dropped := if 0 < filled.remainingAmount then s.dropped else s.dropped ++ [filled] }
        some (if C.rule.isFullyFilled t.incoming then .stop t else .next t)

def scanLevel (C : Rule) (price : Decimal) (queue : List OrderEntry) (incoming : OrderEntry) : Option Scan :=
  Pass.tryRun (scanBody C price queue.length) (queue.length * 2 + 1) ⟨queue, incoming, 0, [], []⟩

def matchBody (C : Rule) (s : MatchState) : Option (Pass MatchState) :=
  if C.rule.isFullyFilled s.incoming then some (.stop s)
  else
    match s.side.getBestPrice C.rule.scansBuys with
    | none => some (.stop s)
    | some price => do
      if ← C.accepts s.incoming price then
        match s.side.getOrdersAtPrice price with
        | none => some (.stop s)
        | some queue => do
          let scan ← scanLevel C price queue s.incoming
          some (.next
            { side := s.side.setQueue price scan.queue
              incoming := scan.incoming
              results := s.results ++ scan.results
              dropped := s.dropped ++ scan.dropped })
      else some (.stop s)

def matchLoop (C : Rule) (s : MatchState) : Option MatchState := Pass.tryRun (matchBody C) s.side.passes s

def matchAgainst (C : Rule) (incoming : OrderEntry) (side : OrderBookSide) : Option MatchState :=
  match side.getBestPrice C.rule.scansBuys with
  | none => some ⟨side, incoming, [], []⟩
  | some best => do
    if ← C.accepts incoming best then matchLoop C ⟨side, incoming, [], []⟩ else some ⟨side, incoming, [], []⟩

variable (dv : Decimal → Decimal → Decimal)

/-- `expect("Limit order must have price")` panics in `accepts`. -/
def buyRule : Rule where
  rule := CexEngine.buyRule dv
  accepts order ask :=
    if order.orderSide = .limit then do
      let price ← order.price
      some (!decide (price < ask))
    else some true
  matchAmount order sell ask :=
    match order.remainingQuoteAmount with
    | some remainingQuote => do
      let maxAmountFromQuote ← div dv remainingQuote ask
      some (min maxAmountFromQuote sell.remainingAmount)
    | none => some (min order.remainingAmount sell.remainingAmount)
  take order amount price :=
    match order.remainingQuoteAmount with
    | some remainingQuote => do
      let quoteUsed ← value (mul amount price)
      let remainingQuote ← value (sub remainingQuote quoteUsed)
      let total ← value (add order.amount amount)
      let filledAmount ← value (add order.filledAmount amount)
      let remainingAmount ← value (sub total filledAmount)
      some { order with
        remainingQuoteAmount := some remainingQuote, amount := total, filledAmount, remainingAmount }
    | none => fill order amount

def sellRule : Rule where
  rule := CexEngine.sellRule
  accepts order bid :=
    if order.orderSide = .limit then do
      let price ← order.price
      some (!decide (price > bid))
    else some true
  matchAmount order buy _ := some (min order.remainingAmount buy.remainingAmount)
  take order amount _ := fill order amount

def matchBuyOrder (order : OrderEntry) (book : OrderBook) : Option MatchOutcome := do
  let s ← matchAgainst (buyRule dv) order book.sellOrders
  some ⟨s.incoming, { book with sellOrders := s.side }, s.results, s.dropped⟩

def matchSellOrder (order : OrderEntry) (book : OrderBook) : Option MatchOutcome := do
  let s ← matchAgainst sellRule order book.buyOrders
  some ⟨s.incoming, { book with buyOrders := s.side }, s.results, s.dropped⟩

def matchOrder (order : OrderEntry) (book : OrderBook) : Option MatchOutcome :=
  if order.hasRemaining then
    match order.orderType with
    | .buy => matchBuyOrder dv order book
    | .sell => matchSellOrder order book
    | .other _ => some ⟨order, book, [], []⟩
  else some ⟨order, book, [], []⟩

/-- `expect("Limit order must have price")` panics here too. -/
def addOrder (book : OrderBook) (order : OrderEntry) : Option OrderBook :=
  match order.orderType with
  | .other _ => some book
  | _ => order.price.map fun _ => book.addOrder order

def matchAndRest (order : OrderEntry) (book : OrderBook) : Option MatchOutcome := do
  let m ← matchOrder dv order book
  if m.order.orderSide = .limit then
    if m.order.hasRemaining then do
      let book ← addOrder m.book m.order
      some { m with book }
    else some m
  else some m

/-! ## Settling -/

/-- A running total, from zero. -/
def sum (f : MatchResult → Option Decimal) (ms : List MatchResult) : Option Decimal :=
  ms.foldlM (fun total m => do value (add total (← f m))) 0

def quoteUsed (ms : List MatchResult) : Option Decimal := sum (fun m => value (mul m.price m.amount)) ms

def amountUsed (ms : List MatchResult) : Option Decimal := sum (fun m => some m.amount) ms

/-- The lock of an order: `price * amount` of a limit buy may panic. -/
def lock (order : OrderEntry) : Option (Mint × Decimal) :=
  if order.orderType = .buy then do
    let amount ← if order.orderSide = .market then some (order.quoteAmount.getD 0)
      else value (mul (order.price.getD 0) order.amount)
    some (order.quoteMint, amount)
  else some (order.baseMint, order.amount)

/-- The totals are running ones in the source, next to the trades. -/
def marketLeftover (order : OrderEntry) (done : List MatchResult) : Option (Mint × Decimal) :=
  if order.orderType = .buy then do
    let totalQuoteUsed ← quoteUsed done
    let unlock ← value (sub (order.quoteAmount.getD 0) totalQuoteUsed)
    some (order.quoteMint, unlock)
  else do
    let totalAmountUsed ← amountUsed done
    let unlock ← value (sub order.amount totalAmountUsed)
    some (order.baseMint, unlock)

def limitLeftover (order : OrderEntry) (results : List MatchResult) : Option (Mint × Decimal) :=
  if order.orderType = .buy then do
    let totalQuoteUsed ← quoteUsed results
    let initialLocked ← value (mul (order.price.getD 0) order.amount)
    let remainingLocked ← value (sub initialLocked totalQuoteUsed)
    some (order.quoteMint, remainingLocked)
  else do
    let totalAmountUsed ← amountUsed results
    let remainingLocked ← value (sub order.amount totalAmountUsed)
    some (order.baseMint, remainingLocked)

/-- `balance_changes`: by account, what is added to `available` and to `locked`. -/
abbrev BalanceChanges := AList fun _ : UserId × Mint => Decimal × Decimal

/-- One change of an account. Where the source adds to one of the two only, the other delta
is zero. -/
structure BalanceChange where
  user : UserId
  mint : Mint
  availableDelta : Decimal
  lockedDelta : Decimal

def addChange (changes : BalanceChanges) (x : BalanceChange) : Option BalanceChanges := do
  let entry := (changes.lookup (x.user, x.mint)).getD (0, 0)
  let available ← value (add entry.1 x.availableDelta)
  let locked ← value (add entry.2 x.lockedDelta)
  some (changes.insert (x.user, x.mint) (available, locked))

/-- The four changes of a match of this value. -/
def matchChanges (m : MatchResult) (totalValue : Decimal) : List BalanceChange :=
  [⟨m.buyerId, m.quoteMint, 0, -totalValue⟩, ⟨m.sellerId, m.quoteMint, totalValue, 0⟩,
    ⟨m.sellerId, m.baseMint, 0, -m.amount⟩, ⟨m.buyerId, m.baseMint, m.amount, 0⟩]

/-- The changes of a market order. The source adds them up and sends none of them. -/
def balanceChanges (done : List MatchResult) (user : UserId) (leftover : Mint × Decimal) : Option BalanceChanges := do
  let changes ← done.foldlM (fun changes m => do
    let totalValue ← value (mul m.price m.amount)
    (matchChanges m totalValue).foldlM addChange changes) ∅
  if leftover.2 > 0 then addChange changes ⟨user, leftover.1, leftover.2, -leftover.2⟩ else some changes

def finishMarketOrder (order : OrderEntry) (found : MatchOutcome) (s : Engine) (locked : DbCommand) :
    Option SubmitOutcome := do
  let settled ← executeTrades true s.balanceCache found.results
  let done := executed settled.2
  let leftover ← marketLeftover order done
  let released ← release settled.1 order.userId leftover.1 leftover.2
  let _ ← balanceChanges done order.userId leftover
  some
    { engine := { s with balanceCache := released.1 }
      answer := .ok done
      trades := settled.2
      release := released.2
      dbCommands := [locked]
      events := done.map (tradeExecuted released.1) }

def finishLimitOrder (order : OrderEntry) (found : MatchOutcome) (s : Engine) (locked : DbCommand) :
    Option SubmitOutcome := do
  let settled ← executeTrades false s.balanceCache found.results
  let status (text : String) : Option (List DbCommand) := do
    let filledAmount ← amountUsed found.results
    let filledQuoteAmount ← quoteUsed found.results
    some [.updateOrderStatus found.order.id text filledAmount filledQuoteAmount]
  let partially ← if found.results ≠ [] ∧ found.order.remainingAmount > 0 then status "partial" else some []
  let released ← if found.order.remainingAmount = 0 then do
      let leftover ← limitLeftover order found.results
      release settled.1 order.userId leftover.1 leftover.2
    else some (settled.1, none)
  let filled ← if found.order.remainingAmount = 0 then status "filled" else some []
  some
    { engine := { s with balanceCache := released.1 }
      answer := .ok found.results
      trades := settled.2
      release := released.2
      dbCommands := [locked] ++ settled.2.flatMap (fun t => (t.2.toOption).getD []) ++ partially ++ filled
      events := found.results.map (tradeExecuted settled.1) }

def processSubmitOrder (s : Engine) (order : OrderEntry) : Option SubmitOutcome := do
  let lock ← lock order
  let r ← lockBalanceForOrder s.balanceCache order.userId lock.1 lock.2
  match r.2 with
  | .error e =>
    some
      { engine := { s with balanceCache := r.1 }, answer := .error (.context "Failed to lock balance: " e)
        trades := [], release := none, dbCommands := [], events := [] }
  | .ok () => do
    let found ← matchAndRest dv order (s.orderbook order.pair)
    let s' : Engine := { orderbooks := s.orderbooks.insert order.pair found.book, balanceCache := r.1 }
    let locked : DbCommand := .updateBalance order.userId lock.1 (some (-lock.2)) (some lock.2)
    if order.orderSide = .market then finishMarketOrder order found s' locked
    else finishLimitOrder order found s' locked

/-! ## The other commands -/

/-- What a cancellation unlocks: `price * remaining_amount` of a buy may panic. -/
def unlock (order : OrderEntry) : Option (Mint × Decimal) :=
  if order.orderType = .buy then do
    let amount ← value (mul (order.price.getD 0) order.remainingAmount)
    some (order.quoteMint, amount)
  else some (order.baseMint, order.remainingAmount)

def cancelFound (s : Engine) (order : OrderEntry) (orderId : OrderId) (userId : UserId) : Option CancelOutcome := do
  let unlock ← unlock order
  let r ← unlockBalanceForCancel s.balanceCache userId unlock.1 unlock.2
  match r.2 with
  | .error e =>
    some
      { engine := { s with balanceCache := r.1 }, answer := .error (.context "Failed to unlock balance: " e)
        events := [] }
  | .ok () =>
    some
      { engine := { s with balanceCache := r.1 }, answer := .ok order
        events := [⟨orderId, userId, order.baseMint, order.quoteMint⟩] }

def handleCancelOrder (s : Engine) (orderId : OrderId) (userId : UserId) (pair : TradingPair) : Option CancelOutcome :=
  match s.orderbooks.lookup pair with
  | none => some (.refused s "OrderBook not found for trading pair")
  | some book =>
    match book.buyOrders.locate orderId with
    | some (price, order) =>
      if order.userId = userId then
        let book := { book with buyOrders := book.buyOrders.takeOut price orderId }
        cancelFound { s with orderbooks := s.orderbooks.insert pair book } order orderId userId
      else some (.refused s "Unauthorized: You don't own this order")
    | none =>
      match book.sellOrders.locate orderId with
      | some (price, order) =>
        if order.userId = userId then
          let book := { book with sellOrders := book.sellOrders.takeOut price orderId }
          cancelFound { s with orderbooks := s.orderbooks.insert pair book } order orderId userId
        else some (.refused s "Unauthorized: You don't own this order")
      | none => some (.refused s "Order not found in OrderBook. It may have been already filled or cancelled.")

def addAvailable (c : BalanceCache) (user : UserId) (mint : Mint) (delta : Decimal) : Option BalanceCache := do
  let b := c.entry user mint
  let available ← value (add b.available delta)
  if available < 0 then some (c.put user mint { b with available := 0 })
  else some (c.put user mint { b with available })

def handleUpdateBalance (s : Engine) (userId : UserId) (mint : Mint) (availableDelta : Decimal) :
    Option (Engine × Except EngineError Unit) := do
  let balanceCache ← addAvailable s.balanceCache userId mint availableDelta
  some ({ s with balanceCache }, .ok ())

/-- One command. -/
def handle (s : Engine) : Command → Option (Engine × Reply)
  | .submitOrder order => do
    let r ← processSubmitOrder dv s order
    some (r.engine, .submitted r.answer)
  | .cancelOrder orderId userId pair => do
    let r ← handleCancelOrder s orderId userId pair
    some (r.engine, .cancelled r.answer)
  | .getOrderbook pair depth => some (s, .orderbook (handleGetOrderbook s pair depth))
  | .getBalance userId mint => some (s, .balance (handleGetBalance s userId mint))
  | .lockBalance userId mint amount => do
    let r ← lockBalanceForOrder s.balanceCache userId mint amount
    some ({ s with balanceCache := r.1 }, .done r.2)
  | .unlockBalance userId mint amount => do
    let r ← unlockBalanceForCancel s.balanceCache userId mint amount
    some ({ s with balanceCache := r.1 }, .done r.2)
  | .updateBalance userId mint delta => do
    let r ← handleUpdateBalance s userId mint delta
    some (r.1, .done r.2)

/-- The state after a list of commands, if none of them panics. -/
def run (s : Engine) (cs : List Command) : Option Engine :=
  cs.foldlM (fun s c => (handle dv s c).map Prod.fst) s

end Checked

end CexEngine
