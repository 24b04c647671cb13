import CexEngine.Lib.Loop
import CexEngine.Spec.OrderBook

/-!
# The matcher

`engine/matcher.rs`. `match_buy_order` and `match_sell_order` are the same two nested
loops over the other side of the book; a `MatchRule` holds what differs (which side, the
limit check, the match amount, how the incoming order is charged). Neither rule changes
what an incoming order asks for, and the limit check reads nothing else.

* `scanBody`, `scanLevel`: the inner loop, over the queue of one price.
* `matchBody`, `matchLoop`: the outer loop, over the best price.
* `matchBuyOrder`, `matchSellOrder`, `matchOrder`: the functions of the source.

Both loops run with a number of passes that the loops never use up (`scanLevel_exits`,
`matchLoop_exits`), so they end by the `break`s of the source.

`Scan.dropped` is not visible in the source: it collects the orders that were popped and
not pushed back, in the state in which Rust drops them. Most are filled orders; the
others are the ones a `break` lets go.
-/

namespace CexEngine

open Arithmetic (add sub mul)

variable [Arithmetic]

/-- What one match does to the resting order. -/
def OrderEntry.fill (o : OrderEntry) (amount : Decimal) : OrderEntry :=
  { o with remainingAmount := sub o.remainingAmount amount, filledAmount := add o.filledAmount amount }

/-- What `match_buy_order` and `match_sell_order` do differently. -/
structure MatchRule where
  /-- The side that is scanned: the buy side for an incoming sell order. -/
  scansBuys : Bool
  /-- The limit check against a price of that side; a market order takes any. -/
  accepts : OrderEntry → Decimal → Bool
  /-- Whether the incoming order is used up. -/
  isFullyFilled : OrderEntry → Bool
  /-- The match amount of the incoming order, a resting order and the price. -/
  matchAmount : OrderEntry → OrderEntry → Decimal → Decimal
  /-- Whether the scan breaks on this match amount. -/
  breaksAt : Decimal → Bool
  /-- What a match of an amount at a price does to the incoming order. -/
  take : OrderEntry → Decimal → Decimal → OrderEntry
  /-- The report of a match of the incoming and a resting order at a price for an amount. -/
  report : OrderEntry → OrderEntry → Decimal → Decimal → MatchResult
  accepts_terms : ∀ order price, accepts order.terms price = accepts order price
  take_terms : ∀ order amount price, (take order amount price).terms = order.terms

/-! ## The inner loop -/

/-- The variables of the inner loop. -/
structure Scan where
  queue : List OrderEntry
  incoming : OrderEntry
  processedCount : ℕ
  results : List MatchResult
  dropped : List OrderEntry

/-- A match of the incoming order with `resting`, just popped from the front of `rest`. -/
def Scan.fill (R : MatchRule) (price amount : Decimal) (s : Scan) (resting : OrderEntry) (rest : List OrderEntry) :
    Scan :=
  let filled := resting.fill amount
  { queue := if 0 < filled.remainingAmount then filled :: rest else rest
    incoming := R.take s.incoming amount price
    processedCount := s.processedCount + 1
    results := s.results ++ [R.report s.incoming resting price amount]
    dropped := if 0 < filled.remainingAmount then s.dropped else s.dropped ++ [filled] }

/-- One pass of `while let Some(resting) = queue.pop_front()`. -/
def scanBody (R : MatchRule) (price : Decimal) (initialQueueLen : ℕ) (s : Scan) : Pass Scan :=
  match s.queue with
  | [] => .stop s
  | resting :: rest =>
    if s.processedCount + 1 > initialQueueLen * 2 then
      .stop { s with queue := rest, processedCount := s.processedCount + 1, dropped := s.dropped ++ [resting] }
    else if s.incoming.userId = resting.userId then
      .next { s with queue := rest ++ [resting], processedCount := s.processedCount + 1 }
    else if R.breaksAt (R.matchAmount s.incoming resting price) then
      .stop { s with queue := rest, processedCount := s.processedCount + 1, dropped := s.dropped ++ [resting] }
    else
      let t := s.fill R price (R.matchAmount s.incoming resting price) resting rest
      if R.isFullyFilled t.incoming then .stop t else .next t

/-- The inner loop over one queue. -/
def scanLevel (R : MatchRule) (price : Decimal) (queue : List OrderEntry) (incoming : OrderEntry) : Scan :=
  Pass.run (scanBody R price queue.length) (queue.length * 2 + 1) ⟨queue, incoming, 0, [], []⟩

/-! ## The outer loop -/

/-- The variables of the outer loop. -/
structure MatchState where
  side : OrderBookSide
  incoming : OrderEntry
  results : List MatchResult
  dropped : List OrderEntry

/-- Puts a scanned queue back; an emptied level is removed. The cached order count is
left as it is. -/
def OrderBookSide.setQueue (side : OrderBookSide) (price : Decimal) (queue : List OrderEntry) : OrderBookSide :=
  { side with orders := if queue = [] then side.orders.erase price else side.orders.insert price queue }

/-- One pass of the outer `loop`. -/
def matchBody (R : MatchRule) (s : MatchState) : Pass MatchState :=
  if R.isFullyFilled s.incoming then .stop s
  else
    match s.side.getBestPrice R.scansBuys with
    | none => .stop s
    | some price =>
      if R.accepts s.incoming price then
        match s.side.getOrdersAtPrice price with
        | none => .stop s
        | some queue =>
          let scan := scanLevel R price queue s.incoming
          .next
            { side := s.side.setQueue price scan.queue
              incoming := scan.incoming
              results := s.results ++ scan.results
              dropped := s.dropped ++ scan.dropped }
      else .stop s

/-- More passes than the outer loop takes on this side: each pass removes an order or a
level or is the last but one. -/
def OrderBookSide.passes (side : OrderBookSide) : ℕ := side.priceLevels + side.restingOrders.length + 2

/-- The outer loop. -/
def matchLoop (R : MatchRule) (s : MatchState) : MatchState := Pass.run (matchBody R) s.side.passes s

/-- `match_buy_order` and `match_sell_order`, on the side they scan: nothing is done when
that side is empty or its best price is beyond the limit. -/
def matchAgainst (R : MatchRule) (incoming : OrderEntry) (side : OrderBookSide) : MatchState :=
  match side.getBestPrice R.scansBuys with
  | none => ⟨side, incoming, [], []⟩
  | some best => if R.accepts incoming best then matchLoop R ⟨side, incoming, [], []⟩ else ⟨side, incoming, [], []⟩

/-! ## Buy and sell -/

section Buy

variable (dv : Decimal → Decimal → Decimal)

/-- The rule of `match_buy_order`. An order with a `remaining_quote_amount` is a budget,
any other a quantity. The source panics on a limit order without a price. -/
def buyRule : MatchRule where
  scansBuys := false
  accepts order ask :=
    if order.orderSide = .limit then
      match order.price with
      | some price => !decide (price < ask)
      | none => false
    else true
  isFullyFilled order :=
    match order.remainingQuoteAmount with
    | some remainingQuote => remainingQuote ≤ 0
    | none => order.remainingAmount = 0
  matchAmount order sell ask :=
    match order.remainingQuoteAmount with
    | some remainingQuote => min (dv remainingQuote ask) sell.remainingAmount
    | none => min order.remainingAmount sell.remainingAmount
  breaksAt amount := amount ≤ 0
  take order amount price :=
    match order.remainingQuoteAmount with
    | some remainingQuote =>
      { order with
        remainingQuoteAmount := some (sub remainingQuote (mul amount price))
        amount := add order.amount amount
        filledAmount := add order.filledAmount amount
        remainingAmount := sub (add order.amount amount) (add order.filledAmount amount) }
    | none =>
      { order with
        remainingAmount := sub order.remainingAmount amount
        filledAmount := add order.filledAmount amount }
  report order sell price amount :=
    { buyOrderId := order.id, sellOrderId := sell.id, buyerId := order.userId, sellerId := sell.userId,
      price, amount, baseMint := order.baseMint, quoteMint := order.quoteMint }
  accepts_terms _ _ := rfl
  take_terms order _ _ := by cases h : order.remainingQuoteAmount <;> simp [OrderEntry.terms]

end Buy

/-- The rule of `match_sell_order`. Unlike a buy, it has no budget and no `break` on an
amount that is not positive. -/
def sellRule : MatchRule where
  scansBuys := true
  accepts order bid :=
    if order.orderSide = .limit then
      match order.price with
      | some price => !decide (price > bid)
      | none => false
    else true
  isFullyFilled order := order.remainingAmount = 0
  matchAmount order buy _ := min order.remainingAmount buy.remainingAmount
  breaksAt _ := false
  take order amount _ :=
    { order with
      remainingAmount := sub order.remainingAmount amount
      filledAmount := add order.filledAmount amount }
  report order buy price amount :=
    { buyOrderId := buy.id, sellOrderId := order.id, buyerId := buy.userId, sellerId := order.userId,
      price, amount, baseMint := order.baseMint, quoteMint := order.quoteMint }
  accepts_terms _ _ := rfl
  take_terms _ _ _ := rfl

/-- What a call of the matcher leaves: the incoming order, the book and the matches. -/
structure MatchOutcome where
  order : OrderEntry
  book : OrderBook
  results : List MatchResult
  dropped : List OrderEntry

variable (dv : Decimal → Decimal → Decimal)

def matchBuyOrder (order : OrderEntry) (book : OrderBook) : MatchOutcome :=
  let s := matchAgainst (buyRule dv) order book.sellOrders
  ⟨s.incoming, { book with sellOrders := s.side }, s.results, s.dropped⟩

def matchSellOrder (order : OrderEntry) (book : OrderBook) : MatchOutcome :=
  let s := matchAgainst sellRule order book.buyOrders
  ⟨s.incoming, { book with buyOrders := s.side }, s.results, s.dropped⟩

/-- Whether an order has anything left: its budget if it has one, else its quantity. -/
def OrderEntry.hasRemaining (o : OrderEntry) : Bool :=
  match o.remainingQuoteAmount with
  | some remainingQuote => remainingQuote > 0
  | none => o.remainingAmount > 0

/-- `Matcher::match_order` -/
def matchOrder (order : OrderEntry) (book : OrderBook) : MatchOutcome :=
  if order.hasRemaining then
    match order.orderType with
    | .buy => matchBuyOrder dv order book
    | .sell => matchSellOrder order book
    | .other _ => ⟨order, book, [], []⟩
  else ⟨order, book, [], []⟩

end CexEngine
