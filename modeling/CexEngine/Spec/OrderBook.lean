import CexEngine.Lib.BTreeMap
import CexEngine.Spec.Types

/-!
# The order book

`engine/orderbook.rs`: per side a sorted map from price to the queue of orders at that
price, oldest first, and a cached order count.
-/

namespace CexEngine

/-- One side of the book. -/
structure OrderBookSide where
  /-- Price to queue; the front of a queue is its oldest order. -/
  orders : BTreeMap Decimal (List OrderEntry)
  /-- The cached count (`total_orders`). -/
  totalOrders : ℕ

namespace OrderBookSide

def new : OrderBookSide := ⟨BTreeMap.empty, 0⟩

/-- The queue at a price, empty where there is no level (`entry(price).or_insert_with`). -/
def queueAt (side : OrderBookSide) (price : Decimal) : List OrderEntry := (side.orders.get? price).getD []

/-- Appends an order to the queue of its price. The source panics on an order without a
price; no such order gets this far (`has_remaining` of a validated limit order). -/
def addOrder (side : OrderBookSide) (order : OrderEntry) : OrderBookSide :=
  match order.price with
  | none => side
  | some price => ⟨side.orders.insert price (side.queueAt price ++ [order]), side.totalOrders + 1⟩

/-- Takes the first order with this id out of the level at `price`; an emptied level goes. -/
def removeOrder (side : OrderBookSide) (orderId : OrderId) (price : Decimal) :
    OrderBookSide × Option OrderEntry :=
  match side.orders.get? price with
  | none => (side, none)
  | some queue =>
    match queue.find? (fun o => o.id = orderId) with
    | none => (side, none)
    | some order =>
      let queue := queue.eraseP fun o => o.id = orderId
      let orders := if queue = [] then side.orders.erase price else side.orders.insert price queue
      (⟨orders, side.totalOrders - 1⟩, some order)

/-- The highest price for a buy side, the lowest for a sell side. -/
def getBestPrice (side : OrderBookSide) (isBuy : Bool) : Option Decimal :=
  (side.orders.bestFirst isBuy).head?.map Prod.fst

def getOrdersAtPrice (side : OrderBookSide) (price : Decimal) : Option (List OrderEntry) := side.orders.get? price

def priceLevels (side : OrderBookSide) : ℕ := side.orders.entries.length

def isEmpty (side : OrderBookSide) : Bool := side.orders.entries.isEmpty

/-- The orders in the queues, lowest price first. -/
def restingOrders (side : OrderBookSide) : List OrderEntry := side.orders.entries.flatMap Prod.snd

/-- The price levels from the best one on. -/
def levels (side : OrderBookSide) (isBuy : Bool) : List (Decimal × List OrderEntry) := side.orders.bestFirst isBuy

/-- The orders in the order in which the matcher visits them. -/
def queued (side : OrderBookSide) (isBuy : Bool) : List OrderEntry := (side.levels isBuy).flatMap Prod.snd

/-- The best `depth` levels, each with what remains of its orders in all. -/
def aggregate (side : OrderBookSide) (isBuy : Bool) (depth : ℕ) : List (Decimal × Decimal) :=
  ((side.levels isBuy).take depth).map fun level => (level.1, (level.2.map OrderEntry.remainingAmount).sum)

end OrderBookSide

structure OrderBook where
  tradingPair : TradingPair
  buyOrders : OrderBookSide
  sellOrders : OrderBookSide

namespace OrderBook

def new (pair : TradingPair) : OrderBook := ⟨pair, .new, .new⟩

/-- Adds an order to the side of its type; any other type is ignored. -/
def addOrder (book : OrderBook) (order : OrderEntry) : OrderBook :=
  match order.orderType with
  | .buy => { book with buyOrders := book.buyOrders.addOrder order }
  | .sell => { book with sellOrders := book.sellOrders.addOrder order }
  | .other _ => book

def removeOrder (book : OrderBook) (orderId : OrderId) (orderType : OrderType) (price : Decimal) :
    OrderBook × Option OrderEntry :=
  match orderType with
  | .buy =>
    let r := book.buyOrders.removeOrder orderId price
    ({ book with buyOrders := r.1 }, r.2)
  | .sell =>
    let r := book.sellOrders.removeOrder orderId price
    ({ book with sellOrders := r.1 }, r.2)
  | .other _ => (book, none)

def getBestBid (book : OrderBook) : Option Decimal := book.buyOrders.getBestPrice true

def getBestAsk (book : OrderBook) : Option Decimal := book.sellOrders.getBestPrice false

def getBuyOrders (book : OrderBook) (depth : ℕ) : List (Decimal × Decimal) := book.buyOrders.aggregate true depth

def getSellOrders (book : OrderBook) (depth : ℕ) : List (Decimal × Decimal) := book.sellOrders.aggregate false depth

def totalBuyOrders (book : OrderBook) : ℕ := book.buyOrders.totalOrders

def totalSellOrders (book : OrderBook) : ℕ := book.sellOrders.totalOrders

end OrderBook

end CexEngine
