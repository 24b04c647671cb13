import CexEngine.Spec.Threads

/-!
# The UDP feed of the order book

`services/udp_orderbook_feed.rs`: the message that the feed multicasts at every tick. The engine
is asked through the channel, so what it answers is an argument. Serialization and the socket
come after the message and do not change it.
-/

namespace CexEngine

/-- One entry of a message. -/
structure UdpOrderbookEntry where
  price : Decimal
  amount : Decimal
  deriving DecidableEq, Repr

structure UdpOrderbookMessage where
  /-- Taken from the clock, as `timestamp` is. -/
  sequence : UInt64
  timestamp : UInt64
  tradingPair : String
  buyOrders : List UdpOrderbookEntry
  sellOrders : List UdpOrderbookEntry
  deriving DecidableEq, Repr

/-- `TradingPair::to_string` -/
def TradingPair.toString (pair : TradingPair) : String := pair.baseMint ++ "/" ++ pair.quoteMint

/-- The only pair that the feed sends. -/
def feedPair : TradingPair := ⟨"SOL", "USDT"⟩

/-- The closure that maps an order to an entry. -/
def OrderEntry.udpEntry (entry : OrderEntry) : UdpOrderbookEntry := ⟨entry.price.getD 0, entry.remainingAmount⟩

/-- `send_orderbook_for_all_pairs`, up to the message. `getOrderbook` is the engine, and `clock`
the two times that are read. -/
def sendOrderbookForAllPairs
    (getOrderbook : TradingPair → Option ℕ → Except EngineError (List OrderEntry × List OrderEntry))
    (clock : UInt64 × UInt64) (depth : ℕ) : Except EngineError UdpOrderbookMessage :=
  match getOrderbook feedPair (some depth) with
  | .error e => .error (.context "Failed to get orderbook from engine" e)
  | .ok (buyEntries, sellEntries) =>
    .ok
      { sequence := clock.1
        timestamp := clock.2
        tradingPair := feedPair.toString
        buyOrders := buyEntries.map OrderEntry.udpEntry
        sellOrders := sellEntries.map OrderEntry.udpEntry }

/-- `get_orderbook` of an engine that answers in time. -/
def Engine.getOrderbook (s : Engine) (pair : TradingPair) (depth : Option ℕ) :
    Except EngineError (List OrderEntry × List OrderEntry) := .ok (handleGetOrderbook s pair depth)

end CexEngine
