import CexEngine.Lib.Machine
import CexEngine.Spec.Threads

/-!
# The publishers

The events that `process_submit_order` and `handle_cancel_order` build, the publisher thread
that is spawned for each of them, and the topic `order-events` (`shared/kafka/producer.rs`).
A record that the producer refuses, or that times out before it is handed over, is lost
without an error.
-/

namespace CexEngine

inductive Event where
  | tradeExecuted (event : TradeExecutedEvent)
  | orderCancelled (event : OrderCancelledEvent)
  deriving DecidableEq, Repr

/-- The partition key: `buyer_id` of a trade, `user_id` of a cancellation. -/
def Event.partitionKey : Event → UserId
  | .tradeExecuted e => e.trade.buyerId
  | .orderCancelled e => e.userId

/-- The events that handling a command builds, in their order. -/
def Engine.events (dv : Decimal → Decimal → Decimal) (s : Engine) : Command → List Event
  | .submitOrder order => (processSubmitOrder dv s order).events.map .tradeExecuted
  | .cancelOrder orderId userId pair => (handleCancelOrder s orderId userId pair).events.map .orderCancelled
  | _ => []

/-- An event under its place among all that were built. -/
structure Publication where
  number : ℕ
  event : Event
  deriving DecidableEq, Repr

def Publication.key (p : Publication) : UserId := p.event.partitionKey

/-- The engine thread, the publisher threads that have not handed over their event, and the
topic. `built` counts the events built. -/
structure Publishing where
  engine : Engine
  built : ℕ
  publishers : List Publication
  topic : List Publication

def Publishing.start (engine : Engine) : Publishing := ⟨engine, 0, [], []⟩

/-- `std::thread::spawn` for each event. -/
def spawnPublishers (built : ℕ) : List Event → List Publication
  | [] => []
  | event :: events => ⟨built, event⟩ :: spawnPublishers (built + 1) events

inductive PublishAction where
  /-- The engine thread handles a command. -/
  | handle (command : Command)
  /-- The publisher of an event hands it to the producer. -/
  | publish (number : ℕ)
  /-- The publisher of an event ends without. -/
  | lose (number : ℕ)
  deriving DecidableEq, Repr

def Publishing.step (dv : Decimal → Decimal → Decimal) (p : Publishing) : PublishAction → Option Publishing
  | .handle command =>
    let events := p.engine.events dv command
    some {
      engine := p.engine.step dv command
      built := p.built + events.length
      publishers := p.publishers ++ spawnPublishers p.built events
      topic := p.topic }
  | .publish number =>
    (p.publishers.find? (·.number = number)).map fun x =>
      { p with publishers := p.publishers.erase x, topic := p.topic ++ [x] }
  | .lose number =>
    (p.publishers.find? (·.number = number)).map fun x => { p with publishers := p.publishers.erase x }

end CexEngine
