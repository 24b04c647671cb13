import CexEngine.Spec.BalanceCache

/-!
# The executor

`engine/executor.rs` and the messages it sends (`runtime/db_commands.rs`). The WAL sends of
the source are commented out and have no counterpart here. Timestamps taken from the clock
are left out of the messages.
-/

namespace CexEngine

/-- The channels of the engine are `bounded(100_000)`: a sender waits while one is full. -/
def channelCapacity : ℕ := 100000

/-- What the engine thread sends to the DB writer. -/
inductive DbCommand where
  /-- Not sent any more; `none` stands for "pending" and for zero. -/
  | insertOrder (orderId : OrderId) (userId : UserId) (orderType : OrderType) (orderSide : OrderSide)
      (baseMint quoteMint : Mint) (price : Option Decimal) (amount : Decimal) (createdAt : ℕ)
      (status : Option String) (filledAmount filledQuoteAmount : Option Decimal)
  | updateOrderStatus (orderId : OrderId) (status : String) (filledAmount filledQuoteAmount : Decimal)
  | insertTrade (trade : MatchResult)
  | updateBalance (user : UserId) (mint : Mint) (availableDelta lockedDelta : Option Decimal)
  deriving DecidableEq, Repr

namespace BalanceCache

variable [Arithmetic]

/-- `Executor::execute_trade`: the buyer's locked quote to the seller, then the seller's locked
base to the buyer. A failing second transfer leaves the first one done. A success carries
what is sent to the DB writer. -/
def executeTrade (c : BalanceCache) (m : MatchResult) (skipDbUpdates : Bool) :
    BalanceCache × Except EngineError (List DbCommand) :=
  let quote := c.transfer m.buyerId m.sellerId m.quoteMint m.totalValue true
  match quote.2 with
  | .error e => (quote.1, .error (.context "Failed to transfer USDT from buyer to seller" e))
  | .ok () =>
    let base := quote.1.transfer m.sellerId m.buyerId m.baseMint m.amount true
    match base.2 with
    | .error e => (base.1, .error (.context "Failed to transfer base asset from seller to buyer" e))
    | .ok () => (base.1, .ok (if skipDbUpdates then [] else [.insertTrade m]))

/-- `Executor::lock_balance_for_order` -/
def lockBalanceForOrder (c : BalanceCache) (user : UserId) (mint : Mint) (amount : Decimal) :
    BalanceCache × Except EngineError Unit :=
  let r := c.lockBalance user mint amount
  match r.2 with
  | .error e => (r.1, .error (.context "Failed to lock balance" e))
  | .ok () => (r.1, .ok ())

/-- `Executor::unlock_balance_for_cancel` -/
def unlockBalanceForCancel (c : BalanceCache) (user : UserId) (mint : Mint) (amount : Decimal) :
    BalanceCache × Except EngineError Unit :=
  let r := c.unlockBalance user mint amount
  match r.2 with
  | .error e => (r.1, .error (.context "Failed to unlock balance" e))
  | .ok () => (r.1, .ok ())

/-- `for match_result in &matches { execute_trade(..) }`, with the answer of every call. An
error does not end the loop. -/
def executeTrades (skipDbUpdates : Bool) : BalanceCache → List MatchResult →
    BalanceCache × List (MatchResult × Except EngineError (List DbCommand))
  | c, [] => (c, [])
  | c, m :: ms =>
    let r := c.executeTrade m skipDbUpdates
    let rs := executeTrades skipDbUpdates r.1 ms
    (rs.1, (m, r.2) :: rs.2)

end BalanceCache

end CexEngine
