import CexEngine.Spec.Types

/-!
# Admission of orders

`services/order_service.rs`: what `create_order` checks before an order reaches the engine
and the `OrderEntry` it builds.
-/

namespace CexEngine

structure CreateOrderRequest where
  orderId : Option OrderId
  orderType : OrderType
  orderSide : OrderSide
  baseMint : Mint
  quoteMint : Option Mint
  price : Option Decimal
  amount : Option Decimal
  quoteAmount : Option Decimal
  deriving DecidableEq, Repr

inductive ServiceError where
  /-- An error of the function. -/
  | bail (text : String)
  /-- A failing `unwrap`. -/
  | panic
  deriving DecidableEq, Repr

/-- `if refused { bail!(text) }` -/
def bailIf (refused : Bool) (text : String) : Except ServiceError Unit :=
  if refused then .error (.bail text) else .ok ()

def unwrap {α : Type} : Option α → Except ServiceError α
  | some a => .ok a
  | none => .error .panic

namespace CreateOrderRequest

/-- `OrderService::validate_order_request`, check by check. -/
def validate (request : CreateOrderRequest) : Except ServiceError Unit := do
  bailIf (request.orderType ≠ .buy && request.orderType ≠ .sell) "Invalid order_type: must be 'buy' or 'sell'"
  bailIf (request.orderSide ≠ .limit && request.orderSide ≠ .market)
    "Invalid order_side: must be 'limit' or 'market'"
  bailIf (request.orderSide = .limit && request.price.isNone) "Limit order must have price"
  bailIf (request.orderSide = .market && request.price.isSome) "Market order cannot have price"
  if request.orderType = .sell then
    bailIf request.amount.isNone "Sell orders must have amount"
    bailIf (request.amount.any (· ≤ 0)) "Amount must be positive"
    bailIf request.quoteAmount.isSome "Sell orders cannot use quote_amount"
  if request.orderType = .buy ∧ request.orderSide = .limit then
    bailIf request.amount.isNone "Limit buy orders must have amount"
    bailIf (request.amount.any (· ≤ 0)) "Amount must be positive"
    bailIf request.quoteAmount.isSome "Limit buy orders cannot use quote_amount"
  if request.orderType = .buy ∧ request.orderSide = .market then
    bailIf request.quoteAmount.isNone
      "Market buy orders must have quote_amount (amount-based market buy is not supported)"
    bailIf request.amount.isSome "Market buy orders cannot use amount, use quote_amount instead"
    bailIf (request.quoteAmount.any (· ≤ 0)) "Quote amount must be positive"
  bailIf (request.price.any (· ≤ 0)) "Price must be positive"

open Arithmetic (mul) in
/-- `OrderService::calculate_required_balance`: the asset and the amount a user needs. -/
def requiredBalance [Arithmetic] (request : CreateOrderRequest) : Except ServiceError (Mint × Decimal) :=
  match request.orderType with
  | .buy =>
    let quoteMint := request.quoteMint.getD "USDT"
    if request.orderSide = .market then do
      let quoteAmount ← unwrap request.quoteAmount
      return (quoteMint, quoteAmount)
    else do
      let price ← unwrap request.price
      let amount ← unwrap request.amount
      return (quoteMint, mul price amount)
  | .sell => do
    let amount ← unwrap request.amount
    return (request.baseMint, amount)
  | .other _ => .error (.bail "Invalid order_type")

/-- The `OrderEntry` that `create_order` submits for a request. -/
def orderEntry (request : CreateOrderRequest) (userId : UserId) (now : ℕ) : Except ServiceError OrderEntry := do
  let (amount, remainingAmount, quoteAmount, remainingQuoteAmount) ←
    if request.orderType = .buy ∧ request.orderSide = .market then do
      let quoteAmount ← unwrap request.quoteAmount
      pure ((0 : Decimal), (0 : Decimal), some quoteAmount, some quoteAmount)
    else do
      let amount ← unwrap request.amount
      pure (amount, amount, (none : Option Decimal), (none : Option Decimal))
  match request.orderId with
  | none => .error (.bail "order_id is required. All orders must be created through Java API first.")
  | some orderId =>
    return {
      id := orderId
      userId
      orderType := request.orderType
      orderSide := request.orderSide
      baseMint := request.baseMint
      quoteMint := request.quoteMint.getD "USDT"
      price := request.price
      amount
      quoteAmount
      filledAmount := 0
      remainingAmount
      remainingQuoteAmount
      createdAt := now }

/-- The amount of the `Order` that `create_order` returns. -/
def orderAmount (request : CreateOrderRequest) : Except ServiceError Decimal :=
  if request.orderType = .buy ∧ request.orderSide = .market ∧ request.quoteAmount.isSome then pure 0
  else unwrap request.amount

end CreateOrderRequest

/-- `models/order.rs`: what `create_order` returns. -/
structure Order where
  id : OrderId
  userId : UserId
  orderType : OrderType
  orderSide : OrderSide
  baseMint : Mint
  quoteMint : Mint
  price : Option Decimal
  amount : Decimal
  filledAmount : Decimal
  filledQuoteAmount : Decimal
  status : String
  createdAt : ℕ
  updatedAt : ℕ
  deriving DecidableEq, Repr

/-- The `Order` for an entry that was built. -/
def OrderEntry.pending (entry : OrderEntry) (amount : Decimal) (now : ℕ) : Order where
  id := entry.id
  userId := entry.userId
  orderType := entry.orderType
  orderSide := entry.orderSide
  baseMint := entry.baseMint
  quoteMint := entry.quoteMint
  price := entry.price
  amount
  filledAmount := 0
  filledQuoteAmount := 0
  status := "pending"
  createdAt := now
  updatedAt := now

/-- The orders `create_order` can submit: built from a request that passes the validator. -/
def OrderEntry.Validated (o : OrderEntry) : Prop :=
  ∃ (request : CreateOrderRequest) (userId : UserId) (now : ℕ),
    request.validate = .ok () ∧ request.orderEntry userId now = .ok o

end CexEngine
