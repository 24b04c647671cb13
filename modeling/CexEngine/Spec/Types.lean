import Mathlib.Data.Rat.Defs
import Mathlib.Algebra.Order.Ring.Rat

/-!
# Engine types

The types of `engine/types.rs`. A `Decimal` is the rational number it stands for, so two
spellings of a number (`1.0`, `1.00`) are one value, as they are for the `Ord` and `Eq` of
the source.

`+`, `-` and `*` of the source are those of an `Arithmetic`. `rust_decimal` rounds a result
that has too many digits, and a section that says `[Arithmetic]` is about any way of doing so.
Where no section says so the three are exact. Division is a parameter of the matcher.
-/

namespace CexEngine

/-- The value of a `rust_decimal::Decimal`. -/
abbrev Decimal := ℚ

/-- How `Decimal` adds, subtracts and multiplies: perhaps rounded, but not past zero. -/
class Arithmetic where
  add : Decimal → Decimal → Decimal
  sub : Decimal → Decimal → Decimal
  mul : Decimal → Decimal → Decimal
  protected add_nonneg : ∀ {a b : Decimal}, 0 ≤ a + b → 0 ≤ add a b
  protected sub_nonneg : ∀ {a b : Decimal}, b ≤ a → 0 ≤ sub a b
  protected mul_nonneg : ∀ {a b : Decimal}, 0 ≤ a → 0 ≤ b → 0 ≤ mul a b
  protected mul_comm : ∀ a b : Decimal, mul a b = mul b a

open Arithmetic (add sub mul)

/-- Without rounding. -/
instance exactArithmetic : Arithmetic where
  add a b := a + b
  sub a b := a - b
  mul a b := a * b
  add_nonneg := id
  sub_nonneg := sub_nonneg.2
  mul_nonneg := mul_nonneg
  mul_comm := mul_comm

@[simp] theorem exact_mul (a b : Decimal) : mul a b = a * b := rfl

/-- Sums and differences are exact. -/
class ExactSums [Arithmetic] : Prop where
  add_eq : ∀ a b : Decimal, add a b = a + b
  sub_eq : ∀ a b : Decimal, sub a b = a - b

instance : ExactSums := ⟨fun _ _ => rfl, fun _ _ => rfl⟩

attribute [simp] ExactSums.add_eq ExactSums.sub_eq

/-- `user_id: u64` -/
abbrev UserId := UInt64

/-- `id: u64` of an order. -/
abbrev OrderId := UInt64

/-- An asset, such as `"SOL"`. -/
abbrev Mint := String

/-- `order_type`: the strings the code compares with, and any other string. -/
inductive OrderType where
  | buy
  | sell
  | other (text : String)
  deriving DecidableEq, Repr

/-- `order_side`: the strings the code compares with, and any other string. -/
inductive OrderSide where
  | limit
  | market
  | other (text : String)
  deriving DecidableEq, Repr

structure TradingPair where
  baseMint : Mint
  quoteMint : Mint
  deriving DecidableEq, Repr

/-- An order as the engine keeps it in memory. -/
structure OrderEntry where
  id : OrderId
  userId : UserId
  orderType : OrderType
  orderSide : OrderSide
  baseMint : Mint
  quoteMint : Mint
  /-- `None` for market orders. -/
  price : Option Decimal
  /-- In `baseMint`. -/
  amount : Decimal
  /-- The budget of a market buy. -/
  quoteAmount : Option Decimal
  filledAmount : Decimal
  remainingAmount : Decimal
  /-- What is left of a market buy's budget. -/
  remainingQuoteAmount : Option Decimal
  /-- Milliseconds. -/
  createdAt : ℕ
  deriving DecidableEq, Repr

namespace OrderEntry

def isFullyFilled (o : OrderEntry) : Bool := o.remainingAmount = 0

def isBuy (o : OrderEntry) : Bool := o.orderType = .buy

def isSell (o : OrderEntry) : Bool := o.orderType = .sell

def isMarket (o : OrderEntry) : Bool := o.orderSide = .market

def isLimit (o : OrderEntry) : Bool := o.orderSide = .limit

/-- The pair an order trades: `TradingPair::new(base_mint, quote_mint)`. -/
def pair (o : OrderEntry) : TradingPair := ⟨o.baseMint, o.quoteMint⟩

/-- An order without its quantities: what matching never changes. -/
def terms (o : OrderEntry) : OrderEntry :=
  { o with amount := 0, filledAmount := 0, remainingAmount := 0, remainingQuoteAmount := none }

end OrderEntry

/-- One fill, as the matcher reports it. -/
structure MatchResult where
  buyOrderId : OrderId
  sellOrderId : OrderId
  buyerId : UserId
  sellerId : UserId
  price : Decimal
  amount : Decimal
  baseMint : Mint
  quoteMint : Mint
  deriving DecidableEq, Repr

def MatchResult.totalValue [Arithmetic] (m : MatchResult) : Decimal := mul m.price m.amount

end CexEngine
