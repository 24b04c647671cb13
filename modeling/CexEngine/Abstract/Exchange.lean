import CexEngine.Lib.StableSort
import CexEngine.Proof.BookInvariant
import CexEngine.Proof.PriceTime
import CexEngine.Proof.Rules

/-!
# What the engine is for

An exchange keeps what every user has and a list of the orders that rest, in the order in which
they came. It has no levels, no queues and no loops: a side of a book is the list sorted, and an
order is matched by the greedy allocation along it.

* `Exchange.side`, `Exchange.offers`, `Exchange.trades`: what an order meets and takes.
* `Exchange.submit`, `Exchange.cancel`, `Exchange.handle`: what the commands do and are answered.
* `Exchange.Clear`: what the exchange asks of a command. An order does not meet one of its own user
  (`Exchange.MeetsNoOwn`), what it buys for a budget is not rounded (`Exchange.Exact`), and nothing is
  unlocked that a resting order needs.
-/

namespace CexEngine

structure Exchange where
  available : UserId → Mint → Decimal
  locked : UserId → Mint → Decimal
  /-- The orders that rest, the oldest first. -/
  orders : List OrderEntry

/-- An answer, without the texts of errors. -/
inductive Answer where
  | submitted (trades : Option (List MatchResult))
  | cancelled (order : Option OrderEntry)
  | orderbook (buys sells : List OrderEntry)
  | balance (available locked : Decimal)
  | done (ok : Bool)
  deriving DecidableEq

def Reply.answer : Reply → Answer
  | .submitted answer => .submitted answer.toOption
  | .cancelled answer => .cancelled answer.toOption
  | .orderbook answer => .orderbook answer.1 answer.2
  | .balance answer => .balance answer.1 answer.2
  | .done answer => .done answer.isOk

/-- A resting order with its price. -/
def OrderEntry.quote (o : OrderEntry) : Decimal × OrderEntry := (o.price.getD 0, o)

/-- How far an order of a side is from the best price there can be. -/
def OrderEntry.rank (buys : Bool) (o : OrderEntry) : Decimal := if buys then -o.price.getD 0 else o.price.getD 0

namespace Exchange

def start (c : BalanceCache) : Exchange := ⟨c.available, c.locked, []⟩

/-- One side of the book of a pair: best price first, and the oldest first at a price. -/
def side (x : Exchange) (pair : TradingPair) (buys : Bool) : List OrderEntry :=
  (x.orders.filter fun o => o.pair = pair ∧ o.orderType = sideType buys).insertionSort fun a b =>
    a.rank buys ≤ b.rank buys

/-- What an order can be matched with: the orders of other users within its limit. -/
def offers (x : Exchange) (o : OrderEntry) : List (Decimal × OrderEntry) :=
  o.crossing ((x.side o.pair (!o.isBuy)).map OrderEntry.quote)

/-- What all of a quote costs. -/
def cost (q : Decimal × OrderEntry) : Decimal := q.1 * remaining q

/-- What a budget buys along some quotes: all of each that it pays for, and for the rest of it a
part of the next. -/
def spend (budget : Decimal) (qs : List (Decimal × OrderEntry)) : List ((Decimal × OrderEntry) × Decimal) :=
  (Greedy.allocate cost budget qs).map fun d => (d.1, d.2 / d.1.1)

/-- What it takes of each: up to its quantity, or for its budget. -/
def deals (x : Exchange) (o : OrderEntry) : List ((Decimal × OrderEntry) × Decimal) :=
  match o.remainingQuoteAmount with
  | none => Greedy.allocate remaining o.remainingAmount (x.offers o)
  | some budget => spend budget (x.offers o)

def trades (x : Exchange) (o : OrderEntry) : List MatchResult := (x.deals o).map o.matched

/-- What the deals of an order leave of a resting one, if anything. -/
def leave (x : Exchange) (o r : OrderEntry) : Option OrderEntry :=
  Greedy.kept OrderEntry.remainingAmount (r.fill (Greedy.taken r.id ((x.deals o).map fun d => (d.1.2.id, d.2))))

/-- What its trades leave of the order itself. -/
def rest (x : Exchange) (o : OrderEntry) : OrderEntry := o.fill (amountUsed (x.trades o))

/-- The part of its lock that an order gets back: all that is not used, unless it rests. -/
def freed (x : Exchange) (o : OrderEntry) : Decimal := if (x.rest o).rests then 0 else o.lock.2 - o.used (x.trades o)

/-- Moves an amount from what a user has available to what is locked. -/
def lock (x : Exchange) (user : UserId) (mint : Mint) (amount : Decimal) : Exchange :=
  { x with
    available := fun u m => x.available u m - posting user mint amount u m
    locked := fun u m => x.locked u m + posting user mint amount u m }

/-- An order that can be paid for: its trades are settled from what is locked, the rest of a limit
order rests last, and of any other one the rest of the lock is given back. -/
def submit (x : Exchange) (o : OrderEntry) : Exchange :=
  let x' := x.lock o.userId o.lock.1 (o.lock.2 - x.freed o)
  { available := fun u m => x'.available u m + BalanceCache.credits (x.trades o) u m
    locked := fun u m => x'.locked u m - BalanceCache.debits (x.trades o) u m
    orders := x.orders.filterMap (x.leave o) ++ if (x.rest o).rests then [x.rest o] else [] }

/-- A user's order with an id in the book of a pair. -/
def find (x : Exchange) (orderId : OrderId) (userId : UserId) (pair : TradingPair) : Option OrderEntry :=
  x.orders.find? fun o => o.id = orderId ∧ o.userId = userId ∧ o.pair = pair

/-- An order goes, and what it needed is given back. -/
def cancel (x : Exchange) (o : OrderEntry) : Exchange :=
  { x.lock o.userId o.unlock.1 (-o.unlock.2) with orders := x.orders.filter fun r => r.id ≠ o.id }

/-- A deposit, or a withdrawal of no more than is available. -/
def deposit (x : Exchange) (user : UserId) (mint : Mint) (delta : Decimal) : Exchange :=
  { x with available := fun u m => x.available u m + posting user mint (max delta (-x.available user mint)) u m }

/-- The first orders of a side: so many, and one at least. -/
def first (depth : Option ℕ) (orders : List OrderEntry) : List OrderEntry :=
  match depth with
  | none => orders
  | some d => orders.take (max 1 d)

/-- One command: the exchange after it and the answer. -/
def handle (x : Exchange) : Command → Exchange × Answer
  | .submitOrder order =>
    if order.lock.2 ≤ x.available order.userId order.lock.1 then (x.submit order, .submitted (some (x.trades order)))
    else (x, .submitted none)
  | .cancelOrder orderId userId pair =>
    match x.find orderId userId pair with
    | some order => (x.cancel order, .cancelled (some order))
    | none => (x, .cancelled none)
  | .getOrderbook pair depth => (x, .orderbook (first depth (x.side pair true)) (first depth (x.side pair false)))
  | .getBalance userId mint => (x, .balance (x.available userId mint) (x.locked userId mint))
  | .lockBalance userId mint amount =>
    if amount ≤ x.available userId mint then (x.lock userId mint amount, .done true) else (x, .done false)
  | .unlockBalance userId mint amount =>
    if amount ≤ x.locked userId mint then (x.lock userId mint (-amount), .done true) else (x, .done false)
  | .updateBalance userId mint delta => (x.deposit userId mint delta, .done true)

def step (x : Exchange) (c : Command) : Exchange := (x.handle c).1

def run (x : Exchange) (cs : List Command) : Exchange := cs.foldl step x

/-- The answers of a run. -/
def answers : Exchange → List Command → List Answer
  | _, [] => []
  | x, c :: cs => (x.handle c).2 :: (x.step c).answers cs

/-- No order of the user of `o` is within its limit on the side that it meets. -/
def MeetsNoOwn (x : Exchange) (o : OrderEntry) : Prop :=
  ∀ r ∈ x.side o.pair (!o.isBuy), r.userId = o.userId → o.crosses (r.price.getD 0) = false

/-- The division finds what a budget buys: it is no less than all of a quote that the budget pays
for, and exact where the budget ends. -/
def dividesExactly (dv : Decimal → Decimal → Decimal) : Decimal → List (Decimal × OrderEntry) → Bool
  | _, [] => true
  | budget, q :: qs =>
    if budget ≤ 0 then true
    else if cost q ≤ budget then decide (remaining q ≤ dv budget q.1) && dividesExactly dv (budget - cost q) qs
    else q.1 * dv budget q.1 = budget

/-- What an order buys for a budget is not rounded. -/
def Exact (dv : Decimal → Decimal → Decimal) (x : Exchange) (o : OrderEntry) : Prop :=
  ∀ budget ∈ o.remainingQuoteAmount, dividesExactly dv budget (x.offers o) = true

/-- What the orders of a user need of a mint, to be settled. -/
def needs (x : Exchange) (user : UserId) (mint : Mint) : Decimal := (x.orders.map fun o => o.required user mint).sum

/-- An order that is submitted meets none of its own user, what it buys for a budget is not rounded,
and nothing is unlocked that a resting order needs. -/
def Clear (dv : Decimal → Decimal → Decimal) (x : Exchange) : Command → Prop
  | .submitOrder order => x.MeetsNoOwn order ∧ x.Exact dv order
  | .unlockBalance userId mint amount =>
    amount ≤ x.locked userId mint → x.needs userId mint ≤ x.locked userId mint - amount
  | _ => True

def ClearRun (dv : Decimal → Decimal → Decimal) : Exchange → List Command → Prop
  | _, [] => True
  | x, c :: cs => x.Clear dv c ∧ (x.step c).ClearRun dv cs

instance (x : Exchange) (o : OrderEntry) : Decidable (x.MeetsNoOwn o) := inferInstanceAs (Decidable (∀ r ∈ _, _))

instance (dv : Decimal → Decimal → Decimal) (x : Exchange) (o : OrderEntry) : Decidable (x.Exact dv o) :=
  inferInstanceAs (Decidable (∀ budget ∈ o.remainingQuoteAmount, _))

instance (dv : Decimal → Decimal → Decimal) (x : Exchange) : (c : Command) → Decidable (x.Clear dv c)
  | .submitOrder order => inferInstanceAs (Decidable (x.MeetsNoOwn order ∧ x.Exact dv order))
  | .unlockBalance userId mint amount =>
    inferInstanceAs (Decidable (amount ≤ x.locked userId mint → x.needs userId mint ≤ x.locked userId mint - amount))
  | .cancelOrder _ _ _ | .getOrderbook _ _ | .getBalance _ _ | .lockBalance _ _ _ | .updateBalance _ _ _ =>
    inferInstanceAs (Decidable True)

instance decidableClearRun (dv : Decimal → Decimal → Decimal) :
    (x : Exchange) → (cs : List Command) → Decidable (x.ClearRun dv cs)
  | _, [] => inferInstanceAs (Decidable True)
  | x, c :: cs =>
    have := decidableClearRun dv (x.step c) cs
    inferInstanceAs (Decidable (x.Clear dv c ∧ (x.step c).ClearRun dv cs))

end Exchange

end CexEngine
