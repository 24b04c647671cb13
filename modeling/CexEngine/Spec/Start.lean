import CexEngine.Spec.DbWriter
import CexEngine.Spec.Threads

/-!
# The start of the engine

`HighPerformanceEngine::start_impl` and the reads of the database that its comments speak of.
The threads it spawns have their own modules.
-/

namespace CexEngine

variable [Arithmetic]

/-- `user_balances`, by its unique key. -/
abbrev BalancesTable := AList fun _ : UserId × Mint => Balance

inductive EngineMode where
  | standard
  | bench
  deriving DecidableEq, Repr

def EngineMode.loadFromDb : EngineMode → Bool
  | .standard => true
  | .bench => false

/-- The loop over the rows of `get_all_balances`: what is locked is added to what is available. -/
def loadBalances (c : BalanceCache) : List (Sigma fun _ : UserId × Mint => Balance) → BalanceCache
  | [] => c
  | ⟨(userId, mint), balance⟩ :: rows =>
    loadBalances (c.setBalance userId mint (Arithmetic.add balance.available balance.locked) 0) rows

/-- `start_impl`. `db` is what `get_all_balances` answers, if there is a database. -/
def startImpl (mode : EngineMode) (db : Option (Except String BalancesTable)) (s : Engine) : Except EngineError Engine :=
  if mode.loadFromDb then
    match db with
    | none => .error (.message "Database unavailable in this mode")
    | some (.error e) => .error (.context "Failed to load balances from database" (.message e))
    | some (.ok rows) => .ok { s with balanceCache := loadBalances s.balanceCache rows.entries }
  else .ok ⟨∅, .new⟩

/-- `OrderRepository::get_all_active_orders`, without its order. -/
def OrdersTable.getAllActiveOrders (orders : OrdersTable) : List (OrderId × OrderRow) :=
  (orders.entries.map fun row => (row.1, row.2)).filter fun row => row.2.status = "pending" ∨ row.2.status = "partial"

/-- `order_to_entry` -/
def orderToEntry (id : OrderId) (row : OrderRow) : OrderEntry where
  id
  userId := row.userId
  orderType := row.orderType
  orderSide := row.orderSide
  baseMint := row.baseMint
  quoteMint := row.quoteMint
  price := row.price
  amount := row.amount
  quoteAmount := none
  filledAmount := row.filledAmount
  remainingAmount := Arithmetic.sub row.amount row.filledAmount
  remainingQuoteAmount := none
  createdAt := row.createdAt

end CexEngine
