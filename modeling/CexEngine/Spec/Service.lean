import CexEngine.Spec.DbWriter
import CexEngine.Spec.EngineThread

/-!
# The service, the engine thread and the DB writer

`OrderService::create_order` and `OrderService::cancel_order`, the handlers that share the
engine with them, and the tasks that `create_order` spawns, over the engine thread, the DB
writer and the `orders` table.

Every call of the engine is made with the lock of one `tokio::sync::Mutex`, which serves its
waiters first come first served. A task is a call or a spawned task; it goes on when the
runtime polls it, in any order. The rows of the orders are there before the calls: they are
inserted by the Java server.
-/

namespace CexEngine

/-- What a task does. -/
inductive Job where
  /-- `OrderService::create_order` -/
  | createOrder (userId : UserId) (request : CreateOrderRequest)
  /-- The task that a `create_order` spawns for its order. -/
  | submit (creator : ℕ) (order : OrderEntry)
  /-- `OrderService::cancel_order` -/
  | cancelOrder (userId : UserId) (orderId : OrderId)
  /-- `sync_balance` -/
  | syncBalance (userId : UserId) (mint : Mint) (availableDelta : Decimal)
  | getOrderbook (pair : TradingPair) (depth : Option ℕ)
  deriving DecidableEq, Repr

inductive CallError where
  | refused (e : ServiceError)
  /-- "Insufficient balance: required .., but only .. available" -/
  | insufficientBalance (required available : Decimal)
  | failed (text : String)
  /-- The wait ended: a timeout, a failing database or a client that is gone. -/
  | gaveUp
  deriving DecidableEq, Repr

/-- A result of the service's own functions. -/
def refused {α : Type} (r : Except ServiceError α) : Except CallError α := r.mapError .refused

/-- `check_balance`, with the available balance that the engine answers, if it answers. -/
def checkBalance (answer : Option Decimal) (required : Decimal) : Except CallError Unit :=
  match answer with
  | none => .error (.failed "Failed to get balance from engine")
  | some available => if available < required then .error (.insufficientBalance required available) else .ok ()

/-- `create_order` from its first line to its last: the entry it submits and the order it
returns. `balance` is what the engine answers for a mint. -/
def CreateOrderRequest.createOrder [Arithmetic] (request : CreateOrderRequest) (userId : UserId)
    (balance : Mint → Option Decimal) (now : ℕ) : Except CallError (OrderEntry × Order) := do
  refused request.validate
  let (mint, required) ← refused request.requiredBalance
  checkBalance (balance mint) required
  let entry ← refused (request.orderEntry userId now)
  let amount ← refused request.orderAmount
  return (entry, entry.pending amount now)

/-- Where a task waits. -/
inductive Stage where
  /-- Before its first poll, or for the row of the order. -/
  | started
  /-- `order_repo.get_by_id` has answered. -/
  | fetched (row : Option OrderRow)
  /-- `engine.lock().await`; this command is sent under the lock. -/
  | locking (command : Command)
  /-- For the reply of the engine, under the lock. -/
  | asking
  /-- `order_repo.update_status` -/
  | writing
  | returned (answer : Except CallError Unit)
  deriving DecidableEq

structure Task where
  job : Job
  stage : Stage
  deriving DecidableEq

/-- How far a task gets at its call. -/
def Job.opening : Job → Stage
  | .createOrder userId request =>
    match (do request.validate; request.requiredBalance) with
    | .error e => .returned (.error (.refused e))
    | .ok (mint, _) => .locking (.getBalance userId mint)
  | .submit _ _ => .started
  | .cancelOrder _ _ => .started
  | .syncBalance userId mint delta => .locking (.updateBalance userId mint delta)
  | .getOrderbook pair depth => .locking (.getOrderbook pair depth)

/-- Steps 1 to 3 of `cancel_order`, on the row it has read: the pair of the order. -/
def cancellable (userId : UserId) : Option OrderRow → Except CallError TradingPair
  | none => .error (.failed "Order not found")
  | some row =>
    if row.userId ≠ userId then .error (.failed "Unauthorized: You don't own this order")
    else if row.status = "filled" then .error (.failed "Cannot cancel: Order already fully filled")
    else if row.status = "cancelled" then .error (.failed "Cannot cancel: Order already cancelled")
    else if row.status = "pending" ∨ row.status = "partial" then .ok ⟨row.baseMint, row.quoteMint⟩
    else .error (.failed "Invalid order status")

/-- All parties. A task is known by its place in `tasks`; `mutex` has the tasks that asked for
the lock, in that order: the first one has it. -/
structure System where
  thread : EngineThread
  writer : DbWriter
  tasks : List Task
  mutex : List ℕ

namespace System

def start (engine : Engine) (orders : OrdersTable) : System := ⟨.start engine, .start orders, [], []⟩

/-- The task waits at another place. -/
def goTo (s : System) (id : ℕ) (stage : Stage) : System :=
  { s with tasks := s.tasks.modify id fun task => { task with stage } }

/-- The task asks for the lock. -/
def join (s : System) (id : ℕ) (command : Command) : System :=
  { s.goTo id (.locking command) with mutex := s.mutex ++ [id] }

/-- The task gives the lock back, or its place among the waiters, if it has any. -/
def leave (s : System) (id : ℕ) (stage : Stage) : System := { s.goTo id stage with mutex := s.mutex.erase id }

/-- A new task, as far as it gets. -/
def spawn (s : System) (job : Job) : System :=
  { s with
    tasks := s.tasks ++ [⟨job, job.opening⟩]
    mutex :=
      match job.opening with
      | .locking _ => s.mutex ++ [s.tasks.length]
      | _ => s.mutex }

/-- What the engine has answered to a task. -/
def reply (s : System) (id : ℕ) : Option Reply :=
  (s.thread.handled.find? fun h => h.request.tag = id).map Handled.reply

/-- The lock is there: the command is sent. A submission does not wait for a reply. -/
def send (s : System) (id : ℕ) (job : Job) (command : Command) : Option System :=
  (s.thread.send ⟨id, command⟩).map fun thread =>
    match job with
    | .submit _ _ => { s with thread }.leave id (.returned (.ok ()))
    | _ => { s with thread }.goTo id .asking

/-- The rest of `create_order`, with the balance that the engine has answered. -/
def finishCreate (s : System) (id : ℕ) (userId : UserId) (request : CreateOrderRequest) (available : Decimal)
    (now : ℕ) : System :=
  match request.requiredBalance with
  | .error e => s.leave id (.returned (.error (.refused e)))
  | .ok (_, required) =>
    if available < required then s.leave id (.returned (.error (.insufficientBalance required available)))
    else
      match request.orderEntry userId now with
      | .error e => s.leave id (.returned (.error (.refused e)))
      | .ok order => (s.leave id (.returned (.ok ()))).spawn (.submit id order)

/-- The engine has answered: the lock is given back. -/
def answered (s : System) (id : ℕ) (now : ℕ) : Job → Reply → Option System
  | .createOrder userId request, .balance (available, _) => some (s.finishCreate id userId request available now)
  | .cancelOrder _ _, .cancelled (.ok _) => some (s.leave id .writing)
  | .cancelOrder _ _, .cancelled (.error _) =>
    some (s.leave id (.returned (.error (.failed "Failed to cancel order in engine"))))
  | .syncBalance _ _ _, .done (.ok _) => some (s.leave id (.returned (.ok ())))
  | .syncBalance _ _ _, .done (.error _) => some (s.leave id (.returned (.error (.failed "Failed to sync balance"))))
  | .getOrderbook _ _, .orderbook _ => some (s.leave id (.returned (.ok ())))
  | _, _ => none

/-- Step 5 of `cancel_order`: `UPDATE orders SET status = 'cancelled' .. RETURNING ..`. -/
def writeCancelled (s : System) (id : ℕ) (orderId : OrderId) : System :=
  match s.writer.orders.lookup orderId with
  | none => s.goTo id (.returned (.error (.failed "Failed to update order status to cancelled")))
  | some _ =>
    let orders := s.writer.orders.update orderId fun row => { row with status := "cancelled" }
    { s with writer := { s.writer with orders } }.goTo id (.returned (.ok ()))

/-- A task goes on, if what it waits for is there. `now` is the time on its clock. -/
def poll (s : System) (id : ℕ) (now : ℕ) : Option System :=
  match s.tasks[id]? with
  | none => none
  | some ⟨job, stage⟩ =>
    match stage with
    | .started =>
      match job with
      | .submit _ order => some (s.join id (.submitOrder order))
      | .cancelOrder _ orderId => some (s.goTo id (.fetched (s.writer.orders.lookup orderId)))
      | _ => none
    | .fetched row =>
      match job with
      | .cancelOrder userId orderId =>
        match cancellable userId row with
        | .error e => some (s.goTo id (.returned (.error e)))
        | .ok pair => some (s.join id (.cancelOrder orderId userId pair))
      | _ => none
    | .locking command => if s.mutex.head? = some id then s.send id job command else none
    | .asking => (s.reply id).bind (s.answered id now job)
    | .writing =>
      match job with
      | .cancelOrder _ orderId => some (s.writeCancelled id orderId)
      | _ => none
    | .returned _ => none

/-- A call ends without an answer. Spawned tasks are detached and go on. -/
def giveUp (s : System) (id : ℕ) : Option System :=
  match s.tasks[id]? with
  | none => none
  | some ⟨.submit _ _, _⟩ => none
  | some ⟨_, .returned _⟩ => none
  | some ⟨_, _⟩ => some (s.leave id (.returned (.error .gaveUp)))

end System

inductive SystemAction where
  /-- A client calls; no client calls `submit`. -/
  | call (job : Job)
  | poll (id : ℕ) (now : ℕ)
  | giveUp (id : ℕ)
  /-- The engine thread goes on. -/
  | engine
  /-- The DB writer goes on. -/
  | writer (overdue : Bool) (db : ℕ → Attempt)

def System.step (dv : Decimal → Decimal → Decimal) (s : System) : SystemAction → Option System
  | .call (.submit _ _) => none
  | .call job => some (s.spawn job)
  | .poll id now => s.poll id now
  | .giveUp id => s.giveUp id
  | .engine =>
    (s.thread.pass dv).bind fun r => (s.writer.accept r.2).map fun writer => { s with thread := r.1, writer }
  | .writer overdue db => (s.writer.pass db overdue).map fun writer => { s with writer }

end CexEngine
