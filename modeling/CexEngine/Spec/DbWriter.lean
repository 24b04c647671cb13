import Mathlib.Data.List.Infix
import Mathlib.Data.List.Sort
import CexEngine.Lib.Machine
import CexEngine.Spec.Executor

/-!
# The DB writer

`db_writer_thread_loop`, `flush_batch` and `process_db_command` of `runtime/threads.rs`, over
the rows of the `orders` table. What the database answers is chosen from outside, attempt by
attempt and statement by statement; a transaction that is not committed leaves no trace.
The waits between two attempts have no counterpart, and `updated_at` is left out of a row.
-/

namespace CexEngine

/-- What a `DECIMAL` column keeps of a value: so many decimal places, and a tie goes away from zero. -/
def column (scale : ℕ) (x : Decimal) : Decimal :=
  let digits : ℤ := ((if x < 0 then -x else x) * 10 ^ scale + 1 / 2).floor
  (if x < 0 then -digits else digits) / 10 ^ scale

/-- `filled_amount DECIMAL(30, 9)`, as `price` and `amount`. -/
def baseColumn : Decimal → Decimal := column 9

/-- `filled_quote_amount DECIMAL(20, 8)` -/
def quoteColumn : Decimal → Decimal := column 8

/-- A row of `orders`, without its id. -/
structure OrderRow where
  userId : UserId
  orderType : OrderType
  orderSide : OrderSide
  baseMint : Mint
  quoteMint : Mint
  price : Option Decimal
  amount : Decimal
  filledAmount : Decimal
  filledQuoteAmount : Decimal
  status : String
  createdAt : ℕ
  deriving DecidableEq, Repr

abbrev OrdersTable := AList fun _ : OrderId => OrderRow

/-- `UPDATE orders SET .. WHERE id = $1` -/
def OrdersTable.update (orders : OrdersTable) (id : OrderId) (set : OrderRow → OrderRow) : OrdersTable :=
  match orders.lookup id with
  | some row => orders.insert id (set row)
  | none => orders

namespace DbCommand

def isUpdateBalance : DbCommand → Bool
  | .updateBalance .. => true
  | _ => false

/-- An `UpdateOrderStatus` of this order. -/
def isStatusOf (id : OrderId) : DbCommand → Bool
  | .updateOrderStatus orderId .. => orderId = id
  | _ => false

/-- The sort key of a batch: orders before their status, trades last. -/
def priority : DbCommand → ℕ
  | .insertOrder .. => 1
  | .updateOrderStatus .. => 2
  | .insertTrade .. => 3
  | .updateBalance .. => 4

/-- What the statement of a command does to the table. -/
def apply (orders : OrdersTable) : DbCommand → OrdersTable
  | .insertOrder orderId userId orderType orderSide baseMint quoteMint price amount createdAt status filled filledQuote =>
    match orders.lookup orderId with
    -- ON CONFLICT (id) DO UPDATE SET updated_at
    | some _ => orders
    | none =>
      orders.insert orderId {
        userId, orderType, orderSide, baseMint, quoteMint, createdAt
        price := price.map baseColumn
        amount := baseColumn amount
        filledAmount := baseColumn (filled.getD 0)
        filledQuoteAmount := quoteColumn (filledQuote.getD 0)
        status := status.getD "pending" }
  | .updateOrderStatus orderId status filled filledQuote =>
    if status = "cancelled" then
      orders.update orderId fun row => { row with status, filledAmount := baseColumn filled }
    else
      orders.update orderId fun row =>
        { row with status, filledAmount := baseColumn filled, filledQuoteAmount := quoteColumn filledQuote }
  | .insertTrade _ => orders
  | .updateBalance .. => orders

end DbCommand

/-- `process_db_command` inside a transaction. `answer` is the error of its statement, if any;
what `anyhow` shows of it is the context alone. -/
def processDbCommand (orders : OrdersTable) (answer : Option String) (cmd : DbCommand) : Except String OrdersTable :=
  match cmd, answer with
  | .insertOrder .., some _ => .error "Failed to insert order"
  | .updateOrderStatus .., some _ => .error "Failed to update order status"
  | cmd, _ => .ok (cmd.apply orders)

/-- `str::contains` -/
def containsText (text : String) (part : String) : Bool := part.toList <:+: text.toList

/-- `is_deadlock_error` -/
def isDeadlockError (e : String) : Bool := containsText e "deadlock" || containsText e "40P01"

/-- What the database answers to one attempt: `none` where it succeeds. -/
structure Attempt where
  begins : Option String
  /-- By the index of the command. -/
  executes : ℕ → Option String
  commits : Option String

/-- Every statement succeeds. -/
def Attempt.ok : Attempt := ⟨none, fun _ => none, none⟩

/-- The commands that a flush handles, in its order: `filter`, then the stable `sort_by`. -/
def processedBatch (batch : List DbCommand) : List DbCommand :=
  (batch.filter fun cmd => !cmd.isUpdateBalance).insertionSort fun a b => a.priority ≤ b.priority

/-- The loop over the commands, from index `idx` on: the table as the transaction sees it and
`successful_indices`. The first error ends it. -/
def processCommands (executes : ℕ → Option String) :
    ℕ → List DbCommand → OrdersTable × List ℕ → Except String (OrdersTable × List ℕ)
  | _, [], done => .ok done
  | idx, cmd :: cmds, (orders, indices) =>
    match processDbCommand orders (executes idx) cmd with
    | .ok orders => processCommands executes (idx + 1) cmds (orders, indices ++ [idx])
    | .error e => .error e

/-- `successful_indices.sort_by(|a, b| b.cmp(a))`, then `batch.remove(idx)` for each. No index
is past the end, where `remove` would panic. -/
def removeSuccessful (batch : List DbCommand) (indices : List ℕ) : List DbCommand :=
  (indices.insertionSort (· ≥ ·)).foldl List.eraseIdx batch

/-- One call of `flush_batch`. -/
structure Flush where
  /-- The batch it is called with. -/
  before : List DbCommand
  /-- The batch it leaves. -/
  batch : List DbCommand
  orders : OrdersTable
  /-- The commands of the transaction that was committed, as they were handled. -/
  committed : List DbCommand
  result : Except String Unit

def Flush.isOk (f : Flush) : Bool := f.result.isOk

section

variable (db : ℕ → Attempt) (batch : List DbCommand) (orders : OrdersTable)

/-- `flush_batch` gives up. -/
def Flush.failed (e : String) : Flush := ⟨batch, batch, orders, [], .error e⟩

/-- The body of the retry loop. `retry` is what follows a failure that is tried again: the next
attempt, or the error it is given when none is left. -/
def flushAttempt (attempt : Attempt) (retry : String → Flush) : Flush :=
  match attempt.begins with
  | some e => retry ("Failed to begin transaction after 5 retries: " ++ e)
  | none =>
    match processCommands attempt.executes 0 (processedBatch batch) (orders, []) with
    | .error e =>
      if isDeadlockError e then retry "Failed after 5 retries due to deadlock" else .failed batch orders e
    | .ok (written, indices) =>
      match attempt.commits with
      | none => ⟨batch, removeSuccessful batch indices, written, processedBatch batch, .ok ()⟩
      | some e =>
        if isDeadlockError e then
          retry ("Failed to commit transaction after 5 retries due to deadlock: " ++ e)
        else .failed batch orders ("Failed to commit transaction: " ++ e)

/-- The retry loop, with so many of the `MAX_RETRIES = 5` retries left. -/
def flushLoop : ℕ → Flush
  | 0 => flushAttempt batch orders (db 5) (.failed batch orders)
  | left + 1 => flushAttempt batch orders (db (4 - left)) fun _ => flushLoop left

/-- `flush_batch` -/
def flushBatch : Flush :=
  if batch = [] then ⟨batch, batch, orders, [], .ok ()⟩ else flushLoop db batch orders 5

end

/-! ## The thread -/

/-- Where the loop reads the channel next. -/
inductive WriterPhase where
  /-- `try_recv` at the top of the loop. -/
  | top
  /-- `try_recv` after a flush that was due. -/
  | again
  /-- `recv_timeout` until the next flush is due. -/
  | waiting
  | exited
  deriving DecidableEq, Repr

/-- The writer, its channel and the table. `received` and `flushes` record what it did. -/
structure DbWriter where
  dbRx : List DbCommand
  /-- The channel still has a sender. -/
  connected : Bool
  phase : WriterPhase
  batch : List DbCommand
  orders : OrdersTable
  received : List DbCommand
  flushes : List Flush

/-- A writer that starts on a table. -/
def DbWriter.start (orders : OrdersTable) : DbWriter := ⟨[], true, .top, [], orders, [], []⟩

namespace DbWriter

/-- What was handed to `process_db_command` in transactions that were committed. -/
def committed (w : DbWriter) : List DbCommand := w.flushes.flatMap Flush.committed

variable (db : ℕ → Attempt)

/-- `flush_batch(&mut batch, &db_pool)`; an error is only logged. -/
def flush (w : DbWriter) : DbWriter :=
  let f := flushBatch db w.batch w.orders
  { w with batch := f.batch, orders := f.orders, flushes := w.flushes ++ [f] }

/-- `if !batch.is_empty() { flush_batch(..) }` -/
def flushNonempty (w : DbWriter) : DbWriter := if w.batch = [] then w else w.flush db

/-- `batch.push(cmd)` -/
def take (w : DbWriter) (cmd : DbCommand) (rest : List DbCommand) : DbWriter :=
  { w with dbRx := rest, batch := w.batch ++ [cmd], received := w.received ++ [cmd] }

/-- `if batch.len() >= batch_size_limit { flush_batch(..) }` -/
def flushFull (w : DbWriter) : DbWriter := if w.batch.length ≥ 100 then w.flush db else w

/-- What the thread does from one read of its channel to the next. `overdue`: the time limit of
the batch has passed. An empty channel that is read by `recv_timeout` times out. -/
def pass (overdue : Bool) (w : DbWriter) : Option DbWriter :=
  match w.phase, w.dbRx with
  | .exited, _ => none
  | .top, cmd :: rest => some { (w.take cmd rest).flushFull db with phase := .top }
  | .waiting, cmd :: rest => some { (w.take cmd rest).flushFull db with phase := .top }
  | .again, cmd :: rest => some { w.take cmd rest with phase := .top }
  | phase, [] =>
    if w.connected then
      match phase with
      | .top => if overdue then some { w.flushNonempty db with phase := .again } else some { w with phase := .waiting }
      | .waiting => some { w.flushNonempty db with phase := .top }
      | _ => some { w with phase := .top }
    else some { w.flushNonempty db with phase := .exited }

end DbWriter

/-- The engine thread sends; `none` while there is no room. -/
def DbWriter.accept (w : DbWriter) (cmds : List DbCommand) : Option DbWriter :=
  if cmds = [] ∨ w.dbRx.length < channelCapacity then some { w with dbRx := w.dbRx ++ cmds } else none

inductive WriterAction where
  /-- The engine thread sends a command. -/
  | send (cmd : DbCommand)
  /-- The last sender is dropped. -/
  | close
  /-- The writer goes on to its next read. -/
  | pass (overdue : Bool) (db : ℕ → Attempt)

/-- One step of the channel or of the thread. -/
def DbWriter.step (w : DbWriter) : WriterAction → Option DbWriter
  | .send cmd => if w.connected then w.accept [cmd] else none
  | .close => if w.connected then some { w with connected := false } else none
  | .pass overdue db => w.pass db overdue

end CexEngine
