import CexEngine.Lib.Machine
import CexEngine.Spec.Threads

/-!
# The loop of the engine thread

`engine_thread_loop` of `runtime/threads.rs` with its two channels.
-/

namespace CexEngine

/-- A command in a channel, under the number that its sender goes by. -/
structure Request where
  tag : ℕ
  command : Command
  deriving DecidableEq, Repr

/-- A request the engine has handled. -/
structure Handled where
  request : Request
  reply : Reply

/-- The commands of the balance channel (`BalanceCommand`); the others are `OrderCommand`s. -/
def Command.isBalance : Command → Bool
  | .updateBalance .. => true
  | _ => false

def Request.isBalance (r : Request) : Bool := r.command.isBalance

/-- What handling a command sends to the DB writer: only submissions send anything. -/
def Engine.dbCommands (dv : Decimal → Decimal → Decimal) (s : Engine) : Command → List DbCommand
  | .submitOrder order => (processSubmitOrder dv s order).dbCommands
  | _ => []

/-- Where the loop is. -/
inductive LoopPhase where
  /-- At the top: the flags, then `balance_rx.try_recv`. -/
  | top
  /-- At `order_rx.recv_timeout`. -/
  | orders
  /-- At `order_rx.try_recv`, after a timeout with the balance channel closed. -/
  | again
  /-- Sending to the DB writer what the handler has left to send; the reply comes last. -/
  | handling (done : Handled) (dbCommands : List DbCommand)
  | exited

/-- The engine thread and its channels. `sent` and `handled` record what went in and came out. -/
structure EngineThread where
  engine : Engine
  orderRx : List Request
  balanceRx : List Request
  /-- `order_tx` has not been dropped. -/
  orderConnected : Bool
  balanceConnected : Bool
  running : Bool
  orderClosed : Bool
  balanceClosed : Bool
  phase : LoopPhase
  sent : List Request
  handled : List Handled

namespace EngineThread

/-- The thread as `start_impl` spawns it. -/
def start (engine : Engine) : EngineThread :=
  ⟨engine, [], [], true, true, true, false, false, .top, [], []⟩

variable (dv : Decimal → Decimal → Decimal)

/-- Calls the handler of a request. -/
def handle (t : EngineThread) (r : Request) : EngineThread :=
  let h := t.engine.handle dv r.command
  { t with engine := h.1, phase := .handling ⟨r, h.2⟩ (t.engine.dbCommands dv r.command) }

/-- On to the order channel, unless it is known to be closed. -/
def toOrders (t : EngineThread) : EngineThread := { t with phase := if t.orderClosed then .top else .orders }

/-- An order command has been received: the flag is read again before it is handled. -/
def received (t : EngineThread) (r : Request) (rest : List Request) : EngineThread :=
  let t := { t with orderRx := rest }
  if t.running then t.handle dv r else { t with phase := .exited }

/-- What the thread does from one read of a channel to the next, and what it sends to the DB
writer meanwhile. An empty order channel that is read by `recv_timeout` times out. -/
def pass (t : EngineThread) : Option (EngineThread × List DbCommand) :=
  match t.phase with
  | .exited => none
  | .handling done [] => some ({ t with handled := t.handled ++ [done], phase := .top }, [])
  | .handling done (cmd :: cmds) => some ({ t with phase := .handling done cmds }, [cmd])
  | .top =>
    if !t.running then some ({ t with phase := .exited }, [])
    else if t.balanceClosed && t.orderClosed then some ({ t with phase := .exited }, [])
    else if t.balanceClosed then some (t.toOrders, [])
    else
      match t.balanceRx with
      | r :: rest => some ({ t with balanceRx := rest }.handle dv r, [])
      | [] =>
        if t.balanceConnected then some (t.toOrders, [])
        else some ({ t with balanceClosed := true }.toOrders, [])
  | .orders =>
    match t.orderRx with
    | r :: rest => some (t.received dv r rest, [])
    | [] =>
      if t.orderConnected then some ({ t with phase := if t.balanceClosed then .again else .top }, [])
      else some ({ t with orderClosed := true, phase := .top }, [])
  | .again =>
    match t.orderRx with
    | r :: rest => some (t.received dv r rest, [])
    | [] =>
      if t.orderConnected then some ({ t with phase := .top }, [])
      else some ({ t with orderClosed := true, phase := .exited }, [])

/-- `balance_tx.send` or `order_tx.send`, when there is room. -/
def send (t : EngineThread) (r : Request) : Option EngineThread :=
  if r.isBalance then
    if t.balanceConnected ∧ t.balanceRx.length < channelCapacity then
      some { t with balanceRx := t.balanceRx ++ [r], sent := t.sent ++ [r] }
    else none
  else if t.orderConnected ∧ t.orderRx.length < channelCapacity then
    some { t with orderRx := t.orderRx ++ [r], sent := t.sent ++ [r] }
  else none

end EngineThread

/-- What producers and the thread do. -/
inductive LoopAction where
  | send (command : Command)
  /-- `drop(self.order_tx.take())` -/
  | closeOrders
  /-- `drop(self.balance_tx.take())` -/
  | closeBalance
  /-- `self.running.store(false, ..)` -/
  | stop
  | pass

/-- One step of a producer or of the thread. A request is numbered by its place among all that
were sent. -/
def EngineThread.step (dv : Decimal → Decimal → Decimal) (t : EngineThread) : LoopAction → Option EngineThread
  | .send command => t.send ⟨t.sent.length, command⟩
  | .closeOrders => some { t with orderConnected := false }
  | .closeBalance => some { t with balanceConnected := false }
  | .stop => some { t with running := false }
  | .pass => (t.pass dv).map Prod.fst

end CexEngine
