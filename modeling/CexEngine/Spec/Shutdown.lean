import CexEngine.Spec.DbWriter
import CexEngine.Spec.EngineThread
import CexEngine.Spec.Wal

/-!
# The threads of the engine and its shutdown

`wal_thread_loop` of `runtime/threads.rs`, and `stop_impl` of `runtime/engine.rs` with the three
threads that it waits for, in `EngineMode::Standard`.

A channel is closed when its last sender is dropped: the engine's own, the clone of the engine
thread, which goes with the thread, and the one of the executor. `clear_channels` drops the last
of these under the lock of the executor, which the engine thread holds while it executes the trades
of a limit order.
-/

namespace CexEngine

/-! ## The WAL thread -/

/-- The thread, its channel and its log. `received` records what it took. -/
structure WalThread where
  walRx : List WalEntry
  /-- The channel still has a sender. -/
  connected : Bool
  log : WalLog
  received : List WalEntry
  exited : Bool

namespace WalThread

/-- `WalWriter::new(&wal_dir, 10)`: if the file is not opened, the thread returns. -/
def start (opened : Bool) : WalThread := ⟨[], true, .new 10, [], !opened⟩

/-- From one `recv` to the next; it waits for an entry or for the end of the channel. Errors of
`append` and of the last `sync` end nothing. -/
def pass (json : SerdeJson) (disk : Disk) (w : WalThread) : Option WalThread :=
  if w.exited then none
  else
    match w.walRx with
    | entry :: rest =>
      some { w with walRx := rest, log := w.log.call json (.append entry disk), received := w.received ++ [entry] }
    | [] => if w.connected then none else some { w with log := w.log.call json (.sync disk), exited := true }

end WalThread

inductive WalAction where
  | send (entry : WalEntry)
  /-- The last sender is dropped. -/
  | close
  | pass (disk : Disk)

/-- One step of the channel or of the thread. -/
def WalThread.step (json : SerdeJson) (w : WalThread) : WalAction → Option WalThread
  | .send entry =>
    if w.connected ∧ w.walRx.length < channelCapacity then some { w with walRx := w.walRx ++ [entry] } else none
  | .close => if w.connected then some { w with connected := false } else none
  | .pass disk => w.pass json disk

/-! ## Stopping -/

/-- What `stop_impl` has done. -/
inductive StopPoint where
  /-- It has not been called. -/
  | running
  /-- `self.running.store(false, ..)` -/
  | flagged
  /-- `executor.clear_channels()` -/
  | cleared
  /-- `drop(self.order_tx.take())`, and so on. -/
  | ordersClosed
  | balancesClosed
  | walClosed
  | dbClosed
  /-- `handle.join()` of the engine thread, and so on. -/
  | engineJoined
  | walJoined
  | stopped
  deriving DecidableEq, Repr

/-- The engine still has its own `wal_tx`. -/
def StopPoint.walOpen : StopPoint → Bool
  | .running | .flagged | .cleared | .ordersClosed | .balancesClosed => true
  | _ => false

/-- The engine still has its own `db_tx`. -/
def StopPoint.dbOpen : StopPoint → Bool
  | .walClosed => true
  | stop => stop.walOpen

/-- Sent by the executor, with its own sender; the rest is sent with the one of the thread. -/
def DbCommand.isTrade : DbCommand → Bool
  | .insertTrade _ => true
  | _ => false

namespace EngineThread

def hasExited (t : EngineThread) : Bool :=
  match t.phase with
  | .exited => true
  | _ => false

/-- The executor has no sender any more: the trades that it has still to send are not sent. -/
def clearTrades (t : EngineThread) : EngineThread :=
  match t.phase with
  | .handling done cmds => { t with phase := .handling done (cmds.filter fun cmd => !cmd.isTrade) }
  | _ => t

end EngineThread

/-- The engine with its threads. -/
structure EngineProcess where
  thread : EngineThread
  writer : DbWriter
  wal : WalThread
  stop : StopPoint
  /-- The last thing that the engine thread has sent is a trade. -/
  midTrades : Bool

inductive ProcessAction where
  /-- A caller sends a command. -/
  | send (command : Command)
  | engine
  | writer (overdue : Bool) (db : ℕ → Attempt)
  | wal (disk : Disk)
  /-- `stop_impl` is called or goes on. -/
  | stop

namespace EngineProcess

/-- After `start_impl`, on an engine and a table. -/
def start (engine : Engine) (orders : OrdersTable) (opened : Bool) : EngineProcess :=
  ⟨.start engine, .start orders, .start opened, .running, false⟩

/-- Which channels still have a sender. -/
def settle (p : EngineProcess) : EngineProcess :=
  { p with
    writer := { p.writer with connected := p.stop.dbOpen || !p.thread.hasExited }
    wal := { p.wal with connected := p.stop.walOpen || !p.thread.hasExited } }

/-- The engine thread is between two trades of a limit order. -/
def executorHeld (p : EngineProcess) : Bool :=
  p.midTrades &&
    match p.thread.phase with
    | .handling _ (cmd :: _) => cmd.isTrade
    | _ => false

/-- `stop_impl` goes on, if what it waits for is there. -/
def stopNext (p : EngineProcess) : Option EngineProcess :=
  match p.stop with
  | .running => some { p with thread := { p.thread with running := false }, stop := .flagged }
  | .flagged => if p.executorHeld then none else some { p with thread := p.thread.clearTrades, stop := .cleared }
  | .cleared => some { p with thread := { p.thread with orderConnected := false }, stop := .ordersClosed }
  | .ordersClosed => some { p with thread := { p.thread with balanceConnected := false }, stop := .balancesClosed }
  | .balancesClosed => some ({ p with stop := .walClosed }).settle
  | .walClosed => some ({ p with stop := .dbClosed }).settle
  | .dbClosed => if p.thread.hasExited then some { p with stop := .engineJoined } else none
  | .engineJoined => if p.wal.exited then some { p with stop := .walJoined } else none
  | .walJoined => if p.writer.phase = .exited then some { p with stop := .stopped } else none
  | .stopped => none

/-- The engine thread goes on; it waits while the channel of the DB writer is full. -/
def engineNext (dv : Decimal → Decimal → Decimal) (p : EngineProcess) : Option EngineProcess :=
  (p.thread.pass dv).bind fun r =>
    (p.writer.accept r.2).map fun writer =>
      ({ p with thread := r.1, writer, midTrades := r.2.any DbCommand.isTrade }).settle

end EngineProcess

/-- One step. `stop` has the engine to itself: nobody sends then. -/
def EngineProcess.step (json : SerdeJson) (dv : Decimal → Decimal → Decimal) (p : EngineProcess) :
    ProcessAction → Option EngineProcess
  | .send command =>
    if p.stop = .running then (p.thread.send ⟨p.thread.sent.length, command⟩).map fun thread => { p with thread }
    else none
  | .engine => p.engineNext dv
  | .writer overdue db => (p.writer.pass db overdue).map fun writer => { p with writer }
  | .wal disk => (p.wal.pass json disk).map fun wal => { p with wal }
  | .stop => p.stopNext

end CexEngine
