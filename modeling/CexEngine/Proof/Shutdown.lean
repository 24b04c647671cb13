import CexEngine.Proof.Closing
import CexEngine.Proof.CutOff
import CexEngine.Proof.WalThread

/-!
# Stopping the engine

`stop_impl` takes the senders away from the threads and waits for each of them, while they work.

* `EngineProcess.Orderly`: what every state of the process has; `Orderly.step`.
* `stopped_run`: **when `stop_impl` is through, every request that was begun is answered, and the DB
  writer has received what they send and has written it but for the `UpdateBalance`s**, if its last
  flush succeeds.
-/

namespace CexEngine

variable {dv : Decimal → Decimal → Decimal} {origin : Engine}

/-- The steps that `stop_impl` has still to make. -/
def StopPoint.left : StopPoint → ℕ
  | .running => 9
  | .flagged => 8
  | .cleared => 7
  | .ordersClosed => 6
  | .balancesClosed => 5
  | .walClosed => 4
  | .dbClosed => 3
  | .engineJoined => 2
  | .walJoined => 1
  | .stopped => 0

theorem StopPoint.dbOpen_iff {stop : StopPoint} : stop.dbOpen = true ↔ 4 ≤ stop.left := by
  cases stop <;> simp [StopPoint.dbOpen, StopPoint.walOpen, StopPoint.left]

namespace EngineProcess

variable {json : SerdeJson} {p p' : EngineProcess}

/-- The commands on their way to the writer, with those that are there. -/
def sentToDb (p : EngineProcess) : List DbCommand := p.writer.received ++ p.writer.dbRx ++ p.thread.dbOut

/-- As long as the executor has its sender, all is sent; between two trades the executor is locked. -/
structure Whole (dv : Decimal → Decimal → Decimal) (origin : Engine) (p : EngineProcess) : Prop where
  sent : p.sentToDb = origin.dbLog dv p.thread.commands
  inHand : ∀ done cmds, p.thread.phase = .handling done cmds → ∃ begun front,
    p.thread.commands = begun ++ [done.request.command] ∧
      front ++ cmds = (origin.run dv begun).dbCommands dv done.request.command ∧
      (front.getLast?.any DbCommand.isTrade = true → p.midTrades = true)

/-- The threads that have been waited for. -/
structure Joined (p : EngineProcess) (stop : StopPoint) : Prop where
  engine : stop.left ≤ 2 → p.thread.hasExited = true
  wal : stop.left ≤ 1 → p.wal.exited = true
  writer : stop.left ≤ 0 → p.writer.phase = .exited

theorem Joined.none {s : StopPoint} (hleft : 3 ≤ s.left) : p.Joined s :=
  ⟨fun h => by omega, fun h => by omega, fun h => by omega⟩

/-- **The invariant** of the process, stopped or not. -/
structure Orderly (dv : Decimal → Decimal → Decimal) (origin : Engine) (p : EngineProcess) : Prop where
  serial : p.thread.Serial dv origin
  running : p.thread.running = decide (p.stop = .running)
  dbSenders : p.writer.connected = (p.stop.dbOpen || !p.thread.hasExited)
  walSenders : p.wal.connected = (p.stop.walOpen || !p.thread.hasExited)
  whole : 8 ≤ p.stop.left → p.Whole dv origin
  sent : origin.Logs dv p.thread.commands p.sentToDb
  keeps : p.writer.Keeps
  drained : p.writer.phase = .exited → p.writer.Drained
  joined : p.Joined p.stop

theorem Orderly.start (dv : Decimal → Decimal → Decimal) (origin : Engine) (orders : OrdersTable) (opened : Bool) :
    (EngineProcess.start origin orders opened).Orderly dv origin where
  serial := EngineThread.Serial.start origin
  running := rfl
  dbSenders := rfl
  walSenders := rfl
  whole _ := ⟨rfl, fun _ _ h => by cases h⟩
  sent := .inl rfl
  keeps := DbWriter.Keeps.start orders
  drained h := by cases h
  joined := .none (s := .running) (by decide)

/-- A writer that has returned has lost its last sender. -/
theorem Orderly.exited_of_writer (h : p.Orderly dv origin) (hexit : p.writer.phase = .exited) :
    p.stop.dbOpen = false ∧ p.thread.hasExited = true := by
  have hconnected := h.dbSenders
  rw [(h.drained hexit).connected] at hconnected
  simpa using hconnected.symm

theorem settle_eq (hdb : p.writer.connected = (p.stop.dbOpen || !p.thread.hasExited))
    (hwal : p.wal.connected = (p.stop.walOpen || !p.thread.hasExited)) : p.settle = p := by
  rw [settle, ← hdb, ← hwal]

/-- `stop_impl` goes on, or the thread is sent something: what the thread has in hand stays. -/
theorem Orderly.goes {thread : EngineThread} {stop : StopPoint} (h : p.Orderly dv origin)
    (hserial : thread.Serial dv origin) (hphase : thread.phase = p.thread.phase)
    (hhandled : thread.handled = p.thread.handled) (hrunning : thread.running = decide (stop = .running))
    (hleft : stop.left ≤ p.stop.left) (hjoined : p.Joined stop) :
    Orderly dv origin ({ p with thread, stop }).settle := by
  have hserved : thread.served = p.thread.served := by
    rw [EngineThread.served, EngineThread.served, EngineThread.inHand, EngineThread.inHand, hphase, hhandled]
  have hcommands : thread.commands = p.thread.commands := by
    rw [EngineThread.commands, EngineThread.commands, EngineThread.begun_of_served hserved]
  have hexited : thread.hasExited = p.thread.hasExited := by
    rw [EngineThread.hasExited, EngineThread.hasExited, hphase]
  have hsent : (({ p with thread, stop } : EngineProcess).settle).sentToDb = p.sentToDb := by
    rw [sentToDb, sentToDb, EngineThread.dbOut, EngineThread.dbOut]
    dsimp only [settle]
    rw [hphase]
  refine ⟨hserial, hrunning, rfl, rfl, fun hle => ⟨?_, ?_⟩, ?_, ⟨h.keeps.kept, h.keeps.batch, h.keeps.committed⟩,
    fun hexit => ?_, ?_⟩
  · rw [hsent, (h.whole (hle.trans hleft)).sent, ← hcommands]
    rfl
  · intro done cmds hat
    obtain ⟨begun, front, hbegun, hcmds, hmid⟩ := (h.whole (hle.trans hleft)).inHand done cmds (hphase ▸ hat)
    exact ⟨begun, front, hcommands.trans hbegun, hcmds, hmid⟩
  · rw [hsent]
    change origin.Logs dv thread.commands p.sentToDb
    rw [hcommands]
    exact h.sent
  · obtain ⟨hclosed, hgone⟩ := h.exited_of_writer hexit
    refine ⟨(h.drained hexit).dbRx, ?_, (h.drained hexit).committed⟩
    have hdb : stop.dbOpen = false := by
      by_contra hopen
      have hfour := StopPoint.dbOpen_iff.1 (by simpa using hopen)
      rw [StopPoint.dbOpen_iff.2 (hfour.trans hleft)] at hclosed
      cases hclosed
    change (stop.dbOpen || !thread.hasExited) = false
    rw [hexited, hgone, hdb]
    rfl
  · refine ⟨?_, hjoined.wal, hjoined.writer⟩
    change stop.left ≤ 2 → thread.hasExited = true
    rw [hexited]
    exact hjoined.engine

/-- The same while the channels of the other threads stay as they are. -/
theorem Orderly.goes_open {thread : EngineThread} {stop : StopPoint} (h : p.Orderly dv origin)
    (hserial : thread.Serial dv origin) (hphase : thread.phase = p.thread.phase)
    (hhandled : thread.handled = p.thread.handled) (hrunning : thread.running = decide (stop = .running))
    (hleft : stop.left ≤ p.stop.left) (hjoined : p.Joined stop)
    (hopen : stop.dbOpen = p.stop.dbOpen ∧ stop.walOpen = p.stop.walOpen) : Orderly dv origin { p with thread, stop } := by
  have hexited : thread.hasExited = p.thread.hasExited := by
    rw [EngineThread.hasExited, EngineThread.hasExited, hphase]
  have hsettle : ({ p with thread, stop } : EngineProcess).settle = { p with thread, stop } := by
    refine settle_eq ?_ ?_
    · rw [hexited, hopen.1]
      exact h.dbSenders
    · rw [hexited, hopen.2]
      exact h.walSenders
  rw [← hsettle]
  exact h.goes hserial hphase hhandled hrunning hleft hjoined

theorem Orderly.send {r : Request} {thread : EngineThread} (h : p.Orderly dv origin)
    (hsend : p.thread.send r = some thread) : Orderly dv origin { p with thread } := by
  obtain ⟨-, -, hphase, hhandled, -⟩ := EngineThread.send_eq hsend
  have hrunning : thread.running = p.thread.running := by
    rw [EngineThread.send] at hsend
    split_ifs at hsend <;> obtain rfl := Option.some.inj hsend <;> rfl
  exact h.goes_open (h.serial.send hsend) hphase hhandled (hrunning.trans h.running) le_rfl h.joined ⟨rfl, rfl⟩

/-- The engine thread begins a request: `stop_impl` has not been called. -/
theorem Whole.begin {r : Request} {thread : EngineThread} {out : List DbCommand} (hserial : p.thread.Serial dv origin)
    (h : p.Whole dv origin) (hserves : EngineThread.Serves dv p.thread r out thread)
    (hthread : p'.thread = thread) (hwriter : p'.writer.received ++ p'.writer.dbRx = p.writer.received ++ p.writer.dbRx) :
    p'.Whole dv origin := by
  have hcommands : p'.thread.commands = p.thread.commands ++ [r.command] := by
    rw [hthread, EngineThread.commands, hserves.begun, List.map_append]
    rfl
  have hengine : p.thread.engine = origin.run dv p.thread.commands := hserial.engine
  have hsent := h.sent
  rw [sentToDb, hserves.idle, List.append_nil] at hsent
  constructor
  · rw [sentToDb, hwriter, hcommands, Engine.dbLog_concat, hthread, hserves.dbOut, hsent, hengine]
  · intro done cmds hphase
    refine ⟨p.thread.commands, [], ?_, ?_, fun hlast => by simp at hlast⟩
    · -- what is in hand was begun last
      have hserved := hserves.served
      rw [EngineThread.served, EngineThread.inHand, ← hthread, hphase] at hserved
      have hdone := (List.append_inj' hserved rfl).2
      rw [hcommands, List.singleton_inj.1 hdone]
    · have hserved := hserves.served
      rw [EngineThread.served, EngineThread.inHand, ← hthread, hphase] at hserved
      have hdone := List.singleton_inj.1 (List.append_inj' hserved rfl).2
      have hout := hserves.dbOut
      rw [EngineThread.dbOut, ← hthread, hphase] at hout
      rw [List.nil_append, hdone, ← hengine]
      exact hout

/-- What is on its way stays what it is while nothing is begun. -/
theorem sentToDb_of_served {thread : EngineThread} {out : List DbCommand} (hpass : p.thread.pass dv = some (thread, out))
    (hserved : thread.served = p.thread.served) :
    p.writer.received ++ (p.writer.dbRx ++ out) ++ thread.dbOut = p.sentToDb ∧
      thread.commands = p.thread.commands := by
  constructor
  · rw [sentToDb, EngineThread.dbOut_of_served hpass hserved]
    simp only [List.append_assoc]
  · rw [EngineThread.commands, EngineThread.commands, EngineThread.begun_of_served hserved]

theorem Whole.engine {thread : EngineThread} {out : List DbCommand} (hserial : p.thread.Serial dv origin)
    (h : p.Whole dv origin) (hpass : p.thread.pass dv = some (thread, out)) : Whole dv origin ({ p with
      thread
      writer := { p.writer with dbRx := p.writer.dbRx ++ out }
      midTrades := out.any DbCommand.isTrade }).settle := by
  have hserve : ∀ r, EngineThread.Serves dv p.thread r out thread → Whole dv origin ({ p with
      thread
      writer := { p.writer with dbRx := p.writer.dbRx ++ out }
      midTrades := out.any DbCommand.isTrade }).settle := by
    intro r hserves
    refine h.begin hserial hserves rfl ?_
    rw [hserves.out, List.append_nil]
    rfl
  cases (EngineThread.pass_cases hpass).takes with
  | balance r _ _ hserves => exact hserve r hserves
  | order r _ _ _ hserves => exact hserve r hserves
  | idle _ _ _ hserved _ =>
    obtain ⟨hsent, hcommands⟩ := sentToDb_of_served hpass hserved
    refine ⟨hsent.trans (h.sent.trans (by rw [← hcommands]; rfl)), fun done cmds hphase => ?_⟩
    rcases EngineThread.pass_handling hpass hphase with ⟨cmd, hat, rfl⟩ | ⟨r, hserves⟩
    · obtain ⟨begun, front, hbegun, hcmds, -⟩ := h.inHand done (cmd :: cmds) hat
      refine ⟨begun, front ++ [cmd], hcommands.trans hbegun, by rw [List.append_assoc]; exact hcmds, fun hlast => ?_⟩
      simpa [settle] using hlast
    · exact (hserve r hserves).inHand done cmds hphase

theorem engineNext_eq (h : p.engineNext dv = some p') : ∃ thread out, p.thread.pass dv = some (thread, out) ∧
    p' = ({ p with
      thread
      writer := { p.writer with dbRx := p.writer.dbRx ++ out }
      midTrades := out.any DbCommand.isTrade }).settle := by
  obtain ⟨⟨thread, out⟩, hpass, hsend⟩ := Option.bind_eq_some_iff.1 h
  obtain ⟨writer, haccept, rfl⟩ := Option.map_eq_some_iff.1 hsend
  obtain ⟨rfl, -⟩ := DbWriter.accept_eq haccept
  exact ⟨thread, out, hpass, rfl⟩

/-- **A step of the engine thread.** -/
theorem Orderly.engine (h : p.Orderly dv origin) (hstep : p.engineNext dv = some p') : p'.Orderly dv origin := by
  obtain ⟨thread, out, hpass, rfl⟩ := engineNext_eq hstep
  have hnot : p.thread.hasExited = false := by
    cases hexited : p.thread.hasExited with
    | false => rfl
    | true => exact absurd (EngineThread.hasExited_iff.1 hexited) (EngineThread.phase_of_pass hpass)
  refine ⟨h.serial.pass hpass, ?_, rfl, rfl, fun hleft => (h.whole hleft).engine h.serial hpass, ?_,
    ⟨h.keeps.kept, h.keeps.batch, h.keeps.committed⟩, fun hexit => ?_, fun hleft => ?_, h.joined.wal, h.joined.writer⟩
  · exact (EngineThread.pass_frame hpass).1.trans h.running
  · by_cases hstop : p.stop = .running
    · exact .inl ((h.whole (by rw [hstop]; decide)).engine h.serial hpass).sent
    · -- nothing is begun once `stop_impl` has been called
      have hserved : thread.served = p.thread.served :=
        (EngineThread.pass_stopped (by rw [h.running, decide_eq_false hstop]) hpass).1
      obtain ⟨hsent, hcommands⟩ := sentToDb_of_served hpass hserved
      have hlogs := h.sent
      rw [← hsent, ← hcommands] at hlogs
      exact hlogs
  · have hgone := (h.exited_of_writer hexit).2
    rw [hnot] at hgone
    cases hgone
  · have hgone := h.joined.engine hleft
    rw [hnot] at hgone
    cases hgone

/-- **A step of the writer.** -/
theorem Orderly.writer {overdue : Bool} {db : ℕ → Attempt} {writer : DbWriter} (h : p.Orderly dv origin)
    (hpass : p.writer.pass db overdue = some writer) : Orderly dv origin { p with writer } := by
  have hreceived := System.writer_received hpass
  refine ⟨h.serial, h.running, ?_, h.walSenders, fun hleft => ⟨?_, (h.whole hleft).inHand⟩, ?_, h.keeps.pass hpass,
    h.keeps.drained hpass, h.joined.engine, h.joined.wal, fun hleft => ?_⟩
  · rw [DbWriter.pass_connected hpass]
    exact h.dbSenders
  · rw [sentToDb, hreceived]
    exact (h.whole hleft).sent
  · rw [sentToDb, hreceived]
    exact h.sent
  · have hexit := h.joined.writer hleft
    rw [DbWriter.pass.eq_def, hexit] at hpass
    cases hpass

/-- The WAL thread keeps its channel as it is. -/
theorem Orderly.wal {disk : Disk} {wal : WalThread} (h : p.Orderly dv origin) (hpass : p.wal.pass json disk = some wal) :
    Orderly dv origin { p with wal } := by
  obtain ⟨hexited, hpasses⟩ := WalThread.pass_cases hpass
  have hconnected : wal.connected = p.wal.connected := by
    rcases hpasses with ⟨entry, rest, -, rfl⟩ | ⟨-, -, rfl⟩ <;> rfl
  refine ⟨h.serial, h.running, h.dbSenders, hconnected.trans h.walSenders,
    fun hleft => ⟨(h.whole hleft).sent, (h.whole hleft).inHand⟩, h.sent, h.keeps, h.drained, h.joined.engine,
    fun hleft => ?_, h.joined.writer⟩
  rw [h.joined.wal hleft] at hexited
  cases hexited

/-- **What `clear_channels` cuts off** while the executor is not locked: the trades in hand are all
sent, or none is. -/
theorem Whole.cut (h : p.Whole dv origin) (hheld : p.executorHeld = false) :
    origin.Logs dv p.thread.commands (p.writer.received ++ p.writer.dbRx ++ p.thread.clearTrades.dbOut) := by
  have hall := h.sent
  rw [sentToDb] at hall
  rw [EngineThread.clearTrades_dbOut]
  cases hphase : p.thread.phase with
  | handling done cmds =>
    obtain ⟨begun, front, hbegun, hcmds, hmid⟩ := h.inHand done cmds hphase
    rw [EngineThread.dbOut, hphase] at hall ⊢
    rw [hbegun, Engine.dbLog_concat, ← hcmds, ← List.append_assoc] at hall
    have hfront := List.append_cancel_right hall
    obtain ⟨locks, trades, statuses, hpieces, hlocks, htrades, hstatuses⟩ :=
      dbCommands_pieces dv (origin.run dv begun) done.request.command
    have hcut : ¬ (front.getLast?.any DbCommand.isTrade = true ∧ cmds.head?.any DbCommand.isTrade = true) := by
      rintro ⟨hlast, hnext⟩
      rw [executorHeld, hmid hlast, hphase, Bool.true_and] at hheld
      cases cmds with
      | nil => cases hnext
      | cons cmd cmds => exact absurd hnext (by simpa using hheld)
    have hkeep : ∀ cmds : List DbCommand, (∀ cmd ∈ cmds, cmd.isTrade = false) →
        (cmds.filter fun cmd => !cmd.isTrade) = cmds := by
      intro cmds hnone
      rw [List.filter_eq_self]
      exact fun cmd hcmd => by rw [hnone cmd hcmd]; rfl
    rcases filter_of_cut (hcmds.trans hpieces) hlocks htrades hstatuses hcut with hnone | hnone
    · -- before the trades
      refine .inr ⟨begun, done.request.command, hbegun, ?_⟩
      rw [hfront, ← hcmds, List.filter_append, hkeep front hnone, List.append_assoc]
    · -- after them
      left
      rw [hkeep cmds hnone, hfront, hbegun, Engine.dbLog_concat, ← hcmds, List.append_assoc]
  | _ =>
    left
    rw [EngineThread.dbOut, hphase] at hall ⊢
    exact hall

theorem Orderly.clear (h : p.Orderly dv origin) (hstop : p.stop = .flagged) (hheld : p.executorHeld = false) :
    Orderly dv origin { p with thread := p.thread.clearTrades, stop := .cleared } := by
  have hcut := (h.whole (by rw [hstop]; decide)).cut hheld
  have hsenders : p.writer.connected = true ∧ p.wal.connected = true := by
    rw [h.dbSenders, h.walSenders, hstop]
    exact ⟨rfl, rfl⟩
  refine ⟨h.serial.clearTrades, ?_, hsenders.1, hsenders.2, fun hleft => ?_, ?_, h.keeps, fun hexit => ?_,
    .none (s := .cleared) (by decide)⟩
  · rw [(EngineThread.clearTrades_frame p.thread).2.2.2.2, h.running, hstop]
    rfl
  · simp [StopPoint.left] at hleft
  · rw [← EngineThread.clearTrades_commands] at hcut
    exact hcut
  · have hclosed := (h.exited_of_writer hexit).1
    rw [hstop] at hclosed
    cases hclosed

/-- **A step of `stop_impl`.** -/
theorem Orderly.stopNext (h : p.Orderly dv origin) (hstep : p.stopNext = some p') : p'.Orderly dv origin := by
  have hrunning := h.running
  have hjoined := h.joined
  rw [EngineProcess.stopNext] at hstep
  cases hstop : p.stop with
  | running =>
    rw [hstop] at hstep
    obtain rfl := Option.some.inj hstep
    exact h.goes_open (h.serial.step (a := .stop) rfl) rfl rfl rfl (by rw [hstop]; decide) (.none (by decide))
      (by rw [hstop]; exact ⟨rfl, rfl⟩)
  | flagged =>
    rw [hstop] at hstep
    dsimp only at hstep
    split_ifs at hstep with hheld
    obtain rfl := Option.some.inj hstep
    exact h.clear hstop (by simpa using hheld)
  | cleared =>
    rw [hstop] at hstep hrunning
    obtain rfl := Option.some.inj hstep
    exact h.goes_open (h.serial.step (a := .closeOrders) rfl) rfl rfl hrunning (by rw [hstop]; decide)
      (.none (by decide)) (by rw [hstop]; exact ⟨rfl, rfl⟩)
  | ordersClosed =>
    rw [hstop] at hstep hrunning
    obtain rfl := Option.some.inj hstep
    exact h.goes_open (h.serial.step (a := .closeBalance) rfl) rfl rfl hrunning (by rw [hstop]; decide)
      (.none (by decide)) (by rw [hstop]; exact ⟨rfl, rfl⟩)
  | balancesClosed =>
    rw [hstop] at hstep hrunning
    obtain rfl := Option.some.inj hstep
    exact h.goes h.serial rfl rfl hrunning (by rw [hstop]; decide) (.none (by decide))
  | walClosed =>
    rw [hstop] at hstep hrunning
    obtain rfl := Option.some.inj hstep
    exact h.goes h.serial rfl rfl hrunning (by rw [hstop]; decide) (.none (by decide))
  | dbClosed =>
    rw [hstop] at hstep hrunning
    dsimp only at hstep
    split_ifs at hstep with hexited
    obtain rfl := Option.some.inj hstep
    exact h.goes_open h.serial rfl rfl hrunning (by rw [hstop]; decide)
      ⟨fun _ => hexited, fun hleft => absurd hleft (by decide), fun hleft => absurd hleft (by decide)⟩
      (by rw [hstop]; exact ⟨rfl, rfl⟩)
  | engineJoined =>
    rw [hstop] at hstep hrunning hjoined
    dsimp only at hstep
    split_ifs at hstep with hexited
    obtain rfl := Option.some.inj hstep
    exact h.goes_open h.serial rfl rfl hrunning (by rw [hstop]; decide)
      ⟨fun _ => hjoined.engine (by decide), fun _ => hexited, fun hleft => absurd hleft (by decide)⟩
      (by rw [hstop]; exact ⟨rfl, rfl⟩)
  | walJoined =>
    rw [hstop] at hstep hrunning hjoined
    dsimp only at hstep
    split_ifs at hstep with hexited
    obtain rfl := Option.some.inj hstep
    exact h.goes_open h.serial rfl rfl hrunning (by rw [hstop]; decide)
      ⟨fun _ => hjoined.engine (by decide), fun _ => hjoined.wal (by decide), fun _ => hexited⟩
      (by rw [hstop]; exact ⟨rfl, rfl⟩)
  | stopped =>
    rw [hstop] at hstep
    cases hstep

theorem Orderly.step {a : ProcessAction} (h : p.Orderly dv origin) (hstep : p.step json dv a = some p') :
    p'.Orderly dv origin := by
  cases a with
  | send command =>
    rw [EngineProcess.step] at hstep
    split_ifs at hstep
    obtain ⟨thread, hsend, rfl⟩ := Option.map_eq_some_iff.1 hstep
    exact h.send hsend
  | engine => exact h.engine hstep
  | writer overdue db =>
    obtain ⟨writer, hpass, rfl⟩ := Option.map_eq_some_iff.1 hstep
    exact h.writer hpass
  | wal disk =>
    obtain ⟨wal, hpass, rfl⟩ := Option.map_eq_some_iff.1 hstep
    exact h.wal hpass
  | stop => exact h.stopNext hstep

/-- What is there when `stop_impl` is through. -/
structure Stopped (dv : Decimal → Decimal → Decimal) (origin : Engine) (p : EngineProcess) : Prop where
  exited : p.thread.phase = .exited ∧ p.wal.exited = true ∧ p.writer.phase = .exited
  /-- The begun requests were taken in order, and all the others are gone. -/
  serial : p.thread.Serial dv origin
  answered : p.thread.handled = origin.serve dv p.thread.begun
  received : origin.Logs dv p.thread.commands p.writer.received
  written : (∀ f ∈ p.writer.flushes.getLast?, f.isOk = true) →
    (p.writer.received.filter fun cmd => !cmd.isUpdateBalance).Subperm p.writer.committed

/-- **A clean shutdown.** In every interleaving of the callers with the threads and with
`stop_impl`, with any failures of the database and of the disk: when `stop_impl` is through, the
threads have returned, every request that was begun has its reply, and what these send has come to
the DB writer, whole but for the trades of the last one, of which all or none have. If its last
flush succeeded, the writer has committed all trades and statuses among them. -/
theorem stopped_run (json : SerdeJson) (dv : Decimal → Decimal → Decimal) (origin : Engine) (orders : OrdersTable)
    (opened : Bool) {as : List ProcessAction}
    (hrun : Machine.run (EngineProcess.step json dv) (.start origin orders opened) as = some p)
    (hstop : p.stop = .stopped) : p.Stopped dv origin := by
  have h : p.Orderly dv origin :=
    Machine.run_inv (fun _ _ _ h hstep => h.step hstep) (Orderly.start dv origin orders opened) hrun
  have hjoined := h.joined
  rw [hstop] at hjoined
  have hengine := EngineThread.hasExited_iff.1 (hjoined.engine (by decide))
  have hwriter := hjoined.writer le_rfl
  have hdrained := h.drained hwriter
  refine ⟨⟨hengine, hjoined.wal (by decide), hwriter⟩, h.serial, ?_, ?_, hdrained.committed⟩
  · -- nothing is in hand
    have hserved := h.serial.served
    rw [EngineThread.served, EngineThread.inHand, hengine, List.append_nil] at hserved
    exact hserved
  · have hsent := h.sent
    rw [sentToDb, hdrained.dbRx, List.append_nil, EngineThread.dbOut, hengine, List.append_nil] at hsent
    exact hsent

/-- User 1 buys from user 2. `clear_channels` is called after the lock of the buy was sent and before
the trade: the writer receives the two locks and the status. -/
theorem stopped_run_cut :
    ∃ p, Machine.run (EngineProcess.step WalLog.cancelJson (· / ·))
        (.start (.start ((BalanceCache.new.setBalance 1 "USDT" 100 0).setBalance 2 "SOL" 1 0)) ∅ true)
        ([.send (.submitOrder (limitOrder 1 2 .sell 10 1)), .send (.submitOrder (limitOrder 2 1 .buy 10 1))] ++
          List.replicate 7 .engine ++ [.stop, .stop] ++ List.replicate 3 .engine ++ List.replicate 5 .stop ++
          [.wal WalLog.syncs, .stop] ++ List.replicate 4 (.writer false fun _ => .ok) ++ [.stop]) = some p ∧
      p.stop = .stopped ∧ p.writer.received.map DbCommand.priority = [4, 4, 2] ∧
      p.Stopped (· / ·) (.start ((BalanceCache.new.setBalance 1 "USDT" 100 0).setBalance 2 "SOL" 1 0)) := by
  obtain ⟨p, hrun, hstop, hreceived⟩ := Machine.exists_run (EngineProcess.step WalLog.cancelJson (· / ·))
    (.start (.start ((BalanceCache.new.setBalance 1 "USDT" 100 0).setBalance 2 "SOL" 1 0)) ∅ true)
    ([.send (.submitOrder (limitOrder 1 2 .sell 10 1)), .send (.submitOrder (limitOrder 2 1 .buy 10 1))] ++
      List.replicate 7 .engine ++ [.stop, .stop] ++ List.replicate 3 .engine ++ List.replicate 5 .stop ++
      [.wal WalLog.syncs, .stop] ++ List.replicate 4 (.writer false fun _ => .ok) ++ [.stop])
    (fun p => p.stop = .stopped ∧ p.writer.received.map DbCommand.priority = [4, 4, 2]) (by decide +kernel)
  exact ⟨p, hrun, hstop, hreceived, stopped_run _ (· / ·) _ ∅ true hrun hstop⟩

end EngineProcess

end CexEngine
