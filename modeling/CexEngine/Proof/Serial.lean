import CexEngine.Proof.DbWrites
import CexEngine.Proof.Taken

/-!
# One request at a time

Producers send when they like, and the engine thread goes on when it is scheduled. What it does
is what an engine does that is given the requests one after another.

* `Engine.serve`, `Engine.dbLog`: the replies, and what is sent to the DB writer, when requests
  are handled one after another.
* `serial_run`: **in every interleaving the thread has done just that** with the requests that it
  has begun, and takes those of each channel in the order in which they were sent.
* `piped_run`: the DB writer is sent what that sends, each command once and in that order.
-/

namespace CexEngine

namespace Engine

variable (dv : Decimal → Decimal → Decimal)

/-- Some requests, handled one after another, each with its reply. -/
def serve : Engine → List Request → List Handled
  | _, [] => []
  | s, r :: rs => ⟨r, (s.handle dv r.command).2⟩ :: serve (s.step dv r.command) rs

/-- What handling some commands one after another sends to the DB writer. -/
def dbLog : Engine → List Command → List DbCommand
  | _, [] => []
  | s, c :: cs => s.dbCommands dv c ++ dbLog (s.step dv c) cs

variable {dv}

theorem run_concat (s : Engine) (cs : List Command) (c : Command) :
    s.run dv (cs ++ [c]) = (s.run dv cs).step dv c := by
  rw [Engine.run, List.foldl_append]
  rfl

theorem serve_concat : ∀ (rs : List Request) (s : Engine) (r : Request),
    s.serve dv (rs ++ [r]) =
      s.serve dv rs ++ [⟨r, ((s.run dv (rs.map Request.command)).handle dv r.command).2⟩] := by
  intro rs
  induction rs with
  | nil => intro s r; rfl
  | cons r₀ rs ih =>
    intro s r
    rw [List.cons_append, serve, serve, ih, List.cons_append]
    rfl

theorem dbLog_append : ∀ (cs cs' : List Command) (s : Engine),
    s.dbLog dv (cs ++ cs') = s.dbLog dv cs ++ (s.run dv cs).dbLog dv cs' := by
  intro cs cs'
  induction cs with
  | nil => intro s; rfl
  | cons c cs ih =>
    intro s
    rw [List.cons_append, dbLog, dbLog, ih, List.append_assoc]
    rfl

theorem dbLog_concat (cs : List Command) (s : Engine) (c : Command) :
    s.dbLog dv (cs ++ [c]) = s.dbLog dv cs ++ (s.run dv cs).dbCommands dv c := by
  rw [dbLog_append, dbLog, dbLog, List.append_nil]

end Engine

namespace EngineThread

variable {dv : Decimal → Decimal → Decimal} {origin : Engine} {t t' : EngineThread}

/-- The commands of the requests that have been begun. -/
def commands (t : EngineThread) : List Command := t.begun.map Request.command

/-- The thread has done what an engine does that starts as `origin` and handles the begun requests
one after another. What was sent on a channel has been begun or waits there, in the order in which
it was sent; on its way out the thread drops an order command that it has just received. -/
structure Serial (dv : Decimal → Decimal → Decimal) (origin : Engine) (t : EngineThread) : Prop where
  engine : t.engine = origin.run dv t.commands
  served : t.served = origin.serve dv t.begun
  balance : t.sent.filter Request.isBalance = t.begun.filter Request.isBalance ++ t.balanceRx
  order : ∃ dropped, t.sent.filter (fun r => !r.isBalance) =
      t.begun.filter (fun r => !r.isBalance) ++ dropped ++ t.orderRx ∧
    (dropped = [] ∨ dropped.length = 1 ∧ t.phase = .exited ∧ t.running = false)

theorem Serial.start (origin : Engine) : (EngineThread.start origin).Serial dv origin :=
  ⟨rfl, rfl, rfl, [], rfl, .inl rfl⟩

/-- What waits in a channel belongs there. -/
theorem Serial.rx_kinds (h : t.Serial dv origin) :
    (∀ r ∈ t.balanceRx, r.isBalance = true) ∧ ∀ r ∈ t.orderRx, r.isBalance = false := by
  obtain ⟨dropped, horder, -⟩ := h.order
  constructor
  · intro r hr
    have hmem : r ∈ t.sent.filter Request.isBalance := by
      rw [h.balance]
      exact List.mem_append_right _ hr
    exact (List.mem_filter.1 hmem).2
  · intro r hr
    have hmem : r ∈ t.sent.filter fun r => !r.isBalance := by
      rw [horder]
      exact List.mem_append_right _ hr
    simpa using (List.mem_filter.1 hmem).2

/-! ## One step -/

theorem phase_of_pass {out : List DbCommand} (h : t.pass dv = some (t', out)) : t.phase ≠ .exited := by
  intro hphase
  rw [pass.eq_def, hphase] at h
  cases h

theorem received_orderRx {r : Request} {rest : List Request} (hrx : t.orderRx = r :: rest)
    (hbegun : (t.received dv r rest).begun = t.begun) (hfree : t.Free) :
    t.orderRx = r :: (t.received dv r rest).orderRx ∧ (t.received dv r rest).phase = .exited ∧
      (t.received dv r rest).running = false := by
  rw [received] at hbegun ⊢
  dsimp only at hbegun ⊢
  split_ifs at hbegun ⊢ with hrun
  · -- it would have been begun
    exfalso
    have hserves : Serves dv t r [] (EngineThread.handle dv { t with orderRx := rest } r) := handle_serves hfree rfl rfl
    rw [hserves.begun] at hbegun
    simp at hbegun
  · exact ⟨hrx, rfl, by simpa using hrun⟩

/-- A pass that begins nothing leaves the order channel as it is, or drops its first command and
ends the thread. -/
theorem pass_orderRx {out : List DbCommand} (h : t.pass dv = some (t', out)) (hbegun : t'.begun = t.begun) :
    t'.orderRx = t.orderRx ∨ ∃ r, t.orderRx = r :: t'.orderRx ∧ t'.phase = .exited ∧ t'.running = false := by
  have hread : ∀ again : Bool, t.phase = (if again then .again else .orders) → t'.orderRx = t.orderRx ∨
      ∃ r, t.orderRx = r :: t'.orderRx ∧ t'.phase = .exited ∧ t'.running = false := by
    intro again hphase
    have hfree : t.Free := by
      cases again <;> exact ⟨by rw [inHand, hphase]; rfl, by rw [dbOut, hphase]; rfl⟩
    cases hrx : t.orderRx with
    | cons r rest =>
      have hpass : t.pass dv = some (t.received dv r rest, []) := by
        cases again <;> (rw [pass.eq_def, hphase, hrx]; rfl)
      obtain ⟨rfl, -⟩ := Prod.mk.inj (Option.some.inj (hpass.symm.trans h))
      have := received_orderRx hrx hbegun hfree
      exact .inr ⟨r, hrx ▸ this.1, this.2⟩
    | nil =>
      left
      cases again
      all_goals
        rw [pass.eq_def, hphase] at h
        simp only [hrx, if_true, Bool.false_eq_true, if_false] at h
        split_ifs at h
        all_goals
          obtain ⟨rfl, -⟩ := Prod.mk.inj (Option.some.inj h)
          rfl
  cases hphase : t.phase with
  | exited => exact absurd hphase (phase_of_pass h)
  | handling done cmds =>
    rw [pass.eq_def, hphase] at h
    cases cmds <;> obtain ⟨rfl, -⟩ := Prod.mk.inj (Option.some.inj h) <;> exact .inl rfl
  | orders => exact hread false hphase
  | again => exact hread true hphase
  | top =>
    left
    rw [pass.eq_def, hphase] at h
    dsimp only at h
    split_ifs at h
    · obtain ⟨rfl, -⟩ := Prod.mk.inj (Option.some.inj h)
      rfl
    · obtain ⟨rfl, -⟩ := Prod.mk.inj (Option.some.inj h)
      rfl
    · obtain ⟨rfl, -⟩ := Prod.mk.inj (Option.some.inj h)
      rfl
    all_goals
      split at h
      all_goals
        obtain ⟨rfl, -⟩ := Prod.mk.inj (Option.some.inj h)
        rfl

/-- The next request is begun. -/
theorem Serial.begin {r : Request} {out : List DbCommand} (h : t.Serial dv origin) (hserves : Serves dv t r out t') :
    t'.engine = origin.run dv t'.commands ∧ t'.served = origin.serve dv t'.begun := by
  have hcommands : t'.commands = t.commands ++ [r.command] := by
    rw [commands, hserves.begun, List.map_append]
    rfl
  constructor
  · rw [hcommands, Engine.run_concat, ← h.engine, hserves.engine]
  · rw [hserves.begun, Engine.serve_concat, ← h.served, hserves.served]
    change _ = t.served ++ [⟨r, ((origin.run dv t.commands).handle dv r.command).2⟩]
    rw [← h.engine]

theorem Serial.pass {out : List DbCommand} (h : t.Serial dv origin) (hpass : t.pass dv = some (t', out)) :
    t'.Serial dv origin := by
  obtain ⟨hsent, -, -, htakes⟩ := pass_cases hpass
  obtain ⟨dropped, horder, hdropped⟩ := h.order
  obtain ⟨hbalanceRx, horderRx⟩ := h.rx_kinds
  -- nothing has been dropped while the thread goes on
  obtain rfl : dropped = [] := hdropped.resolve_right fun hgone => phase_of_pass hpass hgone.2.1
  cases htakes with
  | balance r hrx ho hserves =>
    have hr : r.isBalance = true := hbalanceRx r (by rw [hrx]; exact List.mem_cons_self)
    refine ⟨(h.begin hserves).1, (h.begin hserves).2, ?_, [], ?_, .inl rfl⟩
    · rw [hsent, h.balance, hrx, hserves.begun, List.filter_append, List.filter_singleton, hr, cond_true,
        List.append_assoc]
      rfl
    · rw [hsent, horder, ho, hserves.begun, List.filter_append, List.filter_singleton, hr]
      simp
  | order r _ hrx hb hserves =>
    have hr : r.isBalance = false := horderRx r (by rw [hrx]; exact List.mem_cons_self)
    refine ⟨(h.begin hserves).1, (h.begin hserves).2, ?_, [], ?_, .inl rfl⟩
    · rw [hsent, h.balance, hb, hserves.begun, List.filter_append, List.filter_singleton, hr]
      simp
    · rw [hsent, horder, hrx, hserves.begun, List.filter_append, List.filter_singleton, hr]
      simp
  | idle ho hb hengine hserved =>
    have hbegun := begun_of_served hserved
    refine ⟨?_, ?_, ?_, ?_⟩
    · rw [hengine, h.engine, commands, commands, hbegun]
    · rw [hserved, h.served, hbegun]
    · rw [hsent, h.balance, hb, hbegun]
    · rw [hsent, horder, hbegun]
      rcases pass_orderRx hpass hbegun with hsame | ⟨r, hrx, hexit⟩
      · exact ⟨[], by rw [hsame], .inl rfl⟩
      · exact ⟨[r], by rw [hrx]; simp, .inr ⟨rfl, hexit⟩⟩

theorem Serial.send {r : Request} (h : t.Serial dv origin) (hsend : t.send r = some t') : t'.Serial dv origin := by
  obtain ⟨hsent, hengine, hphase, -, -⟩ := send_eq hsend
  have hserved := (served_send hsend).1
  have hbegun := begun_of_served hserved
  obtain ⟨dropped, horder, hdropped⟩ := h.order
  have hchannels : t'.running = t.running ∧
      (if r.isBalance then t'.balanceRx = t.balanceRx ++ [r] ∧ t'.orderRx = t.orderRx
      else t'.balanceRx = t.balanceRx ∧ t'.orderRx = t.orderRx ++ [r]) := by
    rw [EngineThread.send] at hsend
    split_ifs at hsend ⊢ <;> obtain rfl := Option.some.inj hsend <;> exact ⟨rfl, rfl, rfl⟩
  obtain ⟨hrunning, hrx⟩ := hchannels
  refine ⟨?_, ?_, ?_, dropped, ?_, ?_⟩
  · rw [hengine, h.engine, commands, commands, hbegun]
  · rw [hserved, h.served, hbegun]
  · rw [hsent, List.filter_append, h.balance, hbegun, List.filter_singleton]
    cases hr : r.isBalance <;> simp [hr] at hrx ⊢ <;> simp [hrx]
  · rw [hsent, List.filter_append, horder, hbegun, List.filter_singleton]
    cases hr : r.isBalance <;> simp [hr] at hrx ⊢ <;> simp [hrx]
  · rw [hphase, hrunning]
    exact hdropped

theorem Serial.step {a : LoopAction} (h : t.Serial dv origin) (hstep : t.step dv a = some t') :
    t'.Serial dv origin := by
  cases a with
  | send command => exact h.send hstep
  | pass =>
    obtain ⟨⟨u, out⟩, hpass, rfl⟩ := Option.map_eq_some_iff.1 hstep
    exact h.pass hpass
  | closeOrders =>
    obtain rfl := Option.some.inj hstep
    exact ⟨h.engine, h.served, h.balance, h.order⟩
  | closeBalance =>
    obtain rfl := Option.some.inj hstep
    exact ⟨h.engine, h.served, h.balance, h.order⟩
  | stop =>
    obtain rfl := Option.some.inj hstep
    obtain ⟨dropped, horder, hdropped⟩ := h.order
    exact ⟨h.engine, h.served, h.balance, dropped, horder, hdropped.imp_right fun hgone => ⟨hgone.1, hgone.2.1, rfl⟩⟩

/-- **The engine thread works one request at a time**: in every interleaving of its producers, of
the closing of its channels and of the stop flag. -/
theorem serial_run (dv : Decimal → Decimal → Decimal) (origin : Engine) {as : List LoopAction}
    (hrun : Machine.run (EngineThread.step dv) (.start origin) as = some t) : t.Serial dv origin :=
  Machine.run_inv (fun _ _ _ h hstep => h.step hstep) (Serial.start origin) hrun

/-- An order command overtakes a deposit that was sent before it. -/
theorem serial_run_deposit :
    ∃ t, Machine.run (EngineThread.step (· / ·)) (.start (.start .new))
        [.pass, .send (.updateBalance 1 "USDT" 5), .send (.getBalance 1 "USDT"), .pass, .pass, .pass, .pass] = some t ∧
      t.begun.map Request.tag = [1, 0] ∧ t.Serial (· / ·) (.start .new) := by
  obtain ⟨t, hrun, hbegun⟩ := Machine.exists_run (EngineThread.step (· / ·)) (.start (.start .new))
    [.pass, .send (.updateBalance 1 "USDT" 5), .send (.getBalance 1 "USDT"), .pass, .pass, .pass, .pass]
    (fun t => t.begun.map Request.tag = [1, 0]) (by decide +kernel)
  exact ⟨t, hrun, hbegun, serial_run (· / ·) (.start .new) hrun⟩

end EngineThread

namespace System

variable {dv : Decimal → Decimal → Decimal} {origin : Engine} {s s' : System} {a : SystemAction}

/-- The writer's part of the pipe: what it has received and what waits for it. -/
def piped (s : System) : List DbCommand := s.writer.received ++ s.writer.dbRx ++ s.thread.dbOut

/-- The thread is serial, and the DB writer has been sent what that sends, but for what the thread
has still to send. -/
structure Piped (dv : Decimal → Decimal → Decimal) (origin : Engine) (s : System) : Prop where
  serial : s.thread.Serial dv origin
  piped : s.piped = origin.dbLog dv s.thread.commands

theorem Piped.start (origin : Engine) (orders : OrdersTable) : (System.start origin orders).Piped dv origin :=
  ⟨EngineThread.Serial.start origin, rfl⟩

/-- A pass of the thread. -/
theorem Piped.engine {thread : EngineThread} {out : List DbCommand} (h : s.Piped dv origin)
    (hpass : s.thread.pass dv = some (thread, out)) :
    Piped dv origin { s with thread, writer := { s.writer with dbRx := s.writer.dbRx ++ out } } := by
  refine ⟨h.serial.pass hpass, ?_⟩
  have hpiped := h.piped
  rw [System.piped] at hpiped ⊢
  have hserves : ∀ r, EngineThread.Serves dv s.thread r out thread →
      s.writer.received ++ (s.writer.dbRx ++ out) ++ thread.dbOut = origin.dbLog dv thread.commands := by
    intro r hserves
    rw [hserves.idle, List.append_nil] at hpiped
    have hcommands : thread.commands = s.thread.commands ++ [r.command] := by
      rw [EngineThread.commands, hserves.begun, List.map_append]
      rfl
    rw [hserves.out, List.append_nil, hserves.dbOut, hcommands, Engine.dbLog_concat, ← hpiped, h.serial.engine]
  cases (EngineThread.pass_cases hpass).takes with
  | balance r _ _ hserve => exact hserves r hserve
  | order r _ _ _ hserve => exact hserves r hserve
  | idle _ _ _ hserved hout =>
    rw [EngineThread.commands, EngineThread.begun_of_served hserved]
    rw [hout] at hpiped
    rw [← List.append_assoc, List.append_assoc (s.writer.received ++ s.writer.dbRx)]
    exact hpiped

/-- A pass of the writer. -/
theorem writer_received {overdue : Bool} {db : ℕ → Attempt} {w w' : DbWriter} (h : w.pass db overdue = some w') :
    w'.received ++ w'.dbRx = w.received ++ w.dbRx := by
  obtain ⟨u, hu, hrx, hwork⟩ := DbWriter.pass_cases h
  have hreceived : w'.received = u.received := by
    rcases hwork with hsame | hsame
    · exact hsame.received
    · rw [hsame.received, DbWriter.flush_received]
  rw [hreceived, hrx]
  rcases hu with rfl | ⟨cmd, rest, hdb, rfl⟩
  · rfl
  · rw [hdb]
    simp [DbWriter.take]

theorem Piped.same (h : s.Piped dv origin) (hthread : s'.thread = s.thread)
    (hwriter : s'.writer.received ++ s'.writer.dbRx = s.writer.received ++ s.writer.dbRx) : s'.Piped dv origin := by
  refine ⟨hthread ▸ h.serial, ?_⟩
  rw [System.piped, hwriter, hthread]
  exact h.piped

theorem Piped.step (h : s.Piped dv origin) (hstep : s.step dv a = some s') : s'.Piped dv origin := by
  have hsend : ∀ {r : Request} {thread : EngineThread}, s.thread.send r = some thread → s'.thread = thread →
      s'.writer = s.writer → s'.Piped dv origin := by
    intro r thread hsend hthread hwriter
    have hserved := EngineThread.served_send hsend
    refine ⟨hthread ▸ h.serial.send hsend, ?_⟩
    rw [System.piped, hwriter, hthread, hserved.2, EngineThread.commands, EngineThread.begun_of_served hserved.1]
    exact h.piped
  cases step_moves hstep with
  | engine thread out hpass => exact h.engine hpass
  | writer overdue db writer hpass => exact h.same rfl (writer_received hpass)
  | send id now job command thread _ _ _ hsent => exact hsend hsent rfl rfl
  | submit id now creator order command thread _ _ hsent => exact hsend hsent rfl rfl
  | written => exact h.same rfl rfl
  | _ => exact h.same rfl rfl

/-- **The DB writer is sent what the serial engine sends**, each command once and in that order:
in every interleaving of the calls, of the tasks, of the engine thread and of the writer with any
results of the database. -/
theorem piped_run (dv : Decimal → Decimal → Decimal) (origin : Engine) (orders : OrdersTable)
    {as : List SystemAction} (hrun : Machine.run (System.step dv) (.start origin orders) as = some s) :
    s.Piped dv origin :=
  Machine.run_inv (fun _ _ _ h hstep => h.step hstep) (Piped.start origin orders) hrun

/-- User 2 sells 1 SOL and user 1 buys 2, for 10 each. The writer has received the locks of both and
the trade. -/
theorem piped_run_trade :
    ∃ s, Machine.run (System.step (· / ·))
        (.start (.start ((BalanceCache.new.setBalance 1 "USDT" 100 0).setBalance 2 "SOL" 1 0)) ∅)
        (createCall 0 2 { buyRequest 1 10 1 with orderType := .sell } ++
          [.poll 1 0, .poll 1 0, .engine, .engine, .engine, .engine] ++ createCall 2 1 (buyRequest 2 10 2) ++
          [.poll 3 0, .poll 3 0] ++ List.replicate 4 .engine ++ List.replicate 3 (.writer false fun _ => .ok)) = some s ∧
      s.writer.received.map DbCommand.priority = [4, 4, 3] ∧
      s.Piped (· / ·) (.start ((BalanceCache.new.setBalance 1 "USDT" 100 0).setBalance 2 "SOL" 1 0)) := by
  obtain ⟨s, hrun, hreceived⟩ := Machine.exists_run (System.step (· / ·))
    (.start (.start ((BalanceCache.new.setBalance 1 "USDT" 100 0).setBalance 2 "SOL" 1 0)) ∅)
    (createCall 0 2 { buyRequest 1 10 1 with orderType := .sell } ++
      [.poll 1 0, .poll 1 0, .engine, .engine, .engine, .engine] ++ createCall 2 1 (buyRequest 2 10 2) ++
      [.poll 3 0, .poll 3 0] ++ List.replicate 4 .engine ++ List.replicate 3 (.writer false fun _ => .ok))
    (fun s => s.writer.received.map DbCommand.priority = [4, 4, 3]) (by decide +kernel)
  exact ⟨s, hrun, hreceived, piped_run (· / ·) _ ∅ hrun⟩

end System

end CexEngine
