import CexEngine.Proof.BookInvariant
import CexEngine.Proof.Tasks

/-!
# What the engine takes

* `Takes`: what an engine step does: nothing to the engine, or it takes a command that a task of
  its own has sent and that was not taken before.
* `Running`: what every state of the system has, and `Running.takes`: engine steps are of that
  kind. `running_run`: every state of a run is.
-/

namespace CexEngine

/-- The commands of the tasks are admitted, if their orders are. -/
theorem Job.Sends.validated {id : ℕ} {job : Job} {command : Command} (h : job.Sends command)
    (hspawned : System.Spawned id job) : command.Validated := by
  cases job with
  | createOrder userId request => obtain ⟨mint, rfl⟩ := h; trivial
  | submit creator order => obtain rfl := h; exact hspawned.2
  | cancelOrder userId orderId => obtain ⟨pair, rfl⟩ := h; trivial
  | syncBalance userId mint delta => obtain rfl := h; trivial
  | getOrderbook pair depth => obtain rfl := h; trivial

namespace System

variable {dv : Decimal → Decimal → Decimal} {s s' : System} {a : SystemAction} {thread : EngineThread}
  {out : List DbCommand}

/-- The tasks whose command the engine has taken. -/
def begunTags (s : System) : List ℕ := s.thread.begun.map Request.tag

/-- What an engine step can do. -/
inductive Takes (dv : Decimal → Decimal → Decimal) (s : System) (thread : EngineThread) (out : List DbCommand) : Prop where
  | nothing (engine : thread.engine = s.thread.engine) (served : thread.served = s.thread.served)
      (dbOut : s.thread.dbOut = out ++ thread.dbOut)
  | command (r : Request) (task : Task)
      (head : s.thread.pastPoll = true ∧ s.thread.orderRx.head? = some r ∨ r.isBalance = true)
      (htask : s.tasks[r.tag]? = some task) (sends : task.job.Sends r.command) (validated : r.command.Validated)
      (fresh : r.tag ∉ s.begunTags) (serves : EngineThread.Serves dv s.thread r out thread)

/-- What every state has. -/
structure Running (s : System) : Prop where
  wired : s.Wired
  accounted : s.thread.Accounted
  tidy : s.thread.engine.Tidy

/-- **Engine steps.** -/
theorem Running.takes (h : s.Running) (hpass : s.thread.pass dv = some (thread, out)) : s.Takes dv thread out := by
  have hnext : ∀ r ∈ s.thread.orderRx ++ s.thread.balanceRx,
      (s.thread.pastPoll = true ∧ s.thread.orderRx.head? = some r ∨ r.isBalance = true) →
      EngineThread.Serves dv s.thread r out thread →
        s.Takes dv thread out := by
    intro r hr hhead hserves
    obtain ⟨hsent, hfresh⟩ := h.accounted.fresh h.wired.sentNodup hr
    obtain ⟨task, htask, hsends⟩ := h.wired.sentTask r hsent
    exact .command r task hhead htask hsends (hsends.validated (h.wired.tasks _ _ htask).2) hfresh hserves
  cases (EngineThread.pass_cases hpass).takes with
  | balance r hrx ho hserves =>
    have hr : r ∈ s.thread.balanceRx := by
      rw [hrx]
      exact List.mem_cons_self
    exact hnext r (List.mem_append_right _ hr) (.inr (h.accounted.balance r hr)) hserves
  | order r hpast hrx hb hserves =>
    refine hnext r (List.mem_append_left _ ?_) (.inl ⟨hpast, ?_⟩) hserves
    · rw [hrx]
      exact List.mem_cons_self
    · rw [hrx]
      rfl
  | idle ho hb hengine hserved hout => exact .nothing hengine hserved hout

/-- A step is one of the engine thread, or it sends it a request at most. -/
theorem Moves.thread_cases (h : s.Moves dv a s') :
    (∃ out, s.thread.pass dv = some (s'.thread, out) ∧ s'.tasks = s.tasks ∧
        s'.writer = { s.writer with dbRx := s.writer.dbRx ++ out }) ∨
      s'.thread = s.thread ∨ ∃ r, s.thread.send r = some s'.thread := by
  cases h with
  | spawn => exact .inr (.inl rfl)
  | fetch => exact .inr (.inl rfl)
  | joinSubmit => exact .inr (.inl rfl)
  | joinCancel => exact .inr (.inl rfl)
  | send id now job command thread hjob htask hhead hsend => exact .inr (.inr ⟨_, hsend⟩)
  | submit id now creator order command thread htask hhead hsend => exact .inr (.inr ⟨_, hsend⟩)
  | fail => exact .inr (.inl rfl)
  | leave => exact .inr (.inl rfl)
  | created => exact .inr (.inl rfl)
  | written => exact .inr (.inl rfl)
  | engine thread out hpass => exact .inl ⟨out, hpass, rfl, rfl⟩
  | writer => exact .inr (.inl rfl)

theorem Running.step (h : s.Running) (hstep : s.step dv a = some s') : s'.Running := by
  have hthread : s'.thread.Accounted ∧ s'.thread.engine.Tidy := by
    rcases (step_moves hstep).thread_cases with ⟨out, hpass, -⟩ | hthread | ⟨r, hsend⟩
    · refine ⟨h.accounted.pass hpass, ?_⟩
      cases h.takes hpass with
      | nothing hengine => rw [hengine]; exact h.tidy
      | command r task _ _ _ hvalid _ hserves => rw [hserves.engine]; exact tidy_step hvalid h.tidy
    · rw [hthread]
      exact ⟨h.accounted, h.tidy⟩
    · refine ⟨h.accounted.send hsend, ?_⟩
      rw [(EngineThread.send_eq hsend).2.1]
      exact h.tidy
  exact ⟨h.wired.step hstep, hthread.1, hthread.2⟩

theorem Running.start (cache : BalanceCache) (orders : OrdersTable) : (System.start (.start cache) orders).Running :=
  ⟨Wired.start _ orders, EngineThread.Accounted.start _, tidy_start cache⟩

end System

end CexEngine
