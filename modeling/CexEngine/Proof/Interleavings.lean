import CexEngine.Proof.Answers
import CexEngine.Proof.Ledger
import CexEngine.Proof.Promises

/-!
# The service in every interleaving

Calls, spawned tasks, the engine thread and the DB writer go on in any order, and calls are given
up at any time.

* `System.synced`: what the `sync_balance` calls add whose command the engine has begun.
* `safe_run`: **no balance is negative, no book is crossed and the supply of every mint is
  accounted for by the `sync_balance` calls**, each of which counts at most once. The reply of the
  engine to a call that has returned `Ok` is there.
-/

namespace CexEngine

/-- What a job adds to a mint by acknowledgement. -/
def Job.deposit (m : Mint) : Job → Decimal
  | .syncBalance _ mint delta => if m = mint then delta else 0
  | _ => 0

/-- A stage that a call reaches with an answer of the engine. -/
def Stage.isServed : Stage → Bool
  | .writing => true
  | .returned (.ok ()) => true
  | _ => false

/-- A command of the service adds what its job adds. -/
theorem Job.Sends.acknowledged {dv : Decimal → Decimal → Decimal} {engine : Engine} {job : Job} {command : Command}
    (h : job.Sends command) (m : Mint) : command.acknowledged (engine.handle dv command).2 m = job.deposit m := by
  cases job with
  | syncBalance userId mint delta => obtain rfl := h; rfl
  | createOrder userId request => obtain ⟨mint, rfl⟩ := h; rfl
  | cancelOrder userId orderId => obtain ⟨pair, rfl⟩ := h; rfl
  | submit creator order => obtain rfl := h; rfl
  | getOrderbook pair depth => obtain rfl := h; rfl

/-- The service locks and unlocks nothing by itself. -/
theorem Job.Sends.locksNonneg {job : Job} {command : Command} (h : job.Sends command) (hvalid : command.Validated) :
    command.LocksNonneg := by
  cases job with
  | syncBalance userId mint delta => obtain rfl := h; trivial
  | createOrder userId request => obtain ⟨mint, rfl⟩ := h; trivial
  | cancelOrder userId orderId => obtain ⟨pair, rfl⟩ := h; trivial
  | submit creator order => obtain rfl := h; exact hvalid
  | getOrderbook pair depth => obtain rfl := h; trivial

/-- What a job adds takes no more than is available. -/
theorem Job.Sends.not_overdraws {engine : Engine} {job : Job} {command : Command} (h : job.Sends command)
    (hadds : job.Deposits) (hsound : engine.balanceCache.Sound) : ¬ command.Overdraws engine := by
  cases job with
  | syncBalance userId mint delta =>
    obtain rfl := h
    exact not_lt.2 (add_nonneg (hsound userId mint).1 hadds)
  | createOrder userId request => obtain ⟨mint, rfl⟩ := h; exact id
  | cancelOrder userId orderId => obtain ⟨pair, rfl⟩ := h; exact id
  | submit creator order => obtain rfl := h; exact id
  | getOrderbook pair depth => obtain rfl := h; exact id

theorem uncrossed_step {dv : Decimal → Decimal → Decimal} {engine : Engine} {c : Command} (hc : c.Validated)
    (h : engine.Uncrossed) : (engine.step dv c).Uncrossed := by
  cases c with
  | submitOrder order => exact uncrossed_submit (validated_kind hc) h
  | cancelOrder orderId userId pair => exact uncrossed_cancel h
  | _ => exact h

namespace System

variable {dv : Decimal → Decimal → Decimal} {cache : BalanceCache} {s s' : System} {a : SystemAction} {m : Mint}

/-- What a task adds to a mint. -/
def deposit (s : System) (m : Mint) (id : ℕ) : Decimal := (s.jobs[id]?.map (Job.deposit m)).getD 0

/-- What the tasks add to a mint whose commands the engine has begun. -/
def synced (s : System) (m : Mint) : Decimal := (s.begunTags.map (s.deposit m)).sum

/-- What every state of the service has. -/
structure Safe (cache : BalanceCache) (s : System) : Prop extends Running s where
  sound : s.thread.engine.balanceCache.Sound
  uncrossed : s.thread.engine.Uncrossed
  once : s.begunTags.Nodup
  supply : ∀ m, cache.supply m + s.synced m ≤ s.thread.engine.balanceCache.supply m
  balanced : (∀ job ∈ s.jobs, job.Deposits) → ∀ m, s.thread.engine.balanceCache.supply m = cache.supply m + s.synced m
  served : ∀ id job stage, s.tasks[id]? = some ⟨job, stage⟩ → job.isSubmit = false → stage.isServed = true →
    (s.reply id).isSome = true

/-! ## Calls that have been answered -/

theorem handled_step (h : s.step dv a = some s') : s.thread.handled <+: s'.thread.handled := by
  rcases (step_moves h).thread_cases with ⟨out, hpass, -⟩ | hthread | ⟨r, hsend⟩
  · exact (EngineThread.pass_frame hpass).2
  · rw [hthread]
  · rw [(EngineThread.send_eq hsend).2.2.2.1]

/-- A reply stays. -/
theorem reply_step (h : s.step dv a = some s') {id : ℕ} (hreply : (s.reply id).isSome = true) :
    (s'.reply id).isSome = true := by
  obtain ⟨more, hmore⟩ := handled_step h
  rw [reply, Option.isSome_map] at hreply ⊢
  rw [← hmore, List.find?_append, Option.isSome_or, hreply]
  rfl

/-- A call at a stage with an answer was at one before the step, or its reply is there. -/
theorem served_step (h : s.step dv a = some s') {id : ℕ} {job : Job} {stage : Stage}
    (htask : s'.tasks[id]? = some ⟨job, stage⟩) (hjob : job.isSubmit = false) (hserved : stage.isServed = true) :
    (∃ stage₀, s.tasks[id]? = some ⟨job, stage₀⟩ ∧ stage₀.isServed = true) ∨ (s.reply id).isSome = true := by
  rcases task_step h htask with rfl | ⟨stage₀, htask₀, rfl | hgoes⟩
  · rcases job.opening_cases with ⟨command, ho, -⟩ | ⟨ho, -⟩ | ⟨e, ho, -⟩ <;> rw [ho] at hserved <;> cases hserved
  · exact .inl ⟨stage, htask₀, hserved⟩
  · cases hgoes with
    | submits command hsubmit => exact absurd (hjob.symm.trans hsubmit) (by simp)
    | answered reply stage _ hreply => exact .inr (by rw [hreply]; rfl)
    | writes => exact .inl ⟨_, htask₀, rfl⟩
    | _ => cases hserved

/-! ## Steps -/

/-- What the calls add that were there before a step. -/
theorem deposit_step (hrun : s.Running) (h : s.step dv a = some s') :
    (s.begunTags.map (s'.deposit m)).sum = s.synced m := by
  obtain ⟨more, hjobs⟩ := jobs_step h
  rw [synced]
  congr 1
  refine List.map_congr_left fun id hid => ?_
  have hlt := begunTags_lt hrun hid
  rw [deposit, deposit, hjobs, List.getElem?_append_left (by rwa [length_jobs])]

theorem begunTags_served {thread : EngineThread} (h : thread.served = s.thread.served) :
    thread.begun.map Request.tag = s.begunTags := by
  rw [begunTags, EngineThread.begun, EngineThread.begun, h]

theorem Safe.served_step (h : s.Safe cache) (hstep : s.step dv a = some s') {id : ℕ} {job : Job} {stage : Stage}
    (htask : s'.tasks[id]? = some ⟨job, stage⟩) (hjob : job.isSubmit = false) (hserved : stage.isServed = true) :
    (s'.reply id).isSome = true := by
  rcases System.served_step hstep htask hjob hserved with ⟨stage₀, htask₀, hserved₀⟩ | hreply
  · exact reply_step hstep (h.served id job stage₀ htask₀ hjob hserved₀)
  · exact reply_step hstep hreply

/-- A step that handles no request. -/
theorem Safe.quiet (h : s.Safe cache) (hstep : s.step dv a = some s') (hserved : s'.thread.served = s.thread.served)
    (hengine : s'.thread.engine = s.thread.engine) : s'.Safe cache where
  toRunning := h.toRunning.step hstep
  sound := hengine ▸ h.sound
  uncrossed := hengine ▸ h.uncrossed
  once := by
    rw [begunTags, begunTags_served hserved]
    exact h.once
  supply m := by
    rw [synced, begunTags, begunTags_served hserved, deposit_step h.toRunning hstep, hengine]
    exact h.supply m
  balanced hadds m := by
    obtain ⟨more, hjobs⟩ := jobs_step hstep
    rw [hjobs] at hadds
    rw [synced, begunTags, begunTags_served hserved, deposit_step h.toRunning hstep, hengine]
    exact h.balanced (fun job hjob => hadds job (List.mem_append_left _ hjob)) m
  served _ _ _ := h.served_step hstep

/-- The engine thread handles the next request. -/
theorem Safe.command {r : Request} {task : Task} {out : List DbCommand} (h : s.Safe cache)
    (hstep : s.step dv a = some s') (htask : s.tasks[r.tag]? = some task) (hsends : task.job.Sends r.command)
    (hvalid : r.command.Validated) (hfresh : r.tag ∉ s.begunTags)
    (hserves : EngineThread.Serves dv s.thread r out s'.thread) : s'.Safe cache := by
  obtain ⟨more, hjobs⟩ := jobs_step hstep
  have hbegun : s'.begunTags = s.begunTags ++ [r.tag] := by
    rw [begunTags, hserves.begun, List.map_append]
    rfl
  have hdeposit : ∀ m, s'.deposit m r.tag = task.job.deposit m := by
    intro m
    rw [deposit, hjobs, List.getElem?_append_left (by rw [length_jobs]; exact lt_of_task htask), task_job htask]
    rfl
  have hsynced : ∀ m, s'.synced m = s.synced m + task.job.deposit m := by
    intro m
    rw [synced, hbegun, List.map_append, List.sum_append, deposit_step h.toRunning hstep, List.map_singleton,
      List.sum_singleton, hdeposit]
  have hsupply : ∀ m, s'.thread.engine.balanceCache.supply m = s.thread.engine.balanceCache.supply m +
      task.job.deposit m + r.command.shortfall s.thread.engine m := by
    intro m
    rw [hserves.engine, supply_step, hsends.acknowledged]
  refine ⟨h.toRunning.step hstep, ?_, ?_, ?_, fun m => ?_, fun hadds m => ?_, fun _ _ _ => h.served_step hstep⟩
  · rw [hserves.engine]
    exact sound_step (hsends.locksNonneg hvalid) h.tidy.placed.ordersNonneg h.sound
  · rw [hserves.engine]
    exact uncrossed_step hvalid h.uncrossed
  · rw [hbegun]
    exact List.concat_eq_append ▸ h.once.concat hfresh
  · have := h.supply m
    have := r.command.shortfall_nonneg s.thread.engine m
    rw [hsupply, hsynced]
    linarith
  · have hdeposits : ∀ job ∈ s.jobs, job.Deposits := fun job hjob =>
      hadds job (by rw [hjobs]; exact List.mem_append_left _ hjob)
    have hjob : task.job ∈ s.jobs := List.mem_map_of_mem (List.mem_of_getElem? htask)
    have hshort := (r.command.shortfall_eq_zero s.thread.engine).2 (hsends.not_overdraws (hdeposits _ hjob) h.sound) m
    rw [hsupply, hsynced, hshort, h.balanced hdeposits m]
    ring

theorem Safe.step (h : s.Safe cache) (hstep : s.step dv a = some s') : s'.Safe cache := by
  rcases (step_moves hstep).thread_cases with ⟨out, hpass, -⟩ | hthread | ⟨r, hsend⟩
  · cases h.toRunning.takes hpass with
    | nothing hengine hserved => exact h.quiet hstep hserved hengine
    | command r task _ htask hsends hvalid hfresh hserves => exact h.command hstep htask hsends hvalid hfresh hserves
  · exact h.quiet hstep (congrArg _ hthread) (congrArg _ hthread)
  · exact h.quiet hstep (EngineThread.served_send hsend).1 (EngineThread.send_eq hsend).2.1

theorem Safe.start (hsound : cache.Sound) (orders : OrdersTable) : (System.start (.start cache) orders).Safe cache where
  toRunning := Running.start cache orders
  sound := hsound
  uncrossed pair b hb := by
    have hside : ((Engine.start cache).orderbook pair).side true = .new := OrderBook.side_new pair true
    change b ∈ (((Engine.start cache).orderbook pair).side true).stock at hb
    rw [hside] at hb
    exact absurd hb (Multiset.notMem_zero b)
  once := List.nodup_nil
  supply m := by rw [synced]; exact (add_zero _).le
  balanced _ m := (add_zero _).symm
  served id job stage htask := by cases htask

end System

/-- **The service is safe in every interleaving** of any calls, of the tasks, of the engine thread
and of the DB writer, with calls that are given up at any time. -/
theorem safe_run {dv : Decimal → Decimal → Decimal} {cache : BalanceCache} (hsound : cache.Sound)
    {orders : OrdersTable} {as : List SystemAction} {s : System}
    (hrun : Machine.run (System.step dv) (.start (.start cache) orders) as = some s) : s.Safe cache :=
  Machine.run_inv (fun _ _ _ h hstep => h.step hstep) (System.Safe.start hsound orders) hrun

/-- A deposit comes back `Ok` while an order of the same user is on its way. -/
theorem safe_run_deposit :
    ∃ s, Machine.run (System.step (· / ·)) (.start (.start (BalanceCache.new.setBalance 1 "USDT" 100 0)) ∅)
        (createCall 0 1 (buyRequest 1 10 1) ++ [.call (.syncBalance 1 "USDT" 5), .poll 1 0, .poll 2 0, .engine, .engine,
          .poll 2 0]) = some s ∧
      s.tasks[2]? = some ⟨.syncBalance 1 "USDT" 5, .returned (.ok ())⟩ ∧
      s.thread.engine.balanceCache.supply "USDT" = (BalanceCache.new.setBalance 1 "USDT" 100 0).supply "USDT" +
        s.synced "USDT" := by
  obtain ⟨s, hrun, htask, hjobs⟩ := Machine.exists_run (System.step (· / ·))
    (.start (.start (BalanceCache.new.setBalance 1 "USDT" 100 0)) ∅)
    (createCall 0 1 (buyRequest 1 10 1) ++ [.call (.syncBalance 1 "USDT" 5), .poll 1 0, .poll 2 0, .engine, .engine,
      .poll 2 0])
    (fun s => s.tasks[2]? = some ⟨.syncBalance 1 "USDT" 5, .returned (.ok ())⟩ ∧
      s.jobs = [.createOrder 1 (buyRequest 1 10 1), .submit 0 (limitOrder 1 1 .buy 10 1), .syncBalance 1 "USDT" 5])
    (by decide +kernel)
  have hsafe := safe_run (BalanceCache.sound_new.setBalance 1 "USDT" (by norm_num) le_rfl) hrun
  refine ⟨s, hrun, htask, hsafe.balanced ?_ "USDT"⟩
  rw [hjobs]
  simp only [List.forall_mem_cons, Job.Deposits]
  exact ⟨trivial, trivial, by norm_num, by simp⟩

end CexEngine
