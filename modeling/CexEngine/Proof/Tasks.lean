import CexEngine.Proof.EnginePass
import CexEngine.Proof.WriterPass
import CexEngine.Spec.Service

/-!
# The tasks of the service

* `step_moves`: what one step of the system can do.
* `Wired`: each task is where the lock and the channels say it is, and sends one command of
  its own. `Wired.step`: no step changes that.
-/

namespace CexEngine

/-- The commands that a job sends to the engine. -/
def Job.Sends : Job → Command → Prop
  | .createOrder userId _, command => ∃ mint, command = .getBalance userId mint
  | .submit _ order, command => command = .submitOrder order
  | .cancelOrder userId orderId, command => ∃ pair, command = .cancelOrder orderId userId pair
  | .syncBalance userId mint delta, command => command = .updateBalance userId mint delta
  | .getOrderbook pair depth, command => command = .getOrderbook pair depth

/-- A task that a `create_order` has spawned. -/
def Job.isSubmit : Job → Bool
  | .submit _ _ => true
  | _ => false

def Job.isCreate : Job → Bool
  | .createOrder _ _ => true
  | _ => false

def Job.isCancel : Job → Bool
  | .cancelOrder _ _ => true
  | _ => false

/-- The request of a `create_order` has passed the validator. -/
def Job.Checked : Job → Prop
  | .createOrder _ request => request.validate = .ok ()
  | _ => True

def Stage.isReturned : Stage → Bool
  | .returned _ => true
  | _ => false

/-- A call starts with the lock, with an error, or with a read. -/
theorem Job.opening_cases (job : Job) :
    (∃ command, job.opening = .locking command ∧ job.Sends command ∧ job.isSubmit = false ∧ job.Checked) ∨
      (job.opening = .started ∧ job.isCreate = false) ∨
      ∃ e, job.opening = .returned (.error e) ∧ job.isSubmit = false := by
  cases job with
  | createOrder userId request =>
    cases hcheck : (do request.validate; request.requiredBalance) with
    | error e => exact .inr (.inr ⟨.refused e, by simp only [opening, hcheck], rfl⟩)
    | ok r =>
      have hvalid : request.validate = .ok () := by
        cases hv : request.validate with
        | error e => rw [hv] at hcheck; cases hcheck
        | ok u => rfl
      exact .inl ⟨.getBalance userId r.1, by simp only [opening, hcheck], ⟨r.1, rfl⟩, rfl, hvalid⟩
  | submit creator order => exact .inr (.inl ⟨rfl, rfl⟩)
  | cancelOrder userId orderId => exact .inr (.inl ⟨rfl, rfl⟩)
  | syncBalance userId mint delta => exact .inl ⟨_, rfl, rfl, rfl, trivial⟩
  | getOrderbook pair depth => exact .inl ⟨_, rfl, rfl, rfl, trivial⟩

namespace System

variable {dv : Decimal → Decimal → Decimal} {s s' : System} {a : SystemAction} {id k : ℕ}

/-! ## One step -/

/-- What a call comes to when it does not go on to the next command or to a new task. -/
def Ends (job : Job) (stage : Stage) : Prop :=
  (∃ e, stage = .returned (.error e)) ∨ (job.isCancel = true ∧ stage = .writing) ∨
    (job.isCreate = false ∧ job.isCancel = false ∧ stage = .returned (.ok ()))

/-- **What a step can do.** -/
inductive Moves (dv : Decimal → Decimal → Decimal) (s : System) : SystemAction → System → Prop where
  | spawn (job : Job) (hjob : job.isSubmit = false) : Moves dv s (.call job) (s.spawn job)
  | fetch (id now : ℕ) (userId : UserId) (orderId : OrderId)
      (htask : s.tasks[id]? = some ⟨.cancelOrder userId orderId, .started⟩) :
      Moves dv s (.poll id now) (s.goTo id (.fetched (s.writer.orders.lookup orderId)))
  | joinSubmit (id now creator : ℕ) (order : OrderEntry) (htask : s.tasks[id]? = some ⟨.submit creator order, .started⟩) :
      Moves dv s (.poll id now) (s.join id (.submitOrder order))
  | joinCancel (id now : ℕ) (userId : UserId) (orderId : OrderId) (row : Option OrderRow) (pair : TradingPair)
      (htask : s.tasks[id]? = some ⟨.cancelOrder userId orderId, .fetched row⟩)
      (hok : cancellable userId row = .ok pair) :
      Moves dv s (.poll id now) (s.join id (.cancelOrder orderId userId pair))
  | send (id now : ℕ) (job : Job) (command : Command) (thread : EngineThread) (hjob : job.isSubmit = false)
      (htask : s.tasks[id]? = some ⟨job, .locking command⟩) (hhead : s.mutex.head? = some id)
      (hsend : s.thread.send ⟨id, command⟩ = some thread) :
      Moves dv s (.poll id now) ({ s with thread }.goTo id .asking)
  | submit (id now creator : ℕ) (order : OrderEntry) (command : Command) (thread : EngineThread)
      (htask : s.tasks[id]? = some ⟨.submit creator order, .locking command⟩) (hhead : s.mutex.head? = some id)
      (hsend : s.thread.send ⟨id, command⟩ = some thread) :
      Moves dv s (.poll id now) ({ s with thread }.leave id (.returned (.ok ())))
  | fail (id now : ℕ) (userId : UserId) (orderId : OrderId) (stage : Stage) (e : CallError)
      (htask : s.tasks[id]? = some ⟨.cancelOrder userId orderId, stage⟩)
      (hstage : (∃ row, stage = .fetched row) ∨ stage = .writing) :
      Moves dv s (.poll id now) (s.goTo id (.returned (.error e)))
  | leave (id : ℕ) (a : SystemAction) (job : Job) (stage stage' : Stage) (hjob : job.isSubmit = false)
      (htask : s.tasks[id]? = some ⟨job, stage⟩) (hstage : stage.isReturned = false) (hends : Ends job stage') :
      Moves dv s a (s.leave id stage')
  | created (id now : ℕ) (userId : UserId) (request : CreateOrderRequest) (order : OrderEntry)
      (htask : s.tasks[id]? = some ⟨.createOrder userId request, .asking⟩)
      (horder : request.orderEntry userId now = .ok order) (mint : Mint) (required available locked : Decimal)
      (hrequired : request.requiredBalance = .ok (mint, required))
      (hreply : s.reply id = some (.balance (available, locked)))
      (hcovers : required ≤ available) :
      Moves dv s (.poll id now) ((s.leave id (.returned (.ok ()))).spawn (.submit id order))
  | written (id now : ℕ) (userId : UserId) (orderId : OrderId) (row : OrderRow)
      (htask : s.tasks[id]? = some ⟨.cancelOrder userId orderId, .writing⟩)
      (hrow : s.writer.orders.lookup orderId = some row) :
      Moves dv s (.poll id now)
        ({ s with writer := { s.writer with
            orders := s.writer.orders.update orderId fun row => { row with status := "cancelled" } } }.goTo id
          (.returned (.ok ())))
  | engine (thread : EngineThread) (out : List DbCommand) (hpass : s.thread.pass dv = some (thread, out)) :
      Moves dv s .engine { s with thread, writer := { s.writer with dbRx := s.writer.dbRx ++ out } }
  | writer (overdue : Bool) (db : ℕ → Attempt) (writer : DbWriter) (hpass : s.writer.pass db overdue = some writer) :
      Moves dv s (.writer overdue db) { s with writer }

theorem send_moves {now : ℕ} {job : Job} {command : Command} (htask : s.tasks[id]? = some ⟨job, .locking command⟩)
    (hhead : s.mutex.head? = some id) (h : s.send id job command = some s') : s.Moves dv (.poll id now) s' := by
  rw [System.send] at h
  obtain ⟨thread, hsend, rfl⟩ := Option.map_eq_some_iff.1 h
  cases job with
  | submit creator order => exact .submit id now creator order command thread htask hhead hsend
  | createOrder userId request => exact .send id now _ command thread rfl htask hhead hsend
  | cancelOrder userId orderId => exact .send id now _ command thread rfl htask hhead hsend
  | syncBalance userId mint delta => exact .send id now _ command thread rfl htask hhead hsend
  | getOrderbook pair depth => exact .send id now _ command thread rfl htask hhead hsend

theorem answered_moves {now : ℕ} {job : Job} {reply : Reply} (htask : s.tasks[id]? = some ⟨job, .asking⟩)
    (hreply : s.reply id = some reply) (h : s.answered id now job reply = some s') : s.Moves dv (.poll id now) s' := by
  have hleave : ∀ stage, job.isSubmit = false → Ends job stage → s.Moves dv (.poll id now) (s.leave id stage) :=
    fun stage hjob hends => .leave id _ job .asking stage hjob htask rfl hends
  rw [answered.eq_def] at h
  split at h
  · -- `create_order` has the balance
    rename_i userId request available locked
    obtain rfl := Option.some.inj h
    rw [finishCreate]
    split
    · exact hleave _ rfl (.inl ⟨_, rfl⟩)
    · rename_i mint required hrequired
      split_ifs with hcovers
      · exact hleave _ rfl (.inl ⟨_, rfl⟩)
      · cases horder : request.orderEntry userId now with
        | error e => exact hleave _ rfl (.inl ⟨_, rfl⟩)
        | ok order =>
          exact .created id now userId request order htask horder mint required available locked hrequired hreply
            (not_lt.1 hcovers)
  · obtain rfl := Option.some.inj h
    exact hleave _ rfl (.inr (.inl ⟨rfl, rfl⟩))
  · obtain rfl := Option.some.inj h
    exact hleave _ rfl (.inl ⟨_, rfl⟩)
  · obtain rfl := Option.some.inj h
    exact hleave _ rfl (.inr (.inr ⟨rfl, rfl, rfl⟩))
  · obtain rfl := Option.some.inj h
    exact hleave _ rfl (.inl ⟨_, rfl⟩)
  · obtain rfl := Option.some.inj h
    exact hleave _ rfl (.inr (.inr ⟨rfl, rfl, rfl⟩))
  · cases h

theorem poll_moves {now : ℕ} (h : s.poll id now = some s') : s.Moves dv (.poll id now) s' := by
  rw [System.poll] at h
  cases htask : s.tasks[id]? with
  | none => rw [htask] at h; cases h
  | some task =>
    obtain ⟨job, stage⟩ := task
    rw [htask] at h
    cases stage with
    | started =>
      cases job with
      | submit creator order =>
        obtain rfl := Option.some.inj h
        exact .joinSubmit id now creator order htask
      | cancelOrder userId orderId =>
        obtain rfl := Option.some.inj h
        exact .fetch id now userId orderId htask
      | _ => cases h
    | fetched row =>
      cases job with
      | cancelOrder userId orderId =>
        dsimp only at h
        cases hok : cancellable userId row with
        | error e =>
          rw [hok] at h
          obtain rfl := Option.some.inj h
          exact .fail id now userId orderId _ e htask (.inl ⟨row, rfl⟩)
        | ok pair =>
          rw [hok] at h
          obtain rfl := Option.some.inj h
          exact .joinCancel id now userId orderId row pair htask hok
      | _ => cases h
    | locking command =>
      dsimp only at h
      split_ifs at h with hhead
      exact send_moves htask hhead h
    | asking =>
      -- the caller waits for its answer
      obtain ⟨reply, hreply, h⟩ := Option.bind_eq_some_iff.1 h
      exact answered_moves htask hreply h
    | writing =>
      cases job with
      | cancelOrder userId orderId =>
        obtain rfl := Option.some.inj h
        rw [writeCancelled]
        cases hrow : s.writer.orders.lookup orderId with
        | none => exact .fail id now userId orderId _ _ htask (.inr rfl)
        | some row => exact .written id now userId orderId row htask hrow
      | _ => cases h
    | returned answer => cases h

/-- A step of the engine thread: what it sends gets into the channel of the DB writer. -/
theorem engine_step (h : s.step dv .engine = some s') : ∃ thread out, s.thread.pass dv = some (thread, out) ∧
    s' = { s with thread, writer := { s.writer with dbRx := s.writer.dbRx ++ out } } := by
  obtain ⟨⟨thread, out⟩, hpass, hsend⟩ := Option.bind_eq_some_iff.1 h
  obtain ⟨writer, haccept, rfl⟩ := Option.map_eq_some_iff.1 hsend
  obtain ⟨rfl, -⟩ := DbWriter.accept_eq haccept
  exact ⟨thread, out, hpass, rfl⟩

/-- **One step.** -/
theorem step_moves (h : s.step dv a = some s') : s.Moves dv a s' := by
  cases a with
  | call job =>
    cases job with
    | submit creator order => cases h
    | createOrder userId request => obtain rfl := Option.some.inj h; exact .spawn _ rfl
    | cancelOrder userId orderId => obtain rfl := Option.some.inj h; exact .spawn _ rfl
    | syncBalance userId mint delta => obtain rfl := Option.some.inj h; exact .spawn _ rfl
    | getOrderbook pair depth => obtain rfl := Option.some.inj h; exact .spawn _ rfl
  | poll id now => exact poll_moves h
  | giveUp id =>
    rw [System.step, System.giveUp] at h
    split at h
    · cases h
    · cases h
    · cases h
    · rename_i job stage hsubmit hstage htask
      obtain rfl := Option.some.inj h
      refine .leave id _ job stage _ ?_ htask ?_ (.inl ⟨_, rfl⟩)
      · cases job with
        | submit creator order => exact absurd rfl (hsubmit creator order)
        | _ => rfl
      · cases stage with
        | returned answer => exact absurd rfl (hstage answer)
        | _ => rfl
  | engine =>
    obtain ⟨thread, out, hpass, rfl⟩ := engine_step h
    exact .engine thread out hpass
  | writer overdue db =>
    obtain ⟨writer, hpass, rfl⟩ := Option.map_eq_some_iff.1 h
    exact .writer overdue db writer hpass

/-! ## Where a task is -/

/-- The tasks whose command has been sent, in that order. -/
def sentTags (s : System) : List ℕ := s.thread.sent.map Request.tag

/-- A task's place in the queue of the lock and in the channels, by its stage. -/
def At (s : System) (id : ℕ) (task : Task) : Prop :=
  match task.stage with
  | .started => id ∉ s.mutex ∧ id ∉ s.sentTags
  | .fetched _ => id ∉ s.mutex ∧ id ∉ s.sentTags ∧ task.job.isSubmit = false
  | .locking command => id ∈ s.mutex ∧ id ∉ s.sentTags ∧ task.job.Sends command ∧ task.job.Checked
  | .asking => id ∈ s.mutex ∧ task.job.isSubmit = false ∧ task.job.Checked
  | .writing => id ∉ s.mutex ∧ task.job.isSubmit = false
  | .returned _ => id ∉ s.mutex ∧ (task.job.isSubmit = true → id ∈ s.sentTags)

/-- A spawned task submits an admitted order for a call before it. -/
def Spawned (id : ℕ) : Job → Prop
  | .submit creator order => creator < id ∧ order.Validated
  | _ => True

/-- Each task is where the lock and the channels say it is. -/
structure Wired (s : System) : Prop where
  tasks : ∀ id task, s.tasks[id]? = some task → s.At id task ∧ Spawned id task.job
  mutexNodup : s.mutex.Nodup
  mutexTask : ∀ id ∈ s.mutex, id < s.tasks.length
  sentNodup : s.sentTags.Nodup
  sentTask : ∀ r ∈ s.thread.sent, ∃ task, s.tasks[r.tag]? = some task ∧ task.job.Sends r.command

def jobs (s : System) : List Job := s.tasks.map Task.job

theorem job_task {id : ℕ} {job : Job} (h : s.jobs[id]? = some job) : ∃ stage, s.tasks[id]? = some ⟨job, stage⟩ := by
  rw [jobs, List.getElem?_map] at h
  obtain ⟨⟨j, stage⟩, htask, rfl⟩ := Option.map_eq_some_iff.1 h
  exact ⟨stage, htask⟩

theorem task_job {id : ℕ} {task : Task} (h : s.tasks[id]? = some task) : s.jobs[id]? = some task.job := by
  rw [jobs, List.getElem?_map, h]
  rfl

@[simp] theorem jobs_goTo {id : ℕ} {stage : Stage} : (s.goTo id stage).jobs = s.jobs := by
  apply List.ext_getElem?
  intro k
  simp only [jobs, goTo, List.getElem?_map, List.getElem?_modify]
  split_ifs <;> cases s.tasks[k]? <;> rfl

theorem lt_of_task {task : Task} (h : s.tasks[id]? = some task) : id < s.tasks.length :=
  (List.getElem?_eq_some_iff.1 h).1

theorem goTo_self {task : Task} {stage : Stage} (h : s.tasks[id]? = some task) :
    (s.goTo id stage).tasks[id]? = some ⟨task.job, stage⟩ := by
  simp [goTo, h]

theorem goTo_ne {stage : Stage} (h : k ≠ id) : (s.goTo id stage).tasks[k]? = s.tasks[k]? := by
  rw [goTo]
  exact List.getElem?_modify_ne _ _ h.symm

@[simp] theorem length_goTo {stage : Stage} : (s.goTo id stage).tasks.length = s.tasks.length := by simp [goTo]

theorem spawn_self (job : Job) : (s.spawn job).tasks[s.tasks.length]? = some ⟨job, job.opening⟩ := by simp [spawn]

theorem jobs_spawn (job : Job) : (s.spawn job).jobs = s.jobs ++ [job] := by simp [spawn, jobs]

theorem length_jobs : s.jobs.length = s.tasks.length := by simp [jobs]

theorem spawn_ne {job : Job} (h : k ≠ s.tasks.length) : (s.spawn job).tasks[k]? = s.tasks[k]? := by
  rw [spawn]
  rcases lt_or_gt_of_ne h with h | h
  · exact List.getElem?_append_left h
  · rw [List.getElem?_eq_none (by simp; omega), List.getElem?_eq_none (by omega)]

/-- A step that moves one task. -/
structure OnlyAt (id : ℕ) (s s' : System) : Prop where
  tasks : ∀ k, k ≠ id → s'.tasks[k]? = s.tasks[k]?
  job : ∀ task, s.tasks[id]? = some task → ∃ stage, s'.tasks[id]? = some ⟨task.job, stage⟩
  mutex : ∀ k, k ≠ id → (k ∈ s'.mutex ↔ k ∈ s.mutex)
  sent : ∀ k, k ≠ id → (k ∈ s'.sentTags ↔ k ∈ s.sentTags)

variable (id) in
/-- What a step that moves one task has to keep. -/
theorem Wired.of_onlyAt (hw : s.Wired) (ho : OnlyAt id s s')
    (hid : ∀ task, s'.tasks[id]? = some task → s'.At id task ∧ Spawned id task.job) (hnodup : s'.mutex.Nodup)
    (hlength : ∀ k ∈ s'.mutex, k < s'.tasks.length) (hsentNodup : s'.sentTags.Nodup)
    (hsent : ∀ r ∈ s'.thread.sent, r ∈ s.thread.sent ∨
      ∃ task, s'.tasks[r.tag]? = some task ∧ task.job.Sends r.command) : s'.Wired where
  tasks k task hk := by
    by_cases hne : k = id
    · subst hne
      exact hid task hk
    · rw [ho.tasks k hne] at hk
      -- another task is at its stage, and the lock and its command are where they were
      obtain ⟨hat, hspawned⟩ := hw.tasks k task hk
      refine ⟨?_, hspawned⟩
      rw [At, ho.mutex k hne, ho.sent k hne]
      exact hat
  mutexNodup := hnodup
  mutexTask := hlength
  sentNodup := hsentNodup
  sentTask r hr := by
    rcases hsent r hr with hold | hnew
    · obtain ⟨task, htask, hsends⟩ := hw.sentTask r hold
      by_cases hne : r.tag = id
      · rw [hne] at htask ⊢
        obtain ⟨stage, hstage⟩ := ho.job task htask
        exact ⟨_, hstage, hsends⟩
      · exact ⟨task, by rw [ho.tasks _ hne, htask], hsends⟩
    · exact hnew

section Wired

variable {task : Task} {stage : Stage}

theorem Wired.goTo (hw : s.Wired) (htask : s.tasks[id]? = some task) (hat : s.At id ⟨task.job, stage⟩) :
    (s.goTo id stage).Wired := by
  refine hw.of_onlyAt id ⟨fun k hk => goTo_ne hk, fun t ht => ?_, fun _ _ => Iff.rfl, fun _ _ => Iff.rfl⟩
    (fun t ht => ?_) hw.mutexNodup ?_ hw.sentNodup fun r hr => .inl hr
  · exact ⟨stage, goTo_self ht⟩
  · rw [goTo_self htask] at ht
    obtain rfl := Option.some.inj ht
    exact ⟨hat, (hw.tasks id task htask).2⟩
  · rw [length_goTo]
    exact hw.mutexTask

theorem Wired.join {command : Command} (hw : s.Wired) (htask : s.tasks[id]? = some task) (hmutex : id ∉ s.mutex)
    (hsent : id ∉ s.sentTags) (hsends : task.job.Sends command) (hchecked : task.job.Checked) :
    (s.join id command).Wired := by
  refine hw.of_onlyAt id ⟨fun k hk => goTo_ne hk, fun t ht => ⟨_, goTo_self ht⟩, fun k hk => ?_, fun _ _ => Iff.rfl⟩
    (fun t ht => ?_) ?_ ?_ hw.sentNodup fun r hr => .inl hr
  · simp [System.join, hk]
  · have hself : (s.join id command).tasks[id]? = some ⟨task.job, .locking command⟩ := goTo_self htask
    rw [hself] at ht
    obtain rfl := Option.some.inj ht
    exact ⟨⟨by simp [System.join], hsent, hsends, hchecked⟩, (hw.tasks id task htask).2⟩
  · have hjoin : (s.join id command).mutex = s.mutex.concat id := List.concat_eq_append.symm
    rw [hjoin]
    exact List.Nodup.concat hmutex hw.mutexNodup
  · intro k hk
    have hlength : (s.join id command).tasks.length = s.tasks.length := length_goTo
    rw [hlength]
    rcases List.mem_append.1 hk with hk | hk
    · exact hw.mutexTask k hk
    · obtain rfl := List.mem_singleton.1 hk
      exact lt_of_task htask

theorem Wired.leave (hw : s.Wired) (htask : s.tasks[id]? = some task)
    (hstage : (stage = .writing ∧ task.job.isSubmit = false) ∨
      ∃ answer, stage = .returned answer ∧ (task.job.isSubmit = true → id ∈ s.sentTags)) :
    (s.leave id stage).Wired := by
  have hgone : id ∉ (s.leave id stage).mutex := hw.mutexNodup.not_mem_erase
  refine hw.of_onlyAt id ⟨fun k hk => goTo_ne hk, fun t ht => ⟨_, goTo_self ht⟩, fun k hk => ?_, fun _ _ => Iff.rfl⟩
    (fun t ht => ?_) (hw.mutexNodup.erase id) ?_ hw.sentNodup fun r hr => .inl hr
  · exact List.mem_erase_of_ne hk
  · have hself : (s.leave id stage).tasks[id]? = some ⟨task.job, stage⟩ := goTo_self htask
    rw [hself] at ht
    obtain rfl := Option.some.inj ht
    refine ⟨?_, (hw.tasks id task htask).2⟩
    rcases hstage with ⟨rfl, hjob⟩ | ⟨answer, rfl, hjob⟩
    · exact ⟨hgone, hjob⟩
    · exact ⟨hgone, hjob⟩
  · intro k hk
    have hlength : (s.leave id stage).tasks.length = s.tasks.length := length_goTo
    rw [hlength]
    exact hw.mutexTask k (List.mem_of_mem_erase hk)

/-- The command of the task that has the lock goes into its channel. -/
theorem Wired.sent {job : Job} {command : Command} {thread : EngineThread} (hw : s.Wired)
    (htask : s.tasks[id]? = some ⟨job, .locking command⟩) (hsend : s.thread.send ⟨id, command⟩ = some thread)
    (hmutex : s'.mutex.Nodup ∧ ∀ k ∈ s'.mutex, k ∈ s.mutex) (hothers : ∀ k, k ≠ id → k ∈ s.mutex → k ∈ s'.mutex)
    (hthread : s'.thread = thread) (htasks : s'.tasks = (s.goTo id stage).tasks)
    (hat : id ∈ s'.sentTags → s'.At id ⟨job, stage⟩) : s'.Wired := by
  obtain ⟨-, hnotsent, hsends, -⟩ := (hw.tasks id _ htask).1
  have htags : s'.sentTags = s.sentTags ++ [id] := by
    rw [sentTags, hthread, (EngineThread.send_eq hsend).1, List.map_append]
    rfl
  have hself : s'.tasks[id]? = some ⟨job, stage⟩ := by rw [htasks]; exact goTo_self htask
  refine hw.of_onlyAt id ⟨fun k hk => ?_, fun t ht => ?_, fun k hk => ?_, fun k hk => ?_⟩ (fun t ht => ?_)
    hmutex.1 ?_ ?_ fun r hr => ?_
  · rw [htasks]
    exact goTo_ne hk
  · rw [htasks]
    exact ⟨_, goTo_self ht⟩
  · exact ⟨hmutex.2 k, hothers k hk⟩
  · simp [htags, hk]
  · rw [hself] at ht
    obtain rfl := Option.some.inj ht
    exact ⟨hat (by simp [htags]), (hw.tasks id _ htask).2⟩
  · intro k hk
    rw [htasks, length_goTo]
    exact hw.mutexTask k (hmutex.2 k hk)
  · rw [htags, ← List.concat_eq_append]
    exact List.Nodup.concat hnotsent hw.sentNodup
  · rw [hthread, (EngineThread.send_eq hsend).1] at hr
    rcases List.mem_append.1 hr with hr | hr
    · exact .inl hr
    · obtain rfl := List.mem_singleton.1 hr
      exact .inr ⟨_, hself, hsends⟩

/-- A new task is not known to the lock, nor to the channels. -/
theorem Wired.fresh (hw : s.Wired) : s.tasks.length ∉ s.mutex ∧ s.tasks.length ∉ s.sentTags := by
  refine ⟨fun h => lt_irrefl _ (hw.mutexTask _ h), fun h => ?_⟩
  obtain ⟨r, hr, hid⟩ := List.mem_map.1 h
  obtain ⟨task, htask, -⟩ := hw.sentTask r hr
  have := lt_of_task htask
  omega

/-- A call asks for the lock at once if its job opens with a command. -/
theorem mutex_spawn (s : System) (job : Job) :
    (∃ command, job.opening = .locking command ∧ (s.spawn job).mutex = s.mutex ++ [s.tasks.length]) ∨
      (∀ command, job.opening ≠ .locking command) ∧ (s.spawn job).mutex = s.mutex := by
  cases ho : job.opening with
  | locking command => exact .inl ⟨command, rfl, by simp [spawn, ho]⟩
  | _ => exact .inr ⟨fun command => Stage.noConfusion, by simp [spawn, ho]⟩

theorem Wired.at_spawn (hw : s.Wired) (job : Job) : (s.spawn job).At s.tasks.length ⟨job, job.opening⟩ := by
  obtain ⟨hfresh, hnotsent⟩ := hw.fresh
  rcases mutex_spawn s job with ⟨command, ho, hmutex⟩ | ⟨ho, hmutex⟩
  · rcases job.opening_cases with ⟨command', ho', hsends, -, hchecked⟩ | ⟨ho', -⟩ | ⟨e, ho', -⟩
    · rw [At, ho', hmutex]
      exact ⟨List.mem_append_right _ List.mem_cons_self, hnotsent, hsends, hchecked⟩
    · rw [ho] at ho'
      cases ho'
    · rw [ho] at ho'
      cases ho'
  · rcases job.opening_cases with ⟨command, ho', -⟩ | ⟨ho', -⟩ | ⟨e, ho', hsubmit⟩
    · exact absurd ho' (ho command)
    · rw [At, ho', hmutex]
      exact ⟨hfresh, hnotsent⟩
    · rw [At, ho', hmutex]
      exact ⟨hfresh, fun h => by rw [hsubmit] at h; cases h⟩

theorem Wired.spawn {job : Job} (hw : s.Wired) (hspawned : Spawned s.tasks.length job) : (s.spawn job).Wired := by
  have hlength : (s.spawn job).tasks.length = s.tasks.length + 1 := by simp [System.spawn]
  have hmutex : (∀ k, k ≠ s.tasks.length → (k ∈ (s.spawn job).mutex ↔ k ∈ s.mutex)) ∧ (s.spawn job).mutex.Nodup ∧
      ∀ k ∈ (s.spawn job).mutex, k < s.tasks.length + 1 := by
    rcases mutex_spawn s job with ⟨command, -, hmutex⟩ | ⟨-, hmutex⟩
    · rw [hmutex]
      refine ⟨fun k hk => by simp [hk], ?_, ?_⟩
      · rw [← List.concat_eq_append]
        exact List.Nodup.concat hw.fresh.1 hw.mutexNodup
      · rw [List.forall_mem_append, List.forall_mem_singleton]
        exact ⟨fun k hk => Nat.lt_succ_of_lt (hw.mutexTask k hk), Nat.lt_succ_self _⟩
    · rw [hmutex]
      exact ⟨fun _ _ => Iff.rfl, hw.mutexNodup, fun k hk => Nat.lt_succ_of_lt (hw.mutexTask k hk)⟩
  obtain ⟨hothers, hnodup, hbelow⟩ := hmutex
  refine hw.of_onlyAt s.tasks.length ⟨fun k hk => spawn_ne hk, fun t ht => ?_, hothers, fun _ _ => Iff.rfl⟩
    (fun t ht => ?_) hnodup ?_ hw.sentNodup fun r hr => .inl hr
  · rw [List.getElem?_eq_none le_rfl] at ht
    cases ht
  · rw [spawn_self] at ht
    obtain rfl := Option.some.inj ht
    exact ⟨hw.at_spawn job, hspawned⟩
  · rw [hlength]
    exact hbelow

theorem erase_head (h : s.mutex.head? = some id) : s.mutex = id :: s.mutex.erase id := by
  cases hm : s.mutex with
  | nil => rw [hm] at h; cases h
  | cons k ks =>
    rw [hm] at h
    obtain rfl := Option.some.inj h
    simp

/-- **Every step keeps the tasks wired.** -/
theorem Wired.step (hw : s.Wired) (h : s.step dv a = some s') : s'.Wired := by
  cases step_moves h with
  | spawn job hjob =>
    refine hw.spawn ?_
    cases job with
    | submit creator order => cases hjob
    | _ => trivial
  | fetch id now userId orderId htask =>
    obtain ⟨hmutex, hsent⟩ := (hw.tasks id _ htask).1
    exact hw.goTo htask ⟨hmutex, hsent, rfl⟩
  | joinSubmit id now creator order htask =>
    obtain ⟨hmutex, hsent⟩ := (hw.tasks id _ htask).1
    exact hw.join htask hmutex hsent rfl trivial
  | joinCancel id now userId orderId row pair htask =>
    obtain ⟨hmutex, hsent, -⟩ := (hw.tasks id _ htask).1
    exact hw.join htask hmutex hsent ⟨pair, rfl⟩ trivial
  | send id now job command thread hjob htask hhead hsend =>
    obtain ⟨hmutex, -, -, hchecked⟩ := (hw.tasks id _ htask).1
    exact hw.sent htask hsend ⟨hw.mutexNodup, fun _ hk => hk⟩ (fun _ _ hk => hk) rfl rfl fun _ =>
      ⟨hmutex, hjob, hchecked⟩
  | submit id now creator order command thread htask hhead hsend =>
    refine hw.sent htask hsend ⟨hw.mutexNodup.erase id, fun k hk => List.mem_of_mem_erase hk⟩
      (fun k hk => (List.mem_erase_of_ne hk).2) rfl rfl fun hsent => ?_
    exact ⟨hw.mutexNodup.not_mem_erase, fun _ => hsent⟩
  | fail id now userId orderId stage e htask hstage =>
    have hmutex : id ∉ s.mutex := by
      rcases hstage with ⟨row, rfl⟩ | rfl
      · exact (hw.tasks id _ htask).1.1
      · exact (hw.tasks id _ htask).1.1
    exact hw.goTo htask ⟨hmutex, fun h => by cases h⟩
  | leave id a job stage stage' hjob htask hstage hends =>
    refine hw.leave htask ?_
    rcases hends with ⟨e, rfl⟩ | ⟨hcancel, rfl⟩ | ⟨-, -, rfl⟩
    · exact .inr ⟨_, rfl, fun h => by rw [hjob] at h; cases h⟩
    · exact .inl ⟨rfl, hjob⟩
    · exact .inr ⟨_, rfl, fun h => by rw [hjob] at h; cases h⟩
  | created id now userId request order htask horder =>
    -- `create_order` returns, and the task that it leaves behind is new
    obtain ⟨-, -, hchecked⟩ := (hw.tasks id _ htask).1
    have hleft : (s.leave id (.returned (.ok ()))).Wired := hw.leave htask (.inr ⟨_, rfl, fun h => by cases h⟩)
    refine hleft.spawn ⟨?_, request, userId, now, hchecked, horder⟩
    have hlength : (s.leave id (.returned (.ok ()))).tasks.length = s.tasks.length := length_goTo
    rw [hlength]
    exact lt_of_task htask
  | written id now userId orderId row htask hrow =>
    -- the tasks do not read the table
    obtain ⟨hmutex, -⟩ := (hw.tasks id _ htask).1
    have hw' : ({ s with writer := { s.writer with
        orders := s.writer.orders.update orderId fun row => { row with status := "cancelled" } } } : System).Wired :=
      ⟨hw.tasks, hw.mutexNodup, hw.mutexTask, hw.sentNodup, hw.sentTask⟩
    exact hw'.goTo htask ⟨hmutex, fun h => by cases h⟩
  | engine thread out hpass =>
    -- the thread takes from its channels, and what was sent stays
    have hsent := (EngineThread.pass_cases hpass).sent
    have htags : ({ s with thread, writer := { s.writer with dbRx := s.writer.dbRx ++ out } } : System).sentTags =
        s.sentTags := congrArg (List.map Request.tag) hsent
    refine ⟨fun id task htask => ?_, hw.mutexNodup, hw.mutexTask, by rw [htags]; exact hw.sentNodup, ?_⟩
    · rw [At, htags]
      exact hw.tasks id task htask
    · dsimp only
      rw [hsent]
      exact hw.sentTask
  | writer overdue db writer hpass =>
    exact ⟨hw.tasks, hw.mutexNodup, hw.mutexTask, hw.sentNodup, hw.sentTask⟩

theorem Wired.start (engine : Engine) (orders : OrdersTable) : (System.start engine orders).Wired where
  tasks id task h := by cases h
  mutexNodup := List.nodup_nil
  mutexTask id h := by cases h
  sentNodup := List.nodup_nil
  sentTask r h := by cases h

end Wired

end System

/-! ## Calls without interruption -/

/-- A request for a limit buy of SOL. -/
def buyRequest (orderId : OrderId) (price amount : Decimal) : CreateOrderRequest where
  orderId := some orderId
  orderType := .buy
  orderSide := .limit
  baseMint := "SOL"
  quoteMint := none
  price := some price
  amount := some amount
  quoteAmount := none

/-- A `create_order` as task `id` that returns before anything else happens: the engine thread
takes its balance request, answers and is at the top of its loop again. -/
def createCall (id : ℕ) (userId : UserId) (request : CreateOrderRequest) : List SystemAction :=
  [.call (.createOrder userId request), .poll id 0, .engine, .engine, .engine, .poll id 0]

end CexEngine
