import CexEngine.Abstract.Exchange
import CexEngine.Proof.Serial

/-!
# What a call comes to

* `Job.Asks`: the command of a job. `Job.After`: where a call is once it has an answer.
* `System.Goes`: how a task goes on, from stage to stage. `System.poll_polled`, `System.task_step`:
  what a poll and what any step does to the tasks.
* `System.Answered`: **a call gets past its command with the answer of the engine to it**.
-/

namespace CexEngine

/-- The command of a job; a `create_order` asks for the balance that its order is paid from. -/
def Job.Asks : Job → Command → Prop
  | .createOrder userId request, command =>
    ∃ mint required, request.requiredBalance = .ok (mint, required) ∧ command = .getBalance userId mint
  | job, command => job.Sends command

/-- Where a call is that has an answer. -/
def Job.After : Job → Answer → Stage → Prop
  | .createOrder _ request, .balance available _, .returned (.ok ()) =>
    ∃ mint required, request.requiredBalance = .ok (mint, required) ∧ required ≤ available
  | .createOrder _ request, .balance available _, .returned (.error (.insufficientBalance required available')) =>
    available' = available ∧ available < required ∧ ∃ mint, request.requiredBalance = .ok (mint, required)
  | .cancelOrder _ _, .cancelled (some _), stage =>
    stage = .writing ∨ stage = .returned (.ok ()) ∨
      stage = .returned (.error (.failed "Failed to update order status to cancelled"))
  | .cancelOrder _ _, .cancelled none, stage => stage = .returned (.error (.failed "Failed to cancel order in engine"))
  | .syncBalance _ _ _, .done ok, stage =>
    stage = .returned (if ok then .ok () else .error (.failed "Failed to sync balance"))
  | .getOrderbook _ _, .orderbook _ _, stage => stage = .returned (.ok ())
  | _, _, _ => False

/-- A stage at which a call has an answer of the engine. -/
def Stage.isAnswered : Stage → Bool
  | .writing => true
  | .returned (.ok ()) => true
  | .returned (.error (.insufficientBalance _ _)) => true
  | .returned (.error (.failed text)) =>
    text ∈ ["Failed to cancel order in engine", "Failed to update order status to cancelled", "Failed to sync balance"]
  | _ => false

theorem Job.opening_asks {job : Job} {command : Command} (h : job.opening = .locking command) : job.Asks command := by
  cases job with
  | createOrder userId request =>
    cases hcheck : (do request.validate; request.requiredBalance) with
    | error e =>
      simp only [opening, hcheck] at h
      cases h
    | ok r =>
      have hrequired : request.requiredBalance = .ok r := by
        cases hv : request.validate with
        | error e => rw [hv] at hcheck; cases hcheck
        | ok u => rw [hv] at hcheck; exact hcheck
      simp only [opening, hcheck] at h
      exact ⟨r.1, r.2, hrequired, (Stage.locking.inj h).symm⟩
  | submit creator order => cases h
  | cancelOrder userId orderId => cases h
  | syncBalance userId mint delta => exact (Stage.locking.inj h).symm
  | getOrderbook pair depth => exact (Stage.locking.inj h).symm

theorem Job.opening_unanswered (job : Job) : job.opening.isAnswered = false := by
  cases job with
  | createOrder userId request => rw [opening]; split <;> rfl
  | _ => rfl

/-- What `cancel_order` finds wrong with a row is no answer of the engine. -/
theorem cancellable_unanswered {userId : UserId} {row : Option OrderRow} {e : CallError}
    (h : cancellable userId row = .error e) : (Stage.returned (.error e)).isAnswered = false := by
  cases row with
  | none => obtain rfl := Except.error.inj h; decide
  | some row =>
    rw [cancellable] at h
    split_ifs at h <;> obtain rfl := Except.error.inj h <;> decide

/-- What a task has still to do at most, in polls. A `create_order` may leave a submission behind. -/
def Task.rank : Task → ℕ
  | ⟨job, stage⟩ =>
    match stage with
    | .started => if job.isSubmit then 2 else 8
    | .fetched _ => 7
    | .locking _ => if job.isSubmit then 1 else 6
    | .asking => 5
    | .writing => 2
    | .returned _ => 0

namespace System

variable {dv : Decimal → Decimal → Decimal} {cache : BalanceCache} {s s' : System} {a : SystemAction}

section Goes

variable {id : ℕ} {job : Job} {stage stage' : Stage}

/-- How a task goes on. -/
inductive Goes (s : System) (id : ℕ) (job : Job) : Stage → Stage → Prop where
  | reads (row : Option OrderRow) : Goes s id job .started (.fetched row)
  | asks (stage : Stage) (command : Command) (hasks : job.Asks command) : Goes s id job stage (.locking command)
  | sends (command : Command) : Goes s id job (.locking command) .asking
  | submits (command : Command) (hjob : job.isSubmit = true) : Goes s id job (.locking command) (.returned (.ok ()))
  | fails (stage : Stage) (e : CallError) (hfails : (Stage.returned (.error e)).isAnswered = false) :
      Goes s id job stage (.returned (.error e))
  | answered (reply : Reply) (stage : Stage) (hstage : stage.isAnswered = true) (hreply : s.reply id = some reply)
      (hafter : job.After reply.answer stage) : Goes s id job .asking stage
  | writes (stage : Stage) (hstage : stage.isAnswered = true)
      (hafter : ∀ answer, job.After answer .writing → job.After answer stage) : Goes s id job .writing stage

/-- A task that comes to an answer has it from the engine. -/
theorem Goes.after (h : s.Goes id job stage stage') (hjob : job.isSubmit = false) (hanswered : stage'.isAnswered = true) :
    (stage.isAnswered = true ∧ ∀ answer, job.After answer stage → job.After answer stage') ∨
      ∃ reply, s.reply id = some reply ∧ job.After reply.answer stage' := by
  cases h with
  | reads row => cases hanswered
  | asks stage command hasks => cases hanswered
  | sends command => cases hanswered
  | submits command hsubmit => exact absurd (hjob.symm.trans hsubmit) (by simp)
  | fails stage e hfails => exact absurd (hanswered.symm.trans hfails) (by simp)
  | answered reply stage _ hreply hafter => exact .inr ⟨reply, hreply, hafter⟩
  | writes stage _ hafter => exact .inl ⟨rfl, hafter⟩

/-- A task asks for the lock with the command of its job. -/
theorem Goes.asks_locking {command : Command} (h : s.Goes id job stage (.locking command)) : job.Asks command := by
  cases h with
  | asks stage command hasks => exact hasks
  | answered reply stage hstage => cases hstage
  | writes stage hstage => cases hstage

end Goes

/-! ## Steps -/

/-- The tasks after a poll: one moves on, and it may leave a submission behind. -/
inductive Polled (s : System) (id : ℕ) (task : Task) (stage : Stage) (tasks : List Task) : Prop where
  | moved (htasks : tasks = (s.goTo id stage).tasks) (hrank : Task.rank ⟨task.job, stage⟩ < task.rank)
  | spawned (order : OrderEntry) (htasks : tasks = (s.goTo id stage).tasks ++ [⟨.submit id order, .started⟩])
      (hrank : Task.rank ⟨task.job, stage⟩ + Task.rank ⟨.submit id order, .started⟩ < task.rank)

theorem answered_polled {id now : ℕ} {job : Job} {reply : Reply} (hreply : s.reply id = some reply)
    (h : s.answered id now job reply = some s') :
    ∃ stage, s.Polled id ⟨job, .asking⟩ stage s'.tasks ∧ s.Goes id job .asking stage := by
  -- a call that is answered has more to do than one that returns
  have hdone : ∀ stage tasks, Task.rank ⟨job, stage⟩ < Task.rank ⟨job, .asking⟩ → tasks = (s.goTo id stage).tasks →
      s.Goes id job .asking stage → ∃ stage, s.Polled id ⟨job, .asking⟩ stage tasks ∧ s.Goes id job .asking stage :=
    fun stage tasks hrank htasks hgoes => ⟨stage, .moved htasks hrank, hgoes⟩
  rw [answered.eq_def] at h
  split at h
  · rename_i userId request available locked
    obtain rfl := Option.some.inj h
    rw [finishCreate]
    split
    · exact hdone _ _ (by simp [Task.rank]) rfl (.fails _ _ rfl)
    · rename_i mint required hrequired
      split_ifs with hcovers
      · exact hdone _ _ (by simp [Task.rank]) rfl (.answered _ _ rfl hreply ⟨rfl, hcovers, mint, hrequired⟩)
      · split
        · exact hdone _ _ (by simp [Task.rank]) rfl (.fails _ _ rfl)
        · exact ⟨_, .spawned _ rfl (by simp [Task.rank, Job.isSubmit]),
            .answered _ _ rfl hreply ⟨mint, required, hrequired, not_lt.1 hcovers⟩⟩
  · obtain rfl := Option.some.inj h
    exact hdone _ _ (by simp [Task.rank]) rfl (.answered _ _ rfl hreply (.inl rfl))
  · obtain rfl := Option.some.inj h
    exact hdone _ _ (by simp [Task.rank]) rfl (.answered _ _ (by decide) hreply rfl)
  · obtain rfl := Option.some.inj h
    exact hdone _ _ (by simp [Task.rank]) rfl (.answered _ _ rfl hreply rfl)
  · obtain rfl := Option.some.inj h
    exact hdone _ _ (by simp [Task.rank]) rfl (.answered _ _ (by decide) hreply rfl)
  · obtain rfl := Option.some.inj h
    exact hdone _ _ (by simp [Task.rank]) rfl (.answered _ _ rfl hreply rfl)
  · cases h

/-- **A poll.** -/
theorem poll_polled {id now : ℕ} (h : s.poll id now = some s') :
    ∃ job stage stage', s.tasks[id]? = some ⟨job, stage⟩ ∧ s.Polled id ⟨job, stage⟩ stage' s'.tasks ∧
      s.Goes id job stage stage' := by
  rw [System.poll] at h
  cases htask : s.tasks[id]? with
  | none => rw [htask] at h; cases h
  | some task =>
    obtain ⟨job, stage⟩ := task
    rw [htask] at h
    refine ⟨job, stage, ?_⟩
    cases stage with
    | started =>
      cases job with
      | submit creator order =>
        obtain rfl := Option.some.inj h
        exact ⟨_, rfl, .moved rfl (by simp [Task.rank, Job.isSubmit]), .asks _ _ rfl⟩
      | cancelOrder userId orderId =>
        obtain rfl := Option.some.inj h
        exact ⟨_, rfl, .moved rfl (by simp [Task.rank, Job.isSubmit]), .reads _⟩
      | _ => cases h
    | fetched row =>
      cases job with
      | cancelOrder userId orderId =>
        dsimp only at h
        cases hok : cancellable userId row with
        | error e =>
          rw [hok] at h
          obtain rfl := Option.some.inj h
          exact ⟨_, rfl, .moved rfl (by simp [Task.rank]), .fails _ _ (cancellable_unanswered hok)⟩
        | ok pair =>
          rw [hok] at h
          obtain rfl := Option.some.inj h
          exact ⟨_, rfl, .moved rfl (by simp [Task.rank, Job.isSubmit]), .asks _ _ ⟨pair, rfl⟩⟩
      | _ => cases h
    | locking command =>
      dsimp only at h
      split_ifs at h with hhead
      rw [System.send] at h
      obtain ⟨thread, -, rfl⟩ := Option.map_eq_some_iff.1 h
      cases job with
      | submit creator order => exact ⟨_, rfl, .moved rfl (by simp [Task.rank, Job.isSubmit]), .submits _ rfl⟩
      | _ => exact ⟨_, rfl, .moved rfl (by simp [Task.rank, Job.isSubmit]), .sends _⟩
    | asking =>
      obtain ⟨reply, hreply, hanswered⟩ := Option.bind_eq_some_iff.1 h
      obtain ⟨stage', hpolled⟩ := answered_polled hreply hanswered
      exact ⟨stage', rfl, hpolled⟩
    | writing =>
      cases job with
      | cancelOrder userId orderId =>
        obtain rfl := Option.some.inj h
        -- its answer is that the order is cancelled
        have hafter : ∀ answer stage, (Job.cancelOrder userId orderId).After answer .writing →
            (stage = .returned (.ok ()) ∨
              stage = .returned (.error (.failed "Failed to update order status to cancelled"))) →
            (Job.cancelOrder userId orderId).After answer stage := by
          intro answer stage hwriting hstage
          cases answer with
          | cancelled order =>
            cases order with
            | some order => exact .inr hstage
            | none => cases hwriting
          | _ => exact hwriting.elim
        rw [writeCancelled]
        split
        · exact ⟨_, rfl, .moved rfl (by simp [Task.rank]), .writes _ (by decide) fun _ hw => hafter _ _ hw (.inr rfl)⟩
        · exact ⟨_, rfl, .moved rfl (by simp [Task.rank]), .writes _ rfl fun _ hw => hafter _ _ hw (.inl rfl)⟩
      | _ => cases h
    | returned answer => cases h

/-- **A task after a step** is new, or it is where it was, or it has gone on. -/
theorem task_step (h : s.step dv a = some s') {id : ℕ} {job : Job} {stage : Stage}
    (htask : s'.tasks[id]? = some ⟨job, stage⟩) :
    stage = job.opening ∨ ∃ stage₀, s.tasks[id]? = some ⟨job, stage₀⟩ ∧ (stage = stage₀ ∨ s.Goes id job stage₀ stage) := by
  -- a task that moves
  have hmoved : ∀ {k : ℕ} {job₀ : Job} {stage₀ stage₁ : Stage}, s.tasks[k]? = some ⟨job₀, stage₀⟩ →
      s.Goes k job₀ stage₀ stage₁ → (s.goTo k stage₁).tasks[id]? = some ⟨job, stage⟩ →
      ∃ stage₀, s.tasks[id]? = some ⟨job, stage₀⟩ ∧ (stage = stage₀ ∨ s.Goes id job stage₀ stage) := by
    intro k job₀ stage₀ stage₁ htask₀ hgoes hgo
    by_cases hk : id = k
    · subst hk
      rw [goTo_self htask₀] at hgo
      obtain ⟨rfl, rfl⟩ := Task.mk.inj (Option.some.inj hgo)
      exact ⟨stage₀, htask₀, .inr hgoes⟩
    · rw [goTo_ne hk] at hgo
      exact ⟨stage, hgo, .inl rfl⟩
  -- a task that is new
  have hnew : ∀ {tasks : List Task} {job₀ : Job}, (tasks ++ [⟨job₀, job₀.opening⟩])[id]? = some ⟨job, stage⟩ →
      stage = job.opening ∨ tasks[id]? = some ⟨job, stage⟩ := by
    intro tasks job₀ happend
    rw [List.getElem?_append] at happend
    split_ifs at happend
    · exact .inr happend
    · obtain ⟨rfl, rfl⟩ := Task.mk.inj (List.mem_singleton.1 (List.mem_of_getElem? happend))
      exact .inl rfl
  cases a with
  | poll k now =>
    obtain ⟨job₀, stage₀, stage₁, htask₀, hpolled, hgoes⟩ := poll_polled h
    cases hpolled with
    | moved htasks _ => exact .inr (hmoved htask₀ hgoes (htasks ▸ htask))
    | spawned order htasks _ =>
      rw [htasks] at htask
      exact (hnew htask).imp_right (hmoved htask₀ hgoes)
  | giveUp k =>
    rw [System.step, System.giveUp] at h
    split at h
    · cases h
    · cases h
    · cases h
    · obtain rfl := Option.some.inj h
      exact .inr (hmoved ‹_› (.fails _ _ rfl) htask)
  | call job₀ =>
    have hspawn : s' = s.spawn job₀ := by cases job₀ <;> first | exact (Option.some.inj h).symm | cases h
    subst hspawn
    exact (hnew htask).imp_right fun hold => ⟨stage, hold, .inl rfl⟩
  | engine =>
    obtain ⟨thread, out, -, rfl⟩ := engine_step h
    exact .inr ⟨stage, htask, .inl rfl⟩
  | writer overdue db =>
    obtain ⟨writer, -, rfl⟩ := Option.map_eq_some_iff.1 h
    exact .inr ⟨stage, htask, .inl rfl⟩

theorem jobs_step (h : s.step dv a = some s') : ∃ more, s'.jobs = s.jobs ++ more := by
  cases step_moves h with
  | spawn job => exact ⟨[job], jobs_spawn job⟩
  | created id now userId request order => exact ⟨[.submit id order], by rw [jobs_spawn]; exact congrArg (· ++ _) jobs_goTo⟩
  | engine => exact ⟨[], (List.append_nil _).symm⟩
  | writer => exact ⟨[], (List.append_nil _).symm⟩
  | _ => exact ⟨[], by rw [List.append_nil]; exact jobs_goTo⟩

/-! ## What is answered -/

/-- Every call has sent the command of its job, and goes on with the answer to it. -/
structure Answered (s : System) : Prop extends Running s where
  asks : ∀ (id : ℕ) (job : Job) (command : Command), s.tasks[id]? = some ⟨job, .locking command⟩ → job.Asks command
  sent : ∀ r ∈ s.thread.sent, ∀ job : Job, s.jobs[r.tag]? = some job → job.Asks r.command
  answered : ∀ (id : ℕ) (job : Job) (stage : Stage), s.tasks[id]? = some ⟨job, stage⟩ → job.isSubmit = false →
    stage.isAnswered = true → ∃ h ∈ s.thread.served, h.request.tag = id ∧ job.After h.reply.answer stage

theorem Answered.start (orders : OrdersTable) : (System.start (.start cache) orders).Answered where
  toRunning := .start cache orders
  asks id job command h := by cases h
  sent r hr := absurd hr List.not_mem_nil
  answered id job stage h := by cases h

/-- What the engine begins is what a task sends, and is admitted. -/
theorem Running.begun_sends (h : s.Running) {c : Command} (hc : c ∈ s.thread.commands) :
    ∃ job : Job, job.Sends c ∧ c.Validated := by
  obtain ⟨r, hr, rfl⟩ := List.mem_map.1 hc
  obtain ⟨task, htask, hsends⟩ := h.wired.sentTask r (h.accounted.once.subset (List.mem_append_left _ hr))
  exact ⟨task.job, hsends, hsends.validated (h.wired.tasks _ _ htask).2⟩

theorem Running.validated (h : s.Running) : ∀ c ∈ s.thread.commands, c.Validated := by
  intro c hc
  obtain ⟨-, -, hvalid⟩ := h.begun_sends hc
  exact hvalid

/-- The log of what is handled is only added to. -/
theorem served_extends (h : s.Running) (hstep : s.step dv a = some s') : s.thread.served <+: s'.thread.served := by
  rcases (step_moves hstep).thread_cases with ⟨out, hpass, -⟩ | hthread | ⟨r, hsend⟩
  · cases h.takes hpass with
    | nothing _ hserved => exact hserved ▸ List.prefix_rfl
    | command r _ _ _ _ _ _ hserves => exact hserves.served ▸ List.prefix_append _ _
  · exact hthread ▸ List.prefix_rfl
  · exact (EngineThread.served_send hsend).1 ▸ List.prefix_rfl

/-- What a step sends is the command that a task has asked for. -/
theorem sent_step (hstep : s.step dv a = some s') : s'.thread.sent = s.thread.sent ∨
    ∃ id job command, s.tasks[id]? = some ⟨job, .locking command⟩ ∧ s'.thread.sent = s.thread.sent ++ [⟨id, command⟩] := by
  cases step_moves hstep with
  | send id now job command thread _ htask _ hsend =>
    exact .inr ⟨id, job, command, htask, (EngineThread.send_eq hsend).1⟩
  | submit id now creator order command thread htask _ hsend =>
    exact .inr ⟨id, _, command, htask, (EngineThread.send_eq hsend).1⟩
  | engine thread out hpass => exact .inl (EngineThread.pass_cases hpass).sent
  | _ => exact .inl rfl

theorem mem_served_of_reply {id : ℕ} {reply : Reply} (h : s.reply id = some reply) :
    ∃ handled ∈ s.thread.served, handled.request.tag = id ∧ handled.reply = reply := by
  obtain ⟨handled, hfind, rfl⟩ := Option.map_eq_some_iff.1 h
  exact ⟨handled, List.mem_append_left _ (List.mem_of_find?_eq_some hfind), by simpa using List.find?_some hfind, rfl⟩

theorem Answered.step (h : s.Answered) (hstep : s.step dv a = some s') : s'.Answered where
  toRunning := h.toRunning.step hstep
  asks id job command htask := by
    rcases task_step hstep htask with hopening | ⟨stage₀, htask₀, rfl | hgoes⟩
    · exact Job.opening_asks hopening.symm
    · exact h.asks id job command htask₀
    · exact hgoes.asks_locking
  sent r hr job hjob := by
    obtain ⟨more, hjobs⟩ := jobs_step hstep
    have hold : ∀ {id : ℕ} {task : Task}, s.tasks[id]? = some task → s'.jobs[id]? = some task.job := by
      intro id task htask
      rw [hjobs, List.getElem?_append_left (by rw [length_jobs]; exact lt_of_task htask), task_job htask]
    rcases sent_step hstep with hsent | ⟨id, job₀, command, htask, hsent⟩
    · rw [hsent] at hr
      obtain ⟨task, htask, -⟩ := h.wired.sentTask r hr
      obtain rfl := Option.some.inj ((hold htask).symm.trans hjob)
      exact h.sent r hr task.job (task_job htask)
    · rw [hsent] at hr
      rcases List.mem_append.1 hr with hr | hr
      · obtain ⟨task, htask, -⟩ := h.wired.sentTask r hr
        obtain rfl := Option.some.inj ((hold htask).symm.trans hjob)
        exact h.sent r hr task.job (task_job htask)
      · obtain rfl := List.mem_singleton.1 hr
        obtain rfl := Option.some.inj ((hold htask).symm.trans hjob)
        exact h.asks id job₀ command htask
  answered id job stage htask hjob hanswered := by
    have hserved := (served_extends h.toRunning hstep).subset
    have hkept : ∀ {stage₀ : Stage}, s.tasks[id]? = some ⟨job, stage₀⟩ → stage₀.isAnswered = true →
        (∀ answer, job.After answer stage₀ → job.After answer stage) →
        ∃ handled ∈ s'.thread.served, handled.request.tag = id ∧ job.After handled.reply.answer stage := by
      intro stage₀ htask₀ hanswered₀ hafter
      obtain ⟨handled, hmem, htag, hafter₀⟩ := h.answered id job stage₀ htask₀ hjob hanswered₀
      exact ⟨handled, hserved hmem, htag, hafter _ hafter₀⟩
    rcases task_step hstep htask with rfl | ⟨stage₀, htask₀, rfl | hgoes⟩
    · exact absurd (hanswered.symm.trans job.opening_unanswered) (by simp)
    · exact hkept htask₀ hanswered fun _ hafter => hafter
    · rcases hgoes.after hjob hanswered with ⟨hanswered₀, hafter⟩ | ⟨reply, hreply, hafter⟩
      · exact hkept htask₀ hanswered₀ hafter
      · obtain ⟨handled, hmem, htag, rfl⟩ := mem_served_of_reply hreply
        exact ⟨handled, hserved hmem, htag, hafter⟩

end System

end CexEngine
