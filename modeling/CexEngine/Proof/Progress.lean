import Mathlib.Data.Prod.Lex
import Mathlib.Order.WellFounded
import CexEngine.Proof.Interleavings
import CexEngine.Proof.Serial

/-!
# The service gets its work done

Calls wait for the lock, for the engine and for each other: a call has the lock while it waits for
its reply. A sender waits while a channel is full.

* `Task.rank`, `EngineThread.distance`: what a task and the engine thread have still to do.
* `System.Productive`: a task, the engine thread or the DB writer goes on with something.
* `completes_run`: **the service never gets stuck, and it stops only when every call has returned,
  every acknowledged order has been handled and the DB writer has taken what it was sent.**
-/

namespace CexEngine

namespace EngineThread

variable {dv : Decimal → Decimal → Decimal} {t t' : EngineThread}

/-- Nothing has been closed or stopped. -/
structure Alive (t : EngineThread) : Prop where
  running : t.running = true
  orders : t.orderConnected = true ∧ t.orderClosed = false
  balances : t.balanceConnected = true ∧ t.balanceClosed = false
  phase : t.phase ≠ .again ∧ t.phase ≠ .exited

/-- The thread has nothing in its hands and nothing to read. -/
def isIdle (t : EngineThread) : Bool := t.inHand.isEmpty && t.orderRx.isEmpty && t.balanceRx.isEmpty

/-- The requests that wait. -/
def pending (t : EngineThread) : ℕ := t.orderRx.length + t.balanceRx.length

/-- The passes to the next request, if one waits. -/
def distance (t : EngineThread) : ℕ :=
  match t.phase with
  | .handling _ cmds => cmds.length + 2
  | .top => if t.balanceRx = [] then 1 else 0
  | .orders => if t.orderRx = [] then 1 else 0
  | _ => 0

theorem Alive.start (engine : Engine) : (EngineThread.start engine).Alive :=
  ⟨rfl, ⟨rfl, rfl⟩, ⟨rfl, rfl⟩, by constructor <;> exact fun h => by cases h⟩

theorem Alive.send {r : Request} (h : t.Alive) (hsend : t.send r = some t') : t'.Alive := by
  rw [EngineThread.send] at hsend
  split_ifs at hsend <;> obtain rfl := Option.some.inj hsend <;> exact ⟨h.running, h.orders, h.balances, h.phase⟩

/-- The channels of an idle thread have room. -/
theorem Alive.can_send (h : t.Alive) (hidle : t.isIdle = true) (r : Request) : ∃ t', t.send r = some t' := by
  simp only [isIdle, Bool.and_eq_true, List.isEmpty_iff] at hidle
  obtain ⟨⟨-, horders⟩, hbalances⟩ := hidle
  have hroom : ([] : List Request).length < channelCapacity := by decide
  cases hr : r.isBalance
  · exact ⟨{ t with orderRx := t.orderRx ++ [r], sent := t.sent ++ [r] },
      by rw [EngineThread.send, hr, if_neg Bool.false_ne_true, if_pos ⟨h.orders.1, horders ▸ hroom⟩]⟩
  · exact ⟨{ t with balanceRx := t.balanceRx ++ [r], sent := t.sent ++ [r] },
      by rw [EngineThread.send, hr, if_pos rfl, if_pos ⟨h.balances.1, hbalances ▸ hroom⟩]⟩

/-- **A pass** of a thread that is alive: it goes on, and if it is not idle it gets nearer to the
next request. -/
theorem Alive.pass (dv : Decimal → Decimal → Decimal) (h : t.Alive) : ∃ t' out, t.pass dv = some (t', out) ∧ t'.Alive ∧
    (t.isIdle = false → t'.pending < t.pending ∨ t'.pending = t.pending ∧ t'.distance < t.distance) := by
  obtain ⟨hrunning, ⟨horders, hordersOpen⟩, ⟨hbalances, hbalancesOpen⟩, hagain, hexited⟩ := h
  cases hphase : t.phase with
  | again => exact absurd hphase hagain
  | exited => exact absurd hphase hexited
  | handling done cmds =>
    cases cmds with
    | nil =>
      refine ⟨{ t with handled := t.handled ++ [done], phase := .top }, [], ?_, ⟨hrunning, ⟨horders, hordersOpen⟩,
        ⟨hbalances, hbalancesOpen⟩, ?_⟩, fun _ => .inr ⟨rfl, ?_⟩⟩
      · simp [EngineThread.pass, hphase]
      · constructor <;> exact fun h => by cases h
      · simp only [distance, hphase]
        split_ifs <;> simp
    | cons cmd cmds =>
      refine ⟨{ t with phase := .handling done cmds }, [cmd], ?_, ⟨hrunning, ⟨horders, hordersOpen⟩,
        ⟨hbalances, hbalancesOpen⟩, ?_⟩, fun _ => .inr ⟨rfl, ?_⟩⟩
      · simp [EngineThread.pass, hphase]
      · constructor <;> exact fun h => by cases h
      · simp [distance, hphase]
  | top =>
    cases hrx : t.balanceRx with
    | cons r rest =>
      refine ⟨{ t with balanceRx := rest }.handle dv r, [], ?_, ⟨hrunning, ⟨horders, hordersOpen⟩,
        ⟨hbalances, hbalancesOpen⟩, ?_⟩, fun _ => .inl ?_⟩
      · simp [EngineThread.pass, hphase, hrunning, hbalancesOpen, hrx]
      · constructor <;> exact fun h => by cases h
      · simp [pending, hrx, EngineThread.handle]
    | nil =>
      refine ⟨t.toOrders, [], ?_, ⟨hrunning, ⟨horders, hordersOpen⟩, ⟨hbalances, hbalancesOpen⟩, ?_⟩,
        fun hidle => .inr ⟨rfl, ?_⟩⟩
      · simp [EngineThread.pass, hphase, hrunning, hbalancesOpen, hrx, hbalances]
      · rw [toOrders, hordersOpen]
        constructor <;> exact fun h => by cases h
      · -- an order waits
        have hne : t.orderRx ≠ [] := fun ho => by
          simp [isIdle, inHand, hphase, ho, hrx] at hidle
        simp [distance, toOrders, hordersOpen, hphase, hrx, hne]
  | orders =>
    cases hrx : t.orderRx with
    | cons r rest =>
      refine ⟨{ t with orderRx := rest }.handle dv r, [], ?_, ⟨hrunning, ⟨horders, hordersOpen⟩,
        ⟨hbalances, hbalancesOpen⟩, ?_⟩, fun _ => .inl ?_⟩
      · simp [EngineThread.pass, hphase, hrx, received, hrunning]
      · constructor <;> exact fun h => by cases h
      · simp [pending, hrx, EngineThread.handle]
    | nil =>
      refine ⟨{ t with phase := .top }, [], ?_, ⟨hrunning, ⟨horders, hordersOpen⟩, ⟨hbalances, hbalancesOpen⟩, ?_⟩,
        fun hidle => .inr ⟨rfl, ?_⟩⟩
      · simp [EngineThread.pass, hphase, hrx, horders, hbalancesOpen]
      · constructor <;> exact fun h => by cases h
      · -- a deposit waits
        have hne : t.balanceRx ≠ [] := fun hb => by
          simp [isIdle, inHand, hphase, hb, hrx] at hidle
        simp [distance, hphase, hrx, hne]

/-- Every reply is one of an engine to the command. -/
theorem mem_serve : ∀ {rs : List Request} {engine : Engine} {h : Handled}, h ∈ engine.serve dv rs →
    ∃ e : Engine, h.reply = (e.handle dv h.request.command).2 := by
  intro rs
  induction rs with
  | nil => intro engine h hh; exact absurd hh List.not_mem_nil
  | cons r rs ih =>
    intro engine h hh
    rcases List.mem_cons.1 hh with rfl | hh
    · exact ⟨engine, rfl⟩
    · exact ih hh

/-- A thread that is alive and idle has handled whatever was sent. -/
theorem Serial.all_handled {origin : Engine} (h : t.Serial dv origin) (halive : t.Alive) (hidle : t.isIdle = true) :
    t.served = t.handled ∧ ∀ r ∈ t.sent, r ∈ t.begun := by
  simp only [isIdle, Bool.and_eq_true, List.isEmpty_iff] at hidle
  obtain ⟨⟨hhand, horders⟩, hbalances⟩ := hidle
  obtain ⟨dropped, horder, hdropped⟩ := h.order
  obtain rfl : dropped = [] := hdropped.resolve_right fun hgone => halive.phase.2 hgone.2.1
  refine ⟨by rw [EngineThread.served, hhand, List.append_nil], fun r hr => ?_⟩
  cases hkind : r.isBalance with
  | true =>
    have hmem : r ∈ t.sent.filter Request.isBalance := List.mem_filter.2 ⟨hr, hkind⟩
    rw [h.balance, hbalances, List.append_nil] at hmem
    exact (List.mem_filter.1 hmem).1
  | false =>
    have hmem : r ∈ t.sent.filter fun r => !r.isBalance := List.mem_filter.2 ⟨hr, by rw [hkind]; rfl⟩
    rw [horder, horders, List.append_nil, List.append_nil] at hmem
    exact (List.mem_filter.1 hmem).1

end EngineThread

/-- The stages that a job waits at. -/
def Job.waits (job : Job) : Stage → Bool
  | .started => job.isSubmit || job.isCancel
  | .fetched _ => job.isCancel
  | .writing => job.isCancel
  | _ => true

theorem Job.opening_waits {job : Job} (hjob : job.isSubmit = false) :
    job.waits job.opening = true ∧ job.opening ≠ .asking := by
  rcases job.opening_cases with ⟨command, ho, -⟩ | ⟨ho, hcreate⟩ | ⟨e, ho, -⟩
  · rw [ho]
    exact ⟨rfl, fun hc => by cases hc⟩
  · rw [ho]
    refine ⟨?_, fun hc => by cases hc⟩
    cases job with
    | submit creator order => cases hjob
    | cancelOrder userId orderId => rfl
    | createOrder userId request => cases hcreate
    | _ => cases ho
  · rw [ho]
    exact ⟨rfl, fun hc => by cases hc⟩

namespace System

variable {dv : Decimal → Decimal → Decimal} {cache : BalanceCache} {s s' : System} {a : SystemAction}

/-- What keeps the service going. -/
structure Going (dv : Decimal → Decimal → Decimal) (cache : BalanceCache) (s : System) : Prop extends
    Running s, Piped dv (.start cache) s where
  alive : s.thread.Alive
  waits : ∀ (id : ℕ) (job : Job) (stage : Stage), s.tasks[id]? = some ⟨job, stage⟩ → job.waits stage = true
  asked : ∀ (id : ℕ) (job : Job), s.tasks[id]? = some ⟨job, .asking⟩ → id ∈ s.sentTags
  writer : s.writer.connected = true ∧ s.writer.phase ≠ .exited

/-- A task, the engine thread or the DB writer goes on with something. -/
def Productive (s : System) : SystemAction → Prop
  | .poll _ _ => True
  | .engine => s.thread.isIdle = false
  | .writer _ _ => s.writer.dbRx ≠ []
  | _ => False

/-- Every call has returned, every spawned task as well, the engine thread is idle and the DB writer
has taken what it was sent. -/
structure Done (s : System) : Prop where
  returned : ∀ task ∈ s.tasks, task.stage.isReturned = true
  idle : s.thread.isIdle = true
  taken : s.writer.dbRx = []

/-- What the tasks, the engine thread and the DB writer have still to do. -/
def work (s : System) : ℕ ×ₗ ℕ ×ₗ ℕ ×ₗ ℕ :=
  toLex ((s.tasks.map Task.rank).sum, toLex (s.thread.pending, toLex (s.thread.distance, s.writer.toExit)))

/-! ## Going on -/

theorem task_goTo {id k : ℕ} {stage : Stage} {task : Task} (h : (s.goTo id stage).tasks[k]? = some task) :
    s.tasks[k]? = some task ∨ k = id ∧ ∃ task₀, s.tasks[id]? = some task₀ ∧ task = ⟨task₀.job, stage⟩ := by
  by_cases hk : k = id
  · subst hk
    cases htask : s.tasks[k]? with
    | none =>
      rw [goTo] at h
      simp [htask] at h
    | some task₀ =>
      rw [goTo_self htask] at h
      exact .inr ⟨rfl, task₀, rfl, (Option.some.inj h).symm⟩
  · rw [goTo_ne hk] at h
    exact .inl h

theorem task_append {k : ℕ} {tasks : List Task} {task new : Task} (h : (tasks ++ [new])[k]? = some task) :
    tasks[k]? = some task ∨ task = new := by
  rw [List.getElem?_append] at h
  split_ifs at h
  · exact .inl h
  · exact .inr (List.mem_singleton.1 (List.mem_of_getElem? h))

/-- Where tasks wait; one that waits for a reply has sent its command. -/
structure Waits (s : System) : Prop where
  stages : ∀ (id : ℕ) (job : Job) (stage : Stage), s.tasks[id]? = some ⟨job, stage⟩ → job.waits stage = true
  asked : ∀ (id : ℕ) (job : Job), s.tasks[id]? = some ⟨job, .asking⟩ → id ∈ s.sentTags

/-- A task moves to a place where it waits; what was sent stays sent. -/
theorem Waits.moved {k : ℕ} {task₀ : Task} {stage₁ : Stage} (h : s.Waits) (htask₀ : s.tasks[k]? = some task₀)
    (hwaits : task₀.job.waits stage₁ = true) (hsent : s.sentTags ⊆ s'.sentTags)
    (hasked : stage₁ = .asking → k ∈ s'.sentTags) (htasks : s'.tasks = (s.goTo k stage₁).tasks) : s'.Waits where
  stages id job stage htask := by
    rw [htasks] at htask
    rcases task_goTo htask with htask | ⟨-, task, htask, heq⟩
    · exact h.stages id job stage htask
    · obtain rfl := Option.some.inj (htask₀.symm.trans htask)
      obtain ⟨rfl, rfl⟩ := Task.mk.inj heq
      exact hwaits
  asked id job htask := by
    rw [htasks] at htask
    rcases task_goTo htask with htask | ⟨rfl, task, htask, heq⟩
    · exact hsent (h.asked id job htask)
    · exact hasked (Task.mk.inj heq).2.symm

/-- The same where nothing is sent. -/
theorem Waits.goTo {k : ℕ} {task₀ : Task} {stage₁ : Stage} (h : s.Waits) (htask₀ : s.tasks[k]? = some task₀)
    (hwaits : task₀.job.waits stage₁ = true) (hasking : stage₁ ≠ .asking) (hsent : s'.sentTags = s.sentTags)
    (htasks : s'.tasks = (s.goTo k stage₁).tasks) : s'.Waits :=
  h.moved htask₀ hwaits (fun _ hid => hsent ▸ hid) (fun hc => absurd hc hasking) htasks

/-- A task that is new. -/
theorem Waits.spawned (h : s.Waits) (new : Task) (hwaits : new.job.waits new.stage = true)
    (hasking : new.stage ≠ .asking) (hsent : s'.sentTags = s.sentTags) (htasks : s'.tasks = s.tasks ++ [new]) :
    s'.Waits where
  stages id job stage htask := by
    rw [htasks] at htask
    rcases task_append htask with htask | rfl
    · exact h.stages id job stage htask
    · exact hwaits
  asked id job htask := by
    rw [htasks] at htask
    rw [hsent]
    rcases task_append htask with htask | rfl
    · exact h.asked id job htask
    · exact absurd rfl hasking

/-- Where the tasks wait after a step. -/
theorem Waits.step (h : s.Waits) (hstep : s.step dv a = some s') : s'.Waits := by
  cases step_moves hstep with
  | spawn job hjob =>
    obtain ⟨hwaits, hasking⟩ := Job.opening_waits hjob
    exact h.spawned ⟨job, job.opening⟩ hwaits hasking rfl rfl
  | fetch id now userId orderId htask => exact h.goTo htask rfl (fun hc => by cases hc) rfl rfl
  | joinSubmit id now creator order htask => exact h.goTo htask rfl (fun hc => by cases hc) rfl rfl
  | joinCancel id now userId orderId row pair htask => exact h.goTo htask rfl (fun hc => by cases hc) rfl rfl
  | send id now job command thread hjob htask hhead hsend =>
    have hsent := (EngineThread.send_eq hsend).1
    refine h.moved htask rfl ?_ (fun _ => ?_) rfl
    · rw [sentTags, sentTags]
      change _ ⊆ thread.sent.map Request.tag
      rw [hsent, List.map_append]
      exact List.subset_append_left _ _
    · change id ∈ thread.sent.map Request.tag
      rw [hsent, List.map_append]
      exact List.mem_append_right _ (List.mem_singleton_self _)
  | submit id now creator order command thread htask hhead hsend =>
    refine h.moved htask rfl ?_ (fun hc => by cases hc) rfl
    rw [sentTags, sentTags]
    change _ ⊆ thread.sent.map Request.tag
    rw [(EngineThread.send_eq hsend).1, List.map_append]
    exact List.subset_append_left _ _
  | fail id now userId orderId stage e htask => exact h.goTo htask rfl (fun hc => by cases hc) rfl rfl
  | leave id a job stage stage' hjob htask hstage hends =>
    rcases hends with ⟨e, rfl⟩ | ⟨hcancel, rfl⟩ | ⟨-, -, rfl⟩
    · exact h.goTo htask rfl (fun hc => by cases hc) rfl rfl
    · exact h.goTo htask (show job.waits .writing = true from hcancel) (fun hc => by cases hc) rfl rfl
    · exact h.goTo htask rfl (fun hc => by cases hc) rfl rfl
  | created id now userId request order htask =>
    have hleft : (s.leave id (.returned (.ok ()))).Waits := h.goTo htask rfl (fun hc => by cases hc) rfl rfl
    exact hleft.spawned ⟨.submit id order, .started⟩ rfl (fun hc => by cases hc) rfl rfl
  | written id now userId orderId row htask => exact h.goTo htask rfl (fun hc => by cases hc) rfl rfl
  | engine thread out hpass =>
    refine ⟨h.stages, fun id job htask => ?_⟩
    change id ∈ thread.sent.map Request.tag
    rw [(EngineThread.pass_cases hpass).sent]
    exact h.asked id job htask
  | writer => exact ⟨h.stages, h.asked⟩

theorem Going.step (h : s.Going dv cache) (hstep : s.step dv a = some s') : s'.Going dv cache where
  toRunning := h.toRunning.step hstep
  toPiped := h.toPiped.step hstep
  alive := by
    rcases (step_moves hstep).thread_cases with ⟨out, hpass, -⟩ | hthread | ⟨r, hsend⟩
    · obtain ⟨t', out', hpass', halive, -⟩ := h.alive.pass dv
      obtain ⟨rfl, -⟩ := Prod.mk.inj (Option.some.inj (hpass'.symm.trans hpass))
      exact halive
    · exact hthread ▸ h.alive
    · exact h.alive.send hsend
  waits := (Waits.step ⟨h.waits, h.asked⟩ hstep).stages
  asked := (Waits.step ⟨h.waits, h.asked⟩ hstep).asked
  writer := by
    cases step_moves hstep with
    | writer overdue db writer hpass =>
      refine ⟨(DbWriter.pass_connected hpass).trans h.writer.1, fun hexit => ?_⟩
      have hclosed := (DbWriter.pass_exited hpass hexit).2.1
      rw [h.writer.1] at hclosed
      cases hclosed
    | _ => exact h.writer

theorem Going.start (dv : Decimal → Decimal → Decimal) (cache : BalanceCache) (orders : OrdersTable) :
    (System.start (.start cache) orders).Going dv cache where
  toRunning := Running.start cache orders
  toPiped := Piped.start (.start cache) orders
  alive := EngineThread.Alive.start _
  waits id job stage htask := by cases htask
  asked id job htask := by cases htask
  writer := ⟨rfl, fun h => by cases h⟩

/-! ## Work gets less -/

theorem sum_rank_modify (f : Task → Task) : ∀ {l : List Task} {k : ℕ} {task : Task}, l[k]? = some task →
    ((l.modify k f).map Task.rank).sum + task.rank = (l.map Task.rank).sum + (f task).rank := by
  intro l
  induction l with
  | nil => intro k task h; cases h
  | cons x l ih =>
    intro k task h
    cases k with
    | zero =>
      obtain rfl := Option.some.inj h
      simp only [List.modify_zero_cons, List.map_cons, List.sum_cons]
      omega
    | succ k =>
      have := ih h
      simp only [List.modify_succ_cons, List.map_cons, List.sum_cons]
      omega

theorem sum_rank_goTo {id : ℕ} {task : Task} (stage : Stage) (htask : s.tasks[id]? = some task) :
    ((s.goTo id stage).tasks.map Task.rank).sum + task.rank = (s.tasks.map Task.rank).sum + Task.rank ⟨task.job, stage⟩ :=
  sum_rank_modify _ htask

/-- A poll brings the tasks further. -/
theorem poll_work {id now : ℕ} (h : s.poll id now = some s') :
    (s'.tasks.map Task.rank).sum < (s.tasks.map Task.rank).sum := by
  obtain ⟨job, stage, stage', htask, hpolled, -⟩ := poll_polled h
  have hgo := sum_rank_goTo stage' htask
  cases hpolled with
  | moved htasks hrank =>
    rw [htasks]
    dsimp only at hgo hrank
    omega
  | spawned order htasks hrank =>
    rw [htasks, List.map_append, List.sum_append, List.map_singleton, List.sum_singleton]
    dsimp only at hgo hrank
    omega

/-- **A productive step lowers the work.** -/
theorem Going.lowers (h : s.Going dv cache) (ha : s.Productive a) (hstep : s.step dv a = some s') : s'.work < s.work := by
  cases a with
  | poll id now => exact Prod.Lex.toLex_lt_toLex.2 (.inl (poll_work hstep))
  | engine =>
    obtain ⟨thread, out, hpass, rfl⟩ := engine_step hstep
    obtain ⟨t', out', hpass', -, hless⟩ := h.alive.pass dv
    obtain ⟨rfl, -⟩ := Prod.mk.inj (Option.some.inj (hpass'.symm.trans hpass))
    refine Prod.Lex.toLex_lt_toLex.2 (.inr ⟨rfl, Prod.Lex.toLex_lt_toLex.2 ?_⟩)
    exact (hless ha).imp_right fun hless => ⟨hless.1, Prod.Lex.toLex_lt_toLex.2 (.inl hless.2)⟩
  | writer overdue db =>
    -- a command is taken, and the rest is as it was
    obtain ⟨writer, hpass, rfl⟩ := Option.map_eq_some_iff.1 hstep
    refine Prod.Lex.toLex_lt_toLex.2 (.inr ⟨rfl, Prod.Lex.toLex_lt_toLex.2 (.inr ⟨rfl, ?_⟩)⟩)
    exact Prod.Lex.toLex_lt_toLex.2 (.inr ⟨rfl, DbWriter.pass_toExit hpass (.inl ha)⟩)
  | _ => exact ha.elim

/-! ## Something can be done -/

/-- An idle engine thread has answered every task that asks, with a reply to its command. -/
theorem Going.reply (h : s.Going dv cache) (hidle : s.thread.isIdle = true) {id : ℕ} {job : Job}
    (htask : s.tasks[id]? = some ⟨job, .asking⟩) :
    ∃ (command : Command) (engine : Engine), job.Sends command ∧ s.reply id = some (engine.handle dv command).2 := by
  obtain ⟨hserved, hbegun⟩ := h.serial.all_handled h.alive hidle
  obtain ⟨r, hr, htag⟩ := List.mem_map.1 (h.asked id job htask)
  have hsome : (s.thread.handled.find? fun handled => handled.request.tag = id).isSome = true := by
    obtain ⟨handled, hmem, hrequest⟩ := List.mem_map.1 (hbegun r hr)
    rw [hserved] at hmem
    exact List.find?_isSome.2 ⟨handled, hmem, by simpa [hrequest] using htag⟩
  obtain ⟨handled, hfind⟩ := Option.isSome_iff_exists.1 hsome
  have htag' : handled.request.tag = id := by simpa using List.find?_some hfind
  have hmem : handled ∈ s.thread.served := by
    rw [hserved]
    exact List.mem_of_find?_eq_some hfind
  -- the request is the one of this task
  have hsent := h.accounted.once.subset
    (List.mem_append_left (s.thread.orderRx ++ s.thread.balanceRx) (List.mem_map_of_mem (f := Handled.request) hmem))
  obtain ⟨task, htask', hsends⟩ := h.wired.sentTask _ hsent
  rw [htag', htask] at htask'
  obtain rfl := Option.some.inj htask'
  rw [h.serial.served] at hmem
  obtain ⟨engine, hreply⟩ := EngineThread.mem_serve hmem
  exact ⟨handled.request.command, engine, hsends, by rw [System.reply, hfind, Option.map_some, hreply]⟩

/-- A task goes on with a reply to its command. -/
theorem answered_isSome {job : Job} {command : Command} (engine : Engine) (id now : ℕ) (hjob : job.isSubmit = false)
    (hsends : job.Sends command) : ∃ s', s.answered id now job (engine.handle dv command).2 = some s' := by
  cases job with
  | submit creator order => cases hjob
  | createOrder userId request =>
    obtain ⟨mint, rfl⟩ := hsends
    exact ⟨_, rfl⟩
  | cancelOrder userId orderId =>
    obtain ⟨pair, rfl⟩ := hsends
    simp only [Engine.handle]
    cases (handleCancelOrder engine orderId userId pair).answer <;> exact ⟨_, rfl⟩
  | syncBalance userId mint delta =>
    obtain rfl := hsends
    simp only [Engine.handle]
    cases (handleUpdateBalance engine userId mint delta).2 <;> exact ⟨_, rfl⟩
  | getOrderbook pair depth =>
    obtain rfl := hsends
    exact ⟨_, rfl⟩

/-- A task that is not done and whose turn it is goes on, if the engine thread is idle. -/
theorem Going.can_poll (h : s.Going dv cache) (hidle : s.thread.isIdle = true) {id : ℕ} {job : Job} {stage : Stage}
    (htask : s.tasks[id]? = some ⟨job, stage⟩) (hstage : stage.isReturned = false)
    (hturn : id ∈ s.mutex → s.mutex.head? = some id) : ∃ s', s.poll id 0 = some s' := by
  have hat := (h.wired.tasks id _ htask).1
  have hwaits := h.waits id job stage htask
  rw [System.poll, htask]
  cases stage with
  | started =>
    cases job with
    | submit creator order => exact ⟨_, rfl⟩
    | cancelOrder userId orderId => exact ⟨_, rfl⟩
    | _ => cases hwaits
  | fetched row =>
    cases job with
    | cancelOrder userId orderId =>
      dsimp only
      cases cancellable userId row <;> exact ⟨_, rfl⟩
    | _ => cases hwaits
  | locking command =>
    obtain ⟨thread, hsend⟩ := h.alive.can_send hidle ⟨id, command⟩
    dsimp only
    rw [if_pos (hturn hat.1), System.send, hsend]
    exact ⟨_, rfl⟩
  | asking =>
    obtain ⟨command, engine, hsends, hreply⟩ := h.reply hidle htask
    obtain ⟨s', hanswered⟩ := answered_isSome engine id 0 hat.2.1 hsends
    exact ⟨s', by dsimp only; rw [hreply]; exact hanswered⟩
  | writing =>
    cases job with
    | cancelOrder userId orderId => exact ⟨_, rfl⟩
    | _ => cases hwaits
  | returned answer => cases hstage

/-- **The service is done, or something can be done.** -/
theorem Going.progress (h : s.Going dv cache) :
    s.Done ∨ ∃ a s', s.Productive a ∧ s.step dv a = some s' := by
  -- the writer takes what waits for it
  by_cases htaken : s.writer.dbRx = []
  swap
  · obtain ⟨writer, hwriter⟩ := DbWriter.exists_pass (fun _ => .ok) false h.writer.2
    exact .inr ⟨.writer false fun _ => .ok, _, htaken, by rw [System.step, hwriter]; rfl⟩
  cases hidle : s.thread.isIdle with
  | false =>
    obtain ⟨thread, out, hpass, -⟩ := h.alive.pass dv
    have haccept := (s.writer.accept_or_full out).resolve_right fun hne => hne htaken
    exact .inr ⟨.engine, _, hidle, by rw [System.step, hpass, Option.bind_some, haccept]; rfl⟩
  | true =>
    by_cases hreturned : ∀ task ∈ s.tasks, task.stage.isReturned = true
    · exact .inl ⟨hreturned, hidle, htaken⟩
    right
    simp only [not_forall] at hreturned
    obtain ⟨⟨job, stage⟩, hmem, hstage⟩ := hreturned
    obtain ⟨id, htask⟩ := List.mem_iff_getElem?.1 hmem
    -- the holder of the lock goes first
    cases hmutex : s.mutex.head? with
    | none =>
      rw [List.head?_eq_none_iff] at hmutex
      obtain ⟨s', hpoll⟩ := h.can_poll hidle htask (by simpa using hstage) fun hid => by
        rw [hmutex] at hid
        exact absurd hid List.not_mem_nil
      exact ⟨.poll id 0, s', trivial, hpoll⟩
    | some holder =>
      have hholder : holder ∈ s.mutex := List.mem_of_head? hmutex
      have hlt := h.wired.mutexTask holder hholder
      obtain ⟨⟨job₀, stage₀⟩, htask₀⟩ : ∃ task, s.tasks[holder]? = some task := ⟨_, List.getElem?_eq_getElem hlt⟩
      have hstage₀ : stage₀.isReturned = false := by
        cases stage₀ with
        | returned answer => exact absurd hholder (h.wired.tasks holder _ htask₀).1.1
        | _ => rfl
      obtain ⟨s', hpoll⟩ := h.can_poll hidle htask₀ hstage₀ fun _ => hmutex
      exact ⟨.poll holder 0, s', trivial, hpoll⟩

/-- When the service is done, every order that was acknowledged has been handled. -/
theorem Going.all_begun (h : s.Going dv cache) (hdone : s.Done) {id creator : ℕ} {order : OrderEntry}
    (hjob : s.jobs[id]? = some (.submit creator order)) : id ∈ s.begunTags := by
  obtain ⟨stage, htask⟩ := job_task hjob
  have hreturned := hdone.returned _ (List.mem_of_getElem? htask)
  have hsent : id ∈ s.sentTags := by
    have hat := (h.wired.tasks id _ htask).1
    cases stage with
    | returned answer => exact hat.2 rfl
    | _ => cases hreturned
  obtain ⟨r, hr, rfl⟩ := List.mem_map.1 hsent
  exact List.mem_map_of_mem ((h.serial.all_handled h.alive hdone.idle).2 r hr)

end System

end CexEngine
