import Mathlib.Algebra.BigOperators.Intervals
import CexEngine.Proof.Conservation
import CexEngine.Proof.Escrow
import CexEngine.Proof.Taken

/-!
# Acknowledged orders

`create_order` compares an order with the balance that the engine answers, gives the lock back
and answers `Ok`; the engine locks the balance when it takes the submission.

* `System.owed`: what the orders that are acknowledged and not yet taken will lock.
* `keepsPromises_run`: **no acknowledged order is refused when the engine takes it**, if every
  order is acknowledged when the available balance covers it beyond what is owed.
* `keepsPromises_not`: two orders that are checked against the same balance.
-/

namespace CexEngine

variable {dv : Decimal → Decimal → Decimal} {s : Engine} {order : OrderEntry} {u : UserId} {m : Mint}

/-! ## What a command leaves available -/

namespace BalanceCache

/-- Trades take nothing from what is available, done or not. -/
theorem available_executeTrades (skip : Bool) (u : UserId) (m : Mint) : ∀ (ts : List MatchResult) (c : BalanceCache),
    Positive ts → c.available u m ≤ (c.executeTrades skip ts).1.available u m := by
  intro ts
  induction ts with
  | nil => intro c _; exact le_rfl
  | cons t ts ih =>
    intro c h
    obtain ⟨hp, ha⟩ := h t List.mem_cons_self
    have hone : c.available u m ≤ (c.executeTrade t skip).1.available u m := by
      have hquote : 0 ≤ posting t.sellerId t.quoteMint t.totalValue u m := posting_nonneg (Arithmetic.mul_nonneg hp ha)
      have hbase : 0 ≤ posting t.buyerId t.baseMint t.amount u m := posting_nonneg ha
      rcases executeTrade_cases c t skip with ⟨-, -, hsame⟩ | ⟨-, -, -, hm⟩ | ⟨-, -, -, hm⟩
      · rw [hsame.available]
      · rw [hm.available]
        linarith
      · rw [hm.available, MatchResult.credit]
        linarith
    exact hone.trans (ih _ h.tail)

theorem available_unlock (c : BalanceCache) (user : UserId) (mint : Mint) {amount : Decimal} (h : 0 ≤ amount) :
    c.available u m ≤ (c.unlockBalanceForCancel user mint amount).1.available u m := by
  rw [(unlockBalanceForCancel_eq c user mint amount).1]
  rcases unlockBalance_cases c user mint amount with ⟨-, -, hsame⟩ | ⟨-, -, hm⟩
  · rw [hsame.available]
  · rw [hm.available]
    exact le_add_of_nonneg_right (posting_nonneg h)

theorem available_release (c : BalanceCache) (user : UserId) (mint : Mint) (amount : Decimal) :
    c.available u m ≤ (c.release user mint amount).1.available u m := by
  unfold release
  split_ifs with h
  · exact c.available_unlock user mint h.le
  · exact le_rfl

theorem available_addAvailable (c : BalanceCache) (user : UserId) (mint : Mint) {delta : Decimal} (h : 0 ≤ delta) :
    c.available u m ≤ (c.addAvailable user mint delta).available u m := by
  have hput : ∀ x, c.available user mint ≤ x →
      c.available u m ≤ (c.put user mint { c.entry user mint with available := x }).available u m := by
    intro x hx
    rw [moves_put.available]
    exact le_add_of_nonneg_right (posting_nonneg (sub_nonneg.2 hx))
  unfold addAvailable
  dsimp only
  split_ifs with hneg
  · apply hput
    change c.available user mint + delta < 0 at hneg
    linarith
  · apply hput
    change c.available user mint ≤ c.available user mint + delta
    linarith

end BalanceCache

/-- A submit takes its lock from what is available, and nothing else. -/
theorem available_submit (hk : order.Kind) (hplaced : s.Placed) : s.balanceCache.available u m -
      posting order.userId order.lock.1 order.lock.2 u m ≤
    (processSubmitOrder dv s order).engine.balanceCache.available u m := by
  rcases processSubmitOrder_cases dv s hk with hr | ⟨cache, book, settled, counted, released, hg⟩
  · rw [hr.balances.available]
    exact sub_le_self _ (posting_nonneg hk.lock_pos.le)
  have hpos := matching_positive dv hk hplaced.ordersNonneg
  have hlock : cache.available u m =
      s.balanceCache.available u m - posting order.userId order.lock.1 order.lock.2 u m := by
    rw [hg.locked.available]
    unfold posting
    split_ifs <;> ring
  have htrades : cache.available u m ≤ settled.1.available u m := by
    rw [hg.trades]
    exact BalanceCache.available_executeTrades _ u m _ cache hpos
  have hrelease : settled.1.available u m ≤ released.1.available u m := by
    rw [hg.release]
    split_ifs
    · exact settled.1.available_release _ _ _
    · exact le_rfl
  rw [hg.engine]
  dsimp only
  linarith

theorem available_cancel {orderId : OrderId} {userId : UserId} {pair : TradingPair} (hplaced : s.Placed) :
    s.balanceCache.available u m ≤ (handleCancelOrder s orderId userId pair).engine.balanceCache.available u m := by
  rcases handleCancelOrder_cases s orderId userId pair with hn | ⟨book, buys, price, order, unlocked, hf, ht⟩
  · rw [hn.engine]
  have hmem : (price, order) ∈ (book.side buys).stock := by
    rw [OrderBookSide.stock_takeOut ht.located]
    exact Multiset.mem_cons_self _ _
  have hbook := Engine.orderbook_of_lookup ht.found
  have hrests := hplaced pair buys (price, order) (by rw [hbook]; exact hmem)
  rw [ht.engine, ht.unlock]
  exact s.balanceCache.available_unlock _ _ hrests.unlock_pos.le

/-- What a task locks when the engine takes its command. -/
def Job.locks : Job → UserId → Mint → Decimal
  | .submit _ order => posting order.userId order.lock.1 order.lock.2
  | _ => fun _ _ => 0

/-- Balances are only raised. -/
def Job.Deposits : Job → Prop
  | .syncBalance _ _ delta => 0 ≤ delta
  | _ => True

theorem Job.locks_nonneg {id : ℕ} {job : Job} (h : System.Spawned id job) : 0 ≤ job.locks u m := by
  cases job with
  | submit creator order => exact posting_nonneg (validated_kind h.2).lock_pos.le
  | _ => exact le_rfl

variable (dv) in
/-- **What the engine leaves available when it takes the command of a task.** -/
theorem available_step {job : Job} {command : Command} (hsends : job.Sends command) (hdeposits : job.Deposits)
    (hvalid : command.Validated) (hplaced : s.Placed) :
    s.balanceCache.available u m - job.locks u m ≤ (s.step dv command).balanceCache.available u m := by
  cases job with
  | submit creator order =>
    obtain rfl := hsends
    exact available_submit (validated_kind hvalid) hplaced
  | createOrder userId request =>
    obtain ⟨mint, rfl⟩ := hsends
    exact sub_le_self _ le_rfl
  | cancelOrder userId orderId =>
    obtain ⟨pair, rfl⟩ := hsends
    exact (sub_le_self _ le_rfl).trans (available_cancel hplaced)
  | syncBalance userId mint delta =>
    obtain rfl := hsends
    exact (sub_le_self _ le_rfl).trans (s.balanceCache.available_addAvailable _ _ hdeposits)
  | getOrderbook pair depth =>
    obtain rfl := hsends
    exact sub_le_self _ le_rfl

/-- A submission that finds its lock available is answered `Ok`. -/
theorem submit_answered (hk : order.Kind) (h : order.lock.2 ≤ s.balanceCache.available order.userId order.lock.1) :
    (s.handle dv (.submitOrder order)).2.isErr = false := by
  rcases processSubmitOrder_cases dv s hk with hr | ⟨cache, book, settled, counted, released, hg⟩
  · exact absurd h (not_le.2 hr.funds)
  · change (!(processSubmitOrder dv s order).answer.isOk) = false
    rw [hg.answer]
    rfl

namespace System

variable {s s' : System} {a : SystemAction} {k : ℕ}

/-- No order that a `create_order` has acknowledged is refused when the engine takes it. -/
def KeepsPromises (s : System) : Prop :=
  ∀ creator k call order stage, s.tasks[creator]? = some ⟨call, .returned (.ok ())⟩ →
    s.tasks[k]? = some ⟨.submit creator order, stage⟩ →
      ∀ h ∈ s.thread.served, h.request.tag = k → h.reply.isErr = false

/-- What a task will lock. -/
def owes (s : System) (u : UserId) (m : Mint) (k : ℕ) : Decimal :=
  if k ∈ s.begunTags then 0
  else
    match s.jobs[k]? with
    | some job => job.locks u m
    | none => 0

/-- What the orders that are acknowledged and not yet taken by the engine will lock. -/
def owed (s : System) (u : UserId) (m : Mint) : Decimal := ∑ k ∈ Finset.range s.tasks.length, s.owes u m k

/-- What a `create_order` that goes on now will acknowledge: a user, a mint and the amount that the
order needs, found to be covered by the balance that the engine has answered. -/
def acknowledges (s : System) (id : ℕ) : Option (UserId × Mint × Decimal) :=
  match s.tasks[id]? with
  | some ⟨.createOrder userId request, .asking⟩ =>
    match request.requiredBalance, s.reply id with
    | .ok (mint, required), some (.balance (available, _)) =>
      if required ≤ available then some (userId, mint, required) else none
    | _, _ => none
  | _ => none

/-- When an order is acknowledged, what is available covers it together with all that is owed. No
balance is lowered by `sync_balance`. -/
def PromisesBacked (s : System) : SystemAction → Prop
  | .poll id _ =>
    ∀ x ∈ s.acknowledges id, s.owed x.1 x.2.1 + x.2.2 ≤ s.thread.engine.balanceCache.available x.1 x.2.1
  | .call (.syncBalance _ _ delta) => 0 ≤ delta
  | _ => True

instance (s : System) : DecidablePred s.PromisesBacked
  | .poll id _ => inferInstanceAs (Decidable (∀ x ∈ s.acknowledges id, _))
  | .call (.syncBalance _ _ delta) => inferInstanceAs (Decidable (0 ≤ delta))
  | .call (.createOrder _ _) => inferInstanceAs (Decidable True)
  | .call (.submit _ _) => inferInstanceAs (Decidable True)
  | .call (.cancelOrder _ _) => inferInstanceAs (Decidable True)
  | .call (.getOrderbook _ _) => inferInstanceAs (Decidable True)
  | .giveUp _ => inferInstanceAs (Decidable True)
  | .engine => inferInstanceAs (Decidable True)
  | .writer _ _ => inferInstanceAs (Decidable True)

/-! ## What is owed -/

/-- What keeps the promises. -/
structure Backed (s : System) : Prop extends Running s where
  deposits : ∀ job ∈ s.jobs, job.Deposits
  backed : ∀ u m, s.owed u m ≤ s.thread.engine.balanceCache.available u m
  answered : ∀ h ∈ s.thread.served, ∀ order, h.request.command = .submitOrder order → h.reply.isErr = false

theorem owes_nonneg (hw : s.Wired) : 0 ≤ s.owes u m k := by
  rw [owes]
  split_ifs
  · exact le_rfl
  · cases hjob : s.jobs[k]? with
    | none => exact le_rfl
    | some job =>
      obtain ⟨stage, htask⟩ := job_task hjob
      exact job.locks_nonneg (hw.tasks k _ htask).2

theorem owed_congr (hjobs : s'.jobs = s.jobs) (hbegun : s'.begunTags = s.begunTags) : s'.owed u m = s.owed u m := by
  have hlength : s'.tasks.length = s.tasks.length := by rw [← length_jobs, hjobs, length_jobs]
  rw [owed, owed, hlength]
  apply Finset.sum_congr rfl
  intro k _
  rw [owes, owes, hjobs, hbegun]

theorem begunTags_lt (h : s.Running) (hk : k ∈ s.begunTags) : k < s.tasks.length := by
  obtain ⟨r, hr, rfl⟩ := List.mem_map.1 hk
  obtain ⟨task, htask, -⟩ := h.wired.sentTask r (h.accounted.once.subset (List.mem_append_left _ hr))
  exact lt_of_task htask

/-- A new task owes what it will lock. -/
theorem owed_spawn (h : s.Running) (job : Job) : (s.spawn job).owed u m = s.owed u m + job.locks u m := by
  have hlength : (s.spawn job).tasks.length = s.tasks.length + 1 := by
    rw [← length_jobs, jobs_spawn, List.length_append, length_jobs, List.length_singleton]
  have hbegun : (s.spawn job).begunTags = s.begunTags := rfl
  rw [owed, hlength, Finset.sum_range_succ, owed]
  congr 1
  · refine Finset.sum_congr rfl fun k hk => ?_
    rw [Finset.mem_range, ← length_jobs] at hk
    rw [owes, owes, hbegun, jobs_spawn, List.getElem?_append_left hk]
  · rw [owes, hbegun, if_neg fun hmem => lt_irrefl _ (begunTags_lt h hmem), jobs_spawn, ← length_jobs]
    simp

/-- A task whose command is not taken owes what it will lock. -/
theorem owes_fresh {task : Task} (htask : s.tasks[k]? = some task) (hfresh : k ∉ s.begunTags) :
    s.owes u m k = task.job.locks u m := by
  rw [owes, if_neg hfresh, task_job htask]

/-- The engine takes a command: its task owes nothing any more. -/
theorem owed_taken {task : Task} (hjobs : s'.jobs = s.jobs) (hbegun : s'.begunTags = s.begunTags ++ [k])
    (htask : s.tasks[k]? = some task) (hfresh : k ∉ s.begunTags) :
    s.owed u m = task.job.locks u m + s'.owed u m := by
  have hlength : s'.tasks.length = s.tasks.length := by rw [← length_jobs, hjobs, length_jobs]
  have hmem : k ∈ Finset.range s.tasks.length := Finset.mem_range.2 (lt_of_task htask)
  have hgone : s'.owes u m k = 0 := by rw [owes, if_pos (by simp [hbegun])]
  -- the others owe what they owed
  have hothers : ∑ i ∈ (Finset.range s.tasks.length).erase k, s'.owes u m i =
      ∑ i ∈ (Finset.range s.tasks.length).erase k, s.owes u m i := by
    refine Finset.sum_congr rfl fun i hi => ?_
    have hne := Finset.ne_of_mem_erase hi
    rw [owes, owes, hjobs, hbegun]
    simp [hne]
  rw [owed, owed, hlength, ← Finset.add_sum_erase _ _ hmem, ← Finset.add_sum_erase _ _ hmem, hothers,
    owes_fresh htask hfresh, hgone, zero_add]

theorem locks_le_owed (hw : s.Wired) {task : Task} (htask : s.tasks[k]? = some task) (hfresh : k ∉ s.begunTags) :
    task.job.locks u m ≤ s.owed u m := by
  rw [← owes_fresh htask hfresh, owed]
  exact Finset.single_le_sum (fun i _ => owes_nonneg hw) (Finset.mem_range.2 (lt_of_task htask))

/-! ## Steps -/

theorem Backed.same (h : s.Backed) (hrun : s'.Running) (hjobs : s'.jobs = s.jobs)
    (hserved : s'.thread.served = s.thread.served) (hengine : s'.thread.engine = s.thread.engine) : s'.Backed where
  toRunning := hrun
  deposits := by rw [hjobs]; exact h.deposits
  backed u m := by
    rw [owed_congr hjobs (by rw [begunTags, EngineThread.begun, hserved]; rfl), hengine]
    exact h.backed u m
  answered := by rw [hserved]; exact h.answered

/-- A new task joins; what it will lock is there. -/
theorem Backed.spawn {job : Job} (h : s.Backed) (hrun : (s.spawn job).Running) (hdeposits : job.Deposits)
    (hlocks : ∀ u m, s.owed u m + job.locks u m ≤ s.thread.engine.balanceCache.available u m) : (s.spawn job).Backed where
  toRunning := hrun
  deposits := by
    rw [jobs_spawn, List.forall_mem_append, List.forall_mem_singleton]
    exact ⟨h.deposits, hdeposits⟩
  backed u m := by
    rw [owed_spawn h.toRunning]
    exact hlocks u m
  answered := h.answered

/-- The engine takes a command; what its task locks is there. -/
theorem Backed.taken {thread : EngineThread} {out : List DbCommand} (h : s.Backed) (hrun : s'.Running)
    (hpass : s.thread.pass dv = some (thread, out)) (hthread : s'.thread = thread) (htasks : s'.tasks = s.tasks) :
    s'.Backed := by
  have hjobs : s'.jobs = s.jobs := by rw [jobs, htasks, jobs]
  cases h.takes hpass with
  | nothing hengine hserved =>
    rw [← hthread] at hengine hserved
    exact h.same hrun hjobs hserved hengine
  | command r task _ htask hsends hvalid hfresh hserves =>
    have hjob : task.job ∈ s.jobs := List.mem_map_of_mem (List.mem_of_getElem? htask)
    have hbegun : s'.begunTags = s.begunTags ++ [r.tag] := by
      rw [begunTags, hthread, hserves.begun, List.map_append]
      rfl
    refine ⟨hrun, by rw [hjobs]; exact h.deposits, fun u m => ?_, ?_⟩
    · have howed := owed_taken (u := u) (m := m) hjobs hbegun htask hfresh
      have hleft := available_step dv (u := u) (m := m) hsends (h.deposits _ hjob) hvalid h.tidy.placed
      rw [← hserves.engine, ← hthread] at hleft
      have := h.backed u m
      linarith
    · rw [hthread, hserves.served, List.forall_mem_append, List.forall_mem_singleton]
      refine ⟨h.answered, fun order horder => ?_⟩
      -- the lock is part of what is owed
      have horder : r.command = .submitOrder order := horder
      rw [horder] at hsends hvalid ⊢
      apply submit_answered (validated_kind hvalid)
      obtain ⟨creator, hjob⟩ : ∃ creator, task.job = .submit creator order := by
        cases hj : task.job with
        | submit creator o =>
          rw [hj] at hsends
          obtain rfl := Command.submitOrder.inj hsends
          exact ⟨creator, rfl⟩
        | createOrder userId request => rw [hj] at hsends; obtain ⟨mint, hc⟩ := hsends; cases hc
        | cancelOrder userId orderId => rw [hj] at hsends; obtain ⟨pair, hc⟩ := hsends; cases hc
        | syncBalance userId mint delta => rw [hj] at hsends; cases hsends
        | getOrderbook pair depth => rw [hj] at hsends; cases hsends
      have hle := locks_le_owed (u := order.userId) (m := order.lock.1) h.wired htask hfresh
      rw [hjob, Job.locks, posting_self] at hle
      exact hle.trans (h.backed _ _)

theorem Backed.step (h : s.Backed) (hback : s.PromisesBacked a) (hstep : s.step dv a = some s') : s'.Backed := by
  have hrun := h.toRunning.step hstep
  have hnone : ∀ {job : Job} {u m}, job.isSubmit = false → job.locks u m = 0 := by
    intro job u m hjob
    cases job with
    | submit creator order => cases hjob
    | _ => rfl
  cases step_moves hstep with
  | spawn job hjob =>
    refine h.spawn hrun ?_ fun u m => ?_
    · cases job with
      | syncBalance userId mint delta => exact hback
      | _ => trivial
    · rw [hnone hjob, add_zero]
      exact h.backed u m
  | created id now userId request order htask horder mint required available locked hrequired hreply hcovers =>
    obtain ⟨huser, hlock⟩ := orderEntry_lock horder hrequired
    have hleft : (s.leave id (.returned (.ok ()))).Running :=
      ⟨h.wired.leave htask (.inr ⟨_, rfl, fun h => by cases h⟩), h.accounted, h.tidy⟩
    have hacknowledges : s.acknowledges id = some (userId, mint, required) := by
      simp only [acknowledges, htask, hrequired, hreply, if_pos hcovers]
    -- the answer promises the lock of the submit that is spawned with it
    have hcover := hback _ hacknowledges
    refine (h.same hleft jobs_goTo rfl rfl).spawn hrun trivial fun u m => ?_
    have howed : (s.leave id (.returned (.ok ()))).owed u m = s.owed u m := owed_congr jobs_goTo rfl
    rw [howed, Job.locks, huser, hlock]
    by_cases hum : u = userId ∧ m = mint
    · obtain ⟨rfl, rfl⟩ := hum
      rw [posting_self]
      exact hcover
    · rw [posting, if_neg hum, add_zero]
      exact h.backed u m
  | fetch => exact h.same hrun jobs_goTo rfl rfl
  | joinSubmit => exact h.same hrun jobs_goTo rfl rfl
  | joinCancel => exact h.same hrun jobs_goTo rfl rfl
  | send id now job command thread hjob htask hhead hsend =>
    exact h.same hrun jobs_goTo (EngineThread.served_send hsend).1 (EngineThread.send_eq hsend).2.1
  | submit id now creator order command thread htask hhead hsend =>
    exact h.same hrun jobs_goTo (EngineThread.served_send hsend).1 (EngineThread.send_eq hsend).2.1
  | fail => exact h.same hrun jobs_goTo rfl rfl
  | leave => exact h.same hrun jobs_goTo rfl rfl
  | written => exact h.same hrun jobs_goTo rfl rfl
  | engine thread out hpass => exact h.taken hrun hpass rfl rfl
  | writer => exact h.same hrun rfl rfl rfl

theorem Backed.keepsPromises (h : s.Backed) : s.KeepsPromises := by
  intro creator k call order stage _ htask x hx htag
  -- the task sends nothing but its order
  have hsent : x.request ∈ s.thread.sent :=
    h.accounted.once.subset (List.mem_append_left _ (List.mem_map_of_mem hx))
  obtain ⟨task, htask', hsends⟩ := h.wired.sentTask _ hsent
  rw [htag, htask] at htask'
  obtain rfl := Option.some.inj htask'
  exact h.answered x hx order hsends

end System

end CexEngine
