import CexEngine.Proof.Admission
import CexEngine.Proof.Tasks

/-!
# The order of the requests

Submissions and cancellations reach the engine through one lock that is served first come
first served, but a submission asks for it from a task of its own.

* `asAcknowledged_run`: **requests enter the channels in the order in which they were
  acknowledged**, if no spawned task is still unpolled when a request that must come after it
  asks for the lock.
* `asAcknowledged_not`: two submissions whose tasks are polled in the other order.
-/

namespace CexEngine

namespace System

variable {dv : Decimal → Decimal → Decimal} {s s' : System} {a b : ℕ}

/-- The order that task `a` submits was acknowledged before the call behind task `b`: before the
`create_order` of another submission, or before a `cancel_order` of the same order. A
`create_order` spawns the task of its order when it returns. -/
def Must (jobs : List Job) (a b : ℕ) : Prop :=
  ∃ creator order, jobs[a]? = some (.submit creator order) ∧
    ((∃ creator' order', jobs[b]? = some (.submit creator' order') ∧ a < creator') ∨
      ∃ userId, jobs[b]? = some (.cancelOrder userId order.id) ∧ a < b)

/-- The engine is sent its requests in the order in which they were acknowledged. -/
def AsAcknowledged (s : System) : Prop := ∀ a b, Must s.jobs a b → ∀ l, l ++ [b] <+: s.sentTags → a ∈ l

/-- The order of a spawned task that has not been polled. -/
def unpolled (s : System) (id : ℕ) : Option OrderEntry :=
  match s.tasks[id]? with
  | some ⟨.submit _ order, .started⟩ => some order
  | _ => none

/-- The unpolled tasks that a task leaves behind when it asks for the lock now, though they must
come before it. -/
def overtaken (s : System) (id : ℕ) : List ℕ :=
  match s.tasks[id]? with
  | some ⟨.submit creator _, .started⟩ => (List.range creator).filter fun k => (s.unpolled k).isSome
  | some ⟨.cancelOrder _ orderId, .fetched _⟩ =>
    (List.range id).filter fun k => (s.unpolled k).any fun order => order.id = orderId
  | _ => []

def InTurn (s : System) : SystemAction → Prop
  | .poll id _ => s.overtaken id = []
  | _ => True

instance (s : System) : DecidablePred s.InTurn
  | .poll id _ => inferInstanceAs (Decidable (s.overtaken id = []))
  | .call _ => inferInstanceAs (Decidable True)
  | .giveUp _ => inferInstanceAs (Decidable True)
  | .engine => inferInstanceAs (Decidable True)
  | .writer _ _ => inferInstanceAs (Decidable True)

/-- The tasks that have asked for the lock to send their command and have not gone away, in the
order in which they asked: first those whose command is sent. -/
def line (s : System) : List ℕ := s.sentTags ++ s.mutex.filter fun id => id ∉ s.sentTags

theorem mem_line {id : ℕ} : id ∈ s.line ↔ id ∈ s.sentTags ∨ id ∈ s.mutex := by
  rw [line, List.mem_append, List.mem_filter, decide_eq_true_eq]
  tauto

/-- Who must come first stands in the line, and stands before. -/
structure Lined (s : System) : Prop where
  present : ∀ a b, Must s.jobs a b → b ∈ s.line → a ∈ s.line
  before : s.line.Pairwise fun x y => ¬ Must s.jobs y x

theorem Wired.creator_lt {id creator : ℕ} {order : OrderEntry} (hw : s.Wired)
    (h : s.jobs[id]? = some (.submit creator order)) : creator < id := by
  obtain ⟨stage, htask⟩ := job_task h
  exact (hw.tasks id _ htask).2.1

theorem Wired.must_lt (hw : s.Wired) (h : Must s.jobs a b) : a < b := by
  obtain ⟨creator, order, -, ⟨creator', order', hjob', hlt⟩ | ⟨userId, -, hlt⟩⟩ := h
  · exact hlt.trans (hw.creator_lt hjob')
  · exact hlt

/-- A line in order is served in order. -/
theorem Lined.asAcknowledged (h : s.Lined) (hw : s.Wired) : s.AsAcknowledged := by
  intro a b hmust l hinit
  have hline : l ++ [b] <+: s.line := hinit.trans (List.prefix_append _ _)
  obtain ⟨r, hr⟩ := hline
  have ha := h.present a b hmust (by rw [← hr]; simp)
  have hpair := h.before
  rw [← hr] at ha hpair
  rcases List.mem_append.1 ha with ha | ha
  · rcases List.mem_append.1 ha with ha | ha
    · exact ha
    · obtain rfl := List.mem_singleton.1 ha
      exact absurd (hw.must_lt hmust) (lt_irrefl _)
  · exact absurd hmust ((List.pairwise_append.1 hpair).2.2 b (by simp) a ha)

/-! ## One step -/

/-- The same line, or one that some tasks without a submission have left. -/
theorem Lined.sublist (h : s.Lined) (hjobs : s'.jobs = s.jobs) (hsub : s'.line.Sublist s.line)
    (hstay : ∀ k ∈ s.line, (∃ creator order, s.jobs[k]? = some (.submit creator order)) → k ∈ s'.line) : s'.Lined where
  present a b hmust hb := by
    rw [hjobs] at hmust
    have ha := h.present a b hmust (hsub.subset hb)
    obtain ⟨creator, order, hjob, -⟩ := hmust
    exact hstay a ha ⟨creator, order, hjob⟩
  before := by
    rw [hjobs]
    exact h.before.sublist hsub

theorem Lined.same (h : s.Lined) (hjobs : s'.jobs = s.jobs) (hline : s'.line = s.line) : s'.Lined :=
  h.sublist hjobs (by rw [hline]) fun k hk _ => by rwa [hline]

/-- One more task in the line, behind all that must come before it. -/
theorem Lined.append {id : ℕ} (h : s.Lined) (hjobs : s'.jobs = s.jobs) (hline : s'.line = s.line ++ [id])
    (hfresh : id ∉ s.line) (hfirst : ∀ a, Must s.jobs a id → a ∈ s.line) : s'.Lined where
  present a b hmust hb := by
    rw [hjobs] at hmust
    rw [hline] at hb ⊢
    rcases List.mem_append.1 hb with hb | hb
    · exact List.mem_append_left _ (h.present a b hmust hb)
    · obtain rfl := List.mem_singleton.1 hb
      exact List.mem_append_left _ (hfirst a hmust)
  before := by
    rw [hjobs, hline, List.pairwise_append]
    refine ⟨h.before, List.pairwise_singleton _ _, fun x hx y hy hmust => ?_⟩
    -- what must come after the new task is not in the line yet
    obtain rfl := List.mem_singleton.1 hy
    exact hfresh (h.present _ _ hmust hx)

/-- A spawned task that has been polled is in the line. -/
theorem Wired.submit_mem_line {id creator : ℕ} {order : OrderEntry} (hw : s.Wired)
    (hjob : s.jobs[id]? = some (.submit creator order)) (hpolled : s.unpolled id = none) : id ∈ s.line := by
  obtain ⟨stage, htask⟩ := job_task hjob
  have hat := (hw.tasks id _ htask).1
  rw [unpolled, htask] at hpolled
  rw [mem_line]
  cases stage with
  | started => cases hpolled
  | fetched row => cases hat.2.2
  | locking command => exact .inr hat.1
  | asking => cases hat.2.1
  | writing => cases hat.2
  | returned answer => exact .inl (hat.2 rfl)

theorem line_join {id : ℕ} {command : Command} (hsent : id ∉ s.sentTags) :
    (s.join id command).line = s.line ++ [id] := by
  have hfilter : (s.mutex ++ [id]).filter (fun k => k ∉ s.sentTags) =
      s.mutex.filter (fun k => k ∉ s.sentTags) ++ [id] := by
    rw [List.filter_append]
    simp [hsent]
  change s.sentTags ++ (s.mutex ++ [id]).filter (fun k => k ∉ s.sentTags) = _
  rw [hfilter, line, List.append_assoc]

/-- A command goes into its channel: its task stays where it is in the line. -/
theorem line_sent {id : ℕ} {job : Job} {command : Command} (hw : s.Wired)
    (htask : s.tasks[id]? = some ⟨job, .locking command⟩) (hhead : s.mutex.head? = some id)
    (htags : s'.sentTags = s.sentTags ++ [id]) (hmutex : s'.mutex = s.mutex ∨ s'.mutex = s.mutex.erase id) :
    s'.line = s.line := by
  have hnot := (hw.tasks id _ htask).1.2.1
  have hmem := erase_head hhead
  have hgone : id ∉ s.mutex.erase id := hw.mutexNodup.not_mem_erase
  -- what is behind the head waits on
  have hrest : (s.mutex.erase id).filter (fun k => k ∉ s.sentTags ++ [id]) =
      (s.mutex.erase id).filter fun k => k ∉ s.sentTags := by
    refine List.filter_congr fun k hk => ?_
    have hne : k ≠ id := fun h => hgone (h ▸ hk)
    simp [hne]
  have hwaits : s'.mutex.filter (fun k => k ∉ s'.sentTags) = (s.mutex.erase id).filter fun k => k ∉ s.sentTags := by
    rw [htags]
    rcases hmutex with hm | hm
    · rw [hm, hmem, List.filter_cons_of_neg (by simp)]
      simpa using hrest
    · rw [hm, hrest]
  rw [line, hwaits, htags, line, List.append_assoc]
  congr 1
  conv_rhs => rw [hmem, List.filter_cons_of_pos (by simpa using hnot)]
  rfl

theorem must_of_append {jobs : List Job} {job : Job} (h : Must (jobs ++ [job]) a b) (ha : a < jobs.length)
    (hb : b < jobs.length) : Must jobs a b := by
  rw [Must, List.getElem?_append_left ha, List.getElem?_append_left hb] at h
  exact h

theorem Wired.line_lt {id : ℕ} (hw : s.Wired) (h : id ∈ s.line) : id < s.jobs.length := by
  rw [jobs, List.length_map]
  rcases mem_line.1 h with h | h
  · obtain ⟨r, hr, rfl⟩ := List.mem_map.1 h
    obtain ⟨task, htask, -⟩ := hw.sentTask r hr
    exact lt_of_task htask
  · exact hw.mutexTask id h

/-- The line after a call: the call may join it at once, but then it submits and cancels nothing. -/
theorem Wired.line_spawn (hw : s.Wired) (job : Job) :
    (s.spawn job).line = s.line ∨
      (s.spawn job).line = s.line ++ [s.tasks.length] ∧ job.isSubmit = false ∧ job.isCancel = false := by
  rcases mutex_spawn s job with ⟨command, ho, hmutex⟩ | ⟨-, hmutex⟩
  · right
    refine ⟨?_, ?_⟩
    · rw [line, hmutex, List.filter_append]
      change s.sentTags ++ (s.mutex.filter (fun k => k ∉ s.sentTags) ++ [s.tasks.length].filter fun k => k ∉ s.sentTags) = _
      rw [List.filter_cons_of_pos (by simpa using hw.fresh.2), line, List.append_assoc]
      rfl
    · cases job with
      | submit creator order => cases ho
      | cancelOrder userId orderId => cases ho
      | _ => exact ⟨rfl, rfl⟩
  · left
    rw [line, hmutex]
    rfl

/-- A call joins the line at once, but nothing must come before it. -/
theorem Lined.spawn {job : Job} (h : s.Lined) (hw : s.Wired) (hw' : (s.spawn job).Wired) : (s.spawn job).Lined := by
  -- what must come before a call in the line is older than the new call
  have hold : ∀ x y, x ∈ s.line → Must (s.spawn job).jobs y x → Must s.jobs y x := by
    intro x y hx hmust
    have hlt := hw'.must_lt hmust
    have hxlt := hw.line_lt hx
    rw [jobs_spawn] at hmust
    exact must_of_append hmust (hlt.trans hxlt) hxlt
  have hbefore : s.line.Pairwise fun x y => ¬ Must (s.spawn job).jobs y x :=
    h.before.imp_of_mem fun hx _ hnot hmust => hnot (hold _ _ hx hmust)
  rcases hw.line_spawn job with hline | ⟨hline, hsubmit, hcancel⟩
  · refine ⟨fun a b hmust hb => ?_, by rw [hline]; exact hbefore⟩
    rw [hline] at hb ⊢
    exact h.present a b (hold _ _ hb hmust) hb
  · refine ⟨fun a b hmust hb => ?_, ?_⟩
    · rw [hline] at hb ⊢
      rcases List.mem_append.1 hb with hb | hb
      · exact List.mem_append_left _ (h.present a b (hold _ _ hb hmust) hb)
      · obtain rfl := List.mem_singleton.1 hb
        have hjob : (s.spawn job).jobs[s.tasks.length]? = some job := by rw [jobs_spawn, ← length_jobs]; simp
        -- only a submit or a cancel has calls that must come before it
        obtain ⟨creator, order, -, ⟨creator', order', hjob', -⟩ | ⟨userId, hjob', -⟩⟩ := hmust
        · rw [hjob] at hjob'
          obtain rfl := Option.some.inj hjob'
          cases hsubmit
        · rw [hjob] at hjob'
          obtain rfl := Option.some.inj hjob'
          cases hcancel
    · rw [hline, List.pairwise_append]
      refine ⟨hbefore, List.pairwise_singleton _ _, fun x hx y hy hmust => ?_⟩
      obtain rfl := List.mem_singleton.1 hy
      have := hw'.must_lt hmust
      have := hw.line_lt hx
      rw [length_jobs] at this
      omega

theorem Lined.leave {id : ℕ} {job : Job} {stage stage' : Stage} (h : s.Lined)
    (htask : s.tasks[id]? = some ⟨job, stage⟩) (hjob : job.isSubmit = false) : (s.leave id stage').Lined := by
  refine h.sublist jobs_goTo ?_ fun k hk hsubmit => ?_
  · exact List.Sublist.append_left (List.erase_sublist.filter _) _
  · rw [mem_line] at hk ⊢
    refine hk.imp_right fun hk => (List.mem_erase_of_ne fun heq => ?_).2 hk
    -- the task that leaves submits nothing
    obtain ⟨creator, order, hsubmit⟩ := hsubmit
    rw [heq, task_job htask] at hsubmit
    obtain rfl := Option.some.inj hsubmit
    cases hjob

/-- **Every step in turn keeps the line in order.** -/
theorem Lined.step {a : SystemAction} (h : s.Lined) (hw : s.Wired) (hturn : s.InTurn a) (hstep : s.step dv a = some s') :
    s'.Lined := by
  have hw' := hw.step hstep
  cases step_moves hstep with
  | spawn job hjob => exact h.spawn hw hw'
  | fetch id now userId orderId htask => exact h.same jobs_goTo rfl
  | joinSubmit id now creator order htask =>
    obtain ⟨hmutex, hsent⟩ := (hw.tasks id _ htask).1
    refine h.append jobs_goTo (line_join hsent) (fun hmem => (mem_line.1 hmem).elim hsent hmutex) ?_
    have hjob := task_job htask
    simp only [InTurn, overtaken, htask, List.filter_eq_nil_iff, List.mem_range] at hturn
    -- the earlier orders have asked for the lock
    rintro k ⟨creator', order', hk, ⟨c, o, hjob', hlt⟩ | ⟨userId, hjob', -⟩⟩
    · rw [hjob] at hjob'
      obtain ⟨rfl, rfl⟩ := Job.submit.inj (Option.some.inj hjob')
      exact hw.submit_mem_line hk (by simpa using hturn k hlt)
    · rw [hjob] at hjob'
      cases hjob'
  | joinCancel id now userId orderId row pair htask =>
    obtain ⟨hmutex, hsent, -⟩ := (hw.tasks id _ htask).1
    refine h.append jobs_goTo (line_join hsent) (fun hmem => (mem_line.1 hmem).elim hsent hmutex) ?_
    have hjob := task_job htask
    simp only [InTurn, overtaken, htask, List.filter_eq_nil_iff, List.mem_range] at hturn
    rintro k ⟨creator', order', hk, ⟨c, o, hjob', -⟩ | ⟨u, hjob', hlt⟩⟩
    · rw [hjob] at hjob'
      cases hjob'
    · rw [hjob] at hjob'
      obtain ⟨-, rfl⟩ := Job.cancelOrder.inj (Option.some.inj hjob')
      refine hw.submit_mem_line hk ?_
      -- an unpolled task of this order is not left behind
      obtain ⟨stage, htask'⟩ := job_task hk
      have hnot := hturn k hlt
      rw [unpolled, htask'] at hnot ⊢
      cases stage with
      | started => exact absurd hnot (by simp)
      | _ => rfl
  | send id now job command thread hjob htask hhead hsend =>
    refine h.same jobs_goTo (line_sent hw htask hhead ?_ (.inl rfl))
    change thread.sent.map Request.tag = _
    rw [(EngineThread.send_eq hsend).1, List.map_append]
    rfl
  | submit id now creator order command thread htask hhead hsend =>
    refine h.same jobs_goTo (line_sent hw htask hhead ?_ (.inr rfl))
    change thread.sent.map Request.tag = _
    rw [(EngineThread.send_eq hsend).1, List.map_append]
    rfl
  | fail id now userId orderId stage e htask hstage => exact h.same jobs_goTo rfl
  | leave id a job stage stage' hjob htask hstage hends => exact h.leave htask hjob
  | created id now userId request order htask horder =>
    have hleft : (s.leave id (.returned (.ok ()))).Wired := hw.leave htask (.inr ⟨_, rfl, fun h => by cases h⟩)
    exact (h.leave htask rfl).spawn hleft hw'
  | written id now userId orderId row htask hrow => exact h.same jobs_goTo rfl
  | engine thread out hpass =>
    have htags : s.sentTags = thread.sent.map Request.tag := by rw [sentTags, (EngineThread.pass_cases hpass).sent]
    refine h.same rfl ?_
    rw [line, line, htags]
    rfl
  | writer overdue db writer hpass => exact h.same rfl rfl

end System

/-- **Requests enter the channels in the order in which they were acknowledged**, in a run in
which no task that asks for the lock leaves an unpolled one behind that must come before it. -/
theorem asAcknowledged_run {dv : Decimal → Decimal → Decimal} {engine : Engine} {orders : OrdersTable}
    {as : List SystemAction} {s : System}
    (hturn : Machine.Each (System.step dv) System.InTurn (.start engine orders) as)
    (hrun : Machine.run (System.step dv) (.start engine orders) as = some s) : s.AsAcknowledged := by
  have hlined : s.Wired ∧ s.Lined := by
    refine Machine.run_inv_of (I := fun s => s.Wired ∧ s.Lined)
      (fun s a t hs ha h => ⟨hs.1.step h, hs.2.step hs.1 ha h⟩) ⟨.start engine orders, ?_⟩ hturn hrun
    exact ⟨fun a b _ hb => absurd hb List.not_mem_nil, List.Pairwise.nil⟩
  exact hlined.2.asAcknowledged hlined.1

/-- Two orders of user 1, whose tasks are polled in the order in which they were spawned. -/
theorem asAcknowledged_run_buys :
    ∃ s, Machine.run (System.step (· / ·)) (.start (.start (BalanceCache.new.setBalance 1 "USDT" 100 0)) ∅)
        (createCall 0 1 (buyRequest 1 10 1) ++ createCall 2 1 (buyRequest 2 10 1) ++
          [.poll 1 0, .poll 1 0, .poll 3 0, .poll 3 0]) = some s ∧
      s.sentTags = [0, 2, 1, 3] ∧ s.AsAcknowledged := by
  obtain ⟨s, hrun, hsent⟩ := Machine.exists_run (System.step (· / ·))
    (.start (.start (BalanceCache.new.setBalance 1 "USDT" 100 0)) ∅)
    (createCall 0 1 (buyRequest 1 10 1) ++ createCall 2 1 (buyRequest 2 10 1) ++
      [.poll 1 0, .poll 1 0, .poll 3 0, .poll 3 0])
    (fun s => s.sentTags = [0, 2, 1, 3]) (by decide +kernel)
  exact ⟨s, hrun, hsent, asAcknowledged_run (by decide +kernel) hrun⟩

/-- The same calls. Task 3, which submits the second order, is polled before task 1. -/
theorem asAcknowledged_not :
    ∃ s, Machine.run (System.step (· / ·)) (.start (.start (BalanceCache.new.setBalance 1 "USDT" 100 0)) ∅)
        (createCall 0 1 (buyRequest 1 10 1) ++ createCall 2 1 (buyRequest 2 10 1) ++
          [.poll 3 0, .poll 3 0, .poll 1 0, .poll 1 0]) = some s ∧
      s.sentTags = [0, 2, 3, 1] ∧ ¬ s.AsAcknowledged := by
  obtain ⟨s, hrun, hsent, hjob, hjob'⟩ := Machine.exists_run (System.step (· / ·))
    (.start (.start (BalanceCache.new.setBalance 1 "USDT" 100 0)) ∅)
    (createCall 0 1 (buyRequest 1 10 1) ++ createCall 2 1 (buyRequest 2 10 1) ++
      [.poll 3 0, .poll 3 0, .poll 1 0, .poll 1 0])
    (fun s => s.sentTags = [0, 2, 3, 1] ∧ s.jobs[1]? = some (.submit 0 (limitOrder 1 1 .buy 10 1)) ∧
      s.jobs[3]? = some (.submit 2 (limitOrder 2 1 .buy 10 1))) (by decide +kernel)
  refine ⟨s, hrun, hsent, fun h => ?_⟩
  have hfirst := h 1 3 ⟨_, _, hjob, .inl ⟨_, _, hjob', by decide⟩⟩ [0, 2] (by rw [hsent]; exact ⟨[1], rfl⟩)
  simp at hfirst

end CexEngine
