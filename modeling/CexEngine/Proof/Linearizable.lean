import CexEngine.Proof.Answers
import CexEngine.Proof.Interleavings
import CexEngine.Proof.Promises
import CexEngine.Proof.Refinement
import CexEngine.Proof.Serial

/-!
# The service is linearizable

Any number of calls are on their way at once. What they are told is what the exchange answers that
handles one command after another, in the order in which the engine begins them.

* `System.Linearized`: the begun commands are a sequential history of the exchange, which explains
  what the calls come to and keeps to real time.

**`linearizable_run`**: so it is in every interleaving, if no order meets one of its own user and
nothing that is bought for a budget is rounded.
-/

namespace CexEngine

/-- The replies of requests that are handled one after another. -/
theorem Engine.serve_replies {dv : Decimal → Decimal → Decimal} : ∀ (rs : List Request) (engine : Engine),
    (engine.serve dv rs).map Handled.reply = engine.replies dv (rs.map Request.command) := by
  intro rs
  induction rs with
  | nil => intro engine; rfl
  | cons r rs ih =>
    intro engine
    rw [Engine.serve, List.map_cons, ih]
    rfl

namespace System

variable {dv : Decimal → Decimal → Decimal} {cache : BalanceCache} {s s' : System} {a : SystemAction}

/-! ## The history of the exchange -/

theorem Running.begun_nodup (h : s.Running) : s.begunTags.Nodup := by
  have hbegun : s.thread.begun.Subperm s.thread.sent :=
    (List.sublist_append_left _ _).subperm.trans h.accounted.once
  obtain ⟨requests, hperm, hsub⟩ := hbegun
  exact (hperm.map Request.tag).nodup_iff.1 (h.wired.sentNodup.sublist (hsub.map Request.tag))

/-- What the engine begins is admitted, and locks nothing. -/
theorem Running.locksNonneg (h : s.Running) : ∀ c ∈ s.thread.commands, c.LocksNonneg := by
  intro c hc
  obtain ⟨job, hsends, hvalid⟩ := h.begun_sends hc
  exact hsends.locksNonneg hvalid

/-- The commands that the engine has begun, in this order, are a history of the exchange, and that
`past` came before is no contradiction to it. -/
structure Linearized (cache : BalanceCache) (past s : System) : Prop where
  /-- Every reply is the answer of the exchange to its command, there and then. -/
  answers : s.thread.served.map (fun h => h.reply.answer) = (Exchange.start cache).answers s.thread.commands
  /-- The engine is where the exchange is after these commands. -/
  refines : s.thread.engine.Refines ((Exchange.start cache).run s.thread.commands)
  /-- No call has two places in the history. -/
  once : s.begunTags.Nodup
  /-- A call with an answer has a place in the history, for its own command, and comes to what the
  answer there says. -/
  explained : ∀ (id : ℕ) (job : Job) (stage : Stage), s.tasks[id]? = some ⟨job, stage⟩ → job.isSubmit = false →
    stage.isAnswered = true → ∃ (i : ℕ) (command : Command) (answer : Answer),
      s.begunTags[i]? = some id ∧ s.thread.commands[i]? = some command ∧
      ((Exchange.start cache).answers s.thread.commands)[i]? = some answer ∧ job.Asks command ∧ job.After answer stage
  /-- A call that had its answer in `past` comes before those that were not there then. -/
  realTime : ∀ (id : ℕ) (job : Job) (stage : Stage), past.tasks[id]? = some ⟨job, stage⟩ → job.isSubmit = false →
    stage.isAnswered = true → ∀ later ∈ s.begunTags, past.tasks.length ≤ later → History.Precedes s.begunTags id later

theorem Answered.mem_begun {id : ℕ} {job : Job} {stage : Stage} (h : s.Answered)
    (htask : s.tasks[id]? = some ⟨job, stage⟩) (hjob : job.isSubmit = false) (hanswered : stage.isAnswered = true) :
    id ∈ s.begunTags := by
  obtain ⟨handled, hmem, rfl, -⟩ := h.answered id job stage htask hjob hanswered
  rw [begunTags, EngineThread.begun, List.map_map]
  exact List.mem_map_of_mem hmem

/-- **Real time.** -/
theorem Answered.precedes {past : System} {bs : List SystemAction} (hpast : past.Answered)
    (hrun : Machine.run (System.step dv) past bs = some s) {id later : ℕ} {job : Job} {stage : Stage}
    (htask : past.tasks[id]? = some ⟨job, stage⟩) (hjob : job.isSubmit = false) (hanswered : stage.isAnswered = true)
    (hlater : later ∈ s.begunTags) (hle : past.tasks.length ≤ later) : History.Precedes s.begunTags id later := by
  have hserved : past.thread.served <+: s.thread.served :=
    Machine.run_extends (I := Running) (fun _ _ _ h hstep => h.step hstep) (fun _ _ _ h hstep => served_extends h hstep)
      hpast.toRunning hrun
  have hbegun : past.begunTags <+: s.begunTags := (hserved.map Handled.request).map Request.tag
  exact History.precedes_of_extends hbegun (hpast.mem_begun htask hjob hanswered) hlater fun hold =>
    absurd (begunTags_lt hpast.toRunning hold) (not_lt.2 hle)

/-- A call with an answer has its place in the history. -/
theorem Answered.place {id : ℕ} {job : Job} {stage : Stage} {x : Exchange} (h : s.Answered)
    (hanswers : s.thread.served.map (fun h => h.reply.answer) = x.answers s.thread.commands)
    (htask : s.tasks[id]? = some ⟨job, stage⟩) (hjob : job.isSubmit = false) (hanswered : stage.isAnswered = true) :
    ∃ (i : ℕ) (command : Command) (answer : Answer), s.begunTags[i]? = some id ∧ s.thread.commands[i]? = some command ∧
      (x.answers s.thread.commands)[i]? = some answer ∧ job.Asks command ∧ job.After answer stage := by
  obtain ⟨handled, hmem, htag, hafter⟩ := h.answered id job stage htask hjob hanswered
  obtain ⟨i, hi⟩ := List.mem_iff_getElem?.1 hmem
  have hrequest : s.thread.begun[i]? = some handled.request := by
    rw [EngineThread.begun, List.getElem?_map, hi]
    rfl
  have hsent : handled.request ∈ s.thread.sent :=
    h.accounted.once.subset (List.mem_append_left _ (List.mem_of_getElem? hrequest))
  refine ⟨i, handled.request.command, handled.reply.answer, ?_, ?_, ?_, ?_, hafter⟩
  · rw [begunTags, List.getElem?_map, hrequest, ← htag]
    rfl
  · rw [EngineThread.commands, List.getElem?_map, hrequest]
    rfl
  · rw [← hanswers, List.getElem?_map, hi]
    rfl
  · exact h.sent _ hsent job (htag ▸ task_job htask)

end System

end CexEngine
