import CexEngine.Proof.Shutdown

/-!
# The stop ends

* `EngineProcess.toStopped`: what `stop_impl` and the threads have still to do.
* `stop_completes`: **`stop_impl` never waits for ever**, wherever the threads are when it is called.
-/

namespace CexEngine

variable {dv : Decimal → Decimal → Decimal} {origin : Engine}

namespace EngineProcess

variable {json : SerdeJson} {p p' : EngineProcess}

/-- A thread, or `stop_impl`, goes on with something: the writer does while something waits for it
or its channel is closed. -/
def Productive (p : EngineProcess) : ProcessAction → Prop
  | .send _ => False
  | .engine => True
  | .writer _ _ => p.writer.dbRx ≠ [] ∨ p.writer.connected = false
  | .wal _ => True
  | .stop => True

/-- What is still to be done. -/
def toStopped (p : EngineProcess) : ℕ := p.stop.left + p.thread.toExit + p.writer.toExit + p.wal.toExit

theorem stopNext_toStopped (h : p.stopNext = some p') : p'.toStopped < p.toStopped ∧ p'.stop ≠ .running := by
  have hlower : ∀ q : EngineProcess, q.thread.toExit ≤ p.thread.toExit → q.writer.toExit = p.writer.toExit →
      q.wal.toExit = p.wal.toExit → q.stop.left < p.stop.left → q.toStopped < p.toStopped := by
    intro q hthread hwriter hwal hleft
    rw [toStopped, toStopped]
    omega
  rw [EngineProcess.stopNext] at h
  cases hstop : p.stop with
  | flagged =>
    rw [hstop] at h
    dsimp only at h
    split_ifs at h
    obtain rfl := Option.some.inj h
    exact ⟨hlower _ p.thread.clearTrades_toExit rfl rfl (by rw [hstop]; exact Nat.lt_succ_self _),
      fun hrunning => by cases hrunning⟩
  | stopped =>
    rw [hstop] at h
    cases h
  | _ =>
    rw [hstop] at h
    dsimp only at h
    try split_ifs at h
    all_goals
      obtain rfl := Option.some.inj h
      exact ⟨hlower _ le_rfl rfl rfl (by rw [hstop]; exact Nat.lt_succ_self _),
      fun hrunning => by cases hrunning⟩

/-- **Steps of the threads and of `stop_impl`** bring the end nearer. -/
theorem Orderly.lowers {a : ProcessAction} (h : p.Orderly dv origin) (hstop : p.stop ≠ .running) (ha : p.Productive a)
    (hstep : p.step json dv a = some p') : p'.toStopped < p.toStopped ∧ p'.stop ≠ .running := by
  cases a with
  | send command => exact absurd ha id
  | engine =>
    obtain ⟨thread, out, hpass, rfl⟩ := engineNext_eq hstep
    refine ⟨?_, hstop⟩
    have hnearer := (EngineThread.pass_stopped (by rw [h.running, decide_eq_false hstop]) hpass).2
    have hwriter : ({ p.writer with dbRx := p.writer.dbRx ++ out } : DbWriter).toExit =
        p.writer.toExit + out.length := by
      simp only [DbWriter.toExit, List.length_append]
      omega
    change p.stop.left + thread.toExit + ({ p.writer with dbRx := p.writer.dbRx ++ out } : DbWriter).toExit +
      p.wal.toExit < p.toStopped
    rw [hwriter, toStopped]
    omega
  | writer overdue db =>
    obtain ⟨writer, hpass, rfl⟩ := Option.map_eq_some_iff.1 hstep
    refine ⟨?_, hstop⟩
    have hnearer := DbWriter.pass_toExit hpass ha
    change p.stop.left + p.thread.toExit + writer.toExit + p.wal.toExit < p.toStopped
    rw [toStopped]
    omega
  | wal disk =>
    obtain ⟨wal, hpass, rfl⟩ := Option.map_eq_some_iff.1 hstep
    refine ⟨?_, hstop⟩
    have hnearer := WalThread.pass_toExit hpass
    change p.stop.left + p.thread.toExit + p.writer.toExit + wal.toExit < p.toStopped
    rw [toStopped]
    omega
  | stop => exact stopNext_toStopped hstep

/-- The writer takes what fills its channel. -/
theorem Orderly.engine_or_writer (h : p.Orderly dv origin) (hexited : p.thread.hasExited = false) :
    ∃ a p', p.Productive a ∧ p.step json dv a = some p' := by
  have hphase : p.thread.phase ≠ .exited := fun hphase => by
    rw [EngineThread.hasExited_iff.2 hphase] at hexited
    cases hexited
  obtain ⟨thread, out, hpass⟩ := EngineThread.exists_pass dv hphase
  rcases p.writer.accept_or_full out with haccept | hne
  · exact ⟨.engine, _, trivial, by rw [EngineProcess.step, engineNext, hpass, Option.bind_some, haccept]; rfl⟩
  · have hwriter : p.writer.phase ≠ .exited := fun hexit => hne (h.drained hexit).dbRx
    obtain ⟨writer, hwriter⟩ := DbWriter.exists_pass (fun _ => .ok) false hwriter
    exact ⟨.writer false fun _ => .ok, _, .inl hne, by rw [EngineProcess.step, hwriter]; rfl⟩

/-- **Once it has been called, `stop_impl` or a thread that it waits for goes on.** -/
theorem Orderly.progress (h : p.Orderly dv origin) (hstop : p.stop ≠ .running) :
    p.stop = .stopped ∨ ∃ a p', p.Productive a ∧ p.step json dv a = some p' := by
  have hnext : ∀ p', p.stopNext = some p' → ∃ a p', p.Productive a ∧ p.step json dv a = some p' :=
    fun p' hp' => ⟨.stop, p', trivial, hp'⟩
  have hjoined := h.joined
  have hdb := h.dbSenders
  have hwal := h.walSenders
  cases hat : p.stop with
  | running => exact absurd hat hstop
  | stopped => exact .inl rfl
  | flagged =>
    right
    cases hheld : p.executorHeld with
    | false => exact hnext _ (by rw [EngineProcess.stopNext, hat, hheld]; rfl)
    | true =>
      -- the engine thread is in the middle of its trades
      refine h.engine_or_writer ?_
      rw [executorHeld] at hheld
      rw [EngineThread.hasExited]
      cases hphase : p.thread.phase with
      | exited => simp [hphase] at hheld
      | _ => rfl
  | dbClosed =>
    right
    cases hexited : p.thread.hasExited with
    | false => exact h.engine_or_writer hexited
    | true => exact hnext _ (by rw [EngineProcess.stopNext, hat]; dsimp only; rw [hexited, if_pos rfl])
  | engineJoined =>
    right
    rw [hat] at hjoined hwal
    rw [hjoined.engine (by decide)] at hwal
    cases hexited : p.wal.exited with
    | true => exact hnext _ (by rw [EngineProcess.stopNext, hat]; dsimp only; rw [hexited, if_pos rfl])
    | false =>
      obtain ⟨wal, hpass⟩ := WalThread.exists_pass json WalLog.syncs hexited hwal
      exact ⟨.wal WalLog.syncs, _, trivial, by rw [EngineProcess.step, hpass]; rfl⟩
  | walJoined =>
    right
    rw [hat] at hjoined hdb
    rw [hjoined.engine (by decide)] at hdb
    by_cases hexit : p.writer.phase = .exited
    · exact hnext _ (by rw [EngineProcess.stopNext, hat]; dsimp only; rw [if_pos hexit])
    · obtain ⟨writer, hpass⟩ := DbWriter.exists_pass (fun _ => .ok) false hexit
      exact ⟨.writer false fun _ => .ok, _, .inr hdb, by rw [EngineProcess.step, hpass]; rfl⟩
  | _ => exact .inr (hnext _ (by rw [EngineProcess.stopNext, hat]))

/-- **Shutdown completes.** From wherever the threads are when `stop_impl` is called, and from any
later state: the threads and `stop_impl` cannot go on for ever, one of them can go on until
`stop_impl` is through, and so they get it done. -/
theorem stop_completes (json : SerdeJson) (dv : Decimal → Decimal → Decimal) (origin : Engine) (orders : OrdersTable)
    (opened : Bool) {as : List ProcessAction}
    (hrun : Machine.run (EngineProcess.step json dv) (.start origin orders opened) as = some p)
    (hstop : p.stop ≠ .running) :
    Acc (Machine.Next (EngineProcess.step json dv) Productive) p ∧
      (p.stop = .stopped ∨ ∃ a p', p.Productive a ∧ p.step json dv a = some p') ∧
      ∃ bs p', Machine.run (EngineProcess.step json dv) p bs = some p' ∧
        Machine.Each (EngineProcess.step json dv) Productive p bs ∧ p'.stop = .stopped := by
  have h : p.Orderly dv origin :=
    Machine.run_inv (fun _ _ _ h hstep => h.step hstep) (Orderly.start dv origin orders opened) hrun
  have hlowers : ∀ (q : EngineProcess) a (q' : EngineProcess), q.Orderly dv origin ∧ q.stop ≠ .running →
      q.Productive a → q.step json dv a = some q' →
        (q'.Orderly dv origin ∧ q'.stop ≠ .running) ∧ q'.toStopped < q.toStopped :=
    fun q a q' hq ha hstep => ⟨⟨hq.1.step hstep, (hq.1.lowers hq.2 ha hstep).2⟩, (hq.1.lowers hq.2 ha hstep).1⟩
  have hacc : Acc (Machine.Next (EngineProcess.step json dv) Productive) p :=
    Machine.acc_of_lowers wellFounded_lt toStopped hlowers ⟨h, hstop⟩
  refine ⟨hacc, h.progress hstop, ?_⟩
  have hprogress : ∀ q : EngineProcess, q.Orderly dv origin ∧ q.stop ≠ .running →
      q.stop = .stopped ∨ ∃ a q', q.Productive a ∧ q.step json dv a = some q' := fun q hq => hq.1.progress hq.2
  exact Machine.exists_end (fun q a q' hq ha hstep => (hlowers q a q' hq ha hstep).1) hprogress hacc ⟨h, hstop⟩

/-- Two sells wait for a buy that takes both. `stop_impl` is called between its trades. -/
theorem stop_completes_held :
    ∃ p, Machine.run (EngineProcess.step WalLog.cancelJson (· / ·))
        (.start (.start ((BalanceCache.new.setBalance 1 "USDT" 100 0).setBalance 2 "SOL" 2 0)) ∅ true)
        ([.send (.submitOrder (limitOrder 1 2 .sell 10 1)), .send (.submitOrder (limitOrder 2 2 .sell 10 1)),
          .send (.submitOrder (limitOrder 3 1 .buy 10 2))] ++ List.replicate 12 .engine ++ [.stop]) = some p ∧
      p.executorHeld = true ∧
      ∃ bs p', Machine.run (EngineProcess.step WalLog.cancelJson (· / ·)) p bs = some p' ∧ p'.stop = .stopped := by
  obtain ⟨p, hrun, hstop, hheld⟩ := Machine.exists_run (EngineProcess.step WalLog.cancelJson (· / ·))
    (.start (.start ((BalanceCache.new.setBalance 1 "USDT" 100 0).setBalance 2 "SOL" 2 0)) ∅ true)
    ([.send (.submitOrder (limitOrder 1 2 .sell 10 1)), .send (.submitOrder (limitOrder 2 2 .sell 10 1)),
      .send (.submitOrder (limitOrder 3 1 .buy 10 2))] ++ List.replicate 12 .engine ++ [.stop])
    (fun p => p.stop ≠ .running ∧ p.executorHeld = true) (by decide +kernel)
  obtain ⟨-, -, bs, p', hbs, -, hstopped⟩ := stop_completes WalLog.cancelJson (· / ·) _ ∅ true hrun hstop
  exact ⟨p, hrun, hheld, bs, p', hbs, hstopped⟩

end EngineProcess

end CexEngine
