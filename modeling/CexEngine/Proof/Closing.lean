import CexEngine.Proof.Delivered
import CexEngine.Spec.Shutdown

/-!
# Threads that are stopped

* `EngineThread.pass_stopped`: **an engine thread that has been stopped begins nothing more and gets
  nearer to its end.**
* `EngineThread.clearTrades`: what it sends without the sender of the executor.
* `DbWriter.Drained`: what a DB writer leaves that has returned.
-/

namespace CexEngine

variable {dv : Decimal → Decimal → Decimal} {origin : Engine}

namespace EngineThread

variable {t t' : EngineThread} {out : List DbCommand}

theorem hasExited_iff : t.hasExited = true ↔ t.phase = .exited := by
  rw [hasExited]
  cases t.phase <;> simp

/-- The passes to the end of a thread that has been stopped, and what it may still send. -/
def toExit (t : EngineThread) : ℕ :=
  match t.phase with
  | .handling _ cmds => 2 * cmds.length + 2
  | .orders => 3
  | .again => 2
  | .top => 1
  | .exited => 0

/-- A request in hand was in hand before, or it has just been begun. -/
theorem pass_handling {done : Handled} {cmds : List DbCommand} (h : t.pass dv = some (t', out))
    (hphase : t'.phase = .handling done cmds) :
    (∃ cmd, t.phase = .handling done (cmd :: cmds) ∧ out = [cmd]) ∨ ∃ r, Serves dv t r out t' := by
  have hidle : t.inHand = [] → t'.served = t.served → False := by
    intro hfree hserved
    have hlength := congrArg List.length hserved
    rw [served, served, hfree, inHand, hphase, List.length_append, List.length_append] at hlength
    have hle := (pass_frame h).2.length_le
    simp only [List.length_singleton, List.length_nil] at hlength
    omega
  have hnew : t.inHand = [] → ∃ r, Serves dv t r out t' := by
    intro hfree
    cases (pass_cases h).takes with
    | balance r _ _ hserves => exact ⟨r, hserves⟩
    | order r _ _ _ hserves => exact ⟨r, hserves⟩
    | idle _ _ _ hserved _ => exact absurd hserved (hidle hfree)
  cases hat : t.phase with
  | exited => exact absurd hat (phase_of_pass h)
  | handling before rest =>
    rw [pass.eq_def, hat] at h
    cases rest with
    | nil =>
      obtain ⟨rfl, -⟩ := Prod.mk.inj (Option.some.inj h)
      cases hphase
    | cons cmd rest =>
      obtain ⟨rfl, rfl⟩ := Prod.mk.inj (Option.some.inj h)
      cases hphase
      exact .inl ⟨cmd, rfl, rfl⟩
  | top => exact .inr (hnew (by rw [inHand, hat]))
  | orders => exact .inr (hnew (by rw [inHand, hat]))
  | again => exact .inr (hnew (by rw [inHand, hat]))

/-- **A thread that has been stopped** begins nothing more and gets nearer to its end. -/
theorem pass_stopped (hrun : t.running = false) (h : t.pass dv = some (t', out)) :
    t'.served = t.served ∧ t'.toExit + out.length < t.toExit := by
  have hreceived : ∀ (r : Request) (rest : List Request), t.received dv r rest =
      { t with orderRx := rest, phase := .exited } := by
    intro r rest
    rw [received]
    dsimp only
    rw [hrun, if_neg Bool.false_ne_true]
  cases hphase : t.phase with
  | exited => exact absurd hphase (phase_of_pass h)
  | handling done cmds =>
    rw [pass.eq_def, hphase] at h
    cases cmds with
    | nil =>
      obtain ⟨rfl, rfl⟩ := Prod.mk.inj (Option.some.inj h)
      simp [served, inHand, toExit, hphase]
    | cons cmd cmds =>
      obtain ⟨rfl, rfl⟩ := Prod.mk.inj (Option.some.inj h)
      refine ⟨by simp [served, inHand, hphase], ?_⟩
      simp only [toExit, hphase, List.length_cons, List.length_nil]
      omega
  | top =>
    rw [pass.eq_def, hphase] at h
    simp only [hrun, Bool.not_false, if_true] at h
    obtain ⟨rfl, rfl⟩ := Prod.mk.inj (Option.some.inj h)
    simp [served, inHand, toExit, hphase]
  | orders =>
    rw [pass.eq_def, hphase] at h
    dsimp only at h
    split at h
    · obtain ⟨rfl, rfl⟩ := Prod.mk.inj (Option.some.inj h)
      rw [hreceived]
      simp [served, inHand, toExit, hphase]
    · split_ifs at h <;> obtain ⟨rfl, rfl⟩ := Prod.mk.inj (Option.some.inj h) <;>
        simp [served, inHand, toExit, hphase]
  | again =>
    rw [pass.eq_def, hphase] at h
    dsimp only at h
    split at h
    · obtain ⟨rfl, rfl⟩ := Prod.mk.inj (Option.some.inj h)
      rw [hreceived]
      simp [served, inHand, toExit, hphase]
    · split_ifs at h <;> obtain ⟨rfl, rfl⟩ := Prod.mk.inj (Option.some.inj h) <;>
        simp [served, inHand, toExit, hphase]

/-- Nothing is begun, so what is sent was to be sent. -/
theorem dbOut_of_served (h : t.pass dv = some (t', out)) (hserved : t'.served = t.served) : t.dbOut = out ++ t'.dbOut := by
  have hnot : ∀ r, ¬ Serves dv t r out t' := by
    intro r hserves
    have hmore := hserves.served
    rw [hserved] at hmore
    simp at hmore
  cases (pass_cases h).takes with
  | balance r _ _ hserves => exact absurd hserves (hnot r)
  | order r _ _ _ hserves => exact absurd hserves (hnot r)
  | idle _ _ _ _ hout => exact hout

theorem exists_pass (dv : Decimal → Decimal → Decimal) (hphase : t.phase ≠ .exited) :
    ∃ t' out, t.pass dv = some (t', out) := by
  cases hpass : t.pass dv with
  | some r => exact ⟨r.1, r.2, rfl⟩
  | none =>
    rw [pass.eq_def] at hpass
    split at hpass
    · exact absurd (by assumption) hphase
    · cases hpass
    · cases hpass
    · split_ifs at hpass
      all_goals
        split at hpass <;> cases hpass
    all_goals
      split at hpass
      · cases hpass
      · split_ifs at hpass

theorem clearTrades_served (t : EngineThread) : t.clearTrades.served = t.served := by
  rw [clearTrades]
  split
  · simp [served, inHand, *]
  · rfl

theorem clearTrades_dbOut (t : EngineThread) : t.clearTrades.dbOut = t.dbOut.filter fun cmd => !cmd.isTrade := by
  rw [clearTrades]
  split
  · simp [dbOut, *]
  · rename_i hphase
    have hnil : t.dbOut = [] := by
      rw [dbOut]
      split
      · exact absurd (by assumption) (hphase _ _)
      · rfl
    rw [hnil]
    rfl

theorem clearTrades_hasExited (t : EngineThread) : t.clearTrades.hasExited = t.hasExited := by
  rw [clearTrades]
  split
  · simp [hasExited, *]
  · rfl

theorem clearTrades_commands (t : EngineThread) : t.clearTrades.commands = t.commands := by
  rw [commands, commands, begun_of_served (clearTrades_served t)]

/-- All else stays. -/
theorem clearTrades_frame (t : EngineThread) : t.clearTrades.engine = t.engine ∧ t.clearTrades.balanceRx = t.balanceRx ∧
    t.clearTrades.orderRx = t.orderRx ∧ t.clearTrades.sent = t.sent ∧ t.clearTrades.running = t.running := by
  rw [clearTrades]
  split <;> exact ⟨rfl, rfl, rfl, rfl, rfl⟩

theorem Serial.clearTrades (h : t.Serial dv origin) : t.clearTrades.Serial dv origin := by
  obtain ⟨hengine, hbalanceRx, horderRx, hsent, hrunning⟩ := clearTrades_frame t
  have hbegun := begun_of_served (clearTrades_served t)
  constructor
  · rw [hengine, clearTrades_commands]
    exact h.engine
  · rw [clearTrades_served, hbegun]
    exact h.served
  · rw [hsent, hbegun, hbalanceRx]
    exact h.balance
  · rw [hsent, hbegun, horderRx, hrunning, ← hasExited_iff, clearTrades_hasExited, hasExited_iff]
    exact h.order

theorem clearTrades_toExit (t : EngineThread) : t.clearTrades.toExit ≤ t.toExit := by
  rw [clearTrades]
  split
  · rename_i done cmds hphase
    simp only [toExit, hphase]
    have := List.length_filter_le (fun cmd : DbCommand => !cmd.isTrade) cmds
    omega
  · exact le_rfl

end EngineThread

namespace DbWriter

variable {w w' : DbWriter} {db : ℕ → Attempt} {overdue : Bool}

/-- What a writer leaves that has returned. -/
structure Drained (w : DbWriter) : Prop where
  dbRx : w.dbRx = []
  connected : w.connected = false
  committed : (∀ f ∈ w.flushes.getLast?, f.isOk = true) →
    (w.received.filter fun cmd => !cmd.isUpdateBalance).Subperm w.committed

/-- A flush that succeeds commits all that was received. -/
theorem Keeps.flush_ok (h : w.Keeps) (hok : (flushBatch db w.batch w.orders).isOk = true) :
    (w.received.filter fun cmd => !cmd.isUpdateBalance).Subperm (w.flush db).committed := by
  obtain ⟨-, ⟨-, hcommitted, -⟩ | ⟨hfail, -⟩⟩ := flushBatch_cases db w.batch w.orders
  · rw [committed_flush, hcommitted]
    have hkept := h.kept.filter fun cmd => !cmd.isUpdateBalance
    rw [List.filter_filter, List.filter_append] at hkept
    simp only [Bool.and_self] at hkept
    exact hkept.trans (List.filter_sublist.subperm.append (processedBatch_perm w.batch).symm.subperm)
  · rw [hok] at hfail
    cases hfail

theorem Keeps.drained (h : w.Keeps) (hpass : w.pass db overdue = some w') (hexit : w'.phase = .exited) : w'.Drained := by
  obtain ⟨hrx, hconnected, rfl⟩ := pass_exited hpass hexit
  rw [flushNonempty]
  split_ifs with hbatch
  · refine ⟨hrx, hconnected, fun _ => ?_⟩
    have hkept := h.kept
    rw [hbatch, List.append_nil] at hkept
    exact hkept
  · refine ⟨hrx, hconnected, fun hok => h.flush_ok ?_⟩
    exact hok _ (by simp)

end DbWriter

end CexEngine
