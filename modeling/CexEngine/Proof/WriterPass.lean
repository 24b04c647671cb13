import CexEngine.Spec.DbWriter

/-!
# A pass of the DB writer

* `DbWriter.pass_cases`: the thread takes a command or not, then it flushes or not.
* `DbWriter.run_keeps`: the invariant rule for what taking a command and flushing keep.
* `DbWriter.pass_toExit`: while something waits for it, or its channel is closed, the thread gets on.
-/

namespace CexEngine

variable {db : ℕ → Attempt}

namespace DbWriter

variable {w w' : DbWriter} {a : WriterAction}

@[simp] theorem flush_received : (w.flush db).received = w.received := rfl

@[simp] theorem flush_flushes : (w.flush db).flushes = w.flushes ++ [flushBatch db w.batch w.orders] := rfl

@[simp] theorem flush_batch : (w.flush db).batch = (flushBatch db w.batch w.orders).batch := rfl

@[simp] theorem flush_orders : (w.flush db).orders = (flushBatch db w.batch w.orders).orders := rfl

@[simp] theorem committed_flush : (w.flush db).committed = w.committed ++ (flushBatch db w.batch w.orders).committed := by
  simp [committed]

/-- The same batch, table and records. -/
structure SameWork (w w' : DbWriter) : Prop where
  batch : w'.batch = w.batch
  orders : w'.orders = w.orders
  received : w'.received = w.received
  flushes : w'.flushes = w.flushes

theorem SameWork.phase {phase : WriterPhase} (h : w.SameWork w') : w.SameWork { w' with phase } :=
  ⟨h.batch, h.orders, h.received, h.flushes⟩

theorem flushFull_sameWork (w : DbWriter) :
    (w.flushFull db).dbRx = w.dbRx ∧ (w.SameWork (w.flushFull db) ∨ (w.flush db).SameWork (w.flushFull db)) := by
  rw [flushFull]
  split_ifs
  · exact ⟨rfl, .inr ⟨rfl, rfl, rfl, rfl⟩⟩
  · exact ⟨rfl, .inl ⟨rfl, rfl, rfl, rfl⟩⟩

theorem flushNonempty_sameWork (w : DbWriter) :
    (w.flushNonempty db).dbRx = w.dbRx ∧
      (w.SameWork (w.flushNonempty db) ∨ (w.flush db).SameWork (w.flushNonempty db)) := by
  rw [flushNonempty]
  split_ifs
  · exact ⟨rfl, .inl ⟨rfl, rfl, rfl, rfl⟩⟩
  · exact ⟨rfl, .inr ⟨rfl, rfl, rfl, rfl⟩⟩

/-- **What the thread can do between two reads**: take a command or not, then flush or not. -/
theorem pass_cases {overdue : Bool} (h : w.pass db overdue = some w') :
    ∃ u, (u = w ∨ ∃ cmd rest, w.dbRx = cmd :: rest ∧ u = w.take cmd rest) ∧ w'.dbRx = u.dbRx ∧
      (u.SameWork w' ∨ (u.flush db).SameWork w') := by
  rw [pass.eq_def] at h
  split at h
  · cases h
  · -- the top of the loop finds a command
    rename_i cmd rest _ hrx
    obtain rfl := Option.some.inj h
    exact ⟨_, .inr ⟨cmd, rest, hrx, rfl⟩, (flushFull_sameWork _).1, (flushFull_sameWork _).2.imp .phase .phase⟩
  · rename_i cmd rest _ hrx
    obtain rfl := Option.some.inj h
    exact ⟨_, .inr ⟨cmd, rest, hrx, rfl⟩, (flushFull_sameWork _).1, (flushFull_sameWork _).2.imp .phase .phase⟩
  · rename_i cmd rest _ hrx
    obtain rfl := Option.some.inj h
    exact ⟨_, .inr ⟨cmd, rest, hrx, rfl⟩, rfl, .inl ⟨rfl, rfl, rfl, rfl⟩⟩
  · -- the channel is empty
    refine ⟨w, .inl rfl, ?_⟩
    split at h
    · split at h
      · split at h <;> obtain rfl := Option.some.inj h
        · exact ⟨(flushNonempty_sameWork w).1, (flushNonempty_sameWork w).2.imp .phase .phase⟩
        · exact ⟨rfl, .inl ⟨rfl, rfl, rfl, rfl⟩⟩
      · obtain rfl := Option.some.inj h
        exact ⟨(flushNonempty_sameWork w).1, (flushNonempty_sameWork w).2.imp .phase .phase⟩
      · obtain rfl := Option.some.inj h
        exact ⟨rfl, .inl ⟨rfl, rfl, rfl, rfl⟩⟩
    · obtain rfl := Option.some.inj h
      exact ⟨(flushNonempty_sameWork w).1, (flushNonempty_sameWork w).2.imp .phase .phase⟩

theorem accept_eq {cmds : List DbCommand} (h : w.accept cmds = some w') :
    w' = { w with dbRx := w.dbRx ++ cmds } ∧ (cmds = [] ∨ w.dbRx.length < channelCapacity) := by
  rw [accept] at h
  split_ifs at h with hroom
  exact ⟨(Option.some.inj h).symm, hroom⟩

/-- A channel that is not read is full or takes more. -/
theorem accept_or_full (w : DbWriter) (cmds : List DbCommand) :
    w.accept cmds = some { w with dbRx := w.dbRx ++ cmds } ∨ w.dbRx ≠ [] := by
  by_cases hroom : cmds = [] ∨ w.dbRx.length < channelCapacity
  · exact .inl (if_pos hroom)
  · refine .inr fun hnil => hroom (.inr ?_)
    rw [hnil]
    decide

/-- **What a step can do**, seen from the batch. -/
theorem step_cases (h : w.step a = some w') :
    ∃ u, (u = w ∨ ∃ cmd rest, w.dbRx = cmd :: rest ∧ u = w.take cmd rest) ∧
      (u.SameWork w' ∨ ∃ db, (u.flush db).SameWork w') := by
  cases a with
  | send cmd =>
    rw [step] at h
    split_ifs at h
    obtain ⟨rfl, -⟩ := accept_eq h
    exact ⟨w, .inl rfl, .inl ⟨rfl, rfl, rfl, rfl⟩⟩
  | close =>
    rw [step] at h
    split_ifs at h
    obtain rfl := Option.some.inj h
    exact ⟨w, .inl rfl, .inl ⟨rfl, rfl, rfl, rfl⟩⟩
  | pass overdue db =>
    obtain ⟨u, hu, -, hsame | hflush⟩ := pass_cases h
    · exact ⟨u, hu, .inl hsame⟩
    · exact ⟨u, hu, .inr ⟨db, hflush⟩⟩

/-- What taking a command and flushing keep, runs keep. -/
theorem run_keeps {I : DbWriter → Prop} (hsame : ∀ w w', w.SameWork w' → I w → I w')
    (htake : ∀ w cmd rest, I w → I (w.take cmd rest)) (hflush : ∀ w db, I w → I (w.flush db))
    {as : List WriterAction} (hw : I w) (hrun : Machine.run DbWriter.step w as = some w') : I w' := by
  refine Machine.run_inv (fun w a w' hw h => ?_) hw hrun
  obtain ⟨u, hu, hw'⟩ := step_cases h
  have hIu : I u := by
    rcases hu with rfl | ⟨cmd, rest, -, rfl⟩
    · exact hw
    · exact htake _ _ _ hw
  rcases hw' with hs | ⟨db, hs⟩
  · exact hsame _ _ hs hIu
  · exact hsame _ _ hs (hflush _ _ hIu)

/-- The thread ends with a flush of what is left, if anything is. -/
theorem exit_cases (h : w.step a = some w') (hexit : w'.phase = .exited) :
    (w.phase = .exited ∧ w'.batch = w.batch) ∨ w'.batch = [] ∨ ∃ db, (w.flush db).SameWork w' := by
  cases a with
  | send cmd =>
    rw [step] at h
    split_ifs at h
    obtain ⟨rfl, -⟩ := accept_eq h
    exact .inl ⟨hexit, rfl⟩
  | close =>
    rw [step] at h
    split_ifs at h
    obtain rfl := Option.some.inj h
    exact .inl ⟨hexit, rfl⟩
  | pass overdue db =>
    rw [step, pass.eq_def] at h
    split at h
    · cases h
    · obtain rfl := Option.some.inj h
      cases hexit
    · obtain rfl := Option.some.inj h
      cases hexit
    · obtain rfl := Option.some.inj h
      cases hexit
    · rename_i hphase _
      split at h
      · -- still connected: another phase follows
        split at h
        · split at h <;> obtain rfl := Option.some.inj h <;> cases hexit
        · obtain rfl := Option.some.inj h
          cases hexit
        · obtain rfl := Option.some.inj h
          cases hexit
      · obtain rfl := Option.some.inj h
        refine .inr ?_
        -- the sender is gone: the last flush before the thread ends
        rw [flushNonempty]
        split_ifs with hb
        · exact .inl hb
        · exact .inr ⟨db, rfl, rfl, rfl, rfl⟩

/-! ## Its end -/

theorem pass_connected (h : w.pass db overdue = some w') : w'.connected = w.connected := by
  have hfull : ∀ u : DbWriter, (u.flushFull db).connected = u.connected := by
    intro u
    rw [flushFull]
    split_ifs <;> rfl
  have hnonempty : ∀ u : DbWriter, (u.flushNonempty db).connected = u.connected := by
    intro u
    rw [flushNonempty]
    split_ifs <;> rfl
  rw [pass.eq_def] at h
  split at h
  · cases h
  · obtain rfl := Option.some.inj h
    exact hfull _
  · obtain rfl := Option.some.inj h
    exact hfull _
  · obtain rfl := Option.some.inj h
    rfl
  · split at h
    · split at h
      · split at h <;> obtain rfl := Option.some.inj h
        · exact hnonempty w
        · rfl
      · obtain rfl := Option.some.inj h
        exact hnonempty w
      · obtain rfl := Option.some.inj h
        rfl
    · obtain rfl := Option.some.inj h
      exact hnonempty w

/-- The thread returns when the channel is closed and empty. -/
theorem pass_exited (h : w.pass db overdue = some w') (hexit : w'.phase = .exited) :
    w.dbRx = [] ∧ w.connected = false ∧ w' = { w.flushNonempty db with phase := .exited } := by
  rw [pass.eq_def] at h
  split at h
  · cases h
  · obtain rfl := Option.some.inj h
    cases hexit
  · obtain rfl := Option.some.inj h
    cases hexit
  · obtain rfl := Option.some.inj h
    cases hexit
  · rename_i hrx _
    split at h
    · split at h
      · split at h <;> obtain rfl := Option.some.inj h <;> cases hexit
      · obtain rfl := Option.some.inj h
        cases hexit
      · obtain rfl := Option.some.inj h
        cases hexit
    · rename_i hconnected
      obtain rfl := Option.some.inj h
      exact ⟨hrx, by simpa using hconnected, rfl⟩

/-- While the writer has something to do, it goes on and gets nearer to its end. -/
theorem exists_pass (db : ℕ → Attempt) (overdue : Bool) (hphase : w.phase ≠ .exited) :
    ∃ w', w.pass db overdue = some w' := by
  cases hpass : w.pass db overdue with
  | some w' => exact ⟨w', rfl⟩
  | none =>
    rw [pass.eq_def] at hpass
    split at hpass
    · exact absurd (by assumption) hphase
    · cases hpass
    · cases hpass
    · cases hpass
    · split at hpass
      · split at hpass
        · split at hpass <;> cases hpass
        · cases hpass
        · cases hpass
      · cases hpass

/-- The passes to the end of a writer that is sent nothing more. -/
def toExit (w : DbWriter) : ℕ := w.dbRx.length + if w.phase = .exited then 0 else 1

theorem pass_toExit (h : w.pass db overdue = some w') (hwork : w.dbRx ≠ [] ∨ w.connected = false) :
    w'.toExit < w.toExit := by
  have hphase : w.phase ≠ .exited := by
    intro hphase
    rw [pass.eq_def, hphase] at h
    cases h
  rw [toExit, toExit, if_neg hphase]
  cases hrx : w.dbRx with
  | cons cmd rest =>
    -- a command is taken
    have hrest : w'.dbRx = rest := by
      rw [pass.eq_def, hrx] at h
      cases hat : w.phase with
      | exited => exact absurd hat hphase
      | again =>
        rw [hat] at h
        obtain rfl := Option.some.inj h
        rfl
      | top =>
        rw [hat] at h
        obtain rfl := Option.some.inj h
        exact (flushFull_sameWork _).1
      | waiting =>
        rw [hat] at h
        obtain rfl := Option.some.inj h
        exact (flushFull_sameWork _).1
    rw [hrest, List.length_cons]
    split_ifs <;> omega
  | nil =>
    have hclosed : w.connected = false := hwork.resolve_left (not_not.2 hrx)
    rw [pass.eq_def, hrx] at h
    split at h
    · exact absurd (by assumption) hphase
    · contradiction
    · contradiction
    · contradiction
    · rw [hclosed, if_neg Bool.false_ne_true] at h
      obtain rfl := Option.some.inj h
      have hnone : (w.flushNonempty db).dbRx = [] := (flushNonempty_sameWork w).1.trans hrx
      simp [hnone]

end DbWriter

end CexEngine
