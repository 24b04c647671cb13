import CexEngine.Proof.Delivered
import CexEngine.Spec.Shutdown

/-!
# What a stop cuts off

`stop_impl` takes its sender from the executor, between the trades of two requests or before or
after the trades of one.

* `Engine.Logs`: what some commands send to the DB writer, if the trades of the last one may be cut
  off: all of them, never some.
-/

namespace CexEngine

variable {dv : Decimal → Decimal → Decimal} {origin : Engine}

/-- If the `p`s of a list are in one piece, and it is cut, but not between two of them, then all of
them are on one side. -/
theorem filter_of_cut {α : Type*} {p : α → Bool} {front back before piece after : List α}
    (happ : front ++ back = before ++ (piece ++ after)) (hbefore : ∀ x ∈ before, p x = false)
    (hpiece : ∀ x ∈ piece, p x = true) (hafter : ∀ x ∈ after, p x = false)
    (hcut : ¬ (front.getLast?.any p = true ∧ back.head?.any p = true)) :
    (∀ x ∈ front, p x = false) ∨ ∀ x ∈ back, p x = false := by
  rcases List.append_eq_append_iff.1 happ with ⟨rest, hfront, -⟩ | ⟨start, hfront, hback⟩
  · -- it is cut before the piece
    exact .inl fun x hx => hbefore x (hfront ▸ List.mem_append_left _ hx)
  rcases List.append_eq_append_iff.1 hback with ⟨rest, -, hrest⟩ | ⟨rest, hstart, hrest⟩
  · -- behind it
    exact .inr fun x hx => hafter x (hrest ▸ List.mem_append_right _ hx)
  · -- in the piece
    have hstartp : ∀ x ∈ start, p x = true := fun x hx => hpiece x (hstart ▸ List.mem_append_left _ hx)
    have hrestp : ∀ x ∈ rest, p x = true := fun x hx => hpiece x (hstart ▸ List.mem_append_right _ hx)
    rcases List.eq_nil_or_concat start with rfl | ⟨init, last, rfl⟩
    · left
      intro x hx
      rw [hfront, List.append_nil] at hx
      exact hbefore x hx
    cases rest with
    | nil =>
      right
      intro x hx
      rw [hrest, List.nil_append] at hx
      exact hafter x hx
    | cons next rest =>
      refine absurd ⟨?_, ?_⟩ hcut
      · rw [hfront]
        simpa using hstartp last (by simp)
      · rw [hrest]
        simpa using hrestp next List.mem_cons_self

/-- What some commands send to the DB writer; the trades of the last one may all be missing. -/
def Engine.Logs (dv : Decimal → Decimal → Decimal) (origin : Engine) (cs : List Command) (sent : List DbCommand) :
    Prop :=
  sent = origin.dbLog dv cs ∨
    ∃ done c, cs = done ++ [c] ∧
      sent = origin.dbLog dv done ++ ((origin.run dv done).dbCommands dv c).filter fun cmd => !cmd.isTrade

theorem executeTrades_isTrade : ∀ (ms : List MatchResult) (c : BalanceCache),
    ∀ cmd ∈ (c.executeTrades false ms).2.flatMap fun t => (t.2.toOption).getD [], cmd.isTrade = true := by
  intro ms
  induction ms with
  | nil => intro c cmd hcmd; exact absurd hcmd List.not_mem_nil
  | cons m ms ih =>
    intro c cmd hcmd
    rw [BalanceCache.executeTrades_cons, List.flatMap_cons] at hcmd
    rcases List.mem_append.1 hcmd with hcmd | hcmd
    · cases hr : (c.executeTrade m false).2 with
      | error e =>
        rw [hr] at hcmd
        exact absurd hcmd List.not_mem_nil
      | ok cmds =>
        rcases BalanceCache.executeTrade_cases c m false with ⟨-, herr, -⟩ | ⟨-, -, herr, -⟩ | ⟨-, -, hok, -⟩
        · rw [hr] at herr
          cases herr
        · rw [hr] at herr
          cases herr
        · rw [hok] at hcmd
          obtain rfl := List.mem_singleton.1 hcmd
          rfl
    · exact ih _ cmd hcmd

/-- The lock comes first, then the trades, and the statuses last. -/
theorem dbCommands_pieces (dv : Decimal → Decimal → Decimal) (s : Engine) (c : Command) :
    ∃ locks trades statuses, s.dbCommands dv c = locks ++ (trades ++ statuses) ∧
      (∀ cmd ∈ locks, cmd.isTrade = false) ∧ (∀ cmd ∈ trades, cmd.isTrade = true) ∧
      ∀ cmd ∈ statuses, cmd.isTrade = false := by
  have hnone : ∃ locks trades statuses, ([] : List DbCommand) = locks ++ (trades ++ statuses) ∧
      (∀ cmd ∈ locks, cmd.isTrade = false) ∧ (∀ cmd ∈ trades, cmd.isTrade = true) ∧
      ∀ cmd ∈ statuses, cmd.isTrade = false := ⟨[], [], [], rfl, by simp, by simp, by simp⟩
  cases c with
  | submitOrder order =>
    rw [Engine.dbCommands, processSubmitOrder]
    dsimp only
    split
    · exact hnone
    · split_ifs
      · refine ⟨[.updateBalance order.userId order.lock.1 (some (-order.lock.2)) (some order.lock.2)], [], [], rfl,
          ?_, by simp, by simp⟩
        simp [DbCommand.isTrade]
      · rw [finishLimitOrder]
        refine ⟨_, _, _, by rw [List.append_assoc, List.append_assoc], ?_, executeTrades_isTrade _ _, ?_⟩
        · simp [DbCommand.isTrade]
        · intro cmd hcmd
          rcases List.mem_append.1 hcmd with hcmd | hcmd
          all_goals
            split_ifs at hcmd
            · obtain rfl := List.mem_singleton.1 hcmd
              rfl
            · exact absurd hcmd List.not_mem_nil
  | _ => exact hnone

end CexEngine
