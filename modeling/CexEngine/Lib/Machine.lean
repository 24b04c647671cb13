import Mathlib.Data.Option.Basic

/-!
# Machines

A machine is a partial step function: `step s a` is the state after the action `a`, if `a` is
enabled in `s`. Interleavings of several parties are the action lists of one machine.

* `run`: the state after a list of actions, if each is enabled where it is taken.
* `Each`: every action is taken in a state where a condition holds of it.
* `run_inv`, `run_inv_of`: the invariant rules. `run_extends`: what is only added to.
* `acc_of_lowers`, `exists_end`: what ends, and that it ends well.
-/

namespace Machine

variable {σ α : Type*} (step : σ → α → Option σ)

/-- The state after some actions. -/
def run : σ → List α → Option σ
  | s, [] => some s
  | s, a :: as => (step s a).bind fun t => run t as

/-- `P` holds of every action where it is taken. -/
def Each (P : σ → α → Prop) : σ → List α → Prop
  | _, [] => True
  | s, a :: as => P s a ∧ ∀ t ∈ step s a, Each P t as

instance Each.decidable (P : σ → α → Prop) [∀ s a, Decidable (P s a)] :
    (s : σ) → (as : List α) → Decidable (Each step P s as)
  | _, [] => inferInstanceAs (Decidable True)
  | s, a :: as =>
    have : Decidable (∀ t ∈ step s a, Each step P t as) :=
      match step s a with
      | none => isTrue fun _ h => nomatch h
      | some t =>
        have := Each.decidable P t as
        decidable_of_iff (Each step P t as) (by simp)
    inferInstanceAs (Decidable (P s a ∧ _))

variable {step} {s t : σ} {a : α} {as : List α}

theorem run_cons : run step s (a :: as) = some t ↔ ∃ u, step s a = some u ∧ run step u as = some t :=
  Option.bind_eq_some_iff

theorem run_append {bs : List α} :
    run step s (as ++ bs) = some t ↔ ∃ u, run step s as = some u ∧ run step u bs = some t := by
  induction as generalizing s with
  | nil => simp [run]
  | cons a as ih =>
    rw [List.cons_append, run_cons]
    simp only [ih, run_cons]
    constructor
    · rintro ⟨v, hv, u, hu, ht⟩
      exact ⟨u, ⟨v, hv, hu⟩, ht⟩
    · rintro ⟨u, ⟨v, hv, hu⟩, ht⟩
      exact ⟨v, hv, u, hu, ht⟩

/-- A run found by evaluation. -/
theorem exists_run (step : σ → α → Option σ) (s : σ) (as : List α) (p : σ → Prop) [DecidablePred p]
    (h : (run step s as).any (fun t => p t) = true) : ∃ t, run step s as = some t ∧ p t := by
  obtain ⟨t, ht, hp⟩ := (Option.any_eq_true _ _).1 h
  exact ⟨t, ht, of_decide_eq_true hp⟩

section Each

variable {P : σ → α → Prop}

/-- **Invariant rule**, for runs whose actions meet a condition. -/
theorem run_inv_of {I : σ → Prop} (hstep : ∀ s a t, I s → P s a → step s a = some t → I t) :
    ∀ {as : List α} {s t : σ}, I s → Each step P s as → run step s as = some t → I t := by
  intro as
  induction as with
  | nil =>
    intro s t hs _ hrun
    obtain rfl := Option.some.inj hrun
    exact hs
  | cons a as ih =>
    intro s t hs heach hrun
    obtain ⟨u, hu, hrun⟩ := run_cons.1 hrun
    exact ih (hstep s a u hs heach.1 hu) (heach.2 u hu) hrun

end Each

/-- **Invariant rule.** What the actions keep, runs keep. -/
theorem run_inv {I : σ → Prop} (hstep : ∀ s a t, I s → step s a = some t → I t) (hs : I s)
    (hrun : run step s as = some t) : I t := by
  refine run_inv_of (P := fun _ _ => True) (fun s a t hI _ => hstep s a t hI) hs ?_ hrun
  clear hrun hs
  induction as generalizing s with
  | nil => trivial
  | cons a as ih => exact ⟨trivial, fun t _ => ih⟩

/-- **Log rule.** A log that every action only adds to is added to by runs. -/
theorem run_extends {β : Type*} {I : σ → Prop} {log : σ → List β} (hI : ∀ s a t, I s → step s a = some t → I t)
    (hlog : ∀ s a t, I s → step s a = some t → log s <+: log t) (hs : I s) (hrun : run step s as = some t) :
    log s <+: log t := by
  have hboth : I t ∧ log s <+: log t := run_inv (I := fun u => I u ∧ log s <+: log u)
    (fun u a v hu hv => ⟨hI u a v hu.1 hv, hu.2.trans (hlog u a v hu.1 hv)⟩) ⟨hs, List.prefix_rfl⟩ hrun
  exact hboth.2

section Ends

variable {I done : σ → Prop} {P : σ → α → Prop}

/-- `t` comes after `s` by an action that meets a condition. -/
def Next (step : σ → α → Option σ) (P : σ → α → Prop) (t s : σ) : Prop := ∃ a, P s a ∧ step s a = some t

/-- **Termination rule.** If the actions that meet a condition lower a measure, no state begins an
infinite run of them. -/
theorem acc_of_lowers {β : Type*} {r : β → β → Prop} (hr : WellFounded r) (measure : σ → β)
    (hstep : ∀ s a t, I s → P s a → step s a = some t → I t ∧ r (measure t) (measure s)) (hs : I s) :
    Acc (Next step P) s := by
  induction hb : measure s using hr.induction generalizing s with
  | h b ih =>
    refine Acc.intro s fun t hnext => ?_
    obtain ⟨a, hP, ht⟩ := hnext
    obtain ⟨hI, hlower⟩ := hstep s a t hs hP ht
    exact ih _ (hb ▸ hlower) hI rfl

/-- **Progress rule.** If there is always such an action until all is done, then some run of them
gets it done. -/
theorem exists_end (hI : ∀ s a t, I s → P s a → step s a = some t → I t)
    (hprogress : ∀ s, I s → done s ∨ ∃ a t, P s a ∧ step s a = some t) (hacc : Acc (Next step P) s) (hs : I s) :
    ∃ as t, run step s as = some t ∧ Each step P s as ∧ done t := by
  induction hacc with
  | intro s _ ih =>
    rcases hprogress s hs with hdone | ⟨a, t, hP, ht⟩
    · exact ⟨[], s, rfl, trivial, hdone⟩
    · obtain ⟨as, u, hrun, heach, hu⟩ := ih t ⟨a, hP, ht⟩ (hI s a t hs hP ht)
      refine ⟨a :: as, u, run_cons.2 ⟨t, ht, hrun⟩, ⟨hP, fun t' ht' => ?_⟩, hu⟩
      obtain rfl := Option.some.inj (ht.symm.trans ht')
      exact heach

end Ends

end Machine
