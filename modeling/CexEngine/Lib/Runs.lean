import CexEngine.Lib.History

/-!
# Runs

The run of a step function that is defined everywhere is a fold over the actions.

* `Runs.inv`: the invariant rule.
* `Runs.steps_iff`: when a fact holds of every step of a run.
* `Runs.states_iff`: when a fact holds in every state of a run.
-/

namespace Runs

variable {σ α : Type*} {step : σ → α → σ} {I : σ → Prop} {ok : α → Prop}

/-- **Invariant rule.** What the admitted actions keep holds along a run of them. -/
theorem inv (hstep : ∀ s a, I s → ok a → I (step s a)) :
    ∀ (as : List α) (s : σ), I s → (∀ a ∈ as, ok a) → I (as.foldl step s) := by
  intro as
  induction as with
  | nil => intro s h _; exact h
  | cons a as ih =>
    intro s h hok
    exact ih _ (hstep s a h (hok a List.mem_cons_self)) fun b hb => hok b (List.mem_cons_of_mem _ hb)

/-- **Rule for every step of a run.** If a step has `prop` exactly when it is `good`, where the
good steps keep what this needs, then all steps of a run have `prop` exactly when all are `good`. -/
theorem steps_iff (prop good : σ → α → Prop) (hI : ∀ s a, I s → ok a → good s a → I (step s a))
    (hiff : ∀ s a, I s → ok a → (prop s a ↔ good s a)) :
    ∀ (as : List α) (s : σ), I s → (∀ a ∈ as, ok a) →
      ((∀ done a more, as = done ++ a :: more → prop (done.foldl step s) a) ↔
        ∀ done a more, as = done ++ a :: more → good (done.foldl step s) a) := by
  intro as
  induction as with
  | nil =>
    intro s _ _
    exact iff_of_true (fun done a more h => by simp at h) fun done a more h => by simp at h
  | cons a as ih =>
    intro s hs hok
    obtain ⟨ha, has⟩ := List.forall_mem_cons.1 hok
    have hcons : ∀ Q : σ → α → Prop, (∀ done b more, a :: as = done ++ b :: more → Q (done.foldl step s) b) ↔
        Q s a ∧ ∀ done b more, as = done ++ b :: more → Q (done.foldl step (step s a)) b :=
      fun Q => History.each_cons (P := fun done b => Q (done.foldl step s) b)
    rw [hcons, hcons, hiff s a hs ha]
    exact and_congr_right fun hgood => ih _ (hI s a hs ha hgood) has

/-- **Rule for every state of a run.** If a step keeps `P` exactly when it is not `bad`, then `P`
holds in every state of a run exactly when no step of it is `bad`. -/
theorem states_iff {P : σ → Prop} (bad : σ → α → Prop) (hI : ∀ s a, I s → ok a → I (step s a))
    (hstep : ∀ s a, I s → P s → ok a → (P (step s a) ↔ ¬ bad s a)) (as : List α) (s : σ) (hs : I s) (hP : P s)
    (hok : ∀ a ∈ as, ok a) :
    (∀ done more, as = done ++ more → P (done.foldl step s)) ↔
      ∀ done a more, as = done ++ a :: more → ¬ bad (done.foldl step s) a := by
  rw [← steps_iff (I := fun s => I s ∧ P s) (fun s a => P (step s a)) (fun s a => ¬ bad s a)
    (fun s a h ha hbad => ⟨hI s a h.1 ha, (hstep s a h.1 h.2 ha).2 hbad⟩) (fun s a h ha => hstep s a h.1 h.2 ha)
    as s ⟨hs, hP⟩ hok]
  constructor
  · intro h done a more he
    have := h (done ++ [a]) more (by rw [he]; simp)
    rwa [List.foldl_append] at this
  · intro h done more he
    rcases List.eq_nil_or_concat done with rfl | ⟨done, a, rfl⟩
    · exact hP
    · rw [List.concat_eq_append, List.foldl_append]
      exact h done a more (by rw [he]; simp)

end Runs
