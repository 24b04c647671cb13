import Mathlib.Logic.Relation
import Mathlib.Order.Basic

/-!
# Loops with `break`

A `loop { .. }` or `while let` of an imperative program, as a body `σ → Pass σ`
that says whether the pass falls through to the next one or leaves the loop.

* `Pass.run`: the loop cut off after a number of passes, so that it computes.
* `Exits`: the loop leaves with a result, however many passes that takes.
* `exits_run`: where a measure drops with every pass, `run` with more passes than
  the measure is the loop itself, so nothing was cut off.
* `Exits.inv`: the invariant rule.
* `Terminates`: no sequence of passes goes on for ever; a loop that exits terminates.
* `tryRun`: the loop of a body that may fail; `tryRun_eq`: it is the loop of a body that may
  not, where an invariant says that no pass fails, and where none does (`tryRun_some`).
-/

/-- What one pass through the body of a loop does. -/
inductive Pass (σ : Type*) where
  /-- Falls through (or `continue`s) to the next pass. -/
  | next (s : σ)
  /-- Leaves the loop by a `break`. -/
  | stop (s : σ)

namespace Pass

variable {σ : Type*} (body : σ → Pass σ)

/-- The loop, cut off after `n` passes. -/
def run : ℕ → σ → σ
  | 0, s => s
  | n + 1, s =>
    match body s with
    | .next t => run n t
    | .stop t => t

/-- The passes that fall through. -/
abbrev Steps : σ → σ → Prop := Relation.ReflTransGen fun s t => body s = .next t

/-- The loop started in `s` leaves with `t`. -/
def Exits (s t : σ) : Prop := ∃ a, Steps body s a ∧ body a = .stop t

/-- Every sequence of passes from here comes to an end. -/
def Terminates (s : σ) : Prop := Acc (fun t s => body s = .next t) s

/-- The loop of a body that may fail, cut off after `n` passes. -/
def tryRun (body : σ → Option (Pass σ)) : ℕ → σ → Option σ
  | 0, s => some s
  | n + 1, s =>
    match body s with
    | none => none
    | some (.next t) => tryRun body n t
    | some (.stop t) => some t

variable {body}

/-- **No pass fails** where an invariant says so, and then the loop does not. -/
theorem tryRun_eq {tryBody : σ → Option (Pass σ)} {I : σ → Prop} (hbody : ∀ s, I s → tryBody s = some (body s))
    (hnext : ∀ s t, I s → body s = .next t → I t) : ∀ n s, I s → tryRun tryBody n s = some (run body n s) := by
  intro n
  induction n with
  | zero => intro s _; rfl
  | succ n ih =>
    intro s hs
    rw [tryRun, hbody s hs, run]
    cases hb : body s with
    | next t => exact ih t (hnext s t hs hb)
    | stop t => rfl

/-- **A loop that does not fail** is the loop of a body that the passes agree with. -/
theorem tryRun_some {tryBody : σ → Option (Pass σ)} (hbody : ∀ s p, tryBody s = some p → body s = p) :
    ∀ n s t, tryRun tryBody n s = some t → run body n s = t := by
  intro n
  induction n with
  | zero => intro s t h; exact Option.some.inj h
  | succ n ih =>
    intro s t h
    unfold tryRun at h
    unfold run
    cases hp : tryBody s with
    | none => rw [hp] at h; cases h
    | some p =>
      rw [hbody s p hp]
      rw [hp] at h
      cases p with
      | next a => exact ih a t h
      | stop a => exact Option.some.inj h

theorem Exits.of_stop {s t : σ} (h : body s = .stop t) : Exits body s t := ⟨s, .refl, h⟩

theorem Exits.of_steps {s a t : σ} (h : Steps body s a) (ht : Exits body a t) : Exits body s t := by
  obtain ⟨b, hab, hb⟩ := ht
  exact ⟨b, h.trans hab, hb⟩

/-- The first pass decides. -/
theorem Exits.of_eq {s s' t : σ} (h : body s = body s') (ht : Exits body s' t) : Exits body s t := by
  obtain ⟨a, hsa, ha⟩ := ht
  rcases Relation.ReflTransGen.cases_head hsa with rfl | ⟨b, hsb, hba⟩
  · exact ⟨s, .refl, h.trans ha⟩
  · exact ⟨a, .head (h.trans hsb) hba, ha⟩

/-- One pass, then the rest of the loop. -/
theorem exits_cases {s t : σ} (h : Exits body s t) :
    body s = .stop t ∨ ∃ a, body s = .next a ∧ Exits body a t := by
  obtain ⟨b, hsb, hb⟩ := h
  rcases Relation.ReflTransGen.cases_head hsb with rfl | ⟨a, hsa, hab⟩
  · exact Or.inl hb
  · exact Or.inr ⟨a, hsa, b, hab, hb⟩

/-- A loop has one result. -/
theorem Exits.unique {s t t' : σ} (h : Exits body s t) (h' : Exits body s t') : t = t' := by
  obtain ⟨a, hsa, ha⟩ := h
  induction hsa using Relation.ReflTransGen.head_induction_on with
  | refl =>
    rcases exits_cases h' with hs | ⟨b, hb, -⟩
    · rw [ha] at hs; exact (Pass.stop.inj hs)
    · rw [ha] at hb; cases hb
  | head hsb _ ih =>
    rcases exits_cases h' with hs | ⟨c, hc, hct⟩
    · rw [hsb] at hs; cases hs
    · rw [hsb] at hc; cases hc; exact ih hct

/-- No pass follows pass for ever. -/
theorem Terminates.not_forever {s : σ} (h : Terminates body s) :
    ¬ ∃ states : ℕ → σ, states 0 = s ∧ ∀ n, body (states n) = .next (states (n + 1)) := by
  induction h with
  | intro s _ ih =>
    rintro ⟨states, hstart, hnext⟩
    exact ih (states 1) (hstart ▸ hnext 0) ⟨fun n => states (n + 1), rfl, fun n => hnext (n + 1)⟩

/-- A loop that is left terminates. -/
theorem Exits.terminates {s t : σ} (h : Exits body s t) : Terminates body s := by
  obtain ⟨a, hsa, ha⟩ := h
  induction hsa using Relation.ReflTransGen.head_induction_on with
  | refl =>
    refine ⟨_, fun b hb => ?_⟩
    rw [ha] at hb; cases hb
  | head hsb _ ih =>
    refine ⟨_, fun b hb => ?_⟩
    rw [hsb] at hb
    exact Pass.next.inj hb ▸ ih

/-- **Invariant rule.** What the passes keep, and turn into `J` on leaving, the loop gives. -/
theorem Exits.inv {I J : σ → Prop} (hnext : ∀ s t, I s → body s = .next t → I t)
    (hstop : ∀ s t, I s → body s = .stop t → J t) {s t : σ} (h : Exits body s t) (hs : I s) : J t := by
  obtain ⟨a, hsa, ha⟩ := h
  have hIa : I a := by
    clear ha
    induction hsa with
    | refl => exact hs
    | tail _ hbc ih => exact hnext _ _ ih hbc
  exact hstop a t hIa ha

/-- **The passes suffice.** With a measure that drops at every pass, `run` with more
passes than the measure leaves the loop by a `break`. -/
theorem exits_run (μ : σ → ℕ) (hμ : ∀ s t, body s = .next t → μ t < μ s) :
    ∀ n s, μ s < n → Exits body s (run body n s) := by
  intro n
  induction n with
  | zero => intro s h; exact absurd h (Nat.not_lt_zero _)
  | succ n ih =>
    intro s h
    cases hb : body s with
    | stop t => simpa only [run, hb] using Exits.of_stop hb
    | next a =>
      simp only [run, hb]
      have ha := hμ s a hb
      exact Exits.of_steps (Relation.ReflTransGen.single hb) (ih a (by omega))

end Pass
