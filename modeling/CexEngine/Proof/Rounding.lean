import Mathlib.Data.Rat.Floor
import CexEngine.Lib.Grid
import CexEngine.Proof.Budget

/-!
# Rounded quotients

A `Decimal` has at most 28 fractional digits, and a quotient is rounded to one: at 28 digits if
they fit, at fewer if they do not.

* `IsDecimal`: the values.
* `RoundsToDecimal`: what is assumed of the division.
* `RoundsToDecimal.third`: **the quotient of what two quotients leave of a budget buys nothing.**
* `budget_followable`: under it the matcher follows the sweep for a market buy.
-/

namespace CexEngine

open Grid

/-- The last place of a `Decimal`. -/
def ulp : Decimal := 1 / 10 ^ 28

theorem ulp_pos : 0 < ulp := by norm_num [ulp]

/-- The values of `rust_decimal`: at most 28 fractional digits, and a coefficient of 96 bits.
Beyond its range, where the operations panic, the whole numbers. -/
def IsDecimal (x : Decimal) : Prop := ∃ s ≤ 28, ∃ m : ℤ, x = m / 10 ^ s ∧ (s = 0 ∨ |m| < 2 ^ 96)

theorem isDecimal_natCast (n : ℕ) : IsDecimal n := ⟨0, by norm_num, n, by simp, Or.inl rfl⟩

theorem IsDecimal.onGrid {x : Decimal} (h : IsDecimal x) : OnGrid ulp x := by
  obtain ⟨s, hs, m, rfl, -⟩ := h
  refine ⟨m * 10 ^ (28 - s), ?_⟩
  have hpow : (10 : Decimal) ^ 28 = 10 ^ s * 10 ^ (28 - s) := by rw [← pow_add, Nat.add_sub_cancel' hs]
  have h₁ : (10 : Decimal) ^ s ≠ 0 := by positivity
  have h₂ : (10 : Decimal) ^ (28 - s) ≠ 0 := by positivity
  rw [ulp, hpow]
  push_cast
  field_simp

/-- The division of `rust_decimal` as assumed: no value lies between a quotient and what it is
rounded to, one that is at most 1 is rounded to the nearest multiple of the last place, and half
of the last place goes to zero if it goes down anywhere. -/
structure RoundsToDecimal (dv : Decimal → Decimal → Decimal) : Prop where
  onGrid : ∀ {a b : Decimal}, 0 ≤ a → 0 < b → OnGrid ulp (dv a b)
  ge : ∀ {a b q : Decimal}, 0 ≤ a → 0 < b → IsDecimal q → b * q ≤ a → q ≤ dv a b
  le : ∀ {a b q : Decimal}, 0 ≤ a → 0 < b → IsDecimal q → a ≤ b * q → dv a b ≤ q
  near : ∀ {a b : Decimal}, 0 ≤ a → 0 < b → a ≤ b → |dv a b - a / b| ≤ ulp / 2
  half : ∀ {a b : Decimal}, 0 ≤ a → 0 < b → a ≤ b → a - b * dv a b = b * (ulp / 2) → dv (b * (ulp / 2)) b ≤ 0

section Quotients

variable {dv : Decimal → Decimal → Decimal} (hdv : RoundsToDecimal dv) {r p q : Decimal} (hr : 0 ≤ r) (hp : 0 < p)

include hdv hr hp

theorem RoundsToDecimal.nonneg : 0 ≤ dv r p := by
  have h : IsDecimal 0 := by exact_mod_cast isDecimal_natCast 0
  exact hdv.ge hr hp h (by rwa [mul_zero])

/-- What is left of a budget after its quotient is bought does not buy a whole one. -/
theorem RoundsToDecimal.rest_lt : r - p * dv r p < p := by
  have hle : (⌊r / p⌋₊ : Decimal) ≤ dv r p := by
    refine hdv.ge hr hp (isDecimal_natCast _) ?_
    have := mul_le_mul_of_nonneg_left (Nat.floor_le (div_nonneg hr hp.le)) hp.le
    rwa [mul_div_cancel₀ _ hp.ne'] at this
  have hlt := (div_lt_iff₀ hp).1 (Nat.lt_floor_add_one (r / p))
  have hmul := mul_le_mul_of_nonneg_left hle hp.le
  linarith

/-- If the budget does not buy a whole one, at most half of the last place is left. -/
theorem RoundsToDecimal.rest_le (hle : r ≤ p) : r - p * dv r p ≤ p * (ulp / 2) := by
  have hnear := mul_le_mul_of_nonneg_left (abs_le.1 (hdv.near hr hp hle)).1 hp.le
  rw [mul_neg, mul_sub, mul_div_cancel₀ _ hp.ne'] at hnear
  linarith

/-- Less than half of the last place is rounded to nothing. -/
theorem RoundsToDecimal.nonpos_of_lt_half (h : r < p * (ulp / 2)) : dv r p ≤ 0 := by
  have hu : ulp / 2 ≤ 1 := by norm_num [ulp]
  have hle : r ≤ p := h.le.trans (mul_le_of_le_one_right hp.le hu)
  have hnear := (abs_le.1 (hdv.near hr hp hle)).2
  have hlt := (div_lt_iff₀ hp).2 (by linarith : r < ulp / 2 * p)
  exact (hdv.onGrid hr hp).nonpos_of_lt ulp_pos (by linarith)

/-- A budget that buys nothing at a price buys nothing above it. -/
theorem RoundsToDecimal.nonpos_of_le {p' : Decimal} (hle : p ≤ p') (h : dv r p ≤ 0) : dv r p' ≤ 0 := by
  rcases hle.eq_or_lt with rfl | hlt
  · exact h
  have hone : IsDecimal 1 := by exact_mod_cast isDecimal_natCast 1
  have hless : r ≤ p := by
    by_contra hc
    have := hdv.ge hr hp hone (by rw [mul_one]; exact (not_le.1 hc).le)
    linarith
  have hhalf := hdv.rest_le hr hp hless
  have hzero := mul_nonpos_of_nonneg_of_nonpos hp.le h
  have hu := ulp_pos
  refine hdv.nonpos_of_lt_half hr (hp.trans hlt) ?_
  calc r ≤ p * (ulp / 2) := by linarith
    _ < p' * (ulp / 2) := mul_lt_mul_of_pos_right hlt (by linarith)

/-- **A third quotient buys nothing.** -/
theorem RoundsToDecimal.third (h₁ : 0 ≤ r - p * dv r p)
    (h₂ : 0 ≤ r - p * dv r p - p * dv (r - p * dv r p) p) :
    dv (r - p * dv r p - p * dv (r - p * dv r p) p) p ≤ 0 := by
  have hless := (hdv.rest_lt hr hp).le
  rcases (hdv.rest_le h₁ hp hless).lt_or_eq with hlt | heq
  · exact hdv.nonpos_of_lt_half h₂ hp hlt
  · rw [heq]
    exact hdv.half h₁ hp hless heq

end Quotients

/-- **For a market buy the matcher follows the sweep.** -/
theorem budget_followable {dv : Decimal → Decimal → Decimal} (hdv : RoundsToDecimal dv) {order : OrderEntry}
    (hm : order.IsMarketBuy) : (buyRule dv).Followable (Spends order) (0 < ·) where
  take hs _ _ _ _ := (hs.take dv _ _).1
  twice := by
    intro incoming resting price hs hp _ hf _ hleft after left hf' _ hf'' hleft'
    have hs' : Spends order after := (hs.take dv _ _).1
    have hfunds' : after.funds = incoming.funds - price * (buyRule dv).matchAmount incoming resting price :=
      (hs.take dv _ _).2
    rw [hs.isFullyFilled, decide_eq_false_iff_not, not_le] at hf
    rw [hs'.isFullyFilled, decide_eq_false_iff_not, not_le] at hf'
    rw [(hs'.take dv _ _).1.isFullyFilled, decide_eq_false_iff_not, not_le, (hs'.take dv _ _).2] at hf''
    -- both fills leave something of the order, so both are quotients
    have hbought : (buyRule dv).matchAmount incoming resting price = dv incoming.funds price := by
      rw [OrderEntry.fill, hs.matchAmount dv, ExactSums.sub_eq, sub_pos] at hleft
      rw [hs.matchAmount dv]
      exact min_eq_left ((min_lt_iff.1 hleft).resolve_right (lt_irrefl _)).le
    have hbought' : (buyRule dv).matchAmount after left price = dv after.funds price := by
      rw [OrderEntry.fill, hs'.matchAmount dv, ExactSums.sub_eq, sub_pos] at hleft'
      rw [hs'.matchAmount dv]
      exact min_eq_left ((min_lt_iff.1 hleft').resolve_right (lt_irrefl _)).le
    rw [hbought] at hfunds'
    rw [hbought'] at hf'' ⊢
    rw [(hs'.take dv _ _).1.matchAmount, (hs'.take dv _ _).2]
    rw [hfunds'] at hf' hf'' ⊢
    simp only [buyRule, decide_eq_true_eq]
    exact (min_le_left _ _).trans (hdv.third hf.le hp hf'.le hf''.le)
  dust hs hp hr hf hb := by
    intro resting' price' hafter _
    rw [hs.isFullyFilled, decide_eq_false_iff_not, not_le] at hf
    exact hs.breaks_after hm (fun hp hle => hdv.nonpos_of_le hf.le hp hle) hp hr hb hafter
  nearer hs _ _ := hs.accepts hm _

end CexEngine
