import CexEngine.Proof.Rounding

/-!
# An arithmetic with rounded results

The operations of `rust_decimal` on values that it has: the exact result, rounded to 28 fractional
digits, or to fewer until the coefficient has 96 bits.

* `toDecimal`: the rounding. `le_toDecimal`, `toDecimal_le`: it does not go past a value.
* `decimalDiv_roundsToDecimal`: **the division is one that the results about rounded quotients are
  about.**
* `decimalArithmetic`: `+`, `-` and `*`.
-/

namespace CexEngine

open Grid

/-- With so many fractional digits, or with fewer until the coefficient fits. -/
def roundDigits (x : Decimal) : ℕ → Decimal
  | 0 => roundEven x
  | s + 1 =>
    if |roundEven (x * 10 ^ (s + 1))| < 2 ^ 96 then roundEven (x * 10 ^ (s + 1)) / 10 ^ (s + 1) else roundDigits x s

/-- The value that `rust_decimal` has for a result. -/
def toDecimal (x : Decimal) : Decimal := roundDigits x 28

section Values

variable {x q : Decimal} {s : ℕ}

theorem isDecimal_roundDigits (x : Decimal) : ∀ {s : ℕ}, s ≤ 28 → IsDecimal (roundDigits x s) := by
  intro s
  induction s with
  | zero => exact fun _ => ⟨0, by norm_num, roundEven x, by rw [roundDigits, pow_zero, div_one], Or.inl rfl⟩
  | succ s ih =>
    intro hs
    rw [roundDigits]
    split_ifs with hfits
    · exact ⟨s + 1, hs, _, rfl, Or.inr hfits⟩
    · exact ih (Nat.le_of_succ_le hs)

/-- A value has at most `s` fractional digits, or its coefficient leaves no room for more. -/
theorem IsDecimal.digits (h : IsDecimal q) (s : ℕ) :
    (∃ n : ℤ, q * 10 ^ s = n) ∨ q * 10 ^ (s + 1) ≤ 2 ^ 96 - 1 := by
  obtain ⟨t, -, m, rfl, hm⟩ := h
  rcases le_or_gt t s with hle | hlt
  · left
    refine ⟨m * 10 ^ (s - t), ?_⟩
    have hpow : (10 : Decimal) ^ s = 10 ^ t * 10 ^ (s - t) := by rw [← pow_add, Nat.add_sub_cancel' hle]
    have ht : (10 : Decimal) ^ t ≠ 0 := by positivity
    rw [hpow]
    push_cast
    field_simp
  · right
    have hpow : (10 : Decimal) ^ t = 10 ^ (s + 1) * 10 ^ (t - (s + 1)) := by rw [← pow_add, Nat.add_sub_cancel' hlt]
    have hs : (10 : Decimal) ^ (s + 1) ≠ 0 := by positivity
    have hrest : (1 : Decimal) ≤ 10 ^ (t - (s + 1)) := one_le_pow₀ (by norm_num)
    have hm' : (m : Decimal) ≤ 2 ^ 96 - 1 := by
      have hlt := (abs_lt.1 (hm.resolve_left (by omega))).2
      have : m ≤ 2 ^ 96 - 1 := by omega
      exact_mod_cast this
    rw [hpow, div_mul_eq_mul_div, mul_comm (m : Decimal), mul_div_mul_left _ _ hs, div_le_iff₀ (by positivity)]
    calc (m : Decimal) ≤ 2 ^ 96 - 1 := hm'
      _ ≤ (2 ^ 96 - 1) * 10 ^ (t - (s + 1)) := le_mul_of_one_le_right (by norm_num) hrest

/-- With one digit more the coefficient would not fit. -/
def Coarse (x : Decimal) (s : ℕ) : Prop := s < 28 → 2 ^ 96 - 1 / 2 ≤ x * 10 ^ (s + 1)

/-- **How many digits are kept.** -/
theorem roundDigits_cases (hx : 0 ≤ x) (hcoarse : Coarse x s) (hs : s ≤ 28) :
    ∃ t ≤ 28, roundDigits x s = roundEven (x * 10 ^ t) / 10 ^ t ∧ Coarse x t := by
  induction s with
  | zero => exact ⟨0, by norm_num, by rw [roundDigits, pow_zero, mul_one, div_one], hcoarse⟩
  | succ s ih =>
    rw [roundDigits]
    split_ifs with hfits
    · exact ⟨s + 1, hs, rfl, hcoarse⟩
    refine ih (fun _ => ?_) (Nat.le_of_succ_le hs)
    have hnonneg : 0 ≤ roundEven (x * 10 ^ (s + 1)) := le_roundEven (by push_cast; positivity)
    rw [abs_of_nonneg hnonneg, not_lt] at hfits
    have hlarge : (2 ^ 96 : Decimal) ≤ roundEven (x * 10 ^ (s + 1)) := by exact_mod_cast hfits
    have hnear := (abs_le.1 (abs_roundEven_sub_le (x * 10 ^ (s + 1)))).2
    linarith

/-- Rounding does not go below a value. -/
theorem le_toDecimal (hx : 0 ≤ x) (hq : IsDecimal q) (hle : q ≤ x) : q ≤ toDecimal x := by
  obtain ⟨t, ht, heq, hcoarse⟩ := roundDigits_cases hx (fun h => absurd h (lt_irrefl 28)) le_rfl
  rw [toDecimal, heq, le_div_iff₀ (by positivity)]
  have hscaled : q * 10 ^ t ≤ x * 10 ^ t := mul_le_mul_of_nonneg_right hle (by positivity)
  rcases hq.digits t with ⟨n, hn⟩ | hfine
  · rw [hn] at hscaled ⊢
    exact_mod_cast le_roundEven hscaled
  rcases Nat.lt_or_ge t 28 with hlt | hge
  · -- the tenth of the largest coefficient is rounded up
    have hlarge := hcoarse hlt
    have hnear := (abs_le.1 (abs_roundEven_sub_le (x * 10 ^ t))).1
    have hten : ∀ y : Decimal, y * 10 ^ (t + 1) = y * 10 ^ t * 10 := fun y => by rw [pow_succ, mul_assoc]
    rw [hten] at hlarge hfine
    have hround : 7922816251426433759354395034 ≤ roundEven (x * 10 ^ t) := by
      by_contra hc
      have hle : roundEven (x * 10 ^ t) ≤ 7922816251426433759354395033 := by omega
      have hle' : (roundEven (x * 10 ^ t) : Decimal) ≤ 7922816251426433759354395033 := by exact_mod_cast hle
      norm_num at hlarge
      linarith
    have hround' : (7922816251426433759354395034 : Decimal) ≤ roundEven (x * 10 ^ t) := by exact_mod_cast hround
    norm_num at hfine
    linarith
  · -- 28 digits are all that a value has
    obtain rfl : t = 28 := le_antisymm ht hge
    obtain ⟨n, hn⟩ := hq.onGrid
    have hint : q * 10 ^ 28 = n := by rw [hn, ulp, mul_assoc, one_div_mul_cancel (by positivity), mul_one]
    rw [hint] at hscaled ⊢
    exact_mod_cast le_roundEven hscaled

/-- Nor above one. -/
theorem toDecimal_le (hx : 0 ≤ x) (hq : IsDecimal q) (hle : x ≤ q) : toDecimal x ≤ q := by
  obtain ⟨t, ht, heq, hcoarse⟩ := roundDigits_cases hx (fun h => absurd h (lt_irrefl 28)) le_rfl
  rw [toDecimal, heq, div_le_iff₀ (by positivity)]
  have hscaled : x * 10 ^ t ≤ q * 10 ^ t := mul_le_mul_of_nonneg_right hle (by positivity)
  have hint : ∃ n : ℤ, q * 10 ^ t = n := by
    rcases Nat.lt_or_ge t 28 with hlt | hge
    · refine (hq.digits t).resolve_right fun hfine => ?_
      have hlarge := hcoarse hlt
      have hscaled : x * 10 ^ (t + 1) ≤ q * 10 ^ (t + 1) := mul_le_mul_of_nonneg_right hle (by positivity)
      linarith
    · obtain rfl : t = 28 := le_antisymm ht hge
      obtain ⟨n, hn⟩ := hq.onGrid
      exact ⟨n, by rw [hn, ulp, mul_assoc, one_div_mul_cancel (by positivity), mul_one]⟩
  obtain ⟨n, hn⟩ := hint
  rw [hn] at hscaled ⊢
  exact_mod_cast roundEven_le hscaled

theorem toDecimal_nonneg (hx : 0 ≤ x) : 0 ≤ toDecimal x := le_toDecimal hx (by exact_mod_cast isDecimal_natCast 0) hx

/-- Half of the last place that is kept is all that a result gains. -/
theorem toDecimal_le_add (hx : 0 ≤ x) : toDecimal x ≤ x + (1 / 2 + 5 * x) * ulp := by
  obtain ⟨t, ht, heq, hcoarse⟩ := roundDigits_cases hx (fun h => absurd h (lt_irrefl 28)) le_rfl
  have hnear := (abs_le.1 (abs_roundEven_sub_le (x * 10 ^ t))).2
  have hpow : (0 : Decimal) < 10 ^ t := by positivity
  rw [toDecimal, heq, div_le_iff₀ hpow]
  suffices hhalf : 1 / 2 ≤ (1 / 2 + 5 * x) * ulp * 10 ^ t by linarith
  rcases Nat.lt_or_ge t 28 with hlt | hge
  · have hlarge := hcoarse hlt
    have hulp : (10 : Decimal) ^ 28 * ulp = 1 := by norm_num [ulp]
    have hkept : (10 : Decimal) ^ 28 / 10 ≤ x * 10 ^ t := by
      have hten : x * 10 ^ (t + 1) = x * 10 ^ t * 10 := by rw [pow_succ, mul_assoc]
      rw [hten] at hlarge
      norm_num at hlarge ⊢
      linarith
    have hscaled := mul_le_mul_of_nonneg_right hkept ulp_pos.le
    rw [div_mul_eq_mul_div, hulp] at hscaled
    have hrest : 0 ≤ 1 / 2 * ulp * 10 ^ t := by have := ulp_pos; positivity
    calc (1 : Decimal) / 2 = 5 * (1 / 10) := by norm_num
      _ ≤ 5 * (x * 10 ^ t * ulp) := mul_le_mul_of_nonneg_left hscaled (by norm_num)
      _ ≤ 1 / 2 * ulp * 10 ^ t + 5 * (x * 10 ^ t * ulp) := le_add_of_nonneg_left hrest
      _ = (1 / 2 + 5 * x) * ulp * 10 ^ t := by ring
  · obtain rfl : t = 28 := le_antisymm ht hge
    have hone : (1 / 2 + 5 * x) * ulp * 10 ^ 28 = 1 / 2 + 5 * x := by
      rw [ulp, mul_assoc, one_div_mul_cancel (by positivity), mul_one]
    rw [hone]
    linarith

/-- A result that is at most 1 has 28 digits. -/
theorem toDecimal_of_le_one (h₀ : 0 ≤ x) (h₁ : x ≤ 1) : toDecimal x = roundEven (x * 10 ^ 28) * ulp := by
  have hnonneg : 0 ≤ roundEven (x * 10 ^ 28) := le_roundEven (by push_cast; positivity)
  have hle : roundEven (x * 10 ^ 28) ≤ 10 ^ 28 := roundEven_le (by push_cast; linarith)
  rw [toDecimal, roundDigits, if_pos, ulp, mul_one_div]
  rw [abs_of_nonneg hnonneg]
  exact hle.trans_lt (by norm_num)

end Values

/-! ## The operations -/

def decimalDiv (a b : Decimal) : Decimal := toDecimal (a / b)

theorem decimalDiv_roundsToDecimal : RoundsToDecimal decimalDiv where
  onGrid _ _ := (isDecimal_roundDigits _ le_rfl).onGrid
  ge ha hb hq h := le_toDecimal (div_nonneg ha hb.le) hq ((le_div_iff₀ hb).2 (by linarith))
  le ha hb hq h := toDecimal_le (div_nonneg ha hb.le) hq ((div_le_iff₀ hb).2 (by linarith))
  near {a b} ha hb hle := by
    have hnear := abs_roundEven_sub_le (a / b * 10 ^ 28)
    have heq : decimalDiv a b - a / b = (roundEven (a / b * 10 ^ 28) - a / b * 10 ^ 28) * ulp := by
      rw [decimalDiv, toDecimal_of_le_one (div_nonneg ha hb.le) ((div_le_one hb).2 hle), sub_mul, ulp, mul_assoc,
        mul_one_div_cancel (by positivity), mul_one]
    rw [heq, abs_mul, abs_of_pos ulp_pos]
    calc _ ≤ 1 / 2 * ulp := mul_le_mul_of_nonneg_right hnear ulp_pos.le
      _ = ulp / 2 := by ring
  half {a b} _ hb _ _ := by
    have hhalf : toDecimal (ulp / 2) ≤ 0 := by decide +kernel
    rwa [decimalDiv, mul_div_cancel_left₀ _ hb.ne']

/-- `+`, `-` and `*` of `rust_decimal`. -/
@[reducible]
def decimalArithmetic : Arithmetic where
  add a b := toDecimal (a + b)
  sub a b := toDecimal (a - b)
  mul a b := toDecimal (a * b)
  add_nonneg := toDecimal_nonneg
  sub_nonneg h := toDecimal_nonneg (sub_nonneg.2 h)
  mul_nonneg ha hb := toDecimal_nonneg (mul_nonneg ha hb)
  mul_comm a b := by rw [mul_comm]

end CexEngine
