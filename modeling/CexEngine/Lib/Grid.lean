import Mathlib.Algebra.Order.Round
import Mathlib.Tactic.FieldSimp
import Mathlib.Tactic.Linarith
import Mathlib.Tactic.Ring

/-!
# Multiples of a unit

Fixed-point numbers: the multiples of a unit in an ordered field.

* `OnGrid`: the multiples. `OnGrid.nonpos_of_lt`: below the unit there is nothing positive.
* `roundEven`: rounding to a nearest whole number, to an even one from half way.
-/

namespace Grid

variable {K : Type*} [Field K]

/-- A multiple of the unit. -/
def OnGrid (unit x : K) : Prop := ∃ n : ℤ, x = n * unit

variable {unit x : K} [LinearOrder K] [IsStrictOrderedRing K]

/-- Below the unit there is nothing positive. -/
theorem OnGrid.nonpos_of_lt (hunit : 0 < unit) (hx : OnGrid unit x) (h : x < unit) : x ≤ 0 := by
  obtain ⟨n, rfl⟩ := hx
  have hn : (n : K) < 1 := by
    by_contra hc
    exact absurd h (not_lt.2 (le_mul_of_one_le_left hunit.le (not_lt.1 hc)))
  have hn' : n ≤ 0 := by
    have : n < 1 := by exact_mod_cast hn
    omega
  exact mul_nonpos_of_nonpos_of_nonneg (by exact_mod_cast hn') hunit.le

section RoundEven

variable [FloorRing K] {n : ℤ}

/-- A nearest whole number, the even one of two. -/
def roundEven (x : K) : ℤ := if Int.fract x < 1 / 2 ∨ Int.fract x = 1 / 2 ∧ Even ⌊x⌋ then ⌊x⌋ else ⌊x⌋ + 1

theorem abs_roundEven_sub_le (x : K) : |(roundEven x : K) - x| ≤ 1 / 2 := by
  have hfract := Int.self_sub_floor x
  have h₀ := Int.fract_nonneg x
  have h₁ := Int.fract_lt_one x
  unfold roundEven
  rw [abs_le]
  split_ifs with hdown
  · have hhalf : Int.fract x ≤ 1 / 2 := hdown.elim le_of_lt fun h => h.1.le
    constructor <;> linarith
  · have hhalf : 1 / 2 ≤ Int.fract x := not_lt.1 fun h => hdown (Or.inl h)
    push_cast
    constructor <;> linarith

omit [IsStrictOrderedRing K] in
/-- Rounding does not go past a whole number. -/
theorem le_roundEven (h : (n : K) ≤ x) : n ≤ roundEven x := by
  have hfloor : n ≤ ⌊x⌋ := Int.le_floor.2 h
  unfold roundEven
  split_ifs
  · exact hfloor
  · exact hfloor.trans (Int.le_add_one le_rfl)

theorem roundEven_le (h : x ≤ n) : roundEven x ≤ n := by
  unfold roundEven
  split_ifs with hdown
  · exact_mod_cast (Int.floor_le x).trans h
  · have hhalf : 1 / 2 ≤ Int.fract x := not_lt.1 fun h => hdown (Or.inl h)
    have hlt : (⌊x⌋ : K) < n := by
      have hfract := Int.self_sub_floor x
      have hpos : (0 : K) < 1 / 2 := by norm_num
      linarith
    exact Int.add_one_le_of_lt (by exact_mod_cast hlt)

end RoundEven

end Grid
