import EntityGraph.Number.Shortest
import Mathlib.Algebra.Order.Field.Power
import Mathlib.Tactic.FieldSimp
import Mathlib.Tactic.Linarith
import Mathlib.Tactic.NormNum.Inv
import Mathlib.Tactic.Positivity
import Mathlib.Tactic.Ring

/-!
# Rounding intervals

The binary number nearest to a quotient is known from where the quotient lies: every quotient in the
interval of a binary number is rounded to it. This is what the search for shortest decimals relies
on.
-/

namespace EntityGraph.Number

/-- The rational number that a fraction stands for. -/
def ratio (num den : Nat) : ℚ := num / den

namespace Binary64

variable {num den : Nat}

/-- The denominator of a scaled fraction is positive. -/
theorem scaleByPower_pos (hden : 0 < den) (num : Nat) (k : Int) :
    0 < (scaleByPower num den k).2 := by
  cases k with
  | ofNat e => exact hden
  | negSucc e => exact Nat.mul_pos hden (Nat.pow_pos Nat.two_pos)

/-- A fraction is scaled by a power of two. -/
theorem ratio_scaleByPower (num den : Nat) (k : Int) :
    ratio (scaleByPower num den k).1 (scaleByPower num den k).2 = ratio num den * 2 ^ k := by
  cases k with
  | ofNat e =>
    simp only [scaleByPower, ratio, Int.ofNat_eq_natCast, zpow_natCast, Nat.pow_eq]
    push_cast
    ring
  | negSucc e =>
    simp only [scaleByPower, ratio, zpow_negSucc, Nat.pow_eq]
    push_cast
    rw [div_mul_eq_div_div, div_eq_mul_inv _ ((2 : ℚ) ^ (e + 1))]

/-- A quotient is rounded to a number from which it differs by less than a half, or by a half if the
number is even. -/
private theorem roundHalfEven_eq {n : Nat} (hden : 0 < den)
    (below : (n : ℚ) - 1 / 2 ≤ ratio num den) (above : ratio num den ≤ n + 1 / 2)
    (odd : n % 2 = 1 → (n : ℚ) - 1 / 2 < ratio num den ∧ ratio num den < n + 1 / 2) :
    roundHalfEven num den = n := by
  have hden' : (0 : ℚ) < den := by exact_mod_cast hden
  rw [ratio] at below above odd
  rw [le_div_iff₀ hden'] at below
  rw [div_le_iff₀ hden'] at above
  rw [lt_div_iff₀ hden', div_lt_iff₀ hden'] at odd
  have below' : 2 * n * den ≤ 2 * num + den := by
    have h : (2 * n * den : ℚ) ≤ 2 * num + den := by linarith
    exact_mod_cast h
  have above' : 2 * num ≤ 2 * n * den + den := by
    have h : (2 * num : ℚ) ≤ 2 * n * den + den := by linarith
    exact_mod_cast h
  have odd' : n % 2 = 1 → 2 * n * den < 2 * num + den ∧ 2 * num < 2 * n * den + den := by
    intro h
    obtain ⟨h₁, h₂⟩ := odd h
    have h₃ : (2 * n * den : ℚ) < 2 * num + den := by linarith
    have h₄ : (2 * num : ℚ) < 2 * n * den + den := by linarith
    exact ⟨by exact_mod_cast h₃, by exact_mod_cast h₄⟩
  have split := Nat.div_add_mod num den
  have rest := Nat.mod_lt num hden
  -- The number is the whole part of the quotient or the next one.
  have cases : n = num / den ∨ n = num / den + 1 := by
    generalize num / den = q at *
    generalize num % den = r at *
    have least : q ≤ n := by nlinarith
    have most : n ≤ q + 1 := by nlinarith
    omega
  rw [roundHalfEven]
  generalize num / den = q at *
  generalize num % den = r at *
  subst split
  rcases cases with rfl | rfl
  · have low : 2 * r ≤ den := by nlinarith
    have even : 2 * r = den → n % 2 = 0 := by
      intro tie
      by_contra h
      have strict := (odd' (by omega)).2
      nlinarith
    grind
  · have high : den ≤ 2 * r := by nlinarith
    have even : 2 * r = den → q % 2 = 1 := by
      intro tie
      by_contra h
      have strict := (odd' (by omega)).1
      nlinarith
    grind

private theorem two_pow_log2_le {n : Nat} (h : n ≠ 0) :
    (2 : ℚ) ^ (n.log2 : ℤ) ≤ n ∧ (n : ℚ) < 2 ^ ((n.log2 : ℤ) + 1) := by
  have below : (2 ^ n.log2 : ℚ) ≤ n := by exact_mod_cast Nat.log2_self_le h
  have above : (n : ℚ) < 2 ^ (n.log2 + 1) := by exact_mod_cast Nat.lt_log2_self
  exact ⟨by rwa [zpow_natCast], by rwa [← Nat.cast_succ, zpow_natCast]⟩

private theorem ratio_lt_iff (hden : 0 < den) (num n : Nat) :
    ratio num den < n ↔ num < n * den := by
  have hden' : (0 : ℚ) < den := by exact_mod_cast hden
  rw [ratio, div_lt_iff₀ hden']
  exact_mod_cast Iff.rfl

/-- The exponent of a quotient is the one at which its mantissa fills its width, or the least one
where that is greater. -/
theorem exists_exponentOf (hnum : num ≠ 0) (hden : 0 < den) : ∃ e : Int,
    exponentOf num den = max e minExponent ∧ 2 ^ 52 ≤ ratio num den * 2 ^ (-e) ∧
      ratio num den * 2 ^ (-e) < 2 ^ 53 := by
  obtain ⟨numLow, numHigh⟩ := two_pow_log2_le hnum
  obtain ⟨denLow, denHigh⟩ := two_pow_log2_le hden.ne'
  let estimate : Int := (num.log2 : Int) - den.log2 - 52
  let scaled := scaleByPower num den (-estimate)
  have value : ratio scaled.1 scaled.2 = ratio num den * 2 ^ (-estimate) :=
    ratio_scaleByPower num den (-estimate)
  have test : scaled.1 < Nat.pow 2 52 * scaled.2 ↔ ratio num den * 2 ^ (-estimate) < 2 ^ 52 := by
    rw [← ratio_lt_iff (scaleByPower_pos hden num (-estimate)), value]
    norm_num
  have hden' : (0 : ℚ) < den := by exact_mod_cast hden
  have unit : (0 : ℚ) < 2 ^ (-estimate) := by positivity
  have low : 2 ^ 51 < ratio num den * 2 ^ (-estimate) :=
    calc (2 : ℚ) ^ 51 = 2 ^ (num.log2 : ℤ) / 2 ^ ((den.log2 : ℤ) + 1) * 2 ^ (-estimate) := by
          rw [← zpow_sub₀ two_ne_zero, ← zpow_add₀ two_ne_zero, ← zpow_natCast]
          congr 1
          omega
      _ < ratio num den * 2 ^ (-estimate) := by
          refine mul_lt_mul_of_pos_right ?_ unit
          rw [ratio, div_lt_div_iff₀ (by positivity) hden']
          exact mul_lt_mul_of_le_of_lt_of_nonneg_of_pos numLow denHigh hden'.le (by positivity)
  have high : ratio num den * 2 ^ (-estimate) < 2 ^ 53 :=
    calc ratio num den * 2 ^ (-estimate)
        < 2 ^ ((num.log2 : ℤ) + 1) / 2 ^ (den.log2 : ℤ) * 2 ^ (-estimate) := by
          refine mul_lt_mul_of_pos_right ?_ unit
          rw [ratio, div_lt_div_iff₀ hden' (by positivity)]
          exact mul_lt_mul_of_lt_of_le_of_nonneg_of_pos numHigh denLow (by positivity) hden'
      _ = 2 ^ 53 := by
          rw [← zpow_sub₀ two_ne_zero, ← zpow_add₀ two_ne_zero, ← zpow_natCast]
          congr 1
          omega
  have exponent : exponentOf num den =
      max (if scaled.1 < Nat.pow 2 52 * scaled.2 then estimate - 1 else estimate) minExponent := rfl
  by_cases small : scaled.1 < Nat.pow 2 52 * scaled.2
  · refine ⟨estimate - 1, by rw [exponent, if_pos small], ?_, ?_⟩
    all_goals
      rw [test] at small
      rw [neg_sub, sub_eq_add_neg, zpow_add₀ two_ne_zero, zpow_one]
      linarith
  · refine ⟨estimate, by rw [exponent, if_neg small], ?_, high⟩
    rw [test] at small
    exact not_lt.mp small

/-- Where a mantissa fills its width, no greater exponent leaves it below the next power of two. -/
theorem exponent_le {x : ℚ} {e f : Int} (full : 2 ^ 52 ≤ x * 2 ^ (-e))
    (fits : x * 2 ^ (-f) < 2 ^ 53) :
    e ≤ f := by
  by_contra greater
  have step : (2 : ℚ) ^ (1 : ℤ) ≤ 2 ^ (e - f) := zpow_le_zpow_right₀ one_le_two (by omega)
  have moved : x * 2 ^ (-f) = x * 2 ^ (-e) * 2 ^ (e - f) := by
    rw [mul_assoc, ← zpow_add₀ two_ne_zero]
    congr 2
    omega
  have least : (2 : ℚ) ^ 52 * 2 ^ (1 : ℤ) ≤ x * 2 ^ (-e) * 2 ^ (e - f) :=
    mul_le_mul full step (by positivity) (le_trans (by positivity) full)
  rw [moved] at fits
  norm_num at least fits
  linarith

private theorem exponentOf_eq (hnum : num ≠ 0) (hden : 0 < den) {e : Int}
    (full : 2 ^ 52 ≤ ratio num den * 2 ^ (-e)) (fits : ratio num den * 2 ^ (-e) < 2 ^ 53) :
    exponentOf num den = max e minExponent := by
  obtain ⟨f, exponent, full', fits'⟩ := exists_exponentOf hnum hden
  rw [exponent, le_antisymm (exponent_le full' fits) (exponent_le full fits')]

private theorem exponentOf_eq_minExponent (hnum : num ≠ 0) (hden : 0 < den)
    (fits : ratio num den * 2 ^ (-minExponent) < 2 ^ 53) :
    exponentOf num den = minExponent := by
  obtain ⟨f, exponent, full, -⟩ := exists_exponentOf hnum hden
  rw [exponent, max_eq_right (exponent_le full fits)]

end Binary64

/-! ### Intervals -/

namespace RoundingInterval

open Binary64

variable {num den m : Nat} {e : Int}

/-- How far the interval of a binary number reaches below it, in units of its last place. -/
def reach (m : Nat) (e : Int) : ℚ :=
  if m = mantissaBound / 2 ∧ minExponent < e then 1 / 4 else 1 / 2

private theorem ratio_compare {unitNum unitDen : Nat} (hden : 0 < den) (hunit : 0 < unitDen)
    (n : Nat) :
    (n * unitNum * den ≤ num * unitDen ↔ (n : ℚ) * ratio unitNum unitDen ≤ ratio num den) ∧
      (num * unitDen ≤ n * unitNum * den ↔ ratio num den ≤ (n : ℚ) * ratio unitNum unitDen) := by
  have hden' : (0 : ℚ) < den := by exact_mod_cast hden
  have hunit' : (0 : ℚ) < unitDen := by exact_mod_cast hunit
  rw [ratio, ratio, ← mul_div_assoc, div_le_div_iff₀ hunit' hden', div_le_div_iff₀ hden' hunit']
  exact ⟨by exact_mod_cast Iff.rfl, by exact_mod_cast Iff.rfl⟩

private theorem ends_of (hm : m ≠ 0) (e : Int) :
    ((of m e).low : ℚ) = 4 * (m - reach m e) ∧ ((of m e).high : ℚ) = 4 * (m + 1 / 2) := by
  constructor
  · rw [of, reach]
    split
    · rw [Nat.cast_sub (by omega)]
      push_cast
      ring
    · rw [Nat.cast_sub (by omega)]
      push_cast
      ring
  · rw [of]
    push_cast
    ring

/-- The unit of an interval is a quarter of the unit of the last place of its number. -/
theorem ratio_unit (m : Nat) (e : Int) :
    ratio (of m e).unitNum (of m e).unitDen = 2 ^ e / 4 ∧ 0 < (of m e).unitDen := by
  refine ⟨?_, scaleByPower_pos Nat.one_pos 1 (e - 2)⟩
  have unit := ratio_scaleByPower 1 1 (e - 2)
  rw [zpow_sub₀ two_ne_zero] at unit
  rw [of, unit, ratio]
  norm_num

/-- A fraction lies in the interval of a binary number if it lies between the ends; these belong to
the interval of an even mantissa. -/
theorem contains_of_iff (hm : m ≠ 0) (e : Int) (hden : 0 < den) (num : Nat) :
    (of m e).contains num den = true ↔
      (m : ℚ) - reach m e ≤ ratio num den * 2 ^ (-e) ∧ ratio num den * 2 ^ (-e) ≤ m + 1 / 2 ∧
        (m % 2 = 1 → (m : ℚ) - reach m e < ratio num den * 2 ^ (-e) ∧
          ratio num den * 2 ^ (-e) < m + 1 / 2) := by
  obtain ⟨low, high⟩ := ends_of hm e
  obtain ⟨unit, hunit⟩ := ratio_unit m e
  obtain ⟨fromLow, toLow⟩ := @ratio_compare num _ ((of m e).unitNum) _ hden hunit
    (of m e).low
  obtain ⟨fromHigh, toHigh⟩ := @ratio_compare num _ ((of m e).unitNum) _ hden hunit
    (of m e).high
  have power : (0 : ℚ) < 2 ^ e := by positivity
  have scaled (a : ℚ) : 4 * a * (2 ^ e / 4) = a * 2 ^ e := by ring
  rw [low, unit, scaled, ← le_div_iff₀ power] at fromLow
  rw [low, unit, scaled, ← div_le_iff₀ power] at toLow
  rw [high, unit, scaled, ← le_div_iff₀ power] at fromHigh
  rw [high, unit, scaled, ← div_le_iff₀ power] at toHigh
  rw [zpow_neg, ← div_eq_mul_inv]
  have parity : (of m e).closed = decide (m % 2 = 0) := rfl
  rw [contains, parity]
  simp only [decide_eq_true_eq]
  split
  · next even =>
    have notOdd : m % 2 ≠ 1 := by omega
    simp [fromLow, toHigh, notOdd]
  · next odd =>
    have odd' : m % 2 = 1 := by omega
    simp only [Bool.and_eq_true, decide_eq_true_eq, ← not_le, toLow, fromHigh, odd', true_imp_iff]
    simp only [not_le]
    exact ⟨fun h ↦ ⟨h.1.le, h.2.le, h⟩, fun h ↦ h.2.2⟩

/-- The interval of a binary number reaches a quarter or a half below it. -/
theorem reach_mem (m : Nat) (e : Int) : 1 / 4 ≤ reach m e ∧ reach m e ≤ 1 / 2 := by
  rw [reach]
  split <;> norm_num

private theorem nearest_eq_of_round {negative : Bool} (hnum : num ≠ 0) (hden : 0 < den) {n : Nat}
    (exponent : exponentOf num den = e) (below : (n : ℚ) - 1 / 2 ≤ ratio num den * 2 ^ (-e))
    (above : ratio num den * 2 ^ (-e) ≤ n + 1 / 2)
    (odd : n % 2 = 1 → (n : ℚ) - 1 / 2 < ratio num den * 2 ^ (-e) ∧
      ratio num den * 2 ^ (-e) < n + 1 / 2) :
    nearest negative num den =
      let (m, e) := if n = mantissaBound then (mantissaBound / 2, e + 1) else (n, e)
      if maxExponent < e then infinite negative else finite negative m e := by
  rw [← ratio_scaleByPower] at below above odd
  rw [nearest, if_neg hnum, exponent]
  dsimp only
  rw [roundHalfEven_eq (scaleByPower_pos hden num (-e)) below above odd]

/-- A number that has its normal form is what every quotient in its interval is rounded to. -/
theorem nearest_eq {negative : Bool} (normal : (Binary64.finite negative m e).Normal) (hm : m ≠ 0)
    (hden : 0 < den) (h : (of m e).contains num den = true) :
    nearest negative num den = .finite negative m e := by
  obtain ⟨below, above, odd⟩ := (contains_of_iff hm e hden num).mp h
  obtain ⟨bound, least, most, full⟩ := normal
  obtain ⟨-, near⟩ := reach_mem m e
  have limit : mantissaBound = 2 ^ 53 := rfl
  have positive : (1 : ℚ) ≤ m := by exact_mod_cast Nat.one_le_iff_ne_zero.mpr hm
  have narrow : (m : ℚ) ≤ 2 ^ 53 - 1 := by
    have h : m + 1 ≤ 2 ^ 53 := limit ▸ bound
    have h' : (m : ℚ) + 1 ≤ 2 ^ 53 := by exact_mod_cast h
    linarith
  have hnum : num ≠ 0 := by
    rintro rfl
    rw [ratio, Nat.cast_zero, zero_div, zero_mul] at below
    linarith
  have fits : ratio num den * 2 ^ (-e) < 2 ^ 53 := by linarith
  by_cases regular : e = minExponent ∨ 2 ^ 52 ≤ ratio num den * 2 ^ (-e)
  · -- The quotient has the exponent of the number.
    have exponent : exponentOf num den = e := by
      rcases regular with rfl | full'
      · exact exponentOf_eq_minExponent hnum hden fits
      · rw [exponentOf_eq hnum hden full' fits, max_eq_left least]
    rw [nearest_eq_of_round hnum hden exponent (by linarith) above
      fun h ↦ ⟨by linarith [(odd h).1], (odd h).2⟩]
    rw [if_neg bound.ne]
    exact if_neg (not_lt.mpr most)
  · -- The number is a power of two, and the quotient is below it.
    rw [not_or, not_le] at regular
    obtain ⟨normal, low⟩ := regular
    have power : m = 2 ^ 52 := by
      have most : (m : ℚ) < (2 ^ 52 + 1 : ℕ) := by
        push_cast
        linarith
      have most' : m < 2 ^ 52 + 1 := by exact_mod_cast most
      have half : 2 ^ 53 ≤ 2 * m := limit ▸ full.resolve_right normal
      omega
    have quarter : reach m e = 1 / 4 :=
      if_pos ⟨by rw [power, limit]; norm_num, lt_of_le_of_ne least (Ne.symm normal)⟩
    have twice : ratio num den * 2 ^ (-(e - 1)) = 2 * (ratio num den * 2 ^ (-e)) := by
      rw [neg_sub, sub_eq_neg_add, add_comm, zpow_add₀ two_ne_zero, zpow_one]
      ring
    rw [quarter, power] at below
    push_cast at below
    have exponent : exponentOf num den = e - 1 := by
      rw [exponentOf_eq hnum hden (e := e - 1) (by linarith) (by linarith)]
      exact max_eq_left (by omega)
    rw [nearest_eq_of_round (n := mantissaBound) hnum hden exponent
      (by rw [twice, limit]; push_cast; linarith) (by rw [twice, limit]; push_cast; linarith)
      fun h ↦ by rw [limit] at h; norm_num at h]
    rw [if_pos rfl, sub_add_cancel, power]
    exact if_neg (not_lt.mpr most)

end RoundingInterval

end EntityGraph.Number
