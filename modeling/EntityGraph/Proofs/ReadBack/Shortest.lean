import EntityGraph.Proofs.ReadBack.Digits
import EntityGraph.Proofs.ReadBack.Rounding

/-!
# Shortest decimals read back

The search for the shortest decimal of a binary number ends at seventeen digits: there the grid is
finer than the interval of the number is wide. What it finds lies in the interval, and so does every
decimal of the same value, so the number is read back from it.
-/

namespace EntityGraph.Number

open EntityGraph.Text Binary64 RoundingInterval

/-! ### Values of decimals -/

/-- The rational number that a decimal stands for. -/
def Scientific.value (s : Scientific) : ℚ := s.digits * 10 ^ s.exponent

private theorem Scientific.value_dropZeros (fuel : Nat) (s : Scientific) :
    (s.dropZeros fuel).value = s.value := by
  induction fuel generalizing s with
  | zero => rfl
  | succ fuel ih =>
    rw [dropZeros]
    split
    · next tens =>
      have split : (s.digits : ℚ) = (s.digits / 10 : ℕ) * 10 := by
        exact_mod_cast (Nat.div_mul_cancel (Nat.dvd_of_mod_eq_zero tens.2)).symm
      rw [ih, value, value, split, zpow_add₀ (by norm_num), zpow_one]
      ring
    · rfl

/-- A power of ten is a fraction of positive numbers. -/
theorem powerOfTen_spec (e : Int) : 0 < (powerOfTen e).1 ∧ 0 < (powerOfTen e).2 ∧
    ratio (powerOfTen e).1 (powerOfTen e).2 = 10 ^ e := by
  have power (n : Nat) : 0 < Nat.pow 10 n := Nat.pow_pos (by decide)
  cases e with
  | ofNat e =>
    refine ⟨power e, Nat.one_pos, ?_⟩
    simp [powerOfTen, ratio]
  | negSucc e =>
    refine ⟨Nat.one_pos, power (e + 1), ?_⟩
    simp [powerOfTen, ratio, zpow_negSucc]

/-- A positive number has as many digits as the powers of ten around it say. -/
theorem ten_pow_le {n : Nat} (h : n ≠ 0) :
    10 ^ ((decimal n).length - 1) ≤ n ∧ n < 10 ^ (decimal n).length ∧ 0 < (decimal n).length := by
  have positive : 0 < (decimal n).length := List.length_pos_iff.mpr Nat.toDigits_ne_nil
  refine ⟨?_, (Nat.length_toDigits_le_iff (by decide) positive).mp (Nat.le_refl _), positive⟩
  by_contra less
  by_cases one : (decimal n).length - 1 = 0
  · rw [one] at less
    omega
  · have shorter := (Nat.length_toDigits_le_iff (by decide) (Nat.pos_of_ne_zero one)).mpr
      (not_le.mp less)
    have same : (Nat.toDigits 10 n).length = (decimal n).length := rfl
    omega

/-- A fraction is at least the power of ten of its first digit. -/
private theorem ten_zpow_le {num den : Nat} (hnum : 0 < num) (hden : 0 < den) :
    (10 : ℚ) ^ (pointPosition num den - 1) ≤ ratio num den := by
  have hden' : (0 : ℚ) < den := by exact_mod_cast hden
  rw [pointPosition]
  split
  · next large =>
    obtain ⟨low, -, positive⟩ := ten_pow_le (Nat.div_pos large hden).ne'
    have power : (10 : ℚ) ^ (((decimal (num / den)).length : ℤ) - 1) =
        (10 ^ ((decimal (num / den)).length - 1) : ℕ) := by
      push_cast
      rw [← zpow_natCast, Nat.cast_sub positive, Nat.cast_one]
    have whole : num / den * den ≤ num := Nat.div_mul_le_self num den
    show (10 : ℚ) ^ (((decimal (num / den)).length : ℤ) - 1) ≤ _
    rw [power, ratio, le_div_iff₀ hden']
    exact_mod_cast (Nat.mul_le_mul_right den low).trans whole
  · next small =>
    -- The inverse of the fraction, rounded up, is at most a power of ten.
    have split := Nat.div_add_mod (den + num - 1) num
    have rest := Nat.mod_lt (den + num - 1) hnum
    generalize (den + num - 1) / num = inverse at *
    have two : 2 ≤ inverse := by
      by_contra less
      have one : num * inverse ≤ num * 1 := Nat.mul_le_mul_left num (by omega)
      omega
    obtain ⟨-, fits, -⟩ := ten_pow_le (n := inverse - 1) (by omega)
    have product : den ≤ num * 10 ^ (decimal (inverse - 1)).length :=
      Nat.le_trans (by omega) (Nat.mul_le_mul_left num (by omega : inverse ≤ _))
    have exponent : (1 - ((decimal (inverse - 1)).length : ℤ) - 1) =
        -((decimal (inverse - 1)).length : ℤ) := by omega
    show (10 : ℚ) ^ (1 - ((decimal (inverse - 1)).length : ℤ) - 1) ≤ _
    rw [exponent, zpow_neg, zpow_natCast, ratio, inv_le_comm₀ (by positivity) (by positivity),
      inv_div, div_le_iff₀ (by exact_mod_cast hnum), mul_comm]
    exact_mod_cast product

/-! ### Grids -/

namespace RoundingInterval

variable {m : Nat} {e : Int}

/-- A fraction of a decimal value is that value. -/
theorem ratio_mul_powerOfTen (n : Nat) (k : Int) :
    ratio (n * (powerOfTen k).1) (powerOfTen k).2 = n * 10 ^ k := by
  rw [← (powerOfTen_spec k).2.2, ratio, ratio]
  push_cast
  ring

private theorem isSome_onGrid? {i : RoundingInterval} {k : Int} {below : Nat}
    (hbelow : below = i.centre * i.unitNum * (powerOfTen k).2 / (i.unitDen * (powerOfTen k).1))
    (h : i.contains (below * (powerOfTen k).1) (powerOfTen k).2 = true ∨
      i.contains ((below + 1) * (powerOfTen k).1) (powerOfTen k).2 = true) :
    (i.onGrid? k).isSome = true := by
  rw [onGrid?, ← hbelow]
  rcases h with h | h
  · simp only [h, Bool.true_and, if_true]
    split <;> rfl
  · simp only [h, Bool.and_true, if_true]
    split <;> rfl

private theorem exponent_of_onGrid? {i : RoundingInterval} {k : Int} {s : Scientific}
    (h : i.onGrid? k = some s) : s.exponent = k := by
  simp only [onGrid?] at h
  split at h
  · rw [← Option.some.inj h]
  · split at h
    · rw [← Option.some.inj h]
    · split at h
      · rw [← Option.some.inj h]
      · cases h

private theorem div_le_ratio {den : Nat} (hden : 0 < den) (num : Nat) :
    ((num / den : ℕ) : ℚ) ≤ ratio num den ∧ ratio num den < (num / den : ℕ) + 1 := by
  have hden' : (0 : ℚ) < den := by exact_mod_cast hden
  rw [ratio, le_div_iff₀ hden', div_lt_iff₀ hden']
  exact ⟨by exact_mod_cast Nat.div_mul_le_self num den,
    by exact_mod_cast Nat.lt_mul_of_div_lt (Nat.lt_succ_self _) hden⟩

private theorem half_lt_reach {step : ℚ} (bound : m < mantissaBound) (small : step * 10 ^ 16 ≤ m)
    (e : Int) :
    step / 2 < reach m e := by
  have limit : mantissaBound = 2 ^ 53 := rfl
  rw [reach]
  split
  · next power =>
    have value : (m : ℚ) = 2 ^ 52 := by
      rw [power.1, limit]
      norm_num
    rw [value] at small
    norm_num at small ⊢
    linarith
  · have most : (m : ℚ) < 2 ^ 53 := by exact_mod_cast (limit ▸ bound)
    linarith

/-- The centre of the interval of a binary number is the number. -/
theorem ratio_centre (m : Nat) (e : Int) :
    ratio ((of m e).centre * (of m e).unitNum) (of m e).unitDen = m * 2 ^ e := by
  have four : ((of m e).centre : ℚ) = 4 * m := by
    rw [of]
    push_cast
    rfl
  rw [ratio, Nat.cast_mul, mul_div_assoc, ← ratio, (ratio_unit m e).1, four]
  ring

private theorem eq_div_mul_step (m : ℚ) (e k : Int) :
    m = m * 2 ^ e / 10 ^ k * (10 ^ k * 2 ^ (-e)) :=
  calc m = m * (2 ^ e * 2 ^ (-e)) := by
        rw [← zpow_add₀ two_ne_zero, add_neg_cancel, zpow_zero, mul_one]
    _ = m * 2 ^ e / 10 ^ k * (10 ^ k * 2 ^ (-e)) := by
        rw [← mul_assoc, ← mul_assoc, div_mul_cancel₀ _ (by positivity)]

/-- The neighbours on a grid have the number between them, in units of its last binary digit. -/
private theorem neighbours_of (m : Nat) (e k : Int) {below : Nat}
    (h : below = (of m e).centre * (of m e).unitNum * (powerOfTen k).2 /
      ((of m e).unitDen * (powerOfTen k).1)) :
    below * (10 ^ k * 2 ^ (-e) : ℚ) ≤ m ∧ (m : ℚ) < (below + 1) * (10 ^ k * 2 ^ (-e)) := by
  obtain ⟨hten, -, ten⟩ := powerOfTen_spec k
  have quotient : ratio ((of m e).centre * (of m e).unitNum * (powerOfTen k).2)
      ((of m e).unitDen * (powerOfTen k).1) = m * 2 ^ e / 10 ^ k := by
    rw [← ratio_centre, ← ten, ratio, ratio, ratio, div_div_div_eq]
    push_cast
    ring
  obtain ⟨low, high⟩ := div_le_ratio (Nat.mul_pos (ratio_unit m e).2 hten)
    ((of m e).centre * (of m e).unitNum * (powerOfTen k).2)
  rw [quotient, ← h] at low high
  constructor
  · calc (below : ℚ) * (10 ^ k * 2 ^ (-e)) ≤ m * 2 ^ e / 10 ^ k * (10 ^ k * 2 ^ (-e)) :=
          mul_le_mul_of_nonneg_right low (by positivity)
      _ = m := (eq_div_mul_step m e k).symm
  · calc (m : ℚ) = m * 2 ^ e / 10 ^ k * (10 ^ k * 2 ^ (-e)) := eq_div_mul_step m e k
      _ < (below + 1) * (10 ^ k * 2 ^ (-e)) := mul_lt_mul_of_pos_right high (by positivity)

/-- A grid that is fine enough has a point in the interval of a binary number. -/
private theorem isSome_onGrid?_of_small (bound : m < mantissaBound) (hm : m ≠ 0) (e : Int) {k : Int}
    (small : (10 ^ k * 2 ^ (-e) : ℚ) * 10 ^ 16 ≤ m) : ((of m e).onGrid? k).isSome = true := by
  have narrow := half_lt_reach bound small e
  obtain ⟨-, short⟩ := reach_mem m e
  obtain ⟨-, hten, -⟩ := powerOfTen_spec k
  generalize hbelow : (of m e).centre * (of m e).unitNum * (powerOfTen k).2 /
    ((of m e).unitDen * (powerOfTen k).1) = below
  obtain ⟨least, most⟩ := neighbours_of m e k hbelow.symm
  have value (n : Nat) : ratio (n * (powerOfTen k).1) (powerOfTen k).2 * 2 ^ (-e) =
      n * (10 ^ k * 2 ^ (-e)) := by
    rw [ratio_mul_powerOfTen, mul_assoc]
  refine isSome_onGrid? hbelow.symm ?_
  rw [contains_of_iff hm e hten, contains_of_iff hm e hten, value, value]
  push_cast
  generalize (10 ^ k * 2 ^ (-e) : ℚ) = step at *
  by_cases near : m - below * step ≤ step / 2
  · exact .inl ⟨by linarith, by linarith, fun _ ↦ ⟨by linarith, by linarith⟩⟩
  · rw [not_le] at near
    exact .inr ⟨by linarith, by linarith, fun _ ↦ ⟨by linarith, by linarith⟩⟩

/-- The grid of seventeen digits has a point in the interval of a binary number. -/
private theorem isSome_onGrid?_of (bound : m < mantissaBound) (hm : m ≠ 0) (e : Int) :
    ((of m e).onGrid?
      (pointPosition ((of m e).centre * (of m e).unitNum) (of m e).unitDen - 17)).isSome =
      true := by
  have hnum : 0 < (of m e).centre * (of m e).unitNum := by
    rw [Nat.pos_iff_ne_zero]
    intro zero
    have centre := ratio_centre m e
    rw [zero, ratio, Nat.cast_zero, zero_div] at centre
    have large : (0 : ℚ) < m * 2 ^ e :=
      mul_pos (by exact_mod_cast Nat.pos_of_ne_zero hm) (by positivity)
    linarith
  have first := ten_zpow_le hnum (ratio_unit m e).2
  rw [ratio_centre] at first
  generalize pointPosition ((of m e).centre * (of m e).unitNum) (of m e).unitDen = point at first ⊢
  have power : (10 : ℚ) ^ (point - 1) = 10 ^ (point - 17) * 10 ^ 16 := by
    rw [← zpow_natCast (10 : ℚ) 16, ← zpow_add₀ (by norm_num)]
    congr 1
    push_cast
    omega
  rw [power, ← div_le_iff₀ (by positivity)] at first
  refine isSome_onGrid?_of_small bound hm e ?_
  calc (10 ^ (point - 17) * 2 ^ (-e) : ℚ) * 10 ^ 16 = 10 ^ (point - 17) * 10 ^ 16 / 2 ^ e := by
        rw [div_eq_mul_inv, ← zpow_neg]
        ring
    _ ≤ (m : ℚ) := first

/-- A fraction of the value of the shortest decimal of a binary number lies in the interval of the
number. -/
private theorem contains_of_value (bound : m < mantissaBound) (hm : m ≠ 0) {num den : Nat}
    (hden : 0 < den)
    (h : ratio num den = (shortest m e).value) : (of m e).contains num den = true := by
  let point := pointPosition ((of m e).centre * (of m e).unitNum) (of m e).unitDen
  have found : ((List.range 17).findSome? fun n ↦ (of m e).onGrid? (point - (n + 1 : Nat))).isSome =
      true := by
    rw [List.findSome?_isSome_iff]
    exact ⟨16, by simp, isSome_onGrid?_of bound hm e⟩
  obtain ⟨s, hs⟩ := Option.isSome_iff_exists.mp found
  have digits : shortest m e = s.dropZeros 17 := by
    rw [shortest, if_neg hm]
    exact congrArg (fun o ↦ (o.getD ⟨0, 0⟩).dropZeros 17) hs
  obtain ⟨n, -, grid⟩ := List.exists_of_findSome?_eq_some hs
  have inside := contains_of_onGrid? grid
  have exponent : s.exponent = point - (n + 1 : Nat) := exponent_of_onGrid? grid
  rw [contains_of_iff hm e (powerOfTen_spec _).2.1, ratio_mul_powerOfTen, ← exponent] at inside
  rw [digits, Scientific.value_dropZeros] at h
  rw [contains_of_iff hm e hden, h]
  exact inside

end RoundingInterval

/-! ### Reading -/

namespace Binary64

variable {m : Nat} {e : Int}

/-- What lies in the interval of a binary number lies in the range of all of them. -/
private theorem range_of_contains {negative : Bool} (normal : (finite negative m e).Normal)
    (hm : m ≠ 0) {num den : Nat} (hden : 0 < den) (inside : (of m e).contains num den = true) :
    (2 : ℚ) ^ (-1075 : ℤ) ≤ ratio num den ∧ ratio num den < 2 ^ (1024 : ℤ) := by
  obtain ⟨bound, least, most, -⟩ := normal
  obtain ⟨below, above, -⟩ := (contains_of_iff hm e hden num).mp inside
  obtain ⟨-, short⟩ := reach_mem m e
  have power : (0 : ℚ) < 2 ^ e := by positivity
  have positive : (1 : ℚ) ≤ m := by exact_mod_cast Nat.one_le_iff_ne_zero.mpr hm
  have limit : (m : ℚ) + 1 ≤ 2 ^ (53 : ℤ) := by exact_mod_cast (bound : m + 1 ≤ 2 ^ 53)
  rw [zpow_neg, ← div_eq_mul_inv] at below above
  rw [le_div_iff₀ power] at below
  rw [div_le_iff₀ power] at above
  constructor
  · calc (2 : ℚ) ^ (-1075 : ℤ) = 1 / 2 * 2 ^ (-1074 : ℤ) := by
          rw [show (-1075 : ℤ) = -1 + -1074 from rfl, zpow_add₀ two_ne_zero, zpow_neg_one, one_div]
      _ ≤ 1 / 2 * 2 ^ e :=
          mul_le_mul_of_nonneg_left (zpow_le_zpow_right₀ one_le_two least) (by norm_num)
      _ ≤ (m - reach m e) * 2 ^ e := mul_le_mul_of_nonneg_right (by linarith) power.le
      _ ≤ ratio num den := below
  · calc ratio num den ≤ (m + 1 / 2) * 2 ^ e := above
      _ < 2 ^ (53 : ℤ) * 2 ^ e := mul_lt_mul_of_pos_right (by linarith) power
      _ ≤ 2 ^ (53 : ℤ) * 2 ^ (971 : ℤ) :=
          mul_le_mul_of_nonneg_left (zpow_le_zpow_right₀ one_le_two most) (by positivity)
      _ = 2 ^ (1024 : ℤ) := (zpow_add₀ two_ne_zero _ _).symm

/-- A decimal in the range of the binary numbers has its first digit neither far before nor far
behind the point. -/
private theorem length_add_mem {n : Nat} {k : Int} (low : (2 : ℚ) ^ (-1075 : ℤ) ≤ n * 10 ^ k)
    (high : (n : ℚ) * 10 ^ k < 2 ^ (1024 : ℤ)) :
    n ≠ 0 ∧ -330 ≤ ((decimal n).length : ℤ) + k ∧ ((decimal n).length : ℤ) + k ≤ 310 := by
  have hn : n ≠ 0 := by
    rintro rfl
    rw [Nat.cast_zero, zero_mul] at low
    exact absurd low (not_le.mpr (by positivity))
  have tens (i : ℤ) : (0 : ℚ) < 10 ^ i := by positivity
  obtain ⟨first, last, some⟩ := ten_pow_le hn
  refine ⟨hn, ?_, ?_⟩
  · by_contra small
    have limit : (10 : ℚ) ^ (-331 : ℤ) ≤ 2 ^ (-1075 : ℤ) := by
      rw [zpow_neg, zpow_neg, inv_le_inv₀ (tens _) (by positivity)]
      exact_mod_cast (by decide +kernel : 2 ^ 1075 ≤ 10 ^ 331)
    have beyond : (n : ℚ) * 10 ^ k < 10 ^ (-331 : ℤ) :=
      calc (n : ℚ) * 10 ^ k < 10 ^ ((decimal n).length : ℤ) * 10 ^ k := by
            refine mul_lt_mul_of_pos_right ?_ (tens k)
            rw [zpow_natCast]
            exact_mod_cast last
        _ = 10 ^ (((decimal n).length : ℤ) + k) := (zpow_add₀ (by norm_num) _ _).symm
        _ ≤ 10 ^ (-331 : ℤ) := zpow_le_zpow_right₀ (by norm_num) (by omega)
    exact absurd (low.trans_lt (beyond.trans_le limit)) (lt_irrefl _)
  · by_contra large
    have limit : (2 : ℚ) ^ (1024 : ℤ) ≤ 10 ^ (310 : ℤ) := by
      exact_mod_cast (by decide +kernel : 2 ^ 1024 ≤ 10 ^ 310)
    have beyond : (10 : ℚ) ^ (310 : ℤ) ≤ n * 10 ^ k :=
      calc (10 : ℚ) ^ (310 : ℤ) ≤ 10 ^ (((decimal n).length - 1 : ℕ) + k) :=
            zpow_le_zpow_right₀ (by norm_num) (by omega)
        _ = 10 ^ (((decimal n).length - 1 : ℕ) : ℤ) * 10 ^ k := zpow_add₀ (by norm_num) _ _
        _ ≤ n * 10 ^ k := by
            refine mul_le_mul_of_nonneg_right ?_ (tens k).le
            rw [zpow_natCast]
            exact_mod_cast first
    exact absurd ((limit.trans beyond).trans_lt high) (lt_irrefl _)

private theorem exists_ofScientific (negative : Bool) {n : Nat} {k : Int} (hn : n ≠ 0)
    (low : -330 ≤ ((decimal n).length : ℤ) + k) (high : ((decimal n).length : ℤ) + k ≤ 310) :
    ∃ num den, 0 < den ∧ ratio num den = (n : ℚ) * 10 ^ k ∧
      ofScientific negative n k = nearest negative num den := by
  have large : ¬ 310 < ((Nat.toDigits 10 n).length : ℤ) + k := not_lt.mpr high
  have small : ¬ ((Nat.toDigits 10 n).length : ℤ) + k < -330 := not_lt.mpr low
  cases k with
  | ofNat k =>
    refine ⟨n * Nat.pow 10 k, 1, Nat.one_pos, ?_, ?_⟩
    · simp [ratio]
    · simp only [ofScientific, if_neg hn, if_neg large, if_neg small]
  | negSucc k =>
    refine ⟨n, Nat.pow 10 (k + 1), Nat.pow_pos (by decide), ?_, ?_⟩
    · simp [ratio, zpow_negSucc, div_eq_mul_inv]
    · simp only [ofScientific, if_neg hn, if_neg large, if_neg small]

/-- A decimal of the value of the shortest one is read as the number. -/
theorem ofScientific_eq {negative : Bool} (normal : (finite negative m e).Normal)
    {n : Nat} {k : Int} (h : (n : ℚ) * 10 ^ k = (shortest m e).value) :
    ofScientific negative n k = finite negative m e := by
  by_cases hm : m = 0
  · -- Zero has the least exponent.
    subst hm
    have zero : (n : ℚ) * 10 ^ k = 0 := by
      rw [h]
      exact zero_mul _
    have none : n = 0 := by
      rcases mul_eq_zero.mp zero with zero | power
      · exact_mod_cast zero
      · exact absurd power (by positivity)
    obtain ⟨-, -, -, full | least⟩ := normal
    · exact absurd full (by decide +kernel)
    · simp [ofScientific, none, Binary64.zero, least]
  · obtain ⟨num, den, hden, value⟩ : ∃ num den, 0 < den ∧ ratio num den = (n : ℚ) * 10 ^ k :=
      ⟨_, _, (powerOfTen_spec k).2.1, ratio_mul_powerOfTen n k⟩
    have inside := contains_of_value normal.1 hm hden (value.trans h)
    obtain ⟨least, most⟩ := range_of_contains normal hm hden inside
    rw [value] at least most
    obtain ⟨hn, low, high⟩ := length_add_mem least most
    obtain ⟨num, den, hden, value, scientific⟩ := exists_ofScientific negative hn low high
    rw [scientific]
    exact nearest_eq normal hm hden (contains_of_value normal.1 hm hden (value.trans h))

end Binary64

end EntityGraph.Number
