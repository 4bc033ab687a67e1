import Mathlib.Algebra.Group.Nat.Defs
import EntityGraph.Text.Blank

/-!
# Digits read back

The digits of a number, filled up with zeros or not, are read as that number.
-/

namespace EntityGraph.Text

/-- A digit is read as its value, in every base that it belongs to. -/
theorem digitIn?_digitChar {base d : Nat} (hbase : base ≤ 16) (hd : d < base) :
    digitIn? base (Nat.digitChar d) = some d := by
  have values : ∀ d : Fin 16, (digit? (Nat.digitChar d)).or (letter? (Nat.digitChar d)) =
      some d.val := by decide
  rw [digitIn?, values ⟨d, by omega⟩]
  exact if_pos hd

/-- The decimal digits are those that are no letters. -/
theorem digitIn?_ten (c : Char) : digitIn? 10 c = digit? c := by
  have letters : ∀ d, letter? c = some d → 10 ≤ d := by
    intro d hd
    rw [letter?] at hd
    grind
  cases hd : digit? c with
  | some d =>
    have small : d < 10 := by
      rw [digit?, isDigit] at hd
      grind
    rw [digitIn?, hd, Option.some_or]
    exact if_pos small
  | none =>
    rw [digitIn?, hd, Option.none_or]
    cases hl : letter? c with
    | none => rfl
    | some d => exact if_neg (Nat.not_lt.mpr (letters d hl))

/-- The value of digits with one more. -/
theorem ofDigits_concat (base : Nat) (ds : List Nat) (d : Nat) :
    ofDigits base (ds ++ [d]) = ofDigits base ds * base + d := by
  rw [ofDigits, List.foldl_append]
  rfl

private theorem ofDigits_replicate_zero (base k : Nat) (ds : List Nat) :
    ofDigits base (List.replicate k 0 ++ ds) = ofDigits base ds := by
  induction k with
  | zero => rfl
  | succ k ih =>
    rw [← ih, List.replicate_succ, List.cons_append, ofDigits, List.foldl_cons, Nat.zero_mul]
    rfl

private theorem exists_mapM_toDigits {base : Nat} (one : 1 < base) (hbase : base ≤ 16) (n : Nat) :
    ∃ ds, (Nat.toDigits base n).mapM (digitIn? base) = some ds ∧ ofDigits base ds = n := by
  induction n using Nat.strongRecOn with
  | ind n ih =>
    by_cases small : n < base
    · refine ⟨[n], ?_, by simp [ofDigits]⟩
      rw [Nat.toDigits_of_lt_base small]
      simp [digitIn?_digitChar hbase small]
    · have large : base ≤ n := Nat.not_lt.mp small
      obtain ⟨ds, hds, hn⟩ := ih (n / base) (Nat.div_lt_self (by omega) one)
      refine ⟨ds ++ [n % base], ?_, ?_⟩
      · rw [Nat.toDigits_of_base_le one large, List.mapM_append, hds]
        simp [digitIn?_digitChar hbase (Nat.mod_lt n (by omega))]
      · rw [ofDigits_concat, hn, Nat.div_add_mod']

/-- The digits of a number, filled up with zeros, have its value. -/
theorem exists_mapM_padLeft {base : Nat} (one : 1 < base) (hbase : base ≤ 16) (width n : Nat) :
    ∃ ds, (padLeft width '0' (Nat.toDigits base n)).mapM (digitIn? base) = some ds ∧
      ofDigits base ds = n := by
  obtain ⟨ds, hds, hn⟩ := exists_mapM_toDigits one hbase n
  have zeros : ∀ k, (List.replicate k '0').mapM (digitIn? base) = some (List.replicate k 0) := by
    intro k
    have zero : digitIn? base '0' = some 0 := digitIn?_digitChar (d := 0) hbase (by omega)
    induction k with
    | zero => rfl
    | succ k ih => simp [List.replicate_succ, zero, ih]
  refine ⟨List.replicate (width - (Nat.toDigits base n).length) 0 ++ ds, ?_, ?_⟩
  · rw [padLeft, List.mapM_append, zeros, hds]
    rfl
  · rw [ofDigits_replicate_zero, hn]

/-- The digits of a number, filled up with zeros, are read as the number. -/
theorem natIn?_padLeft {base : Nat} (one : 1 < base) (hbase : base ≤ 16) (width n : Nat) :
    natIn? base (padLeft width '0' (Nat.toDigits base n)) = some n := by
  obtain ⟨ds, hds, hn⟩ := exists_mapM_padLeft one hbase width n
  have nonempty : (padLeft width '0' (Nat.toDigits base n)).isEmpty = false := by
    simp [padLeft]
  rw [natIn?, nonempty, hds, ← hn]
  rfl

/-- The decimal digits of a number, filled up with zeros, are read as the number. -/
theorem nat?_padded (width n : Nat) : nat? (padded width n) = some n :=
  natIn?_padLeft (by decide) (by decide) width n

/-- The decimal digits of a number are read as the number. -/
theorem nat?_decimal (n : Nat) : nat? (decimal n) = some n := by
  have read := nat?_padded 0 n
  rwa [padded, padLeft, Nat.zero_sub, List.replicate_zero, List.nil_append] at read

/-- Zeros behind the digits of a number multiply it by powers of ten. -/
theorem nat?_append_zeros {cs : List Char} {n : Nat} (h : nat? cs = some n) (k : Nat) :
    nat? (cs ++ List.replicate k '0') = some (n * 10 ^ k) := by
  induction k with
  | zero => simpa using h
  | succ k ih =>
    rw [List.replicate_succ', ← List.append_assoc]
    generalize cs ++ List.replicate k '0' = ds at ih
    rw [nat?, natIn?] at ih ⊢
    split at ih
    · cases ih
    · obtain ⟨values, hvalues, value⟩ := Option.map_eq_some_iff.mp ih
      have zero : digitIn? 10 '0' = some 0 := by decide
      rw [if_neg (by simp), List.mapM_append, hvalues, Nat.pow_succ, ← Nat.mul_assoc, ← value]
      simp [zero, ofDigits_concat]

/-- The hexadecimal digits of a number, filled up with zeros, are read as the number. -/
theorem natIn?_hex (width n : Nat) : natIn? 16 (hex width n) = some n :=
  natIn?_padLeft (by decide) (by decide) width n

/-- A number below a power of ten has no more digits than the exponent says. -/
theorem length_decimal_le {n limit : Nat} (positive : 0 < limit) (h : n < Nat.pow 10 limit) :
    (decimal n).length ≤ limit :=
  (Nat.length_toDigits_le_iff (by decide) positive).mpr h

/-- Digits of a number that are not too many are filled up to exactly a width. -/
theorem length_padLeft {base width n : Nat} (one : 1 < base) (hn : n < base ^ width)
    (hwidth : 0 < width) : (padLeft width '0' (Nat.toDigits base n)).length = width := by
  have length : (Nat.toDigits base n).length ≤ width :=
    (Nat.length_toDigits_le_iff one hwidth).mpr hn
  simp [padLeft]
  omega

/-- A digit of a base, in lower case. -/
def IsDigitOf (base : Nat) (c : Char) : Prop := ∃ d < base, Nat.digitChar d = c

/-- What all digits of a base are each of them is. -/
theorem IsDigitOf.of_forall {base : Nat} {P : Char → Prop}
    (all : ∀ d : Fin base, P (Nat.digitChar d)) {c : Char} (h : IsDigitOf base c) : P c := by
  obtain ⟨d, hd, rfl⟩ := h
  exact all ⟨d, hd⟩

/-- Decimal digits are digits. -/
theorem isDigit_of_isDigitOf {c : Char} (h : IsDigitOf 10 c) : isDigit c = true :=
  h.of_forall (P := (isDigit · = true)) (by decide)

/-- The digits of a number, filled up with zeros, are digits of the base. -/
theorem isDigitOf_of_mem {base : Nat} (one : 1 < base) {width n : Nat} {c : Char}
    (hc : c ∈ padLeft width '0' (Nat.toDigits base n)) : IsDigitOf base c := by
  rcases List.mem_append.mp hc with hc | hc
  · obtain rfl := List.eq_of_mem_replicate hc
    exact ⟨0, by omega, rfl⟩
  · induction n using Nat.strongRecOn with
    | ind n ih =>
      by_cases small : n < base
      · rw [Nat.toDigits_of_lt_base small, List.mem_singleton] at hc
        exact ⟨n, small, hc.symm⟩
      · rw [Nat.toDigits_of_base_le one (Nat.not_lt.mp small), List.mem_append,
          List.mem_singleton] at hc
        rcases hc with hc | hc
        · exact ih (n / base) (Nat.div_lt_self (by omega) one) (List.mem_append_right _ hc) hc
        · exact ⟨n % base, Nat.mod_lt n (by omega), hc.symm⟩

/-- The decimal digits of a number are such digits. -/
theorem isDigitOf_of_mem_decimal {n : Nat} {c : Char} (hc : c ∈ decimal n) : IsDigitOf 10 c := by
  have padded : c ∈ padLeft 0 '0' (Nat.toDigits 10 n) := List.mem_append_right _ hc
  exact isDigitOf_of_mem (by decide) padded

private theorem mapM_upperAscii {cs : List Char} (h : ∀ c ∈ cs, IsDigitOf 16 c) :
    (cs.map upperAscii).mapM (digitIn? 16) = cs.mapM (digitIn? 16) := by
  have digit : ∀ {c}, IsDigitOf 16 c → digitIn? 16 (upperAscii c) = digitIn? 16 c := fun hc ↦
    hc.of_forall (P := fun c ↦ digitIn? 16 (upperAscii c) = digitIn? 16 c) (by decide)
  induction cs with
  | nil => rfl
  | cons c cs ih =>
    rw [List.forall_mem_cons] at h
    rw [List.map_cons, List.mapM_cons, List.mapM_cons, digit h.1, ih h.2]

/-- Hexadecimal digits in capital letters are read as the number. -/
theorem natIn?_hexUpper (width n : Nat) : natIn? 16 (hexUpper width n) = some n := by
  have digits : ∀ c ∈ hex width n, IsDigitOf 16 c := fun c ↦ isDigitOf_of_mem (by decide)
  rw [← natIn?_hex width n, natIn?, natIn?, hexUpper, mapM_upperAscii digits, List.isEmpty_map]

/-- A run of digits ends where something else follows. -/
theorem span_digits {cs : List Char} (rest : List Char) (h : ∀ c ∈ cs, IsDigitOf 10 c)
    (hrest : ∀ c ∈ rest.head?, isDigit c = false) :
    (cs ++ rest).takeWhile isDigit = cs ∧ (cs ++ rest).dropWhile isDigit = rest := by
  have digits : ∀ c ∈ cs, isDigit c = true := fun c hc ↦ isDigit_of_isDigitOf (h c hc)
  rw [List.takeWhile_append_of_pos digits, List.dropWhile_append_of_pos digits]
  cases rest with
  | nil => simp
  | cons c rest => simp [hrest c rfl]

/-- A number other than zero does not begin with a zero. -/
theorem head?_decimal_ne {n : Nat} (h : n ≠ 0) : (decimal n).head? ≠ some '0' := by
  induction n using Nat.strongRecOn with
  | ind n ih =>
    by_cases small : n < 10
    · have digits : ∀ d : Fin 10, d.val ≠ 0 → Nat.digitChar d ≠ '0' := by decide
      rw [decimal, Nat.toDigits_of_lt_base small, List.head?_cons]
      exact fun zero ↦ digits ⟨n, small⟩ h (Option.some.inj zero)
    · have large : 10 ≤ n := Nat.not_lt.mp small
      have first := ih (n / 10) (Nat.div_lt_self (by omega) (by decide)) (by omega)
      rw [decimal] at first ⊢
      rw [Nat.toDigits_of_base_le (by decide) large]
      cases digits : Nat.toDigits 10 (n / 10) with
      | nil => exact absurd digits Nat.toDigits_ne_nil
      | cons c cs =>
        rw [digits] at first
        exact first

/-! ### Texts that reading leaves as they are -/

/-- A text without characters of a kind stays as it is where they are taken away around it. -/
theorem trim_eq_self {p : Char → Bool} {cs : List Char} (h : ∀ c ∈ cs, p c = false) :
    ((cs.dropWhile p).reverse.dropWhile p).reverse = cs := by
  have keep : ∀ cs : List Char, (∀ c ∈ cs, p c = false) → cs.dropWhile p = cs := by
    intro cs h
    cases cs with
    | nil => rfl
    | cons c cs => exact List.dropWhile_cons_of_neg (by simp [h c List.mem_cons_self])
  rw [keep cs h, keep _ fun c hc ↦ h c (List.mem_reverse.mp hc), List.reverse_reverse]

/-- A text of ASCII characters is the ASCII reading of itself. -/
theorem foldNumeral?_of_ascii {cs : List Char} (h : ∀ c ∈ cs, c.toNat < 0x80) :
    foldNumeral? cs = some cs := by
  rw [foldNumeral?]
  induction cs with
  | nil => rfl
  | cons c cs ih =>
    rw [List.forall_mem_cons] at h
    rw [List.mapM_cons, ih h.2, foldNumeralChar?, if_pos h.1]
    rfl

end EntityGraph.Text
