import EntityGraph.Number.FloatReader
import EntityGraph.Number.FloatText
import EntityGraph.Proofs.ReadBack.Shortest

/-!
# Texts of binary numbers read back

The text of a binary number holds digits, a point among them and perhaps a power of ten, which spell
the value of the shortest decimal of the number. So the number is read back from its text.
-/

namespace EntityGraph.Number

open EntityGraph.Text

/-- The parts of a binary number as it is written: the digits before and behind the point, and a
power of ten, if there is one. -/
structure FloatSpelling where
  whole : List Char
  fraction : List Char
  power : Option Int

namespace FloatSpelling

/-- The characters of a spelling. -/
def chars (s : FloatSpelling) : List Char :=
  s.whole ++ '.' :: s.fraction ++ (s.power.map exponentPart).getD []

/-- What a spelling is a spelling of. -/
structure Spells (s : FloatSpelling) (value : ℚ) : Prop where
  nonempty : s.whole ≠ []
  whole : ∀ c ∈ s.whole, IsDigitOf 10 c
  fraction : ∀ c ∈ s.fraction, IsDigitOf 10 c
  value : ∃ n : Nat, nat? (s.whole ++ s.fraction) = some n ∧
    (n : ℚ) * 10 ^ (s.power.getD 0 - s.fraction.length) = value

private theorem readPower?_power (power : Option Int) :
    Binary64.readPower? ((power.map exponentPart).getD []) = some (power.getD 0) := by
  cases power with
  | none => rfl
  | some e =>
    have letter : lowerAscii 'e' = 'e' := by decide
    rw [Option.map_some, Option.getD_some, exponentPart, Binary64.readPower?, if_pos letter]
    by_cases negative : e < 0
    · simp [negative, Binary64.readSign, nat?_padded, abs_of_neg negative]
    · simp [negative, Binary64.readSign, nat?_padded, abs_of_nonneg (not_lt.mp negative)]

private theorem head?_power (power : Option Int) :
    ∀ c ∈ ((power.map exponentPart).getD []).head?, isDigit c = false := by
  cases power with
  | none => nofun
  | some e =>
    rintro c hc
    obtain rfl := Option.some.inj hc
    decide

private theorem Spells.exists_readDigits? {s : FloatSpelling} {value : ℚ} (h : s.Spells value)
    (negative : Bool) : ∃ n k, Binary64.readDigits? negative s.chars =
      some (Binary64.ofScientific negative n k) ∧ (n : ℚ) * 10 ^ k = value := by
  obtain ⟨n, hn, value⟩ := h.value
  refine ⟨n, _, ?_, value⟩
  have behind := head?_power s.power
  have power := readPower?_power s.power
  obtain ⟨taken, dropped⟩ := span_digits
    ('.' :: (s.fraction ++ (s.power.map exponentPart).getD [])) h.whole fun c hc ↦ by
      obtain rfl := Option.some.inj hc
      decide
  obtain ⟨taken', dropped'⟩ := span_digits ((s.power.map exponentPart).getD []) h.fraction behind
  rw [chars, List.append_assoc, List.cons_append, Binary64.readDigits?]
  simp only [taken, dropped, taken', dropped', hn, power]

end FloatSpelling

/-! ### Writing -/

namespace FloatSpelling

variable (n : Nat) (position : Int)

omit n position in
/-- Zeros behind a number are a power of ten. -/
theorem shift (n k : Nat) (e : Int) : ((n * 10 ^ k : ℕ) : ℚ) * 10 ^ e = n * 10 ^ (e + k) := by
  rw [zpow_add₀ (by norm_num), zpow_natCast]
  push_cast
  ring

/-- Digits with a point after some of them spell a number. -/
private theorem exists_positional : ∃ s : FloatSpelling,
    s.Spells (n * 10 ^ (position - (decimal n).length)) ∧
      positional (decimal n) position = s.chars := by
  have digits : ∀ c ∈ decimal n, IsDigitOf 10 c := fun c ↦ isDigitOf_of_mem_decimal
  have zeros (k : Nat) : ∀ c ∈ List.replicate k '0', IsDigitOf 10 c := fun c hc ↦
    List.eq_of_mem_replicate hc ▸ ⟨0, by decide, rfl⟩
  have nonempty : decimal n ≠ [] := Nat.toDigits_ne_nil
  rw [positional]
  split
  · next before =>
    have zero : '0' :: (List.replicate position.natAbs '0' ++ decimal n) =
        padded ((decimal n).length + (position.natAbs + 1)) n := by
      rw [padded, padLeft, Nat.add_sub_cancel_left, List.replicate_succ, List.cons_append]
    refine ⟨⟨['0'], List.replicate position.natAbs '0' ++ decimal n, none⟩,
      ⟨List.cons_ne_nil _ _, zeros 1, List.forall_mem_append.mpr ⟨zeros _, digits⟩, n, ?_, ?_⟩, ?_⟩
    · show nat? ('0' :: (List.replicate position.natAbs '0' ++ decimal n)) = _
      rw [zero, nat?_padded]
    · congr 2
      simp only [Option.getD_none, List.length_append, List.length_replicate]
      omega
    · simp [chars]
  · next inside =>
    split
    · next long =>
      obtain ⟨k, hk⟩ := Int.eq_ofNat_of_zero_le (sub_nonneg.mpr long)
      rw [hk, Int.toNat_natCast]
      have read : nat? (decimal n ++ List.replicate k '0' ++ ['0']) = some (n * 10 ^ (k + 1)) := by
        rw [List.append_assoc, ← List.replicate_succ']
        exact nat?_append_zeros (nat?_decimal n) _
      refine ⟨⟨decimal n ++ List.replicate k '0', ['0'], none⟩,
        ⟨by simp [nonempty], List.forall_mem_append.mpr ⟨digits, zeros _⟩, zeros 1, _,
          read, ?_⟩, ?_⟩
      · rw [shift]
        congr 2
        simp
      · simp [chars]
    · next short =>
      refine ⟨⟨(decimal n).take position.toNat, (decimal n).drop position.toNat, none⟩,
        ⟨?_, fun c hc ↦ digits c (List.mem_of_mem_take hc),
          fun c hc ↦ digits c (List.mem_of_mem_drop hc), n, ?_, ?_⟩, ?_⟩
      · simp only [ne_eq, List.take_eq_nil_iff, nonempty, or_false]
        omega
      · rw [List.take_append_drop, nat?_decimal]
      · congr 2
        simp only [Option.getD_none, List.length_drop]
        omega
      · simp [chars]

/-- Digits with a power of ten behind them spell a number. -/
private theorem exists_exponential : ∃ s : FloatSpelling,
    s.Spells (n * 10 ^ (position - (decimal n).length)) ∧
      exponential .yaml (decimal n) position = s.chars := by
  have digits : ∀ c ∈ decimal n, IsDigitOf 10 c := fun c ↦ isDigitOf_of_mem_decimal
  have read := nat?_decimal n
  rw [exponential]
  cases hn : decimal n with
  | nil => exact absurd hn Nat.toDigits_ne_nil
  | cons d ds =>
    rw [hn] at digits read
    rw [List.forall_mem_cons] at digits
    cases ds with
    | nil =>
      refine ⟨⟨[d], ['0'], some (position - 1)⟩,
        ⟨List.cons_ne_nil _ _, List.forall_mem_singleton.mpr digits.1, ?_, _,
          nat?_append_zeros read 1, ?_⟩, rfl⟩
      · exact List.forall_mem_singleton.mpr ⟨0, by decide, rfl⟩
      · rw [shift]
        congr 2
        simp
    | cons e ds =>
      refine ⟨⟨[d], e :: ds, some (position - 1)⟩,
        ⟨List.cons_ne_nil _ _, List.forall_mem_singleton.mpr digits.1, digits.2, n, read, ?_⟩, rfl⟩
      congr 2
      simp only [Option.getD_some, List.length_cons]
      omega

/-- The text of a decimal spells its value. -/
theorem exists_decimalText (d : Scientific) : ∃ s : FloatSpelling, s.Spells d.value ∧
    decimalText .yaml d = s.chars := by
  have value : d.value = d.digits * 10 ^
      ((if d.digits = 0 then 1 else (decimal d.digits).length + d.exponent) -
        (decimal d.digits).length) := by
    rw [Scientific.value]
    split
    · next zero => simp [zero]
    · congr 2
      omega
  rw [value, decimalText]
  generalize (if d.digits = 0 then (1 : ℤ) else _) = position
  split
  · exact exists_positional d.digits position
  · exact exists_exponential d.digits position

end FloatSpelling

/-! ### Reading -/

/-- A character that texts of finite binary numbers are made of. -/
def IsFloatMark (c : Char) : Prop := IsDigitOf 10 c ∨ c ∈ ".e+-".toList

/-- What all decimal digits and all marks are each such character is. -/
theorem IsFloatMark.of_all {p : Char → Bool} (digits : ∀ d : Fin 10, p (Nat.digitChar d) = true)
    (all : ".e+-".toList.all p = true) {c : Char} (h : IsFloatMark c) : p c = true :=
  h.elim (·.of_forall (P := (p · = true)) digits) (List.all_eq_true.mp all c)

namespace FloatSpelling

variable {s : FloatSpelling} {value : ℚ} (h : s.Spells value)

include h

/-- The characters of a spelling are digits and marks. -/
theorem Spells.isFloatMark : ∀ c ∈ s.chars, IsFloatMark c := by
  have power : ∀ c ∈ (s.power.map exponentPart).getD [], IsFloatMark c := by
    cases s.power with
    | none => exact List.forall_mem_nil _
    | some e =>
      rw [Option.map_some, Option.getD_some, exponentPart, List.forall_mem_cons,
        List.forall_mem_cons]
      refine ⟨.inr (by decide), .inr (by split <;> decide), fun c hc ↦ .inl ?_⟩
      exact isDigitOf_of_mem (by decide) hc
  rw [chars, List.forall_mem_append, List.forall_mem_append, List.forall_mem_cons]
  exact ⟨⟨fun c hc ↦ .inl (h.whole c hc), .inr (by decide),
    fun c hc ↦ .inl (h.fraction c hc)⟩, power⟩

/-- A spelling begins with a digit. -/
theorem Spells.exists_chars_eq : ∃ c cs, s.chars = c :: cs ∧ IsDigitOf 10 c := by
  obtain ⟨c, cs, hwhole⟩ := List.exists_cons_of_ne_nil h.nonempty
  refine ⟨c, _, by rw [chars, hwhole]; rfl, h.whole c (hwhole ▸ List.mem_cons_self)⟩

/-- A spelling is read as a decimal of the value that it spells. -/
private theorem Spells.exists_read? : ∃ n k, Binary64.read? (String.ofList s.chars) =
    some (Binary64.ofScientific false n k) ∧ (n : ℚ) * 10 ^ k = value := by
  obtain ⟨n, k, read, hvalue⟩ := h.exists_readDigits? false
  refine ⟨n, k, ?_, hvalue⟩
  have ascii : foldNumeral? s.chars = some s.chars := foldNumeral?_of_ascii fun c hc ↦ by
    simpa using (h.isFloatMark c hc).of_all (p := (·.toNat < 0x80)) (by decide) (by decide)
  have trimmed : trimAscii s.chars = s.chars := trim_eq_self fun c hc ↦ by
    simpa using (h.isFloatMark c hc).of_all (p := (!isAsciiBlank ·)) (by decide) (by decide)
  obtain ⟨c, cs, hchars, digit⟩ := h.exists_chars_eq
  have differs : c ≠ '-' ∧ c ≠ '+' ∧ lowerAscii c ≠ 'i' ∧ lowerAscii c ≠ 'n' :=
    digit.of_forall (P := fun c ↦ c ≠ '-' ∧ c ≠ '+' ∧ lowerAscii c ≠ 'i' ∧ lowerAscii c ≠ 'n')
      (by decide)
  have unsigned : Binary64.readSign s.chars = (false, s.chars) := by
    rw [hchars, Binary64.readSign.eq_def]
    split
    · next heq => exact absurd (List.cons.inj heq).1 differs.1
    · next heq => exact absurd (List.cons.inj heq).1 differs.2.1
    · rfl
  have letter (x : Char) (word : List Char) (hx : lowerAscii c ≠ x) :
      String.ofList (s.chars.map lowerAscii) ≠ String.ofList (x :: word) := fun same ↦ by
    have same := String.ofList_injective same
    rw [hchars, List.map_cons] at same
    exact hx (List.cons.inj same).1
  have infinite : String.ofList (s.chars.map lowerAscii) ≠ "inf" ∧
      String.ofList (s.chars.map lowerAscii) ≠ "infinity" ∧
      String.ofList (s.chars.map lowerAscii) ≠ "nan" :=
    ⟨letter 'i' "nf".toList differs.2.2.1, letter 'i' "nfinity".toList differs.2.2.1,
      letter 'n' "an".toList differs.2.2.2⟩
  rw [Binary64.read?, String.toList_ofList, ascii]
  simp only [Option.bind_eq_bind, Option.bind_some, trimmed, unsigned, infinite, decide_false,
    Bool.or_self, Bool.false_eq_true, if_false, read]

end FloatSpelling

/-- The text of a number that has its normal form, the sign apart, is read as the number. -/
theorem Binary64.read?_decimalText {negative : Bool} {m : Nat} {e : Int}
    (normal : (finite negative m e).Normal) :
    read? (String.ofList (decimalText .yaml (shortest m e))) = some (finite false m e) := by
  obtain ⟨s, spells, text⟩ := FloatSpelling.exists_decimalText (shortest m e)
  obtain ⟨n, k, read, value⟩ := spells.exists_read?
  have positive : (finite false m e).Normal := normal
  rw [text, read, ofScientific_eq positive value]

end EntityGraph.Number
