import EntityGraph.Proofs.ReadBack.Uuid
import EntityGraph.Proofs.ReadBack.Yaml.Spelling

/-!
# Atoms read back

The absent value, truth values, integers that are not too long and texts are written as scalars that
are read as these atoms.
-/

namespace EntityGraph.Yaml

open EntityGraph.Number EntityGraph.Text

/-- The absent value is read back. -/
theorem isScalar_null : IsScalar .null "null" "null" :=
  ⟨fun _ ↦ rfl, by decide, nofun, fun _ ↦ rfl, rfl, .inr (List.all_iff_forall_prop.mp (by decide))⟩

/-- A truth value is read back. -/
theorem isScalar_bool (b : Bool) : IsScalar (.bool b) "bool" (if b then "true" else "false") := by
  refine ⟨fun _ ↦ rfl, by decide, nofun, fun _ ↦ ?_, rfl,
    .inr (List.all_iff_forall_prop.mp (by cases b <;> decide))⟩
  have read : Scalar.bool (if b then "true" else "false") = .ok b := by
    cases b <;> decide +kernel
  show (Scalar.bool _).map _ = _
  rw [read]
  rfl

/-- A text is read back. -/
theorem isScalar_text (s : String) : IsScalar (.text s) "str" s :=
  ⟨fun _ ↦ rfl, by decide, nofun, fun _ ↦ rfl, rfl, .inl rfl⟩

namespace Scalar

/-- The digits of a number that is not too long are read as the number. -/
private theorem magnitude_decimal {n : Nat} (short : n < Nat.pow 10 Integer.digitLimit) :
    magnitude (Text.decimal n) = .ok (n : Int) := by
  by_cases zero : n = 0
  · subst zero
    decide +kernel
  · have nonzero := head?_decimal_ne zero
    have digits : ∀ c ∈ Text.decimal n, c ≠ ':' := fun c hc ↦
      (isDigitOf_of_mem_decimal hc).of_forall (P := (· ≠ ':')) (by decide)
    have uncut : (Text.decimal n).contains ':' = false := by
      simpa using fun mem ↦ digits ':' mem rfl
    have read : integer 10 (Text.decimal n) = .ok (n : Int) := by
      rw [integer, Integer.read_decimal short]
    unfold magnitude
    split
    · next h => rw [h] at nonzero; exact absurd rfl nonzero
    · next h => rw [h] at nonzero; exact absurd rfl nonzero
    · next h => rw [h] at nonzero; exact absurd rfl nonzero
    · next h => rw [h] at nonzero; exact absurd rfl nonzero
    · next h => exact absurd h Nat.toDigits_ne_nil
    · rw [uncut]
      exact read

/-- The text of an integer that is not too long is read as the integer. -/
private theorem int_decimalInt {i : Int} (short : Integer.isTooLong i = false) :
    int (String.ofList (decimalInt i)) = .ok i := by
  have digit {n : Nat} {c : Char} (hc : c ∈ Text.decimal n) : c ≠ '_' ∧ c ≠ '-' ∧ c ≠ '+' :=
    (isDigitOf_of_mem_decimal hc).of_forall (P := fun c ↦ c ≠ '_' ∧ c ≠ '-' ∧ c ≠ '+') (by decide)
  have kept (n : Nat) : dropLines (Text.decimal n) = Text.decimal n := by
    rw [dropLines, List.filter_eq_self]
    exact fun c hc ↦ by simpa using (digit hc).1
  rw [Integer.isTooLong, decide_eq_false_iff_not, Nat.not_le] at short
  cases i with
  | ofNat n =>
    rw [int, String.toList_ofList, decimalInt, kept]
    have read := magnitude_decimal (n := n) short
    cases digits : Text.decimal n with
    | nil => exact absurd digits Nat.toDigits_ne_nil
    | cons c cs =>
      have plain := digit (digits ▸ List.mem_cons_self : c ∈ Text.decimal n)
      have unsigned : Tag.unsigned (c :: cs) = c :: cs := by
        unfold Tag.unsigned
        split
        · next h => exact absurd (List.cons.inj h).1 plain.2.2
        · next h => exact absurd (List.cons.inj h).1 plain.2.1
        · rfl
      rw [digits] at read
      split
      · next h => cases h
      · next h => exact absurd (List.cons.inj h).1 plain.2.1
      · rw [unsigned, read]
        rfl
  | negSucc n =>
    have kept' : dropLines ('-' :: Text.decimal (n + 1)) = '-' :: Text.decimal (n + 1) := by
      rw [dropLines, List.filter_cons_of_pos (by decide)]
      exact congrArg _ (kept (n + 1))
    rw [int, String.toList_ofList, decimalInt, kept']
    show (magnitude (Text.decimal (n + 1))).map _ = _
    rw [magnitude_decimal (n := n + 1) short]
    rfl

end Scalar

/-- An integer that is not too long is read back. -/
theorem isScalar_int {i : Int} (short : Integer.isTooLong i = false) :
    IsScalar (.int i) "int" (String.ofList (decimalInt i)) := by
  refine ⟨fun _ ↦ ?_, by decide, nofun, fun _ ↦ ?_, rfl, .inr ?_⟩
  · rw [Form.ofAtom, intText, short]
    rfl
  · show (Scalar.int _).map _ = _
    rw [Scalar.int_decimalInt short]
    rfl
  · have digit {n : Nat} {c : Char} (hc : c ∈ Text.decimal n) : c.toNat ≤ 0xFF :=
      (isDigitOf_of_mem_decimal hc).of_forall (P := fun c ↦ c.toNat ≤ 0xFF) (by decide)
    rw [String.toList_ofList]
    cases i with
    | ofNat n => exact fun c ↦ digit
    | negSucc n => exact List.forall_mem_cons.mpr ⟨by decide, fun c ↦ digit⟩

end EntityGraph.Yaml
