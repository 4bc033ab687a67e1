import EntityGraph.Proofs.ReadBack.FloatText
import EntityGraph.Proofs.ReadBack.Yaml.Spelling

/-!
# Binary numbers read back

A binary number that is one is written as a scalar that is read as the number.
-/

namespace EntityGraph.Yaml

open EntityGraph.Number EntityGraph.Text

private theorem lowercase_eq_self {cs : List Char}
    (h : ∀ c ∈ cs, c.toNat < 0x80 ∧ lowerAscii c = c) :
    lowercase cs = cs := by
  have stays (afterLetter : Bool) : lowercaseFrom afterLetter cs = cs := by
    induction cs generalizing afterLetter with
    | nil => rfl
    | cons c cs ih =>
      rw [List.forall_mem_cons] at h
      have ordinary : c ≠ capitalSigma := by
        rintro rfl
        exact absurd h.1.1 (by decide)
      rw [lowercaseFrom, if_neg ordinary, smallForm_of_ascii h.1.1, h.1.2, ih h.2]
      rfl
  exact stays false

namespace Scalar

/-- A number with its sign is read with its sign. -/
private theorem float_signed (id : Identity) (negative : Bool) {cs : List Char} {x : Binary64}
    (marks : ∀ c ∈ cs, IsFloatMark c) (digit : ∃ c ds, cs = c :: ds ∧ IsDigitOf 10 c)
    (read : Binary64.read? (String.ofList cs) = some x) :
    float id (String.ofList ((if negative then ['-'] else []) ++ cs)) =
      .ok (.atom id (.float (if negative then x.neg else x))) := by
  have all : ∀ c ∈ (if negative then ['-'] else []) ++ cs, IsFloatMark c := by
    rw [List.forall_mem_append]
    refine ⟨?_, marks⟩
    cases negative with
    | false => exact List.forall_mem_nil _
    | true => exact List.forall_mem_singleton.mpr (.inr (by decide))
  have unlined : dropLines ((if negative then ['-'] else []) ++ cs) =
      (if negative then ['-'] else []) ++ cs := by
    rw [dropLines, List.filter_eq_self]
    exact fun c hc ↦ (all c hc).of_all (p := fun c ↦ c ≠ '_') (by decide) (by decide)
  have small : lowercase ((if negative then ['-'] else []) ++ cs) =
      (if negative then ['-'] else []) ++ cs := by
    refine lowercase_eq_self fun c hc ↦ ?_
    simpa using (all c hc).of_all (p := fun c ↦ c.toNat < 0x80 && lowerAscii c = c) (by decide)
      (by decide)
  have colon : cs.contains ':' = false := by
    rw [← Bool.not_eq_true, List.contains_iff_mem]
    intro mem
    exact absurd ((marks ':' mem).of_all (p := fun c ↦ c ≠ ':') (by decide) (by decide)) (by decide)
  obtain ⟨c, ds, rfl, hc⟩ := digit
  have differs : c ≠ '-' ∧ c ≠ '+' ∧ c ≠ '.' :=
    hc.of_forall (P := fun c ↦ c ≠ '-' ∧ c ≠ '+' ∧ c ≠ '.') (by decide)
  have word (ws : List Char) : c :: ds ≠ '.' :: ws := fun same ↦ differs.2.2 (List.cons.inj same).1
  have infinite : c :: ds ≠ ".inf".toList ∧ c :: ds ≠ ".nan".toList :=
    ⟨word "inf".toList, word "nan".toList⟩
  have unsigned : Tag.unsigned ((if negative then ['-'] else []) ++ c :: ds) = c :: ds := by
    cases negative with
    | true => rfl
    | false =>
      rw [if_neg Bool.false_ne_true, List.nil_append, Tag.unsigned.eq_def]
      split
      · next heq => exact absurd (List.cons.inj heq).1 differs.2.1
      · next heq => exact absurd (List.cons.inj heq).1 differs.1
      · rfl
  have sign : ((if negative then ['-'] else []) ++ c :: ds).head? = some '-' ↔ negative = true := by
    cases negative with
    | true => simp
    | false => simp [differs.1]
  have some : ((if negative then ['-'] else []) ++ c :: ds).isEmpty = false := by simp
  rw [float, String.toList_ofList, unlined, small]
  simp only [unsigned, sign, some, Bool.false_eq_true, if_false, infinite, colon, decimal, read]
  rfl

end Scalar

/-- A binary number that is one is read back. -/
theorem isScalar_float {x : Binary64} (normal : x.Normal) (number : x ≠ .nan) :
    IsScalar (.float x) "float" (x.text .yaml) := by
  cases x with
  | finite negative m e =>
    obtain ⟨s, spells, written⟩ := FloatSpelling.exists_decimalText (shortest m e)
    have text : (Binary64.finite negative m e).text .yaml =
        String.ofList ((if negative then ['-'] else []) ++ s.chars) := by
      rw [Binary64.text, written]
    have read := Binary64.read?_decimalText normal
    rw [written] at read
    refine ⟨fun _ ↦ rfl, by decide, fun _ ↦ by decide, fun id ↦ ?_, rfl, .inr ?_⟩
    · show Scalar.float id _ = _
      rw [text, Scalar.float_signed id negative spells.isFloatMark spells.exists_chars_eq read]
      cases negative <;> rfl
    · rw [text, String.toList_ofList, List.forall_mem_append]
      refine ⟨List.all_iff_forall_prop.mp (by cases negative <;> decide), fun c hc ↦ ?_⟩
      simpa using (spells.isFloatMark c hc).of_all (p := fun c ↦ c.toNat ≤ 0xFF) (by decide)
        (by decide)
  | infinite negative =>
    refine ⟨fun _ ↦ rfl, by decide, fun _ ↦ by decide, fun id ↦ ?_, rfl, .inr ?_⟩
    · cases negative <;> rfl
    · exact List.all_iff_forall_prop.mp (by cases negative <;> decide)
  | nan => exact absurd rfl number

end EntityGraph.Yaml
