import EntityGraph.Proofs.ReadBack.Digits
import EntityGraph.Uuid

/-!
# UUIDs read back

The text of an identifier is read as that identifier.
-/

namespace EntityGraph

open EntityGraph.Text EntityGraph.Number

namespace Number.Integer

private theorem dropLines?_eq_some {cs : List Char} (hne : cs ≠ []) (h : ∀ c ∈ cs, c ≠ '_') :
    dropLines? cs = some cs := by
  induction cs with
  | nil => exact absurd rfl hne
  | cons c cs ih =>
    rw [List.forall_mem_cons] at h
    cases cs with
    | nil => rw [dropLines?, if_neg h.1]
    | cons d ds =>
      have hd : d ≠ '_' := h.2 d List.mem_cons_self
      rw [dropLines?, if_neg h.1, ih (List.cons_ne_nil d ds) h.2]
      · rfl
      · exact hd

private theorem dropMark_eq_self {base : Nat} {cs : List Char}
    (h : ∀ c ∈ cs, baseMark? base ≠ some (lowerAscii c)) : dropMark base cs = cs := by
  unfold dropMark
  split
  · next c cs => rw [if_neg (h c (by simp))]
  · rfl

end Number.Integer

/-- The hexadecimal digits of a number are such digits. -/
theorem Text.isDigitOf_of_mem_hex {width n : Nat} {c : Char} (hc : c ∈ hex width n) :
    IsDigitOf 16 c :=
  isDigitOf_of_mem (by decide) hc

/-- Digits that are not too many, none of which marks a base, are read as the number they spell. -/
theorem Number.Integer.read_digits {base n : Nat} {cs : List Char}
    (digits : ∀ c ∈ cs, IsDigitOf 16 c) (unmarked : ∀ c ∈ cs, baseMark? base ≠ some (lowerAscii c))
    (few : isLimited base = true → cs.length ≤ digitLimit) (h : natIn? base cs = some n) :
    read base (String.ofList cs) = .ok (n : Int) := by
  have nonempty : cs ≠ [] := by
    rintro rfl
    cases h
  have ascii : foldNumeral? cs = some cs :=
    foldNumeral?_of_ascii fun c hc ↦
      (digits c hc).of_forall (P := fun c ↦ c.toNat < 0x80) (by decide)
  have trimmed : trimAscii cs = cs :=
    trim_eq_self fun c hc ↦
      (digits c hc).of_forall (P := fun c ↦ isAsciiBlank c = false) (by decide)
  have unsigned : ∀ c ∈ cs, c ≠ '-' ∧ c ≠ '+' := fun c hc ↦
    (digits c hc).of_forall (P := fun c ↦ c ≠ '-' ∧ c ≠ '+') (by decide)
  have unlined : dropLines? cs = some cs :=
    dropLines?_eq_some nonempty fun c hc ↦
      (digits c hc).of_forall (P := fun c ↦ c ≠ '_') (by decide)
  have count : digitCount base cs ≤ cs.length :=
    Nat.le_trans (List.length_filter_le _ _) (List.takeWhile_sublist _).length_le
  have within : (isLimited base && decide (digitLimit < digitCount base cs)) = false := by
    cases limited : isLimited base with
    | false => rfl
    | true => simpa using Nat.le_trans count (few limited)
  have magnitude : readMagnitude base cs = .ok n := by
    rw [readMagnitude, dropMark_eq_self unmarked, within, unlined, Option.bind_some, h]
    rfl
  rw [read, String.toList_ofList, ascii]
  simp only [trimmed]
  split
  · next cs => exact absurd rfl (unsigned '-' (by simp)).1
  · next cs => exact absurd rfl (unsigned '+' (by simp)).2
  · rw [magnitude]
    rfl

private theorem Number.Integer.read_hex (width n : Nat) :
    read 16 (String.ofList (hex width n)) = .ok (n : Int) := by
  have digits : ∀ c ∈ hex width n, IsDigitOf 16 c := fun c hc ↦ isDigitOf_of_mem_hex hc
  exact read_digits digits (fun c hc ↦
    (digits c hc).of_forall (P := fun c ↦ baseMark? 16 ≠ some (lowerAscii c)) (by decide))
    nofun (natIn?_hex width n)

/-- The decimal digits of a number that is not too long are read as the number. -/
theorem Number.Integer.read_decimal {n : Nat} (short : n < Nat.pow 10 digitLimit) :
    read 10 (String.ofList (decimal n)) = .ok (n : Int) := by
  refine read_digits (fun c hc ↦ ?_) nofun (fun _ ↦ length_decimal_le (by decide) short)
    (nat?_decimal n)
  obtain ⟨d, hd, rfl⟩ := isDigitOf_of_mem_decimal hc
  exact ⟨d, by omega, rfl⟩

namespace Uuid

private theorem removeAll_eq_self {c : Char} {word cs : List Char} (h : ∀ d ∈ cs, d ≠ c) :
    removeAll (c :: word) cs = cs := by
  induction cs with
  | nil => rw [removeAll]
  | cons d cs ih =>
    rw [List.forall_mem_cons] at h
    have differs : (c :: word).isPrefixOf (d :: cs) = false := by
      simp [List.isPrefixOf, h.1.symm]
    rw [removeAll, differs, ih h.2]
    rfl

/-- The characters of an identifier without hyphens are its digits. -/
theorem filter_chars (u : Uuid) : u.chars.filter (· ≠ '-') = hex 32 u.bits.toNat := by
  have length : (hex 32 u.bits.toNat).length = 32 :=
    length_padLeft (by decide) u.bits.isLt (by decide)
  have digits : ∀ start count, (((hex 32 u.bits.toNat).drop start).take count).filter (· ≠ '-') =
      ((hex 32 u.bits.toNat).drop start).take count := by
    intro start count
    rw [List.filter_eq_self]
    intro c hc
    have mem := List.mem_of_mem_drop (List.mem_of_mem_take hc)
    exact (isDigitOf_of_mem_hex mem).of_forall (P := fun c ↦ decide (c ≠ '-') = true) (by decide)
  have hyphen : ∀ cs : List Char, ('-' :: cs).filter (· ≠ '-') = cs.filter (· ≠ '-') :=
    fun cs ↦ List.filter_cons_of_neg (by decide)
  have join : ∀ start count, ((hex 32 u.bits.toNat).drop start).take count ++
      (hex 32 u.bits.toNat).drop (start + count) = (hex 32 u.bits.toNat).drop start := by
    intro start count
    rw [← List.drop_drop, List.take_append_drop]
  have last : ((hex 32 u.bits.toNat).drop 20).take 12 = (hex 32 u.bits.toNat).drop 20 :=
    List.take_of_length_le (by simp [length])
  rw [chars]
  simp only [List.append_assoc, List.cons_append, List.filter_append, digits, hyphen]
  rw [last, join 16 4, join 12 4, join 8 4, join 0 8, List.drop_zero]

private theorem isDigitOf_or_eq_of_mem {u : Uuid} {c : Char} (hc : c ∈ u.chars) :
    IsDigitOf 16 c ∨ c = '-' := by
  by_cases h : c = '-'
  · exact .inr h
  · have mem : c ∈ u.chars.filter (· ≠ '-') := List.mem_filter.mpr ⟨hc, by simpa using h⟩
    rw [filter_chars] at mem
    exact .inl (isDigitOf_of_mem_hex mem)

/-- The text of an identifier is read back. -/
theorem read_text (u : Uuid) : read u.text = .ok u := by
  have plain : ∀ c ∈ u.chars, c ≠ 'u' ∧ isBrace c = false := by
    intro c hc
    rcases isDigitOf_or_eq_of_mem hc with h | rfl
    · exact h.of_forall (P := fun c ↦ c ≠ 'u' ∧ isBrace c = false) (by decide)
    · decide
  have urn : removeAll "urn:".toList u.chars = u.chars :=
    removeAll_eq_self fun c hc ↦ (plain c hc).1
  have uuid : removeAll "uuid:".toList u.chars = u.chars :=
    removeAll_eq_self fun c hc ↦ (plain c hc).1
  have digits : digitsOf u.chars = hex 32 u.bits.toNat := by
    rw [digitsOf, urn, uuid, trim_eq_self fun c hc ↦ (plain c hc).2, filter_chars]
  have length : (hex 32 u.bits.toNat).length = 32 :=
    length_padLeft (by decide) u.bits.isLt (by decide)
  rw [read, text, String.toList_ofList, digits]
  simp [length, Number.Integer.read_hex]

end Uuid

end EntityGraph
