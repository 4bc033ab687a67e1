import EntityGraph.Bytes.Base64

/-!
# Base64 read back

The base64 form of a byte string is read as that byte string, even where no character outside of the
alphabet and no misplaced padding is passed over.
-/

namespace EntityGraph.Bytes.Base64

/-- A symbol is an ASCII character that does not pad. -/
theorem symbol_plain {n : Nat} (h : n < 64) : symbol n ≠ '=' ∧ (symbol n).toNat < 0x80 := by
  have all : ∀ m : Fin 64, symbol m ≠ '=' ∧ (symbol m).toNat < 0x80 := by decide
  exact all ⟨n, h⟩

private theorem decodeFrom_symbol {n : Nat} (h : n < 64) (cs : List Char) (count bits : Nat) :
    decodeFrom true (symbol n :: cs) ⟨count, bits, 0, false⟩ =
      (decodeFrom true cs ⟨count + 1, (push (count % 4) bits n).2, 0, false⟩).map
        ((push (count % 4) bits n).1.toList ++ ·) := by
  rw [decodeFrom, if_neg (symbol_plain h).1, sextet?_symbol h]
  rfl

private theorem ofNat_first (a : UInt8) {n : Nat} (h : n < 16) :
    UInt8.ofNat (a.toNat / 4 * 4 + (a.toNat % 4 * 16 + n) / 16) = a := by
  have value : a.toNat / 4 * 4 + (a.toNat % 4 * 16 + n) / 16 = a.toNat := by omega
  rw [value, UInt8.ofNat_toNat]

private theorem ofNat_second (m : Nat) (b : UInt8) {n : Nat} (h : n < 4) :
    UInt8.ofNat ((m * 16 + b.toNat / 16) % 16 * 16 + (b.toNat % 16 * 4 + n) / 4) = b := by
  have hb := b.toNat_lt
  have value : (m * 16 + b.toNat / 16) % 16 * 16 + (b.toNat % 16 * 4 + n) / 4 = b.toNat := by omega
  rw [value, UInt8.ofNat_toNat]

private theorem ofNat_third (m : Nat) (c : UInt8) :
    UInt8.ofNat ((m * 4 + c.toNat / 64) % 4 * 64 + c.toNat % 64) = c := by
  have hc := c.toNat_lt
  have value : (m * 4 + c.toNat / 64) % 4 * 64 + c.toNat % 64 = c.toNat := by omega
  rw [value, UInt8.ofNat_toNat]

private theorem decodeFrom_two_pads {count : Nat} (h : count % 4 = 2) (bits : Nat) :
    decodeFrom true ['=', '='] ⟨count, bits, 0, false⟩ = .ok [] := by
  simp [decodeFrom, h]

private theorem decodeFrom_one_pad {count : Nat} (h : count % 4 = 3) (bits : Nat) :
    decodeFrom true ['='] ⟨count, bits, 0, false⟩ = .ok [] := by
  simp [decodeFrom, h]

/-- The base64 form of a byte string is read back, from a place between groups on. -/
private theorem decodeFrom_encodeChars (bytes : List UInt8) (count bits : Nat) (h : count % 4 = 0) :
    decodeFrom true (encodeChars bytes) ⟨count, bits, 0, false⟩ = .ok bytes := by
  induction bytes using encodeChars.induct generalizing count bits with
  | case1 => simp [encodeChars, decodeFrom, h]
  | case2 a =>
    have ha := a.toNat_lt
    have h1 : (count + 1) % 4 = 1 := by omega
    have first := ofNat_first a (n := 0) (by omega)
    rw [encodeChars, decodeFrom_symbol (by omega), decodeFrom_symbol (by omega),
      decodeFrom_two_pads (by omega), h, h1]
    simpa [push, Except.map] using first
  | case3 a b =>
    have ha := a.toNat_lt
    have hb := b.toNat_lt
    have h1 : (count + 1) % 4 = 1 := by omega
    have h2 : (count + 1 + 1) % 4 = 2 := by omega
    have first := ofNat_first a (n := b.toNat / 16) (by omega)
    have second := ofNat_second (a.toNat % 4) b (n := 0) (by omega)
    rw [encodeChars, decodeFrom_symbol (by omega), decodeFrom_symbol (by omega),
      decodeFrom_symbol (by omega), decodeFrom_one_pad (by omega), h, h1, h2]
    rw [Nat.add_zero] at second
    simp only [push, Except.map, Option.toList_none, Option.toList_some, List.nil_append,
      List.singleton_append, first, second]
  | case4 a b c rest ih =>
    have ha := a.toNat_lt
    have hb := b.toNat_lt
    have hc := c.toNat_lt
    have h1 : (count + 1) % 4 = 1 := by omega
    have h2 : (count + 1 + 1) % 4 = 2 := by omega
    have h3 : (count + 1 + 1 + 1) % 4 = 3 := by omega
    have first := ofNat_first a (n := b.toNat / 16) (by omega)
    have second := ofNat_second (a.toNat % 4) b (n := c.toNat / 64) (by omega)
    have third := ofNat_third (b.toNat % 16) c
    rw [encodeChars, decodeFrom_symbol (by omega), decodeFrom_symbol (by omega),
      decodeFrom_symbol (by omega), decodeFrom_symbol (by omega), ih _ _ (by omega), h, h1, h2, h3]
    simp only [push, Except.map, Option.toList_none, Option.toList_some, List.nil_append,
      List.singleton_append, first, second, third]

/-- The characters of a base64 form belong to ASCII. -/
private theorem ascii_encodeChars (bytes : List UInt8) :
    ∀ c ∈ encodeChars bytes, c.toNat < 0x80 := by
  have ascii := fun n h ↦ (symbol_plain (n := n) h).2
  have pad : '='.toNat < 0x80 := by decide
  induction bytes using encodeChars.induct with
  | case1 => simp [encodeChars]
  | case2 a =>
    have ha := a.toNat_lt
    simp only [encodeChars, List.forall_mem_cons]
    exact ⟨ascii _ (by omega), ascii _ (by omega), pad, pad, by simp⟩
  | case3 a b =>
    have ha := a.toNat_lt
    have hb := b.toNat_lt
    simp only [encodeChars, List.forall_mem_cons]
    exact ⟨ascii _ (by omega), ascii _ (by omega), ascii _ (by omega), pad, by simp⟩
  | case4 a b c rest ih =>
    have ha := a.toNat_lt
    have hb := b.toNat_lt
    have hc := c.toNat_lt
    simp only [encodeChars, List.forall_mem_cons]
    exact ⟨ascii _ (by omega), ascii _ (by omega), ascii _ (by omega), ascii _ (by omega), ih⟩

private theorem head?_encodeChars (bytes : List UInt8) : (encodeChars bytes).head? ≠ some '=' := by
  have first : ∀ a : UInt8, symbol (a.toNat / 4) ≠ '=' := by
    intro a
    have ha := a.toNat_lt
    exact (symbol_plain (by omega)).1
  cases bytes using encodeChars.fun_cases with
  | case1 => simp [encodeChars]
  | case2 a => simpa [encodeChars] using first a
  | case3 a b => simpa [encodeChars] using first a
  | case4 a b c rest => simpa [encodeChars] using first a

/-- The base64 form of a byte string is read back. -/
theorem decode_encodeChars (bytes : List UInt8) : decode true (encodeChars bytes) = .ok bytes := by
  have ascii : (encodeChars bytes).any (0x80 ≤ ·.toNat) = false := by
    rw [List.any_eq_false]
    intro c hc
    simpa using ascii_encodeChars bytes c hc
  rw [decode, ascii]
  simpa [head?_encodeChars] using decodeFrom_encodeChars bytes 0 0 rfl

end EntityGraph.Bytes.Base64
