import EntityGraph.Proofs.ReadBack.Base64
import EntityGraph.Proofs.ReadBack.Calendar
import EntityGraph.Proofs.ReadBack.Decimal
import EntityGraph.Proofs.ReadBack.Uuid
import EntityGraph.Proofs.Sameness
import EntityGraph.Schema.View

/-!
# Defaults read back

The encoded form of a default is read as a default of the same type. It is the same default, unless
it is a number that is none or a moment whose offset from universal time is shorter than a second.
-/

namespace EntityGraph

open EntityGraph.Calendar EntityGraph.Number EntityGraph.Text

/-! ### Integers as decimal numbers -/

/-- The decimal number of an integer. -/
def Number.Decimal.ofInt (i : Int) : Decimal := .finite (i < 0) i.natAbs 0

private theorem Number.Decimal.chars_ofInt (i : Int) : (ofInt i).chars = decimalInt i := by
  have some : 1 ≤ (decimal i.natAbs).length := Nat.length_toDigits_pos
  have positional : -positionalZeros ≤ adjusted i.natAbs 0 := by
    rw [adjusted, positionalZeros]
    omega
  have digits : finiteText i.natAbs 0 = decimal i.natAbs := by
    rw [finiteText, if_pos ⟨le_rfl, positional⟩, if_pos rfl]
  rw [ofInt, chars, digits]
  cases i with
  | ofNat n => rfl
  | negSucc n =>
    have negative : decide (Int.negSucc n < 0) = true := decide_eq_true (Int.negSucc_lt_zero n)
    rw [negative]
    rfl

private theorem Number.Decimal.isInRange_ofInt {i : Int} (h : Integer.isTooLong i = false) :
    (ofInt i).IsInRange := by
  have short : (decimal i.natAbs).length ≤ Integer.digitLimit :=
    length_decimal_le (by decide) (Nat.not_le.mp (of_decide_eq_false h))
  rw [Integer.digitLimit] at short
  refine ⟨by decide, ?_⟩
  rw [adjusted, maxExponent]
  split <;> omega

private theorem Atom.equals_ofInt (i : Int) : equals (.decimal (.ofInt i)) (.int i) = true := by
  have value : (if i < 0 then -(i.natAbs : Int) else i.natAbs) = i := by omega
  simp only [equals, numeral?, Decimal.ofInt, Numeral.ofDecimal?, Numeral.ofInt, decide_eq_true_eq,
    value]

/-! ### Defaults -/

/-- A default as callers have it: there is one absent value, an integer has not too many digits to
be written, and a decimal number is within the range of exponents. -/
def Value.IsOrdinary : Value → Prop
  | .atom id .null => id = .fresh
  | .atom _ (.int i) => Integer.isTooLong i = false
  | .atom _ (.decimal d) => d.IsInRange
  | _ => True

/-- The offset of a value that is a moment is zero or at least a second. -/
def Value.HasLongOffset : Value → Prop
  | .atom _ (.moment m) => ∀ o, m.offset = some o → o = 0 ∨ 1000000 ≤ o.natAbs
  | _ => True

namespace ScalarType

/-- Whether defaults of a type have an encoded form of their own. -/
def isEncoded : ScalarType → Bool
  | date | binary | uuid | decimal => true
  | _ => false

/-- What the default of a type is encoded as, and what that is read as. -/
inductive Rereads : ScalarType → Value → Value → Value → Prop
  | absent (type : ScalarType) : Rereads type .null .null .null
  | kept (type : ScalarType) (v : Value) (some : v.isNull = false)
    (plain : type.isEncoded = false) : Rereads type v v v
  | date (id : Identity) (d : Date) :
    Rereads .date (.atom id (.date d)) (.text d.text) (.atom .fresh (.date d))
  | moment (id : Identity) (m : Moment) :
    Rereads .date (.atom id (.moment m)) (.text m.text) (.atom .fresh (.moment m.reread))
  | bytes (id : Identity) (growable : Bool) (content : List UInt8) :
    Rereads .binary (.atom id (.bytes growable content)) (.text (Bytes.Base64.encode content))
      (.atom .fresh (.bytes false content))
  | uuid (id : Identity) (u : Uuid) :
    Rereads .uuid (.atom id (.uuid u)) (.text u.text) (.atom .fresh (.uuid u))
  | decimal (id : Identity) (d : Decimal) (range : d.IsInRange) :
    Rereads .decimal (.atom id (.decimal d)) (.text d.text) (.atom .fresh (.decimal d))
  | int (id : Identity) (i : Int) (short : Integer.isTooLong i = false) :
    Rereads .decimal (.atom id (.int i)) (.text (Decimal.ofInt i).text)
      (.atom .fresh (.decimal (.ofInt i)))

/-- Every ordinary default of a type can be encoded and read. -/
theorem exists_rereads {name v : Value} {type : ScalarType}
    (typed : type.checkDefault name v = .ok ()) (ordinary : v.IsOrdinary) :
    ∃ code w, type.Rereads v code w := by
  cases absent : v.isNull with
  | true =>
    unfold Value.isNull at absent
    split at absent
    · obtain rfl := ordinary
      exact ⟨_, _, .absent type⟩
    · cases absent
  | false =>
    have admitted := admits_of_checkDefault typed absent
    cases encoded : type.isEncoded with
    | false => exact ⟨v, v, .kept type v absent encoded⟩
    | true =>
      cases v with
      | atom id a =>
        cases type <;> cases a <;>
          simp only [admits, admitsAtom, isEncoded, Bool.false_eq_true] at admitted encoded
        · exact ⟨_, _, .int id _ ordinary⟩
        · exact ⟨_, _, .decimal id _ ordinary⟩
        · exact ⟨_, _, .date id _⟩
        · exact ⟨_, _, .moment id _⟩
        · exact ⟨_, _, .bytes id _ _⟩
        · exact ⟨_, _, .uuid id _⟩
      | _ => cases type <;> simp [admits, isOpaque, isEncoded] at admitted encoded

namespace Rereads

variable {type : ScalarType} {v code w : Value} (h : type.Rereads v code w)

include h

/-- A default is encoded as its code. -/
theorem encode_eq : type.encode v = .ok code := by
  cases h with
  | absent => rfl
  | kept _ _ some plain => cases type <;> simp [encode, some, isEncoded] at plain ⊢
  | date id d => rfl
  | moment id m => rfl
  | bytes id growable content => rfl
  | uuid id u => rfl
  | decimal id d range => rfl
  | int id i short =>
    have display : (Value.atom id (.int i)).display = intText i := rfl
    have shown : intText i = .ok (Decimal.ofInt i).text := by
      rw [intText, short, Decimal.text, Decimal.chars_ofInt]
      rfl
    rw [ScalarType.encode, display, shown]
    rfl

/-- The code of a default is decoded. -/
theorem decode_eq : type.decode code = .ok w := by
  cases h with
  | absent => rfl
  | kept _ _ some plain =>
    unfold decode
    split
    · rw [if_neg (by rintro rfl; cases plain)]
    · cases type <;> simp [decodeText, isEncoded] at plain ⊢
    · rfl
  | date id d =>
    simp [decode, Value.text, decodeText, Date.text, d.length_chars, dateLength, d.date_chars]
  | moment id m =>
    simp [decode, Value.text, decodeText, Moment.text, m.length_chars_ne, dateLength,
      m.moment_chars]
  | bytes id growable content =>
    simp [decode, Value.text, decodeText, Bytes.Base64.encode, Bytes.Base64.decode_encodeChars]
  | uuid id u =>
    simp [decode, Value.text, decodeText, Uuid.read_text]
  | decimal id d range =>
    simp [decode, Value.text, decodeText, Decimal.read_text range]
  | int id i short =>
    simp [decode, Value.text, decodeText, Decimal.read_text (Decimal.isInRange_ofInt short)]

/-- What is read has the type. -/
theorem checkDefault_eq {name : Value} (typed : type.checkDefault name v = .ok ()) :
    type.checkDefault name w = .ok () := by
  cases h with
  | absent => rfl
  | kept => exact typed
  | date id d => rfl
  | moment id m => rfl
  | bytes id growable content => rfl
  | uuid id u => rfl
  | decimal id d range => rfl
  | int id i short => rfl

/-- Only the absent default is encoded as the absent value. -/
theorem code_of_isNull (absent : v.isNull = true) : code = .null := by
  cases h with
  | absent => rfl
  | kept _ _ some => cases absent.symm.trans some
  | _ => cases absent

/-- A default of an opaque type is read as itself. -/
theorem eq_of_isOpaque (hidden : type.isOpaque = true) : w = v := by
  cases h with
  | absent | kept => rfl
  | _ => cases hidden

/-- What is read has the form in a view that the default has, unless a moment loses its offset. -/
theorem viewOf_eq (long : type = .date → v.HasLongOffset) : type.viewOf w = type.viewOf v := by
  cases h with
  | absent => rfl
  | kept => rfl
  | date id d => rfl
  | moment id m =>
    rw [Moment.reread_eq_self (long rfl)]
    rfl
  | bytes id growable content => rfl
  | uuid id u => rfl
  | decimal id d range => rfl
  | int id i short =>
    have code := (Rereads.int id i short).encode_eq
    exact code.symm

/-- What is read is the same as a known default that is not a number that is none, unless a moment
loses its offset. -/
theorem same_iff (known : v.IsKnown) (some : v.isNaN = false) :
    w.same v = true ↔ (type = .date → v.HasLongOffset) := by
  cases h with
  | absent => simp [Value.HasLongOffset, Value.null, Value.same, Atom.equals, Atom.numeral?]
  | kept _ _ _ plain =>
    have other : type ≠ .date := by
      rintro rfl
      cases plain
    simp [Value.same_self known, other]
  | date id d => simp [Value.same, Atom.equals, Atom.numeral?, Value.HasLongOffset]
  | moment id m =>
    have fresh : Identity.fresh.same id = false := by simp [Identity.same]
    simp only [Value.same, fresh, Bool.false_or, Value.HasLongOffset, true_implies]
    exact m.reread_same_iff
  | bytes id growable content => simp [Value.same, Atom.equals, Atom.numeral?]
  | uuid id u => simp [Value.same, Atom.equals, Atom.numeral?]
  | decimal id d range =>
    have number : (Atom.decimal d).isElusive = false := some
    simp [Value.same, Atom.equals_self number]
  | int id i short => simp [Value.same, Atom.equals_ofInt]

/-- Comparing what is read with the default ends. -/
theorem endless_eq_false (known : v.IsKnown) : w.endless v = false := by
  cases h with
  | kept => exact Value.endless_self known
  | _ => simp [Value.endless, Value.null]

private theorem isNaN_eq : w.isNaN = v.isNaN := by
  cases h <;> rfl

private theorem eq_of_isEncoded (plain : type.isEncoded = false) : w = v := by
  cases h with
  | absent | kept => rfl
  | _ => cases plain

private theorem typeName_eq (dated : type = .date) : w.typeName = v.typeName := by
  cases h with
  | absent | kept | date | moment => rfl
  | _ => cases dated

end Rereads

/-! ### Encoding undone -/

/-- What is encoded for a default is decoded. A default of a type without encoded forms comes back
as itself, a day as a day and a moment as a moment, and any default as an equal one, exactly if no
moment loses its offset. -/
theorem exists_decode_encode {name v : Value} {type : ScalarType}
    (typed : type.checkDefault name v = .ok ()) (ordinary : v.IsOrdinary)
    (number : v.isNaN = false) : ∃ code w, type.encode v = .ok code ∧ type.decode code = .ok w ∧
      (type.isEncoded = false → w = v) ∧ (type = .date → w.typeName = v.typeName) ∧
      (v.IsKnown → w.endless v = false ∧
        (w.equals v = true ↔ (type = .date → v.HasLongOffset))) := by
  obtain ⟨code, w, h⟩ := exists_rereads typed ordinary
  refine ⟨code, w, h.encode_eq, h.decode_eq, h.eq_of_isEncoded, h.typeName_eq, fun known ↦ ?_⟩
  have equals : w.equals v = w.same v := by
    rw [Value.equals, h.isNaN_eq, number]
    rfl
  exact ⟨h.endless_eq_false known, equals ▸ h.same_iff known number⟩

/-- Nine o'clock on a day in May comes back as the same moment where it is an hour ahead of
universal time. -/
theorem exists_decode_encode_hour : ∃ m : Moment, m.offset = some 3600000000 ∧
    date.checkDefault .null (.atom .fresh (.moment m)) = .ok () ∧
    ∃ code w, date.encode (.atom .fresh (.moment m)) = .ok code ∧ date.decode code = .ok w ∧
      w.typeName = "datetime" ∧ w.equals (.atom .fresh (.moment m)) = true := by
  let m : Moment :=
    ⟨⟨2024, 5, 1, by decide⟩, 9, 0, 0, 0, some 3600000000, by decide, by decide⟩
  obtain ⟨code, w, hcode, hw, -, dated, same⟩ :=
    @exists_decode_encode .null (.atom .fresh (.moment m)) date rfl trivial rfl
  refine ⟨m, rfl, rfl, code, w, hcode, hw, dated rfl, ?_⟩
  refine (same (by simp [Value.IsKnown, Atom.isElusive, Atom.isNaN])).2.mpr fun _ ↦ ?_
  rintro o ⟨⟩
  decide

/-- It comes back as another moment where it is a microsecond ahead. -/
theorem exists_decode_encode_equals_eq_false : ∃ m : Moment, m.offset = some 1 ∧
    date.checkDefault .null (.atom .fresh (.moment m)) = .ok () ∧
    ∃ code w, date.encode (.atom .fresh (.moment m)) = .ok code ∧ date.decode code = .ok w ∧
      w.equals (.atom .fresh (.moment m)) = false := by
  let m : Moment := ⟨⟨2024, 5, 1, by decide⟩, 9, 0, 0, 0, some 1, by decide, by decide⟩
  have h : Rereads date (.atom .fresh (.moment m)) _ _ := .moment .fresh m
  refine ⟨m, rfl, rfl, _, _, h.encode_eq, h.decode_eq, ?_⟩
  have known : (Value.atom .fresh (.moment m)).IsKnown := by
    simp [Value.IsKnown, Atom.isElusive, Atom.isNaN]
  have same := mt (h.same_iff known rfl).mp fun long ↦ absurd (long rfl 1 rfl) (by decide)
  rw [Value.equals, Bool.not_eq_true _ |>.mp same, Bool.and_false]

end ScalarType

end EntityGraph
