import EntityGraph.Text.Digits

/-!
# Base64

Byte strings as texts of the base64 alphabet. `decode` reads in two modes: a strict one, which
refuses every character outside the alphabet and every misplaced padding, and a lenient one, which
passes over them.
-/

namespace EntityGraph.Bytes.Base64

/-- The character of a number below sixty-four. -/
def symbol (n : Nat) : Char :=
  if n < 26 then Char.ofNat ('A'.toNat + n)
  else if n < 52 then Char.ofNat ('a'.toNat + (n - 26))
  else if n < 62 then Char.ofNat ('0'.toNat + (n - 52))
  else if n = 62 then '+' else '/'

/-- The number that a character of the alphabet stands for. -/
def sextet? (c : Char) : Option Nat :=
  let n := c.toNat
  if 'A'.toNat ≤ n ∧ n ≤ 'Z'.toNat then some (n - 'A'.toNat)
  else if 'a'.toNat ≤ n ∧ n ≤ 'z'.toNat then some (n - 'a'.toNat + 26)
  else if '0'.toNat ≤ n ∧ n ≤ '9'.toNat then some (n - '0'.toNat + 52)
  else if c = '+' then some 62
  else if c = '/' then some 63
  else none

/-- The base64 form of a byte string: four characters for three bytes, padded at the end. -/
def encodeChars : List UInt8 → List Char
  | [] => []
  | [a] =>
    let a := a.toNat
    [symbol (a / 4), symbol (a % 4 * 16), '=', '=']
  | [a, b] =>
    let a := a.toNat
    let b := b.toNat
    [symbol (a / 4), symbol (a % 4 * 16 + b / 16), symbol (b % 16 * 4), '=']
  | a :: b :: c :: rest =>
    let a := a.toNat
    let b := b.toNat
    let c := c.toNat
    symbol (a / 4) :: symbol (a % 4 * 16 + b / 16) :: symbol (b % 16 * 4 + c / 64) ::
      symbol (c % 64) :: encodeChars rest

/-- The base64 text of a byte string. -/
def encode (bytes : List UInt8) : String := String.ofList (encodeChars bytes)

/-- The bytes of one line of a base64 text in lines. -/
def lineBytes : Nat := 57

/-- The lines of a base64 text, each ended by a line break. -/
def encodeLines (fuel : Nat) (bytes : List UInt8) : List Char :=
  match fuel with
  | 0 => []
  | fuel + 1 =>
    if bytes.isEmpty then []
    else encodeChars (bytes.take lineBytes) ++ '\n' :: encodeLines fuel (bytes.drop lineBytes)

/-- The base64 text of a byte string in lines of at most seventy-six characters. -/
def encodeInLines (bytes : List UInt8) : String :=
  String.ofList (encodeLines bytes.length bytes)

/-- Why a text is not base64. -/
inductive Error
  | leadingPadding
  | discontinuousPadding
  | dataAfterPadding
  | foreignCharacter
  | incorrectPadding
  /-- One character is left over after a number of whole groups. -/
  | loneCharacter (dataCharacters : Nat)
  | notAscii
  deriving DecidableEq, Repr

/-- The message of an error. -/
def Error.message : Error → String
  | leadingPadding => "Leading padding not allowed"
  | discontinuousPadding => "Discontinuous padding not allowed"
  | dataAfterPadding => "Excess data after padding"
  | foreignCharacter => "Only base64 data is allowed"
  | incorrectPadding => "Incorrect padding"
  | loneCharacter n =>
    "Invalid base64-encoded string: number of data characters (" ++
      String.ofList (Text.decimal n) ++ ") cannot be 1 more than a multiple of 4"
  | notAscii => "string argument should contain only ASCII characters"

/-- How far reading has come: the data characters so far, the bits not yet written, the padding
characters since the last data character, and whether any padding has been met. -/
structure Progress where
  count : Nat := 0
  bits : Nat := 0
  pads : Nat := 0
  padded : Bool := false

/-- The byte that a data character completes, if any, and the bits it leaves over. -/
def push (position bits value : Nat) : Option UInt8 × Nat :=
  match position with
  | 0 => (none, value)
  | 1 => (some (UInt8.ofNat (bits * 4 + value / 16)), value % 16)
  | 2 => (some (UInt8.ofNat (bits * 16 + value / 4)), value % 4)
  | _ => (some (UInt8.ofNat (bits * 64 + value)), 0)

/-- Reads the rest of a base64 text. -/
def decodeFrom (strict : Bool) : List Char → Progress → Except Error (List UInt8)
  | [], p =>
    match p.count % 4 with
    | 0 => .ok []
    | 1 => .error (.loneCharacter p.count)
    | _ => .error .incorrectPadding
  | c :: cs, p =>
    let position := p.count % 4
    if c = '=' then
      if 2 ≤ position ∧ 4 ≤ position + p.pads + 1 then
        if strict && !cs.isEmpty then .error .dataAfterPadding else .ok []
      else
        decodeFrom strict cs
          { p with pads := if 2 ≤ position then p.pads + 1 else p.pads, padded := true }
    else
      match sextet? c with
      | none => if strict then .error .foreignCharacter else decodeFrom strict cs p
      | some value =>
        if strict && p.padded then .error .discontinuousPadding
        else
          let (byte, bits) := push position p.bits value
          (decodeFrom strict cs { p with count := p.count + 1, bits := bits, pads := 0 }).map
            (byte.toList ++ ·)

/-- The byte string that a text of ASCII characters spells. -/
def decode (strict : Bool) (cs : List Char) : Except Error (List UInt8) :=
  if cs.any (0x80 ≤ ·.toNat) then .error .notAscii
  else if strict && cs.head? = some '=' then .error .leadingPadding
  else decodeFrom strict cs {}

/-- Every symbol reads back as the number it stands for. -/
theorem sextet?_symbol {n : Nat} (h : n < 64) : sextet? (symbol n) = some n := by
  have all : ∀ m : Fin 64, sextet? (symbol m) = some m.val := by decide
  exact all ⟨n, h⟩

end EntityGraph.Bytes.Base64
