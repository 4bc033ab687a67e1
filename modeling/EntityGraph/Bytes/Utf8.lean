import EntityGraph.Text.Digits

/-!
# UTF-8

Byte strings as texts. `decode` reads a whole byte string and reports the first fault by its place
and its kind; `encode` writes a text.
-/

namespace EntityGraph.Bytes.Utf8

open EntityGraph.Text

/-- The kinds of faults in a byte string. -/
inductive Fault
  | invalidStart
  | invalidContinuation
  | unexpectedEnd
  deriving DecidableEq, Repr

/-- The first fault of a byte string: its kind, its place, the number of bytes it covers and the
first of them. -/
structure Error where
  fault : Fault
  position : Nat
  length : Nat
  first : UInt8
  deriving DecidableEq, Repr

/-- The reason that a fault gives. -/
def Fault.reason : Fault → String
  | invalidStart => "invalid start byte"
  | invalidContinuation => "invalid continuation byte"
  | unexpectedEnd => "unexpected end of data"

/-- The message of an error; a single byte is named, several by their places. -/
def Error.message (e : Error) : String :=
  let place := String.ofList <|
    if e.length = 1 then
      "byte 0x".toList ++ hex 2 e.first.toNat ++ " in position ".toList ++ decimal e.position
    else
      "bytes in position ".toList ++ decimal e.position ++
        '-' :: decimal (e.position + e.length - 1)
  "'utf-8' codec can't decode " ++ place ++ ": " ++ e.fault.reason

/-- What the first byte of a character settles: the bits it contributes, the number of bytes that
follow it and the bounds of the next one. -/
structure Lead where
  bits : Nat
  follow : Nat
  low : Nat
  high : Nat

/-- The reading of a byte as the first of a character. -/
def lead? (b : UInt8) : Option Lead :=
  let n := b.toNat
  if n < 0x80 then some ⟨n, 0, 0x80, 0xBF⟩
  else if n < 0xC2 then none
  else if n < 0xE0 then some ⟨n - 0xC0, 1, 0x80, 0xBF⟩
  else if n < 0xF0 then
    some ⟨n - 0xE0, 2, if n = 0xE0 then 0xA0 else 0x80, if n = 0xED then 0x9F else 0xBF⟩
  else if n < 0xF5 then
    some ⟨n - 0xF0, 3, if n = 0xF0 then 0x90 else 0x80, if n = 0xF4 then 0x8F else 0xBF⟩
  else none

/-- The rest of a character: its code point, or the fault and the number of bytes it covers. -/
def continuation : (follow low high bits taken : Nat) → List UInt8 → Except (Fault × Nat) Nat
  | 0, _, _, bits, _, _ => .ok bits
  | _ + 1, _, _, _, taken, [] => .error (.unexpectedEnd, taken)
  | follow + 1, low, high, bits, taken, b :: bs =>
    if low ≤ b.toNat ∧ b.toNat ≤ high then
      continuation follow 0x80 0xBF (bits * 64 + (b.toNat - 0x80)) (taken + 1) bs
    else .error (.invalidContinuation, taken)

/-- Reads the characters of a byte string from a position on. -/
def decodeFrom (fuel position : Nat) (bytes : List UInt8) : Except Error (List Char) :=
  match fuel, bytes with
  | 0, _ => .ok []
  | _, [] => .ok []
  | fuel + 1, b :: bs =>
    match lead? b with
    | none => .error ⟨.invalidStart, position, 1, b⟩
    | some l =>
      match continuation l.follow l.low l.high l.bits 1 bs with
      | .error (fault, length) => .error ⟨fault, position, length, b⟩
      | .ok code =>
        (decodeFrom fuel (position + l.follow + 1) (bs.drop l.follow)).map (Char.ofNat code :: ·)

/-- The characters that a byte string spells. -/
def decode (bytes : List UInt8) : Except Error (List Char) :=
  decodeFrom bytes.length 0 bytes

/-- The bytes of one character. -/
def encodeChar (c : Char) : List UInt8 :=
  let n := c.toNat
  let tail (k : Nat) : UInt8 := UInt8.ofNat (0x80 + n / Nat.pow 64 k % 64)
  if n < 0x80 then [UInt8.ofNat n]
  else if n < 0x800 then [UInt8.ofNat (0xC0 + n / 64), tail 0]
  else if n < 0x10000 then [UInt8.ofNat (0xE0 + n / 4096), tail 1, tail 0]
  else [UInt8.ofNat (0xF0 + n / 262144), tail 2, tail 1, tail 0]

/-- The bytes of a text. -/
def encode (cs : List Char) : List UInt8 := cs.flatMap encodeChar

/-- The characters that fit into a number of bytes, and a replacement for one that fits in part. -/
def clip (limit : Nat) : List Char → List Char
  | [] => []
  | c :: cs =>
    let size := (encodeChar c).length
    if size ≤ limit then c :: clip (limit - size) cs
    else if limit = 0 then []
    else ['\ufffd']

example : clip 3 "aé€".toList = "aé".toList ∧ clip 4 "aé€".toList = "aé\ufffd".toList := by
  decide +kernel

example : (decode (encode "aé€😀".toList)).toOption = some "aé€😀".toList := by decide +kernel

end EntityGraph.Bytes.Utf8
