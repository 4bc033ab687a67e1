/-!
# Digits

The digit alphabets used by every number format of the library, over lists of characters: decimal
digits of naturals, hexadecimal digits of fixed width, and reading a run of digits in a base.
-/

namespace EntityGraph.Text

/-- Whether a character is one of the ten ASCII decimal digits. -/
def isDigit (c : Char) : Bool :=
  '0'.toNat ≤ c.toNat && c.toNat ≤ '9'.toNat

/-- The value of an ASCII decimal digit. -/
def digit? (c : Char) : Option Nat :=
  if isDigit c then some (c.toNat - '0'.toNat) else none

/-- The value of a letter counted from ten, for the bases above ten. -/
def letter? (c : Char) : Option Nat :=
  if 'a'.toNat ≤ c.toNat && c.toNat ≤ 'z'.toNat then some (c.toNat - 'a'.toNat + 10)
  else if 'A'.toNat ≤ c.toNat && c.toNat ≤ 'Z'.toNat then some (c.toNat - 'A'.toNat + 10)
  else none

/-- The value of a digit in a base of at most thirty-six. -/
def digitIn? (base : Nat) (c : Char) : Option Nat :=
  match (digit? c).or (letter? c) with
  | some d => if d < base then some d else none
  | none => none

/-- Whether a character is a hexadecimal digit of either case. -/
def isHexDigit (c : Char) : Bool :=
  (digitIn? 16 c).isSome

/-- The natural number a run of digits denotes, most significant digit first. -/
def ofDigits (base : Nat) (digits : List Nat) : Nat :=
  digits.foldl (fun n d ↦ n * base + d) 0

/-- The number written by a run of digits of a base; nothing if the run is empty or holds
another character. -/
def natIn? (base : Nat) (cs : List Char) : Option Nat :=
  if cs.isEmpty then none else (cs.mapM (digitIn? base)).map (ofDigits base)

/-- The number written by a run of decimal digits. -/
def nat? (cs : List Char) : Option Nat := natIn? 10 cs

/-- The decimal digits of a natural number, without leading zeros. -/
def decimal (n : Nat) : List Char := Nat.toDigits 10 n

/-- The decimal digits of an integer, with a sign when it is negative. -/
def decimalInt (i : Int) : List Char :=
  match i with
  | .ofNat n => decimal n
  | .negSucc n => '-' :: decimal (n + 1)

/-- Characters filled up on the left to a least width. -/
def padLeft (width : Nat) (fill : Char) (cs : List Char) : List Char :=
  List.replicate (width - cs.length) fill ++ cs

/-- Decimal digits filled up with zeros to a least width. -/
def padded (width n : Nat) : List Char := padLeft width '0' (decimal n)

/-- Lower-case hexadecimal digits filled up with zeros to a least width. -/
def hex (width n : Nat) : List Char := padLeft width '0' (Nat.toDigits 16 n)

/-- An ASCII letter in its upper case; any other character unchanged. -/
def upperAscii (c : Char) : Char :=
  if 'a'.toNat ≤ c.toNat && c.toNat ≤ 'z'.toNat then Char.ofNat (c.toNat - 32) else c

/-- An ASCII letter in its lower case; any other character unchanged. -/
def lowerAscii (c : Char) : Char :=
  if 'A'.toNat ≤ c.toNat && c.toNat ≤ 'Z'.toNat then Char.ofNat (c.toNat + 32) else c

/-- Upper-case hexadecimal digits filled up with zeros to a least width. -/
def hexUpper (width n : Nat) : List Char := (hex width n).map upperAscii

/-- A padded text is at least as long as its width. -/
theorem le_length_padLeft (width : Nat) (fill : Char) (cs : List Char) :
    width ≤ (padLeft width fill cs).length := by
  simp only [padLeft, List.length_append, List.length_replicate]
  omega

end EntityGraph.Text
