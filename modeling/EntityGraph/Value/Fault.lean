import EntityGraph.Bytes.Utf8
import EntityGraph.Number.Integer

/-!
# Faults of values

What can go wrong when a value of unknown kind is used: hashed, iterated, ordered, shown, copied or
written. Each fault belongs to a kind, which decides whether a caller may answer for it.
-/

namespace EntityGraph

open EntityGraph.Number

/-- The kinds of faults. -/
inductive FaultKind
  /-- A value of the wrong type. -/
  | type
  /-- A value of the right type that cannot be used. -/
  | value
  /-- A key that is not there. -/
  | key
  /-- A place that is not there. -/
  | index
  /-- A member that an object does not have. -/
  | member
  /-- An operation without a numeric result. -/
  | arithmetic
  /-- A number outside the range of a machine word. -/
  | overflow
  /-- An object that refuses to be copied. -/
  | copying
  /-- More memory than there is. -/
  | memory
  /-- A value that contains itself. -/
  | depth
  /-- A fault of a class of its own. -/
  | other (className : String)
  deriving DecidableEq, Repr

/-- A fault that the code of a class outside of the library ends in. -/
structure Mishap where
  kind : FaultKind
  message : String
  deriving DecidableEq, Repr

/-- Why a value cannot be used as it should be. -/
inductive Fault
  | unhashable (type : String)
  | signalingHash
  | notIterable (type : String)
  /-- Two types that an ordering does not compare. -/
  | unordered (operator left right : String)
  | unorderedNumber
  /-- A foreign object failed when its text was asked for. -/
  | noText (m : Mishap)
  /-- A foreign object refused to be copied. -/
  | uncopyable (m : Mishap)
  /-- A value was taken for a byte string. -/
  | notBytes (type : String)
  /-- A text was taken for a byte string. -/
  | noEncoding
  /-- A member was taken for a byte that is no integer. -/
  | notInteger (type : String)
  /-- An integer was taken for a byte that is none. -/
  | notByte
  | negativeSize
  /-- An integer was taken for a size that no machine word holds. -/
  | hugeSize
  /-- A size of a byte string that no object can have. -/
  | tooManyBytes
  /-- A byte string for which there is no memory. -/
  | noMemory
  | notWritable (type : String)
  | badKey (type : String)
  /-- A value that contains itself was written. -/
  | circular
  /-- A value that contains itself was taken apart. Its message is the start of the words for it,
  which go on in different ways. -/
  | endless
  | tooLong
  | noMember (type name : String)
  /-- A class was asked for a member. -/
  | noClassMember (className name : String)
  | missing (key : String)
  deriving DecidableEq, Repr

namespace Fault

/-- The kind of a fault. -/
def kind : Fault → FaultKind
  | unhashable _ | signalingHash | notIterable _ | unordered .. | notBytes _ | noEncoding
  | notInteger _ | notWritable _ | badKey _ => .type
  | unorderedNumber => .arithmetic
  | noText m | uncopyable m => m.kind
  | circular | tooLong | notByte | negativeSize => .value
  | hugeSize | tooManyBytes => .overflow
  | noMemory => .memory
  | endless => .depth
  | noMember .. | noClassMember .. => .member
  | missing _ => .key

/-- The message of a fault. -/
def message : Fault → String
  | unhashable type => "unhashable type: '" ++ type ++ "'"
  | signalingHash => "Cannot hash a signaling NaN value"
  | notIterable type => "'" ++ type ++ "' object is not iterable"
  | unordered operator left right =>
    "'" ++ operator ++ "' not supported between instances of '" ++ left ++ "' and '" ++ right ++ "'"
  | unorderedNumber => "[<class 'decimal.InvalidOperation'>]"
  | noText m | uncopyable m => m.message
  | notBytes type => "cannot convert '" ++ type ++ "' object to bytes"
  | noEncoding => "string argument without an encoding"
  | notInteger type => "'" ++ type ++ "' object cannot be interpreted as an integer"
  | notByte => "bytes must be in range(0, 256)"
  | negativeSize => "negative count"
  | hugeSize => "cannot fit 'int' into an index-sized integer"
  | tooManyBytes => "byte string is too large"
  | noMemory => ""
  | notWritable type => "Object of type " ++ type ++ " is not JSON serializable"
  | badKey type => "keys must be str, int, float, bool or None, not " ++ type
  | circular => "Circular reference detected"
  | endless => "maximum recursion depth exceeded"
  | tooLong => Integer.tooLongMessage
  | noMember type name => "'" ++ type ++ "' object has no attribute '" ++ name ++ "'"
  | noClassMember className name =>
    "type object '" ++ String.ofList (Bytes.Utf8.clip 50 className.toList) ++
      "' has no attribute '" ++ name ++ "'"
  | missing key => key

end Fault

end EntityGraph
