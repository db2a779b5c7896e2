/-! The operations that an object may answer for itself, and the names under which
scripts know them. -/

namespace ScriptHost

inductive Metamethod
  | index | newIndex | call | toText | len
  | unm | add | sub | mul | div | idiv | mod | pow | concat
  | band | bor | bxor | bnot | shl | shr
  | eq | lt | le
  /-- The value is finalized. -/
  | gc
  /-- The name under which the value shows itself. -/
  | metatable
deriving DecidableEq

namespace Metamethod

def all : List Metamethod :=
  [index, newIndex, call, toText, len, unm, add, sub, mul, div, idiv, mod, pow, concat,
    band, bor, bxor, bnot, shl, shr, eq, lt, le, gc, metatable]

theorem mem_all (op : Metamethod) : op ∈ all := by cases op <;> decide

/-- The binary operators other than comparisons. -/
def binary : List Metamethod :=
  [add, sub, mul, div, idiv, mod, pow, concat, band, bor, bxor, shl, shr]

def name : Metamethod → String
  | index => "__index" | newIndex => "__newindex" | call => "__call" | toText => "__tostring"
  | len => "__len" | unm => "__unm" | add => "__add" | sub => "__sub" | mul => "__mul"
  | div => "__div" | idiv => "__idiv" | mod => "__mod" | pow => "__pow" | concat => "__concat"
  | band => "__band" | bor => "__bor" | bxor => "__bxor" | bnot => "__bnot" | shl => "__shl"
  | shr => "__shr" | eq => "__eq" | lt => "__lt" | le => "__le" | gc => "__gc"
  | metatable => "__metatable"

/-- The name of the event that the metamethod answers. -/
def eventName (op : Metamethod) : String := String.ofList (op.name.toList.drop 2)

def ofName? (s : String) : Option Metamethod := all.find? fun op => op.name = s

/-- The place among the binary operators. -/
def binaryIndex? (op : Metamethod) : Option Nat := binary.findIdx? (· = op)

/-- What a script is told when a value of type `type` does not answer. -/
def refusal (op : Metamethod) (type : String) : String :=
  match op with
  | add | sub | mul | div | idiv | mod | pow | unm =>
    "attempt to perform arithmetic on a " ++ type ++ " value"
  | band | bor | bxor | bnot | shl | shr =>
    "attempt to perform bitwise operation on a " ++ type ++ " value"
  | concat => "attempt to concatenate a " ++ type ++ " value"
  | lt | le => "attempt to compare two " ++ type ++ " values"
  | len => "attempt to get length of a " ++ type ++ " value"
  | call => "attempt to call a " ++ type ++ " value"
  | index | newIndex => "attempt to index a " ++ type ++ " value"
  | eq | toText | gc | metatable => op.name ++ " is not supported by " ++ type ++ " values"

end ScriptHost.Metamethod
