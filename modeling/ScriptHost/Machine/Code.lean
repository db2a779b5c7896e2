import ScriptHost.Machine.Value
import ScriptHost.Metamethod
import ScriptHost.Script.Origin
import ScriptHost.Script.Tree

/-! Scripts as code for a machine with a stack. Each instruction knows its line, and
what it needs to name its operands in messages. Jumps are relative. -/

namespace ScriptHost

/-- Where the value of a local variable is found. -/
inductive Slot
  /-- Counted from the innermost. -/
  | local (i : Nat)
  /-- Among the values that the function took from around it. -/
  | captured (i : Nat)
deriving DecidableEq

/-- A value that stands in the text of a script. -/
inductive Literal
  | nil
  | bool (b : Bool)
  | int (n : Int64)
  | float (x : Float)
  | string (bytes : ByteArray)

def Literal.value : Literal → Value
  | nil => .nil
  | bool b => .bool b
  | int n => .int n
  | float x => .float x
  | string bytes => .string bytes

mutual

inductive Op where
  | constant (v : Literal)
  | variable (slot : Slot)
  | global (name : String)
  | setGlobal (name : String)
  /-- The top of the stack becomes the innermost local variable. -/
  | bind
  /-- Forgets the `n` innermost local variables. -/
  | unbind (n : Nat)
  | drop
  /-- Exchanges the two values on top. -/
  | swap
  | index (of? : Option Origin)
  | setIndex (of? : Option Origin)
  /-- Puts a method under the object on top of the stack. -/
  | method (name : String) (of? : Option Origin)
  | call (args results : Nat) (callee? : Option Origin)
  | binary (op : BinaryOperator) (left? right? : Option Origin)
  | unary (op : UnaryOperator) (of? : Option Origin)
  | newTable
  /-- Moves `n` items from the stack into the table below them, counted from `first`. -/
  | items (first n : Nat)
  /-- Writes an entry of the table below it and `pending` items. -/
  | entry (pending : Nat)
  /-- A table of the arguments behind the named ones. -/
  | rest
  | closure (p : Prototype)
  /-- Runs a function without arguments, and tells in a table how it ended. -/
  | attempt (p : Prototype)
  /-- Ends the function with `n` results. -/
  | give (n : Nat)
  | skip (n : Nat)
  | skipUnless (n : Nat)
  | back (n : Nat)
  /-- Begins to count between two bounds, or skips `n`. -/
  | count (n : Nat)
  /-- Goes back `n` with the next number, if there is one. -/
  | recount (n : Nat)

structure Instr where
  /-- None for what is done on the way to the next step. -/
  line? : Option Nat
  op : Op

/-- A function without the values that it takes from around it. -/
structure Prototype where
  params : Nat
  variadic : Bool
  captures : List Slot
  /-- The line of its head. -/
  line : Nat
  code : Array Instr

end

namespace BinaryOperator

/-- The metamethod that answers for an operator. -/
def metamethod : BinaryOperator → Metamethod
  | add => .add | sub => .sub | mul => .mul | div => .div | idiv => .idiv | mod => .mod
  | pow => .pow | concat => .concat | band => .band | bor => .bor | bxor => .bxor
  | shl => .shl | shr => .shr | eq | ne => .eq | lt | gt => .lt | le | ge => .le

end BinaryOperator

/-- The metamethod that answers for an operator. -/
def UnaryOperator.metamethod? : UnaryOperator → Option Metamethod
  | minus => some .unm
  | complement => some .bnot
  | length => some .len
  | not => none

namespace Op

/-- What an instruction calls, if it calls anything. -/
def callee? : Op → Option Origin
  | call _ _ callee => callee
  | index _ | method _ _ | global _ => some (.metamethod Metamethod.index.eventName)
  | setIndex _ | setGlobal _ | entry _ => some (.metamethod Metamethod.newIndex.eventName)
  | binary op _ _ => some (.metamethod op.metamethod.eventName)
  | unary op _ => op.metamethod?.map fun m => .metamethod m.eventName
  | _ => none

end Op

/-- The line on which the function begins: to gather further arguments is done at the
head, all else in the body. -/
def Prototype.firstLine (p : Prototype) : Nat :=
  if p.variadic then p.line else (p.code.findSome? Instr.line?).getD p.line

end ScriptHost
