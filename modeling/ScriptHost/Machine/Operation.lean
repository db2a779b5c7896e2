import ScriptHost.Box.Object
import ScriptHost.Decimal.Significant
import ScriptHost.Text.Quoted

/-! Operations on script values: text, indexing, arithmetic, comparison. Where the basic
types do not settle an operation, the handler of the first operand is asked, or else
that of the second; where there is none, the operation fails. -/

namespace ScriptHost

/-- What the interpreter says of an operation on operands that do not support it. -/
inductive OperandFault
  | arithmetic (type : String)
  | bitwise (type : String)
  | noInteger
  | concatenate (type : String)
  | length (type : String)
  | index (type : String)
  | call (type : String)
  | compare (left right : String)

/-- The words for a fault, in which the operand at fault may be named. -/
def OperandFault.message (fault : OperandFault) (of? : Option Origin) : String :=
  let note := Origin.note of?
  match fault with
  | arithmetic type => "attempt to perform arithmetic on a " ++ type ++ " value" ++ note
  | bitwise type => "attempt to perform bitwise operation on a " ++ type ++ " value" ++ note
  | noInteger => "number" ++ note ++ " has no integer representation"
  | concatenate type => "attempt to concatenate a " ++ type ++ " value" ++ note
  | length type => "attempt to get length of a " ++ type ++ " value" ++ note
  | index type => "attempt to index a " ++ type ++ " value" ++ note
  | call type => "attempt to call a " ++ type ++ " value" ++ note
  | compare left right =>
    if left = right then "attempt to compare two " ++ left ++ " values"
    else "attempt to compare " ++ left ++ " with " ++ right

namespace Value

/-- The text of a number, or the bytes of a string. -/
def textual? : Value → Option ByteArray
  | string bytes => some bytes
  | int n => some (toString n.toInt).toUTF8
  | float x => some (Decimal.significant x).toUTF8
  | _ => none

/-- An integer for a bitwise operation. -/
def integer? : Value → Option Int64
  | int n => some n
  | float x => Number.integral? x
  | _ => none

/-- Bytes in lexicographic order. -/
def lessBytes (a b : ByteArray) : Bool := a.toList < b.toList

end Value

namespace Metamethod

open Decimal (Numeral)

/-- Floor division of integers. -/
def floorDiv (m n : Int64) : Except Number.Fault Numeral :=
  if n = 0 then .error .divisionByZero else .ok (.int (Int64.ofInt (Int.fdiv m.toInt n.toInt)))

def floorMod (m n : Int64) : Except Number.Fault Numeral :=
  if n = 0 then .error .remainderByZero else .ok (.int (Int64.ofInt (Int.fmod m.toInt n.toInt)))

/-- Arithmetic on two numbers: on integers where both are and the operation allows it,
else on floats. -/
def arithmetic (op : Metamethod) (a b : Numeral) : Except Number.Fault Numeral :=
  let x := Number.toFloat a
  let y := Number.toFloat b
  match op, a, b with
  | add, .int m, .int n => .ok (.int (m + n))
  | sub, .int m, .int n => .ok (.int (m - n))
  | mul, .int m, .int n => .ok (.int (m * n))
  | idiv, .int m, .int n => floorDiv m n
  | mod, .int m, .int n => floorMod m n
  | unm, .int m, _ => .ok (.int (-m))
  | add, _, _ => .ok (.float (x + y))
  | sub, _, _ => .ok (.float (x - y))
  | mul, _, _ => .ok (.float (x * y))
  | div, _, _ => .ok (.float (x / y))
  | idiv, _, _ => .ok (.float (x / y).floor)
  | mod, _, _ => .ok (.float (Number.modulo x y))
  | pow, _, _ => .ok (.float (Number.power x y))
  | _, _, _ => .ok (.float (-x))

/-- Bitwise operations on two integers. -/
def bitwise (op : Metamethod) (m n : Int64) : Int64 :=
  match op with
  | band => m &&& n
  | bor => m ||| n
  | bxor => m ^^^ n
  | shl => (Number.shiftLeft m.toUInt64 n.toInt).toInt64
  | shr => (Number.shiftLeft m.toUInt64 (-n.toInt)).toInt64
  | _ => ~~~m

end Metamethod

namespace Reentry

variable (r : Reentry)

/-! ### Handlers -/

/-- What a box answers. A call of a callable is not settled here. -/
def handleBox (op : Metamethod) (v : Variant) (args : List Value) : Act Value := do
  match v, op, args with
  | .object o, .index, [.box id, key] => Box.readObject r id o key
  | .object o, .newIndex, [_, key, value] => do Box.writeObject r o key value; return .nil
  | .object o, .call, _ :: args =>
    Box.answerOrDecline r .call o [.array (← Act.decodeAll args)]
  | .object o, .toText, _ => return .ofString (← Box.textOfObject r o)
  | .object _, .eq, [a, b] => Box.equalObjects r a b
  | .object o, .unm, _ | .object o, .bnot, _ | .object o, .len, _ => Box.answerOrDecline r op o []
  | .object _, op, [a, b] => Box.binaryObject r op a b
  | v, .index, [.box id, key] => Box.readTyped id v key
  | _, .newIndex, [.box id, key, value] => do Box.writeTyped id key value; return .nil
  | v, .toText, _ => return .ofString ((← Act.host).text v)
  | v, op, [a, b] => Box.binaryTyped op v.boxName a b
  | v, op, _ => Box.decline op v.boxName

/-- The text of a caught host error. -/
def faultText (e : ScriptError) : String := e.text ++ "\n" ++ e.traceback.getD Act.traceback

def handle (op : Metamethod) (h : Handler) (args : List Value) : Act Value :=
  match h with
  | .value f => r.call f args
  | .box v => r.outside fun r => r.handleBox op v args
  | .faultText e => r.outside fun _ => return .ofString (faultText e)
  | .streamField => return .nil
  | .emptied => r.outside fun _ => Act.throw InterpreterError.destructed.normalize

/-- The handler of the first operand, or else that of the second. -/
def handlerOf (op : Metamethod) (a b : Value) : Act (Option Handler) := do
  let heap ← Act.heap
  return heap.handler? op a <|> heap.handler? op b

def failOperand {α : Type} (fault : OperandFault) (of? : Option Origin) : Act α :=
  r.fail (fault.message of?)

/-! ### Text -/

/-- What a value without a text of its own shows. -/
def defaultText (h : Heap) (v : Value) : ByteArray :=
  let place (n : Nat) : ByteArray := (h.typeName v ++ ": 0x" ++ Text.hex n).toUTF8
  match v with
  | .nil => "nil".toUTF8
  | .bool b => (if b then "true" else "false").toUTF8
  | .table n | .function ⟨_, n⟩ | .box n | .thread n | .stream n | .fault n _ => place n
  | v => (v.textual?).getD ByteArray.empty

/-- The text of any value. A text of its own has to be a string or a number. -/
def text (v : Value) : Act ByteArray := do
  match (← Act.heap).handler? .toText v with
  | none => return defaultText (← Act.heap) v
  | some h =>
    match (← r.handle .toText h [v]).textual? with
    | some bytes => return bytes
    | none => r.failAtCall "'__tostring' must return a string"

/-! ### Indexing -/

/-- How long a chain of values standing in for one another may be. -/
def chainLimit : Nat := 2000

/-- What a table holds itself. -/
def held (h : Heap) (v key : Value) : Value :=
  match v with
  | .table id => (h.table id).getValue key
  | _ => .nil

/-- What stands in for a value that does not hold `key` answers for it. -/
def indexFrom (key : Value) : Nat → Value → Option Origin → Act Value
  | 0, _, _ => r.fail "'__index' chain too long; possible loop"
  | fuel + 1, v, of? => do
    let heap ← Act.heap
    match heap.handler? .index v, v with
    | none, .table _ => return .nil
    | none, v => r.failOperand (.index (heap.typeName v)) of?
    | some (.value (.function f)), v => r.call (.function f) [v, key]
    | some (.value next), _ =>
      let own := held heap next key
      if own.isNil then indexFrom key fuel next none else return own
    | some h, v => r.handle .index h [v, key]

def index (v key : Value) (of? : Option Origin) : Act Value := do
  let own := held (← Act.heap) v key
  if own.isNil then r.indexFrom key chainLimit v of? else return own

/-- Writes a table without metamethods. -/
def rawSet (id : Nat) (key value : Value) : Act Unit :=
  match Key.ofValue key with
  | .ok k => Act.modifyHeap (·.set id k value)
  | .error fault => r.fail fault.message

/-- What stands in for a value that does not hold `key` takes the new value. -/
def setIndexFrom (key value : Value) : Nat → Value → Option Origin → Act Unit
  | 0, _, _ => r.fail "'__newindex' chain too long; possible loop"
  | fuel + 1, v, of? => do
    let heap ← Act.heap
    match heap.handler? .newIndex v, v with
    | none, .table id => r.rawSet id key value
    | none, v => r.failOperand (.index (heap.typeName v)) of?
    | some (.value (.function f)), v => let _ ← r.call (.function f) [v, key, value]
    | some (.value next), _ =>
      match next, (held heap next key).isNil with
      | .table id, false => r.rawSet id key value
      | next, _ => setIndexFrom key value fuel next none
    | some h, v => let _ ← r.handle .newIndex h [v, key, value]

def setIndex (v key value : Value) (of? : Option Origin) : Act Unit := do
  match v, (held (← Act.heap) v key).isNil with
  | .table id, false => r.rawSet id key value
  | v, _ => r.setIndexFrom key value chainLimit v of?

/-- A global name. -/
def global (name : String) : Act Value := r.index (.table Heap.globals) (.ofString name) none

def setGlobal (name : String) (value : Value) : Act Unit :=
  r.setIndex (.table Heap.globals) (.ofString name) value none

/-! ### Operators -/

/-- The operand that is at fault, and where it comes from: the first, unless it is a
number. -/
def culprit (a b : Value) (left? right? : Option Origin) : Value × Option Origin :=
  if a.numeral?.isSome then (b, right?) else (a, left?)

def arithmetic (op : Metamethod) (a b : Value) (left? right? : Option Origin) : Act Value := do
  match a.numeral?, b.numeral? with
  | some m, some n =>
    match op.arithmetic m n with
    | .ok x => return .ofNumeral x
    | .error fault => r.fail fault.message
  | _, _ =>
    match ← handlerOf op a b with
    | some h => r.handle op h [a, b]
    | none =>
      let (v, of?) := culprit a b left? right?
      r.failOperand (.arithmetic ((← Act.heap).typeName v)) of?

def bitwise (op : Metamethod) (a b : Value) (left? right? : Option Origin) : Act Value := do
  match a.numeral?, b.numeral? with
  | some _, some _ =>
    match a.integer?, b.integer? with
    | some m, some n => return .int (op.bitwise m n)
    | some _, none => r.failOperand .noInteger right?
    | none, _ => r.failOperand .noInteger left?
  | _, _ =>
    match ← handlerOf op a b with
    | some h => r.handle op h [a, b]
    | none =>
      let (v, of?) := culprit a b left? right?
      r.failOperand (.bitwise ((← Act.heap).typeName v)) of?

def concat (a b : Value) (left? right? : Option Origin) : Act Value := do
  match a.textual?, b.textual? with
  | some x, some y => return .string (x ++ y)
  | x, _ =>
    match ← handlerOf .concat a b with
    | some h => r.handle .concat h [a, b]
    | none =>
      let (v, of?) := if x.isSome then (b, right?) else (a, left?)
      r.failOperand (.concatenate ((← Act.heap).typeName v)) of?

/-- One of the two orders by handlers. Where none gives `≤`, it is the converse of a
swapped `<`. -/
def compareByHandler (op : Metamethod) (a b : Value) : Act Bool := do
  match ← handlerOf op a b with
  | some h => return (← r.handle op h [a, b]).truth
  | none =>
    match ← if op = .le then handlerOf .lt b a else pure none with
    | some h => return !(← r.handle .lt h [b, a]).truth
    | none =>
      let heap ← Act.heap
      r.failOperand (.compare (heap.typeName a) (heap.typeName b)) none

/-- One of the two orders, numbers by value and strings by bytes. -/
def compare (op : Metamethod) (a b : Value) : Act Bool := do
  match a, b with
  | .string x, .string y =>
    return if op = .lt then Value.lessBytes x y else !Value.lessBytes y x
  | _, _ =>
    match a.numeral?, b.numeral? with
    | some m, some n => return if op = .lt then Number.less m n else Number.lessOrEqual m n
    | _, _ => r.compareByHandler op a b

/-- Only two tables, or two boxes, may be equal without being the same. -/
def equal (a b : Value) : Act Bool := do
  if a.same b then return true
  else if a.basicType = b.basicType ∧ (a.basicType = "table" ∨ a.basicType = "userdata") then
    match ← handlerOf .eq a b with
    | some h => return (← r.handle .eq h [a, b]).truth
    | none => return false
  else return false

def length (v : Value) (of? : Option Origin) : Act Value := do
  match v with
  | .string bytes => return .int (Int64.ofNat bytes.size)
  | v =>
    let heap ← Act.heap
    match heap.handler? .len v, v with
    | some h, v => r.handle .len h [v, v]
    | none, .table id => return .int (Int64.ofNat (heap.table id).border)
    | none, v => r.failOperand (.length (heap.typeName v)) of?

def binary (op : BinaryOperator) (a b : Value) (left? right? : Option Origin) : Act Value :=
  match op with
  | .add | .sub | .mul | .div | .idiv | .mod | .pow => r.arithmetic op.metamethod a b left? right?
  | .concat => r.concat a b left? right?
  | .band | .bor | .bxor | .shl | .shr => r.bitwise op.metamethod a b left? right?
  | .eq => return .bool (← r.equal a b)
  | .ne => return .bool (!(← r.equal a b))
  | .lt => return .bool (← r.compare .lt a b)
  | .le => return .bool (← r.compare .le a b)
  | .gt => return .bool (← r.compare .lt b a)
  | .ge => return .bool (← r.compare .le b a)

def unary (op : UnaryOperator) (a : Value) (of? : Option Origin) : Act Value :=
  match op with
  | .minus => r.arithmetic .unm a a of? of?
  | .complement => r.bitwise .bnot a a of? of?
  | .length => r.length a of?
  | .not => return .bool (!a.truth)

end Reentry

end ScriptHost
