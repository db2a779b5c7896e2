import ScriptHost.Fault.Interpreter
import ScriptHost.Machine.Reentry
import ScriptHost.Variant.Operator

/-! Boxes of structured values and signals. Reading gives a function for a method and
a value for a property; writing changes the value in the box, and a write that the
value refuses is ignored. -/

namespace ScriptHost.Box

/-- Raises what the operation says of a type that does not answer it. -/
def decline {α : Type} (op : Metamethod) (type : String) : Act α :=
  Act.throw (.ofText .runtime (op.refusal type))

/-- What `key` reaches in the box `id` that holds `v`. -/
def readTyped (id : Nat) (v : Variant) (key : Value) : Act Value := do
  let key ← Act.decode key
  let host ← Act.host
  match key with
  | .string name =>
    if host.valueHasMethod v name then Act.newFunction (.method id name)
    else Act.push (host.get v key)
  | key => Act.push (host.get v key)

def writeTyped (id : Nat) (key value : Value) : Act Unit := do
  let key ← Act.decode key
  let value ← Act.decode value
  Act.modifyHeap (·.writeBox id key value)

/-- An operator between two values, on behalf of a box of type `type`. -/
def binaryTyped (op : Metamethod) (type : String) (a b : Value) : Act Value := do
  let x ← Act.decode a
  let y ← Act.decode b
  if op = .eq then return .bool (x.same y)
  else match Variant.evaluate? op x y with
    | some v => Act.push v
    | none => decline op type

end ScriptHost.Box
