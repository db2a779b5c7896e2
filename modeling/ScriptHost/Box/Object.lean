import ScriptHost.Box.Typed

/-! Boxes of host objects. The object is asked first, and what it declares is taken as
it is. Else fields are read and written as the access mode allows, objects are equal
to themselves, and no other operation is answered. -/

namespace ScriptHost.Box

variable (r : Reentry)

/-- The result of an override, for the script. -/
def answer (op : Metamethod) (result : Except CallError Variant) : Act Value := do
  Act.push (← Act.orThrow (result.mapError (·.toScript op.name)))

/-- The object's answer; without one the operation is declined. -/
def answerOrDecline (op : Metamethod) (o : ObjectId) (args : List Variant) : Act Value := do
  match ← r.override? .attached o op args with
  | some result => answer op result
  | none => decline op ((← Act.host).classOf o)

/-- What a script sees of a field that the object does not override: nothing if it may
not, a function for a method, else the property. -/
def readField (id : Nat) (o : ObjectId) (key : Variant) : Act Value := do
  match key with
  | .string name =>
    let host ← Act.host
    let mode := (← Act.bridge).mode
    if !mode.allows (host.definition o).fields name then return .nil
    else if host.hasMethod o name then Act.newFunction (.method id name)
    else Act.push (Variant.ofOption (host.property? o name))
  | _ => return .nil

def readObject (id : Nat) (o : ObjectId) (key : Value) : Act Value := do
  let key ← Act.decode key
  match ← r.override? .attached o .index [key] with
  | some result => answer .index result
  | none => readField id o key

/-- A write that is not allowed, or that the object refuses, is dropped. -/
def writeField (o : ObjectId) (key value : Variant) : Act Unit := do
  match key with
  | .string name =>
    let mode := (← Act.bridge).mode
    if mode.allows ((← Act.host).definition o).fields name then
      let _ ← Act.onHost (·.write o name value)
  | _ => pure ()

def writeObject (o : ObjectId) (key value : Value) : Act Unit := do
  let key ← Act.decode key
  let value ← Act.decode value
  match ← r.override? .attached o .newIndex [key, value] with
  | some result => let _ ← Act.orThrow (result.mapError (·.toScript Metamethod.newIndex.name))
  | none => writeField o key value

/-- The name that the object gives itself, or that of its class. -/
def shownName (o : ObjectId) : Act String := do
  match ← r.override? .attached o .metatable [] with
  | some (.ok (.string name)) => return name
  | _ => return (← Act.host).classOf o

def textOfObject (o : ObjectId) : Act String := do
  match ← r.override? .attached o .toText [] with
  | some result =>
    let v ← Act.orThrow (result.mapError (·.toScript Metamethod.toText.name))
    return (← Act.host).text v
  | none => return (← shownName r o) ++ ": 0x@" ++ o.label

/-- Equality with an object on one side at least: the first object is asked about the
other value. -/
def equalObjects (a b : Value) : Act Value := do
  let x ← Act.decode a
  let y ← Act.decode b
  let ask (o : ObjectId) (other : Variant) : Act Value := do
    match ← r.override? .attached o .eq [other] with
    | some result => answer .eq result
    | none => return .bool (other.object? == some o)
  match x, y with
  | .object o, other => ask o other
  | other, .object o => ask o other
  | _, _ => return .bool false

/-- The name of a value's type for a refusal: the class of an object, the kind of any
other host value. -/
def describe (v : Value) : Act String := do
  match v with
  | .box id =>
    match (← Act.heap).boxed? id with
    | some (.object o) => return (← Act.host).classOf o
    | some x => return x.kind.name
    | none => return v.hostType
  | v => return v.hostType

/-- Only an object on the left is asked. -/
def binaryObject (op : Metamethod) (a b : Value) : Act Value := do
  let left ← match a with
    | .box id => pure (((← Act.heap).boxed? id).bind Variant.object?)
    | _ => pure none
  match left with
  | none => decline op (← describe b)
  | some o =>
    let other ← Act.decode b
    answerOrDecline r op o [other]

end ScriptHost.Box
