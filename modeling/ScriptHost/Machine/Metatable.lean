import ScriptHost.Machine.World
import ScriptHost.Script.Origin

/-! Which values answer which operations. Tables and strings answer what their
metatable holds; a box answers by the kind of the host value in it. -/

namespace ScriptHost

namespace Variant

/-- The type name of a box. -/
def boxName : Variant → String
  | callable (.bound ..) => "CallableExtra"
  | v => v.kind.name

/-- The operations that a box with this value answers. -/
def answers (v : Variant) (op : Metamethod) : Bool :=
  match v with
  | vector2 _ | color _ =>
    [.index, .newIndex, .toText, .add, .sub, .mul, .div, .eq, .lt, .le].contains op
  | vector3 _ => [.index, .newIndex, .toText, .add, .sub, .mul, .div, .eq].contains op
  | rect2 _ | plane _ => [.index, .newIndex, .toText, .eq].contains op
  | signal _ => [.index, .toText, .eq].contains op
  | object _ =>
    [.index, .newIndex, .call, .toText, .eq, .lt, .le, .unm, .bnot, .len].contains op ||
      Metamethod.binary.contains op
  | callable _ => [.call, .toText, .eq].contains op
  | _ => false

end Variant

/-- What answers an operation. -/
inductive Handler
  /-- A value of the script, most often a function. -/
  | value (v : Value)
  | box (v : Variant)
  /-- The text of a caught host error. -/
  | faultText (e : ScriptError)
  /-- Streams have no fields. -/
  | streamField
  /-- A finalized box answers nothing, and says so. -/
  | emptied

namespace Heap

def meta? (h : Heap) : Value → Option Nat
  | .table id => (h.table id).meta?
  | .string _ => h.textMeta?
  | _ => none

/-- A field of the metatable, nil if there is none. -/
def metaField (h : Heap) (v : Value) (name : String) : Value :=
  match h.meta? v with
  | some id => (h.table id).getString name
  | none => .nil

def handler? (h : Heap) (op : Metamethod) (v : Value) : Option Handler :=
  match v with
  | .box id =>
    match h.boxed? id with
    | some x => if x.answers op then some (.box x) else none
    | none => if op = .gc ∨ op = .metatable then none else some .emptied
  | .fault _ e => if op = .toText then some (.faultText e) else none
  | .stream _ => if op = .index then some .streamField else none
  | v =>
    match h.metaField v op.name with
    | .nil => none
    | f => some (.value f)

/-- A table is to be finalized if its metatable says how when it is set. -/
def awaitEnd (h : Heap) (id : Nat) : Heap :=
  if (h.metaField (.table id) Metamethod.gc.name).isNil ||
      h.finalizable.contains (.table id) || h.upkeep.doomed.contains (.table id) then h
  else { h with finalizable := .table id :: h.finalizable }

/-- The name of an operand's type in messages: tables may have a name of their own. -/
def typeName (h : Heap) (v : Value) : String :=
  match v with
  | .box id => ((h.boxed? id).map Variant.boxName).getD v.basicType
  | .stream _ => "FILE*"
  | .table _ =>
    match h.metaField v "__name" with
    | .string bytes => Origin.nameOf bytes
    | _ => v.basicType
  | v => v.basicType

/-- The name of an argument's type in messages: strings, too, may have a name of their
own. -/
def argumentType (h : Heap) (v : Value) : String :=
  match v, h.metaField v "__name" with
  | .string _, .string bytes => Origin.nameOf bytes
  | v, _ => h.typeName v

end Heap

end ScriptHost
