import ScriptHost.Machine.Metatable
import ScriptHost.Machine.Observe
import ScriptHost.Machine.Site
import ScriptHost.Variant.Reference

/-! What a running script and a running host need of each other: where they are, how to
call a script value, and how to run what a host call does. Everything that runs is
written over these, which are tied together at the end. Between the steps of what runs an
interpreter may see to its heap. -/

namespace ScriptHost

/-- What an interpreter does on its own between the steps of running functions. It is told what
they hold where that changes. -/
class Pausing where
  pause (frame : Unit → Frame) : Act Unit
  /-- While something runs inside of it, a host call holds on to more than before. -/
  holding {α : Type} (room : Nat) (references : Unit → List Reference) (x : Act α) : Act α

/-- Unless it is said otherwise, an interpreter sees to its heap on request only. -/
instance (priority := low) Pausing.never : Pausing := ⟨fun _ => pure (), fun _ _ x => x⟩

/-- Whether a host call has an interpreter to reach. -/
inductive Context
  | attached | detached
deriving DecidableEq

/-- An error of the interpreter at the place `level` steps out. -/
def Site.fail {α : Type} (s : Site) (level : Nat) (message : String) : Act α :=
  Act.raise (.ofString (s.place level ++ message))

structure Reentry where
  site : Site
  /-- The room for what runs from here. What it calls in turn has less. -/
  room : Nat
  /-- Calls a value from some place, and gives all results. -/
  apply : Site → Value → List Value → Act (List Value)
  /-- Runs a behaviour of an object, or of no object. -/
  perform : Site → Context → Option ObjectId → Behaviour → List Variant →
    Act (Except CallError Variant)

namespace Reentry

/-- A result counts as nil where there is none. -/
def first : List Value → Value
  | [] => .nil
  | v :: _ => v

variable (r : Reentry)

def call (f : Value) (args : List Value) : Act Value := do
  return first (← r.apply r.site f args)

/-- The interpreter's own error at this place. -/
def fail {α : Type} (message : String) : Act α := r.site.fail 0 message

/-- The error of a function that is not written in the script: it arises at the place
that called it. -/
def failAtCall {α : Type} (message : String) : Act α := r.site.fail 1 message

/-- Inside a called function that is not written in the script. -/
def inside : Reentry := { r with site := r.site.inside }

/-- A call of a function that is not written in the script. -/
def outside {α : Type} (run : Reentry → Act α) : Act α :=
  Act.outside (r.site.callee?.map Origin.name) (run r.inside)

/-- What an object answers to `op`, if it declares it. A finalization is not recorded. -/
def override? (ctx : Context) (o : ObjectId) (op : Metamethod) (args : List Variant) :
    Act (Option (Except CallError Variant)) := do
  match ((← Act.host).definition o).override? op with
  | none => return none
  | some behaviour =>
    unless op = .gc do Act.record (.override o op args)
    return some (← r.perform r.site ctx (some o) behaviour args)

/-- Calls a method of an object. Only a bare object does not notice. -/
def callObject (ctx : Context) (o : ObjectId) (method : String) (args : List Variant) :
    Act (Except CallError Variant) := do
  let definition := (← Act.host).definition o
  unless definition.isBare do Act.record (.call o method args)
  match definition.method? method with
  | some behaviour => r.perform r.site ctx (some o) behaviour args
  | none => return .error (.invalidMethod method)

end Reentry

end ScriptHost
