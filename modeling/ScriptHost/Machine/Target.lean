import ScriptHost.Machine.Activation
import ScriptHost.Machine.Builtin

/-! What a call comes to: a function of a script, which begins to run, or something else,
which is over when it has answered. -/

namespace ScriptHost

inductive Target
  | script (p : Prototype) (captured : List Value) (chunk : String)
  | outside (f : Function)
  /-- Calls what is in the box `v`. -/
  | box (v : Value) (x : Variant)

/-- Why a call comes to nothing. -/
inductive CallFault
  /-- A value of this type cannot be called. -/
  | noFunction (type : String)
  | emptied
  /-- The search for a function fills the stack. -/
  | endless

/-- The most that the stack holds. -/
def stackLimit : Nat := 1000000

/-- What a call holds on to. -/
def Target.holds : Target → List Value
  | script _ captured _ => captured
  | outside f => f.holds
  | box v _ => [v]

/-- What is called in the end. A value that is called through another one stands in front
of the arguments. -/
def Heap.target (h : Heap) : Nat → Value → List Value → Except CallFault (Target × List Value)
  | 0, _, _ => .error .endless
  | _ + 1, .function f, args =>
    match h.functions[f.address]? with
    | some (.closure p captured chunk) => .ok (.script p captured chunk, args)
    | some f => .ok (.outside f, args)
    | none => .error (.noFunction "function")
  | fuel + 1, v, args =>
    match h.handler? .call v with
    | some (.value g) => target h fuel g (v :: args)
    | some (.box x) => .ok (.box v x, args)
    | some .emptied => .error .emptied
    | _ => .error (.noFunction (h.typeName v))

namespace Reentry

variable (r : Reentry)

def overflow {α : Type} : Act α := r.fail "stack overflow"

def target [Pausing] (f : Value) (args : List Value) : Act (Target × List Value) := do
  match (← Act.heap).target stackLimit f args with
  | .ok (target, args) =>
    Pausing.pause fun _ => ⟨r.room, target.holds ++ args⟩
    return (target, args)
  | .error (.noFunction type) => r.failOperand (.call type) r.site.callee?
  | .error .emptied => r.outside fun _ => Act.throw InterpreterError.destructed.normalize
  | .error .endless => r.overflow

/-- A function of the script begins to run. -/
def enter (p : Prototype) (captured : List Value) (chunk : String) (args : List Value)
    (wanted : Nat) : Act Activation := do
  if stackLimit ≤ r.site.height then r.overflow
  else
    Act.enter chunk (r.site.callee?.map Origin.name) p.firstLine
    return .start p captured chunk args wanted r.site

end Reentry

end ScriptHost
