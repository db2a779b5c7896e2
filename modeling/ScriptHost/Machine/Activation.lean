import ScriptHost.Machine.Counter
import ScriptHost.Machine.Reentry

/-! A function of a script with its values while it runs. -/

namespace ScriptHost

structure Activation where
  code : Array Instr
  chunk : String
  /-- The next instruction. -/
  next : Nat
  /-- The place and the line of the latest step. -/
  latest? : Option (Nat × Nat)
  /-- The innermost first. -/
  locals : List Value
  captured : List Value
  /-- The arguments behind the named ones. -/
  rest : List Value
  stack : List Value
  /-- How the loops go on, the innermost first. -/
  counters : List Counter
  /-- How many results the caller wants. -/
  wanted : Nat
  callee? : Option Origin
  /-- What runs around it. -/
  outer : List Running
  /-- How much of the stack is taken below it. -/
  height : Nat

namespace Activation

/-- `n` arguments as local values, the last one innermost. Those that are missing are
nil. -/
def bindArguments : Nat → List Value → List Value → List Value
  | 0, _, locals => locals
  | n + 1, args, locals => bindArguments n args.tail (Reentry.first args :: locals)

/-- A function that is called from some place. -/
def start (p : Prototype) (captured : List Value) (chunk : String) (args : List Value)
    (wanted : Nat) (site : Site) : Activation where
  code := p.code
  chunk := chunk
  next := 0
  latest? := none
  locals := bindArguments p.params args []
  captured := captured
  rest := if p.variadic then args.drop p.params else []
  stack := []
  counters := []
  wanted := wanted
  callee? := site.callee?
  outer := site.running
  height := site.height

def line (a : Activation) : Nat := (a.latest?.map (·.2)).getD 0

/-- The place at which the function calls something. A loop takes room for its bounds and
its step. -/
def site (a : Activation) (callee? : Option Origin) : Site where
  running := ⟨some ⟨a.chunk, a.line⟩, a.callee?⟩ :: a.outer
  callee? := callee?
  height := a.height + a.locals.length + 3 * a.counters.length + a.stack.length + 1

def lookup (a : Activation) : Slot → Value
  | .local i => a.locals.getD i .nil
  | .captured i => a.captured.getD i .nil

def holds (a : Activation) : List Value := a.locals ++ a.captured ++ a.rest ++ a.stack

/-- The value under `i` others. -/
def peek (a : Activation) (i : Nat) : Value := a.stack.getD i .nil

/-- The `n` values on top, in the order in which they came. -/
def top (a : Activation) (n : Nat) : List Value := (a.stack.take n).reverse

def push (a : Activation) (v : Value) : Activation := { a with stack := v :: a.stack }

def pop (a : Activation) (n : Nat) : Activation := { a with stack := a.stack.drop n }

/-- `n` values are replaced by one. -/
def replace (a : Activation) (n : Nat) (v : Value) : Activation := (a.pop n).push v

/-- Exactly `n` of the results of a call, nil where there are fewer. -/
def receive (a : Activation) (n : Nat) (results : List Value) : Activation :=
  { a with stack := bindArguments n results a.stack }

def closure (a : Activation) (p : Prototype) : Function :=
  .closure p (p.captures.map a.lookup) a.chunk

/-- Comes to an instruction. Going back to where the function has been is a new line,
too. -/
def reach (a : Activation) (i : Instr) : Act Activation := do
  Act.note (i.op.callee?.map Origin.name)
  let a := { a with next := a.next + 1 }
  match i.line? with
  | none => return a
  | some line =>
    let place := a.next
    let new := match a.latest? with
      | none => true
      | some (before, old) => place ≤ before || line != old
    Act.reach a.chunk line new
    return { a with latest? := some (place, line) }

/-- Changes the table under `n` values. -/
def changeTable (a : Activation) (n : Nat) (f : Table → Table) : Act Unit :=
  match a.peek n with
  | .table id => Act.modifyHeap fun h => h.setTable id (f (h.table id))
  | _ => pure ()

end Activation

end ScriptHost
