import ScriptHost.Fault.Plain
import ScriptHost.Machine.Target

/-! Functions of scripts at work. A call from one such function to another suspends the
caller; all other calls go through what lies `beyond` a place. -/

namespace ScriptHost

/-- Functions at work: one that runs, and its callers, the innermost first; or the results
of the last of them. -/
inductive Status
  | running (a : Activation) (callers : List Activation)
  | finished (results : List Value)

namespace Reentry

variable (r : Reentry)

/-- Two bounds of a count. A string that spells a number may be one. -/
def counter? (start stop : Value) : Act (Option Counter) := do
  let bad (what : String) (v : Value) : Act (Option Counter) := do
    r.fail ("bad 'for' " ++ what ++ " (number expected, got " ++ (← Act.heap).typeName v ++ ")")
  match start, start.spelt?, stop.spelt? with
  | _, _, none => bad "limit" stop
  | _, none, _ => bad "initial value" start
  | .int n, _, some limit => return Counter.start? (.int n) limit
  | _, some first, some limit => return Counter.start? (.float (Number.toFloat first)) limit

/-- The outcome of an attempt as a table. -/
def report (result : Except Value Value) : Act Value := do
  match result with
  | .ok v =>
    let t := Table.empty.set (.ofString "ok") (.bool true)
    Act.newTable (t.set (.ofString "value") v)
  | .error e =>
    let e := (← r.toScriptError e).plain
    let t := Table.empty.set (.ofString "ok") (.bool false)
    let t := t.set (.ofString "kind") (.ofString e.kind.name)
    Act.newTable (t.set (.ofString "message") (.ofString e.message))

end Reentry

namespace Activation

/-- Ends with some results. -/
def give (a : Activation) (callers : List Activation) (results : List Value) : Act Status := do
  Act.leave a.chunk a.line
  match callers with
  | [] => return .finished results
  | caller :: callers => return .running (caller.receive a.wanted results) callers

/-- Calls the value under `n` arguments. -/
def call [Pausing] (beyond : Site → Reentry) (a : Activation) (callers : List Activation)
    (n wanted : Nat) (callee? : Option Origin) : Act Status := do
  let f := a.peek n
  let args := a.top n
  let a := a.pop (n + 1)
  let r := beyond (a.site callee?)
  let (target, args) ← r.target f args
  match target with
  | .script p captured chunk => do
    return .running (← r.enter p captured chunk args wanted) (a :: callers)
  | .outside f => do
    return .running (a.receive wanted (← r.outside fun r => r.runOutside f args)) callers
  | .box v x => do
    return .running (a.receive wanted (← r.outside fun r => r.runBox v x args)) callers

/-- Carries out an instruction. -/
def perform [Pausing] (beyond : Site → Reentry) (a : Activation) (callers : List Activation)
    (op : Op) : Act Status := do
  let on (a : Activation) : Act Status := return .running a callers
  let r := beyond (a.site op.callee?)
  match op with
  | .constant v => on (a.push v.value)
  | .variable slot => on (a.push (a.lookup slot))
  | .global x => do on (a.push (← r.global x))
  | .setGlobal x => do
    r.setGlobal x (a.peek 0)
    on (a.pop 1)
  | .bind => on { a.pop 1 with locals := a.peek 0 :: a.locals }
  | .unbind n => on { a with locals := a.locals.drop n }
  | .drop => on (a.pop 1)
  | .swap => on (((a.pop 2).push (a.peek 0)).push (a.peek 1))
  | .index of? => do
    on (a.replace 2 (← r.index (a.peek 1) (a.peek 0) of?))
  | .setIndex of? => do
    r.setIndex (a.peek 2) (a.peek 1) (a.peek 0) of?
    on (a.pop 3)
  | .method name of? => do
    let object := a.peek 0
    on ((a.replace 1 (← r.index object (.ofString name) of?)).push object)
  | .call args wanted callee? => a.call beyond callers args wanted callee?
  | .binary sign left? right? => do
    on (a.replace 2 (← r.binary sign (a.peek 1) (a.peek 0) left? right?))
  | .unary sign of? => do
    on (a.replace 1 (← r.unary sign (a.peek 0) of?))
  | .newTable => do on (a.push (← Act.newTable .empty))
  | .items first n => do
    a.changeTable n (·.setItems first (a.top n))
    on (a.pop n)
  | .entry pending => do
    match a.peek (pending + 2) with
    | .table id => r.rawSet id (a.peek 1) (a.peek 0)
    | _ => pure ()
    on (a.pop 2)
  | .rest => do on (a.push (← Act.newTable (Table.empty.setItems 1 a.rest)))
  | .closure p => do on (a.push (← Act.newFunction (a.closure p)))
  | .attempt p => do
    let r := r.inside
    let f ← Act.newFunction (a.closure p)
    on (a.push (← r.report (← (r.call f []).attempt)))
  | .give n => a.give callers (a.top n)
  | .skip n => on { a with next := a.next + n }
  | .skipUnless n => on (if (a.peek 0).truth then a.pop 1 else { a.pop 1 with next := a.next + n })
  | .back n => on { a with next := a.next - 1 - n }
  | .count n => do
    match ← r.counter? (a.peek 1) (a.peek 0) with
    | none => on { a.pop 2 with next := a.next + n }
    | some c => on { a.pop 2 with counters := c :: a.counters, locals := c.value :: a.locals }
  | .recount n =>
    match a.counters.head?.bind Counter.next? with
    | none => on { a with counters := a.counters.tail, locals := a.locals.tail }
    | some c => on { a with
        counters := c :: a.counters.tail, locals := c.value :: a.locals.tail
        next := a.next - 1 - n }

/-- The next instruction. At the end of its code a function gives nothing. -/
def advance [Pausing] (beyond : Site → Reentry) (a : Activation) (callers : List Activation) :
    Act Status := do
  match a.code[a.next]? with
  | none => a.give callers []
  | some i => (← a.reach i).perform beyond callers i.op

end Activation

/-- What functions at work hold. All that goes through what lies `beyond` runs inside of them. -/
def Activation.frame (beyond : Site → Reentry) (a : Activation) (callers : List Activation) :
    Frame where
  room := (beyond (a.site none)).room + 1
  values := (a :: callers).flatMap Activation.holds

/-- One instruction of the innermost function. -/
def step [Pausing] (beyond : Site → Reentry) (a : Activation) (callers : List Activation) :
    Act Status := do
  Pausing.pause fun _ => a.frame beyond callers
  a.advance beyond callers

/-- Steps until the outermost function has given its results. -/
def execute [Pausing] (beyond : Site → Reentry) :
    Nat → Activation → List Activation → Act (List Value)
  | 0, _, _, _ => .exhausted
  | fuel + 1, a, callers, w =>
    match step beyond a callers w with
    | .ok (.running a callers) w => execute beyond fuel a callers w
    | .ok (.finished results) w => .ok results w
    | .raised e w => .raised e w
    | .exhausted => .exhausted

end ScriptHost
