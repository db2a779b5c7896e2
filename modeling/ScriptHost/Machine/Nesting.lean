import ScriptHost.Machine.Execution

/-! How deep calls nest. Functions of scripts call one another until the stack is full;
calls that pass through anything else are counted, and so are host calls that lead to
host calls. -/

namespace ScriptHost.Reentry

/-- The room for host calls that may nest `n` deep among themselves, where calls of other kinds
have at most the room `least`. -/
def hostRoom (least n : Nat) : Nat := least + 2 * n + 1

/-- The calls of a host, which may nest `n` deep among themselves. What `apply` runs has at most the
room `least`. -/
def ofApply [Pausing] (least : Nat) (apply : Site → Value → List Value → Act (List Value)) :
    Nat → Site → Reentry
  | 0, site => ⟨site, hostRoom least 0, apply, fun _ _ _ _ _ => Act.exhausted⟩
  | n + 1, site =>
    ⟨site, hostRoom least (n + 1), apply, fun site ctx self b args =>
      Pausing.holding (hostRoom least n + 1) (fun _ => Variant.listReferences args)
        (b.run (ofApply least apply n site) ctx self args)⟩

/-- How deep host calls may nest. -/
def hostLimit : Nat := 4000

/-- The room for what is `n` counted calls away from the innermost. -/
def roomUnder (n : Nat) : Nat := n * (2 * hostLimit + 2)

/-- How many steps a script may take. -/
def stepLimit : Nat := Nat.pow 10 15

/-- Runs a function of a script. -/
def runFunction [Pausing] (beyond : Site → Reentry) (site : Site) (p : Prototype)
    (captured : List Value) (chunk : String) (args : List Value) : Act (List Value) := do
  execute beyond stepLimit (← (beyond site).enter p captured chunk args 1) []

/-- Calls any value from some place. -/
def applyValue [Pausing] (beyond : Site → Reentry) (site : Site) (f : Value)
    (args : List Value) : Act (List Value) := do
  let r := beyond site
  let (target, args) ← r.target f args
  match target with
  | .script p captured chunk => runFunction beyond site p captured chunk args
  | .outside f => r.outside fun r => r.runOutside f args
  | .box v x => r.outside fun r => r.runBox v x args

/-- What can be reached from a place through at most `n` calls that are counted. -/
def upTo [Pausing] : Nat → Site → Reentry
  | 0 => ofApply (roomUnder 0) (fun site _ _ => site.fail 0 "C stack overflow") hostLimit
  | n + 1 => ofApply (roomUnder (n + 1)) (applyValue (upTo n)) hostLimit

/-- How many counted calls may nest. -/
def callLimit : Nat := 199

/-- The reentry of a host. -/
def full [Pausing] : Reentry := upTo callLimit .outermost

/-- Runs a function that no script has made. -/
def runPrototype [Pausing] (p : Prototype) (chunk : String) : Act (List Value) :=
  runFunction (upTo (callLimit - 1)) .outermost p [] chunk []

end ScriptHost.Reentry
