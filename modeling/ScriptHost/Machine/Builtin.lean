import ScriptHost.Host.Call

/-! Functions that are not written in the script: those of the base library, methods
fetched from boxes, and the constructors of values and objects. -/

namespace ScriptHost.Reentry

variable (r : Reentry)

/-- The name under which the libraries or the globals hold a function. -/
def libraryName? (b : Bridge) (sought : Builtin) : Option String :=
  let isIn (id : Nat) : Option String := (b.heap.table id).entries.findSome? fun
    | (.string bytes, .function f) =>
      match b.heap.functions[f.address]? with
      | some (.builtin g) => if g = sought then some (Origin.nameOf bytes) else none
      | _ => none
    | _ => none
  (b.libraries.findSome? fun e => (isIn e.2).map fun name => e.1.name ++ "." ++ name) <|>
    isIn Heap.globals

/-- What the interpreter says of an argument of one of its functions, which it calls by the
name that it was called by. The object of a method does not count as an argument. -/
def badArgument {α : Type} (f : Builtin) (n : Nat) (problem : String) : Act α := do
  let named (n : Nat) (name : String) : Act α := r.failAtCall
    ("bad argument #" ++ toString n ++ " to '" ++ name ++ "' (" ++ problem ++ ")")
  match r.site.own? with
  | some (.method name) =>
    if n ≤ 1 then r.failAtCall ("calling '" ++ name ++ "' on bad self (" ++ problem ++ ")")
    else named (n - 1) name
  | some origin => named n origin.name
  | none => named n ((libraryName? (← Act.bridge) f).getD "?")

/-- An argument of the wrong type, or none. -/
def wrongType {α : Type} (f : Builtin) (n : Nat) (expected : String) (arg : Option Value) :
    Act α := do
  let h ← Act.heap
  let got := (arg.map h.argumentType).getD "no value"
  r.badArgument f n (expected ++ " expected, got " ++ got)

/-! ### The base library -/

/-- The text that the global `tostring` gives for a value. -/
def printedText (tostring v : Value) : Act String := do
  let result ← Act.orThrow (← r.guard (r.call tostring [v]))
  match result.textual? with
  | some bytes => return Text.ofBytes bytes
  | none => Act.throw (InterpreterError.fromScript result.hostType "string"
      (some "expected string or number")).normalize

/-- Prints the texts of all values, with tabs between. Errors on the way become host
errors. -/
def print (args : List Value) : Act Unit := do
  match ← Act.orThrow (← r.guard (r.onGlobals (·.global "tostring"))) with
  | .function f =>
    let texts ← args.mapM (r.printedText (.function f))
    let b ← Act.bridge
    if b.prints then Act.record (.print b.name ("\t".intercalate texts))
  | v => Act.throw (InterpreterError.fromScript v.hostType "function" none).normalize

def protectedCall (f : Value) (args : List Value) : Act (List Value) := do
  match ← (r.apply r.site f args).attempt with
  | .ok results => return .bool true :: results
  | .error e => return [.bool false, e]

/-- The metatable that scripts may see. Those of boxes are hidden. -/
def getMetatable (v : Value) : Act Value := do
  let h ← Act.heap
  match v, h.metaField v "__metatable" with
  | .box _, _ | .fault _ _, _ => return .bool false
  | v, .nil => return ((h.meta? v).map Value.table).getD .nil
  | _, shown => return shown

def setMetatable (args : List Value) : Act Value := do
  match args with
  | .table id :: m :: _ =>
    let h ← Act.heap
    let change (meta? : Option Nat) : Act Value := do
      if (h.metaField (.table id) "__metatable").isNil then
        Act.modifyHeap fun h => (h.setTable id { h.table id with meta? := meta? }).awaitEnd id
        return .table id
      else r.failAtCall "cannot change a protected metatable"
    match m with
    | .nil => change none
    | .table m => change (some m)
    | m => r.wrongType .setMetatable 2 "nil or table" (some m)
  | [.table _] => r.wrongType .setMetatable 2 "nil or table" none
  | args => r.wrongType .setMetatable 1 "table" args.head?

/-- An optional argument that has to be an integer. -/
def integerArgument (f : Builtin) (n : Nat) (default : Int64) (arg : Option Value) :
    Act Int64 := do
  match arg with
  | none | some .nil => return default
  | some v =>
    match v.spelt?, v.spelt?.map (Value.integer? ∘ Value.ofNumeral) with
    | _, some (some n) => return n
    | some _, _ => r.badArgument f n "number has no integer representation"
    | none, _ => r.wrongType f n "number" (some v)

/-- Raises a value. A text tells where, if it is to: at the caller, or further out. -/
def raiseError (args : List Value) : Act (List Value) := do
  let level := (← r.integerArgument .error 2 1 (args[1]?)).toInt32
  match first args with
  | .string bytes =>
    if 0 < level then
      Act.raise (.string ((r.site.place level.toNatClampNeg).toUTF8 ++ bytes))
    else Act.raise (.string bytes)
  | v => Act.raise v

/-! ### Arithmetic on strings -/

/-- Strings that spell numbers count as these. Else the second operand is asked, unless
it is a string. -/
def textArithmetic (op : Metamethod) (a b : Value) : Act Value := do
  match a.spelt?, b.spelt? with
  | some m, some n =>
    match op.arithmetic m n with
    | .ok x => return .ofNumeral x
    | .error fault => r.fail fault.message
  | _, _ =>
    let refuse : Act Value := r.failAtCall ("attempt to " ++ op.eventName ++ " a '" ++ a.basicType ++
      "' with a '" ++ b.basicType ++ "'")
    match b, (← Act.heap).handler? op b with
    | .string _, _ | _, none => refuse
    | _, some h => r.handle op h [a, b]

/-! ### Calls -/

def runBuiltin (b : Builtin) (args : List Value) : Act (List Value) := do
  match b, args with
  | .print, args => do r.print args; return []
  | .toText, v :: _ => return [.string (← r.text v)]
  | .type, v :: _ => return [.ofString v.basicType]
  | .protectedCall, f :: args => r.protectedCall f args
  | .error, args => r.raiseError args
  | .rawEqual, a :: b :: _ => return [.bool (a.same b)]
  | .rawEqual, [_] => r.badArgument .rawEqual 2 "value expected"
  | .getMetatable, v :: _ => return [← getMetatable v]
  | .setMetatable, args => return [← r.setMetatable args]
  | .createThread, .function f :: _ => return [.thread (← Act.onHeap (·.newThread (.function f)))]
  | .createThread, args => r.wrongType .createThread 1 "function" args.head?
  | .textArithmetic op, args => return [← r.textArithmetic op (first args) (first args.tail)]
  | b, _ => r.badArgument b 1 "value expected"

/-- A fault of a host call is raised, a result handed to the script. -/
def returned (method : String) (result : Except CallError Variant) : Act (List Value) := do
  return [← Act.push (← Act.orThrow (result.mapError (·.toScript method)))]

/-- A method fetched from a box, called on what the box holds now. The box itself as a
first argument is dropped. -/
def runMethod (box : Nat) (name : String) (args : List Value) : Act (List Value) := do
  match (← Act.heap).boxed? box with
  | none => Act.throw (.runtime ("'" ++ name ++ "' called on a released value"))
  | some target =>
    let args := match args with
      | .box first :: rest => if first = box then rest else args
      | args => args
    let args ← Act.decodeAll args
    returned name (← target.invoke r .attached name args)

/-- A function that is not written in the script. -/
def runOutside (f : Function) (args : List Value) : Act (List Value) := do
  match f with
  | .closure .. => return []
  | .builtin b => r.runBuiltin b args
  | .constructor s => return [← Act.push (s.construct (.ofList (← Act.decodeAll args)))]
  | .method box name => r.runMethod box name args
  | .factory o => returned "new" (← r.callObject .attached o "new" (← Act.decodeAll args))

/-- What a callable in a box shows as its name where it has none. -/
def namelessCallable : String := "<callable>"

/-- Calls what is in a box. -/
def runBox (v : Value) (x : Variant) (args : List Value) : Act (List Value) := do
  match x with
  | .callable c =>
    let args ← Act.decodeAll args
    returned (c.methodName?.getD namelessCallable) (← c.invoke r .attached args)
  | x => return [← r.handleBox .call x (v :: args)]

end ScriptHost.Reentry
