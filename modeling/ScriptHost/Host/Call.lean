import ScriptHost.Machine.Boundary

/-! Calls of callables and of methods of host values, and what behaviours do. -/

namespace ScriptHost

variable (r : Reentry)

/-- Calls whatever stands at the bottom of a callable, once, with all arguments. -/
def Callable.invoke (ctx : Context) (c : Callable) (args : List Variant) :
    Act (Except CallError Variant) :=
  match c with
  | .method o name => r.callObject ctx o name args
  | .native f => do
    Act.record (.native f.name args)
    match (← Act.host).behaviour? f with
    | some behaviour => r.perform r.site ctx none behaviour args
    | none => return .error .instanceIsNull
  | .script f => return (← r.callScript ctx f args).mapError .script
  | .bound target extra placement => target.invoke ctx (Callable.arrange extra placement args)

/-- Calls a method of the signal's owner with the signal's name in front; a null signal
refuses. -/
def Signal.forward (ctx : Context) (s : Signal) (method : String) (args : List Variant) :
    Act (Except CallError Variant) := do
  if (← Act.host).isNull s then return .error .instanceIsNull
  else r.callObject ctx s.object method (.string s.name :: args)

def Signal.call (ctx : Context) (s : Signal) (method : String) (args : List Variant) :
    Act (Except CallError Variant) :=
  match method with
  | "get_name" => return .ok (.string s.name)
  | "get_object" => return .ok (.object s.object)
  | "is_null" => return .ok (.bool ((← Act.host).isNull s))
  | "emit" => s.forward r ctx "emit_signal" args
  | "connect" | "disconnect" | "is_connected" =>
    match Argument.callable args 0 with
    | .ok target => s.forward r ctx method [.callable target]
    | .error e => return .error e
  | _ => return .error (.invalidMethod method)

def Callable.call (ctx : Context) (c : Callable) (method : String) (args : List Variant) :
    Act (Except CallError Variant) :=
  match method with
  | "call" => c.invoke r ctx args
  | "get_method" => return .ok (Variant.ofOption (c.methodName?.map .string))
  | "get_object" => return .ok (Variant.ofOption (c.object?.map .object))
  | "is_valid" => return .ok (.bool ((← Act.host).isValid c))
  | "bind" => return .ok (.callable (c.bind args .after))
  | _ => return .error (.invalidMethod method)

/-- Calls a method of any host value. -/
def Variant.invoke (ctx : Context) (v : Variant) (method : String) (args : List Variant) :
    Act (Except CallError Variant) :=
  match v with
  | .object o => r.callObject ctx o method args
  | .signal s => s.call r ctx method args
  | .callable c => c.call r ctx method args
  | v => return v.callPlain method args

namespace Behaviour

/-- The sum of the numbers among the arguments. -/
def total (args : List Variant) : Float := (args.filterMap Variant.number?).foldl (· + ·) 0

/-- The name and the callable that a connection is made of. -/
def connection (args : List Variant) : Except CallError (String × Callable) := do
  CallError.checkArity args.length 2 2
  match args with
  | [.string name, .callable c] => .ok (name, c)
  | _ => .error (.failed "bad connection")

def isConnection (name : String) (c : Callable) (e : String × Callable) : Bool :=
  e.1 == name && e.2.same c

/-- The text of a context: its mode, and whether it is attached. -/
def modeText (mode : AccessMode) (ctx : Context) : String :=
  mode.text ++ " " ++ (if mode.isPermissive then "true" else "false") ++ " " ++
    match ctx with
    | .attached => "attached"
    | .detached => "detached"

/-- Calls callables in order, up to the first that fails. -/
def callEach (ctx : Context) (args : List Variant) : List Callable → Act (Except CallError Unit)
  | [] => return .ok ()
  | c :: rest => do
    match ← c.invoke r ctx args with
    | .ok _ => callEach ctx args rest
    | .error e => return .error e

/-- What only a behaviour of an object can do. -/
def performOn [Pausing] (ctx : Context) (o : ObjectId) (b : Behaviour) (args : List Variant) :
    Act (Except CallError Variant) := do
  match b with
  | setProperty name =>
    return .ok (.bool (← Act.onHost (·.write o name (Variant.ofOption args.head?))))
  | property name => return .ok (Variant.ofOption ((← Act.host).property? o name))
  | create definition =>
    let n := ((← Act.host).object o).created + 1
    let child : ObjectId := ⟨o.label ++ "." ++ toString n⟩
    Act.modifyHost fun h => (h.update o fun x => { x with created := n }).add (.new child definition)
    return .ok (.object child)
  | connect =>
    match connection args with
    | .error e => return .error e
    | .ok (name, c) =>
      if ((← Act.host).object o).connections.any (isConnection name c) then
        return .error (.failed "already connected")
      else
        Act.modifyHost (·.update o fun x => { x with connections := x.connections ++ [(name, c)] })
        return .ok .nil
  | disconnect =>
    match connection args with
    | .error e => return .error e
    | .ok (name, c) =>
      if ((← Act.host).object o).connections.any (isConnection name c) then
        Act.modifyHost (·.update o fun x =>
          { x with connections := x.connections.eraseP (isConnection name c) })
        return .ok .nil
      else return .error (.failed "not connected")
  | isConnected =>
    match connection args with
    | .error e => return .error e
    | .ok (name, c) =>
      return .ok (.bool (((← Act.host).object o).connections.any (isConnection name c)))
  | emit =>
    let name := (args.head?.bind Variant.string?).getD ""
    let targets := (((← Act.host).object o).connections.filter (·.1 == name)).map (·.2)
    match ← Pausing.holding r.room (fun _ => targets.flatMap Callable.references)
      (callEach r ctx args.tail targets) with
    | .ok () => return .ok (.int (Int64.ofNat targets.length))
    | .error e => return .error e
  | _ => return .error (.failed "no object")

/-- What a host call does. -/
def run [Pausing] (ctx : Context) (self : Option ObjectId) (b : Behaviour) (args : List Variant) :
    Act (Except CallError Variant) := do
  match b with
  | give v => return .ok v
  | echo => return .ok (.array args)
  | first => return .ok (Variant.ofOption args.head?)
  | count => return .ok (.int (Int64.ofNat args.length))
  | sum => return .ok (.float (total args))
  | display =>
    let h ← Act.host
    return .ok (.string ("|".intercalate (args.map h.text)))
  | fail e => return .error e
  | arity low high =>
    return (CallError.checkArity args.length low high).map fun _ => .int (Int64.ofNat args.length)
  | callGlobal name => return (← r.callGlobal ctx name args).mapError .script
  | callFirst =>
    match args with
    | .callable c :: rest => c.invoke r ctx rest
    | _ => return .error (.failed "not a callable")
  | push name =>
    return ((← r.pushGlobal ctx name (Variant.ofOption args.head?)).map fun _ => .nil).mapError .script
  | pull name => return (← r.pullGlobal ctx name).mapError .script
  | hasFunction name => return .ok (.bool (← r.functionExists ctx name))
  | mode => return .ok (.string (modeText (← Reentry.accessMode ctx) ctx))
  | b =>
    match self with
    | some o => performOn r ctx o b args
    | none => return .error (.failed "no object")

end Behaviour

end ScriptHost
