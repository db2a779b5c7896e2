import ScriptHost.Hook.Event
import ScriptHost.Host.Definition
import ScriptHost.Variant.Method
import ScriptHost.Variant.Property
import ScriptHost.Variant.Text

/-! The host: its objects as they stand, its functions, and the record of what
happened to them. -/

namespace ScriptHost

/-- What an observer of the host sees. -/
inductive Event
  | write (object : ObjectId) (name : String) (value : Variant) (accepted : Bool)
  | call (object : ObjectId) (method : String) (args : List Variant)
  | override (object : ObjectId) (op : Metamethod) (args : List Variant)
  | native (name : String) (args : List Variant)
  | print (bridge line : String)
  | report (bridge : String) (e : ScriptError)
  | hook (e : HookEvent)

/-- An object as it stands. -/
structure Instance where
  id : ObjectId
  definition : Definition
  properties : List (String × Variant)
  /-- The callables connected to each signal, in order of connection. -/
  connections : List (String × Callable)
  /-- How many objects it has created. -/
  created : Nat
  finalized : Nat
  /-- What its last finalization gave, if it answers that itself. -/
  lastWill : Option (Except CallError Variant)

namespace Instance

def new (id : ObjectId) (definition : Definition) : Instance :=
  ⟨id, definition, definition.properties, [], 0, 0, none⟩

end Instance

/-- A host function. -/
structure NativeFunction where
  native : Native
  behaviour : Behaviour

structure Host where
  objects : List Instance
  natives : List NativeFunction
  /-- The latest event first. -/
  log : List Event

instance : Inhabited Host := ⟨⟨[], [], []⟩⟩

namespace Host

def record (h : Host) (e : Event) : Host := { h with log := e :: h.log }

/-- The events so far, in order, and the host without them. -/
def takeLog (h : Host) : List Event × Host := (h.log.reverse, { h with log := [] })

def object? (h : Host) (o : ObjectId) : Option Instance := h.objects.find? fun x => x.id = o

/-- An object that nobody made is bare. -/
def object (h : Host) (o : ObjectId) : Instance := (h.object? o).getD (.new o default)

def definition (h : Host) (o : ObjectId) : Definition := (h.object o).definition

/-- Changes one object and leaves all others. -/
def update (h : Host) (o : ObjectId) (f : Instance → Instance) : Host :=
  { h with objects := h.objects.map fun x => if x.id = o then f x else x }

def add (h : Host) (x : Instance) : Host := { h with objects := h.objects ++ [x] }

def classOf (h : Host) : ClassNames := fun o => (h.definition o).className

def text (h : Host) (v : Variant) : String := v.text h.classOf

def behaviour? (h : Host) (f : Native) : Option Behaviour :=
  (h.natives.find? fun x => x.native.key = f.key).map (·.behaviour)

/-! ### Properties -/

def property? (h : Host) (o : ObjectId) (name : String) : Option Variant :=
  assoc? name (h.object o).properties

/-- The properties with one of them replaced, or added at the end where that is allowed. -/
def writeIn (takesNew : Bool) (name : String) (value : Variant) :
    List (String × Variant) → Option (List (String × Variant))
  | [] => if takesNew then some [(name, value)] else none
  | (n, v) :: rest =>
    if n = name then some ((n, value) :: rest)
    else (writeIn takesNew name value rest).map ((n, v) :: ·)

/-- Writes a property of an object, and tells whether the object took it. Only a bare
object is not asked. -/
def write (h : Host) (o : ObjectId) (name : String) (value : Variant) : Bool × Host :=
  let x := h.object o
  if x.definition.isBare then (false, h)
  else match writeIn x.definition.takesNew name value x.properties with
    | some properties =>
      (true, (h.update o fun x => { x with properties := properties }).record
        (.write o name value true))
    | none => (false, h.record (.write o name value false))

/-! ### Members of any value -/

def hasMethod (h : Host) (o : ObjectId) (name : String) : Bool :=
  ((h.definition o).method? name).isSome

/-- Whether `name` is a method of `v`. -/
def valueHasMethod (h : Host) (v : Variant) (name : String) : Bool :=
  match v with
  | .object o => h.hasMethod o name
  | v => v.kind.methods.contains name

/-- What `key` reaches in `v`. -/
def get (h : Host) (v key : Variant) : Variant :=
  match v, key with
  | .object o, .string name => Variant.ofOption (h.property? o name)
  | v, key => v.get key

/-- The value after a write to it, if it was taken; an object changes in place. -/
def set (h : Host) (v key value : Variant) : Option Variant × Host :=
  match v, key with
  | .object o, .string name =>
    let (ok, h) := h.write o name value
    (if ok then some v else none, h)
  | v, key => (v.set? key value, h)

/-! ### Signals and callables -/

/-- A signal without a name, or of an object that cannot emit, is null. -/
def isNull (h : Host) (s : Signal) : Bool := s.name == "" || !h.hasMethod s.object "emit_signal"

/-- Whether a call can reach anything. -/
def isValid (h : Host) : Callable → Bool
  | .method o name => h.hasMethod o name
  | .native _ | .script _ => true
  | .bound target _ _ => h.isValid target

end Host

end ScriptHost
