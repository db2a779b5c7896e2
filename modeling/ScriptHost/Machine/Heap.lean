import ScriptHost.Machine.Code
import ScriptHost.Machine.Table
import ScriptHost.Variant.Constructor
import ScriptHost.Variant.Property

/-! The heap of one interpreter: its tables, functions, boxes and threads, by number.
Nothing is ever moved; a finalized box is empty. -/

namespace ScriptHost

inductive Builtin
  | print | toText | type | protectedCall | error | rawEqual | getMetatable | setMetatable
  | createThread
  /-- Arithmetic on strings that read as numbers. -/
  | textArithmetic (op : Metamethod)
deriving DecidableEq

namespace Builtin

def name : Builtin → String
  | print => "print" | toText => "tostring" | type => "type" | protectedCall => "pcall"
  | error => "error" | rawEqual => "rawequal" | getMetatable => "getmetatable"
  | setMetatable => "setmetatable" | createThread => "create"
  | textArithmetic op => op.name

end Builtin

inductive Function
  /-- A function of a chunk with the local values that it takes from around it. -/
  | closure (p : Prototype) (captured : List Value) (chunk : String)
  | builtin (b : Builtin)
  | constructor (s : Structured)
  /-- The method `name` of the value in a box. -/
  | method (box : Nat) (name : String)
  /-- Makes new objects by the method `new` of a host object. -/
  | factory (object : ObjectId)

instance : Inhabited Function := ⟨.builtin .print⟩

/-- What a function holds on to. -/
def Function.holds : Function → List Value
  | closure _ captured _ => captured
  | method box _ => [.box box]
  | builtin _ | constructor _ | factory _ => []

/-- A host value as it lies in a box. -/
structure Boxed where
  value : Variant
  isBoxed : value.isBoxed = true

/-- The value after a write to it. -/
def Boxed.set? (b : Boxed) (key value : Variant) : Option Boxed :=
  match h : b.value.set? key value with
  | some v => some ⟨v, Variant.isBoxed_of_set? b.isBoxed h⟩
  | none => none

/-- What happens to a box. -/
inductive BoxEvent
  /-- It tells the object that the box is made for, if it is made for one. -/
  | made (o? : Option ObjectId)
  /-- A collection finds that nothing leads to the box. -/
  | condemned (id : Nat)
  | finalized (id : Nat) (o? : Option ObjectId)
  /-- All boxes that there are come to their end with the interpreter. -/
  | closing
deriving DecidableEq

/-- What something that runs holds. What runs inside of it has less room. -/
structure Frame where
  room : Nat
  values : List Value

/-- What the collector goes by. -/
structure Upkeep where
  /-- What runs holds, the innermost first. -/
  frames : List Frame
  /-- Boxes and tables whose end has been decided on, in the order in which they are to be
  finalized. -/
  doomed : List Value
  /-- How often the collector might have acted between two steps. -/
  occasions : Nat
  /-- What has happened to boxes, the latest first. -/
  history : List BoxEvent

/-- The history has one more event. -/
def Upkeep.tell (u : Upkeep) (e : BoxEvent) : Upkeep := { u with history := e :: u.history }

structure Heap where
  tables : Array Table
  functions : Array Function
  boxes : Array (Option Boxed)
  /-- The function that each thread is to run. -/
  threads : Array Value
  /-- How many host errors have reached scripts. -/
  faults : Nat
  /-- The metatable of all strings, once the string library is open. -/
  textMeta? : Option Nat
  /-- Boxes and tables that are to be finalized once nothing leads to them, the latest first. -/
  finalizable : List Value
  upkeep : Upkeep

namespace Heap

/-- The table of global names. -/
def globals : Nat := 0

/-- The metatable of tables that stand for arrays. -/
def arrayMark : Nat := 1

/-- The metatable of tables that stand for dictionaries. -/
def dictionaryMark : Nat := 2

/-- The globals and both marks, empty. -/
def initial : Heap :=
  ⟨#[.empty, .empty, .empty], #[], #[], #[], 0, none, [], ⟨[], [], 0, []⟩⟩

instance : Inhabited Heap := ⟨initial⟩

def table (h : Heap) (id : Nat) : Table := h.tables.getD id .empty

def setTable (h : Heap) (id : Nat) (t : Table) : Heap :=
  { h with tables := h.tables.setIfInBounds id t }

def newTable (h : Heap) (t : Table) : Nat × Heap :=
  (h.tables.size, { h with tables := h.tables.push t })

def newFunction (h : Heap) (f : Function) : Nat × Heap :=
  (h.functions.size, { h with functions := h.functions.push f })

def newBox (h : Heap) (b : Boxed) : Nat × Heap :=
  let id := h.boxes.size
  (id, { h with
    boxes := h.boxes.push (some b), finalizable := .box id :: h.finalizable
    upkeep := h.upkeep.tell (.made b.value.object?) })

def newThread (h : Heap) (f : Value) : Nat × Heap :=
  (h.threads.size, { h with threads := h.threads.push f })

def newFault (h : Heap) (e : ScriptError) : Value × Heap :=
  (.fault h.faults e, { h with faults := h.faults + 1 })

/-- The content of a box that is not finalized. -/
def box? (h : Heap) (id : Nat) : Option Boxed := (h.boxes[id]?).join

/-- The value in a box that is not finalized. -/
def boxed? (h : Heap) (id : Nat) : Option Variant := (h.box? id).map Boxed.value

/-- Writes to the value in a box; a write that the value refuses changes nothing. -/
def writeBox (h : Heap) (id : Nat) (key value : Variant) : Heap :=
  match (h.box? id).bind fun b => b.set? key value with
  | some b => { h with boxes := h.boxes.setIfInBounds id (some b) }
  | none => h

/-- Nothing is in the box any more. -/
def emptyBox (h : Heap) (id : Nat) : Heap :=
  match h.boxed? id with
  | some v => { h with
      boxes := h.boxes.setIfInBounds id none
      upkeep := h.upkeep.tell (.finalized id v.object?) }
  | none => h

/-- Reads a table without metamethods. -/
def get (h : Heap) (id : Nat) (key : Key) : Value := (h.table id).get key

/-- Writes a table without metamethods. -/
def set (h : Heap) (id : Nat) (key : Key) (value : Value) : Heap :=
  h.setTable id ((h.table id).set key value)

end Heap

end ScriptHost
