import ScriptHost.Machine.Lowering
import ScriptHost.Machine.Nesting
import ScriptHost.Settings

/-! A bridge: one interpreter opened for a host, and what the host can ask of it. Calls
that run chunks or global functions report an error that escapes, once; all other
requests only return it. -/

namespace ScriptHost

namespace Heap

/-- Writes a global without metamethods. -/
def setGlobal (h : Heap) (name : String) (v : Value) : Heap := h.set globals (.ofString name) v

/-- Makes a function of interpreter `owner` and gives it a global name. -/
def defineGlobal (owner : Nat) (h : Heap) (name : String) (f : Function) : Heap :=
  let (id, h) := h.newFunction f
  h.setGlobal name (.function ⟨owner, id⟩)

/-- The functions that are always there. -/
def baseFunctions : List Builtin :=
  [.print, .toText, .type, .protectedCall, .error, .rawEqual, .getMetatable, .setMetatable]

def openBase (owner : Nat) (h : Heap) : Heap :=
  (baseFunctions.foldl (fun h b => h.defineGlobal owner b.name (.builtin b)) h).setGlobal "_G"
    (.table globals)

/-- The arithmetic that strings answer. -/
def textOperations : List Metamethod := [.add, .sub, .mul, .mod, .pow, .div, .idiv, .unm]

/-- The metatable of strings, with the library as their fields. -/
def openText (owner library : Nat) (h : Heap) : Heap :=
  let (id, h) := h.newTable .empty
  let h := textOperations.foldl (fun h op =>
    let (f, h) := h.newFunction (.builtin (.textArithmetic op))
    h.set id (.ofString op.name) (.function ⟨owner, f⟩)) h
  { h.set id (.ofString Metamethod.index.name) (.table library) with textMeta? := some id }

/-- What a library holds besides its table. -/
def fillLibrary (owner : Nat) (l : Library) (id : Nat) (h : Heap) : Heap :=
  match l with
  | .coroutine =>
    let (f, h) := h.newFunction (.builtin .createThread)
    h.set id (.ofString Builtin.createThread.name) (.function ⟨owner, f⟩)
  | .io =>
    ((h.set id (.ofString "stdin") (.stream 0)).set id (.ofString "stdout") (.stream 1)).set id
      (.ofString "stderr") (.stream 2)
  | .string => openText owner id h
  | _ => h

end Heap

/-- Every event from the one numbered `k` on is refused. -/
def Verdict.stopAt (k : Nat) : Verdict := fun n _ =>
  if k ≤ n then some (.runtime ("stopped at event " ++ toString k)) else none

namespace Bridge

/-- Makes a library with its table. -/
def makeLibrary (b : Bridge) (l : Library) : Nat × Bridge :=
  let (id, heap) := b.heap.newTable .empty
  (id, { b with heap := heap.fillLibrary b.id l id, libraries := (l, id) :: b.libraries })

/-- Opens a library under its name. One that was opened before is the same again. -/
def openLibrary (b : Bridge) (l : Library) : Bridge :=
  match assoc? l b.libraries with
  | some id => { b with heap := b.heap.setGlobal l.name (.table id) }
  | none =>
    let made := b.makeLibrary l
    { made.2 with heap := made.2.heap.setGlobal l.name (.table made.1) }

/-- What a list of names opens; the base library is open already. The whole list is
looked at before anything is opened. -/
def librariesOf : List String → Except Refusal (List Library)
  | [] => .ok []
  | name :: rest => do
    let l ← if name = "base" then .ok none
      else if name = "debug" then .error .debugLibrary
      else match Library.ofName? name with
        | some l => .ok (some l)
        | none => .error (.unknownLibrary name)
    return l.toList ++ (← librariesOf rest)

def bindLibraries (b : Bridge) (names : List String) : Except Refusal Bridge := do
  let asked ← librariesOf names
  return (Library.all.filter asked.contains).foldl openLibrary b

/-- A hook for a mask that is not empty, with an interval where it counts. -/
def hookOf (mask : Mask) (interval : Nat) (failAt? : Option Nat) (quiet : Bool) :
    Except Refusal Hook :=
  if mask.isEmpty then .error .emptyMask
  else if mask.count ∧ interval = 0 then .error .zeroCount
  else .ok ⟨mask, interval, failAt?.map .stopAt, quiet, 0, 0, none, false⟩

/-- An interpreter without libraries. -/
def fresh (name : String) (id : Nat) (mode : AccessMode) (observed : Bool) : Bridge :=
  ⟨name, id, Heap.openBase id .initial, mode, none, observed, observed, []⟩

/-- The constructors of the structured kinds as globals. -/
def openConstructors (b : Bridge) : Bridge :=
  { b with heap := Structured.all.foldl (fun h s => h.defineGlobal b.id s.name (.constructor s)) b.heap }

/-- An interpreter with all that settings ask for except single libraries and a hook. -/
def furnished (name : String) (id : Nat) (s : Settings) (observed : Bool) : Bridge :=
  let b := fresh name id s.mode observed
  let b := if s.standard then Library.all.foldl openLibrary b else b
  if s.constructors then b.openConstructors else b

/-- Opens an interpreter with some settings. The hook that settings ask for shows
nothing. -/
def openWith (name : String) (id : Nat) (s : Settings) (observed : Bool) : Except Refusal Bridge := do
  let b ← (furnished name id s observed).bindLibraries s.libraries
  if s.hook.isEmpty then return b
  else return { b with hook? := some (← hookOf s.hook s.interval none true) }

end Bridge

/-! ### Requests -/

namespace Request

/-- How running programs nest calls. -/
def reentry [Pausing] : Reentry := .full

/-- Reports an error that escapes. -/
def report {α : Type} (x : Act (Except ScriptError α)) : Act (Except ScriptError α) := do
  match ← x with
  | .ok a => return .ok a
  | .error e =>
    let b ← Act.bridge
    if b.reports then Act.record (.report b.name e)
    return .error e

/-- Runs a chunk that parses, under a name for messages. -/
def runChunk [Pausing] (name : String) (body : Block) : Act (Except ScriptError Unit) := do
  if Stmt.blockParses body then
    return (← reentry.guard (Reentry.runPrototype (.ofChunk body) name)).map fun _ => ()
  else return .error Refusal.malformed.error

def exec [Pausing] (name : String) (body : Block) : Act (Except ScriptError Unit) :=
  report (runChunk name body)

/-- Runs the chunk of a file that may be missing. -/
def execFile [Pausing] (name : String) (file : Option Block) : Act (Except ScriptError Unit) :=
  report (match file with
    | some body => runChunk name body
    | none => return .error Refusal.noFile.error)

/-- The value of an expression. -/
def eval [Pausing] (name : String) (e : Expr) : Act (Except ScriptError Variant) := report do
  if e.parses then
    match ← reentry.guard (Reentry.runPrototype (.ofExpr e) name) with
    | .ok results => return .ok (← Act.decode (Reentry.first results))
    | .error e => return .error e
  else return .error Refusal.malformed.error

def call [Pausing] (name : String) (args : List Variant) : Act (Except ScriptError Variant) :=
  report (reentry.callGlobal .attached name args)

def push [Pausing] (name : String) (v : Variant) : Act (Except ScriptError Unit) :=
  reentry.pushGlobal .attached name v

def pull [Pausing] (name : String) : Act (Except ScriptError Variant) := reentry.pullGlobal .attached name

def functionExists [Pausing] (name : String) : Act Bool := reentry.functionExists .attached name

/-- Changes the bridge unless that is refused. -/
def change (f : Bridge → Except Refusal Bridge) : Act (Except ScriptError Unit) := do
  match f (← Act.bridge) with
  | .ok b => do
    Act.modifyBridge fun _ => b
    return .ok ()
  | .error refusal => return .error refusal.error

/-- Opens a library, if that is still to be done, and gives it its name. One function sees to
that, and another opens the library. -/
def openLibrary [Pausing] (l : Library) : Act Unit := Act.outside none do
  let id ← match assoc? l (← Act.bridge).libraries with
    | some id => pure id
    | none => Act.outside none (Act.onBridge (·.makeLibrary l))
  reentry.inside.setGlobal l.name (.table id)

/-- Opens libraries up to the first that a hook or a metatable of the globals prevents. -/
def openLibraries [Pausing] : List Library → Act (Except ScriptError Unit)
  | [] => return .ok ()
  | l :: rest => do
    match ← reentry.guard (openLibrary l) with
    | .ok () => openLibraries rest
    | .error e => return .error e

/-- A new `package` loses what loads modules that are not scripts. The host gives up if that
fails. -/
def closePackage [Pausing] : Act Unit := do
  let closed ← reentry.guard do
    let package ← reentry.onGlobals (·.global Library.package.name)
    Act.outside none (pure package)
  match closed with
  | .ok (.table _) => pure ()
  | _ => Act.exhausted

/-- Opens libraries in the order of all libraries. -/
def bindLibraries [Pausing] (names : List String) : Act (Except ScriptError Unit) := do
  match Bridge.librariesOf names with
  | .error refusal => return .error refusal.error
  | .ok asked =>
    let isNew := (assoc? .package (← Act.bridge).libraries).isNone
    let result ← openLibraries (Library.all.filter asked.contains)
    if asked.contains .package && isNew then closePackage
    return result

/-- Replaces the hook. -/
def installHook (mask : Mask) (interval : Nat) (failAt? : Option Nat) (quiet : Bool) :
    Act (Except ScriptError Unit) :=
  change fun b => return { b with hook? := some (← Bridge.hookOf mask interval failAt? quiet) }

def removeHook : Act Unit := Act.modifyBridge fun b => { b with hook? := none }

def setMode (mode : AccessMode) : Act Unit := Act.modifyBridge fun b => { b with mode := mode }

/-- Gives scripts a function that makes objects. -/
def expose [Pausing] (name : String) (factory : ObjectId) : Act (Except ScriptError Unit) := do
  let host ← Act.host
  if host.hasMethod factory "new" then
    let f ← Act.newFunction (.factory factory)
    reentry.guard (reentry.onGlobals (·.setGlobal name f))
  else return .error (Refusal.noConstructor name (host.classOf factory)).error

/-- Calls a method of a host value. -/
def callMethod [Pausing] (v : Variant) (method : String) (args : List Variant) :
    Act (Except CallError Variant) :=
  v.invoke reentry .attached method args

def callCallable [Pausing] (ctx : Context) (c : Callable) (args : List Variant) :
    Act (Except CallError Variant) :=
  c.invoke reentry ctx args

end Request

end ScriptHost
