import ScriptHost.Machine.Operation

/-! What crosses between host and script: errors that leave the script, and the ways in
which host code reaches the interpreter through its context. A detached context
reaches none. -/

namespace ScriptHost.Reentry

variable (r : Reentry)

/-- The host error of a text that a script raised. The text ends at its first zero byte. -/
def raisedText (bytes : ByteArray) : ScriptError :=
  (ScriptError.ofText .runtime (Text.ofBytes (Text.beforeZero bytes))).withTraceback Act.traceback

/-- The host error that a value amounts to without asking it for its text. -/
def plainError (h : Heap) : Value → ScriptError
  | .fault _ e => e
  | v => raisedText (defaultText h v)

/-- The host error that a raised value amounts to: a host error is the same again, any other
value counts by its text. -/
def describe (e : Value) : Act ScriptError := do
  match e with
  | .fault _ e => return e
  | v => return raisedText (← r.text v)

/-- The host error that a raised value amounts to if the error of its own text is not to be
described again. A hook may come in between with an error that is. -/
def settle (e : Value) : Act ScriptError := do
  match ← (Act.handling (return plainError (← Act.heap) e)).attempt with
  | .ok e => return e
  | .error e => do
    Act.note none
    return plainError (← Act.heap) e

/-- The host error that a script ends with when a value is raised. A value whose text cannot be
had gives the error of that. -/
def toScriptError (e : Value) : Act ScriptError := do
  match ← (Act.handling (r.inside.describe e)).attempt with
  | .ok e => return e
  | .error e => settle e

/-- Runs a part of the script, with its error as the host sees it. -/
def guard {α : Type} (x : Act α) : Act (Except ScriptError α) := do
  match ← x.attempt with
  | .ok a => return .ok a
  | .error e => return .error (← r.toScriptError e)

/-- What the host does to the globals. If they have a metatable, a function does it, since that
may run parts of the script. -/
def onGlobals {α : Type} (run : Reentry → Act α) : Act α := do
  match ((← Act.heap).table Heap.globals).meta? with
  | none => run r
  | some _ => Act.outside none (run r.inside)

/-- Calls a script value with host values. -/
def callIn (f : Value) (args : List Variant) : Act (Except ScriptError Variant) := do
  match ← Act.encodeAll args with
  | .error refusal => return .error refusal.error
  | .ok args =>
    match ← r.guard (r.call f args) with
    | .error e => return .error e
    | .ok v => return .ok (← Act.decode v)

/-! ### Through a context -/

/-- The access mode, restrictive where there is no interpreter. -/
def accessMode (ctx : Context) : Act AccessMode := do
  match ctx with
  | .attached => return (← Act.bridge).mode
  | .detached => return default

def callScript (ctx : Context) (f : ScriptFunction) (args : List Variant) :
    Act (Except ScriptError Variant) := do
  match ctx with
  | .detached => return .error Refusal.detached.error
  | .attached =>
    if f.owner = (← Act.bridge).id then r.callIn (.function f) args
    else return .error Refusal.foreignFunctionCalled.error

def callGlobal (ctx : Context) (name : String) (args : List Variant) :
    Act (Except ScriptError Variant) := do
  match ctx with
  | .detached => return .error Refusal.detached.error
  | .attached =>
    match ← r.guard (r.onGlobals (·.global name)) with
    | .error e => return .error e
    | .ok (.function f) => r.callIn (.function f) args
    | .ok _ => return .error (Refusal.noFunction name).error

def pushGlobal (ctx : Context) (name : String) (v : Variant) : Act (Except ScriptError Unit) := do
  match ctx with
  | .detached => return .error Refusal.detached.error
  | .attached =>
    match ← Act.encode v with
    | .error refusal => return .error refusal.error
    | .ok value => r.guard (r.onGlobals (·.setGlobal name value))

/-- A global that has no host counterpart is refused. -/
def pullGlobal (ctx : Context) (name : String) : Act (Except ScriptError Variant) := do
  match ctx with
  | .detached => return .error Refusal.detached.error
  | .attached =>
    match ← r.guard (r.onGlobals (·.global name)) with
    | .error e => return .error e
    | .ok value =>
      let b ← Act.bridge
      return (b.heap.decodeStrict b.id value).mapError Refusal.error

def functionExists (ctx : Context) (name : String) : Act Bool := do
  match ctx with
  | .detached => return false
  | .attached =>
    match ← r.guard (r.onGlobals (·.global name)) with
    | .ok (.function _) => return true
    | _ => return false

end ScriptHost.Reentry
