import ScriptHost.Collector

/-! Several bridges over one host, and requests made to them one after the other. A
request acts on one bridge and on the host, and leaves all other bridges as they are. -/

namespace ScriptHost

/-- A request to a bridge. -/
inductive Step
  | open (settings : Settings) (observed : Bool)
  | close
  | push (name : String) (v : Variant)
  | pull (name : String) (save : Option String)
  | eval (e : Expr) (save : Option String)
  | call (name : String) (args : List Variant) (save : Option String)
  | exec (body : Block)
  /-- Runs a file that may be missing. -/
  | load (file : Option Block)
  | exists (name : String)
  | permissive (b : Bool)
  | mode
  | libraries (names : List String)
  | expose (name : String) (factory : ObjectId)
  | collect
  | hook (mask : Mask) (interval : Nat) (failAt? : Option Nat) (quiet : Bool)
  | unhook
  | method (v : Variant) (name : String) (args : List Variant)
  | callable (c : Callable) (args : List Variant) (ctx : Context)
  | equal (a b : Variant)

/-- What a request hands over. -/
def Step.references : Step → List Reference
  | .push _ v => v.references
  | .call _ args _ => Variant.listReferences args
  | .method v _ args => v.references ++ Variant.listReferences args
  | .callable c args _ => c.references ++ Variant.listReferences args
  | .equal a b => a.references ++ b.references
  | _ => []

/-- How an object fares: who refers to it, and what its finalizations came to. -/
structure ObjectReport where
  object : ObjectId
  references : Nat
  isBare : Bool
  finalized : Nat
  lastWill : Option (Except CallError Variant)

inductive Answer
  | done
  | value (v : Variant)
  | flag (b : Bool)
  | mode (m : AccessMode)
  | failed (e : ScriptError)
  | callFailed (e : CallError)
  | report (objects : List ObjectReport)
  /-- There is no such bridge. -/
  | closed
  /-- The request did not come to an end. -/
  | exhausted

namespace Answer

def ofUnit : Except ScriptError Unit → Answer
  | .ok () => done
  | .error e => failed e

def ofValue : Except ScriptError Variant → Answer
  | .ok v => value v
  | .error e => failed e

def ofCall : Except CallError Variant → Answer
  | .ok v => value v
  | .error e => callFailed e

end Answer

structure Session where
  host : Host
  bridges : List (String × Bridge)
  /-- The number of the next interpreter. -/
  nextId : Nat
  /-- Values that earlier requests gave. -/
  saved : List (String × Variant)

namespace Session

def ofHost (host : Host) : Session := ⟨host, [], 1, []⟩

/-- A bridge replaced where it stands, or added. -/
def putIn (name : String) (b : Bridge) : List (String × Bridge) → List (String × Bridge)
  | [] => [(name, b)]
  | e :: rest => if e.1 = name then (name, b) :: rest else e :: putIn name b rest

def without (name : String) (bridges : List (String × Bridge)) : List (String × Bridge) :=
  bridges.filter (·.1 ≠ name)

def save (s : Session) (name : String) (v : Variant) : Session :=
  { s with saved := (name, v) :: s.saved.filter (·.1 ≠ name) }

/-- What is in use outside of the bridge `name`. -/
def heldOutside (s : Session) (name : String) : List Reference :=
  s.saved.flatMap (·.2.references) ++ (without name s.bridges).flatMap (·.2.boxReferences)

/-- Acts on a bridge. -/
def within (s : Session) (name : String) (act : Act Answer) : Answer × Session :=
  match assoc? name s.bridges with
  | none => (.closed, s)
  | some b =>
    match act ⟨s.host, b⟩ with
    | .ok answer w => (answer, { s with host := w.host, bridges := putIn name w.bridge s.bridges })
    | .raised e w =>
      (.failed (Reentry.plainError w.bridge.heap e),
        { s with host := w.host, bridges := putIn name w.bridge s.bridges })
    | .exhausted => (.exhausted, s)

/-- Everything that refers to objects: the host, saved values, boxes, and factories. -/
def references (s : Session) : List Reference :=
  let held := s.saved.flatMap (·.2.references) ++ s.host.references
  let boxed := s.bridges.flatMap (·.2.boxReferences)
  held ++ boxed ++ s.bridges.flatMap fun e => e.2.factories (held ++ boxed)

def report (s : Session) : Answer :=
  let objects := s.references.filterMap Reference.object?
  .report (s.host.objects.map fun x =>
    ⟨x.id, objects.count x.id, x.definition.isBare, x.finalized, x.lastWill⟩)

/-- Opens a bridge, which draws a number in any case. One of the same name is closed. -/
def openBridge (s : Session) (name : String) (settings : Settings) (observed : Bool) :
    Answer × Session :=
  match Bridge.openWith name s.nextId settings observed with
  | .error refusal => (.failed refusal.error, { s with nextId := s.nextId + 1 })
  | .ok b =>
    match s.within name (do Collector.shutDown (s.heldOutside name); return .done) with
    | (.exhausted, s) => (.exhausted, { s with nextId := s.nextId + 1 })
    | (_, s) => (.done, { s with bridges := putIn name b s.bridges, nextId := s.nextId + 1 })

/-- Closes a bridge after its last finalizations. -/
def close (s : Session) (name : String) : Answer × Session :=
  match s.within name (do Collector.shutDown (s.heldOutside name); return .done) with
  | (.done, s) =>
    let s := { s with bridges := without name s.bridges }
    (s.report, s)
  | (answer, s) => (answer, s)

/-- Keeps the value of an answer under a name. -/
def keep (name : Option String) : Answer × Session → Answer × Session
  | (.value v, s) =>
    match name with
    | some name => (.value v, s.save name v)
    | none => (.value v, s)
  | result => result

/-- How every chunk of a session is called. -/
def chunkName : String := "script"

/-- Answers one request to the bridge `name`. -/
def answer [Pausing] (s : Session) (name : String) : Step → Answer × Session
  | .open settings observed => s.openBridge name settings observed
  | .close => s.close name
  | .push x v => s.within name (Answer.ofUnit <$> Request.push x v)
  | .pull x save => keep save (s.within name (Answer.ofValue <$> Request.pull x))
  | .eval e save => keep save (s.within name (Answer.ofValue <$> Request.eval chunkName e))
  | .call f args save => keep save (s.within name (Answer.ofValue <$> Request.call f args))
  | .exec body => s.within name (Answer.ofUnit <$> Request.exec chunkName body)
  | .load file => s.within name (Answer.ofUnit <$> Request.execFile chunkName file)
  | .exists x => s.within name (Answer.flag <$> Request.functionExists x)
  | .permissive b => s.within name (do
      Request.setMode (.ofPermissive b)
      return .mode (← Act.bridge).mode)
  | .mode => s.within name (return .mode (← Act.bridge).mode)
  | .libraries names => s.within name (Answer.ofUnit <$> Request.bindLibraries names)
  | .expose x factory => s.within name (Answer.ofUnit <$> Request.expose x factory)
  | .collect =>
    match s.within name (Answer.ofUnit <$> Collector.collect (s.heldOutside name)) with
    | (.done, s) => (s.report, s)
    | (answer, s) => (answer, s)
  | .hook mask interval failAt? quiet =>
    s.within name (Answer.ofUnit <$> Request.installHook mask interval failAt? quiet)
  | .unhook => s.within name (do Request.removeHook; return .done)
  | .method v m args => s.within name (Answer.ofCall <$> Request.callMethod v m args)
  | .callable c args ctx => s.within name (Answer.ofCall <$> Request.callCallable ctx c args)
  | .equal a b => s.within name (return .flag (a.same b))

/-- Answers one request, together with the events on the way. -/
def step [Pausing] (s : Session) (name : String) (request : Step) : (Answer × List Event) × Session :=
  let (a, s) := s.answer name request
  let (log, host) := s.host.takeLog
  ((a, log), { s with host := host })

/-- The collector acts as planned before a request, when nothing runs yet. -/
def attend (s : Session) (held : List Reference) (plan : Collector.Plan) (name : String) : Session :=
  letI := Collector.attending held plan
  (s.within name (do Pausing.pause fun _ => ⟨Request.reentry.room + 1, []⟩; return .done)).2

/-- Answers one request, before which and during which the collector acts as planned. -/
def stepAttended (s : Session) (plan : Collector.Plan) (name : String) (request : Step) :
    (Answer × List Event) × Session :=
  let held := s.heldOutside name ++ request.references
  letI := Collector.attending held plan
  (s.attend held plan name).step name request

/-- The bridge that is there from the start. -/
def mainName : String := "main"

/-- A session with a main bridge. -/
def start (host : Host) (settings : Settings) (observed : Bool) : Except ScriptError Session :=
  match (ofHost host).openBridge mainName settings observed with
  | (.failed e, _) => .error e
  | (_, s) => .ok s

end Session

end ScriptHost
