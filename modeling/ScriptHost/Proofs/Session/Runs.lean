import ScriptHost.Session

/-! Runs of a session: the host makes requests to its bridges, and installs hooks with callbacks of
any kind. -/

namespace ScriptHost.Session

/-- A turn of the host: it makes a request to a bridge, or it installs a hook with any callback,
or removes the one that is there. -/
inductive Turn
  | request (name : String) (request : Step)
  | hook (name : String) (hook? : Option Hook)

/-- The host installs a hook, or removes it. -/
def setHook (s : Session) (name : String) (hook? : Option Hook) : Session :=
  match assoc? name s.bridges with
  | some b => { s with bridges := putIn name { b with hook? := hook? } s.bridges }
  | none => s

/-- What the requests of a run are answered, with the events on the way, and what the session is
in the end. -/
def run (s : Session) : List Turn → List (Answer × List Event) × Session
  | [] => ([], s)
  | .hook name hook? :: rest => run (s.setHook name hook?) rest
  | .request name request :: rest =>
    let r := s.step name request
    let later := run r.2 rest
    (r.1 :: later.1, later.2)

end ScriptHost.Session
