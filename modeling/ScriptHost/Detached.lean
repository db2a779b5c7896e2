import ScriptHost.Bridge

/-! Host values used where no interpreter is in reach. -/

namespace ScriptHost.Host

/-- Runs what needs no interpreter; nothing if calls nest too deep. -/
def detached {α : Type} (h : Host) (x : Act α) : Option (α × Host) :=
  match x ⟨h, Bridge.fresh "" 0 default false⟩ with
  | .ok a w => some (a, w.host)
  | _ => none

/-- Calls a method of a host value. -/
def callMethod (h : Host) (v : Variant) (method : String) (args : List Variant) :
    Option (Except CallError Variant × Host) :=
  h.detached (v.invoke Request.reentry .detached method args)

def callCallable (h : Host) (c : Callable) (args : List Variant) :
    Option (Except CallError Variant × Host) :=
  h.detached (Request.callCallable .detached c args)

/-- What a context without an interpreter answers. -/
structure ContextReport where
  mode : AccessMode
  pushed : Except ScriptError Unit
  pulled : Except ScriptError Variant
  called : Except ScriptError Variant
  hasFunction : Bool

def reportContext (h : Host) (name : String) (v : Variant) : Option ContextReport :=
  let r := Request.reentry
  (h.detached (do
    return ⟨← Reentry.accessMode .detached, ← r.pushGlobal .detached name v,
      ← r.pullGlobal .detached name, ← r.callGlobal .detached name [v],
      ← r.functionExists .detached name⟩)).map (·.1)

end ScriptHost.Host
