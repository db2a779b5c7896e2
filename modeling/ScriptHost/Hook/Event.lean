import ScriptHost.Hook.Mask

/-! One observed event and its text. -/

namespace ScriptHost

structure HookEvent where
  kind : EventKind
  /-- The current line, where the running function has lines. -/
  line : Option Nat
  /-- What is running. -/
  source : Option String
  /-- The function entered, for calls. -/
  name : Option String
deriving DecidableEq

/-- A line is shown only behind a source. -/
def HookEvent.text (e : HookEvent) : String :=
  let place := match e.source, e.line with
    | none, _ => ""
    | some source, none => " " ++ source
    | some source, some line => " " ++ source ++ ":" ++ toString line
  let callee := match e.name with
    | none => ""
    | some name => " in " ++ name
  e.kind.text ++ place ++ callee

end ScriptHost
