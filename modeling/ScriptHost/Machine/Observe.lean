import ScriptHost.Machine.World

/-! What a hook sees of a running script. -/

namespace ScriptHost.Act

/-- The source of functions that are not written in the script. -/
def hostSource : String := "[C]"

/-- Shows an event to the hook, if it observes such events. An event that the hook refuses stops
the script. -/
def fire (e : HookEvent) : Act Unit := do
  match (← bridge).hook? with
  | none => pure ()
  | some hook =>
    if hook.mask.holds e.kind then
      let refusal? := hook.refusal? (hook.seen + 1) e
      modifyBridge fun b =>
        { b with hook? := some { hook with seen := hook.seen + 1, refused := refusal?.isSome } }
      unless hook.quiet do record (.hook e)
      match refusal? with
      | some refusal => throw refusal
      | none => pure ()

/-- The hook is told what is being called, if anything, and forgets about errors. -/
def note (callee? : Option String) : Act Unit := do
  match (← bridge).hook? with
  | none => pure ()
  | some hook => modifyBridge fun b => { b with hook? := some (hook.calling callee?) }

/-- The script enters a function that begins on `line`. -/
def enter (chunk : String) (name : Option String) (line : Nat) : Act Unit :=
  fire ⟨.call, some line, some chunk, name⟩

/-- An event between two functions, where nothing is being called. -/
def cross (e : HookEvent) : Act Unit := do
  note none
  fire e

/-- The script leaves a function on `line`. -/
def leave (chunk : String) (line : Nat) : Act Unit := cross ⟨.ret, some line, some chunk, none⟩

/-- One more step of the script. -/
def tick (chunk : String) (line : Nat) : Act Unit := do
  match (← bridge).hook? with
  | none => pure ()
  | some hook =>
    if hook.mask.count then
      if hook.interval ≤ hook.elapsed + 1 then
        modifyBridge fun b => { b with hook? := some { hook with elapsed := 0 } }
        fire ⟨.count, some line, some chunk, none⟩
      else modifyBridge fun b => { b with hook? := some { hook with elapsed := hook.elapsed + 1 } }

/-- A step on `line`, which is new to the function or not. -/
def reach (chunk : String) (line : Nat) (new : Bool) : Act Unit := do
  match (← bridge).hook? with
  | none => pure ()
  | some _ =>
    tick chunk line
    if new then fire ⟨.line, some line, some chunk, none⟩

/-- A call of a function that is not written in the script. -/
def outside {α : Type} (name : Option String) (x : Act α) : Act α := do
  cross ⟨.call, none, some hostSource, name⟩
  let a ← x
  cross ⟨.ret, none, some hostSource, none⟩
  return a

/-- An error on its way to the host meets a function first that makes something of it. Hooks see
that, too, if the error is not their own. -/
def handling {α : Type} (x : Act α) : Act α := do
  match (← bridge).hook? with
  | none => x
  | some hook =>
    if hook.refused then do
      note none
      x
    else outside hook.callee? x

end ScriptHost.Act
