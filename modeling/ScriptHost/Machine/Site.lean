import ScriptHost.Script.Origin

/-! Where a script is: the functions that are running, and what they know of each other.
Messages begin with the place that they arise at. -/

namespace ScriptHost

/-- A line of a chunk. -/
structure Position where
  chunk : String
  line : Nat

/-- What stands in front of a message. -/
def Position.text (p : Position) : String := p.chunk ++ ":" ++ toString p.line ++ ": "

/-- A function at work. Only functions of scripts are at a position; what called them
knows them under a name, or under none. -/
structure Running where
  position? : Option Position
  callee? : Option Origin

structure Site where
  /-- The innermost function first. -/
  running : List Running
  /-- What is being called from here. -/
  callee? : Option Origin
  /-- How much of the stack is taken. -/
  height : Nat

namespace Site

/-- Where nothing is running. -/
def outermost : Site := ⟨[], none, 0⟩

instance : Inhabited Site := ⟨outermost⟩

/-- The place of the function `level` steps out. -/
def place (s : Site) (level : Nat) : String :=
  match (s.running[level]?).bind Running.position? with
  | some p => p.text
  | none => ""

/-- Inside a called function that is not written in the script. -/
def inside (s : Site) : Site := { s with running := ⟨none, s.callee?⟩ :: s.running, callee? := none }

/-- The name under which the innermost function was called. -/
def own? (s : Site) : Option Origin := s.running.head?.bind Running.callee?

end Site

end ScriptHost
