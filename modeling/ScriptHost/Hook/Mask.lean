import ScriptHost.Text.Words

/-! Sets of interpreter events, and the lists of names that denote them: the union of
the events named between commas and bars. -/

namespace ScriptHost

inductive EventKind
  | call | tailCall | ret | line | count
deriving DecidableEq

def EventKind.text : EventKind → String
  | call => "call"
  | tailCall => "tail call"
  | ret => "return"
  | line => "line"
  | count => "count"

/-- The events that a hook observes; tail calls are calls. -/
structure Mask where
  call : Bool
  ret : Bool
  line : Bool
  count : Bool
deriving DecidableEq

namespace Mask

def empty : Mask := ⟨false, false, false, false⟩

def all : Mask := ⟨true, true, true, true⟩

instance : Inhabited Mask := ⟨empty⟩

def isEmpty (m : Mask) : Bool := m == empty

def union (m n : Mask) : Mask :=
  ⟨m.call || n.call, m.ret || n.ret, m.line || n.line, m.count || n.count⟩

def holds (m : Mask) : EventKind → Bool
  | .call | .tailCall => m.call
  | .ret => m.ret
  | .line => m.line
  | .count => m.count

/-- The mask as a number of four bits. -/
def bits (m : Mask) : Nat := m.call.toNat + 2 * m.ret.toNat + 4 * m.line.toNat + 8 * m.count.toNat

/-- The events that one word names, in any case of letters. -/
def ofWord? (word : String) : Option Mask :=
  match Text.lower word with
  | "call" => some { empty with call := true }
  | "return" | "ret" => some { empty with ret := true }
  | "line" => some { empty with line := true }
  | "count" => some { empty with count := true }
  | "all" => some all
  | _ => none

/-- The union of the events that the words name; the first word that names none is
given back. -/
def ofWords (start : Mask) : List String → Except String Mask
  | [] => .ok start
  | word :: rest =>
    match ofWord? word with
    | some m => ofWords (start.union m) rest
    | none => .error word

def isSeparator (c : Char) : Bool := c == ',' || c == '|'

def read (s : String) : Except String Mask := ofWords empty (Text.words isSeparator s)

/-- The names of the events, in order. -/
def names (m : Mask) : List String :=
  (if m.call then ["call"] else []) ++ (if m.ret then ["return"] else []) ++
    (if m.line then ["line"] else []) ++ (if m.count then ["count"] else [])

end ScriptHost.Mask
