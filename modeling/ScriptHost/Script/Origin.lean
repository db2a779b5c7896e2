import ScriptHost.Text.Lossy

/-! Where an operand comes from, as the messages of an interpreter name it. -/

namespace ScriptHost

inductive Origin
  | global (name : String)
  | local (name : String)
  /-- A local variable of a function around this one. -/
  | upvalue (name : String)
  | field (name : String)
  | method (name : String)
  | constant (name : String)
  | metamethod (name : String)
deriving DecidableEq

namespace Origin

def kind : Origin → String
  | .global _ => "global" | .local _ => "local" | .upvalue _ => "upvalue" | .field _ => "field"
  | .method _ => "method" | .constant _ => "constant" | .metamethod _ => "metamethod"

def name : Origin → String
  | .global x | .local x | .upvalue x | .field x | .method x | .constant x | .metamethod x => x

/-- What a message says of an operand behind its type. -/
def text (o : Origin) : String := " (" ++ o.kind ++ " '" ++ o.name ++ "')"

def note (o : Option Origin) : String := (o.map text).getD ""

/-- A name as messages show it: up to the first zero byte. -/
def nameOf (bytes : ByteArray) : String := Text.ofBytes (Text.beforeZero bytes)

end Origin

end ScriptHost
