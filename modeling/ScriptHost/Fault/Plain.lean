import ScriptHost.Fault.Basic
import ScriptHost.Text.Words

/-! Messages without what an interpreter adds to them: the position in front, and the
name of a variable behind. -/

namespace ScriptHost.Text

/-- What follows `start`, if the text begins with it. -/
def after? (start : List Char) (cs : List Char) : Option (List Char) :=
  if start.isPrefixOf cs then some (cs.drop start.length) else none

/-- The text behind a line number and `: `. -/
def afterLine? (cs : List Char) : Option (List Char) :=
  if cs.takeWhile Char.isDigit = [] then none
  else after? ": ".toList (cs.dropWhile Char.isDigit)

/-- The text behind `script:`, a line number and `: `. -/
def dropPosition (cs : List Char) : List Char :=
  ((after? "script:".toList cs).bind afterLine?).getD cs

/-- The text behind the name of any chunk, a line number and `: `. -/
def dropPlace (cs : List Char) : List Char :=
  match cs.dropWhile (· ≠ ':') with
  | ':' :: rest => (afterLine? rest).getD cs
  | _ => cs

/-- How an interpreter calls the variables that it names. -/
def variableKinds : List String := ["global", "local", "field", "upvalue", "method", "constant"]

/-- The text in front of ` (kind 'name')` at its end. -/
def dropVariable (cs : List Char) : List Char :=
  match cs.reverse with
  | ')' :: '\'' :: rest =>
    let before := rest.dropWhile (· ≠ '\'')
    let cut := variableKinds.findSome? fun kind =>
      after? (" (" ++ kind ++ " '").toList.reverse before
    (cut.map List.reverse).getD cs
  | _ => cs

/-- Only what was attempted is told with a variable. -/
def plain (message : String) : String :=
  let cs := dropPosition message.toList
  String.ofList (if "attempt to ".toList.isPrefixOf cs then dropVariable cs else cs)

/-- A report of an error without the place in front of the message. -/
def withoutPlace (report : String) : String :=
  match cutAtMark "error: ".toList report.toList with
  | some (kind, message) => String.ofList (kind ++ "error: ".toList ++ dropPlace message)
  | none => report

end ScriptHost.Text

/-- The error with a plain message. -/
def ScriptHost.ScriptError.plain (e : ScriptError) : ScriptError :=
  { e with message := Text.plain e.message }
