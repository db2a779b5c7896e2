import ScriptHost.Fault.Basic
import ScriptHost.Text.Words

/-! Errors as an interpreter reports them, in layers around a cause, and the one
script error that such a pile of layers amounts to. -/

namespace ScriptHost

inductive InterpreterError
  /-- A chunk that does not compile. -/
  | malformed (text : String)
  | runtime (text : String)
  | memory (text : String)
  /-- A failure of a host call, with the traceback at that call. -/
  | callback (traceback : String) (cause : InterpreterError)
  | context (text : String) (cause : InterpreterError)
  | raised (e : ScriptError)
  /-- Any other error, by its text. -/
  | foreign (text : String)
  | fromScript (source target : String) (detail : Option String)
  | toScript (source target : String) (detail : Option String)
  | stackExhausted
  | tooManyBound
  | mismatch
  | destructed

def tracebackHeading : String := "stack traceback:"

/-- Message and traceback of a text that may carry one from some line on. -/
def ScriptError.ofText (kind : ErrorKind) (text : String) : ScriptError :=
  match Text.cutAtMark ('\n' :: tracebackHeading.toList) text.toList with
  | none => ⟨kind, text, none⟩
  | some (message, trace) =>
    ⟨kind, String.ofList message, some (tracebackHeading ++ String.ofList trace)⟩

namespace InterpreterError

def detailText : Option String → String
  | none => ""
  | some detail => " (" ++ detail ++ ")"

/-- The kind is that of the innermost cause, every context stands in front of the
message, and the innermost traceback is kept. -/
def normalize : InterpreterError → ScriptError
  | malformed text => .ofText .compile text
  | runtime text => .ofText .runtime text
  | memory text => .runtime ("out of memory: " ++ text)
  | callback traceback cause => cause.normalize.withTraceback traceback
  | context text cause =>
    let e := cause.normalize
    { e with message := text ++ ": " ++ e.message }
  | raised e => e
  | foreign text => .runtime text
  | fromScript source target detail =>
    ⟨.conversion, "error converting Lua " ++ source ++ " to " ++ target ++ detailText detail, none⟩
  | toScript source target detail =>
    ⟨.conversion, "error converting " ++ source ++ " to Lua " ++ target ++ detailText detail, none⟩
  | stackExhausted => .runtime
      "out of Lua stack, too many arguments to a Lua function or too many return values from a callback"
  | tooManyBound => .runtime "too many arguments to Function::bind"
  | mismatch => .runtime "userdata is not expected type"
  | destructed => .runtime "userdata has been destructed"

end ScriptHost.InterpreterError
