/-! What can go wrong on the way between host and script. A host call fails with a
`CallError`, everything that reaches a host caller from a script is a
`ScriptError`, and each reason for which the host refuses an operation before any
script runs is a `Refusal`. -/

namespace ScriptHost

/-- The kind of a host value. -/
inductive Kind
  | nil | bool | int | float | string
  | vector2 | vector3 | color | rect2 | plane
  | array | dictionary | object | signal | callable
deriving DecidableEq

def Kind.all : List Kind :=
  [nil, bool, int, float, string, vector2, vector3, color, rect2, plane, array, dictionary,
    object, signal, callable]

def Kind.name : Kind → String
  | nil => "nil" | bool => "bool" | int => "int" | float => "float" | string => "String"
  | vector2 => "Vector2" | vector3 => "Vector3" | color => "Color" | rect2 => "Rect2"
  | plane => "Plane" | array => "Array" | dictionary => "Dictionary" | object => "Object"
  | signal => "Signal" | callable => "Callable"

inductive ErrorKind
  | compile | runtime | conversion
deriving DecidableEq

def ErrorKind.text : ErrorKind → String
  | compile => "compile error"
  | runtime => "runtime error"
  | conversion => "value conversion error"

/-- The name under which scripts and observers know the kind. -/
def ErrorKind.name : ErrorKind → String
  | compile => "Compile"
  | runtime => "Runtime"
  | conversion => "ValueConversion"

structure ScriptError where
  kind : ErrorKind
  message : String
  traceback : Option String
deriving DecidableEq

namespace ScriptError

def runtime (message : String) : ScriptError := ⟨.runtime, message, none⟩

def text (e : ScriptError) : String := e.kind.text ++ ": " ++ e.message

/-- A traceback that is already there stays. -/
def withTraceback (e : ScriptError) (traceback : String) : ScriptError :=
  match e.traceback with
  | some _ => e
  | none => { e with traceback := some traceback }

end ScriptError

inductive CallError
  | invalidMethod (method : String)
  | tooManyArguments (expected got : Nat)
  | tooFewArguments (expected got : Nat)
  /-- Arguments are counted from one. -/
  | invalidArgument (index : Nat) (expected got : Kind)
  | instanceIsNull
  /-- A script function that the host called has failed. -/
  | script (e : ScriptError)
  | failed (message : String)
deriving DecidableEq

namespace CallError

def message : CallError → String
  | invalidMethod method => "invalid method '" ++ method ++ "'"
  | tooManyArguments expected got =>
    "too many arguments: expected " ++ toString expected ++ ", got " ++ toString got
  | tooFewArguments expected got =>
    "too few arguments: expected " ++ toString expected ++ ", got " ++ toString got
  | invalidArgument index expected got =>
    "invalid type in argument " ++ toString index ++ ": expected " ++ expected.name ++
      ", got " ++ got.name
  | instanceIsNull => "instance is null"
  | script e => e.text
  | failed message => message

/-- What a script sees of a fault in `method`: a script error passes through, any
other fault is reported with the method's name. -/
def toScript (method : String) : CallError → ScriptError
  | script e => e
  | e => .runtime ("error calling '" ++ method ++ "': " ++ e.message)

/-- At least `low` and at most `high` arguments. -/
def checkArity (got low high : Nat) : Except CallError Unit :=
  if got < low then .error (tooFewArguments low got)
  else if high < got then .error (tooManyArguments high got)
  else .ok ()

end CallError

/-- Why the host refuses an operation. -/
inductive Refusal
  | detached
  | noFunction (name : String)
  | foreignFunctionPassed
  | foreignFunctionCalled
  /-- A script value with no host counterpart. -/
  | noCounterpart (what : String)
  | debugLibrary
  | unknownLibrary (name : String)
  | emptyMask
  | zeroCount
  | noConstructor (name className : String)
  | noFile
  | malformed
deriving DecidableEq

namespace Refusal

def message : Refusal → String
  | detached => "no interpreter is available in this context"
  | noFunction name => "function '" ++ name ++ "' does not exist"
  | foreignFunctionPassed => "cannot pass a script function to another interpreter"
  | foreignFunctionCalled => "cannot call a script function from another interpreter"
  | noCounterpart what => "cannot convert a Lua " ++ what ++ " to a host value"
  | debugLibrary => "the debug library cannot be bound"
  | unknownLibrary name => "unknown library '" ++ name ++ "'"
  | emptyMask => "hook mask is empty"
  | zeroCount => "count hook needs a non-zero instruction count"
  | noConstructor name className =>
    "cannot expose '" ++ name ++ "': " ++ className ++ " has no method 'new'"
  | noFile => "No such file or directory (os error 2)"
  | malformed => "<name> expected near '='"

def kind : Refusal → ErrorKind
  | foreignFunctionPassed | foreignFunctionCalled | noCounterpart _ => .conversion
  | malformed => .compile
  | _ => .runtime

/-- A refusal carries no traceback: no script was running. -/
def error (r : Refusal) : ScriptError := ⟨r.kind, r.message, none⟩

end Refusal

end ScriptHost
