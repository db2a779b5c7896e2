import ScriptHost.Settings

/-! The command line: options in front, each a letter behind a dash, several of which
may share one dash; then a script and its arguments, which are not looked into. -/

namespace ScriptHost

inductive SettingsFile
  /-- Look in the usual places. -/
  | search
  | skip
  | file (path : String)
deriving DecidableEq

structure CommandLine where
  mode : Option AccessMode
  settings : SettingsFile
  libraries : List String
  /-- Leave the standard libraries out. -/
  bare : Bool
  trace : Option Mask
  command : Option String
  debug : Bool
  script : Option String
  arguments : List String
deriving DecidableEq

inductive UsageError
  | missingValue (option : Char)
  | unknownOption (option : Char)
  | badEvent (word : String)
deriving DecidableEq

def UsageError.message : UsageError → String
  | missingValue c => "-" ++ c.toString ++ " requires an argument"
  | unknownOption c => "unknown option: -" ++ c.toString
  | badEvent word => (SettingError.badEvent word).message

/-- The options that take a value. -/
inductive Valued
  | command | libraries | trace

def Valued.letter : Valued → Char
  | command => 'c'
  | libraries => 'l'
  | trace => 't'

/-- What an argument of options still wants from the next one. -/
inductive Wanted
  | nothing
  | value (option : Valued)
  /-- The name of a settings file, if the next argument looks like one. -/
  | file

namespace CommandLine

def initial : CommandLine := ⟨none, .search, [], false, none, none, false, none, []⟩

instance : Inhabited CommandLine := ⟨initial⟩

def give (cl : CommandLine) (option : Valued) (value : String) : Except UsageError CommandLine :=
  match option with
  | .command => .ok { cl with command := some value }
  | .libraries => .ok { cl with libraries := cl.libraries ++ Text.items value }
  | .trace => (Mask.read value).mapError .badEvent |>.map fun m => { cl with trace := some m }

/-- An option that takes a value takes the rest of its argument, or else wants the
next one. -/
def giveRest (cl : CommandLine) (option : Valued) (rest : List Char) :
    Except UsageError (CommandLine × Wanted) :=
  if rest = [] then .ok (cl, .value option)
  else (cl.give option (String.ofList rest)).map (·, .nothing)

/-- The option letters of one argument. -/
def letters (cl : CommandLine) : List Char → Except UsageError (CommandLine × Wanted)
  | [] => .ok (cl, .nothing)
  | 'd' :: cs => letters { cl with debug := true } cs
  | 'p' :: cs => letters { cl with mode := some .permissive } cs
  | 'r' :: cs => letters { cl with mode := some .restrictive } cs
  | 'n' :: cs => letters { cl with bare := true } cs
  | 'f' :: cs =>
    if cs = [] then .ok (cl, .file)
    else .ok ({ cl with settings := .file (String.ofList cs) }, .nothing)
  | 'c' :: cs => cl.giveRest .command cs
  | 'l' :: cs => cl.giveRest .libraries cs
  | 't' :: cs => cl.giveRest .trace cs
  | c :: _ => .error (.unknownOption c)

/-- The letters of an argument that holds options. -/
def optionLetters? (arg : String) : Option (List Char) :=
  match arg.toList with
  | '-' :: c :: cs => some (c :: cs)
  | _ => none

def looksLikeFile (arg : String) : Bool := !arg.startsWith "-" && arg.endsWith ".conf"

def withScript (cl : CommandLine) : List String → CommandLine
  | [] => cl
  | script :: arguments => { cl with script := some script, arguments := arguments }

/-- Reads options until the first argument that holds none, or until `--`. -/
def readFrom (cl : CommandLine) : List String → Except UsageError CommandLine
  | [] => .ok cl
  | arg :: rest =>
    if arg = "--" then .ok (cl.withScript rest)
    else match optionLetters? arg with
      | none => .ok (cl.withScript (arg :: rest))
      | some cs =>
        match letters cl cs, rest with
        | .error e, _ => .error e
        | .ok (cl, .nothing), rest => readFrom cl rest
        | .ok (_, .value option), [] => .error (.missingValue option.letter)
        | .ok (cl, .value option), value :: rest =>
          match cl.give option value with
          | .error e => .error e
          | .ok cl => readFrom cl rest
        | .ok (cl, .file), [] => .ok { cl with settings := .skip }
        | .ok (cl, .file), next :: rest =>
          if looksLikeFile next then readFrom { cl with settings := .file next } rest
          else readFrom { cl with settings := .skip } (next :: rest)

def read (args : List String) : Except UsageError CommandLine := readFrom initial args

end CommandLine

end ScriptHost
