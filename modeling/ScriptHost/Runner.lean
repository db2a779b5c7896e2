import ScriptHost.Bridge
import ScriptHost.CommandLine

/-! The program that runs scripts from a command line: it reads the settings, opens one
bridge, and runs a chunk, a script or standard input. Complaints never stop it before
it has tried whatever was asked for; its exit status tells whether all went well. -/

namespace ScriptHost.Runner

/-- What the program writes to its error stream, in order. -/
inductive Output
  /-- A line that a script prints. -/
  | print (text : String)
  | complaint (text : String)
  | traceback (text : String)
deriving DecidableEq

/-- What the program finds around it. -/
structure Surroundings where
  arguments : List String
  /-- The content of a file, if there is one of that name. -/
  file? : String → Option ByteArray
  input : String
  /-- Why the input cannot be read, if it cannot. -/
  inputFault? : Option String := none
  /-- The settings file that the environment names. -/
  environment : Option String
  /-- The settings file of the user. -/
  user : Option String
  /-- How the text of a chunk parses. -/
  parse : String → Block

structure Result where
  status : Nat
  output : List Output
deriving DecidableEq

def usage : String :=
  "Usage: luabridge [-prdn] [-f[<file>]] [-l<libs>] [-t<events>] [-c<chunk>] [<script.lua> [args...]]"

/-- The name of the program in front of what it says. -/
def said (text : String) : String := "luabridge: " ++ text

/-- The settings file at hand. -/
def settingsHere : String := "./luabridge.conf"

/-- The interval between count events where the command line asks for a trace and no
settings file says how often. -/
def traceInterval : Nat := 1000

/-- The settings file to read, if any. -/
def settingsPath (env : Surroundings) : SettingsFile → Option String
  | .skip => none
  | .file path => some path
  | .search => Settings.find (fun path => (env.file? path).isSome) env.environment env.user settingsHere

def warning (path text : String) : Output := .complaint (said ("warning: " ++ path ++ ": " ++ text))

/-- The settings of the file, with a warning for each line that was refused. -/
def fileSettings (env : Surroundings) (choice : SettingsFile) : Settings × List Output :=
  match settingsPath env choice with
  | none => (.initial, [])
  | some path =>
    match Settings.ofFile (env.file? path) with
    | .ok (settings, errors) => (settings, errors.map fun e => warning path e.text)
    | .error e => (.initial, [warning path e.message])

/-- The settings with what the command line says in their place. -/
def override (s : Settings) (cl : CommandLine) : Settings :=
  let s := { s with
    mode := cl.mode.getD s.mode
    standard := s.standard && !cl.bare
    libraries := s.libraries ++ cl.libraries }
  match cl.trace with
  | none => s
  | some mask =>
    { s with hook := mask, interval := if s.interval = 0 then traceInterval else s.interval }

def complaint (e : ScriptError) : Output := .complaint (said e.text)

/-- What the events of a run show. -/
def shown : Event → Option Output
  | .print _ line => some (.print line)
  | _ => none

/-- What a failed script shows: its error, and where that arose if it was running. -/
def failure (e : ScriptError) : List Output := complaint e :: e.traceback.toList.map .traceback

/-- Runs one chunk, and tells how it went. -/
def runChunk (run : Act (Except ScriptError Unit)) (onError : ScriptError → List Output) (w : World) :
    Bool × List Output × World :=
  match run w with
  | .ok result w =>
    let (log, host) := w.host.takeLog
    let printed := log.filterMap shown
    match result with
    | .ok () => (true, printed, { w with host := host })
    | .error e => (false, printed ++ onError e, { w with host := host })
  | _ => (false, [], w)

/-- The input is run where nothing else is asked for. -/
def readsInput (cl : CommandLine) : Bool := cl.script.isNone && cl.command.isNone

/-- Why the input cannot be run although it should be. -/
def fault? (env : Surroundings) (cl : CommandLine) : Option String :=
  if readsInput cl then env.inputFault? else none

/-- How messages call a file: a long path by its end. -/
def shortName (path : String) : String :=
  let bytes := path.toUTF8
  if bytes.size < 60 then path
  else "..." ++ Text.ofBytes (bytes.extract (bytes.size - 56) bytes.size)

/-- The chunks that the command line asks for, in order, each with what to show when it
fails. -/
def chunks (env : Surroundings) (cl : CommandLine) :
    List (Act (Except ScriptError Unit) × (ScriptError → List Output)) :=
  let command := cl.command.toList.map fun text =>
    (Request.exec "(command line)" (env.parse text), fun e => [complaint e])
  let script := match cl.script, cl.command with
    | some path, _ =>
      let file := (env.file? path).map fun bytes => env.parse (Text.ofBytes bytes)
      [(Request.execFile (shortName path) file, failure)]
    | none, none => [(Request.exec "stdin" (env.parse env.input), failure)]
    | none, some _ => []
  command ++ script

def runAll (w : World) :
    List (Act (Except ScriptError Unit) × (ScriptError → List Output)) → Bool × List Output
  | [] => (true, [])
  | (run, onError) :: rest =>
    let (ok, output, w) := runChunk run onError w
    let (others, more) := runAll w rest
    (ok && others, output ++ more)

def status (ok : Bool) : Nat := if ok then 0 else 1

/-- The name of the table of arguments in scripts. -/
def argumentsName : String := "arg"

/-- Opens the bridge, and runs what the command line asks for. -/
def follow (env : Surroundings) (cl : CommandLine) (settings : Settings) : Result :=
  match Bridge.openWith "main" 1 settings false with
  | .error refusal => ⟨1, [complaint refusal.error]⟩
  | .ok b =>
    let arguments := Variant.array (cl.arguments.map .string)
    match Request.push argumentsName arguments ⟨default, { b with prints := true }⟩ with
    | .ok (.ok ()) w =>
      match fault? env cl with
      | some fault => ⟨1, [.complaint (said ("stdin: " ++ fault))]⟩
      | none =>
        let (ok, output) := runAll w (chunks env cl)
        ⟨status ok, output⟩
    | .ok (.error e) _ => ⟨1, [complaint e]⟩
    | _ => ⟨1, []⟩

/-- Warns of what is wrong with the settings, and goes on with the rest of them. -/
def runWith (env : Surroundings) (cl : CommandLine) : Result :=
  let (settings, warnings) := fileSettings env cl.settings
  let result := follow env cl (override settings cl)
  ⟨result.status, warnings ++ result.output⟩

def run (env : Surroundings) : Result :=
  match CommandLine.read env.arguments with
  | .error e => ⟨1, [.complaint (said e.message), .complaint usage]⟩
  | .ok cl => runWith env cl

end ScriptHost.Runner
