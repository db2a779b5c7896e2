import ScriptHost.Runner

/-! The command line of the runner: it gathers what the program may ask for, runs it, and
writes what it says to the error stream. Reading script text is left to others: a blank
chunk is empty here, and any other counts as malformed. -/

namespace ScriptHost.Program

def fileContent? (path : String) : IO (Option ByteArray) := do
  match ← (IO.FS.readBinFile path).toBaseIO with
  | .ok bytes => return some bytes
  | .error _ => return none

/-- The settings file in the user's own directory of settings. -/
def userSettings? : IO (Option String) := do
  let place (directory : String) : String := directory ++ "/luabridge/luabridge.conf"
  match ← IO.getEnv "XDG_CONFIG_HOME" with
  | some directory =>
    if directory.startsWith "/" then return some (place directory)
    else return (← IO.getEnv "HOME").map fun home => place (home ++ "/.config")
  | none => return (← IO.getEnv "HOME").map fun home => place (home ++ "/.config")

/-- The bytes of a stream up to its end. -/
partial def bytesFrom (stream : IO.FS.Stream) (bytes : ByteArray) : IO ByteArray := do
  let more ← stream.read 65536
  if more.isEmpty then return bytes else bytesFrom stream (bytes ++ more)

/-- The text of standard input, or why there is none. -/
def input : IO (Except String String) := do
  match ← (bytesFrom (← IO.getStdin) .empty).toBaseIO with
  | .ok bytes => return (Settings.fileText (some bytes)).mapError Settings.FileError.message
  | .error e => return .error (toString e)

def parse (text : String) : Block := if text.all Char.isWhitespace then [] else [.malformed]

/-- The files that a command line names. -/
def namedFiles (cl : CommandLine) : List String :=
  let settings := match cl.settings with
    | .file path => [path]
    | _ => []
  settings ++ cl.script.toList

/-- What is there for the program to find, files read in advance. -/
def surroundings (arguments : List String) : IO Runner.Surroundings := do
  let environment ← IO.getEnv "LUABRIDGE_CONFIG"
  let user ← userSettings?
  let (named, reads) := match CommandLine.read arguments with
    | .ok cl => (namedFiles cl, Runner.readsInput cl)
    | .error _ => ([], false)
  let paths := environment.toList ++ user.toList ++ [Runner.settingsHere] ++ named
  let files ← paths.mapM fun path => return (path, ← fileContent? path)
  let input ← if reads then input else pure (.ok "")
  return { arguments, environment, user, parse
           input := input.toOption.getD ""
           inputFault? := match input with
             | .ok _ => none
             | .error fault => some fault
           file? := fun path => (assoc? path files).join }

def write : Runner.Output → IO Unit
  | .print text | .complaint text | .traceback text => IO.eprintln text

end ScriptHost.Program

def main (arguments : List String) : IO UInt32 := do
  let result := ScriptHost.Runner.run (← ScriptHost.Program.surroundings arguments)
  result.output.forM ScriptHost.Program.write
  return UInt32.ofNat result.status
