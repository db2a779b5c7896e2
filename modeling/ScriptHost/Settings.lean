import ScriptHost.Access
import ScriptHost.Decimal.Numeral
import ScriptHost.Fault.Basic
import ScriptHost.Hook.Mask
import ScriptHost.Text.Quoted

/-! The settings of a bridge and the files that give them, one assignment on a line.
A line that is refused is reported and changes nothing. -/

namespace ScriptHost

structure Settings where
  mode : AccessMode
  /-- Open every safe standard library. -/
  standard : Bool
  /-- Install the constructors of the structured kinds. -/
  constructors : Bool
  /-- Libraries opened by name. -/
  libraries : List String
  /-- Events to observe; none if empty. -/
  hook : Mask
  /-- Instructions between two count events. -/
  interval : Nat
deriving DecidableEq

namespace Settings

def initial : Settings := ⟨.restrictive, true, true, [], .empty, 0⟩

instance : Inhabited Settings := ⟨initial⟩

end Settings

/-! ### Single settings -/

inductive Setting
  | mode (mode : AccessMode)
  | standard (b : Bool)
  | constructors (b : Bool)
  | libraries (names : List String)
  | hook (mask : Mask)
  | interval (n : Nat)

/-- What is wrong with a line. -/
inductive SettingError
  | noAssignment (line : String)
  | unknownSetting (key : String)
  | badMode (word : String)
  | badBoolean (value : String)
  | badEvent (word : String)
  | badInterval (value : String)
deriving DecidableEq

def SettingError.message : SettingError → String
  | noAssignment line => "expected key = value, got " ++ Text.quoted line
  | unknownSetting key => "unknown setting " ++ Text.quoted key
  | badMode word => "unknown access mode '" ++ word ++ "'"
  | badBoolean value => "invalid boolean " ++ Text.quoted value
  | badEvent word => "invalid hook event " ++ Text.quoted word
  | badInterval value => "invalid hook_count " ++ Text.quoted value

namespace Setting

/-- The value without a pair of double quotes around it. -/
def unquote (s : String) : String :=
  match s.toList with
  | '"' :: rest => if rest.getLast? = some '"' then String.ofList rest.dropLast else s
  | _ => s

def readBool (s : String) : Except SettingError Bool :=
  match Text.lower s with
  | "1" | "on" | "yes" | "true" => .ok true
  | "0" | "off" | "no" | "false" => .ok false
  | _ => .error (.badBoolean s)

def readMask (s : String) : Except SettingError Mask := (Mask.read s).mapError .badEvent

def readInterval (s : String) : Except SettingError Nat :=
  match Decimal.natural? 32 s with
  | some n => .ok n
  | none => .error (.badInterval s)

/-- The setting that an assignment makes. -/
def ofAssignment (key value : String) : Except SettingError Setting :=
  match key with
  | "mode" => (AccessMode.read value).mapError .badMode |>.map mode
  | "permissive" => (readBool value).map fun b => mode (.ofPermissive b)
  | "bind_std" => (readBool value).map standard
  | "bind_api" => (readBool value).map constructors
  | "libraries" => .ok (libraries (Text.items value))
  | "hook" => (readMask value).map hook
  | "hook_count" => (readInterval value).map interval
  | _ => .error (.unknownSetting key)

/-- A line that holds nothing, or a remark. -/
def isRemark (line : List Char) : Bool :=
  match line with
  | [] => true
  | c :: _ => c == '#' || c == ';'

/-- What a line sets, if anything. -/
def ofLine (raw : String) : Except SettingError (Option Setting) :=
  let line := Text.trim raw
  if isRemark line.toList then .ok none
  else match Text.cutAt '=' line with
    | none => .error (.noAssignment line)
    | some (key, value) =>
      (ofAssignment (Text.trim key) (unquote (Text.trim value))).map some

end Setting

/-! ### Files -/

/-- A refused line; lines are counted from one. -/
structure LineError where
  line : Nat
  cause : SettingError
deriving DecidableEq

def LineError.text (e : LineError) : String :=
  "line " ++ toString e.line ++ ": " ++ e.cause.message

namespace Settings

def set (s : Settings) : Setting → Settings
  | .mode mode => { s with mode := mode }
  | .standard b => { s with standard := b }
  | .constructors b => { s with constructors := b }
  | .libraries names => { s with libraries := names }
  | .hook mask => { s with hook := mask }
  | .interval n => { s with interval := n }

/-- The settings after some lines, the first of which has number `n`. -/
def applyLines (n : Nat) (s : Settings) : List String → Settings × List LineError
  | [] => (s, [])
  | line :: rest =>
    match Setting.ofLine line with
    | .ok none => applyLines (n + 1) s rest
    | .ok (some setting) => applyLines (n + 1) (s.set setting) rest
    | .error cause =>
      let (s, errors) := applyLines (n + 1) s rest
      (s, ⟨n, cause⟩ :: errors)

def ofText (text : String) : Settings × List LineError := applyLines 1 initial (Text.lines text)

/-- Why a file cannot be read. -/
inductive FileError
  | notFound
  | invalidText
deriving DecidableEq

def FileError.message : FileError → String
  | notFound => Refusal.noFile.message
  | invalidText => "stream did not contain valid UTF-8"

/-- The text of a file that may be missing. -/
def fileText (bytes : Option ByteArray) : Except FileError String :=
  match bytes with
  | none => .error .notFound
  | some bytes =>
    match String.fromUTF8? bytes with
    | some text => .ok text
    | none => .error .invalidText

def ofFile (bytes : Option ByteArray) : Except FileError (Settings × List LineError) :=
  (fileText bytes).map ofText

/-- The first of the places that holds a file: the one that the environment names,
the user's own, the one at hand. -/
def find (isFile : String → Bool) (environment user : Option String) (here : String) :
    Option String :=
  (environment.toList ++ user.toList ++ [here]).find? isFile

end Settings

end ScriptHost
