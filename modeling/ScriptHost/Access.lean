import ScriptHost.Text.Words

/-! Which fields of an object scripts may touch. An object may list fields; the
permissive mode shuts out what is listed, the restrictive mode all else. Reading and
writing are decided alike. -/

namespace ScriptHost

inductive AccessMode
  | permissive | restrictive
deriving DecidableEq

instance : Inhabited AccessMode := ⟨.restrictive⟩

namespace AccessMode

def ofPermissive (b : Bool) : AccessMode := if b then permissive else restrictive

def isPermissive (mode : AccessMode) : Bool := mode == permissive

def text : AccessMode → String
  | permissive => "permissive"
  | restrictive => "restrictive"

/-- Reads a mode in any case of letters; what does not name one is given back in
small letters. -/
def read (s : String) : Except String AccessMode :=
  let word := Text.lower (Text.trim s)
  if word = "permissive" then .ok permissive
  else if word = "restrictive" then .ok restrictive
  else .error word

/-- Whether scripts reach `field` of an object that lists `fields`. -/
def allows (mode : AccessMode) (fields : List String) (field : String) : Bool :=
  match mode with
  | permissive => !fields.contains field
  | restrictive => fields.contains field

end ScriptHost.AccessMode
