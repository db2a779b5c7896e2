import ScriptHost.Metamethod
import ScriptHost.Variant.Basic

/-! What host objects and host functions do when they are called, given as data. An
object's definition lists its properties, its methods, the fields it shows to
scripts, and the operations that it answers itself. -/

namespace ScriptHost

mutual

/-- What a host call does with its arguments, in the context it is called in. -/
inductive Behaviour where
  | give (v : Variant)
  /-- All arguments as an array. -/
  | echo
  | first
  | count
  | sum
  /-- The texts of all arguments, with bars between. -/
  | display
  | fail (e : CallError)
  /-- The count of arguments, if it is allowed. -/
  | arity (low high : Nat)
  | callGlobal (name : String)
  /-- Calls the first argument with the others. -/
  | callFirst
  | push (name : String)
  | pull (name : String)
  | hasFunction (name : String)
  /-- The access mode, and whether there is an interpreter to reach. -/
  | mode
  | setProperty (name : String)
  | property (name : String)
  | create (definition : Definition)
  | connect
  | disconnect
  | isConnected
  | emit

inductive Definition where
  /-- An object that has a class and nothing else. -/
  | bare (className : String)
  /-- Only a `growing` object takes new properties. -/
  | full (className : String) (properties : List (String × Variant)) (growing : Bool)
      (methods : List (String × Behaviour)) (fields : Option (List String))
      (overrides : List (Metamethod × Behaviour))

end

instance : Inhabited Definition := ⟨.bare ""⟩

/-- The entry of the first equal key. -/
def assoc? {α β : Type} [DecidableEq α] (key : α) : List (α × β) → Option β
  | [] => none
  | (k, v) :: rest => if k = key then some v else assoc? key rest

namespace Definition

def className : Definition → String
  | bare name => name
  | full name .. => name

def isBare : Definition → Bool
  | bare _ => true
  | full .. => false

def properties : Definition → List (String × Variant)
  | bare _ => []
  | full _ properties .. => properties

def takesNew : Definition → Bool
  | bare _ => false
  | full _ _ growing .. => growing

def method? (name : String) : Definition → Option Behaviour
  | bare _ => none
  | full _ _ _ methods _ _ => assoc? name methods

/-- The fields listed for scripts; an object without a list has an empty one. -/
def fields : Definition → List String
  | bare _ => []
  | full _ _ _ _ fields _ => fields.getD []

def override? (op : Metamethod) : Definition → Option Behaviour
  | bare _ => none
  | full _ _ _ _ _ overrides => assoc? op overrides

end Definition

end ScriptHost
