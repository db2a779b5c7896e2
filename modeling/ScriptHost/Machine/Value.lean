import ScriptHost.Machine.Number
import ScriptHost.Variant.Basic

/-! Values of scripts. Tables, functions, boxes and threads are known by their
places in the heap; a function also knows the interpreter that it belongs to. -/

namespace ScriptHost

/-- Bytes are equal as arrays are. -/
instance decidableEqBytes : DecidableEq ByteArray := ByteArray.instDecidableEq

inductive Value
  | nil
  | bool (b : Bool)
  | int (n : Int64)
  | float (x : Float)
  | string (bytes : ByteArray)
  | table (id : Nat)
  | function (f : ScriptFunction)
  /-- A host value in a box. -/
  | box (id : Nat)
  | thread (id : Nat)
  /-- A stream of the input and output library. -/
  | stream (id : Nat)
  /-- A host error that scripts can catch and raise again. -/
  | fault (id : Nat) (e : ScriptError)
deriving DecidableEq

instance : Inhabited Value := ⟨.nil⟩

namespace Value

def ofString (s : String) : Value := string s.toUTF8

/-- All values but nil and false count as true. -/
def truth : Value → Bool
  | nil => false
  | bool b => b
  | _ => true

def isNil : Value → Bool
  | nil => true
  | _ => false

def box? : Value → Option Nat
  | box id => some id
  | _ => none

/-- The basic type. -/
def basicType : Value → String
  | nil => "nil"
  | bool _ => "boolean"
  | int _ | float _ => "number"
  | string _ => "string"
  | table _ => "table"
  | function _ => "function"
  | box _ | stream _ | fault _ _ => "userdata"
  | thread _ => "thread"

/-- The type as the host calls it: integers, floats and errors are kinds of their own. -/
def hostType : Value → String
  | int _ => "integer"
  | fault _ _ => "error"
  | v => v.basicType

def numeral? : Value → Option Decimal.Numeral
  | int n => some (.int n)
  | float x => some (.float x)
  | _ => none

/-- The number that a value is or spells. -/
def spelt? : Value → Option Decimal.Numeral
  | string bytes => (String.fromUTF8? bytes).bind Decimal.numeral?
  | v => v.numeral?

def ofNumeral : Decimal.Numeral → Value
  | .int n => int n
  | .float x => float x

/-- Equality without metamethods. An integer may equal a float. -/
def same : Value → Value → Bool
  | float x, float y => x == y
  | int n, float x | float x, int n => Number.integral? x == some n
  | a, b => a == b

end Value

end ScriptHost
