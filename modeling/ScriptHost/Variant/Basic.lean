import ScriptHost.Geometry.Color
import ScriptHost.Geometry.Rect2
import ScriptHost.Geometry.Plane
import ScriptHost.Fault.Basic

/-! Host values. Equality never crosses kinds, objects and native functions are
compared by identity, and dictionaries regardless of order. -/

namespace ScriptHost

/-- A host object is known by its label. -/
structure ObjectId where
  label : String
deriving DecidableEq

/-- A host function is known by its key; its name is only shown. -/
structure Native where
  key : String
  name : String

/-- A function of the interpreter `owner`, at an address in that interpreter. -/
structure ScriptFunction where
  owner : Nat
  address : Nat
deriving DecidableEq

structure Signal where
  object : ObjectId
  name : String
deriving DecidableEq

/-- Where bound arguments go relative to those of the caller. -/
inductive Placement
  | before | after
deriving DecidableEq

mutual

inductive Variant
  | nil
  | bool (b : Bool)
  | int (n : Int64)
  | float (x : Float)
  | string (s : String)
  | vector2 (v : Vector2)
  | vector3 (v : Vector3)
  | color (c : Color)
  | rect2 (r : Rect2)
  | plane (p : Plane)
  | array (items : List Variant)
  /-- Entries in order of insertion. -/
  | dictionary (entries : List (Variant × Variant))
  | object (o : ObjectId)
  | signal (s : Signal)
  | callable (c : Callable)

inductive Callable
  | method (object : ObjectId) (name : String)
  | native (f : Native)
  | script (f : ScriptFunction)
  /-- `target` with arguments of its own beside those of each call. -/
  | bound (target : Callable) (extra : List Variant) (placement : Placement)

end

instance : Inhabited Variant := ⟨.nil⟩

namespace Variant

def kind : Variant → Kind
  | nil => .nil | bool _ => .bool | int _ => .int | float _ => .float | string _ => .string
  | vector2 _ => .vector2 | vector3 _ => .vector3 | color _ => .color | rect2 _ => .rect2
  | plane _ => .plane | array _ => .array | dictionary _ => .dictionary | object _ => .object
  | signal _ => .signal | callable _ => .callable

def isNil : Variant → Bool
  | nil => true
  | _ => false

/-- Whether scripts get the value in a box. Scalars and containers, and functions of
scripts, have a form of their own there. -/
def isBoxed : Variant → Bool
  | vector2 _ | vector3 _ | color _ | rect2 _ | plane _ | object _ | signal _ => true
  | callable (.script _) => false
  | callable _ => true
  | _ => false

/-- The value of an integer or float. -/
def number? : Variant → Option Float
  | int n => some n.toFloat
  | float x => some x
  | _ => none

def string? : Variant → Option String
  | string s => some s
  | _ => none

def object? : Variant → Option ObjectId
  | object o => some o
  | _ => none

/-- Zero, the empty and the default value of a kind count as false; objects,
signals and callables as true. -/
def truth : Variant → Bool
  | nil => false
  | bool b => b
  | int n => n != 0
  | float x => x != 0
  | string s => s != ""
  | vector2 v => v != .zero
  | vector3 v => v != .zero
  | color c => c != .black
  | rect2 r => r != .zero
  | plane p => p != .zero
  | array items => !items.isEmpty
  | dictionary entries => !entries.isEmpty
  | object _ | signal _ | callable _ => true

def ofOption (x : Option Variant) : Variant := x.getD nil

end Variant

/-! ### Equality -/

mutual

def Variant.same (x y : Variant) : Bool :=
  match x, y with
  | .nil, .nil => true
  | .bool a, .bool b => a == b
  | .int a, .int b => a == b
  | .float a, .float b => a == b
  | .string a, .string b => a == b
  | .vector2 a, .vector2 b => a == b
  | .vector3 a, .vector3 b => a == b
  | .color a, .color b => a == b
  | .rect2 a, .rect2 b => a == b
  | .plane a, .plane b => a == b
  | .array a, .array b => Variant.sameItems a b
  | .dictionary a, .dictionary b => a.length == b.length && Variant.eachIn a b
  | .object a, .object b => a == b
  | .signal a, .signal b => a == b
  | .callable a, .callable b => Callable.same a b
  | _, _ => false
termination_by structural x

def Variant.sameItems (xs ys : List Variant) : Bool :=
  match xs, ys with
  | [], [] => true
  | a :: as, b :: bs => Variant.same a b && Variant.sameItems as bs
  | _, _ => false
termination_by structural xs

/-- Every entry of the first list has an equal one in the second. -/
def Variant.eachIn (xs ys : List (Variant × Variant)) : Bool :=
  match xs with
  | [] => true
  | e :: rest => ys.any (Variant.sameEntry e) && Variant.eachIn rest ys
termination_by structural xs

def Variant.sameEntry (x y : Variant × Variant) : Bool :=
  match x with
  | (k, v) => Variant.same k y.1 && Variant.same v y.2
termination_by structural x

def Callable.same (x y : Callable) : Bool :=
  match x, y with
  | .method a m, .method b n => a == b && m == n
  | .native a, .native b => a.key == b.key
  | .script a, .script b => a == b
  | .bound a xs p, .bound b ys q => Callable.same a b && Variant.sameItems xs ys && p == q
  | _, _ => false
termination_by structural x

end

instance : BEq Variant := ⟨Variant.same⟩

instance : BEq Callable := ⟨Callable.same⟩

/-! ### Callables -/

namespace Callable

def bind (c : Callable) (extra : List Variant) (placement : Placement) : Callable :=
  .bound c extra placement

/-- The name of the method or function at the bottom. -/
def methodName? : Callable → Option String
  | method _ name => some name
  | native f => some f.name
  | script _ => none
  | bound target _ _ => target.methodName?

/-- The object of the method at the bottom. -/
def object? : Callable → Option ObjectId
  | method o _ => some o
  | bound target _ _ => target.object?
  | _ => none

/-- The arguments of a call together with the bound ones. -/
def arrange (extra : List Variant) : Placement → List Variant → List Variant
  | .before, args => extra ++ args
  | .after, args => args ++ extra

end Callable

end ScriptHost
