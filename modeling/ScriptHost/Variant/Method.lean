import ScriptHost.Fault.Basic
import ScriptHost.Variant.Basic

/-! Methods of host values that need nothing but the value and its arguments.
Arguments are read from the left; those beyond what a method reads are ignored. -/

namespace ScriptHost

/-- The methods of each kind. Those of an object are its own. -/
def Kind.methods : Kind → List String
  | vector2 => ["length", "length_squared", "normalized", "dot", "cross", "distance_to", "angle",
      "abs", "floor", "ceil", "round", "lerp", "is_equal_approx"]
  | vector3 => ["length", "length_squared", "normalized", "dot", "cross", "distance_to", "abs",
      "floor", "ceil", "round", "lerp", "is_equal_approx"]
  | color => ["inverted", "lerp", "get_luminance", "is_equal_approx"]
  | rect2 => ["get_area", "get_center", "has_area", "has_point", "intersects", "encloses", "merge",
      "grow", "abs"]
  | plane => ["distance_to", "is_point_over", "has_point", "project", "normalized"]
  | array | dictionary => ["size", "is_empty", "has"]
  | signal => ["get_name", "get_object", "is_null", "emit", "connect", "disconnect", "is_connected"]
  | callable => ["call", "get_method", "get_object", "is_valid", "bind"]
  | nil | bool | int | float | string | object => []

/-! ### Arguments -/

namespace Argument

/-- The argument at place `i`, counted from zero. -/
def any (args : List Variant) (i : Nat) : Except CallError Variant :=
  match args[i]? with
  | some v => .ok v
  | none => .error (.tooFewArguments (i + 1) args.length)

/-- An argument of which `read` makes something, and which has to be of kind `expected`. -/
def ofKind {α : Type} (expected : Kind) (read : Variant → Option α) (args : List Variant) (i : Nat) :
    Except CallError α := do
  let v ← any args i
  match read v with
  | some x => .ok x
  | none => .error (.invalidArgument (i + 1) expected v.kind)

def number : List Variant → Nat → Except CallError Float := ofKind .float Variant.number?

def vector2 : List Variant → Nat → Except CallError Vector2 :=
  ofKind .vector2 fun | .vector2 v => some v | _ => none

def vector3 : List Variant → Nat → Except CallError Vector3 :=
  ofKind .vector3 fun | .vector3 v => some v | _ => none

def color : List Variant → Nat → Except CallError Color :=
  ofKind .color fun | .color c => some c | _ => none

def rect2 : List Variant → Nat → Except CallError Rect2 :=
  ofKind .rect2 fun | .rect2 r => some r | _ => none

def callable : List Variant → Nat → Except CallError Callable :=
  ofKind .callable fun | .callable c => some c | _ => none

end Argument

/-! ### Methods by kind -/

def Vector2.call (v : Vector2) (method : String) (args : List Variant) : Except CallError Variant :=
  match method with
  | "length" => .ok (.float v.length)
  | "length_squared" => .ok (.float v.lengthSquared)
  | "normalized" => .ok (.vector2 v.normalized)
  | "dot" => return .float (v.dot (← Argument.vector2 args 0))
  | "cross" => return .float (v.cross (← Argument.vector2 args 0))
  | "distance_to" => return .float (v.distanceTo (← Argument.vector2 args 0))
  | "angle" => .ok (.float v.angle)
  | "abs" => .ok (.vector2 (v.map Float.abs))
  | "floor" => .ok (.vector2 (v.map Float.floor))
  | "ceil" => .ok (.vector2 (v.map Float.ceil))
  | "round" => .ok (.vector2 (v.map Float.round))
  | "lerp" => return .vector2 (v.lerp (← Argument.vector2 args 0) (← Argument.number args 1))
  | "is_equal_approx" => return .bool (v.isNear (← Argument.vector2 args 0))
  | _ => .error (.invalidMethod method)

def Vector3.call (v : Vector3) (method : String) (args : List Variant) : Except CallError Variant :=
  match method with
  | "length" => .ok (.float v.length)
  | "length_squared" => .ok (.float v.lengthSquared)
  | "normalized" => .ok (.vector3 v.normalized)
  | "dot" => return .float (v.dot (← Argument.vector3 args 0))
  | "cross" => return .vector3 (v.cross (← Argument.vector3 args 0))
  | "distance_to" => return .float (v.distanceTo (← Argument.vector3 args 0))
  | "abs" => .ok (.vector3 (v.map Float.abs))
  | "floor" => .ok (.vector3 (v.map Float.floor))
  | "ceil" => .ok (.vector3 (v.map Float.ceil))
  | "round" => .ok (.vector3 (v.map Float.round))
  | "lerp" => return .vector3 (v.lerp (← Argument.vector3 args 0) (← Argument.number args 1))
  | "is_equal_approx" => return .bool (v.isNear (← Argument.vector3 args 0))
  | _ => .error (.invalidMethod method)

def Color.call (c : Color) (method : String) (args : List Variant) : Except CallError Variant :=
  match method with
  | "inverted" => .ok (.color c.inverted)
  | "lerp" => return .color (c.lerp (← Argument.color args 0) (← Argument.number args 1))
  | "get_luminance" => .ok (.float c.luminance)
  | "is_equal_approx" => return .bool (c.isNear (← Argument.color args 0))
  | _ => .error (.invalidMethod method)

def Rect2.call (r : Rect2) (method : String) (args : List Variant) : Except CallError Variant :=
  match method with
  | "get_area" => .ok (.float r.area)
  | "get_center" => .ok (.vector2 r.center)
  | "has_area" => .ok (.bool r.hasArea)
  | "has_point" => return .bool (r.hasPoint (← Argument.vector2 args 0))
  | "intersects" => return .bool (r.intersects (← Argument.rect2 args 0))
  | "encloses" => return .bool (r.encloses (← Argument.rect2 args 0))
  | "merge" => return .rect2 (r.merge (← Argument.rect2 args 0))
  | "grow" => return .rect2 (r.grow (← Argument.number args 0))
  | "abs" => .ok (.rect2 r.abs)
  | _ => .error (.invalidMethod method)

/-- How far off a plane a point may lie unless the caller says otherwise. -/
def Plane.pointTolerance : Float := 0.00001

def Plane.call (p : Plane) (method : String) (args : List Variant) : Except CallError Variant :=
  match method with
  | "distance_to" => return .float (p.distanceTo (← Argument.vector3 args 0))
  | "is_point_over" => return .bool (p.isPointOver (← Argument.vector3 args 0))
  | "has_point" => do
    -- the tolerance is read first
    let tolerance ← if 1 < args.length then Argument.number args 1 else .ok Plane.pointTolerance
    return .bool (p.hasPoint (← Argument.vector3 args 0) tolerance)
  | "project" => return .vector3 (p.project (← Argument.vector3 args 0))
  | "normalized" => .ok (.plane p.normalized)
  | _ => .error (.invalidMethod method)

/-- A container of `size` members; `has` tells which keys or elements are among them. -/
def callContainer (size : Nat) (has : Variant → Bool) (method : String) (args : List Variant) :
    Except CallError Variant :=
  match method with
  | "size" => .ok (.int (Int64.ofNat size))
  | "is_empty" => .ok (.bool (size == 0))
  | "has" => return .bool (has (← Argument.any args 0))
  | _ => .error (.invalidMethod method)

namespace Variant

/-- A method of a value that is neither object, signal nor callable. -/
def callPlain (v : Variant) (method : String) (args : List Variant) : Except CallError Variant :=
  match v with
  | vector2 v => v.call method args
  | vector3 v => v.call method args
  | color c => c.call method args
  | rect2 r => r.call method args
  | plane p => p.call method args
  | array items => callContainer items.length (fun key => items.any (·.same key)) method args
  | dictionary entries =>
    callContainer entries.length (fun key => entries.any (·.1.same key)) method args
  | _ => .error (.invalidMethod method)

end Variant

end ScriptHost
