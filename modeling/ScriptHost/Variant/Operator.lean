import ScriptHost.Metamethod
import ScriptHost.Variant.Basic

/-! Operators on host values. Two values of one kind combine by components; a vector
or colour may be scaled by a number, and divided by one; vectors in the plane and
colours are ordered. All else is undefined. -/

namespace ScriptHost

namespace Metamethod

/-- Arithmetic between two values of one kind. -/
def arithmetic? {α : Type} [Add α] [Sub α] [Mul α] [Div α] (op : Metamethod) (x y : α) : Option α :=
  match op with
  | add => some (x + y)
  | sub => some (x - y)
  | mul => some (x * y)
  | div => some (x / y)
  | _ => none

/-- Scaling on the right. -/
def scaling? {α : Type} [HMul α Float α] [HDiv α Float α] (op : Metamethod) (x : α) (s : Float) :
    Option α :=
  match op with
  | mul => some (x * s)
  | div => some (x / s)
  | _ => none

/-- One of the two orders. -/
def comparison? (op : Metamethod) (less lessOrEqual : Bool) : Option Bool :=
  match op with
  | lt => some less
  | le => some lessOrEqual
  | _ => none

end Metamethod

namespace Variant

def evaluate? (op : Metamethod) (a b : Variant) : Option Variant :=
  match a, b with
  | vector2 u, vector2 v =>
    (op.arithmetic? u v).map vector2 <|> (op.comparison? (u.lt v) (u.le v)).map bool
  | vector3 u, vector3 v => (op.arithmetic? u v).map vector3
  | color c, color d =>
    (op.arithmetic? c d).map color <|> (op.comparison? (c.lt d) (c.le d)).map bool
  | vector2 u, n => n.number?.bind fun s => (op.scaling? u s).map vector2
  | vector3 u, n => n.number?.bind fun s => (op.scaling? u s).map vector3
  | color c, n => n.number?.bind fun s => (op.scaling? c s).map color
  | n, vector2 u => if op = .mul then n.number?.map fun (s : Float) => vector2 (u * s) else none
  | n, vector3 u => if op = .mul then n.number?.map fun (s : Float) => vector3 (u * s) else none
  | n, color c => if op = .mul then n.number?.map fun (s : Float) => color (c * s) else none
  | _, _ => none

/-- The negative of a vector, and the complement of a colour. -/
def negate? : Variant → Option Variant
  | vector2 v => some (vector2 (-v))
  | vector3 v => some (vector3 (-v))
  | color c => some (color (-c))
  | _ => none

end Variant

end ScriptHost
