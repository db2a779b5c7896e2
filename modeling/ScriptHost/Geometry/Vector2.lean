import ScriptHost.Geometry.Component

/-! Plane vectors. Arithmetic is componentwise, and the order is lexicographic. -/

namespace ScriptHost

structure Vector2 where
  x : Float
  y : Float

namespace Vector2

instance : BEq Vector2 := ⟨fun u v => u.x == v.x && u.y == v.y⟩

def zero : Vector2 := ⟨0, 0⟩

instance : Inhabited Vector2 := ⟨zero⟩

def map (f : Float → Float) (v : Vector2) : Vector2 := ⟨f v.x, f v.y⟩

def zip (f : Float → Float → Float) (u v : Vector2) : Vector2 := ⟨f u.x v.x, f u.y v.y⟩

instance : Add Vector2 := ⟨zip (· + ·)⟩
instance : Sub Vector2 := ⟨zip (· - ·)⟩
instance : Mul Vector2 := ⟨zip (· * ·)⟩
instance : Div Vector2 := ⟨zip (· / ·)⟩
instance : Neg Vector2 := ⟨map (- ·)⟩
instance : HMul Vector2 Float Vector2 := ⟨fun v s => v.map (· * s)⟩
instance : HDiv Vector2 Float Vector2 := ⟨fun v s => v.map (· / s)⟩

def dot (u v : Vector2) : Float := u.x * v.x + u.y * v.y

def cross (u v : Vector2) : Float := u.x * v.y - u.y * v.x

def lengthSquared (v : Vector2) : Float := v.x * v.x + v.y * v.y

def length (v : Vector2) : Float := v.lengthSquared.sqrt

/-- The zero vector keeps its length. -/
def normalized (v : Vector2) : Vector2 := if v.length == 0 then v else v / v.length

def distanceTo (u v : Vector2) : Float := (v - u).length

/-- From the positive first axis, in radians. -/
def angle (v : Vector2) : Float := Float.atan2 v.y v.x

def lerp (u v : Vector2) (weight : Float) : Vector2 := u + (v - u) * weight

def isNear (u v : Vector2) : Bool := Geometry.near u.x v.x && Geometry.near u.y v.y

def lt (u v : Vector2) : Bool := if u.x == v.x then u.y < v.y else u.x < v.x

def le (u v : Vector2) : Bool := if u.x == v.x then u.y ≤ v.y else u.x < v.x

def text (v : Vector2) : String := Geometry.tuple [v.x, v.y]

end ScriptHost.Vector2
