import ScriptHost.Geometry.Component

/-! Space vectors. Arithmetic is componentwise; there is no order. -/

namespace ScriptHost

structure Vector3 where
  x : Float
  y : Float
  z : Float

namespace Vector3

instance : BEq Vector3 := ⟨fun u v => u.x == v.x && u.y == v.y && u.z == v.z⟩

def zero : Vector3 := ⟨0, 0, 0⟩

instance : Inhabited Vector3 := ⟨zero⟩

def map (f : Float → Float) (v : Vector3) : Vector3 := ⟨f v.x, f v.y, f v.z⟩

def zip (f : Float → Float → Float) (u v : Vector3) : Vector3 := ⟨f u.x v.x, f u.y v.y, f u.z v.z⟩

instance : Add Vector3 := ⟨zip (· + ·)⟩
instance : Sub Vector3 := ⟨zip (· - ·)⟩
instance : Mul Vector3 := ⟨zip (· * ·)⟩
instance : Div Vector3 := ⟨zip (· / ·)⟩
instance : Neg Vector3 := ⟨map (- ·)⟩
instance : HMul Vector3 Float Vector3 := ⟨fun v s => v.map (· * s)⟩
instance : HDiv Vector3 Float Vector3 := ⟨fun v s => v.map (· / s)⟩

def dot (u v : Vector3) : Float := u.x * v.x + u.y * v.y + u.z * v.z

def cross (u v : Vector3) : Vector3 :=
  ⟨u.y * v.z - u.z * v.y, u.z * v.x - u.x * v.z, u.x * v.y - u.y * v.x⟩

def lengthSquared (v : Vector3) : Float := v.dot v

def length (v : Vector3) : Float := v.lengthSquared.sqrt

/-- The zero vector keeps its length. -/
def normalized (v : Vector3) : Vector3 := if v.length == 0 then v else v / v.length

def distanceTo (u v : Vector3) : Float := (v - u).length

def lerp (u v : Vector3) (weight : Float) : Vector3 := u + (v - u) * weight

def isNear (u v : Vector3) : Bool :=
  Geometry.near u.x v.x && Geometry.near u.y v.y && Geometry.near u.z v.z

def text (v : Vector3) : String := Geometry.tuple [v.x, v.y, v.z]

end ScriptHost.Vector3
