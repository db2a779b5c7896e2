import ScriptHost.Geometry.Vector3

/-! Planes in normal form: the points `p` with `normal · p = d`. -/

namespace ScriptHost

structure Plane where
  normal : Vector3
  d : Float

namespace Plane

instance : BEq Plane := ⟨fun p q => p.normal == q.normal && p.d == q.d⟩

def zero : Plane := ⟨.zero, 0⟩

instance : Inhabited Plane := ⟨zero⟩

/-- Through three points, wound clockwise. -/
def ofPoints (p q r : Vector3) : Plane :=
  let normal := ((p - r).cross (p - q)).normalized
  ⟨normal, normal.dot p⟩

def distanceTo (s : Plane) (p : Vector3) : Float := s.normal.dot p - s.d

def isPointOver (s : Plane) (p : Vector3) : Bool := 0 < s.distanceTo p

def hasPoint (s : Plane) (p : Vector3) (tolerance : Float) : Bool :=
  (s.distanceTo p).abs ≤ tolerance

def project (s : Plane) (p : Vector3) : Vector3 := p - s.normal * s.distanceTo p

/-- A plane without a normal becomes the zero plane. -/
def normalized (s : Plane) : Plane :=
  let length := s.normal.length
  if length == 0 then zero else ⟨s.normal / length, s.d / length⟩

def text (s : Plane) : String := "[N: " ++ s.normal.text ++ ", D: " ++ Geometry.component s.d ++ "]"

end ScriptHost.Plane
