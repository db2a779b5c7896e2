import ScriptHost.Geometry.Vector2

/-! Axis-parallel rectangles, given by a corner and a size that may be negative. -/

namespace ScriptHost

structure Rect2 where
  position : Vector2
  size : Vector2

namespace Rect2

instance : BEq Rect2 := ⟨fun r s => r.position == s.position && r.size == s.size⟩

def zero : Rect2 := ⟨.zero, .zero⟩

instance : Inhabited Rect2 := ⟨zero⟩

/-- The corner opposite to the position. -/
def corner (r : Rect2) : Vector2 := r.position + r.size

/-- The rectangle with the same position that reaches to `corner`. -/
def withCorner (r : Rect2) (corner : Vector2) : Rect2 := { r with size := corner - r.position }

def area (r : Rect2) : Float := r.size.x * r.size.y

def center (r : Rect2) : Vector2 := r.position + r.size * (0.5 : Float)

def hasArea (r : Rect2) : Bool := 0 < r.size.x && 0 < r.size.y

/-- The far edges are outside. -/
def hasPoint (r : Rect2) (p : Vector2) : Bool :=
  r.position.x ≤ p.x && r.position.y ≤ p.y && p.x < r.corner.x && p.y < r.corner.y

def intersects (r s : Rect2) : Bool :=
  r.position.x < s.corner.x && s.position.x < r.corner.x &&
    r.position.y < s.corner.y && s.position.y < r.corner.y

def encloses (r s : Rect2) : Bool :=
  r.position.x ≤ s.position.x && r.position.y ≤ s.position.y &&
    s.corner.x ≤ r.corner.x && s.corner.y ≤ r.corner.y

/-- The least rectangle around both. -/
def merge (r s : Rect2) : Rect2 :=
  let position := Vector2.zip Geometry.least r.position s.position
  ⟨position, Vector2.zip Geometry.greatest r.corner s.corner - position⟩

def grow (r : Rect2) (amount : Float) : Rect2 :=
  ⟨r.position - ⟨amount, amount⟩, r.size + ⟨amount * 2, amount * 2⟩⟩

/-- The same rectangle with a size that is not negative. -/
def abs (r : Rect2) : Rect2 :=
  ⟨⟨r.position.x + Geometry.least r.size.x 0, r.position.y + Geometry.least r.size.y 0⟩,
    r.size.map Float.abs⟩

def text (r : Rect2) : String := "[P: " ++ r.position.text ++ ", S: " ++ r.size.text ++ "]"

end ScriptHost.Rect2
