import ScriptHost.Geometry.Component

/-! Colours of red, green, blue and alpha. Components are not clamped, arithmetic is
componentwise, and the order is lexicographic. -/

namespace ScriptHost

structure Color where
  r : Float
  g : Float
  b : Float
  a : Float

namespace Color

instance : BEq Color := ⟨fun c d => c.r == d.r && c.g == d.g && c.b == d.b && c.a == d.a⟩

def black : Color := ⟨0, 0, 0, 1⟩

instance : Inhabited Color := ⟨black⟩

def map (f : Float → Float) (c : Color) : Color := ⟨f c.r, f c.g, f c.b, f c.a⟩

def zip (f : Float → Float → Float) (c d : Color) : Color :=
  ⟨f c.r d.r, f c.g d.g, f c.b d.b, f c.a d.a⟩

instance : Add Color := ⟨zip (· + ·)⟩
instance : Sub Color := ⟨zip (· - ·)⟩
instance : Mul Color := ⟨zip (· * ·)⟩
instance : Div Color := ⟨zip (· / ·)⟩
/-- The complement in all four components, alpha included. -/
instance : Neg Color := ⟨map (1 - ·)⟩
instance : HMul Color Float Color := ⟨fun c s => c.map (· * s)⟩
instance : HDiv Color Float Color := ⟨fun c s => c.map (· / s)⟩

/-- The complement at the same alpha. -/
def inverted (c : Color) : Color := ⟨1 - c.r, 1 - c.g, 1 - c.b, c.a⟩

def lerp (c d : Color) (weight : Float) : Color := c + (d - c) * weight

def luminance (c : Color) : Float := 0.2126 * c.r + 0.7152 * c.g + 0.0722 * c.b

def isNear (c d : Color) : Bool :=
  Geometry.near c.r d.r && Geometry.near c.g d.g && Geometry.near c.b d.b && Geometry.near c.a d.a

def lt (c d : Color) : Bool :=
  if c.r == d.r then
    if c.g == d.g then (if c.b == d.b then c.a < d.a else c.b < d.b) else c.g < d.g
  else c.r < d.r

def le (c d : Color) : Bool :=
  if c.r == d.r then
    if c.g == d.g then (if c.b == d.b then c.a ≤ d.a else c.b < d.b) else c.g < d.g
  else c.r < d.r

def text (c : Color) : String := Geometry.tuple [c.r, c.g, c.b, c.a]

end ScriptHost.Color
