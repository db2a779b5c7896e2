import ScriptHost.Decimal.Shortest

/-! Rules for single components: least and greatest, nearness, and their text. -/

namespace ScriptHost.Geometry

/-- The lesser of two numbers; of equal ones, as zeros are, the second. What is no number
loses. -/
def least (a b : Float) : Float := if b.isNaN || a < b then a else b

/-- The greater of two numbers; of equal ones the second. What is no number loses. -/
def greatest (a b : Float) : Float := if b.isNaN || b < a then a else b

def tolerance : Float := 0.00001

/-- Equal, or closer than a hundred-thousandth of the first, never finer than that. -/
def near (a b : Float) : Bool :=
  a == b || (a - b).abs < greatest (tolerance * a.abs) tolerance

/-- Whole components below `1e15` are written without a fraction. -/
def component (x : Float) : String :=
  if Decimal.isWhole x && x.abs < 1e15 then toString (Decimal.wholePart x) else Decimal.shortest x

def tuple (xs : List Float) : String := "(" ++ ", ".intercalate (xs.map component) ++ ")"

end ScriptHost.Geometry
