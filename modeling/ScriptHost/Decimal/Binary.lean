/-! Floating-point numbers as exact binary fractions, and decimal grids laid over
them. A grid of power `g` holds the multiples of `10 ^ g`; comparisons with grid
points are made in natural numbers. -/

namespace ScriptHost.Decimal

/-- `mantissa * 2 ^ exponent`, negated if `negative`. -/
structure Binary where
  negative : Bool
  mantissa : Nat
  exponent : Int
deriving DecidableEq

inductive Reading
  | nan
  | infinite (negative : Bool)
  | finite (b : Binary)
deriving DecidableEq

/-- Sign, eleven exponent bits and 52 fraction bits; the smallest exponent has no
leading one. -/
def ofBits (bits : Nat) : Reading :=
  let negative := bits / Nat.pow 2 63 = 1
  let exponent : Nat := bits / Nat.pow 2 52 % Nat.pow 2 11
  let fraction : Nat := bits % Nat.pow 2 52
  if exponent = 2047 then (if fraction = 0 then .infinite negative else .nan)
  else if exponent = 0 then .finite ⟨negative, fraction, -1074⟩
  else .finite ⟨negative, Nat.pow 2 52 + fraction, (exponent : Int) - 1075⟩

def read (x : Float) : Reading := ofBits x.toBits.toNat

/-- `numerator / denominator` stands for a positive rational, measured on the grid
of power `power`. -/
structure Ratio where
  numerator : Nat
  denominator : Nat

/-- The number `m * 2 ^ q` in units of `10 ^ g`. -/
def onGrid (m : Nat) (q g : Int) : Ratio :=
  ⟨m * Nat.pow 2 q.toNat * Nat.pow 10 (-g).toNat, Nat.pow 2 (-q).toNat * Nat.pow 10 g.toNat⟩

/-- The integer part. -/
def Ratio.floor (r : Ratio) : Nat := r.numerator / r.denominator

/-- The nearest integer, a half going to the even neighbour. -/
def Ratio.round (r : Ratio) : Nat :=
  let n := r.numerator / r.denominator
  let twice := 2 * (r.numerator % r.denominator)
  if twice < r.denominator then n
  else if r.denominator < twice then n + 1
  else n + n % 2

/-- No power of ten up to `m * 2 ^ q` exceeds `10 ^ highPower m q`. -/
def highPower (m : Nat) (q : Int) : Int :=
  ((m.log2 : Int) + q) * 30103 / 100000 + 2

/-- The greatest `e` with `10 ^ e ≤ m * 2 ^ q`, searched downward from `top`. -/
def magnitudeFrom (m : Nat) (q : Int) : Nat → Int → Int
  | 0, top => top
  | steps + 1, top => if 0 < (onGrid m q top).floor then top else magnitudeFrom m q steps (top - 1)

def magnitude (m : Nat) (q : Int) : Int := magnitudeFrom m q 6 (highPower m q)

end ScriptHost.Decimal
