import ScriptHost.Decimal.Binary

/-! The shortest decimal text of a floating-point number: the coarsest grid with a
point among the reals that round to the number, and of two such points the nearer,
the upper one on a tie. The text is positional, whatever the size. -/

namespace ScriptHost.Decimal

/-- The reals that round to a number, in units of a quarter of its last place:
`centre - below` to `centre + 2`, ends included if the mantissa is even. -/
structure Basin where
  centre : Nat
  below : Nat
  power : Int
  closed : Bool

/-- Below a power of two the next number is only half as far away. -/
def Binary.basin (b : Binary) : Basin where
  centre := 4 * b.mantissa
  below := if b.mantissa = Nat.pow 2 52 ∧ -1074 < b.exponent then 1 else 2
  power := b.exponent - 2
  closed := b.mantissa % 2 = 0

/-- Whether `n * 10 ^ g` rounds to the number. -/
def Basin.holds (r : Basin) (n : Nat) (g : Int) : Bool :=
  let point := n * (onGrid 1 r.power g).denominator
  let unit := (onGrid 1 r.power g).numerator
  let low := (r.centre - r.below) * unit
  let high := (r.centre + 2) * unit
  if r.closed then low ≤ point && point ≤ high else low < point && point < high

/-- The point of the grid of power `g` that rounds to the number and lies nearest. -/
def Basin.hit (r : Basin) (g : Int) : Option Nat :=
  let q := onGrid r.centre r.power g
  let n := q.floor
  match r.holds n g, r.holds (n + 1) g with
  | false, false => none
  | true, false => some n
  | false, true => some (n + 1)
  | true, true => some (if 2 * (q.numerator % q.denominator) < q.denominator then n else n + 1)

/-- The first hit on ever finer grids. Seventeen digits always reach one. -/
def Basin.search (r : Basin) : Nat → Int → Nat × Int
  | 0, g => ((onGrid r.centre r.power g).floor, g)
  | steps + 1, g =>
    match r.hit g with
    | some n => (n, g)
    | none => r.search steps (g - 1)

/-- Digits and power of ten of the shortest decimal. -/
def Binary.shortest (b : Binary) : Nat × Int :=
  if b.mantissa = 0 then (0, 0)
  else b.basin.search 22 (highPower b.mantissa b.exponent)

def digits (n : Nat) : List Char := Nat.toDigits 10 n

/-- The digits without the zeros at their end. -/
def dropZeros (cs : List Char) : List Char := (cs.reverse.dropWhile (· == '0')).reverse

/-- `n * 10 ^ g` written out, with a point only before a digit other than zero. -/
def positional (n : Nat) (g : Int) : String :=
  let ds := digits n
  if 0 ≤ g then String.ofList (ds ++ List.replicate (if n = 0 then 0 else g.toNat) '0')
  else
    let places := (-g).toNat
    let padded := List.replicate (places + 1 - ds.length) '0' ++ ds
    let whole := padded.take (padded.length - places)
    match dropZeros (padded.drop (padded.length - places)) with
    | [] => String.ofList whole
    | fraction => String.ofList (whole ++ '.' :: fraction)

def signed (negative : Bool) (text : String) : String := if negative then "-" ++ text else text

/-- The shortest text that reads back. -/
def shortest (x : Float) : String :=
  match read x with
  | .nan => "NaN"
  | .infinite negative => signed negative "inf"
  | .finite b => signed b.negative (positional b.shortest.1 b.shortest.2)

/-- Whether the number is finite and has no fraction. -/
def isWhole (x : Float) : Bool :=
  match read x with
  | .finite b => 0 ≤ b.exponent || b.mantissa % Nat.pow 2 (-b.exponent).toNat = 0
  | _ => false

/-- The number without its fraction. -/
def wholePart (x : Float) : Int :=
  match read x with
  | .finite b =>
    let n : Int := (onGrid b.mantissa b.exponent 0).floor
    if b.negative then -n else n
  | _ => 0

end ScriptHost.Decimal
