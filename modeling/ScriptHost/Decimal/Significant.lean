import ScriptHost.Decimal.Shortest

/-! Numbers rounded to fourteen significant digits, the text that scripts see.
Ties go to the even digit; the text is positional from `1e-4` to below `1e14`, and
whole numbers end in `.0`. -/

namespace ScriptHost.Decimal

def significantDigits : Nat := 14

/-- Digits and power of ten of the number rounded to `places` digits, the first of
which is not zero. -/
def Binary.rounded (b : Binary) (places : Nat) : Nat × Int :=
  let e := magnitude b.mantissa b.exponent
  let g := e - (places - 1 : Nat)
  let n := (onGrid b.mantissa b.exponent g).round
  if n = Nat.pow 10 places then (Nat.pow 10 (places - 1), g + 1) else (n, g)

/-- One digit, the others after a point, and an exponent of two digits or more. -/
def scientific (n : Nat) (g : Int) : String :=
  let ds := digits n
  let e := g + (ds.length - 1 : Nat)
  let head := String.ofList (ds.take 1)
  let tail := dropZeros (ds.drop 1)
  let point := if tail = [] then "" else "." ++ String.ofList tail
  let power := digits e.natAbs
  let padded := List.replicate (2 - power.length) '0' ++ power
  head ++ point ++ (if e < 0 then "e-" else "e+") ++ String.ofList padded

def Binary.significant (b : Binary) : String :=
  if b.mantissa = 0 then "0.0"
  else
    let (n, g) := b.rounded significantDigits
    let e := g + (significantDigits - 1 : Nat)
    if e < -4 ∨ significantDigits ≤ e then scientific n g
    else
      let text := positional n g
      if text.toList.contains '.' then text else text ++ ".0"

/-- The text of a number in a script. -/
def significant (x : Float) : String :=
  match read x with
  | .nan => "nan"
  | .infinite negative => signed negative "inf"
  | .finite b => signed b.negative b.significant

end ScriptHost.Decimal
