import ScriptHost.Decimal.Numeral
import ScriptHost.Decimal.Shortest

/-! Numbers of scripts: integers of 64 bits that wrap, and floats. Comparisons
between the two are exact. -/

namespace ScriptHost.Number

/-- The integer that a float is equal to. -/
def integral? (x : Float) : Option Int64 :=
  if Decimal.isWhole x then
    let n := Decimal.wholePart x
    if Int64.minValue.toInt ≤ n ∧ n ≤ Int64.maxValue.toInt then some (Int64.ofInt n) else none
  else none

/-- The integer part of a float, if it has one of 64 bits. -/
def truncated? (x : Float) : Option Int64 :=
  match Decimal.read x with
  | .finite _ =>
    let n := Decimal.wholePart x
    if Int64.minValue.toInt ≤ n ∧ n ≤ Int64.maxValue.toInt then some (Int64.ofInt n) else none
  | _ => none

/-- How an integer lies to a float; a float that is no number lies nowhere. -/
def compareFloat (n : Int) (x : Float) : Option Ordering :=
  match Decimal.read x with
  | .nan => none
  | .infinite negative => some (if negative then .gt else .lt)
  | .finite b =>
    let m : Int := if b.negative then -b.mantissa else b.mantissa
    some (compare (n * Nat.pow 2 (-b.exponent).toNat) (m * Nat.pow 2 b.exponent.toNat))

/-! ### Comparison -/

open Decimal (Numeral)

def less : Numeral → Numeral → Bool
  | .int m, .int n => m < n
  | .float x, .float y => x < y
  | .int n, .float x => compareFloat n.toInt x == some .lt
  | .float x, .int n => compareFloat n.toInt x == some .gt

def lessOrEqual : Numeral → Numeral → Bool
  | .int m, .int n => m ≤ n
  | .float x, .float y => x ≤ y
  | .int n, .float x => (compareFloat n.toInt x).any (·.isLE)
  | .float x, .int n => (compareFloat n.toInt x).any (·.isGE)

/-! ### Arithmetic -/

def toFloat : Numeral → Float
  | .int n => n.toFloat
  | .float x => x

/-- What arithmetic refuses. -/
inductive Fault
  | divisionByZero
  | remainderByZero
deriving DecidableEq

def Fault.message : Fault → String
  | divisionByZero => "attempt to divide by zero"
  | remainderByZero => "attempt to perform 'n%0'"

/-- The exact remainder of a division toward zero, with the sign of the dividend. -/
def remainder (x y : Float) : Float :=
  match Decimal.read x, Decimal.read y with
  | .finite a, .finite b =>
    if b.mantissa = 0 then 0.0 / 0.0
    else
      let e := min a.exponent b.exponent
      let r := a.mantissa * Nat.pow 2 (a.exponent - e).toNat %
        (b.mantissa * Nat.pow 2 (b.exponent - e).toNat)
      let size := Decimal.scaled r true e
      if a.negative then -size else size
  | .finite _, .infinite _ => x
  | _, _ => 0.0 / 0.0

/-- The remainder of a division toward minus infinity. -/
def modulo (x y : Float) : Float :=
  let r := remainder x y
  if (0 < r ∧ y < 0) ∨ (r < 0 ∧ 0 < y) then r + y else r

def power (x y : Float) : Float := if y == 2 then x * x else Float.pow x y

def shiftLeft (x : UInt64) (n : Int) : UInt64 :=
  if n ≤ -64 ∨ 64 ≤ n then 0
  else if 0 ≤ n then x <<< UInt64.ofNat n.toNat
  else x >>> UInt64.ofNat (-n).toNat

end ScriptHost.Number
