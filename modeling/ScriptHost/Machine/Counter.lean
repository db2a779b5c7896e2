import ScriptHost.Machine.Value

/-! How a loop counts from one number up to another: in integers if it begins with one,
and in floats otherwise. -/

namespace ScriptHost

inductive Counter
  | int (current : Int64) (left : Nat)
  | float (current limit : Float)

namespace Counter

open Decimal (Numeral)

/-- The last integer that a count reaches, if it reaches any. -/
def lastInteger? (start : Int64) : Numeral → Option Int64
  | .int n => if start ≤ n then some n else none
  | .float x =>
    match Number.compareFloat Int64.maxValue.toInt x with
    | none => none
    | some .lt | some .eq => some Int64.maxValue
    | some .gt =>
      match Number.integral? x.floor with
      | some n => if start ≤ n then some n else none
      | none => none

/-- The count from `start` to `limit`, if there is anything to count. A float that is
no number is beyond no limit. -/
def start? (start limit : Numeral) : Option Counter :=
  match start with
  | .int n => (lastInteger? n limit).map fun last => int n (last.toInt - n.toInt).toNat
  | .float x =>
    let limit := Number.toFloat limit
    if limit < x then none else some (float x limit)

def value : Counter → Value
  | int n _ => .int n
  | float x _ => .float x

/-- The count with the next number. -/
def next? : Counter → Option Counter
  | int _ 0 => none
  | int n (left + 1) => some (int (n + 1) left)
  | float x limit => if x + 1 ≤ limit then some (float (x + 1) limit) else none

end Counter

end ScriptHost
