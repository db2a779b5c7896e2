/-! Numerals in script text: decimal and hexadecimal integers of 64 bits, and
decimal and hexadecimal fractions with exponents. A decimal integer out of range
reads as a float; a hexadecimal one wraps. Spaces may stand at either end. -/

namespace ScriptHost.Decimal

inductive Numeral
  | int (n : Int64)
  | float (x : Float)

/-- Space, tab, line feed, vertical tab, form feed and carriage return. -/
def isSpace (c : Char) : Bool := c == ' ' || (9 ≤ c.toNat && c.toNat ≤ 13)

def digitValue (c : Char) : Nat :=
  if c.isDigit then c.toNat - 48 else c.toLower.toNat - 87

def isHexDigit (c : Char) : Bool := c.isDigit || ('a' ≤ c.toLower && c.toLower ≤ 'f')

def valueIn (base : Nat) (ds : List Char) : Nat := ds.foldl (fun n c => n * base + digitValue c) 0

/-- A sign, if any, and what follows it. -/
def signOf : List Char → Bool × List Char
  | '-' :: cs => (true, cs)
  | '+' :: cs => (false, cs)
  | cs => (false, cs)

/-- Digits before and after a point, and the rest. At least one digit is needed. -/
def mantissaOf (isDigit : Char → Bool) (cs : List Char) : Option (List Char × List Char × List Char) :=
  let whole := cs.takeWhile isDigit
  let rest := cs.dropWhile isDigit
  let (fraction, rest) := match rest with
    | '.' :: after => (after.takeWhile isDigit, after.dropWhile isDigit)
    | _ => ([], rest)
  if whole = [] ∧ fraction = [] then none else some (whole, fraction, rest)

/-- An exponent after `mark`, zero if there is none; nothing may follow it. -/
def exponentOf (mark : Char) : List Char → Option Int
  | [] => some 0
  | c :: cs =>
    if c.toLower ≠ mark then none
    else
      let (negative, ds) := signOf cs
      if ds = [] ∨ ¬ ds.all Char.isDigit then none
      else
        let n : Int := valueIn 10 ds
        some (if negative then -n else n)

/-- `n * base ^ e`, rounded once. Exponents beyond every float are cut to where
they make no difference. -/
def scaled (n : Nat) (binary : Bool) (e : Int) : Float :=
  let e := max (-20000) (min 20000 e)
  if n = 0 then 0.0
  else if binary then
    if 0 ≤ e then Float.ofScientific (n * Nat.pow 2 e.toNat) false 0
    else Float.ofScientific (n * Nat.pow 5 (-e).toNat) true (-e).toNat
  else Float.ofScientific n (e < 0) e.natAbs

def unsigned (cs : List Char) : Option Numeral :=
  match cs with
  | '0' :: x :: hs =>
    if x.toLower = 'x' then do
      let (whole, fraction, rest) ← mantissaOf isHexDigit hs
      if fraction = [] ∧ rest = [] ∧ ¬ hs.contains '.' then
        return .int (Int64.ofNat (valueIn 16 whole))
      let e ← exponentOf 'p' rest
      return .float (scaled (valueIn 16 (whole ++ fraction)) true (e - 4 * fraction.length))
    else decimal cs
  | _ => decimal cs
where
  decimal (cs : List Char) : Option Numeral := do
    let (whole, fraction, rest) ← mantissaOf Char.isDigit cs
    if fraction = [] ∧ rest = [] ∧ ¬ cs.contains '.' ∧ valueIn 10 whole < Nat.pow 2 63 then
      return .int (Int64.ofNat (valueIn 10 whole))
    let e ← exponentOf 'e' rest
    return .float (scaled (valueIn 10 (whole ++ fraction)) false (e - fraction.length))

def Numeral.negate : Numeral → Numeral
  | .int n => .int (-n)
  | .float x => .float (-x)

/-- The number that `s` spells. The least integer is spelt with its sign. -/
def numeral? (s : String) : Option Numeral :=
  let body := ((s.toList.dropWhile isSpace).reverse.dropWhile isSpace).reverse
  let (negative, cs) := signOf body
  if negative then
    if cs ≠ [] ∧ cs.all Char.isDigit ∧ valueIn 10 cs = Nat.pow 2 63 then some (.int Int64.minValue)
    else (unsigned cs).map Numeral.negate
  else unsigned cs

/-- An unsigned number of at most `bits` bits in decimal digits, with an optional plus. -/
def natural? (bits : Nat) (s : String) : Option Nat :=
  let ds := match s.toList with
    | '+' :: ds => ds
    | ds => ds
  if ds = [] ∨ ¬ ds.all Char.isDigit ∨ Nat.pow 2 bits ≤ valueIn 10 ds then none else some (valueIn 10 ds)

end ScriptHost.Decimal
