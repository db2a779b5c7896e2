/-! Cutting text: blanks at the ends, pieces between separators, lines, and
letters of one case. -/

namespace ScriptHost.Text

/-- White space of any script. -/
def isBlank (c : Char) : Bool :=
  let n := c.toNat
  (0x09 ≤ n && n ≤ 0x0D) || n == 0x20 || n == 0x85 || n == 0xA0 || n == 0x1680 ||
    (0x2000 ≤ n && n ≤ 0x200A) || n == 0x2028 || n == 0x2029 || n == 0x202F || n == 0x205F ||
    n == 0x3000

def trimChars (cs : List Char) : List Char :=
  ((cs.dropWhile isBlank).reverse.dropWhile isBlank).reverse

/-- The text without blanks at either end. -/
def trim (s : String) : String := String.ofList (trimChars s.toList)

/-- The pieces between the characters that `sep` accepts; always at least one. -/
def piecesBy (sep : Char → Bool) : List Char → List (List Char)
  | [] => [[]]
  | c :: cs =>
    if sep c then [] :: piecesBy sep cs
    else match piecesBy sep cs with
      | [] => [[c]]
      | w :: ws => (c :: w) :: ws

def pieces (sep : Char → Bool) (s : String) : List String :=
  (piecesBy sep s.toList).map String.ofList

/-- The pieces without their outer blanks, empty ones left out. -/
def words (sep : Char → Bool) (s : String) : List String :=
  ((pieces sep s).map trim).filter (· ≠ "")

def isComma (c : Char) : Bool := c == ','

/-- The items of a list written with commas. -/
def items (s : String) : List String := words isComma s

/-- What stands before and after the first `sep`. -/
def cutAt (sep : Char) (s : String) : Option (String × String) :=
  match s.toList.span (· ≠ sep) with
  | (_, []) => none
  | (before, _ :: after) => some (String.ofList before, String.ofList after)

/-- A line loses the carriage return in front of its line feed. -/
def dropReturn (cs : List Char) : List Char :=
  if cs.getLast? = some '\r' then cs.dropLast else cs

/-- The lines of a text. The last line may lack its line feed, and then keeps a
carriage return. -/
def linesOf : List (List Char) → List String
  | [] => []
  | [last] => if last = [] then [] else [String.ofList last]
  | l :: ls => String.ofList (dropReturn l) :: linesOf ls

def lines (s : String) : List String := linesOf (piecesBy (· == '\n') s.toList)

/-- Letters `A` to `Z` made small; all others stay. -/
def lower (s : String) : String := String.ofList (s.toList.map Char.toLower)

/-- What stands before the first `mark`, and what follows it. -/
def cutAtMark (mark : List Char) : List Char → Option (List Char × List Char)
  | [] => if mark = [] then some ([], []) else none
  | c :: cs =>
    if mark.isPrefixOf (c :: cs) then some ([], (c :: cs).drop mark.length)
    else (cutAtMark mark cs).map fun (before, after) => (c :: before, after)

end ScriptHost.Text
