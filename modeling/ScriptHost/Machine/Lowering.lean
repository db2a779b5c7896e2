import ScriptHost.Machine.Code
import ScriptHost.Script.Layout
import ScriptHost.Script.Names

/-! The code of a script. Every step stands on the line on which the text that calls for
it ends; operators and calls stand on the line of their sign. Operands that are at
hand, as numbers and local variables are, take no step. -/

namespace ScriptHost

/-- The local names of a function, innermost first, and those that it takes from
around it. -/
structure Scope where
  locals : List String
  captured : List String

namespace Scope

def slot? (s : Scope) (x : String) : Option Slot :=
  (s.locals.idxOf? x).map .local <|> (s.captured.idxOf? x).map .captured

def bind (s : Scope) (x : String) : Scope := { s with locals := x :: s.locals }

/-- The scope behind a statement. -/
def after (s : Scope) : Stmt → Scope
  | .local x _ => s.bind x
  | _ => s

/-- The names that a function takes from this scope. -/
def taken (s : Scope) (names : List String) : List String :=
  names.eraseDups.filter fun x => (s.slot? x).isSome

/-- The variable that a local name means. -/
def origin (s : Scope) (x : String) : Origin :=
  match s.slot? x with
  | some (.local _) => .local x
  | some (.captured _) => .upvalue x
  | none => .global x

end Scope

/-- The name of a field. Keys that are no constants have none. -/
def Expr.fieldName : Expr → String
  | .string bytes => Origin.nameOf bytes
  | .int n => if 0 ≤ n ∧ n ≤ 255 then "integer index" else "?"
  | _ => "?"

/-- Where the value of an expression comes from. -/
def Expr.origin? (s : Scope) : Expr → Option Origin
  | .global x => some (.global x)
  | .local x => some (s.origin x)
  | .index _ key => some (.field key.fieldName)
  | .string bytes => some (.constant (Origin.nameOf bytes))
  | _ => none

/-- A concatenation takes part in the one to its left; its result lies where its first
operand was. -/
def Expr.joined : Expr → Expr
  | .binary .concat a _ => a
  | e => e

/-- The line of the last sign in a row of concatenations. -/
def Expr.joinLine (e : Expr) (line : Nat) : Nat :=
  match e with
  | .binary .concat a b => b.joinLine (line + a.breaks)
  | _ => line
termination_by structural e

/-- The line of an operator between two operands, the first of which begins on `line`.
A comparison is made where its second operand ends. -/
def BinaryOperator.line (op : BinaryOperator) (a b : Expr) (line : Nat) : Nat :=
  match op with
  | eq | ne | lt | le | gt | ge => line + a.breaks + b.breaks
  | concat => b.joinLine (line + a.breaks)
  | _ => line + a.breaks

def BinaryOperator.rightOrigin? (op : BinaryOperator) (s : Scope) (b : Expr) : Option Origin :=
  match op with
  | concat => b.joined.origin? s
  | _ => b.origin? s

/-- A condition that is known to hold. -/
def Expr.holds : Expr → Bool
  | .bool b => b
  | .int _ | .float _ | .string _ => true
  | _ => false

/-- An operand that is at hand: a number, or a local variable of the function itself. It
takes no room of its own. -/
def Expr.isAtHand (s : Scope) : Expr → Bool
  | .int _ | .float _ => true
  | .local x => s.locals.contains x
  | _ => false

/-- The code for two operands, of which the first, if it is at hand, waits for the second. -/
def Instr.operands (waits : Bool) (first second : List Instr) : List Instr :=
  if waits then second ++ first ++ [⟨none, .swap⟩] else first ++ second

/-- Constants have a line where they take a step. -/
def Instr.constant (step : Bool) (line : Nat) (v : Literal) : Instr :=
  ⟨if step then some line else none, .constant v⟩

/-- The end of a function with `n` results. -/
def Instr.finish (line n : Nat) : Instr := ⟨some line, .give n⟩

/-- How many items a table takes at once while it is being made. -/
def batch : Nat := 50

/-- How many of the items are not yet in the table when its entries are written. -/
def pendingItems (items : List Expr) : Nat := items.length % batch

/-- A whole batch is stored as soon as its last item is there. -/
def batchEnd (count line : Nat) : List Instr :=
  if count % batch = 0 then [⟨some line, .items (count - batch + 1) batch⟩] else []

/-- The last items, which are stored at the end. -/
def lastItems (items : List Expr) (line : Nat) : List Instr :=
  let n := pendingItems items
  if n = 0 then [] else [⟨some line, .items (items.length - n + 1) n⟩]

/-- The local variables of a block that end with it. -/
def Stmt.unbind (block : List Stmt) : List Instr :=
  match (block.filter fun | .local _ _ => true | _ => false).length with
  | 0 => []
  | n => [⟨none, .unbind n⟩]

/-- The line of the last word in front of the end of a block. -/
def Stmt.lastLine (head : Nat) (block : List Stmt) : Nat := head + Stmt.heights block

mutual

/-- The code that puts the value of an expression on the stack. -/
def Expr.code (e : Expr) (s : Scope) (line : Nat) (step : Bool) : List Instr :=
  match e with
  | .nil => [.constant true line .nil]
  | .bool b => [.constant true line (.bool b)]
  | .int n => [.constant step line (.int n)]
  | .float x => [.constant step line (.float x)]
  | .string bytes => [.constant true line (.string bytes)]
  | .global x => [⟨some line, .global x⟩]
  | .local x =>
    match s.slot? x with
    | some (.local i) => [⟨if step then some line else none, .variable (.local i)⟩]
    | some slot => [⟨some line, .variable slot⟩]
    | none => [⟨some line, .global x⟩]
  | .index e key =>
    Instr.operands (e.isAtHand s) (e.code s line false) (key.code s (line + e.breaks) false) ++
      [⟨some (line + e.breaks + key.breaks), .index (e.origin? s)⟩]
  | .call f args =>
    f.code s line true ++ Expr.listCode args s (line + f.breaks) ++
      [⟨some (line + f.breaks), .call args.length 1 (f.origin? s)⟩]
  | .method object name args =>
    object.code s line false ++
      [⟨some (line + object.breaks), .method name (object.origin? s)⟩] ++
      Expr.listCode args s (line + object.breaks) ++
      [⟨some (line + object.breaks), .call (args.length + 1) 1 (some (.method name))⟩]
  | .binary op a b =>
    Instr.operands (op ≠ .concat && a.isAtHand s) (a.code s line (op = .concat))
        (b.code s (line + a.breaks) (op = .concat)) ++
      [⟨some (op.line a b line), .binary op (a.origin? s) (op.rightOrigin? s b)⟩]
  | .unary op a => a.code s line false ++ [⟨some line, .unary op (a.origin? s)⟩]
  | .table items entries =>
    ⟨some line, .newTable⟩ :: Expr.itemsCode items s line 0 ++
      Expr.entriesCode entries s (line + Expr.listBreaks items) (pendingItems items) ++
      lastItems items (line + Expr.listBreaks items + Expr.entriesBreaks entries)
  | .varargs => [⟨some line, .rest⟩]
  | .function params body =>
    let names := s.taken (Expr.free (.function params body))
    let own := params.filter (· ≠ variadic)
    let last := line + 1 + Stmt.heights body
    let code := Stmt.blockCode body ⟨own.reverse, names⟩ (line + 1) ++ [.finish last 0]
    [⟨some last, .closure ⟨own.length, params.contains variadic, names.filterMap s.slot?, line,
      code.toArray⟩⟩]
  | .attempt e =>
    let names := s.taken e.free
    let last := line + e.breaks
    let code := e.code ⟨[], names⟩ line true ++ [.finish last 1]
    [⟨some last, .attempt ⟨0, false, names.filterMap s.slot?, line, code.toArray⟩⟩]
termination_by structural e

def Expr.listCode (es : List Expr) (s : Scope) (line : Nat) : List Instr :=
  match es with
  | [] => []
  | e :: es => e.code s line true ++ Expr.listCode es s (line + e.breaks)
termination_by structural es

/-- The items of a table behind `count` others. -/
def Expr.itemsCode (es : List Expr) (s : Scope) (line count : Nat) : List Instr :=
  match es with
  | [] => []
  | e :: es =>
    e.code s line true ++ batchEnd (count + 1) (line + e.breaks) ++
      Expr.itemsCode es s (line + e.breaks) (count + 1)
termination_by structural es

def Expr.entriesCode (es : List (Expr × Expr)) (s : Scope) (line pending : Nat) : List Instr :=
  match es with
  | [] => []
  | e :: es =>
    Expr.entryCode e s line ++ [⟨some (line + Expr.entryBreaks e), .entry pending⟩] ++
      Expr.entriesCode es s (line + Expr.entryBreaks e) pending
termination_by structural es

def Expr.entryCode (e : Expr × Expr) (s : Scope) (line : Nat) : List Instr :=
  match e with
  | (k, v) => k.code s line false ++ v.code s (line + k.breaks) false
termination_by structural e

/-- The code of a statement that begins on `line`. -/
def Stmt.code (st : Stmt) (s : Scope) (line : Nat) : List Instr :=
  match st with
  | .assign x e => e.code s line false ++ [⟨some (line + e.breaks), .setGlobal x⟩]
  | .local _ e => e.code s line true ++ [⟨none, .bind⟩]
  | .assignIndex e key value =>
    e.code s line false ++ key.code s (line + e.breaks) false ++
      value.code s (line + e.breaks + key.breaks) false ++
      [⟨some (line + e.breaks + key.breaks + value.breaks), .setIndex (e.origin? s)⟩]
  | .perform e => e.code s line true ++ [⟨none, .drop⟩]
  | .give values =>
    Expr.listCode values s line ++ [⟨some (line + Expr.listBreaks values), .give values.length⟩]
  | .cond c yes no =>
    let head := line + c.breaks
    let middle := head + 1 + Stmt.heights yes
    let first := Stmt.blockCode yes s (head + 1) ++ Stmt.unbind yes
    let second := Stmt.blockCode no s (middle + 1) ++ Stmt.unbind no
    let test := if c.holds then [] else
      c.code s line false ++ [⟨some head, .skipUnless (first.length + 1)⟩]
    test ++ first ++ [⟨some (Stmt.lastLine head yes), .skip second.length⟩] ++ second
  | .count x start stop body =>
    let head := line + start.breaks + stop.breaks
    let round := Stmt.blockCode body (s.bind x) (head + 1) ++ Stmt.unbind body
    start.code s line true ++ stop.code s (line + start.breaks) true ++
      [⟨some head, .count (round.length + 1)⟩] ++ round ++ [⟨some line, .recount round.length⟩]
  | .loop c body =>
    let head := line + c.breaks
    let round := Stmt.blockCode body s (head + 1) ++ Stmt.unbind body
    let test := if c.holds then [] else
      c.code s line false ++ [⟨some head, .skipUnless (round.length + 1)⟩]
    test ++ round ++ [⟨some (Stmt.lastLine head body), .back (test.length + round.length)⟩]
  | .raise e =>
    let callee := Origin.global "error"
    [⟨some line, .global "error"⟩] ++ e.code s line true ++
      [.constant true (line + e.breaks) (.int 0), ⟨some line, .call 2 0 (some callee)⟩]
  | .protect ok value f args =>
    let last := line + f.breaks + Expr.listBreaks args
    [⟨some line, .global "pcall"⟩] ++ f.code s line true ++
      Expr.listCode args s (line + f.breaks) ++
      [⟨some line, .call (args.length + 1) 2 (some (.global "pcall"))⟩,
        ⟨some last, .setGlobal value⟩, ⟨some last, .setGlobal ok⟩]
  | .malformed => []
termination_by structural st

def Stmt.blockCode (block : List Stmt) (s : Scope) (line : Nat) : List Instr :=
  match block with
  | [] => []
  | st :: rest => st.code s line ++ Stmt.blockCode rest (s.after st) (line + st.height)
termination_by structural block

end

namespace Prototype

/-- A chunk ends on its last line. -/
def ofChunk (body : Block) : Prototype :=
  let code := Stmt.blockCode body ⟨[], []⟩ 1 ++ [.finish (max 1 (Stmt.heights body)) 0]
  ⟨0, true, [], 1, code.toArray⟩

/-- The function that gives the value of an expression; it has a line for its head. -/
def ofExpr (e : Expr) : Prototype :=
  let code := Stmt.code (.give [e]) ⟨[], []⟩ 2
  ⟨0, false, [], 1, code.toArray⟩

end Prototype

end ScriptHost
