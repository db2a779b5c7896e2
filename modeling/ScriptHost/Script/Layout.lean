import ScriptHost.Script.Tree

/-! Where the parts of a script stand. Each statement begins a line; the body of a
function begins on the line after its head and is followed by a line of its own. -/

namespace ScriptHost

mutual

/-- The line ends inside an expression. -/
def Expr.breaks (e : Expr) : Nat :=
  match e with
  | .index e key => e.breaks + key.breaks
  | .call f args => f.breaks + Expr.listBreaks args
  | .method object _ args => object.breaks + Expr.listBreaks args
  | .binary _ a b => a.breaks + b.breaks
  | .unary _ a => a.breaks
  | .table items entries => Expr.listBreaks items + Expr.entriesBreaks entries
  | .function _ body => Stmt.heights body + 1
  | .attempt e => e.breaks
  | _ => 0
termination_by structural e

def Expr.listBreaks (es : List Expr) : Nat :=
  match es with
  | [] => 0
  | e :: es => e.breaks + Expr.listBreaks es
termination_by structural es

def Expr.entriesBreaks (es : List (Expr × Expr)) : Nat :=
  match es with
  | [] => 0
  | e :: es => Expr.entryBreaks e + Expr.entriesBreaks es
termination_by structural es

def Expr.entryBreaks (e : Expr × Expr) : Nat :=
  match e with
  | (k, v) => k.breaks + v.breaks
termination_by structural e

/-- The lines of a statement. -/
def Stmt.height (s : Stmt) : Nat :=
  match s with
  | .assign _ e | .local _ e | .perform e | .raise e => 1 + e.breaks
  | .assignIndex e key value => 1 + e.breaks + key.breaks + value.breaks
  | .give values => 1 + Expr.listBreaks values
  | .cond c yes no => 1 + c.breaks + Stmt.heights yes + 1 + Stmt.heights no + 1
  | .count _ start stop body => 1 + start.breaks + stop.breaks + Stmt.heights body + 1
  | .loop c body => 1 + c.breaks + Stmt.heights body + 1
  | .protect _ _ f args => 1 + f.breaks + Expr.listBreaks args
  | .malformed => 1
termination_by structural s

def Stmt.heights (block : List Stmt) : Nat :=
  match block with
  | [] => 0
  | s :: rest => s.height + Stmt.heights rest
termination_by structural block

end

end ScriptHost
