/-! Scripts as trees. Every call yields one value; a chunk is a list of statements. -/

namespace ScriptHost

inductive BinaryOperator
  | add | sub | mul | div | idiv | mod | pow | concat
  | band | bor | bxor | shl | shr
  | eq | ne | lt | le | gt | ge
deriving DecidableEq

inductive UnaryOperator
  | minus | length | complement | not
deriving DecidableEq

mutual

inductive Expr where
  | nil
  | bool (b : Bool)
  | int (n : Int64)
  | float (x : Float)
  | string (bytes : ByteArray)
  | global (name : String)
  /-- A local name; where it is not bound it means the global one. -/
  | local (name : String)
  | index (e key : Expr)
  | call (f : Expr) (args : List Expr)
  /-- The method is looked up before the arguments are evaluated. -/
  | method (object : Expr) (name : String) (args : List Expr)
  | binary (op : BinaryOperator) (a b : Expr)
  | unary (op : UnaryOperator) (a : Expr)
  /-- A new table of items, counted from one, and of entries. -/
  | table (items : List Expr) (entries : List (Expr × Expr))
  /-- A new table of the arguments behind the named ones. -/
  | varargs
  /-- The parameter `...` takes all further arguments. -/
  | function (params : List String) (body : List Stmt)
  /-- A new table that tells whether `e` failed, and its value or its error. -/
  | attempt (e : Expr)

inductive Stmt where
  | assign (name : String) (e : Expr)
  | local (name : String) (e : Expr)
  | assignIndex (e key value : Expr)
  | perform (e : Expr)
  | give (values : List Expr)
  | cond (c : Expr) (yes no : List Stmt)
  /-- Counts up by one, both ends included. -/
  | count (name : String) (start stop : Expr) (body : List Stmt)
  | loop (c : Expr) (body : List Stmt)
  | raise (e : Expr)
  /-- Calls the global `pcall` with a function and its arguments, and assigns its first
  two results to globals. -/
  | protect (ok value : String) (f : Expr) (args : List Expr)
  /-- A statement that does not parse. -/
  | malformed

end

/-- A chunk or the body of a function. -/
abbrev Block := List Stmt

instance : Inhabited Expr := ⟨.nil⟩
instance : Inhabited Stmt := ⟨.malformed⟩

/-- The parameter that takes all further arguments. -/
def variadic : String := "..."

end ScriptHost
