import ScriptHost.Script.Tree

/-! The local names that a part of a script takes from outside, and whether all of
it parses. -/

namespace ScriptHost

mutual

/-- The local names that occur free. -/
def Expr.free (e : Expr) : List String :=
  match e with
  | .local x => [x]
  | .index e key => e.free ++ key.free
  | .call f args => f.free ++ Expr.listFree args
  | .method object _ args => object.free ++ Expr.listFree args
  | .binary _ a b => a.free ++ b.free
  | .unary _ a => a.free
  | .table items entries => Expr.listFree items ++ Expr.entriesFree entries
  | .function params body => (Stmt.blockFree body).filter fun x => !params.contains x
  | .attempt e => e.free
  | _ => []
termination_by structural e

def Expr.listFree (es : List Expr) : List String :=
  match es with
  | [] => []
  | e :: es => e.free ++ Expr.listFree es
termination_by structural es

def Expr.entriesFree (es : List (Expr × Expr)) : List String :=
  match es with
  | [] => []
  | e :: es => Expr.entryFree e ++ Expr.entriesFree es
termination_by structural es

def Expr.entryFree (e : Expr × Expr) : List String :=
  match e with
  | (k, v) => k.free ++ v.free
termination_by structural e

/-- The names that occur free in a statement, and the name that it binds behind it. -/
def Stmt.free (s : Stmt) : List String :=
  match s with
  | .assign _ e | .local _ e | .perform e | .raise e => e.free
  | .assignIndex e key value => e.free ++ key.free ++ value.free
  | .give values => Expr.listFree values
  | .cond c yes no => c.free ++ Stmt.blockFree yes ++ Stmt.blockFree no
  | .count x start stop body => start.free ++ stop.free ++ (Stmt.blockFree body).filter (· ≠ x)
  | .loop c body => c.free ++ Stmt.blockFree body
  | .protect _ _ f args => f.free ++ Expr.listFree args
  | .malformed => []
termination_by structural s

/-- A local name is bound in the statements behind its own. -/
def Stmt.blockFree (block : List Stmt) : List String :=
  match block with
  | [] => []
  | s :: rest =>
    s.free ++ match s with
      | .local x _ => (Stmt.blockFree rest).filter (· ≠ x)
      | _ => Stmt.blockFree rest
termination_by structural block

end

mutual

def Expr.parses (e : Expr) : Bool :=
  match e with
  | .index e key => e.parses && key.parses
  | .call f args => f.parses && Expr.listParses args
  | .method object _ args => object.parses && Expr.listParses args
  | .binary _ a b => a.parses && b.parses
  | .unary _ a => a.parses
  | .table items entries => Expr.listParses items && Expr.entriesParse entries
  | .function _ body => Stmt.blockParses body
  | .attempt e => e.parses
  | _ => true
termination_by structural e

def Expr.listParses (es : List Expr) : Bool :=
  match es with
  | [] => true
  | e :: es => e.parses && Expr.listParses es
termination_by structural es

def Expr.entriesParse (es : List (Expr × Expr)) : Bool :=
  match es with
  | [] => true
  | e :: es => Expr.entryParses e && Expr.entriesParse es
termination_by structural es

def Expr.entryParses (e : Expr × Expr) : Bool :=
  match e with
  | (k, v) => k.parses && v.parses
termination_by structural e

def Stmt.parses (s : Stmt) : Bool :=
  match s with
  | .assign _ e | .local _ e | .perform e | .raise e => e.parses
  | .assignIndex e key value => e.parses && key.parses && value.parses
  | .give values => Expr.listParses values
  | .cond c yes no => c.parses && Stmt.blockParses yes && Stmt.blockParses no
  | .count _ start stop body => start.parses && stop.parses && Stmt.blockParses body
  | .loop c body => c.parses && Stmt.blockParses body
  | .protect _ _ f args => f.parses && Expr.listParses args
  | .malformed => false
termination_by structural s

/-- A chunk parses if no statement in it is malformed, at any depth. -/
def Stmt.blockParses (block : List Stmt) : Bool :=
  match block with
  | [] => true
  | s :: rest => s.parses && Stmt.blockParses rest
termination_by structural block

end

end ScriptHost
