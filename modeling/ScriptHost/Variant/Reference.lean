import ScriptHost.Variant.Basic

/-! What a host value holds on to: the objects and the script functions in it, each as
often as it occurs. -/

namespace ScriptHost

inductive Reference
  | object (o : ObjectId)
  | function (f : ScriptFunction)
deriving DecidableEq

namespace Reference

def function? : Reference → Option ScriptFunction
  | function f => some f
  | object _ => none

def object? : Reference → Option ObjectId
  | object o => some o
  | function _ => none

end Reference

mutual

def Variant.references (v : Variant) : List Reference :=
  match v with
  | .array items => Variant.listReferences items
  | .dictionary entries => Variant.entriesReferences entries
  | .object o => [.object o]
  | .signal s => [.object s.object]
  | .callable c => Callable.references c
  | _ => []
termination_by structural v

def Variant.listReferences (vs : List Variant) : List Reference :=
  match vs with
  | [] => []
  | v :: rest => Variant.references v ++ Variant.listReferences rest
termination_by structural vs

def Variant.entriesReferences (es : List (Variant × Variant)) : List Reference :=
  match es with
  | [] => []
  | e :: rest => Variant.entryReferences e ++ Variant.entriesReferences rest
termination_by structural es

def Variant.entryReferences (e : Variant × Variant) : List Reference :=
  match e with
  | (k, v) => Variant.references k ++ Variant.references v
termination_by structural e

def Callable.references (c : Callable) : List Reference :=
  match c with
  | .method o _ => [.object o]
  | .native _ => []
  | .script f => [.function f]
  | .bound target extra _ => Callable.references target ++ Variant.listReferences extra
termination_by structural c

end

end ScriptHost
