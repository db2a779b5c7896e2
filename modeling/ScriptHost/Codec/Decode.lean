import ScriptHost.Codec.Encode
import ScriptHost.Text.Lossy

/-! Script values as host values. A table without a mark is an array if its keys are
exactly the numbers from one on, and otherwise a dictionary; a mark decides between
the two, within limits. What has no host counterpart becomes nil, or is refused when
reading strictly. -/

namespace ScriptHost

/-- Tables nested deeper than this are not read. -/
def depthLimit : Nat := 128

/-- How many elements an array may lack. -/
def holeLimit : Nat := 4096

namespace Table

inductive Shape
  | array | dictionary
deriving DecidableEq

/-- The shape that the metatable marks. -/
def shape? (t : Table) : Option Shape :=
  if t.meta? = some Heap.arrayMark then some .array
  else if t.meta? = some Heap.dictionaryMark then some .dictionary
  else none

/-- A declared length: an integer, or what reads as a number, without its fraction. -/
def lengthOf (v : Value) : Option Int64 :=
  match v.spelt? with
  | some (.int n) => some n
  | some (.float x) => Number.truncated? x
  | none => none

/-- The length that a marked array declares. -/
def declared? (t : Table) : Option Int64 :=
  if t.shape? = some .array then lengthOf (t.get Heap.lengthKey) else none

/-- The number of elements if the table is an array. A marked one reaches to its
declared length or to its border, whichever is further. -/
def extent (t : Table) : Nat :=
  if t.shape? = some .array then
    max ((t.declared?.map fun n => n.toInt.toNat).getD 0) t.border
  else t.entries.length

/-- Whether an array of `size` elements may have this key. -/
def fits (size : Nat) (counted : Bool) : Key → Bool
  | .int n => 1 ≤ n.toInt && n.toInt ≤ size
  | key => counted && key = Heap.lengthKey

/-- The elements, nil where there is a hole, if the table is an array. -/
def slots? (t : Table) : Option (List Value) :=
  if t.shape? = some .dictionary then none
  else if t.entries.length + holeLimit < t.extent then none
  else if t.entries.all fun e => fits t.extent t.declared?.isSome e.1 then
    some ((List.range t.extent).map fun i => t.get (.int (Int64.ofNat (i + 1))))
  else none

end Table

namespace Heap

/-- What happens to a value that has no host counterpart. -/
def unsupported (strict : Bool) (what : String) : Except Refusal Variant :=
  if strict then .error (.noCounterpart what) else .ok .nil

/-- The host value of a script value of interpreter `owner`, in which tables nest at
most `depth` deep. -/
def decodeTo (strict : Bool) (owner : Nat) (h : Heap) (depth : Nat) (v : Value) :
    Except Refusal Variant :=
  match v with
  | .nil => .ok .nil
  | .bool b => .ok (.bool b)
  | .int n => .ok (.int n)
  | .float x => .ok (.float x)
  | .string bytes => .ok (.string (Text.ofBytes bytes))
  | .function f => .ok (.callable (.script ⟨owner, f.address⟩))
  | .box id =>
    match h.boxed? id with
    | some v => .ok v
    | none => unsupported strict "userdata"
  | .table id =>
    match depth with
    | 0 => unsupported strict "deeply nested table"
    | depth + 1 =>
      match (h.table id).slots? with
      | some items => (items.mapM (decodeTo strict owner h depth)).map .array
      | none =>
        ((h.table id).entries.mapM fun (e : Key × Value) => do
          let key ← decodeTo strict owner h depth e.1.toValue
          let value ← decodeTo strict owner h depth e.2
          return (key, value)).map .dictionary
  | v => unsupported strict v.hostType
termination_by structural depth

def decodeStrict (owner : Nat) (h : Heap) (v : Value) : Except Refusal Variant :=
  decodeTo true owner h depthLimit v

/-- Nothing is refused: what cannot be read is nil. -/
def decode (owner : Nat) (h : Heap) (v : Value) : Variant :=
  match decodeTo false owner h depthLimit v with
  | .ok v => v
  | .error _ => .nil

end Heap

end ScriptHost
