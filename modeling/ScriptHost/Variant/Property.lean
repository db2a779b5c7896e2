import ScriptHost.Variant.Basic

/-! Reading and writing the parts of a host value by key: elements of an array by
index, entries of a dictionary by any key, and the properties of structured
values by name. What an object holds is its own affair, so here it has nothing. -/

namespace ScriptHost.Variant

/-- A property of a structured value. -/
def property? : Variant → String → Option Variant
  | vector2 v, "x" => some (float v.x)
  | vector2 v, "y" => some (float v.y)
  | vector3 v, "x" => some (float v.x)
  | vector3 v, "y" => some (float v.y)
  | vector3 v, "z" => some (float v.z)
  | color c, "r" => some (float c.r)
  | color c, "g" => some (float c.g)
  | color c, "b" => some (float c.b)
  | color c, "a" => some (float c.a)
  | rect2 r, "position" => some (vector2 r.position)
  | rect2 r, "size" => some (vector2 r.size)
  | rect2 r, "end" => some (vector2 r.corner)
  | plane p, "normal" => some (vector3 p.normal)
  | plane p, "d" => some (float p.d)
  | plane p, "x" => some (float p.normal.x)
  | plane p, "y" => some (float p.normal.y)
  | plane p, "z" => some (float p.normal.z)
  | _, _ => none

/-- The value with one component replaced by a number. -/
def withComponent? (v : Variant) (name : String) (n : Float) : Option Variant :=
  match v, name with
  | vector2 v, "x" => some (vector2 { v with x := n })
  | vector2 v, "y" => some (vector2 { v with y := n })
  | vector3 v, "x" => some (vector3 { v with x := n })
  | vector3 v, "y" => some (vector3 { v with y := n })
  | vector3 v, "z" => some (vector3 { v with z := n })
  | color c, "r" => some (color { c with r := n })
  | color c, "g" => some (color { c with g := n })
  | color c, "b" => some (color { c with b := n })
  | color c, "a" => some (color { c with a := n })
  | plane p, "d" => some (plane { p with d := n })
  | plane p, "x" => some (plane { p with normal := { p.normal with x := n } })
  | plane p, "y" => some (plane { p with normal := { p.normal with y := n } })
  | plane p, "z" => some (plane { p with normal := { p.normal with z := n } })
  | _, _ => none

/-- The value with one vector property replaced. -/
def withVector? (v : Variant) (name : String) (value : Variant) : Option Variant :=
  match v, name, value with
  | plane p, "normal", vector3 n => some (plane { p with normal := n })
  | rect2 r, "position", vector2 u => some (rect2 { r with position := u })
  | rect2 r, "size", vector2 u => some (rect2 { r with size := u })
  | rect2 r, "end", vector2 u => some (rect2 (r.withCorner u))
  | _, _, _ => none

/-- The value with a property replaced; refused if there is no such property or the
new value has the wrong kind. -/
def withProperty? (v : Variant) (name : String) (value : Variant) : Option Variant :=
  match value.number? with
  | some n => v.withComponent? name n
  | none => v.withVector? name value

/-- The place of an index in an array of `size` elements. -/
def slot? (size : Nat) (i : Int64) : Option Nat :=
  if 0 ≤ i.toInt ∧ i.toInt < size then some i.toInt.toNat else none

/-- The value of the first entry with an equal key. -/
def lookup (entries : List (Variant × Variant)) (key : Variant) : Option Variant :=
  (entries.find? fun e => e.1.same key).map (·.2)

/-- A new key comes last; a known one keeps its place. -/
def insertEntry (key value : Variant) : List (Variant × Variant) → List (Variant × Variant)
  | [] => [(key, value)]
  | e :: rest => if e.1.same key then (e.1, value) :: rest else e :: insertEntry key value rest

/-- What `key` reaches; nil if it reaches nothing. -/
def get (v key : Variant) : Variant :=
  match v, key with
  | array items, int i => ofOption ((slot? items.length i).bind fun n => items[n]?)
  | dictionary entries, key => ofOption (lookup entries key)
  | v, string name => ofOption (v.property? name)
  | _, _ => nil

/-- The value after a write; a refused write gives none. -/
def set? (v key value : Variant) : Option Variant :=
  match v, key with
  | array items, int i => (slot? items.length i).map fun n => array (items.set n value)
  | dictionary entries, key => some (dictionary (insertEntry key value entries))
  | v, string name => v.withProperty? name value
  | _, _ => none

theorem isBoxed_of_withProperty? {v value w : Variant} {name : String}
    (h : v.withProperty? name value = some w) : w.isBoxed = true := by
  unfold withProperty? at h
  split at h
  · unfold withComponent? at h
    split at h <;> cases h <;> rfl
  · unfold withVector? at h
    split at h <;> cases h <;> rfl

theorem isBoxed_of_set? {v key value w : Variant} (hv : v.isBoxed = true)
    (h : v.set? key value = some w) : w.isBoxed = true := by
  unfold set? at h
  split at h
  · cases hv
  · cases hv
  · exact isBoxed_of_withProperty? h
  · cases h

end ScriptHost.Variant
