import ScriptHost.Variant.Basic

/-! Building structured values from the arguments of a script. Any number of
arguments is taken; a missing one, or one of the wrong kind, counts as zero. -/

namespace ScriptHost

/-- The first five arguments of a call and how many there were. -/
structure Arguments where
  slots : List Variant
  count : Nat

namespace Arguments

def capacity : Nat := 5

def ofList (args : List Variant) : Arguments := ⟨args.take capacity, args.length⟩

def isEmpty (args : Arguments) : Bool := args.count == 0

/-- Nil where there is none. -/
def get (args : Arguments) (i : Nat) : Variant := Variant.ofOption args.slots[i]?

/-- Zero where there is no number. -/
def number (args : Arguments) (i : Nat) : Float := (args.get i).number?.getD 0

end Arguments

def Vector2.construct (args : Arguments) : Vector2 := ⟨args.number 0, args.number 1⟩

def Vector3.construct (args : Arguments) : Vector3 := ⟨args.number 0, args.number 1, args.number 2⟩

/-- From three components, opaque, or from four; otherwise black. -/
def Color.construct (args : Arguments) : Color :=
  if args.count = 3 then ⟨args.number 0, args.number 1, args.number 2, 1⟩
  else if 4 ≤ args.count then ⟨args.number 0, args.number 1, args.number 2, args.number 3⟩
  else .black

/-- From position and size, or from four numbers; otherwise zero. -/
def Rect2.construct (args : Arguments) : Rect2 :=
  let ofNumbers : Rect2 := if 4 ≤ args.count
    then ⟨⟨args.number 0, args.number 1⟩, ⟨args.number 2, args.number 3⟩⟩ else .zero
  if args.count = 2 then
    match args.get 0, args.get 1 with
    | .vector2 position, .vector2 size => ⟨position, size⟩
    | _, _ => ofNumbers
  else ofNumbers

/-- From three points, from a normal and a distance, or from four numbers;
otherwise zero. -/
def Plane.construct (args : Arguments) : Plane :=
  let ofNumbers : Plane := if 4 ≤ args.count
    then ⟨⟨args.number 0, args.number 1, args.number 2⟩, args.number 3⟩ else .zero
  if args.count = 3 then
    match args.get 0, args.get 1, args.get 2 with
    | .vector3 p, .vector3 q, .vector3 r => .ofPoints p q r
    | _, _, _ => ofNumbers
  else if args.count = 2 then
    match args.get 0 with
    | .vector3 normal => ⟨normal, args.number 1⟩
    | _ => ofNumbers
  else ofNumbers

/-- The structured kinds that scripts can build. -/
inductive Structured
  | vector2 | vector3 | color | rect2 | plane
deriving DecidableEq

namespace Structured

def all : List Structured := [vector2, vector3, color, rect2, plane]

def kind : Structured → Kind
  | vector2 => .vector2 | vector3 => .vector3 | color => .color | rect2 => .rect2 | plane => .plane

/-- The global name of the constructor. -/
def name (s : Structured) : String := s.kind.name

def construct (s : Structured) (args : Arguments) : Variant :=
  match s with
  | vector2 => .vector2 (.construct args)
  | vector3 => .vector3 (.construct args)
  | color => .color (.construct args)
  | rect2 => .rect2 (.construct args)
  | plane => .plane (.construct args)

end Structured

end ScriptHost
