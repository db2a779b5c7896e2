import ScriptHost.Variant.Basic

/-! The text of a host value. Objects are shown by class and label, so the text
depends on the class names. -/

namespace ScriptHost

/-- The name of each object's class. -/
abbrev ClassNames := ObjectId → String

/-- An object as it is shown inside other texts. -/
def ObjectId.text (classOf : ClassNames) (o : ObjectId) : String := classOf o ++ "#@" ++ o.label

def Signal.text (classOf : ClassNames) (s : Signal) : String :=
  s.object.text classOf ++ "::[signal]" ++ s.name

def Callable.text (classOf : ClassNames) : Callable → String
  | method o name => o.text classOf ++ "::" ++ name
  | native f => f.name
  | script _ => "<lua function>"
  | bound target _ _ => target.text classOf ++ " (bound)"

namespace Variant

/-- Whole numbers below `1e15` are written with one digit after the point. -/
def floatText (x : Float) : String :=
  if Decimal.isWhole x && x.abs < 1e15 then
    Decimal.signed (x.toBits >>> 63 == 1) (toString (Decimal.wholePart x.abs) ++ ".0")
  else Decimal.shortest x

mutual

def text (classOf : ClassNames) (v : Variant) : String :=
  match v with
  | .nil => "<null>"
  | .bool b => if b then "true" else "false"
  | .int n => toString n.toInt
  | .float x => floatText x
  | .string s => s
  | .vector2 v => v.text
  | .vector3 v => v.text
  | .color c => c.text
  | .rect2 r => r.text
  | .plane p => p.text
  | .array items => "[" ++ ", ".intercalate (itemTexts classOf items) ++ "]"
  | .dictionary entries => "\x7b" ++ ", ".intercalate (entryTexts classOf entries) ++ "\x7d"
  | .object o => "<" ++ o.text classOf ++ ">"
  | .signal s => s.text classOf
  | .callable c => c.text classOf
termination_by structural v

def itemTexts (classOf : ClassNames) (items : List Variant) : List String :=
  match items with
  | [] => []
  | v :: rest => text classOf v :: itemTexts classOf rest
termination_by structural items

def entryTexts (classOf : ClassNames) (entries : List (Variant × Variant)) : List String :=
  match entries with
  | [] => []
  | e :: rest => entryText classOf e :: entryTexts classOf rest
termination_by structural entries

def entryText (classOf : ClassNames) (e : Variant × Variant) : String :=
  match e with
  | (k, v) => text classOf k ++ ": " ++ text classOf v
termination_by structural e

end

end Variant

end ScriptHost
