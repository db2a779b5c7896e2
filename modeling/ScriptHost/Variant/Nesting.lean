import ScriptHost.Variant.Basic

/-! How deep a value lies in containers that hold it alone, and values wrapped that way. -/

namespace ScriptHost.Variant

mutual

/-- How many containers of one member surround the innermost value, and that value.
Inside a dictionary it is the value of the entry that counts. -/
def peel (v : Variant) : Nat × Variant :=
  match v with
  | .array items => peelItems items
  | .dictionary entries => peelEntries entries
  | v => (0, v)
termination_by structural v

def peelItems (items : List Variant) : Nat × Variant :=
  match items with
  | [] => (0, .array [])
  | v :: rest =>
    if rest.isEmpty then
      let (n, inner) := peel v
      (n + 1, inner)
    else (0, .array (v :: rest))
termination_by structural items

def peelEntries (entries : List (Variant × Variant)) : Nat × Variant :=
  match entries with
  | [] => (0, .dictionary [])
  | e :: rest =>
    if rest.isEmpty then
      let (n, inner) := peelEntry e
      (n + 1, inner)
    else (0, .dictionary (e :: rest))
termination_by structural entries

def peelEntry (e : Variant × Variant) : Nat × Variant :=
  match e with
  | (_, v) => peel v
termination_by structural e

end

/-- The value inside `n` arrays of one element. -/
def nestArray (v : Variant) : Nat → Variant
  | 0 => v
  | n + 1 => array [nestArray v n]

/-- The value inside `n` dictionaries of the one key `key`. -/
def nestDictionary (key : String) (v : Variant) : Nat → Variant
  | 0 => v
  | n + 1 => dictionary [(string key, nestDictionary key v n)]

end ScriptHost.Variant
