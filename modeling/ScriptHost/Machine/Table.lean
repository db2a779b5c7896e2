import ScriptHost.Machine.Value

/-! Tables: entries with distinct keys, and perhaps a metatable. Floats equal to an
integer are that integer as a key; nil and what is not a number are no keys. The items
end before a gap; where there are several, the place at which the search begins decides. -/

namespace ScriptHost

/-- A number that no integer is equal to. -/
def Number.Uneven (x : Float) : Prop := x.isNaN = false ∧ Number.integral? x = none

inductive Key
  | bool (b : Bool)
  | int (n : Int64)
  | float (x : Float) (uneven : Number.Uneven x)
  | string (bytes : ByteArray)
  | table (id : Nat)
  | function (f : ScriptFunction)
  | box (id : Nat)
  | thread (id : Nat)
  | stream (id : Nat)
  | fault (id : Nat) (e : ScriptError)
deriving DecidableEq

/-- Why a value is no key. -/
inductive KeyFault
  | isNil
  | isNaN
deriving DecidableEq

def KeyFault.message : KeyFault → String
  | isNil => "table index is nil"
  | isNaN => "table index is NaN"

namespace Key

def ofValue : Value → Except KeyFault Key
  | .nil => .error .isNil
  | .bool b => .ok (bool b)
  | .int n => .ok (int n)
  | .float x =>
    match nan : x.isNaN, even : Number.integral? x with
    | true, _ => .error .isNaN
    | false, some n => .ok (int n)
    | false, none => .ok (float x ⟨nan, even⟩)
  | .string bytes => .ok (string bytes)
  | .table id => .ok (table id)
  | .function f => .ok (function f)
  | .box id => .ok (box id)
  | .thread id => .ok (thread id)
  | .stream id => .ok (stream id)
  | .fault id e => .ok (fault id e)

def toValue : Key → Value
  | bool b => .bool b
  | int n => .int n
  | float x _ => .float x
  | string bytes => .string bytes
  | table id => .table id
  | function f => .function f
  | box id => .box id
  | thread id => .thread id
  | stream id => .stream id
  | fault id e => .fault id e

def ofString (s : String) : Key := string s.toUTF8

end Key

/-- No two entries have the same key, and none holds nil. -/
structure Table.Proper (entries : List (Key × Value)) : Prop where
  distinct : (entries.map (·.1)).Nodup
  filled : ∀ e ∈ entries, e.2 ≠ .nil

/-- The number of the last item that has one, `2 ^ 63 - 1`. -/
def Heap.lastItem : Nat := 9223372036854775807

theorem Heap.ofNat_inj {m n : Nat} (hm : m ≤ Heap.lastItem + 1) (hn : n ≤ Heap.lastItem + 1)
    (h : Int64.ofNat m = Int64.ofNat n) : m = n := by
  have small {k : Nat} (hk : k ≤ Heap.lastItem + 1) : k < UInt64.size :=
    Nat.lt_of_le_of_lt hk (by decide)
  have h : m % UInt64.size = n % UInt64.size := congrArg (fun i => i.toUInt64.toNat) h
  rwa [Nat.mod_eq_of_lt (small hm), Nat.mod_eq_of_lt (small hn)] at h

/-- `hint` is where the end of the items is looked for first: how many there was room for when
the table was made. -/
structure Table where
  entries : List (Key × Value)
  meta? : Option Nat
  hint : Nat := 0
  proper : Table.Proper entries

namespace Table

theorem Proper.nil : Proper [] := ⟨List.nodup_nil, by simp⟩

theorem Proper.sublist {es fs : List (Key × Value)} (h : Proper fs) (hs : es.Sublist fs) :
    Proper es :=
  ⟨h.distinct.sublist (hs.map _), fun e he => h.filled e (hs.subset he)⟩

def empty : Table := { entries := [], meta? := none, proper := .nil }

instance : Inhabited Table := ⟨empty⟩

def lookup (key : Key) : List (Key × Value) → Value
  | [] => .nil
  | (k, v) :: rest => if k = key then v else lookup key rest

/-- A known key keeps its place, a new one comes last. -/
def insert (key : Key) (value : Value) : List (Key × Value) → List (Key × Value)
  | [] => [(key, value)]
  | (k, v) :: rest => if k = key then (k, value) :: rest else (k, v) :: insert key value rest

def erase (key : Key) : List (Key × Value) → List (Key × Value)
  | [] => []
  | (k, v) :: rest => if k = key then rest else (k, v) :: erase key rest

theorem keys_insert (key : Key) (value : Value) (es : List (Key × Value)) :
    (insert key value es).map (·.1) =
      if key ∈ es.map (·.1) then es.map (·.1) else es.map (·.1) ++ [key] := by
  induction es with
  | nil => simp [insert]
  | cons e rest ih =>
    by_cases h : e.1 = key
    · simp [insert, h]
    · have h' : ¬ key = e.1 := fun hk => h hk.symm
      simp only [insert, h, if_false, List.map_cons, ih, List.mem_cons, h', false_or]
      split <;> simp

theorem mem_insert {key : Key} {value : Value} {e : Key × Value} {es : List (Key × Value)}
    (he : e ∈ insert key value es) : e = (key, value) ∨ e ∈ es := by
  induction es with
  | nil => simpa [insert] using he
  | cons x rest ih =>
    simp only [insert] at he
    split at he
    next hk =>
      rcases List.mem_cons.mp he with rfl | he
      · exact .inl (by rw [hk])
      · exact .inr (List.mem_cons_of_mem _ he)
    next =>
      rcases List.mem_cons.mp he with rfl | he
      · exact .inr List.mem_cons_self
      · exact (ih he).imp_right (List.mem_cons_of_mem _)

theorem Proper.insert {es : List (Key × Value)} (h : Proper es) (key : Key) {value : Value}
    (hv : value ≠ .nil) : Proper (insert key value es) := by
  constructor
  · rw [keys_insert]
    split
    · exact h.distinct
    next hk => exact List.nodup_append.mpr ⟨h.distinct, by simp, by rintro a ha b hb rfl; simp_all⟩
  · intro e he
    rcases mem_insert he with rfl | he
    · exact hv
    · exact h.filled e he

theorem erase_sublist (key : Key) (es : List (Key × Value)) : (erase key es).Sublist es := by
  induction es with
  | nil => exact .slnil
  | cons e rest ih =>
    simp only [erase]
    split
    · exact List.sublist_cons_self _ _
    · exact ih.cons_cons _

def get (t : Table) (key : Key) : Value := lookup key t.entries

def getString (t : Table) (key : String) : Value := t.get (.ofString key)

/-- Nil at a value that is no key. -/
def getValue (t : Table) (key : Value) : Value :=
  match Key.ofValue key with
  | .ok k => t.get k
  | .error _ => .nil

/-- Writing nil removes the entry. -/
def set (t : Table) (key : Key) (value : Value) : Table :=
  if h : value = .nil then
    { t with entries := erase key t.entries, proper := t.proper.sublist (erase_sublist _ _) }
  else { t with entries := insert key value t.entries, proper := t.proper.insert key h }

/-- The items in order, counted from `n`. There is room for the last one. -/
def setItems (t : Table) (n : Nat) : List Value → Table
  | [] => { t with hint := n - 1 }
  | v :: rest => setItems (t.set (.int (Int64.ofNat n)) v) (n + 1) rest

def holds (t : Table) (n : Nat) : Bool :=
  n ≤ Heap.lastItem && !(t.get (.int (Int64.ofNat n))).isNil

/-- An item before a gap, or zero where the first item is missing. -/
def IsBorder (t : Table) (n : Nat) : Prop :=
  (n = 0 ∨ t.holds n = true) ∧ t.holds (n + 1) = false

/-- The last of the items that follow item `n` without a gap. -/
def climb (t : Table) : Nat → Nat → Nat
  | 0, n => n
  | fuel + 1, n => if t.holds (n + 1) then climb t fuel (n + 1) else n

/-- The last item reached by one walk through the entries, each next item being
further on. -/
def sweep (entries : List (Key × Value)) : Nat :=
  entries.foldl (fun n e =>
    if n < Heap.lastItem ∧ e.1 = .int (Int64.ofNat (n + 1)) then n + 1 else n) 0

/-- The end of the items between `low`, which is there or zero, and `high`, which is not. -/
def bisect (t : Table) : Nat → Nat → Nat → Nat
  | 0, low, _ => low
  | fuel + 1, low, high =>
    if high ≤ low + 1 then low
    else if t.holds ((low + high) / 2) then bisect t fuel ((low + high) / 2) high
    else bisect t fuel low ((low + high) / 2)

/-- The end of the items: from the hint on, if that item is there, and below it otherwise. -/
def border (t : Table) : Nat :=
  if t.hint = 0 ∨ t.holds t.hint = true then
    t.climb t.entries.length (max t.hint (sweep t.entries))
  else if 1 < t.hint ∧ t.holds (t.hint - 1) = true then t.hint - 1
  else t.bisect t.hint 0 t.hint

end Table

end ScriptHost
