import Mathlib.Data.List.Nodup
import ScriptHost.Machine.Activation
import ScriptHost.Machine.Operation
import ScriptHost.Proofs.Party.Values

/-! Values and tables of scripts as one side of a session sees them: only the numbers of
interpreters differ, which nothing reads but equality. -/

namespace ScriptHost

variable {p : Party}

/-! ### Values -/

def Value.view (p : Party) : Value → Value
  | .function f => .function (f.view p)
  | v => v

namespace Value

@[simp] theorem view_table (id : Nat) : (table id).view p = table id := rfl

@[simp] theorem view_box (id : Nat) : (box id).view p = box id := rfl

@[simp] theorem view_function (f : ScriptFunction) : (function f).view p = function (f.view p) :=
  rfl

@[simp] theorem view_inj {v w : Value} : v.view p = w.view p ↔ v = w := by
  cases v <;> cases w <;> simp [view, ScriptFunction.view_inj]

theorem view_injective (p : Party) : Function.Injective (view p) := fun _ _ => view_inj.mp

@[simp] theorem view_eq_nil {v : Value} : v.view p = .nil ↔ v = .nil := by
  cases v <;> simp [view]

@[simp] theorem isNil_view (v : Value) : (v.view p).isNil = v.isNil := by cases v <;> rfl

@[simp] theorem truth_view (v : Value) : (v.view p).truth = v.truth := by cases v <;> rfl

@[simp] theorem basicType_view (v : Value) : (v.view p).basicType = v.basicType := by
  cases v <;> rfl

@[simp] theorem hostType_view (v : Value) : (v.view p).hostType = v.hostType := by cases v <;> rfl

@[simp] theorem numeral?_view (v : Value) : (v.view p).numeral? = v.numeral? := by cases v <;> rfl

@[simp] theorem spelt?_view (v : Value) : (v.view p).spelt? = v.spelt? := by cases v <;> rfl

@[simp] theorem textual?_view (v : Value) : (v.view p).textual? = v.textual? := by cases v <;> rfl

@[simp] theorem integer?_view (v : Value) : (v.view p).integer? = v.integer? := by cases v <;> rfl

@[simp] theorem view_ofNumeral (n : Decimal.Numeral) : (ofNumeral n).view p = ofNumeral n := by
  cases n <;> rfl

@[simp] theorem same_view (v w : Value) : (v.view p).same (w.view p) = v.same w := by
  cases v <;> cases w <;> first
    | rfl
    | simp [view, same, ScriptFunction.view_inj, beq_eq_decide]

@[simp] theorem view_literal (l : Literal) : l.value.view p = l.value := by cases l <;> rfl

@[simp] theorem view_counter (c : Counter) : c.value.view p = c.value := by cases c <;> rfl

end Value

/-! ### Keys -/

def Key.view (p : Party) : Key → Key
  | .function f => .function (f.view p)
  | key => key

namespace Key

@[simp] theorem view_inj {k l : Key} : k.view p = l.view p ↔ k = l := by
  cases k <;> cases l <;> simp [view, ScriptFunction.view_inj]

theorem view_injective (p : Party) : Function.Injective (view p) := fun _ _ => view_inj.mp

@[simp] theorem toValue_view (k : Key) : (k.view p).toValue = k.toValue.view p := by
  cases k <;> rfl

theorem ofValue_view (v : Value) : ofValue (v.view p) = (ofValue v).map (view p) := by
  cases v with
  | float x =>
    show ofValue (.float x) = _
    dsimp only [ofValue]
    split <;> rfl
  | _ => rfl

@[simp] theorem view_eq_int {k : Key} {n : Int64} : k.view p = .int n ↔ k = .int n := by
  cases k <;> simp [view]

end Key

/-! ### Tables -/

namespace Table

/-- An entry as the party sees it. -/
def entryView (p : Party) (e : Key × Value) : Key × Value := (e.1.view p, e.2.view p)

def view (p : Party) (t : Table) : Table where
  entries := t.entries.map (entryView p)
  meta? := t.meta?
  hint := t.hint
  proper := by
    constructor
    · rw [List.map_map]
      have keys : Prod.fst ∘ entryView p = Key.view p ∘ Prod.fst := rfl
      rw [keys, ← List.map_map]
      exact List.Nodup.map (Key.view_injective p) t.proper.distinct
    · intro e he
      obtain ⟨x, hx, rfl⟩ := List.mem_map.mp he
      exact fun h => t.proper.filled x hx (Value.view_eq_nil.mp h)

theorem ext_of {t u : Table} (he : t.entries = u.entries) (hm : t.meta? = u.meta?)
    (hh : t.hint = u.hint) : t = u := by
  cases t
  cases u
  cases he
  cases hm
  cases hh
  rfl

@[simp] theorem view_empty : Table.empty.view p = Table.empty := rfl

@[simp] theorem meta?_view (t : Table) : (t.view p).meta? = t.meta? := rfl

@[simp] theorem hint_view (t : Table) : (t.view p).hint = t.hint := rfl

@[simp] theorem entries_view (t : Table) : (t.view p).entries = t.entries.map (entryView p) := rfl

theorem view_withMeta (t : Table) (m : Option Nat) :
    ({ t with meta? := m } : Table).view p = { t.view p with meta? := m } := rfl

theorem lookup_view (key : Key) (es : List (Key × Value)) :
    lookup (key.view p) (es.map (entryView p)) = (lookup key es).view p := by
  induction es with
  | nil => rfl
  | cons e rest ih =>
    simp only [List.map_cons, entryView, lookup, Key.view_inj] at ih ⊢
    split
    · rfl
    · exact ih

theorem insert_view (key : Key) (value : Value) (es : List (Key × Value)) :
    insert (key.view p) (value.view p) (es.map (entryView p)) =
      (insert key value es).map (entryView p) := by
  induction es with
  | nil => rfl
  | cons e rest ih =>
    simp only [List.map_cons, entryView, insert, Key.view_inj] at ih ⊢
    split
    · rfl
    · rw [ih, List.map_cons, entryView]

theorem erase_view (key : Key) (es : List (Key × Value)) :
    erase (key.view p) (es.map (entryView p)) = (erase key es).map (entryView p) := by
  induction es with
  | nil => rfl
  | cons e rest ih =>
    simp only [List.map_cons, entryView, erase, Key.view_inj] at ih ⊢
    split
    · rfl
    · rw [ih, List.map_cons, entryView]

theorem get_view (t : Table) (key : Key) : (t.view p).get (key.view p) = (t.get key).view p :=
  lookup_view key t.entries

@[simp] theorem getString_view (t : Table) (name : String) :
    (t.view p).getString name = (t.getString name).view p :=
  t.get_view (.ofString name)

@[simp] theorem getValue_view (t : Table) (key : Value) :
    (t.view p).getValue (key.view p) = (t.getValue key).view p := by
  unfold getValue
  rw [Key.ofValue_view]
  cases Key.ofValue key with
  | error fault => rfl
  | ok k => exact t.get_view k

theorem set_view (t : Table) (key : Key) (value : Value) :
    (t.view p).set (key.view p) (value.view p) = (t.set key value).view p := by
  by_cases hv : value = .nil
  · rw [set, dif_pos (Value.view_eq_nil.mpr hv), set, dif_pos hv]
    exact ext_of (erase_view key t.entries) rfl rfl
  · rw [set, dif_neg (mt Value.view_eq_nil.mp hv), set, dif_neg hv]
    exact ext_of (insert_view key value t.entries) rfl rfl

theorem setItems_view (t : Table) (n : Nat) (items : List Value) :
    (t.view p).setItems n (items.map (Value.view p)) = (t.setItems n items).view p := by
  induction items generalizing t n with
  | nil => rfl
  | cons v rest ih =>
    rw [List.map_cons, setItems, setItems, ← ih, ← set_view]
    rfl

theorem holds_view (t : Table) (n : Nat) : (t.view p).holds n = t.holds n := by
  have seen := t.get_view (p := p) (.int (Int64.ofNat n))
  have nil : ((t.view p).get (.int (Int64.ofNat n))).isNil = (t.get (.int (Int64.ofNat n))).isNil :=
    (congrArg Value.isNil seen).trans (Value.isNil_view _)
  rw [holds, holds, nil]

theorem sweep_view (es : List (Key × Value)) : sweep (es.map (entryView p)) = sweep es := by
  unfold sweep
  rw [List.foldl_map]
  congr 1
  funext n e
  simp [entryView]

theorem climb_view (t : Table) (fuel n : Nat) : (t.view p).climb fuel n = t.climb fuel n := by
  induction fuel generalizing n with
  | zero => rfl
  | succ fuel ih => rw [climb, climb, holds_view, ih]

theorem bisect_view (t : Table) (fuel low high : Nat) :
    (t.view p).bisect fuel low high = t.bisect fuel low high := by
  induction fuel generalizing low high with
  | zero => rfl
  | succ fuel ih => rw [bisect, bisect, holds_view, ih, ih]

@[simp] theorem border_view (t : Table) : (t.view p).border = t.border := by
  rw [border, border, hint_view, holds_view, holds_view, climb_view, bisect_view, entries_view,
    sweep_view, List.length_map]

@[simp] theorem declared?_view (t : Table) : (t.view p).declared? = t.declared? := by
  have declared : lengthOf ((t.view p).get Heap.lengthKey) = lengthOf (t.get Heap.lengthKey) := by
    have seen : (t.view p).get Heap.lengthKey = (t.get Heap.lengthKey).view p :=
      t.get_view Heap.lengthKey
    rw [seen, lengthOf, lengthOf, Value.spelt?_view]
  rw [declared?, declared?, declared]
  rfl

@[simp] theorem extent_view (t : Table) : (t.view p).extent = t.extent := by
  unfold extent
  rw [declared?_view, border_view, entries_view, List.length_map]
  rfl

theorem fits_view (size : Nat) (counted : Bool) (key : Key) :
    fits size counted (key.view p) = fits size counted key := by
  cases key <;> rfl

theorem slots?_view (t : Table) : (t.view p).slots? = t.slots?.map (·.map (Value.view p)) := by
  have items : (List.range t.extent).map (fun i => (t.view p).get (.int (Int64.ofNat (i + 1)))) =
      ((List.range t.extent).map fun i => t.get (.int (Int64.ofNat (i + 1)))).map
        (Value.view p) := by
    rw [List.map_map]
    exact List.map_congr_left fun i _ => t.get_view (.int (Int64.ofNat (i + 1)))
  have all : (t.view p).entries.all (fun e => fits t.extent t.declared?.isSome e.1) =
      t.entries.all fun e => fits t.extent t.declared?.isSome e.1 := by
    rw [entries_view, List.all_map]
    congr 1
    funext e
    exact fits_view _ _ e.1
  have shape : (t.view p).shape? = t.shape? := rfl
  unfold slots?
  rw [extent_view, declared?_view, items, all, shape, entries_view, List.length_map]
  split
  · rfl
  · split
    · rfl
    · split <;> rfl

end Table

end ScriptHost
