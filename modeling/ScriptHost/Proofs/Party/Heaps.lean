import ScriptHost.Machine.Target
import ScriptHost.Proofs.Codec.Reading
import ScriptHost.Proofs.Party.Methods
import ScriptHost.Proofs.Party.Tables

/-! The heap of an interpreter as its side of a session sees it, and host values on their way into
it and out of it. -/

namespace ScriptHost

variable {p : Party} {α : Type}

/-! ### Cells -/

namespace Function

def view (p : Party) : Function → Function
  | closure q captured chunk => closure q (captured.map (Value.view p)) chunk
  | f => f

/-- A function that makes objects does so for the party. -/
def Owned (p : Party) : Function → Prop
  | factory o => p.object o = true
  | _ => True

end Function

namespace Boxed

def view (p : Party) (b : Boxed) : Boxed := ⟨b.value.view p, (b.value.isBoxed_view).trans b.isBoxed⟩

theorem ext_of {b c : Boxed} (h : b.value = c.value) : b = c := by
  cases b
  cases c
  cases h
  rfl

theorem set?_view (b : Boxed) (key value : Variant) :
    (b.view p).set? (key.view p) (value.view p) = (b.set? key value).map (view p) := by
  have seen : (b.view p).value.set? (key.view p) (value.view p) =
      (b.value.set? key value).map (Variant.view p) := Variant.set?_view ..
  have values (c : Boxed) (key value : Variant) :
      (c.set? key value).map Boxed.value = c.value.set? key value := by
    unfold set?
    split
    next h => exact h.symm
    next h => exact h.symm
  rw [← values, ← values, Option.map_map] at seen
  cases hs : b.set? key value with
  | none =>
    rw [hs] at seen
    exact Option.map_eq_none_iff.mp seen
  | some c =>
    rw [hs] at seen
    obtain ⟨d, hd, hv⟩ := Option.map_eq_some_iff.mp seen
    have same : d = c.view p := ext_of hv
    rw [hd, same, Option.map_some]

theorem owned_set? {b c : Boxed} {key value : Variant} (hb : b.value.Owned p) (hk : key.Owned p)
    (hv : value.Owned p) (h : b.set? key value = some c) : c.value.Owned p := by
  unfold set? at h
  split at h
  next w hw =>
    cases h
    exact Variant.owned_set? hb hk hv hw
  next => cases h

end Boxed

/-! ### Heaps -/

def Frame.view (p : Party) (f : Frame) : Frame := { f with values := f.values.map (Value.view p) }

def Upkeep.view (p : Party) (u : Upkeep) : Upkeep := { u with
  frames := u.frames.map (Frame.view p)
  doomed := u.doomed.map (Value.view p) }

namespace Heap

def view (p : Party) (h : Heap) : Heap where
  tables := h.tables.map (Table.view p)
  functions := h.functions.map (Function.view p)
  boxes := h.boxes.map (Option.map (Boxed.view p))
  threads := h.threads.map (Value.view p)
  faults := h.faults
  textMeta? := h.textMeta?
  finalizable := h.finalizable.map (Value.view p)
  upkeep := h.upkeep.view p

/-- What lies in boxes belongs to the party, and what is made is made for it. -/
structure Owned (p : Party) (h : Heap) : Prop where
  box : ∀ b : Boxed, some b ∈ h.boxes → b.value.Owned p
  function : ∀ f ∈ h.functions, f.Owned p

variable {h : Heap}

@[simp] theorem view_initial : initial.view p = initial := by
  simp [view, initial, Upkeep.view]

theorem Owned.initial : initial.Owned p := ⟨nofun, nofun⟩

/-! ### Tables -/

@[simp] theorem table_view (h : Heap) (id : Nat) : (h.view p).table id = (h.table id).view p := by
  unfold table view
  rw [Array.getD_eq_getD_getElem?, Array.getD_eq_getD_getElem?, Array.getElem?_map]
  cases h.tables[id]? <;> rfl

theorem view_setTable (h : Heap) (id : Nat) (t : Table) :
    (h.setTable id t).view p = (h.view p).setTable id (t.view p) := by
  simp [setTable, view, Array.map_setIfInBounds]

theorem Owned.setTable (hh : h.Owned p) (id : Nat) (t : Table) : (h.setTable id t).Owned p :=
  ⟨hh.box, hh.function⟩

theorem view_set (h : Heap) (id : Nat) (key : Key) (value : Value) :
    (h.set id key value).view p = (h.view p).set id (key.view p) (value.view p) := by
  rw [set, view_setTable, set, table_view, Table.set_view]

theorem Owned.set (hh : h.Owned p) (id : Nat) (key : Key) (value : Value) :
    (h.set id key value).Owned p :=
  hh.setTable _ _

theorem newTable_view (h : Heap) (t : Table) :
    (h.view p).newTable (t.view p) = ((h.newTable t).1, (h.newTable t).2.view p) := by
  simp [newTable, view]

theorem Owned.newTable (hh : h.Owned p) (t : Table) : (h.newTable t).2.Owned p :=
  ⟨hh.box, hh.function⟩

/-! ### Functions, threads and faults -/

theorem newFunction_view (h : Heap) (f : Function) :
    (h.view p).newFunction (f.view p) = ((h.newFunction f).1, (h.newFunction f).2.view p) := by
  simp [newFunction, view]

theorem Owned.newFunction (hh : h.Owned p) {f : Function} (hf : f.Owned p) :
    (h.newFunction f).2.Owned p where
  box := hh.box
  function g hg := by
    rcases Array.mem_push.mp hg with hg | rfl
    · exact hh.function g hg
    · exact hf

@[simp] theorem function_view (h : Heap) (address : Nat) :
    (h.view p).functions[address]? = (h.functions[address]?).map (Function.view p) :=
  Array.getElem?_map ..

theorem newThread_view (h : Heap) (v : Value) :
    (h.view p).newThread (v.view p) = ((h.newThread v).1, (h.newThread v).2.view p) := by
  simp [newThread, view]

theorem Owned.newThread (hh : h.Owned p) (v : Value) : (h.newThread v).2.Owned p :=
  ⟨hh.box, hh.function⟩

theorem Owned.newFault (hh : h.Owned p) (e : ScriptError) : (h.newFault e).2.Owned p :=
  ⟨hh.box, hh.function⟩

/-! ### Boxes -/

theorem box?_view (h : Heap) (id : Nat) : (h.view p).box? id = (h.box? id).map (Boxed.view p) := by
  have slot : (h.view p).boxes[id]? = (h.boxes[id]?).map (Option.map (Boxed.view p)) :=
    Array.getElem?_map ..
  rw [box?, slot, box?]
  cases h.boxes[id]? <;> rfl

@[simp] theorem boxed?_view (h : Heap) (id : Nat) :
    (h.view p).boxed? id = (h.boxed? id).map (Variant.view p) := by
  rw [boxed?, box?_view, boxed?, Option.map_map, Option.map_map]
  rfl

theorem Owned.of_box? (hh : h.Owned p) {id : Nat} {b : Boxed} (hb : h.box? id = some b) :
    b.value.Owned p :=
  hh.box b (Array.mem_of_getElem? (Option.join_eq_some_iff.mp hb))

theorem Owned.of_boxed? (hh : h.Owned p) {id : Nat} {v : Variant} (hv : h.boxed? id = some v) :
    v.Owned p := by
  obtain ⟨b, hb, rfl⟩ := Option.map_eq_some_iff.mp hv
  exact hh.of_box? hb

theorem newBox_view (h : Heap) (b : Boxed) :
    (h.view p).newBox (b.view p) = ((h.newBox b).1, (h.newBox b).2.view p) := by
  have same : (b.view p).value.object? = b.value.object? := Variant.object?_view _
  simp [newBox, view, Value.view, same, Upkeep.view, Upkeep.tell]

theorem Owned.newBox (hh : h.Owned p) {b : Boxed} (hb : b.value.Owned p) :
    (h.newBox b).2.Owned p where
  box c hc := by
    rcases Array.mem_push.mp hc with hc | hc
    · exact hh.box c hc
    · cases hc
      exact hb
  function := hh.function

theorem Owned.setBox (hh : h.Owned p) (id : Nat) {b? : Option Boxed}
    (hb : ∀ b, b? = some b → b.value.Owned p) :
    ({ h with boxes := h.boxes.setIfInBounds id b? } : Heap).Owned p where
  box c hc := by
    rcases Array.mem_or_eq_of_mem_setIfInBounds hc with hc | hc
    · exact hh.box c hc
    · exact hb c hc.symm
  function := hh.function

theorem writeBox_view (h : Heap) (id : Nat) (key value : Variant) :
    (h.view p).writeBox id (key.view p) (value.view p) = (h.writeBox id key value).view p := by
  unfold writeBox
  rw [box?_view]
  cases h.box? id with
  | none => rfl
  | some b =>
    dsimp only [Option.map_some, Option.bind_some]
    rw [Boxed.set?_view]
    cases b.set? key value with
    | none => rfl
    | some c => simp [view, Array.map_setIfInBounds]

theorem Owned.writeBox (hh : h.Owned p) (id : Nat) {key value : Variant} (hk : key.Owned p)
    (hv : value.Owned p) : (h.writeBox id key value).Owned p := by
  unfold Heap.writeBox
  split
  next c hc =>
    obtain ⟨b, hb, hs⟩ := Option.bind_eq_some_iff.mp hc
    refine hh.setBox id fun d hd => ?_
    cases hd
    exact Boxed.owned_set? (hh.of_box? hb) hk hv hs
  next => exact hh

theorem emptyBox_view (h : Heap) (id : Nat) :
    (h.view p).emptyBox id = (h.emptyBox id).view p := by
  unfold emptyBox
  rw [boxed?_view]
  cases h.boxed? id with
  | none => rfl
  | some v =>
    dsimp only [Option.map_some]
    rw [Variant.object?_view]
    simp [view, Array.map_setIfInBounds, Upkeep.view, Upkeep.tell]

theorem Owned.emptyBox (hh : h.Owned p) (id : Nat) : (h.emptyBox id).Owned p := by
  unfold Heap.emptyBox
  split
  · have left : ({ h with boxes := h.boxes.setIfInBounds id none } : Heap).Owned p :=
      hh.setBox id nofun
    exact ⟨left.box, left.function⟩
  · exact hh

/-! ### Metatables -/

@[simp] theorem meta?_view (h : Heap) (v : Value) : (h.view p).meta? (v.view p) = h.meta? v := by
  cases v with
  | table id => simp [meta?]
  | _ => rfl

@[simp] theorem metaField_view (h : Heap) (v : Value) (name : String) :
    (h.view p).metaField (v.view p) name = (h.metaField v name).view p := by
  unfold metaField
  rw [meta?_view]
  cases h.meta? v with
  | none => rfl
  | some id => simp

end Heap

def Handler.view (p : Party) : Handler → Handler
  | value v => value (v.view p)
  | box v => box (v.view p)
  | h => h

def Handler.Owned (p : Party) : Handler → Prop
  | box v => v.Owned p
  | _ => True

namespace Heap

variable {h : Heap}

/-- The handler that the metatable of a value names. -/
def named? (h : Heap) (op : Metamethod) (v : Value) : Option Handler :=
  match h.metaField v op.name with
  | .nil => none
  | f => some (.value f)

theorem named?_view (h : Heap) (op : Metamethod) (v : Value) :
    (h.view p).named? op (v.view p) = (h.named? op v).map (Handler.view p) := by
  unfold named?
  rw [metaField_view]
  cases h.metaField v op.name <;> rfl

theorem handler?_view (h : Heap) (op : Metamethod) (v : Value) :
    (h.view p).handler? op (v.view p) = (h.handler? op v).map (Handler.view p) := by
  have field (v : Value) := named?_view (p := p) h op v
  cases v with
  | box id =>
    simp only [handler?, Value.view_box, boxed?_view]
    cases h.boxed? id with
    | none =>
      dsimp only [Option.map_none]
      split <;> rfl
    | some x =>
      simp only [Option.map_some, Variant.answers_view]
      split <;> rfl
  | fault id e =>
    simp only [handler?, Value.view]
    split <;> rfl
  | stream id =>
    simp only [handler?, Value.view]
    split <;> rfl
  | nil => exact field .nil
  | bool b => exact field (.bool b)
  | int n => exact field (.int n)
  | float x => exact field (.float x)
  | string bytes => exact field (.string bytes)
  | table id => exact field (.table id)
  | function f => exact field (.function f)
  | thread id => exact field (.thread id)

theorem Owned.handler (hh : h.Owned p) {op : Metamethod} {v : Value} {x : Handler}
    (hx : h.handler? op v = some x) : x.Owned p := by
  unfold handler? at hx
  split at hx
  · split at hx
    next hb =>
      split at hx
      · cases hx
        exact hh.of_boxed? hb
      · cases hx
    next =>
      split at hx
      · cases hx
      · cases hx
        trivial
  · split at hx <;> cases hx
    trivial
  · split at hx <;> cases hx
    trivial
  · split at hx <;> cases hx
    trivial

theorem view_awaitEnd (h : Heap) (id : Nat) : (h.awaitEnd id).view p = (h.view p).awaitEnd id := by
  have field : (h.view p).metaField (.table id) Metamethod.gc.name =
      (h.metaField (.table id) Metamethod.gc.name).view p := metaField_view h (.table id) _
  have listed (vs : List Value) :
      (vs.map (Value.view p)).contains (.table id) = vs.contains (.table id) := by
    rw [Bool.eq_iff_iff, List.contains_iff_mem, List.contains_iff_mem]
    show Value.view p (.table id) ∈ vs.map (Value.view p) ↔ _
    exact List.mem_map_of_injective (Value.view_injective p)
  have waiting : (h.view p).finalizable.contains (.table id) =
      h.finalizable.contains (.table id) := listed _
  have doomed : (h.view p).upkeep.doomed.contains (.table id) =
      h.upkeep.doomed.contains (.table id) := listed _
  unfold awaitEnd
  rw [field, waiting, doomed, Value.isNil_view]
  split <;> rfl

theorem Owned.awaitEnd (hh : h.Owned p) (id : Nat) : (h.awaitEnd id).Owned p := by
  unfold Heap.awaitEnd
  split
  · exact hh
  · exact ⟨hh.box, hh.function⟩

@[simp] theorem typeName_view (h : Heap) (v : Value) :
    (h.view p).typeName (v.view p) = h.typeName v := by
  cases v with
  | box id =>
    simp only [typeName, Value.view_box, boxed?_view]
    cases h.boxed? id with
    | none => rfl
    | some x => exact Variant.boxName_view x
  | table id =>
    have field := metaField_view (p := p) h (.table id) "__name"
    simp only [typeName, Value.view_table] at field ⊢
    rw [field]
    cases h.metaField (.table id) "__name" <;> rfl
  | _ => rfl

@[simp] theorem argumentType_view (h : Heap) (v : Value) :
    (h.view p).argumentType (v.view p) = h.argumentType v := by
  have field := metaField_view (p := p) h v "__name"
  have type := typeName_view (p := p) h v
  unfold argumentType
  rw [field]
  cases v with
  | string bytes => cases h.metaField (.string bytes) "__name" <;> rfl
  | _ => exact type

@[simp] theorem defaultText_view (h : Heap) (v : Value) :
    Reentry.defaultText (h.view p) (v.view p) = Reentry.defaultText h v := by
  have type := typeName_view (p := p) h v
  unfold Reentry.defaultText
  rw [type]
  cases v <;> rfl

@[simp] theorem held_view (h : Heap) (v key : Value) :
    Reentry.held (h.view p) (v.view p) (key.view p) = (Reentry.held h v key).view p := by
  cases v with
  | table id => simp [Reentry.held]
  | _ => rfl

end Heap

end ScriptHost
