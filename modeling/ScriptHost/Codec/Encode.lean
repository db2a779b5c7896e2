import ScriptHost.Machine.Heap

/-! Host values as values of scripts. Scalars stand for themselves, containers become
tables that carry the mark of their shape, all else goes into boxes. A function goes
back only into the interpreter that it came from. What was boxed before a refusal
stays in the heap. -/

namespace ScriptHost.Heap

/-- The key that holds the length of an array in which something is nil. -/
def lengthKey : Key := .ofString "n"

/-- Items by number, from `n` on; nil takes no entry. -/
def itemEntries (n : Nat) : List Value → List (Key × Value)
  | [] => []
  | v :: rest =>
    if lastItem < n then []
    else if v.isNil then itemEntries (n + 1) rest
    else (.int (Int64.ofNat n), v) :: itemEntries (n + 1) rest

theorem key_of_itemEntries {n : Nat} {items : List Value} {e : Key × Value}
    (he : e ∈ itemEntries n items) :
    ∃ i, n ≤ i ∧ i < n + items.length ∧ i ≤ lastItem ∧ e.1 = .int (Int64.ofNat i) := by
  induction items generalizing n with
  | nil => simp [itemEntries] at he
  | cons v rest ih =>
    simp only [itemEntries] at he
    rw [List.length_cons]
    split at he
    · simp at he
    split at he
    · obtain ⟨i, hi, hl, h⟩ := ih he
      exact ⟨i, by omega, by omega, h⟩
    · rcases List.mem_cons.mp he with rfl | he
      · exact ⟨n, by omega, by omega, by omega, rfl⟩
      · obtain ⟨i, hi, hl, h⟩ := ih he
        exact ⟨i, by omega, by omega, h⟩

theorem itemEntries_proper (n : Nat) (items : List Value) : Table.Proper (itemEntries n items) := by
  induction items generalizing n with
  | nil => exact .nil
  | cons v rest ih =>
    simp only [itemEntries]
    split
    · exact .nil
    split
    · exact ih _
    next hv =>
      refine ⟨List.nodup_cons.mpr ⟨?_, (ih _).distinct⟩, ?_⟩
      · intro hn
        obtain ⟨e, he, hk⟩ := List.mem_map.mp hn
        obtain ⟨i, hi, -, hl, h⟩ := key_of_itemEntries he
        have : n = i := by
          exact ofNat_inj (by omega) (by omega) (Key.int.inj (hk.symm.trans h))
        omega
      · intro e he
        rcases List.mem_cons.mp he with rfl | he
        · rintro rfl
          exact hv rfl
        · exact (ih _).filled e he

/-- The table of an array. It has room for its items. -/
def arrayTable (items : List Value) : Table :=
  let t : Table :=
    { entries := itemEntries 1 items, meta? := some arrayMark, hint := items.length,
      proper := itemEntries_proper 1 items }
  if items.any Value.isNil then t.set lengthKey (.int (Int64.ofNat items.length)) else t

/-- Puts a value in a box. -/
def encodeBox (v : Variant) (boxed : v.isBoxed = true) (h : Heap) : Except Refusal Value × Heap :=
  let (id, h) := h.newBox ⟨v, boxed⟩
  (.ok (.box id), h)

mutual

/-- The script value of `v` in interpreter `owner`. -/
def encode (owner : Nat) (v : Variant) (h : Heap) : Except Refusal Value × Heap :=
  match v with
  | .nil => (.ok .nil, h)
  | .bool b => (.ok (.bool b), h)
  | .int n => (.ok (.int n), h)
  | .float x => (.ok (.float x), h)
  | .string s => (.ok (.ofString s), h)
  | .callable (.script f) =>
    if f.owner = owner then (.ok (.function f), h) else (.error .foreignFunctionPassed, h)
  | .array items =>
    match encodeItems owner items h with
    | (.error r, h) => (.error r, h)
    | (.ok values, h) =>
      let (id, h) := h.newTable (arrayTable values)
      (.ok (.table id), h)
  | .dictionary entries =>
    match encodeEntries owner entries .empty h with
    | (.error r, h) => (.error r, h)
    | (.ok t, h) =>
      let (id, h) := h.newTable { t with meta? := some dictionaryMark }
      (.ok (.table id), h)
  | .vector2 x => encodeBox (.vector2 x) rfl h
  | .vector3 x => encodeBox (.vector3 x) rfl h
  | .color c => encodeBox (.color c) rfl h
  | .rect2 r => encodeBox (.rect2 r) rfl h
  | .plane p => encodeBox (.plane p) rfl h
  | .object o => encodeBox (.object o) rfl h
  | .signal s => encodeBox (.signal s) rfl h
  | .callable (.method o name) => encodeBox (.callable (.method o name)) rfl h
  | .callable (.native f) => encodeBox (.callable (.native f)) rfl h
  | .callable (.bound c extra placement) => encodeBox (.callable (.bound c extra placement)) rfl h
termination_by structural v

def encodeItems (owner : Nat) (vs : List Variant) (h : Heap) : Except Refusal (List Value) × Heap :=
  match vs with
  | [] => (.ok [], h)
  | v :: rest =>
    match encode owner v h with
    | (.error r, h) => (.error r, h)
    | (.ok value, h) =>
      match encodeItems owner rest h with
      | (.error r, h) => (.error r, h)
      | (.ok values, h) => (.ok (value :: values), h)
termination_by structural vs

/-- Adds entries to a table. Later ones replace earlier ones with the same key. -/
def encodeEntries (owner : Nat) (es : List (Variant × Variant)) (t : Table) (h : Heap) :
    Except Refusal Table × Heap :=
  match es with
  | [] => (.ok t, h)
  | e :: rest =>
    match encodeEntry owner e t h with
    | (.error r, h) => (.error r, h)
    | (.ok t, h) => encodeEntries owner rest t h
termination_by structural es

/-- An entry whose key is none is left out, and its value not looked at. -/
def encodeEntry (owner : Nat) (e : Variant × Variant) (t : Table) (h : Heap) :
    Except Refusal Table × Heap :=
  match e with
  | (k, v) =>
    match encode owner k h with
    | (.error r, h) => (.error r, h)
    | (.ok key, h) =>
      match Key.ofValue key with
      | .error _ => (.ok t, h)
      | .ok key =>
        match encode owner v h with
        | (.error r, h) => (.error r, h)
        | (.ok value, h) => (.ok (t.set key value), h)
termination_by structural e

end

/-- The script values of several host values. -/
def encodeAll (owner : Nat) (vs : List Variant) (h : Heap) : Except Refusal (List Value) × Heap :=
  encodeItems owner vs h

end ScriptHost.Heap
