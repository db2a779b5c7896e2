import ScriptHost.Proofs.Codec.Reading
import ScriptHost.Proofs.Party.Heaps

/-! Host values on their way into an interpreter and out of it, as its side of a session sees
them. -/

namespace ScriptHost

variable {p : Party} {owner : Nat}

/-! ### Storing -/

namespace Heap

/-- An item takes its place in what the party sees, too. -/
theorem itemEntries_view (n : Nat) (items : List Value) :
    itemEntries n (items.map (Value.view p)) = (itemEntries n items).map (Table.entryView p) := by
  induction items generalizing n with
  | nil => rfl
  | cons v rest ih =>
    simp only [List.map_cons, itemEntries, Value.isNil_view]
    split
    · rfl
    · split
      · exact ih _
      · rw [ih, List.map_cons]
        rfl

theorem arrayTable_view (items : List Value) :
    arrayTable (items.map (Value.view p)) = (arrayTable items).view p := by
  have table : (⟨itemEntries 1 (items.map (Value.view p)), some arrayMark, items.length,
      itemEntries_proper 1 _⟩ : Table) =
      Table.view p ⟨itemEntries 1 items, some arrayMark, items.length,
        itemEntries_proper 1 items⟩ :=
    Table.ext_of (itemEntries_view 1 items) rfl rfl
  have holes : (items.map (Value.view p)).any Value.isNil = items.any Value.isNil := by
    rw [List.any_map]
    congr 1
    funext v
    exact Value.isNil_view v
  unfold arrayTable
  rw [List.length_map, table, holes]
  dsimp only
  split
  · exact Table.set_view _ lengthKey (.int (Int64.ofNat items.length))
  · rfl

/-- What storing comes to in a heap that belongs to the party, and what the party sees of it. -/
inductive Encodes {α : Type} (p : Party) (seen : α → α) (h : Heap) :
    Except Refusal α × Heap → Except Refusal α × Heap → Prop
  | refused {e : Refusal} {h' : Heap} (owned : h.Owned p → h'.Owned p) :
    Encodes p seen h (.error e, h') (.error e, h'.view p)
  | stored {a : α} {h' : Heap} (owned : h.Owned p → h'.Owned p) :
    Encodes p seen h (.ok a, h') (.ok (seen a), h'.view p)

theorem encodeBox_view {v : Variant} (hv : v.isBoxed = true) (hw : (v.view p).isBoxed = true)
    (ho : v.Owned p) (h : Heap) :
    Encodes p (Value.view p) h (encodeBox v hv h) (encodeBox (v.view p) hw (h.view p)) := by
  have boxed := newBox_view (p := p) h ⟨v, hv⟩
  have stored : encodeBox (v.view p) hw (h.view p) =
      (.ok (Value.view p (.box (h.newBox ⟨v, hv⟩).1)), (h.newBox ⟨v, hv⟩).2.view p) :=
    congrArg (fun r : Nat × Heap => (Except.ok (Value.box r.1), r.2)) boxed
  rw [stored]
  exact .stored fun hh => hh.newBox ho

mutual

theorem encode_view (v : Variant) (hv : v.Owned p) (h : Heap) :
    Encodes p (Value.view p) h (encode owner v h) (encode (p.number owner) (v.view p) (h.view p)) := by
  cases v with
  | array items =>
    rw [Variant.Owned] at hv
    have stores := encodeItems_view items hv h
    simp only [Variant.view, encode]
    generalize encodeItems owner items h = r, encodeItems (p.number owner) _ _ = s at stores ⊢
    cases stores with
    | refused owned => exact .refused owned
    | @stored values h' owned =>
      dsimp only
      rw [arrayTable_view, newTable_view]
      exact .stored fun hh => (owned hh).newTable _
  | dictionary es =>
    rw [Variant.Owned] at hv
    have stores := encodeEntries_view es hv .empty h
    simp only [Variant.view, encode]
    rw [Table.view_empty] at stores
    generalize encodeEntries owner es .empty h = r, encodeEntries (p.number owner) _ _ _ = s
      at stores ⊢
    cases stores with
    | refused owned => exact .refused owned
    | @stored t h' owned =>
      dsimp only
      rw [← Table.view_withMeta, newTable_view]
      exact .stored fun hh => (owned hh).newTable _
  | callable c =>
    cases c with
    | script f =>
      simp only [Variant.view, Callable.view, encode, ScriptFunction.view, p.injective.eq_iff]
      split
      · exact .stored id
      · exact .refused id
    | method => exact encodeBox_view rfl rfl hv h
    | native => exact encodeBox_view rfl rfl hv h
    | bound => exact encodeBox_view rfl rfl hv h
  | nil | bool | int | float | string => exact .stored id
  | _ => exact encodeBox_view rfl rfl hv h
termination_by structural v

theorem encodeItems_view (vs : List Variant) (hv : Variant.ListOwned p vs) (h : Heap) :
    Encodes p (List.map (Value.view p)) h (encodeItems owner vs h)
      (encodeItems (p.number owner) (Variant.listView p vs) (h.view p)) := by
  cases vs with
  | nil => exact .stored id
  | cons v rest =>
    rw [Variant.ListOwned] at hv
    have first := encode_view v hv.1 h
    have later := fun h => encodeItems_view rest hv.2 h
    simp only [Variant.listView, encodeItems]
    generalize encode owner v h = r, encode (p.number owner) _ _ = s at first ⊢
    cases first with
    | refused owned => exact .refused owned
    | @stored value h' owned =>
      have later := later h'
      dsimp only
      generalize encodeItems owner rest h' = r, encodeItems (p.number owner) _ _ = s at later ⊢
      cases later with
      | refused owned' => exact .refused fun hh => owned' (owned hh)
      | stored owned' => exact .stored fun hh => owned' (owned hh)
termination_by structural vs

theorem encodeEntries_view (es : List (Variant × Variant)) (he : Variant.EntriesOwned p es)
    (t : Table) (h : Heap) :
    Encodes p (Table.view p) h (encodeEntries owner es t h)
      (encodeEntries (p.number owner) (Variant.entriesView p es) (t.view p) (h.view p)) := by
  cases es with
  | nil => exact .stored id
  | cons e rest =>
    rw [Variant.EntriesOwned] at he
    have first := encodeEntry_view e he.1 t h
    have later := fun t h => encodeEntries_view rest he.2 t h
    simp only [Variant.entriesView, encodeEntries]
    generalize encodeEntry owner e t h = r, encodeEntry (p.number owner) _ _ _ = s at first ⊢
    cases first with
    | refused owned => exact .refused owned
    | @stored t h' owned =>
      have later := later t h'
      dsimp only
      generalize encodeEntries owner rest t h' = r, encodeEntries (p.number owner) _ _ _ = s
        at later ⊢
      cases later with
      | refused owned' => exact .refused fun hh => owned' (owned hh)
      | stored owned' => exact .stored fun hh => owned' (owned hh)
termination_by structural es

theorem encodeEntry_view (e : Variant × Variant) (he : Variant.EntryOwned p e) (t : Table)
    (h : Heap) :
    Encodes p (Table.view p) h (encodeEntry owner e t h)
      (encodeEntry (p.number owner) (Variant.entryView p e) (t.view p) (h.view p)) := by
  cases e with
  | mk k v =>
    rw [Variant.EntryOwned] at he
    have first := encode_view k he.1 h
    have second := fun h => encode_view v he.2 h
    simp only [Variant.entryView, encodeEntry]
    generalize encode owner k h = r, encode (p.number owner) (k.view p) _ = s at first ⊢
    cases first with
    | refused owned => exact .refused owned
    | @stored key h' owned =>
      dsimp only
      rw [Key.ofValue_view]
      cases Key.ofValue key with
      | error fault => exact .stored owned
      | ok key =>
        have second := second h'
        dsimp only [Except.map]
        generalize encode owner v h' = r, encode (p.number owner) (v.view p) _ = s at second ⊢
        cases second with
        | refused owned' => exact .refused fun hh => owned' (owned hh)
        | stored owned' =>
          dsimp only
          rw [Table.set_view]
          exact .stored fun hh => owned' (owned hh)
termination_by structural e

end

theorem encodeAll_view {vs : List Variant} (hv : ∀ v ∈ vs, v.Owned p) (h : Heap) :
    Encodes p (List.map (Value.view p)) h (encodeAll owner vs h)
      (encodeAll (p.number owner) (vs.map (Variant.view p)) (h.view p)) := by
  rw [← Variant.listView_eq]
  exact encodeItems_view vs (Variant.listOwned_iff.mpr hv) h

/-! ### Reading -/

theorem mapM_view {α β ε : Type} {f g : α → Except ε β} {seen : α → α} {shown : β → β}
    {xs : List α} (h : ∀ x ∈ xs, g (seen x) = (f x).map shown) :
    (xs.map seen).mapM g = (xs.mapM f).map (List.map shown) := by
  induction xs with
  | nil => rfl
  | cons x rest ih =>
    rw [List.forall_mem_cons] at h
    rw [List.map_cons, List.mapM_cons, List.mapM_cons, h.1, ih h.2]
    cases f x with
    | error e => rfl
    | ok y => cases rest.mapM f <;> rfl

theorem unsupported_view (strict : Bool) (what : String) :
    unsupported strict what = (unsupported strict what).map (Variant.view p) := by
  cases strict <;> rfl

theorem decodeTo_view_leaf {v : Value} (hv : ∀ id, v ≠ .table id) (strict : Bool) (h : Heap)
    (depth : Nat) : decodeTo strict (p.number owner) (h.view p) depth (v.view p) =
      (decodeTo strict owner h depth v).map (Variant.view p) := by
  unfold decodeTo
  cases v with
  | table id => exact absurd rfl (hv id)
  | box id =>
    simp only [Value.view_box, boxed?_view]
    cases h.boxed? id with
    | none => exact unsupported_view _ _
    | some x => rfl
  | thread | stream | fault => exact unsupported_view _ _
  | _ => rfl

theorem decodeTo_view (strict : Bool) (h : Heap) (depth : Nat) (v : Value) :
    decodeTo strict (p.number owner) (h.view p) depth (v.view p) =
      (decodeTo strict owner h depth v).map (Variant.view p) := by
  induction depth generalizing v with
  | zero =>
    cases v with
    | table id => exact unsupported_view _ _
    | _ => exact decodeTo_view_leaf (by nofun) strict h _
  | succ depth ih =>
    cases v with
    | table id =>
      rw [Value.view_table]
      cases hs : (h.table id).slots? with
      | some items =>
        have seen : ((h.view p).table id).slots? = some (items.map (Value.view p)) := by
          rw [table_view, Table.slots?_view, hs]
          rfl
        rw [decodeTo_array seen, decodeTo_array hs, mapM_view fun v _ => ih v]
        cases items.mapM (decodeTo strict owner h depth) with
        | error r => rfl
        | ok vs => simp [Except.map]
      | none =>
        have seen : ((h.view p).table id).slots? = none := by
          rw [table_view, Table.slots?_view, hs]
          rfl
        have entry (e : Key × Value) :
            decodeEntry strict (p.number owner) (h.view p) depth (Table.entryView p e) =
              (decodeEntry strict owner h depth e).map (Variant.pairView p) := by
          rw [decodeEntry, Table.entryView, Key.toValue_view, ih, ih, decodeEntry]
          cases decodeTo strict owner h depth e.1.toValue with
          | error r => rfl
          | ok k => cases decodeTo strict owner h depth e.2 <;> rfl
        rw [decodeTo_dictionary seen, decodeTo_dictionary hs, table_view, Table.entries_view,
          mapM_view fun e _ => entry e]
        cases (h.table id).entries.mapM (decodeEntry strict owner h depth) with
        | error r => rfl
        | ok es => simp [Except.map]
    | _ => exact decodeTo_view_leaf (by nofun) strict h _

theorem decodeStrict_view (h : Heap) (v : Value) :
    decodeStrict (p.number owner) (h.view p) (v.view p) =
      (decodeStrict owner h v).map (Variant.view p) :=
  decodeTo_view true h depthLimit v

theorem decode_view (h : Heap) (v : Value) :
    decode (p.number owner) (h.view p) (v.view p) = (decode owner h v).view p := by
  rw [decode, decodeTo_view, decode]
  cases decodeTo false owner h depthLimit v <;> rfl

variable {h : Heap}

theorem owned_of_unsupported {strict : Bool} {what : String} {x : Variant}
    (hx : unsupported strict what = .ok x) : x.Owned p := by
  cases strict with
  | true => cases hx
  | false =>
    cases hx
    trivial

theorem Owned.decodeTo_leaf (hh : h.Owned p) (ho : p.interpreter owner = true) {strict : Bool}
    {depth : Nat} {v : Value} {x : Variant} (hv : ∀ id, v ≠ .table id)
    (hx : decodeTo strict owner h depth v = .ok x) : x.Owned p := by
  unfold Heap.decodeTo at hx
  cases v with
  | table id => exact absurd rfl (hv id)
  | box id =>
    dsimp only at hx
    split at hx
    next hb =>
      cases hx
      exact hh.of_boxed? hb
    next => exact owned_of_unsupported hx
  | thread | stream | fault => exact owned_of_unsupported hx
  | function f =>
    cases hx
    exact Variant.owned_callable.mpr (Callable.owned_script.mpr ho)
  | _ =>
    cases hx
    trivial

theorem Owned.decodeTo (hh : h.Owned p) (ho : p.interpreter owner = true) {strict : Bool}
    {depth : Nat} {v : Value} {x : Variant} (hx : decodeTo strict owner h depth v = .ok x) :
    x.Owned p := by
  induction depth generalizing v x with
  | zero =>
    cases v with
    | table id => exact owned_of_unsupported hx
    | _ => exact hh.decodeTo_leaf ho (by nofun) hx
  | succ depth ih =>
    cases v with
    | table id =>
      rcases decodeTo_table_eq_ok.mp hx with ⟨items, ws, -, rfl, hw⟩ | ⟨ws, -, rfl, hw⟩
      · exact Variant.owned_array.mpr fun w hm => by
          obtain ⟨v, -, hv⟩ := exists_of_mem_left hw.flip hm
          exact ih hv
      · exact Variant.owned_dictionary.mpr fun f hm => by
          obtain ⟨e, -, hk, hv⟩ := exists_of_mem_left hw.flip hm
          exact ⟨ih hk, ih hv⟩
    | _ => exact hh.decodeTo_leaf ho (by nofun) hx

theorem Owned.decode (hh : h.Owned p) (ho : p.interpreter owner = true) (v : Value) :
    (decode owner h v).Owned p := by
  unfold Heap.decode
  split
  next hx => exact hh.decodeTo ho hx
  next => trivial

end Heap

end ScriptHost
