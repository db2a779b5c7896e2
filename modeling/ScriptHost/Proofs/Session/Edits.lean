import ScriptHost.Proofs.Codec.Lists
import ScriptHost.Proofs.Codec.Merging
import ScriptHost.Proofs.Session.Globals

/-! Containers in the hands of a script. As long as the metatable that marks the shape has no
handlers, lengths and writes reach the table itself: edits of an array are edits of a list, and
edits of a dictionary those of a finite map. The mark keeps the shape. -/

namespace ScriptHost

/-! ### Operations on a table without handlers -/

namespace Heap

variable {h g : Heap} {mark id : Nat} {ops : List Metamethod} {op : Metamethod}

/-- The metatable has no handlers for these operations. -/
def Unhandled (mark : Nat) (ops : List Metamethod) (h : Heap) : Prop :=
  ∀ op ∈ ops, (h.table mark).getString op.name = .nil

theorem Unhandled.handler? (hu : h.Unhandled mark ops) (hm : (h.table id).meta? = some mark)
    (ho : op ∈ ops) : h.handler? op (.table id) = none := by
  have field : h.metaField (.table id) op.name = .nil := by
    rw [metaField, meta?, hm]
    exact hu op ho
  dsimp only [Heap.handler?]
  rw [field]

end Heap

namespace Reentry

variable (r : Reentry) {w : World} {id : Nat} {key value : Value} {k : Key}

theorem length_of_unhandled (hh : w.bridge.heap.handler? .len (.table id) = none)
    (of? : Option Origin) :
    r.length (.table id) of? w = .ok (.int (Int64.ofNat (w.bridge.heap.table id).border)) w := by
  show (Act.heap >>= _) w = _
  rw [Act.bind_of_ok (Act.heap_eq _), hh]
  rfl

/-- Writes reach the table, whether or not it holds the key. -/
theorem setIndex_eq_rawSet (hh : w.bridge.heap.handler? .newIndex (.table id) = none)
    (of? : Option Origin) :
    r.setIndex (.table id) key value of? w = r.rawSet id key value w := by
  rw [setIndex, Act.bind_of_ok (Act.heap_eq _)]
  cases (held w.bridge.heap (.table id) key).isNil with
  | false => rfl
  | true =>
    show r.setIndexFrom _ _ (chainLimit - 1 + 1) _ _ w = _
    rw [setIndexFrom, Act.bind_of_ok (Act.heap_eq _), hh]

theorem setIndex_of_unhandled (hh : w.bridge.heap.handler? .newIndex (.table id) = none)
    (hk : Key.ofValue key = .ok k) (of? : Option Origin) :
    r.setIndex (.table id) key value of? w =
      .ok () (w.withHeap (w.bridge.heap.set id k value)) := by
  rw [r.setIndex_eq_rawSet hh, rawSet, hk]
  rfl

theorem setIndex_of_error (hh : w.bridge.heap.handler? .newIndex (.table id) = none)
    {fault : KeyFault} (hk : Key.ofValue key = .error fault) (of? : Option Origin) :
    r.setIndex (.table id) key value of? w =
      .raised (.ofString (r.site.place 0 ++ fault.message)) w := by
  rw [r.setIndex_eq_rawSet hh, rawSet, hk]
  rfl

theorem next_number {n : Nat} : r.binary .add (.int (Int64.ofNat n)) (.int 1) none none w =
    .ok (.int (Int64.ofNat (n + 1))) w := by
  show Outcome.ok (Value.int (Int64.ofNat n + 1)) w = _
  rw [Int64.ofNat_add]
  rfl

end Reentry

/-! ### Runs of edits -/

namespace Heap

/-- The table is there, behind its mark, which has no handlers for these operations. -/
structure Editable (mark : Nat) (ops : List Metamethod) (id : Nat) (h : Heap) : Prop where
  known : id < h.tables.size
  behind : mark < id
  unhandled : h.Unhandled mark ops

/-- What else a script does: the table stays as it is, and its mark without handlers. -/
structure Aside (mark : Nat) (ops : List Metamethod) (id : Nat) (h g : Heap) : Prop where
  size : h.tables.size ≤ g.tables.size
  table : g.table id = h.table id
  unhandled : g.Unhandled mark ops

variable {h g : Heap} {mark id : Nat} {ops : List Metamethod}

theorem Editable.aside (he : h.Editable mark ops id) (ha : h.Aside mark ops id g) :
    g.Editable mark ops id :=
  ⟨he.known.trans_le ha.size, he.behind, ha.unhandled⟩

/-- An edit does not reach the mark. -/
theorem Editable.set (he : h.Editable mark ops id) (k : Key) (x : Value) :
    (h.set id k x).Editable mark ops id := by
  refine ⟨(size_set h id k x).symm ▸ he.known, he.behind, fun op ho => ?_⟩
  rw [table_set_of_ne he.behind.ne]
  exact he.unhandled op ho

end Heap

/-- Edits one after the other, and whatever else a script does meanwhile. -/
inductive Edited {ε : Type} (run : ε → Act Unit) (mark : Nat) (ops : List Metamethod) (id : Nat)
    (w : World) : List ε → World → Prop
  | start : Edited run mark ops id w [] w
  | edit {w' w'' : World} {es : List ε} {e : ε} : Edited run mark ops id w es w' →
    run e w' = .ok () w'' → Edited run mark ops id w (es ++ [e]) w''
  | aside {w' w'' : World} {es : List ε} : Edited run mark ops id w es w' →
    w'.bridge.heap.Aside mark ops id w''.bridge.heap → Edited run mark ops id w es w''

/-- Where an edit is a write that keeps an invariant of the table, a run of edits keeps it. -/
theorem Edited.keeps {ε σ : Type} {run : ε → Act Unit} {mark id : Nat} {ops : List Metamethod}
    {f : σ → ε → Option σ} {P : σ → Table → Prop} {w w' : World} {es : List ε} {s s' : σ}
    (step : ∀ (w : World) e s s', w.bridge.heap.Editable mark ops id →
      P s (w.bridge.heap.table id) → f s e = some s' → ∃ k x,
        run e w = .ok () (w.withHeap (w.bridge.heap.set id k x)) ∧
          P s' ((w.bridge.heap.table id).set k x))
    (he : Edited run mark ops id w es w') (hw : w.bridge.heap.Editable mark ops id)
    (hs : P s (w.bridge.heap.table id)) (ha : es.foldlM f s = some s') :
    w'.bridge.heap.Editable mark ops id ∧ P s' (w'.bridge.heap.table id) := by
  induction he generalizing s' with
  | start =>
    cases ha
    exact ⟨hw, hs⟩
  | @edit w' w'' es e _ hr ih =>
    simp only [List.foldlM_append, List.foldlM_cons, List.foldlM_nil, bind_pure,
      Option.bind_eq_bind, Option.bind_eq_some_iff] at ha
    obtain ⟨t, ht, ha⟩ := ha
    obtain ⟨editable, holds⟩ := ih ht
    obtain ⟨k, x, hw'', holds⟩ := step w' e t s' editable holds ha
    rw [hr] at hw''
    cases hw''
    refine ⟨editable.set k x, ?_⟩
    show P s' ((w'.bridge.heap.set id k x).table id)
    rwa [Heap.table_set editable.known]
  | aside _ ha' ih =>
    obtain ⟨editable, holds⟩ := ih ha
    exact ⟨editable.aside ha', ha'.table.symm ▸ holds⟩

theorem Key.ofValue_of_toOption {v : Value} {k : Key} (h : (ofValue v).toOption = some k) :
    ofValue v = .ok k := by
  cases hv : ofValue v with
  | error e =>
    rw [hv] at h
    cases h
  | ok l =>
    rw [hv] at h
    exact congrArg _ (Option.some.inj h)

/-! ### Lists -/

/-- What a script does to the list in a table: `t[#t + 1] = x`, `t[#t] = nil` or `t[i] = x`. -/
inductive ListEdit
  | append (x : Value)
  | pop
  | replace (i x : Value)

namespace ListEdit

/-- The operations that an edit asks the table for. -/
def operations : List Metamethod := [.len, .newIndex]

def run (r : Reentry) (t : Value) : ListEdit → Act Unit
  | append x => do
    let n ← r.unary .length t none
    let next ← r.binary .add n (.int 1) none none
    r.setIndex t next x none
  | pop => do
    let n ← r.unary .length t none
    r.setIndex t n .nil none
  | replace i x => r.setIndex t i x none

/-- The place in a list that an index counts. -/
def place? (i : Value) : Option Nat := (Key.ofValue i).toOption.bind Key.place?

/-- The same edit of a list. An item is not nil, and what is taken away or replaced is there. -/
def after? (items : List Value) : ListEdit → Option (List Value)
  | append x => if x.isNil || items.length = Heap.lastItem then none else some (items ++ [x])
  | pop => if items.isEmpty then none else some items.dropLast
  | replace i x =>
    match place? i with
    | some n => if x.isNil || items.length ≤ n then none else some (items.set n x)
    | none => none

theorem ofValue_of_place? {i : Value} {n : Nat} (hi : place? i = some n) :
    Key.ofValue i = .ok (.ofPlace n) := by
  obtain ⟨k, hk, hn⟩ := Option.bind_eq_some_iff.mp hi
  rw [← (Key.place?_eq_some hn).1]
  exact Key.ofValue_of_toOption hk

variable {r : Reentry} {w : World} {id : Nat} {items items' : List Value} {e : ListEdit}

/-- An edit of the list is one write to its table. -/
theorem run_eq (hw : w.bridge.heap.Editable Heap.arrayMark operations id)
    (ht : (w.bridge.heap.table id).Lists items) (ha : after? items e = some items') :
    ∃ k x, e.run r (.table id) w = .ok () (w.withHeap (w.bridge.heap.set id k x)) ∧
      ((w.bridge.heap.table id).set k x).Lists items' := by
  -- Without handlers the length is the border, and an assignment is one write to the table.
  have len := r.length_of_unhandled (hw.unhandled.handler? ht.meta? (by decide)) none
  have newIndex : w.bridge.heap.handler? .newIndex (.table id) = none :=
    hw.unhandled.handler? ht.meta? (by decide)
  have bound := ht.length
  rw [ht.border] at len
  cases e with
  | append x =>
    rw [after?] at ha
    split at ha
    · cases ha
    next hx =>
      obtain rfl := Option.some.inj ha
      simp only [Bool.or_eq_true, decide_eq_true_eq, not_or, Bool.not_eq_true] at hx
      refine ⟨.ofPlace items.length, x, ?_, ht.append hx.1 (by omega)⟩
      rw [run, Reentry.unary, Act.bind_of_ok len, Act.bind_of_ok r.next_number]
      exact r.setIndex_of_unhandled newIndex rfl none
  | pop =>
    rw [after?] at ha
    split at ha
    · cases ha
    next hn =>
      obtain rfl := Option.some.inj ha
      have nonempty : items ≠ [] := by simpa using hn
      have positive := List.length_pos_iff.mpr nonempty
      refine ⟨.ofPlace (items.length - 1), .nil, ?_, ht.pop nonempty⟩
      rw [run, Reentry.unary, Act.bind_of_ok len, Key.ofPlace, Nat.sub_add_cancel positive]
      exact r.setIndex_of_unhandled newIndex rfl none
  | replace i x =>
    rw [after?] at ha
    split at ha
    next n hi =>
      split at ha
      · cases ha
      next hx =>
        obtain rfl := Option.some.inj ha
        simp only [Bool.or_eq_true, decide_eq_true_eq, not_or, Bool.not_eq_true, Nat.not_le] at hx
        refine ⟨.ofPlace n, x, ?_, ht.replace hx.1 hx.2⟩
        exact r.setIndex_of_unhandled newIndex (ofValue_of_place? hi) none
    next => cases ha

end ListEdit

/-! ### Finite maps -/

/-- What a script does to the entries of a table: `t[k] = x`, where `x` may be nil. -/
structure EntryEdit where
  key : Value
  value : Value

namespace EntryEdit

def operations : List Metamethod := [.newIndex]

def run (r : Reentry) (t : Value) (e : EntryEdit) : Act Unit := r.setIndex t e.key e.value none

/-- The same edit of a finite map, which has nil where it has no entry. -/
def after? (m : Key → Value) (e : EntryEdit) : Option (Key → Value) :=
  (Key.ofValue e.key).toOption.map fun k => Function.update m k e.value

variable {r : Reentry} {w : World} {id : Nat} {m m' : Key → Value} {e : EntryEdit}

/-- The table holds this map, and is marked as a dictionary. -/
def Maps (m : Key → Value) (t : Table) : Prop :=
  t.meta? = some Heap.dictionaryMark ∧ ∀ k, t.get k = m k

theorem Maps.set {t : Table} (ht : Maps m t) (k : Key) (x : Value) :
    Maps (Function.update m k x) (t.set k x) := by
  refine ⟨Table.meta_set.trans ht.1, fun l => ?_⟩
  by_cases hl : l = k
  · rw [hl, Table.get_set, Function.update_self]
  · rw [Table.get_set_of_ne hl, Function.update_of_ne hl, ht.2]

theorem run_eq (hw : w.bridge.heap.Editable Heap.dictionaryMark operations id)
    (ht : Maps m (w.bridge.heap.table id)) (ha : after? m e = some m') :
    ∃ k x, e.run r (.table id) w = .ok () (w.withHeap (w.bridge.heap.set id k x)) ∧
      Maps m' ((w.bridge.heap.table id).set k x) := by
  have newIndex : w.bridge.heap.handler? .newIndex (.table id) = none :=
    hw.unhandled.handler? ht.1 (by decide)
  obtain ⟨k, hk, rfl⟩ := Option.map_eq_some_iff.mp ha
  exact ⟨k, e.value, r.setIndex_of_unhandled newIndex (Key.ofValue_of_toOption hk) none,
    ht.set k e.value⟩

end EntryEdit

/-! ### Containers of the host -/

namespace Heap

variable {owner : Nat} {h g k h' : Heap} {v : Variant} {x t : Value} {depth : Nat}

theorem Grows.kept {above : Nat} (hg : h.Grows g) : h.Kept above g where
  tables := hg.tables
  boxes := hg.boxes
  entries id _ hi := hg.table id hi ▸ .refl _
  meta? id _ hi := congrArg Table.meta? (hg.table id hi)
  boxed? id hi := congrArg (Option.map Boxed.value) (hg.box? id hi)

theorem Unhandled.grows {mark : Nat} {ops : List Metamethod} (hu : h.Unhandled mark ops)
    (hg : h.Grows g) (hm : mark < h.tables.size) : g.Unhandled mark ops := fun op ho => by
  rw [hg.table mark hm]
  exact hu op ho

/-- What could be stored without loss is read as it was, as long as its cells are kept. -/
theorem Wrote.readsAs (hw : h.Wrote owner k v x) (hl : v.levels ≤ depth)
    (hs : v.Storable owner (holeLimit + 1)) : ReadsAs owner h.tables.size k depth v x := by
  obtain ⟨g, g', hg, he, hg'⟩ := hw
  obtain ⟨y, g'', he', -, -, hr⟩ := stores_of_storable hl hs g hg.tables
  cases he.symm.trans he'
  exact hr.kept hg'.kept

theorem grows_of_encodeItems {vs : List Variant} {xs : List Value}
    (he : encodeItems owner vs h = (.ok xs, k)) : h.Grows k := by
  have grows : h.Grows (encodeItems owner vs h).2 :=
    Grows.storing.encodeItems (fun v _ => grows_encode owner v) h
  rwa [he] at grows

theorem wrote_items {vs : List Variant} {xs : List Value} (hg : g.Grows h)
    (he : encodeItems owner vs h = (.ok xs, k)) : List.Forall₂ (g.Wrote owner k) vs xs := by
  induction vs generalizing h xs with
  | nil =>
    rw [encodeItems] at he
    cases he
    exact .nil
  | cons v rest ih =>
    rw [encodeItems] at he
    split at he
    · cases he
    next x h₁ hx =>
      split at he
      · cases he
      next ys h₂ hr =>
        cases he
        exact .cons ⟨h, h₁, hg, hx, grows_of_encodeItems hr⟩
          (ih (hg.trans (grows_of_encode hx)) hr)

/-- An array without nil, as it is stored. -/
theorem exists_list {items : List Variant} (he : encode owner (.array items) h = (.ok t, h'))
    (hn : ∀ v ∈ items, v ≠ .nil) (hl : items.length ≤ lastItem) :
    ∃ k u xs, t = .table k.tables.size ∧ h.Grows k ∧ h' = (k.newTable u).2 ∧ u.Lists xs ∧
      List.Forall₂ (h.Wrote owner k) items xs := by
  obtain ⟨xs, k, hx, hk, rfl, rfl⟩ := encode_array_eq_ok he
  have wrote := wrote_items (.refl h) hx
  refine ⟨k, arrayTable xs, xs, rfl, hk, rfl, ?_, wrote⟩
  refine Table.lists_arrayTable (fun x hm => ?_) (wrote.length_eq ▸ hl)
  obtain ⟨v, hv, hw⟩ := exists_of_mem_left wrote.flip hm
  have filled := mt (Wrote.eq_nil_iff hw).mp (hn v hv)
  cases x <;> first | rfl | exact absurd rfl filled

theorem editable_of_encode {u : Table} {mark : Nat} {ops : List Metamethod} (hk : h.Grows k)
    (hm : mark < h.tables.size) (hu : h.Unhandled mark ops) :
    (k.newTable u).2.Editable mark ops k.tables.size := by
  refine ⟨?_, hm.trans_le hk.tables, hu.grows (hk.trans (.newTable k u)) hm⟩
  rw [newTable, Array.size_push]
  exact Nat.lt_succ_self _

/-- The keys of a dictionary are those at which its map is not nil. -/
theorem decodeTo_of_maps {m : Key → Value} {i : Nat} (ht : EntryEdit.Maps m (h.table i)) :
    ∃ keys : List Key, keys.Nodup ∧ (∀ k, k ∈ keys ↔ m k ≠ .nil) ∧ ∀ strict depth,
      decodeTo strict owner h (depth + 1) (.table i) =
        (keys.mapM fun k => decodeEntry strict owner h depth (k, m k)).map .dictionary := by
  obtain ⟨hm, get⟩ := ht
  have rows : (h.table i).entries = ((h.table i).entries.map (·.1)).map fun k => (k, m k) := by
    rw [List.map_map]
    refine ((List.map_congr_left (g := id) fun e he => ?_).trans (List.map_id _)).symm
    exact Prod.ext rfl ((get e.1).symm.trans (Table.get_of_mem he))
  refine ⟨(h.table i).entries.map (·.1), (h.table i).proper.distinct, fun k => ?_,
    fun strict depth => ?_⟩
  · rw [← get, Ne, Table.get_eq_nil_iff, not_not]
  · rw [decodeTo_dictionary (slots_of_dictionaryMark hm)]
    conv_lhs => rw [rows]
    rw [List.mapM_map]
    rfl

end Heap

/-- Edits of a stored array without nil are edits of its list, and edits of a stored dictionary
those of its map, as long as the metatables that mark them have no handlers. An edit that a list
has the place for succeeds, and so does one at a key. -/
theorem containers_follow_edits {owner : Nat} {h h' : Heap} {t : Value} (r : Reentry)
    (known : Heap.dictionaryMark < h.tables.size) :
    (∀ items, h.encode owner (.array items) = (.ok t, h') → (∀ v ∈ items, v ≠ .nil) →
      items.length ≤ Heap.lastItem → h.Unhandled Heap.arrayMark ListEdit.operations →
      ∃ (k : Heap) (u : Table) (xs : List Value),
        t = .table k.tables.size ∧ h' = (k.newTable u).2 ∧
        List.Forall₂ (fun v x => h.Wrote owner k v x ∧ ∀ depth, v.levels ≤ depth →
          v.Storable owner (holeLimit + 1) →
            Heap.ReadsAs owner h.tables.size k depth v x) items xs ∧
        ∀ (w w' : World) es zs, w.bridge.heap = h' →
          Edited (ListEdit.run r t) Heap.arrayMark ListEdit.operations k.tables.size w es w' →
          es.foldlM ListEdit.after? xs = some zs →
          (∀ strict depth, w'.bridge.heap.decodeTo strict owner (depth + 1) t =
            (zs.mapM (w'.bridge.heap.decodeTo strict owner depth)).map .array) ∧
          ∀ e zs', ListEdit.after? zs e = some zs' → ∃ w'', e.run r t w' = .ok () w'') ∧
    ∀ es₀, h.encode owner (.dictionary es₀) = (.ok t, h') →
      h.Unhandled Heap.dictionaryMark EntryEdit.operations →
      ∃ (id : Nat) (cells : Nat → Key),
        t = .table id ∧ Heap.Merged owner h es₀ cells (h'.table id) h' ∧
        ∀ (w w' : World) es m, w.bridge.heap = h' →
          Edited (EntryEdit.run r t) Heap.dictionaryMark EntryEdit.operations id w es w' →
          es.foldlM EntryEdit.after? (h'.table id).get = some m →
          (∃ keys : List Key, keys.Nodup ∧ (∀ k, k ∈ keys ↔ m k ≠ .nil) ∧ ∀ strict depth,
            w'.bridge.heap.decodeTo strict owner (depth + 1) t =
              (keys.mapM fun k => w'.bridge.heap.decodeEntry strict owner depth (k, m k)).map
                .dictionary) ∧
          (∀ e m', EntryEdit.after? m e = some m' → ∃ w'', e.run r t w' = .ok () w'') ∧
          ∀ (e : EntryEdit) fault, Key.ofValue e.key = .error fault →
            ∃ x, e.run r t w' = .raised x w' := by
  constructor
  · intro items he hn hl hu
    obtain ⟨k, u, xs, rfl, hk, hh, lists, wrote⟩ := Heap.exists_list he hn hl
    refine ⟨k, u, xs, rfl, hh, wrote.imp fun v x hw => ⟨hw, fun _ => hw.readsAs⟩,
      fun w w' es zs hw edited hz => ?_⟩
    subst hw
    have table : w.bridge.heap.table k.tables.size = u := hh ▸ Heap.table_newTable k u
    have start : w.bridge.heap.Editable Heap.arrayMark ListEdit.operations k.tables.size := by
      rw [hh]
      exact Heap.editable_of_encode hk (Nat.lt_trans (by decide) known) hu
    -- Edits keep the table a list, and what happens in between leaves it alone.
    obtain ⟨editable, holds⟩ := edited.keeps (f := ListEdit.after?) (P := fun s t => t.Lists s)
      (fun w e s s' hw ht ha => ListEdit.run_eq hw ht ha) start (table.symm ▸ lists) hz
    refine ⟨fun strict depth => ?_, fun e zs' ha => ?_⟩
    · exact Heap.decodeTo_array holds.slots
    · obtain ⟨_, _, hr, -⟩ := ListEdit.run_eq (r := r) editable holds ha
      exact ⟨_, hr⟩
  · intro es₀ he hu
    obtain ⟨id, cells, rfl, old, size, mark, merged⟩ := Heap.exists_merged he
    refine ⟨id, cells, rfl, merged, fun w w' es m hw edited hm => ?_⟩
    subst hw
    have start : w.bridge.heap.Editable Heap.dictionaryMark EntryEdit.operations id :=
      ⟨size, known.trans_le old, hu.grows merged.grows known⟩
    obtain ⟨editable, holds⟩ := edited.keeps (f := EntryEdit.after?) (P := EntryEdit.Maps)
      (fun w e s s' hw ht ha => EntryEdit.run_eq hw ht ha) start ⟨mark, fun _ => rfl⟩ hm
    have newIndex : w'.bridge.heap.handler? .newIndex (.table id) = none :=
      editable.unhandled.handler? holds.1 (by decide)
    refine ⟨Heap.decodeTo_of_maps holds, fun e m' ha => ?_, fun e fault hk => ?_⟩
    · obtain ⟨_, _, hr, -⟩ := EntryEdit.run_eq (r := r) editable holds ha
      exact ⟨_, hr⟩
    · exact ⟨_, r.setIndex_of_error newIndex hk none⟩

/-- A world with this heap. -/
def World.ofHeap (h : Heap) : World :=
  ⟨default, ⟨"main", 1, h, .restrictive, none, false, false, []⟩⟩

/-- A list that gets a second item and then another first one, and a dictionary whose only key
becomes the number one: it stays a dictionary. -/
theorem containers_follow_edits_pushed :
    Heap.dictionaryMark < Heap.initial.tables.size ∧
    (∃ h' w₁ w₂, Heap.initial.encode 1 (.array [.int 1]) = (.ok (.table 3), h') ∧
      (ListEdit.append (.int 2)).run .full (.table 3) (World.ofHeap h') = .ok () w₁ ∧
      (ListEdit.replace (.int 1) (.int 5)).run .full (.table 3) w₁ = .ok () w₂ ∧
      w₂.bridge.heap.decodeTo true 1 depthLimit (.table 3) = .ok (.array [.int 5, .int 2])) ∧
    ∃ h' w₁ w₂,
      Heap.initial.encode 1 (.dictionary [(.bool true, .int 1)]) = (.ok (.table 3), h') ∧
      (EntryEdit.mk (.int 1) (.int 2)).run .full (.table 3) (World.ofHeap h') = .ok () w₁ ∧
      (EntryEdit.mk (.bool true) .nil).run .full (.table 3) w₁ = .ok () w₂ ∧
      w₂.bridge.heap.decodeTo true 1 depthLimit (.table 3) =
        .ok (.dictionary [(.int 1, .int 2)]) := by
  have known : Heap.dictionaryMark < Heap.initial.tables.size := by decide
  refine ⟨known, ?_, ?_⟩
  · have stored : Heap.initial.encode 1 (.array [.int 1]) =
      (.ok (.table 3), (Heap.initial.encode 1 (.array [.int 1])).2) := rfl
    obtain ⟨k, u, xs, ht, -, wrote, edits⟩ := (containers_follow_edits .full known).1 _ stored
      (by simp) (by decide) fun _ _ => rfl
    rw [← Value.table.inj ht] at edits
    obtain rfl : xs = [.int 1] := by
      cases wrote with
      | cons hw rest =>
        cases rest
        rw [hw.1.eq_plain rfl]
        rfl
    obtain ⟨w₁, h₁⟩ := (edits _ (World.ofHeap _) [] _ rfl .start rfl).2 (.append (.int 2)) _ rfl
    have once : Edited _ Heap.arrayMark ListEdit.operations 3 _ _ w₁ := .edit .start h₁
    obtain ⟨w₂, h₂⟩ := (edits _ w₁ _ _ rfl once rfl).2 (.replace (.int 1) (.int 5)) _ rfl
    exact ⟨_, w₁, w₂, stored, h₁, h₂, (edits _ w₂ _ _ rfl (.edit once h₂) rfl).1 true 127⟩
  · have stored : Heap.initial.encode 1 (.dictionary [(.bool true, .int 1)]) =
      (.ok (.table 3), (Heap.initial.encode 1 (.dictionary [(.bool true, .int 1)])).2) := rfl
    obtain ⟨id, _, ht, -, edits⟩ := (containers_follow_edits .full known).2 _ stored
      fun _ _ => rfl
    obtain rfl := Value.table.inj ht
    obtain ⟨w₁, h₁⟩ := (edits _ (World.ofHeap _) [] _ rfl .start rfl).2.1 ⟨.int 1, .int 2⟩ _ rfl
    have once : Edited _ Heap.dictionaryMark EntryEdit.operations 3 _ _ w₁ := .edit .start h₁
    obtain ⟨w₂, h₂⟩ := (edits _ w₁ _ _ rfl once rfl).2.1 ⟨.bool true, .nil⟩ _ rfl
    let kept := Function.update (Function.update (Table.empty.set (.bool true) (.int 1)).get
      (.int 1) (.int 2)) (.bool true) .nil
    obtain ⟨keys, distinct, live, decoded⟩ := (edits _ w₂ _ kept rfl (.edit once h₂) rfl).1
    -- Of the keys that the map ever had, only the number is left.
    obtain rfl : keys = [.int 1] := by
      refine List.perm_singleton.mp ((List.perm_ext_iff_of_nodup distinct (by simp)).mpr fun k => ?_)
      rw [live, List.mem_singleton]
      by_cases first : k = .bool true
      · simp [kept, first]
      · have gone : (Table.empty.set (.bool true) (.int 1)).get k = .nil :=
          if_neg (Ne.symm first)
        simp [kept, Function.update_apply, first, gone]
    exact ⟨_, w₁, w₂, stored, h₁, h₂, decoded true 127⟩

/-- With a handler for writes in the mark, an edit of an array ends up elsewhere. -/
theorem handled_edits_miss :
    ∃ h' w', (Heap.initial.set Heap.arrayMark (.ofString "__newindex")
        (.table Heap.globals)).encode 1 (.array [.int 1]) = (.ok (.table 3), h') ∧
      (ListEdit.append (.int 2)).run .full (.table 3) (World.ofHeap h') = .ok () w' ∧
      w'.bridge.heap.decodeStrict 1 (.table 3) = .ok (.array [.int 1]) :=
  ⟨_, _, rfl, rfl, rfl⟩

end ScriptHost
