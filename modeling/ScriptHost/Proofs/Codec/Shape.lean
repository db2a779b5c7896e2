import ScriptHost.Machine.World
import ScriptHost.Proofs.Codec.Agreement
import ScriptHost.Proofs.Codec.Arrays

/-! What a table that is not marked as an array is read as. If its keys are the integers from 1
on, without a gap, and it is not marked as a dictionary, it is a list of its items; otherwise it
is a dictionary with one entry for each key. Nothing but the entries and the mark is looked at. -/

namespace ScriptHost

theorem mapM_congr {α β ε : Type} {f g : α → Except ε β} {xs : List α}
    (h : ∀ x ∈ xs, f x = g x) : xs.mapM f = xs.mapM g := by
  induction xs with
  | nil => rfl
  | cons x rest ih =>
    rw [List.mapM_cons, List.mapM_cons, h x List.mem_cons_self,
      ih fun y hy => h y (List.mem_cons_of_mem _ hy)]

namespace Table

variable {t : Table} {items : List Value} {n : Nat}

/-- The keys are exactly the integers from 1 to `n`. -/
structure IsSequence (t : Table) (n : Nat) : Prop where
  integers : ∀ k ∈ t.entries.map (·.1), ∃ m : Int64, k = .int m
  range : ∀ i : Int, (∃ m : Int64, m.toInt = i ∧ .int m ∈ t.entries.map (·.1)) ↔ 1 ≤ i ∧ i ≤ n

/-- The integers from 1 to `n`, in order. -/
def span (n : Nat) : List Int := (List.range n).map fun i : Nat => (i : Int) + 1

theorem nodup_span (n : Nat) : (span n).Nodup :=
  List.nodup_range.map fun i j (hij : (i : Int) + 1 = j + 1) => by omega

theorem length_span (n : Nat) : (span n).length = n := by
  rw [span, List.length_map, List.length_range]

theorem mem_span {i : Int} : i ∈ span n ↔ 1 ≤ i ∧ i ≤ n := by
  simp only [span, List.mem_map, List.mem_range]
  constructor
  · rintro ⟨j, hj, rfl⟩
    omega
  · rintro ⟨h1, hn⟩
    exact ⟨i.toNat - 1, by omega, by omega⟩

/-! ### The numbers among the keys -/

theorem nodup_toInt_numbers (t : Table) : (t.numbers.map Int64.toInt).Nodup :=
  t.nodup_numbers.map fun _ _ => Int64.toInt_inj.mp

theorem mem_toInt_numbers {i : Int} : i ∈ t.numbers.map Int64.toInt ↔
    ∃ m : Int64, m.toInt = i ∧ .int m ∈ t.entries.map (·.1) := by
  simp only [List.mem_map, mem_numbers]
  exact ⟨fun ⟨m, hm, hi⟩ => ⟨m, hi, hm⟩, fun ⟨m, hi, hm⟩ => ⟨m, hm, hi⟩⟩

theorem length_toInt_numbers (h : ∀ k ∈ t.entries.map (·.1), ∃ m : Int64, k = .int m) :
    (t.numbers.map Int64.toInt).length = t.entries.length := by
  rw [List.length_map, numbers, List.filterMap_length_eq_length.mpr, List.length_map]
  intro k hk
  obtain ⟨m, rfl⟩ := h k hk
  rfl

namespace IsSequence

theorem length_eq (h : t.IsSequence n) : t.entries.length = n := by
  have all : (t.numbers.map Int64.toInt).Perm (span n) := by
    rw [List.perm_ext_iff_of_nodup t.nodup_toInt_numbers (nodup_span n)]
    intro i
    rw [mem_toInt_numbers, mem_span]
    exact h.range i
  rw [← length_toInt_numbers h.integers, all.length_eq, length_span]

theorem fits (h : t.IsSequence n) {e : Key × Value} (he : e ∈ t.entries) (counted : Bool) :
    Table.fits n counted e.1 = true := by
  have hk : e.1 ∈ t.entries.map (·.1) := List.mem_map_of_mem he
  obtain ⟨m, hm⟩ := h.integers _ hk
  rw [hm] at hk ⊢
  have := (h.range m.toInt).mp ⟨m, rfl, hk⟩
  simpa [Table.fits] using this

end IsSequence

/-- Distinct numbers that all fit into as many places leave no place empty. -/
theorem isSequence_of_fits (h : ∀ e ∈ t.entries, fits t.entries.length false e.1 = true) :
    t.IsSequence t.entries.length := by
  have number {k : Key} (hk : k ∈ t.entries.map (·.1)) :
      ∃ m : Int64, k = .int m ∧ 1 ≤ m.toInt ∧ m.toInt ≤ t.entries.length := by
    obtain ⟨e, he, rfl⟩ := List.mem_map.mp hk
    have he := h e he
    cases hk : e.1 with
    | int m =>
      rw [hk] at he
      exact ⟨m, rfl, by simpa [fits] using he⟩
    | _ =>
      rw [hk] at he
      cases he
  have integers (k : Key) (hk : k ∈ t.entries.map (·.1)) : ∃ m : Int64, k = .int m :=
    (number hk).imp fun _ hm => hm.1
  -- As many different numbers as there are places leave no place out.
  have all : (t.numbers.map Int64.toInt).Perm (span t.entries.length) := by
    have within : (t.numbers.map Int64.toInt).Subperm (span t.entries.length) := by
      refine List.subperm_of_subset t.nodup_toInt_numbers fun i hi => ?_
      obtain ⟨m, rfl, hk⟩ := mem_toInt_numbers.mp hi
      obtain ⟨_, hm, bounds⟩ := number hk
      cases hm
      exact mem_span.mpr bounds
    exact within.perm_of_length_le
      (Nat.le_of_eq (by rw [length_toInt_numbers integers, length_span]))
  refine ⟨integers, fun i => ?_⟩
  rw [← mem_toInt_numbers, all.mem_iff, mem_span]

/-! ### Shapes -/

theorem shape?_ne_array (hm : t.meta? ≠ some Heap.arrayMark) : t.shape? ≠ some .array := by
  rw [shape?, if_neg hm]
  split
  · decide
  · decide

theorem shape?_eq_dictionary_iff :
    t.shape? = some .dictionary ↔ t.meta? = some Heap.dictionaryMark := by
  unfold shape?
  split
  next h =>
    rw [h]
    exact iff_of_false nofun (by decide)
  next =>
    split
    next h => exact iff_of_true rfl h
    next h => exact iff_of_false nofun h

/-- A table without the mark of arrays is an array if it is a sequence, unless it is marked as a
dictionary. -/
theorem slots?_eq_some_iff (hm : t.meta? ≠ some Heap.arrayMark) :
    t.slots? = some items ↔ t.meta? ≠ some Heap.dictionaryMark ∧ t.IsSequence items.length ∧
      items = (List.range items.length).map fun i => t.get (.int (Int64.ofNat (i + 1))) := by
  have unmarked := shape?_ne_array hm
  have undeclared : t.declared? = none := by rw [declared?, if_neg unmarked]
  have extent : t.extent = t.entries.length := by rw [Table.extent, if_neg unmarked]
  constructor
  · intro hs
    obtain ⟨-, fit, he⟩ := slots_eq hs
    rw [undeclared, extent] at fit
    rw [extent] at he
    have length : items.length = t.entries.length := by
      rw [he, List.length_map, List.length_range]
    rw [length]
    refine ⟨fun hd => ?_, isSequence_of_fits fit, he⟩
    rw [slots?, if_pos (shape?_eq_dictionary_iff.mpr hd)] at hs
    cases hs
  · rintro ⟨hd, seq, he⟩
    have fit : t.entries.all (fun e => fits t.extent t.declared?.isSome e.1) = true := by
      rw [List.all_eq_true, extent, seq.length_eq]
      exact fun e he => seq.fits he _
    rw [slots?, if_neg (shape?_eq_dictionary_iff.not.mpr hd), if_neg (by omega), if_pos fit,
      extent, seq.length_eq, ← he]

theorem slots?_eq_none_iff (hm : t.meta? ≠ some Heap.arrayMark) :
    t.slots? = none ↔ t.meta? = some Heap.dictionaryMark ∨ ∀ n, ¬ t.IsSequence n := by
  rw [Option.eq_none_iff_forall_ne_some]
  constructor
  · intro none
    by_contra h
    simp only [not_or, not_forall, not_not] at h
    obtain ⟨hd, n, seq⟩ := h
    refine none ((List.range n).map fun i => t.get (.int (Int64.ofNat (i + 1)))) ?_
    rw [slots?_eq_some_iff hm, List.length_map, List.length_range]
    exact ⟨hd, seq, rfl⟩
  · rintro h items hs
    obtain ⟨hd, seq, -⟩ := (slots?_eq_some_iff hm).mp hs
    rcases h with h | h
    · exact hd h
    · exact h _ seq

/-- Nothing but the entries, the mark and where a marked list ends decides. -/
theorem slots?_congr {u : Table} (he : u.entries = t.entries) (hs : u.shape? = t.shape?)
    (hb : t.shape? = some .array → u.border = t.border) : u.slots? = t.slots? := by
  have get : u.get = t.get := by
    funext k
    rw [get, get, he]
  have declared : u.declared? = t.declared? := by rw [declared?, declared?, hs, get]
  have extent : u.extent = t.extent := by
    rw [Table.extent, Table.extent, hs, declared, he]
    split
    next marked => rw [hb marked]
    next => rfl
  rw [slots?, slots?, hs, extent, declared, he, get]

end Table

/-! ### Reading -/

namespace Heap

variable {strict : Bool} {owner : Nat} {h : Heap} {depth id : Nat}

/-- The item with number `i + 1`. -/
def item (h : Heap) (id i : Nat) : Value := h.get id (.int (Int64.ofNat (i + 1)))

theorem forall₂_items {n : Nat} {vs : List Variant} :
    List.Forall₂ (fun x v => decodeTo strict owner h depth x = .ok v)
        ((List.range n).map (h.item id)) vs ↔ n = vs.length ∧
      ∀ i (hi : i < vs.length), decodeTo strict owner h depth (h.item id i) = .ok vs[i] := by
  rw [List.forall₂_iff_get]
  simp only [List.length_map, List.length_range, List.get_eq_getElem, List.getElem_map,
    List.getElem_range]
  exact and_congr_right fun hl =>
    ⟨fun hr i hi => hr i (hl ▸ hi) hi, fun hr i _ hi => hr i hi⟩

theorem decodeTo_eq_array_iff (hm : (h.table id).meta? ≠ some arrayMark) {vs : List Variant} :
    decodeTo strict owner h (depth + 1) (.table id) = .ok (.array vs) ↔
      (h.table id).meta? ≠ some dictionaryMark ∧ (h.table id).IsSequence vs.length ∧
        ∀ i (hi : i < vs.length), decodeTo strict owner h depth (h.item id i) = .ok vs[i] := by
  rw [decodeTo_table_eq_ok]
  constructor
  · rintro (⟨items, ws, hs, hv, hr⟩ | ⟨_, _, hv, _⟩)
    · cases hv
      obtain ⟨hd, seq, he⟩ := (Table.slots?_eq_some_iff hm).mp hs
      obtain ⟨hl, hr⟩ := forall₂_items.mp (he ▸ hr)
      exact ⟨hd, hl ▸ seq, hr⟩
    · cases hv
  · rintro ⟨hd, seq, hr⟩
    refine .inl ⟨(List.range vs.length).map (h.item id), vs, ?_, rfl, forall₂_items.mpr ⟨rfl, hr⟩⟩
    rw [Table.slots?_eq_some_iff hm, List.length_map, List.length_range]
    exact ⟨hd, seq, rfl⟩

theorem decodeTo_eq_dictionary_iff (hm : (h.table id).meta? ≠ some arrayMark)
    {es : List (Variant × Variant)} :
    decodeTo strict owner h (depth + 1) (.table id) = .ok (.dictionary es) ↔
      ((h.table id).meta? = some dictionaryMark ∨ ∀ n, ¬ (h.table id).IsSequence n) ∧
        List.Forall₂ (fun e f => decodeTo strict owner h depth e.1.toValue = .ok f.1 ∧
          decodeTo strict owner h depth e.2 = .ok f.2) (h.table id).entries es := by
  rw [decodeTo_table_eq_ok, ← Table.slots?_eq_none_iff hm]
  constructor
  · rintro (⟨_, _, _, hv, _⟩ | ⟨_, hs, hv, hr⟩)
    · cases hv
    · cases hv
      exact ⟨hs, hr⟩
  · rintro ⟨hs, hr⟩
    exact .inr ⟨es, hs, rfl, hr⟩

/-- A table is refused exactly if one of its parts is. -/
theorem decodeTo_table_error_iff :
    (∃ r, decodeTo strict owner h (depth + 1) (.table id) = .error r) ↔
      ∃ x ∈ h.parts id, ∃ r, decodeTo strict owner h depth x = .error r := by
  constructor
  · rintro ⟨r, hr⟩
    obtain ⟨x, hx, hd⟩ := decodeTo_table_eq_error hr
    exact ⟨x, hx, r, hd⟩
  · rintro ⟨x, hx, r, hr⟩
    exact exists_decodeTo_table_eq_error hx hr

/-! ### What is not looked at -/

/-- In `g`, the tables and boxes that reading `v` from `h` comes to have the same entries, marks
and contents, and marked lists the same ends. Their metatables, and all functions, may be others. -/
structure ReadsAlike (g h : Heap) (v : Value) : Prop where
  entries : ∀ n id, h.Visits n v (.table id) → (g.table id).entries = (h.table id).entries
  marks : ∀ n id, h.Visits n v (.table id) → (g.table id).shape? = (h.table id).shape?
  borders : ∀ n id, h.Visits n v (.table id) → (h.table id).shape? = some .array →
    (g.table id).border = (h.table id).border
  boxes : ∀ n id, h.Visits n v (.box id) → g.boxed? id = h.boxed? id

theorem ReadsAlike.part {g : Heap} (hg : g.ReadsAlike h (.table id)) {x : Value}
    (hx : x ∈ h.parts id) : g.ReadsAlike h x :=
  ⟨fun _ _ hv => hg.entries _ _ (.part hx hv), fun _ _ hv => hg.marks _ _ (.part hx hv),
    fun _ _ hv => hg.borders _ _ (.part hx hv), fun _ _ hv => hg.boxes _ _ (.part hx hv)⟩

theorem ReadsAlike.decodeTo_eq {g : Heap} {v : Value} (hg : g.ReadsAlike h v) :
    decodeTo strict owner g depth v = decodeTo strict owner h depth v := by
  induction depth, v using readingInduction with
  | shallow depth v hv =>
    cases v with
    | box id =>
      simp only [decodeTo, hg.boxes 0 id (.here _)]
    | table id =>
      obtain rfl := hv id rfl
      simp only [decodeTo]
    | _ => simp only [decodeTo]
  | table depth id ih =>
    have here := Visits.here (h := h) (.table id)
    have slots : (g.table id).slots? = (h.table id).slots? :=
      Table.slots?_congr (hg.entries 0 id here) (hg.marks 0 id here) (hg.borders 0 id here)
    have part (x : Value) (hx : x ∈ h.parts id) :
        decodeTo strict owner g depth x = decodeTo strict owner h depth x := ih x (hg.part hx)
    unfold parts at part
    -- Both heaps take the table for the same container, and read its parts alike.
    cases hs : (h.table id).slots? with
    | some items =>
      rw [hs] at slots part
      rw [decodeTo_array slots, decodeTo_array hs, mapM_congr part]
    | none =>
      rw [hs] at slots part
      have entry (e : Key × Value) (he : e ∈ (h.table id).entries) :
          decodeEntry strict owner g depth e = decodeEntry strict owner h depth e := by
        have key := part e.1.toValue (List.mem_flatMap.mpr ⟨e, he, by simp⟩)
        have value := part e.2 (List.mem_flatMap.mpr ⟨e, he, by simp⟩)
        rw [decodeEntry, decodeEntry, key, value]
      rw [decodeTo_dictionary slots, decodeTo_dictionary hs, hg.entries 0 id here,
        mapM_congr entry]

/-! ### What a table is read as -/

theorem tables_are_read_by_their_keys (strict : Bool) (owner : Nat) (h : Heap) (depth id : Nat)
    (hm : (h.table id).meta? ≠ some arrayMark) :
    (∀ vs, decodeTo strict owner h (depth + 1) (.table id) = .ok (.array vs) ↔
      (h.table id).meta? ≠ some dictionaryMark ∧ (h.table id).IsSequence vs.length ∧
        ∀ i (hi : i < vs.length), decodeTo strict owner h depth (h.item id i) = .ok vs[i]) ∧
    (∀ es, decodeTo strict owner h (depth + 1) (.table id) = .ok (.dictionary es) ↔
      ((h.table id).meta? = some dictionaryMark ∨ ∀ n, ¬ (h.table id).IsSequence n) ∧
        List.Forall₂ (fun e f => decodeTo strict owner h depth e.1.toValue = .ok f.1 ∧
          decodeTo strict owner h depth e.2 = .ok f.2) (h.table id).entries es) ∧
    (∀ w, decodeTo strict owner h (depth + 1) (.table id) = .ok w →
      (∃ vs, w = .array vs) ∨ ∃ es, w = .dictionary es) ∧
    ((∃ r, decodeTo strict owner h (depth + 1) (.table id) = .error r) ↔
      strict = true ∧ ∃ x ∈ h.parts id, ∃ r, decodeTo strict owner h depth x = .error r) ∧
    (∀ g : Heap, g.ReadsAlike h (.table id) →
      decodeTo strict owner g (depth + 1) (.table id) =
        decodeTo strict owner h (depth + 1) (.table id)) ∧
    (∀ w : World, Act.decode (.table id) w =
      .ok (w.bridge.heap.decode w.bridge.id (.table id)) w) := by
  refine ⟨fun _ => decodeTo_eq_array_iff hm, fun _ => decodeTo_eq_dictionary_iff hm, ?_, ?_,
    fun _ hg => hg.decodeTo_eq, fun _ => rfl⟩
  · intro w hw
    rcases decodeTo_table_eq_ok.mp hw with ⟨_, vs, -, rfl, -⟩ | ⟨es, -, rfl, -⟩
    · exact .inl ⟨vs, rfl⟩
    · exact .inr ⟨es, rfl⟩
  · rw [decodeTo_table_error_iff]
    refine ⟨fun he => ⟨?_, he⟩, And.right⟩
    -- The lenient reading refuses no part.
    obtain ⟨x, -, r, hr⟩ := he
    by_contra hs
    rw [Bool.not_eq_true] at hs
    subst hs
    obtain ⟨w, hw⟩ := exists_decodeTo_false owner h depth x
    rw [hw] at hr
    cases hr

/-- The list of 7 and true, entered from its end, whose metatable answers for its length and for
all items. -/
def overruled : Heap :=
  let answers : Value := .function ⟨0, 0⟩
  let h := { initial with functions := #[.builtin .type] }
  let (answering, h) := h.newTable
    ((Table.empty.set (.ofString "__index") answers).set (.ofString "__len") answers)
  let list := (Table.empty.set (.int 2) (.bool true)).set (.int 1) (.int 7)
  (h.newTable { list with meta? := some answering }).2

theorem tables_are_read_by_their_keys_overruled :
    (overruled.table 4).meta? ≠ some arrayMark ∧
      decodeTo true 0 overruled depthLimit (.table 4) = .ok (.array [.int 7, .bool true]) := by
  have unmarked : (overruled.table 4).meta? ≠ some arrayMark := by decide
  refine ⟨unmarked, ((tables_are_read_by_their_keys true 0 overruled 127 4 unmarked).1 _).mpr
    ⟨by decide, Table.isSequence_of_fits (by decide), fun i hi => ?_⟩⟩
  match i with
  | 0 => rfl
  | 1 => rfl

end Heap

end ScriptHost
