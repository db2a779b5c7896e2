import ScriptHost.Proofs.Codec.Shape

/-! What a table that is marked as an array is read as, whatever scripts have made of it. It
reaches to its declared length or to its border, whichever is further. It is a list of its items
if it has no other keys and not too many items are missing; otherwise it is a dictionary. The
entry of the length counts like an item when the missing ones are counted. A table with gaps has
several borders; its reading follows the one that is found, which may be any of them. -/

namespace ScriptHost

open Heap

namespace Table

variable {t : Table} {n? : Option Int64}

/-- How far the items reach if the length `n?` is declared. -/
def reach (t : Table) (n? : Option Int64) : Nat :=
  max ((n?.map fun n => n.toInt.toNat).getD 0) t.border

/-- There are no keys but that of the length and those of items within reach. -/
def KeysWithin (t : Table) (size : Nat) : Prop :=
  ∀ k ∈ t.entries.map (·.1), k = lengthKey ∨ ∃ m : Int64, k = .int m ∧ 1 ≤ m.toInt ∧ m.toInt ≤ size

/-! ### The entries besides the items -/

theorem length_eq_numbers {ks : List Key} (hk : ∀ k ∈ ks, k.int? = none → k = lengthKey) :
    ks.length = (ks.filterMap Key.int?).length + ks.count lengthKey := by
  induction ks with
  | nil => rfl
  | cons k rest ih =>
    rw [List.forall_mem_cons] at hk
    have rest := ih hk.2
    cases hn : k.int? with
    | some n =>
      have other : k ≠ lengthKey := by
        rintro rfl
        cases hn
      rw [List.filterMap_cons_some hn, List.length_cons, List.length_cons,
        List.count_cons_of_ne other]
      omega
    | none =>
      rw [List.filterMap_cons_none hn, hk.1 hn, List.length_cons, List.count_cons_self]
      omega

/-- The entries are those of the items, and that of the length. -/
theorem KeysWithin.length_eq {size : Nat} (hk : t.KeysWithin size)
    (hn : t.get lengthKey = (n?.map Value.int).getD .nil) :
    t.entries.length = t.numbers.length + if n?.isSome then 1 else 0 := by
  have other (k : Key) (hm : k ∈ t.entries.map (·.1)) (hn : k.int? = none) : k = lengthKey := by
    rcases hk k hm with h | ⟨m, rfl, -⟩
    · exact h
    · cases hn
  have all := length_eq_numbers other
  rw [List.length_map] at all
  rw [all, numbers]
  congr 1
  cases n? with
  | none => exact List.count_eq_zero_of_not_mem (get_eq_nil_iff.mp hn)
  | some n =>
    refine List.count_eq_one_of_mem t.proper.distinct ?_
    by_contra hl
    rw [get_eq_nil_iff.mpr hl] at hn
    cases hn

/-! ### The slots -/

section Marked

variable (hm : t.meta? = some arrayMark) (hn : t.get lengthKey = (n?.map Value.int).getD .nil)

include hm hn

theorem declared?_of_marked : t.declared? = n? := by
  rw [declared?, shape?, if_pos hm, if_pos rfl, hn]
  cases n? <;> rfl

theorem extent_of_marked : t.extent = t.reach n? := by
  rw [extent, declared?_of_marked hm hn, shape?, if_pos hm, if_pos rfl, reach]

theorem keysWithin_iff : t.KeysWithin (t.reach n?) ↔
    t.entries.all (fun e => fits t.extent t.declared?.isSome e.1) = true := by
  rw [List.all_eq_true, extent_of_marked hm hn, declared?_of_marked hm hn]
  constructor
  · intro hk e he
    have key : e.1 ∈ t.entries.map (·.1) := List.mem_map_of_mem he
    rcases hk e.1 key with h | ⟨m, h, bounds⟩
    · rw [h] at key ⊢
      have declared : n?.isSome = true := by
        cases n? with
        | some n => rfl
        | none => exact absurd key (get_eq_nil_iff.mp hn)
      simp [fits, lengthKey, Key.ofString, declared]
    · rw [h, fits]
      simpa using bounds
  · intro hf k hk
    obtain ⟨e, he, rfl⟩ := List.mem_map.mp hk
    have fit := hf e he
    cases hk : e.1 with
    | int m =>
      rw [hk, fits] at fit
      exact .inr ⟨m, rfl, by simpa using fit⟩
    | _ =>
      rw [hk] at fit
      simp only [fits, Bool.and_eq_true, decide_eq_true_eq] at fit
      exact .inl fit.2

theorem slots?_of_marked : t.slots? =
    if t.entries.length + holeLimit < t.reach n? then none
    else if t.entries.all (fun e => fits t.extent t.declared?.isSome e.1) then
      some ((List.range (t.reach n?)).map fun i => t.get (.int (Int64.ofNat (i + 1))))
    else none := by
  rw [slots?, shape?, if_pos hm, if_neg (by decide), ← extent_of_marked hm hn]

/-- One more item may be missing if the length is declared. -/
theorem slots?_of_keysWithin (hk : t.KeysWithin (t.reach n?))
    (few : t.reach n? ≤ t.numbers.length + holeLimit + if n?.isSome then 1 else 0) :
    t.slots? = some ((List.range (t.reach n?)).map fun i => t.get (.int (Int64.ofNat (i + 1)))) := by
  have count := hk.length_eq hn
  rw [slots?_of_marked hm hn, if_neg (by omega), if_pos ((keysWithin_iff hm hn).mp hk)]

theorem slots?_of_not_within (hk : ¬ (t.KeysWithin (t.reach n?) ∧
      t.reach n? ≤ t.numbers.length + holeLimit + if n?.isSome then 1 else 0)) :
    t.slots? = none := by
  rw [slots?_of_marked hm hn]
  split
  · rfl
  next few =>
    refine if_neg fun all => hk ⟨(keysWithin_iff hm hn).mpr all, ?_⟩
    have count := ((keysWithin_iff hm hn).mpr all).length_eq hn
    omega

end Marked

end Table

/-! ### Reading -/

namespace Heap

variable {strict : Bool} {owner : Nat} {h : Heap} {depth id : Nat} {w : Variant}

theorem decodeTo_of_slots {size : Nat}
    (hs : (h.table id).slots? = some ((List.range size).map (h.item id))) :
    decodeTo strict owner h (depth + 1) (.table id) = .ok w ↔ ∃ vs, w = .array vs ∧
      vs.length = size ∧
        ∀ i (hi : i < vs.length), decodeTo strict owner h depth (h.item id i) = .ok vs[i] := by
  rw [decodeTo_table_eq_ok]
  constructor
  · rintro (⟨items, vs, hi, rfl, hr⟩ | ⟨_, hnone, _⟩)
    · obtain rfl := Option.some.inj (hs.symm.trans hi)
      obtain ⟨hl, hr⟩ := forall₂_items.mp hr
      exact ⟨vs, rfl, hl.symm, hr⟩
    · rw [hs] at hnone
      cases hnone
  · rintro ⟨vs, rfl, rfl, hr⟩
    exact .inl ⟨_, vs, hs, rfl, forall₂_items.mpr ⟨rfl, hr⟩⟩

theorem decodeTo_of_no_slots (hs : (h.table id).slots? = none) :
    decodeTo strict owner h (depth + 1) (.table id) = .ok w ↔ ∃ es, w = .dictionary es ∧
      List.Forall₂ (fun e f => decodeTo strict owner h depth e.1.toValue = .ok f.1 ∧
        decodeTo strict owner h depth e.2 = .ok f.2) (h.table id).entries es := by
  rw [decodeTo_table_eq_ok]
  constructor
  · rintro (⟨_, _, hi, _⟩ | ⟨es, -, rfl, hr⟩)
    · rw [hs] at hi
      cases hi
    · exact ⟨es, rfl, hr⟩
  · rintro ⟨es, rfl, hr⟩
    exact .inr ⟨es, hs, rfl, hr⟩

/-- A table marked as an array, whose length is undeclared or declared as an integer, reaches to
that length or to the border that is found in it, which may be any one. It is read as the list of
its items if there is nothing else in it and no more than 4096 of them are missing, or 4097 where
the length is declared; else as all its entries. There are never more than 4096 places more than
entries. -/
theorem marked_arrays_are_read (strict : Bool) (owner : Nat) (h : Heap) (depth id : Nat)
    (n? : Option Int64) (hm : (h.table id).meta? = some arrayMark)
    (hn : (h.table id).get lengthKey = (n?.map Value.int).getD .nil) :
    let t := h.table id
    let isList := t.KeysWithin (t.reach n?) ∧
      t.reach n? ≤ t.numbers.length + holeLimit + if n?.isSome then 1 else 0
    (isList → ∀ w, decodeTo strict owner h (depth + 1) (.table id) = .ok w ↔ ∃ vs, w = .array vs ∧
      vs.length = t.reach n? ∧
        ∀ i (hi : i < vs.length), decodeTo strict owner h depth (h.item id i) = .ok vs[i]) ∧
    (¬ isList → ∀ w, decodeTo strict owner h (depth + 1) (.table id) = .ok w ↔
      ∃ es, w = .dictionary es ∧
        List.Forall₂ (fun e f => decodeTo strict owner h depth e.1.toValue = .ok f.1 ∧
          decodeTo strict owner h depth e.2 = .ok f.2) t.entries es) ∧
    (∀ items, t.slots? = some items →
      items.length = t.reach n? ∧ items.length ≤ t.entries.length + holeLimit) ∧
    t.IsBorder t.border ∧ ∀ b, t.IsBorder b → { t with hint := b }.border = b := by
  refine ⟨fun ⟨hk, few⟩ _ => decodeTo_of_slots (Table.slots?_of_keysWithin hm hn hk few),
    fun none _ => decodeTo_of_no_slots (Table.slots?_of_not_within hm hn none), ?_,
    Table.isBorder_border _, fun _ hb => hb.border_eq⟩
  intro items hs
  obtain ⟨few, -, rfl⟩ := Table.slots_eq hs
  rw [List.length_map, List.length_range]
  exact ⟨Table.extent_of_marked hm hn, few⟩

/-- The list of 1, 2 and 3 without its second item: where the search begins at its end, it finds
that again; where it begins at the front, it stops before the gap. -/
example : let h := (initial.encode 0 (.array [.int 1, .int 2, .int 3])).2.set 3 (.int 2) .nil
    h.decodeStrict 0 (.table 3) = .ok (.array [.int 1, .nil, .int 3]) ∧
      (h.setTable 3 { h.table 3 with hint := 0 }).decodeStrict 0 (.table 3) =
        .ok (.dictionary [(.int 1, .int 1), (.int 3, .int 3)]) := ⟨rfl, rfl⟩

/-- The table that is marked as an array and holds nothing but its length. -/
def hollow (n : Int64) : Heap :=
  (initial.newTable { Table.empty.set lengthKey (.int n) with meta? := some arrayMark }).2

theorem keysWithin_hollow (n : Int64) (size : Nat) : ((hollow n).table 3).KeysWithin size :=
  fun k (hk : k ∈ [lengthKey]) => .inl (List.mem_singleton.mp hk)

theorem get_hollow (n : Int64) :
    ((hollow n).table 3).get lengthKey = ((some n).map Value.int).getD .nil :=
  rfl

theorem item_hollow (n : Int64) (i : Nat) : (hollow n).item 3 i = .nil := rfl

theorem marked_arrays_are_read_hollow :
    ((hollow 2).table 3).meta? = some arrayMark ∧
      ((hollow 2).table 3).get lengthKey = .int 2 ∧
      decodeTo true 0 (hollow 2) depthLimit (.table 3) = .ok (.array [.nil, .nil]) := by
  have read := (marked_arrays_are_read true 0 (hollow 2) 127 3 (some 2) rfl (get_hollow 2)).1
    ⟨keysWithin_hollow 2 _, by decide⟩
  refine ⟨rfl, rfl, (read _).mpr ⟨List.replicate 2 .nil, rfl, by decide, fun i hi => ?_⟩⟩
  rw [item_hollow, List.getElem_replicate]
  rfl

/-- One item more than the limit is missing, and yet the table is read as a list. -/
theorem hollow_past_limit :
    ((hollow 4097).table 3).numbers.length + holeLimit < ((hollow 4097).table 3).reach (some 4097) ∧
      decodeTo true 0 (hollow 4097) depthLimit (.table 3) =
        .ok (.array (List.replicate 4097 .nil)) := by
  have reach : ((hollow 4097).table 3).reach (some 4097) = 4097 := by decide
  have marked : ((hollow 4097).table 3).meta? = some arrayMark := rfl
  have slots := Table.slots?_of_keysWithin marked (get_hollow 4097) (keysWithin_hollow _ _)
    (by rw [reach]; decide)
  rw [reach] at slots
  refine ⟨by decide, (decodeTo_of_slots slots).mpr ⟨_, rfl, List.length_replicate, fun i hi => ?_⟩⟩
  rw [item_hollow, List.getElem_replicate]
  rfl

end Heap

end ScriptHost
