import Mathlib.Data.List.Perm.Subperm
import ScriptHost.Codec.Decode
import ScriptHost.Proofs.Machine.Items

/-! The tables that stand for arrays. The table of a list of values is read as that list
again, as long as the holes in it are within the limit; and every table that is read as
an array has its holes within the limit. The key of the length may be one more. -/

namespace ScriptHost

open Heap

namespace Heap

/-! ### The table of a list -/

theorem toInt_ofNat {n : Nat} (h : n ≤ lastItem) : (Int64.ofNat n).toInt = n :=
  Int64.toInt_ofNat_of_lt (Nat.lt_succ_of_le h)

theorem toNat_toInt_le (n : Int64) : n.toInt.toNat ≤ lastItem := by
  have hn := n.toInt_lt
  unfold lastItem
  omega

theorem lookup_itemEntries {items : List Value} {n i : Nat} (hn : n + items.length ≤ lastItem + 1)
    (hi : i < items.length) :
    Table.lookup (.int (Int64.ofNat (n + i))) (itemEntries n items) = items[i] := by
  induction items generalizing n i with
  | nil => cases hi
  | cons v rest ih =>
    rw [List.length_cons] at hn
    rw [itemEntries, if_neg (by omega)]
    have later {i : Nat} (hi : i < rest.length) :
        Table.lookup (.int (Int64.ofNat (n + (i + 1)))) (itemEntries (n + 1) rest) = rest[i] := by
      rw [← Nat.add_assoc, Nat.add_right_comm]
      exact ih (by omega) hi
    -- The items behind it have greater numbers, so its own number is there once.
    have absent : .int (Int64.ofNat n) ∉ (itemEntries (n + 1) rest).map (·.1) := by
      intro hm
      obtain ⟨e, he, hk⟩ := List.mem_map.mp hm
      obtain ⟨j, hj, -, hl, h⟩ := key_of_itemEntries he
      have := ofNat_inj (by omega) (by omega)
        (Key.int.inj (hk.symm.trans h))
      omega
    cases i with
    | zero =>
      split
      next hv =>
        rw [Nat.add_zero, Table.lookup_of_not_mem absent]
        cases v <;> first | rfl | cases hv
      next => exact if_pos rfl
    | succ i =>
      rw [List.length_cons] at hi
      split
      next => exact later (by omega)
      next =>
        rw [Table.lookup, if_neg, later (by omega)]
        · rfl
        · intro hk
          have := ofNat_inj (by omega) (by omega) (Key.int.inj hk)
          omega

theorem length_itemEntries {items : List Value} {n : Nat} (hn : n + items.length ≤ lastItem + 1) :
    (itemEntries n items).length + items.countP Value.isNil = items.length := by
  induction items generalizing n with
  | nil => rfl
  | cons v rest ih =>
    rw [List.length_cons] at hn
    have hr := ih (n := n + 1) (by omega)
    rw [itemEntries, if_neg (by omega), List.countP_cons, List.length_cons]
    split
    next => omega
    next => rw [List.length_cons]; omega

theorem lengthKey_not_mem_itemEntries (n : Nat) (items : List Value) :
    lengthKey ∉ (itemEntries n items).map (·.1) := by
  intro hm
  obtain ⟨e, he, hk⟩ := List.mem_map.mp hm
  obtain ⟨i, -, -, -, h⟩ := key_of_itemEntries he
  rw [h] at hk
  cases hk

variable {items : List Value}

theorem entries_arrayTable (items : List Value) :
    (arrayTable items).entries = itemEntries 1 items ++
      if items.any Value.isNil then [(lengthKey, .int (Int64.ofNat items.length))] else [] := by
  unfold arrayTable
  split
  · exact Table.entries_set_of_not_mem
      (Table.lookup_of_not_mem (lengthKey_not_mem_itemEntries 1 items)) Value.noConfusion
  · exact (List.append_nil _).symm

theorem meta_arrayTable (items : List Value) : (arrayTable items).meta? = some arrayMark := by
  unfold arrayTable
  split
  · exact Table.meta_set
  · rfl

theorem arrayTable_get {i : Nat} (hl : items.length ≤ lastItem) (hi : i < items.length) :
    (arrayTable items).get (.int (Int64.ofNat (i + 1))) = items[i] := by
  have hk := lookup_itemEntries (n := 1) (by omega) hi
  rw [Nat.add_comm] at hk
  by_cases hn : items[i] = .nil
  · rw [hn, Table.get_eq_nil_iff, entries_arrayTable, List.map_append, List.mem_append]
    rw [hn] at hk
    rintro (hm | hm)
    · exact absurd hk (Table.get_eq_nil_iff (t := ⟨_, none, 0, itemEntries_proper 1 items⟩).not.mpr
        (not_not.mpr hm))
    · split at hm
      · simp [lengthKey, Key.ofString] at hm
      · cases hm
  · have hm := Table.mem_of_lookup (hk ▸ hn)
    rw [hk] at hm
    refine Table.get_of_mem ?_
    rw [entries_arrayTable]
    exact List.mem_append_left _ hm

theorem arrayTable_getLength (items : List Value) : (arrayTable items).get lengthKey =
    if items.any Value.isNil then .int (Int64.ofNat items.length) else .nil := by
  split
  next h =>
    refine Table.get_of_mem ?_
    rw [entries_arrayTable, if_pos h]
    exact List.mem_append_right _ List.mem_cons_self
  next h =>
    rw [Table.get_eq_nil_iff, entries_arrayTable, if_neg h, List.append_nil]
    exact lengthKey_not_mem_itemEntries 1 items

theorem key_of_arrayTable {e : Key × Value} (he : e ∈ (arrayTable items).entries) :
    (∃ i, 1 ≤ i ∧ i ≤ items.length ∧ i ≤ lastItem ∧ e.1 = .int (Int64.ofNat i)) ∨
      (items.any Value.isNil = true ∧ e.1 = lengthKey) := by
  rw [entries_arrayTable, List.mem_append] at he
  rcases he with he | he
  · obtain ⟨i, hi, hn, hl, h⟩ := key_of_itemEntries he
    exact .inl ⟨i, hi, by omega, hl, h⟩
  · split at he
    next h => exact .inr ⟨h, by rw [List.mem_singleton.mp he]⟩
    next => cases he

theorem length_le_entries_arrayTable (hl : items.length ≤ lastItem) :
    items.length + (if items.any Value.isNil then 1 else 0) ≤
      (arrayTable items).entries.length + items.countP Value.isNil := by
  have : (itemEntries 1 items).length + items.countP Value.isNil = items.length :=
    length_itemEntries (by omega)
  rw [entries_arrayTable, List.length_append]
  split <;> simp only [List.length_singleton, List.length_nil] <;> omega

end Heap

/-! ### Reading it -/

namespace Table

variable {t : Table} {items : List Value}

theorem holds_of_perm {u : Table} (hp : t.entries.Perm u.entries) (n : Nat) :
    u.holds n = t.holds n := by
  rw [holds, holds, get_of_perm hp]

/-- The items end within the list, and with it if nothing is missing, wherever the search begins. -/
theorem border_of_perm (hp : (arrayTable items).entries.Perm t.entries)
    (hl : items.length ≤ lastItem) :
    t.border ≤ items.length ∧ (items.any Value.isNil = false → t.border = items.length) := by
  have hb := isBorder_border t
  have hle : t.border ≤ items.length := hb.le fun n hn => by
    rw [holds_of_perm hp, ← Bool.not_eq_true, holds_iff]
    rintro ⟨bound, hm⟩
    obtain ⟨e, he, hk⟩ := List.mem_map.mp hm
    rcases key_of_arrayTable he with ⟨i, -, hi, -, h⟩ | ⟨-, h⟩
    · have := ofNat_inj (by omega) (by omega) (Key.int.inj (hk.symm.trans h))
      omega
    · rw [h] at hk
      cases hk
  refine ⟨hle, fun hn => Nat.le_antisymm hle (hb.ge fun i h1 hi => ?_)⟩
  obtain ⟨j, rfl⟩ : ∃ j, i = j + 1 := ⟨i - 1, by omega⟩
  rw [holds_of_perm hp, holds, arrayTable_get hl hi, decide_eq_true (by omega), Bool.true_and]
  rw [List.any_eq_false] at hn
  simpa using hn _ (List.getElem_mem hi)

/-- The table of a list is read as that list, in whatever order its entries are. -/
theorem slots_of_perm (hp : (arrayTable items).entries.Perm t.entries)
    (hm : t.meta? = some arrayMark) (hl : items.length ≤ lastItem)
    (hh : items.countP Value.isNil ≤ holeLimit + 1) : t.slots? = some items := by
  have shape : t.shape? = some .array := by rw [shape?, if_pos hm]
  have declared : t.declared? =
      if items.any Value.isNil then some (Int64.ofNat items.length) else none := by
    rw [declared?, if_pos shape, ← get_of_perm hp, arrayTable_getLength]
    split <;> rfl
  obtain ⟨border_le, border_eq⟩ := border_of_perm hp hl
  have extent : t.extent = items.length := by
    rw [Table.extent, if_pos shape, declared]
    cases hn : items.any Value.isNil with
    | false => simp [border_eq hn]
    | true =>
      simp only [if_true, Option.map_some, Option.getD_some, toInt_ofNat hl,
        Int.toNat_natCast]
      exact Nat.max_eq_left border_le
  -- Too few entries for the length would mean more nils than a list may have.
  have few : ¬ t.entries.length + holeLimit < t.extent := by
    have := length_le_entries_arrayTable hl
    rw [extent, ← hp.length_eq]
    cases hn : items.any Value.isNil with
    | false =>
      rw [List.countP_eq_zero.mpr (List.any_eq_false.mp hn)] at this
      omega
    | true =>
      rw [hn] at this
      simp only [if_true] at this
      omega
  have fit : t.entries.all (fun e => fits t.extent t.declared?.isSome e.1) = true := by
    rw [List.all_eq_true, extent, declared]
    intro e he
    rcases key_of_arrayTable (hp.mem_iff.mpr he) with ⟨i, h1, hi, -, h⟩ | ⟨hn, h⟩
    · rw [h, fits, toInt_ofNat (by omega)]
      simp only [Bool.and_eq_true, decide_eq_true_eq]
      omega
    · rw [h, hn]
      rfl
  rw [slots?, if_neg (by rw [shape]; nofun), if_neg few, if_pos fit, extent]
  congr 1
  refine List.ext_getElem (by simp) fun i _ hi => ?_
  rw [List.getElem_map, List.getElem_range, ← get_of_perm hp, arrayTable_get hl hi]

end Table

/-! ### What is read as an array -/

def Key.int? : Key → Option Int64
  | .int n => some n
  | _ => none

theorem Key.int?_eq_some {k : Key} {n : Int64} : k.int? = some n ↔ k = .int n := by
  cases k <;> simp [Key.int?]

namespace Table

variable {t : Table} {items : List Value}

/-- The numbers among the keys. -/
def numbers (t : Table) : List Int64 := (t.entries.map (·.1)).filterMap Key.int?

theorem nodup_numbers (t : Table) : t.numbers.Nodup :=
  t.proper.distinct.filterMap fun k k' n hk hk' => by
    rw [Key.int?_eq_some.mp hk, Key.int?_eq_some.mp hk']

/-- Distinct numbers among `f 0`, …, `f (size - 1)` are no more than `size`. -/
theorem length_le_of_numbers {p : Nat → Bool} {size : Nat}
    (h : ∀ n ∈ t.numbers, ∃ i < size, p i = true ∧ n = Int64.ofNat (i + 1)) :
    t.numbers.length ≤ (List.range size).countP p := by
  have hs : t.numbers ⊆ ((List.range size).filter p).map fun i => Int64.ofNat (i + 1) := by
    intro n hn
    obtain ⟨i, hi, hp, rfl⟩ := h n hn
    exact List.mem_map.mpr ⟨i, List.mem_filter.mpr ⟨List.mem_range.mpr hi, hp⟩, rfl⟩
  have hl := (List.subperm_of_subset t.nodup_numbers hs).length_le
  rwa [List.length_map, ← List.countP_eq_length_filter] at hl

theorem mem_numbers {n : Int64} : n ∈ t.numbers ↔ .int n ∈ t.entries.map (·.1) := by
  rw [numbers, List.mem_filterMap]
  constructor
  · rintro ⟨k, hk, hn⟩
    exact Key.int?_eq_some.mp hn ▸ hk
  · exact fun hk => ⟨_, hk, rfl⟩

/-- All keys are numbers, except perhaps the one of the length. -/
theorem length_le_numbers {ks : List Key} (hd : ks.Nodup)
    (hk : ∀ k ∈ ks, k.int? = none → k = lengthKey) :
    ks.length ≤ (ks.filterMap Key.int?).length + 1 := by
  induction ks with
  | nil => exact Nat.zero_le _
  | cons k rest ih =>
    rw [List.nodup_cons] at hd
    cases hn : k.int? with
    | some n =>
      rw [List.filterMap_cons_some hn, List.length_cons, List.length_cons]
      exact Nat.succ_le_succ (ih hd.2 fun k hm => hk k (List.mem_cons_of_mem _ hm))
    | none =>
      have all : (rest.filterMap Key.int?).length = rest.length := by
        refine List.filterMap_length_eq_length.mpr fun k' hk' => ?_
        by_contra hnone
        rw [Option.not_isSome_iff_eq_none] at hnone
        have hl := hk k' (List.mem_cons_of_mem _ hk') hnone
        rw [hl, ← hk k List.mem_cons_self hn] at hk'
        exact hd.1 hk'
      rw [List.filterMap_cons_none hn, all]
      exact Nat.le_of_eq List.length_cons

theorem slots_eq (hs : t.slots? = some items) :
    t.extent ≤ t.entries.length + holeLimit ∧
    (∀ e ∈ t.entries, fits t.extent t.declared?.isSome e.1 = true) ∧
    items = (List.range t.extent).map fun i => t.get (.int (Int64.ofNat (i + 1))) := by
  unfold slots? at hs
  split at hs
  · cases hs
  split at hs
  · cases hs
  next few =>
    split at hs
    next fit => exact ⟨by omega, List.all_eq_true.mp fit, (Option.some.inj hs).symm⟩
    next => cases hs

/-- A number that fits counts a place in the array. -/
theorem place_of_fits {size : Nat} {counted : Bool} {n : Int64}
    (h : fits size counted (.int n) = true) :
    ∃ i < size, i < lastItem ∧ n = Int64.ofNat (i + 1) := by
  simp only [fits, Bool.and_eq_true, decide_eq_true_eq] at h
  have hn := toNat_toInt_le n
  refine ⟨n.toInt.toNat - 1, by omega, by omega, ?_⟩
  have hp : n.toInt.toNat - 1 + 1 = n.toInt.toNat := by omega
  rw [hp]
  exact (Int64.ofNat_toNatClampNeg n (by rw [Int64.le_iff_toInt_le]; simpa using by omega)).symm

theorem length_le_of_slots (hs : t.slots? = some items) : items.length ≤ lastItem := by
  obtain ⟨-, fit, rfl⟩ := slots_eq hs
  rw [List.length_map, List.length_range]
  have number (n : Int64) (hn : n ∈ t.numbers) :
      ∃ i < t.extent, i < lastItem ∧ n = Int64.ofNat (i + 1) := by
    obtain ⟨e, he, hk⟩ := List.mem_map.mp (mem_numbers.mp hn)
    exact place_of_fits (hk ▸ fit e he)
  -- A marked table ends at its border or where it says; any other one has as many numbers as
  -- entries.
  by_cases shape : t.shape? = some .array
  · have border := border_le_lastItem t
    rw [Table.extent, if_pos shape]
    cases t.declared? with
    | none => simpa using border
    | some n =>
      have hn := toNat_toInt_le n
      simp only [Option.map_some, Option.getD_some]
      omega
  · have undeclared : t.declared? = none := by rw [declared?, if_neg shape]
    have all : t.numbers.length = t.entries.length := by
      rw [numbers, List.filterMap_length_eq_length.mpr, List.length_map]
      intro k hk
      obtain ⟨e, he, rfl⟩ := List.mem_map.mp hk
      have he := fit e he
      rw [undeclared] at he
      cases hk : e.1 <;> simp_all [fits, Key.int?]
    have : t.numbers.length ≤ (List.range lastItem).countP fun _ => true :=
      length_le_of_numbers fun n hn => by
        obtain ⟨i, -, hi, h⟩ := number n hn
        exact ⟨i, hi, rfl, h⟩
    rw [List.countP_true, List.length_range, all] at this
    rw [Table.extent, if_neg shape]
    omega

theorem countP_isNil_of_slots (hs : t.slots? = some items) :
    items.countP Value.isNil ≤ holeLimit + 1 := by
  let item (i : Nat) : Value := t.get (.int (Int64.ofNat (i + 1)))
  obtain ⟨few, fit, (rfl : items = (List.range t.extent).map item)⟩ := slots_eq hs
  have held : t.numbers.length ≤ (List.range t.extent).countP fun i => !(item i).isNil := by
    refine length_le_of_numbers fun n hn => ?_
    obtain ⟨e, he, hk⟩ := List.mem_map.mp (mem_numbers.mp hn)
    obtain ⟨i, hi, bound, rfl⟩ := place_of_fits (hk ▸ fit e he)
    have there := holds_iff.mpr ⟨bound, mem_numbers.mp hn⟩
    rw [holds, decide_eq_true (Nat.succ_le_of_lt bound), Bool.true_and] at there
    exact ⟨i, hi, there, rfl⟩
  have most : t.entries.length ≤ t.numbers.length + 1 := by
    have := length_le_numbers t.proper.distinct fun k hk hn => by
      obtain ⟨e, he, rfl⟩ := List.mem_map.mp hk
      have he := fit e he
      cases hk : e.1 <;> simp_all [fits, Key.int?]
    rwa [List.length_map] at this
  have total := (List.range t.extent).length_eq_countP_add_countP fun i => !(item i).isNil
  have nils : ((List.range t.extent).map item).countP Value.isNil =
      (List.range t.extent).countP fun i => ¬ (!(item i).isNil) := by
    rw [List.countP_map]
    congr 1
    funext i
    simp
  rw [List.length_range] at total
  omega

end Table

end ScriptHost
