import Mathlib.Data.List.GetD
import ScriptHost.Proofs.Codec.Arrays

/-! Tables that hold a list without nil in it. One item more, one less or another one in its place
is one write to the table. -/

namespace ScriptHost

open Heap

/-- The place in a list that is counted by this key, the first one being zero. -/
def Key.place? : Key → Option Nat
  | .int n => if 1 ≤ n.toInt then some (n.toInt.toNat - 1) else none
  | _ => none

namespace Key

/-- The key that counts a place. -/
def ofPlace (i : Nat) : Key := .int (Int64.ofNat (i + 1))

theorem place?_ofPlace {i : Nat} (hi : i < lastItem) : (ofPlace i).place? = some i := by
  rw [ofPlace, place?, toInt_ofNat hi, if_pos (by omega)]
  rfl

theorem place?_eq_some {k : Key} {i : Nat} (hk : k.place? = some i) :
    k = ofPlace i ∧ i < lastItem := by
  cases k with
  | int n =>
    rw [place?] at hk
    split at hk
    next hn =>
      have hl := toNat_toInt_le n
      obtain rfl := Option.some.inj hk
      refine ⟨congrArg int ?_, by omega⟩
      have hp : n.toInt.toNat - 1 + 1 = n.toInt.toNat := by omega
      rw [hp]
      exact (Int64.ofNat_toNatClampNeg n (by rw [Int64.le_iff_toInt_le]; simpa using by omega)).symm
    next => cases hk
  | _ => cases hk

end Key

namespace Table

variable {t u : Table} {items items' : List Value} {x : Value} {i j : Nat} {k : Key}

/-- A table is known by what it holds. -/
theorem perm_of_get (h : ∀ k, t.get k = u.get k) : t.entries.Perm u.entries := by
  have mem (t : Table) (e : Key × Value) : e ∈ t.entries ↔ t.get e.1 = e.2 ∧ e.2 ≠ .nil := by
    constructor
    · exact fun he => ⟨get_of_mem he, t.proper.filled e he⟩
    · rintro ⟨hg, hn⟩
      rw [← hg] at hn
      have found := mem_of_lookup hn
      rwa [show lookup e.1 t.entries = e.2 from hg] at found
  refine (List.perm_ext_iff_of_nodup (.of_map _ t.proper.distinct) (.of_map _ u.proper.distinct)).mpr
    fun e => ?_
  rw [mem, mem, h]

/-- The item of a list at a key, nil if there is none. -/
def itemAt (items : List Value) (k : Key) : Value :=
  match k.place? with
  | some i => items.getD i .nil
  | none => .nil

theorem itemAt_ofPlace (hi : i < lastItem) : itemAt items (.ofPlace i) = items.getD i .nil := by
  rw [itemAt, Key.place?_ofPlace hi]

/-- Lists that differ at one place differ at its key. -/
theorem itemAt_of_ne (hi : ∀ i, i ≠ j → items'.getD i .nil = items.getD i .nil)
    (hk : k ≠ .ofPlace j) : itemAt items' k = itemAt items k := by
  unfold itemAt
  split
  next i hp =>
    refine hi i ?_
    rintro rfl
    exact hk (Key.place?_eq_some hp).1
  next => rfl

/-- The table holds this list, and is marked as an array. -/
structure Lists (t : Table) (items : List Value) : Prop where
  meta? : t.meta? = some arrayMark
  get : ∀ k, t.get k = itemAt items k
  filled : ∀ x ∈ items, x.isNil = false
  length : items.length ≤ lastItem

theorem lists_arrayTable (hn : ∀ x ∈ items, x.isNil = false) (hl : items.length ≤ lastItem) :
    (arrayTable items).Lists items := by
  refine ⟨meta_arrayTable items, fun k => ?_, hn, hl⟩
  have undeclared : items.any Value.isNil = false := by
    rw [List.any_eq_false]
    exact fun x hx => Bool.eq_false_iff.mp (hn x hx)
  -- Without nil no length is declared, so all keys are those of places.
  have absent (hk : ∀ i < items.length, k ≠ .ofPlace i) : (arrayTable items).get k = .nil := by
    rw [get_eq_nil_iff]
    intro hm
    obtain ⟨e, he, rfl⟩ := List.mem_map.mp hm
    rcases key_of_arrayTable he with ⟨i, h1, hi, -, h⟩ | ⟨h, -⟩
    · refine hk (i - 1) (by omega) ?_
      rw [h, Key.ofPlace, Nat.sub_add_cancel h1]
    · rw [undeclared] at h
      cases h
  unfold itemAt
  split
  next i hp =>
    obtain ⟨rfl, hi⟩ := Key.place?_eq_some hp
    by_cases h : i < items.length
    · rw [List.getD_eq_getElem _ _ h]
      exact arrayTable_get hl h
    · rw [List.getD_eq_default _ _ (Nat.le_of_not_lt h)]
      refine absent fun j hj he => ?_
      have places := congrArg Key.place? he
      rw [Key.place?_ofPlace hi, Key.place?_ofPlace (by omega)] at places
      obtain rfl := Option.some.inj places
      exact h hj
  next hp =>
    refine absent fun i hi he => ?_
    rw [he, Key.place?_ofPlace (by omega)] at hp
    cases hp

namespace Lists

theorem perm (ht : t.Lists items) : (arrayTable items).entries.Perm t.entries :=
  perm_of_get fun k => ((lists_arrayTable ht.filled ht.length).get k).trans (ht.get k).symm

theorem slots (ht : t.Lists items) : t.slots? = some items := by
  refine slots_of_perm ht.perm ht.meta? ht.length ?_
  rw [List.countP_eq_zero.mpr fun x hx => Bool.eq_false_iff.mp (ht.filled x hx)]
  exact Nat.zero_le _

theorem border (ht : t.Lists items) : t.border = items.length := by
  refine (border_of_perm ht.perm ht.length).2 ?_
  rw [List.any_eq_false]
  exact fun x hx => Bool.eq_false_iff.mp (ht.filled x hx)

/-- A write at one place. -/
theorem set (ht : t.Lists items) (hj : j < lastItem) (hx : items'.getD j .nil = x)
    (hi : ∀ i, i ≠ j → items'.getD i .nil = items.getD i .nil)
    (filled : ∀ x ∈ items', x.isNil = false) (length : items'.length ≤ lastItem) :
    (t.set (.ofPlace j) x).Lists items' := by
  refine ⟨meta_set.trans ht.meta?, fun k => ?_, filled, length⟩
  by_cases hk : k = .ofPlace j
  · rw [hk, get_set, itemAt_ofPlace hj, hx]
  · rw [get_set_of_ne hk, ht.get, itemAt_of_ne hi hk]

theorem append (ht : t.Lists items) (hx : x.isNil = false) (hl : items.length < lastItem) :
    (t.set (.ofPlace items.length) x).Lists (items ++ [x]) := by
  refine ht.set hl ?_ (fun i hi => ?_) ?_ ?_
  · rw [List.getD_append_right _ _ _ _ (Nat.le_refl _), Nat.sub_self]
    rfl
  · rcases Nat.lt_or_ge i items.length with hi' | hi'
    · rw [List.getD_append _ _ _ _ hi']
    · rw [List.getD_eq_default _ _ hi', List.getD_eq_default]
      simp only [List.length_append, List.length_singleton]
      omega
  · simpa [or_imp, forall_and, hx] using ht.filled
  · rw [List.length_append]
    exact hl

theorem pop (ht : t.Lists items) (hn : items ≠ []) :
    (t.set (.ofPlace (items.length - 1)) .nil).Lists items.dropLast := by
  have positive := List.length_pos_iff.mpr hn
  have bound := ht.length
  refine ht.set (by omega) ?_ (fun i hi => ?_) ?_ ?_
  · rw [List.getD_eq_default _ _ (Nat.le_of_eq List.length_dropLast)]
  · rw [List.getD_eq_getElem?_getD, List.getD_eq_getElem?_getD, List.getElem?_dropLast]
    split
    · rfl
    · rw [List.getElem?_eq_none (by omega)]
  · exact fun x hx => ht.filled x (List.dropLast_subset _ hx)
  · rw [List.length_dropLast]
    omega

theorem replace (ht : t.Lists items) (hx : x.isNil = false) (hi : i < items.length) :
    (t.set (.ofPlace i) x).Lists (items.set i x) := by
  refine ht.set (Nat.lt_of_lt_of_le hi ht.length) ?_ (fun j hj => ?_) ?_ ?_
  · rw [List.getD_eq_getElem _ _ (by rwa [List.length_set]), List.getElem_set_self]
  · rw [List.getD_eq_getElem?_getD, List.getD_eq_getElem?_getD, List.getElem?_set_ne hj.symm]
  · intro y hy
    rcases List.mem_or_eq_of_mem_set hy with hy | rfl
    · exact ht.filled y hy
    · exact hx
  · rw [List.length_set]
    exact ht.length

end Lists

end Table

end ScriptHost
