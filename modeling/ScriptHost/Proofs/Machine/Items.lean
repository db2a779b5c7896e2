import Mathlib.Data.List.Nodup
import Mathlib.Data.List.Perm.Subperm
import ScriptHost.Machine.Table

/-! What a table holds at a key, whatever the order of its entries, and where its items
end. Wherever the search begins, it finds a border; and it finds each one from somewhere. -/

namespace ScriptHost.Table

/-! ### Lookup -/

theorem lookup_of_not_mem {key : Key} {es : List (Key × Value)} (h : key ∉ es.map (·.1)) :
    lookup key es = .nil := by
  induction es with
  | nil => rfl
  | cons e rest ih =>
    simp only [List.map_cons, List.mem_cons, not_or] at h
    rw [lookup, if_neg fun he => h.1 he.symm, ih h.2]

theorem lookup_of_mem {key : Key} {value : Value} {es : List (Key × Value)}
    (hd : (es.map (·.1)).Nodup) (h : (key, value) ∈ es) : lookup key es = value := by
  induction es with
  | nil => cases h
  | cons e rest ih =>
    rw [List.map_cons, List.nodup_cons] at hd
    rcases List.mem_cons.mp h with rfl | h
    · rw [lookup, if_pos rfl]
    · have hk : e.1 ≠ key := by
        rintro rfl
        exact hd.1 (List.mem_map.mpr ⟨_, h, rfl⟩)
      rw [lookup, if_neg hk, ih hd.2 h]

theorem mem_of_lookup {key : Key} {es : List (Key × Value)} (h : lookup key es ≠ .nil) :
    (key, lookup key es) ∈ es := by
  induction es with
  | nil => exact absurd rfl h
  | cons e rest ih =>
    rw [lookup] at h ⊢
    split
    next hk => exact hk ▸ List.mem_cons_self
    next hk =>
      rw [if_neg hk] at h
      exact List.mem_cons_of_mem _ (ih h)

theorem insert_of_not_mem {key : Key} {value : Value} {es : List (Key × Value)}
    (h : key ∉ es.map (·.1)) : insert key value es = es ++ [(key, value)] := by
  induction es with
  | nil => rfl
  | cons e rest ih =>
    simp only [List.map_cons, List.mem_cons, not_or] at h
    rw [insert, if_neg fun he => h.1 he.symm, ih h.2, List.cons_append]

theorem lookup_insert (key : Key) (value : Value) (es : List (Key × Value)) :
    lookup key (insert key value es) = value := by
  induction es with
  | nil => rw [insert, lookup, if_pos rfl]
  | cons e rest ih =>
    rw [insert]
    split
    next hk => rw [lookup, if_pos hk]
    next hk => rw [lookup, if_neg hk, ih]

theorem lookup_erase {key : Key} {es : List (Key × Value)} (hd : (es.map (·.1)).Nodup) :
    lookup key (erase key es) = .nil := by
  induction es with
  | nil => rfl
  | cons e rest ih =>
    rw [List.map_cons, List.nodup_cons] at hd
    rw [erase]
    split
    next hk => exact lookup_of_not_mem (hk ▸ hd.1)
    next hk => rw [lookup, if_neg hk, ih hd.2]

theorem lookup_insert_of_ne {k key : Key} (hk : k ≠ key) (value : Value) (es : List (Key × Value)) :
    lookup k (insert key value es) = lookup k es := by
  induction es with
  | nil => exact if_neg hk.symm
  | cons e rest ih =>
    rw [insert]
    split
    next he => rw [lookup, lookup, if_neg (he ▸ hk.symm), if_neg (he ▸ hk.symm)]
    next => rw [lookup, lookup, ih]

theorem lookup_erase_of_ne {k key : Key} (hk : k ≠ key) (es : List (Key × Value)) :
    lookup k (erase key es) = lookup k es := by
  induction es with
  | nil => rfl
  | cons e rest ih =>
    rw [erase]
    split
    next he => rw [lookup, if_neg (he ▸ hk.symm)]
    next => rw [lookup, lookup, ih]

variable {t u : Table} {key : Key} {value : Value}

theorem get_of_mem (h : (key, value) ∈ t.entries) : t.get key = value :=
  lookup_of_mem t.proper.distinct h

theorem get_eq_nil_iff : t.get key = .nil ↔ key ∉ t.entries.map (·.1) := by
  refine ⟨fun h hk => ?_, lookup_of_not_mem⟩
  obtain ⟨⟨k, v⟩, he, rfl⟩ := List.mem_map.mp hk
  exact t.proper.filled _ he ((get_of_mem he).symm.trans h)

theorem get_of_perm (h : t.entries.Perm u.entries) (key : Key) : t.get key = u.get key := by
  by_cases hk : t.get key = .nil
  · rw [hk, eq_comm, get_eq_nil_iff, ← (h.map _).mem_iff]
    exact get_eq_nil_iff.mp hk
  · exact (get_of_mem (h.mem_iff.mp (mem_of_lookup hk))).symm

theorem entries_set_of_not_mem (hk : t.get key = .nil) (hv : value ≠ .nil) :
    (t.set key value).entries = t.entries ++ [(key, value)] := by
  rw [set, dif_neg hv]
  exact insert_of_not_mem (get_eq_nil_iff.mp hk)

theorem meta_set : (t.set key value).meta? = t.meta? := by
  unfold set
  split <;> rfl

theorem get_set (t : Table) (key : Key) (value : Value) : (t.set key value).get key = value := by
  by_cases hv : value = .nil
  · rw [set, dif_pos hv, hv]
    exact lookup_erase t.proper.distinct
  · rw [set, dif_neg hv]
    exact lookup_insert key value t.entries

theorem get_set_of_ne {k : Key} (hk : k ≠ key) (t : Table) (value : Value) :
    (t.set key value).get k = t.get k := by
  by_cases hv : value = .nil
  · rw [set, dif_pos hv]
    exact lookup_erase_of_ne hk t.entries
  · rw [set, dif_neg hv]
    exact lookup_insert_of_ne hk value t.entries

/-- Removing an entry adds none. -/
theorem get_set_nil {k : Key} (h : t.get k = .nil) (key : Key) : (t.set key .nil).get k = .nil := by
  rw [get_eq_nil_iff] at h ⊢
  rw [set, dif_pos rfl]
  exact fun hk => h (((erase_sublist key t.entries).map _).subset hk)

/-! ### Borders -/

theorem isNil_eq_false_iff {v : Value} : v.isNil = false ↔ v ≠ .nil := by
  cases v <;> simp [Value.isNil]

theorem holds_iff {n : Nat} :
    t.holds n = true ↔ n ≤ Heap.lastItem ∧ .int (Int64.ofNat n) ∈ t.entries.map (·.1) := by
  rw [holds, Bool.and_eq_true, decide_eq_true_eq, Bool.not_eq_true', isNil_eq_false_iff, Ne,
    get_eq_nil_iff, not_not]

theorem sweep_holds {i : Nat} (hi : 1 ≤ i) (hs : i ≤ sweep t.entries) : t.holds i = true := by
  have all (es : List (Key × Value)) (n : Nat) (he : ∀ e ∈ es, e ∈ t.entries)
      (hn : ∀ i, 1 ≤ i → i ≤ n → t.holds i = true) :
      ∀ i, 1 ≤ i →
        i ≤ es.foldl (fun n e =>
          if n < Heap.lastItem ∧ e.1 = .int (Int64.ofNat (n + 1)) then n + 1 else n) n →
        t.holds i = true := by
    induction es generalizing n with
    | nil => exact hn
    | cons e rest ih =>
      refine ih _ (fun x hx => he x (List.mem_cons_of_mem _ hx)) fun i h1 hi => ?_
      dsimp only at hi
      split at hi
      next hk =>
        rcases Nat.lt_or_ge n i with hni | hni
        · obtain rfl : i = n + 1 := by omega
          exact holds_iff.mpr ⟨hk.1, List.mem_map.mpr ⟨e, he e List.mem_cons_self, hk.2⟩⟩
        · exact hn i h1 hni
      next => exact hn i h1 hi
  exact all t.entries 0 (fun _ he => he) (fun i h1 h0 => by omega) i hi hs

/-- Items in a row take as many entries. -/
theorem le_of_holds {n m : Nat} (h : ∀ i < m, t.holds (n + i + 1) = true) :
    m ≤ t.entries.length := by
  let keys := (List.range m).map fun i => Key.int (Int64.ofNat (n + i + 1))
  have distinct : keys.Nodup := by
    refine List.Nodup.map_on (fun i hi j hj he => ?_) List.nodup_range
    have bound {i : Nat} (hi : i ∈ List.range m) : n + i + 1 ≤ Heap.lastItem :=
      (holds_iff.mp (h i (List.mem_range.mp hi))).1
    have same := Heap.ofNat_inj (Nat.le_succ_of_le (bound hi)) (Nat.le_succ_of_le (bound hj))
      (Key.int.inj he)
    omega
  have subset : keys ⊆ t.entries.map (·.1) := by
    intro k hk
    obtain ⟨i, hi, rfl⟩ := List.mem_map.mp hk
    exact (holds_iff.mp (h i (List.mem_range.mp hi))).2
  simpa [keys] using (List.subperm_of_subset distinct subset).length_le

theorem climb_spec (fuel n : Nat) : ∃ m, t.climb fuel n = n + m ∧
    (∀ i < m, t.holds (n + i + 1) = true) ∧ (t.holds (n + m + 1) = false ∨ m = fuel) := by
  induction fuel generalizing n with
  | zero => exact ⟨0, rfl, nofun, .inr rfl⟩
  | succ fuel ih =>
    rw [climb]
    split
    next here =>
      obtain ⟨m, hc, held, last⟩ := ih (n + 1)
      refine ⟨m + 1, by omega, fun i hi => ?_, ?_⟩
      · cases i with
        | zero => exact here
        | succ i =>
          rw [← Nat.add_assoc, Nat.add_right_comm n i 1]
          exact held i (by omega)
      · rw [← Nat.add_assoc, Nat.add_right_comm n m 1]
        exact last.imp_right (congrArg (· + 1))
    next gap => exact ⟨0, rfl, nofun, .inl (Bool.not_eq_true _ ▸ gap)⟩

/-- The entries do not suffice for a longer row of items. -/
theorem isBorder_climb {n : Nat} (hn : n = 0 ∨ t.holds n = true) :
    t.IsBorder (t.climb t.entries.length n) := by
  obtain ⟨m, hc, held, last⟩ := climb_spec (t := t) t.entries.length n
  rw [hc]
  constructor
  · cases m with
    | zero => exact hn
    | succ m => exact .inr (held m (Nat.lt_succ_self m))
  · refine last.elim id fun full => ?_
    by_contra next
    rw [Bool.not_eq_false] at next
    have more := le_of_holds (n := n) (m := m + 1) (t := t) fun i hi => by
      rcases Nat.lt_succ_iff_lt_or_eq.mp hi with hi | rfl
      · exact held i hi
      · exact next
    omega

/-- What halving keeps is that the lower end is there, and the upper one is not. -/
theorem isBorder_bisect {fuel low high : Nat} (hl : low = 0 ∨ t.holds low = true)
    (hh : t.holds high = false) (lt : low < high) (enough : high ≤ low + fuel + 1) :
    t.IsBorder (t.bisect fuel low high) := by
  induction fuel generalizing low high with
  | zero =>
    obtain rfl : high = low + 1 := by omega
    exact ⟨hl, hh⟩
  | succ fuel ih =>
    rw [bisect]
    split
    next near =>
      obtain rfl : high = low + 1 := by omega
      exact ⟨hl, hh⟩
    next =>
      split
      next there => exact ih (.inr there) hh (by omega) (by omega)
      next gone => exact ih hl (Bool.not_eq_true _ ▸ gone) (by omega) (by omega)

theorem sweep_end (t : Table) : sweep t.entries = 0 ∨ t.holds (sweep t.entries) = true := by
  rcases Nat.eq_zero_or_pos (sweep t.entries) with h | h
  · exact .inl h
  · exact .inr (sweep_holds h (Nat.le_refl _))

theorem isBorder_border (t : Table) : t.IsBorder t.border := by
  unfold border
  split
  next here =>
    refine isBorder_climb ?_
    rcases Nat.le_total t.hint (sweep t.entries) with h | h
    · rw [Nat.max_eq_right h]
      exact sweep_end t
    · rwa [Nat.max_eq_left h]
  next gone =>
    rw [not_or, Bool.not_eq_true] at gone
    obtain ⟨positive, gone⟩ := gone
    split
    next last =>
      refine ⟨.inr last.2, ?_⟩
      rwa [Nat.sub_add_cancel (by omega)]
    next => exact isBorder_bisect (.inl rfl) gone (by omega) (by omega)

/-- Every border is found from some hint. -/
theorem IsBorder.border_eq {n : Nat} (h : t.IsBorder n) : { t with hint := n }.border = n := by
  obtain ⟨there, gap⟩ := h
  have start : max n (sweep t.entries) = n := by
    refine Nat.max_eq_left (Nat.le_of_not_lt fun further => ?_)
    rw [sweep_holds (by omega) further] at gap
    cases gap
  show (if n = 0 ∨ t.holds n = true then
    ({ t with hint := n } : Table).climb t.entries.length (max n (sweep t.entries)) else _) = n
  rw [if_pos there, start]
  obtain ⟨m, hc, held, -⟩ := climb_spec (t := { t with hint := n }) t.entries.length n
  rw [hc]
  cases m with
  | zero => rfl
  | succ m =>
    have next : t.holds (n + 1) = true := held 0 (Nat.succ_pos m)
    rw [gap] at next
    cases next

theorem IsBorder.le {n m : Nat} (h : t.IsBorder n) (above : ∀ i, m < i → t.holds i = false) :
    n ≤ m := by
  rcases h.1 with rfl | there
  · exact Nat.zero_le m
  · by_contra further
    rw [above n (by omega)] at there
    cases there

theorem IsBorder.ge {n m : Nat} (h : t.IsBorder n) (below : ∀ i, 1 ≤ i → i ≤ m → t.holds i = true) :
    m ≤ n := by
  by_contra further
  have next := below (n + 1) (by omega) (by omega)
  rw [h.2] at next
  cases next

theorem border_le_lastItem (t : Table) : t.border ≤ Heap.lastItem :=
  (isBorder_border t).le fun i hi => by
    rw [holds, decide_eq_false (by omega), Bool.false_and]

end ScriptHost.Table
