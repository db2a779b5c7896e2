import ScriptHost.Proofs.Codec.Growing
import ScriptHost.Proofs.Codec.RoundTrip

/-! Storing any dictionary. Entries whose keys become the same key of a table form a group, and of
each group the last entry alone counts: the table has its value, or no entry if that is nil. What
is stored in a cell of its own is a group by itself, and the keys nil and NaN are in none. -/

namespace ScriptHost

namespace Key

theorem ofValue_of_isNaN {x : Float} (hx : x.isNaN = true) :
    ofValue (.float x) = .error .isNaN := by
  rw [ofValue]
  split
  next => rfl
  next h _ =>
    rw [hx] at h
    cases h
  next h _ =>
    rw [hx] at h
    cases h

theorem ofValue_of_integral {x : Float} {n : Int64} (hx : x.isNaN = false)
    (hn : Number.integral? x = some n) : ofValue (.float x) = .ok (.int n) := by
  rw [ofValue]
  split
  next h =>
    rw [hx] at h
    cases h
  next h =>
    rw [hn] at h
    cases h
    rfl
  next h =>
    rw [hn] at h
    cases h

end Key

/-- What the entries of a dictionary have in common that meet in one entry of a table: the key of a
scalar, or their place. -/
inductive Group
  | plain (k : Key)
  | own (i : Nat)
deriving DecidableEq

namespace Variant

/-- The group of the entry with this key at place `i`. -/
def group? (i : Nat) (key : Variant) : Option Group :=
  if key.isScalar then (Key.ofValue key.plain).toOption.map .plain else some (.own i)

/-- The value of the last entry of a group. -/
def lastIn (es : List (Variant × Variant)) (g : Group) : Option Variant :=
  (es.zipIdx.filter fun p => decide (group? p.2 p.1.1 = some g)).getLast?.map (·.1.2)

/-- The last entry of the group has a value. -/
def Live (es : List (Variant × Variant)) (g : Group) : Prop :=
  ∃ v, lastIn es g = some v ∧ v ≠ .nil

variable {es : List (Variant × Variant)} {e : Variant × Variant} {g : Group} {i j : Nat}
  {k : Key} {v w : Variant}

/-! ### Groups -/

theorem IsKey.exists_key (hv : v.IsKey) (hs : v.isScalar = true) :
    ∃ k, Key.ofValue v.plain = .ok k ∧ k.toValue = v.plain := by
  refine Key.exists_ofValue (fun hn => hv.1 ?_) fun x hx => hv.2 x ?_
  · exact plain_inj hs (w := nil) rfl hn
  · exact plain_inj hs (w := float x) rfl hx

/-- Nil and floats that are no numbers are no keys. -/
theorem of_ofValue_error (hs : v.isScalar = true) {e : KeyFault}
    (hk : Key.ofValue v.plain = .error e) : v = nil ∨ ∃ x, v = float x ∧ x.isNaN = true := by
  cases v with
  | nil => exact .inl rfl
  | float x =>
    rw [plain, Key.ofValue] at hk
    split at hk
    next hx => exact .inr ⟨x, rfl, hx⟩
    · cases hk
    · cases hk
  | callable c =>
    cases c with
    | script f => cases hk
    | _ => cases hs
  | bool | int | string => cases hk
  | _ => cases hs

theorem group?_of_not_scalar (hv : v.isScalar = false) (i : Nat) : group? i v = some (.own i) := by
  rw [group?, hv, if_neg Bool.false_ne_true]

theorem group?_of_key (hv : v.isScalar = true) (hk : Key.ofValue v.plain = .ok k) (i : Nat) :
    group? i v = some (.plain k) := by
  rw [group?, if_pos hv, hk]
  rfl

theorem group?_of_error (hv : v.isScalar = true) {e : KeyFault}
    (hk : Key.ofValue v.plain = .error e) (i : Nat) : group? i v = none := by
  rw [group?, if_pos hv, hk]
  rfl

theorem group?_eq_none : group? i v = none ↔ v = nil ∨ ∃ x, v = float x ∧ x.isNaN = true := by
  by_cases hs : v.isScalar = true
  · cases hk : Key.ofValue v.plain with
    | error e =>
      rw [group?_of_error hs hk]
      exact iff_of_true rfl (of_ofValue_error hs hk)
    | ok k =>
      rw [group?_of_key hs hk]
      refine iff_of_false (Option.some_ne_none _) ?_
      rintro (rfl | ⟨x, rfl, hx⟩)
      · cases hk
      · rw [plain, Key.ofValue_of_isNaN hx] at hk
        cases hk
  · rw [group?_of_not_scalar (Bool.eq_false_iff.mpr hs)]
    refine iff_of_false (Option.some_ne_none _) ?_
    rintro (rfl | ⟨x, rfl, -⟩)
    · exact hs rfl
    · exact hs rfl

/-- A float that is equal to an integer is the same key. -/
theorem group?_of_integral {x : Float} {n : Int64} (hx : x.isNaN = false)
    (hn : Number.integral? x = some n) : group? i (float x) = group? j (int n) :=
  (group?_of_key (v := float x) rfl (Key.ofValue_of_integral hx hn) i).trans
    (group?_of_key rfl rfl j).symm

theorem group?_eq_iff_of_isKey (hv : v.isScalar = true) (hw : w.isScalar = true) (hk : v.IsKey)
    (hl : w.IsKey) : group? i v = group? j w ↔ v = w := by
  obtain ⟨k, hvk, hkv⟩ := hk.exists_key hv
  obtain ⟨l, hwl, hlw⟩ := hl.exists_key hw
  rw [group?_of_key hv hvk, group?_of_key hw hwl]
  constructor
  · intro h
    obtain rfl : k = l := by simpa using h
    exact plain_inj hv hw (hkv.symm.trans hlw)
  · rintro rfl
    rw [Except.ok.inj (hvk.symm.trans hwl)]

/-- What is stored in a cell of its own is in no other's group. -/
theorem group?_eq_iff_of_not_scalar (hv : v.isScalar = false) :
    group? i v = group? j w ↔ i = j ∧ w.isScalar = false := by
  rw [group?_of_not_scalar hv]
  by_cases hw : w.isScalar = true
  · refine iff_of_false (fun h => ?_) (by simp [hw])
    rw [group?, if_pos hw] at h
    obtain ⟨k, -, hk⟩ := Option.map_eq_some_iff.mp h.symm
    cases hk
  · rw [Bool.not_eq_true] at hw
    simp [group?_of_not_scalar hw, hw]

theorem of_group?_own (h : group? i v = some (.own j)) : i = j ∧ v.isScalar = false := by
  rw [group?] at h
  split at h
  · obtain ⟨k, -, hk⟩ := Option.map_eq_some_iff.mp h
    cases hk
  next hs => exact ⟨Group.own.inj (Option.some.inj h), Bool.eq_false_iff.mpr hs⟩

theorem of_group?_plain (h : group? i v = some (.plain k)) : Key.ofValue v.plain = .ok k := by
  rw [group?] at h
  split at h
  · cases hk : Key.ofValue v.plain with
    | error e =>
      rw [hk] at h
      cases h
    | ok l =>
      rw [hk] at h
      cases h
      rfl
  · cases h

/-! ### Last entries -/

theorem lastIn_snoc (es : List (Variant × Variant)) (e : Variant × Variant) (g : Group) :
    lastIn (es ++ [e]) g = if group? es.length e.1 = some g then some e.2 else lastIn es g := by
  rw [lastIn, List.zipIdx_append, List.filter_append, Nat.zero_add]
  by_cases h : group? es.length e.1 = some g
  · simp [h]
  · simp [h, lastIn]

theorem exists_of_lastIn (h : lastIn es g = some v) :
    ∃ i e, es[i]? = some e ∧ group? i e.1 = some g ∧ e.2 = v := by
  obtain ⟨⟨e, i⟩, hp, rfl⟩ := Option.map_eq_some_iff.mp h
  have hm := List.mem_filter.mp (List.mem_of_getLast? hp)
  exact ⟨i, e, List.mem_zipIdx_iff_getElem?.mp hm.1, of_decide_eq_true hm.2, rfl⟩

theorem lastIn_snoc_self (h : group? es.length e.1 = some g) : lastIn (es ++ [e]) g = some e.2 := by
  rw [lastIn_snoc, if_pos h]

theorem lastIn_snoc_other (h : group? es.length e.1 ≠ some g) :
    lastIn (es ++ [e]) g = lastIn es g := by
  rw [lastIn_snoc, if_neg h]

end Variant

namespace Group

/-- The key of the group in a table, where what has a cell of its own has these keys. -/
def key (cells : Nat → Key) : Group → Key
  | plain k => k
  | own i => cells i

end Group

namespace Heap

open Variant

variable {owner : Nat} {h h' g g' : Heap} {v : Variant} {x : Value}

/-! ### What is stored -/

/-- `x` is what `v` was stored as at a time between the two heaps, and still is. -/
def Wrote (owner : Nat) (h g : Heap) (v : Variant) (x : Value) : Prop :=
  ∃ k k', h.Grows k ∧ encode owner v k = (.ok x, k') ∧ k'.Grows g

theorem Wrote.grows (hw : h.Wrote owner g v x) (hg : g.Grows g') : h.Wrote owner g' v x := by
  obtain ⟨k, k', hk, he, hk'⟩ := hw
  exact ⟨k, k', hk, he, hk'.trans hg⟩

theorem IsCell.grows (hx : h.IsCell x) (hg : h.Grows g) : g.IsCell x := by
  cases x with
  | table => exact lt_of_lt_of_le hx hg.tables
  | box => exact lt_of_lt_of_le hx hg.boxes
  | _ => exact hx

theorem grows_of_encode (he : encode owner v h = (.ok x, h')) : h.Grows h' := by
  have grows := grows_encode owner v h
  rwa [he] at grows

theorem encode_scalar_eq_ok (hs : v.isScalar = true) (he : encode owner v h = (.ok x, h')) :
    x = v.plain ∧ h' = h := by
  have owned (f) (hf : v = .callable (.script f)) : f.owner = owner := by
    by_contra hn
    rw [hf, encode, if_neg hn] at he
    cases he
  rw [encode_scalar hs owned] at he
  cases he
  exact ⟨rfl, rfl⟩

theorem encode_array_eq_ok {items : List Variant} (he : encode owner (.array items) h = (.ok x, h')) :
    ∃ values k, encodeItems owner items h = (.ok values, k) ∧ h.Grows k ∧
      x = .table k.tables.size ∧ h' = (k.newTable (arrayTable values)).2 := by
  have grows : h.Grows (encodeItems owner items h).2 :=
    Grows.storing.encodeItems (fun v _ => grows_encode owner v) h
  rw [encode] at he
  split at he
  · cases he
  next values k hk =>
    cases he
    rw [hk] at grows
    exact ⟨values, k, hk, grows, rfl, rfl⟩

theorem encode_dictionary_eq_ok {es : List (Variant × Variant)}
    (he : encode owner (.dictionary es) h = (.ok x, h')) :
    ∃ t k, encodeEntries owner es .empty h = (.ok t, k) ∧ h.Grows k ∧
      x = .table k.tables.size ∧ h' = (k.newTable { t with meta? := some dictionaryMark }).2 := by
  have grows : h.Grows (encodeEntries owner es .empty h).2 :=
    Grows.storing.encodeEntries (fun e _ => ⟨grows_encode owner e.1, grows_encode owner e.2⟩) _ h
  rw [encode] at he
  split at he
  · cases he
  next t k hk =>
    cases he
    rw [hk] at grows
    exact ⟨t, k, hk, grows, rfl, rfl⟩

/-- Whatever is stored lies in a new cell, if it is no scalar. -/
theorem madeFor_of_encode (he : encode owner v h = (.ok x, h')) : h.MadeFor h' v x := by
  by_cases hs : v.isScalar = true
  · exact .inl ⟨hs, (encode_scalar_eq_ok hs he).1⟩
  · refine .inr ⟨Bool.eq_false_iff.mpr hs, ?_⟩
    cases v with
    | array items =>
      obtain ⟨values, k, -, hk, rfl, rfl⟩ := encode_array_eq_ok he
      exact ⟨not_lt.mpr hk.tables, by simp [IsCell, newTable]⟩
    | dictionary es =>
      obtain ⟨t, k, -, hk, rfl, rfl⟩ := encode_dictionary_eq_ok he
      exact ⟨not_lt.mpr hk.tables, by simp [IsCell, newTable]⟩
    | _ =>
      have hb := (isScalar_or_isBoxed (by rfl)).resolve_left hs
      rw [encode_boxed hb] at he
      cases he
      exact ⟨Nat.lt_irrefl _, by simp [IsCell, newBox]⟩

theorem toValue_of_isCell {k : Key} (hk : Key.ofValue x = .ok k) (hx : g.IsCell x) :
    k.toValue = x := by
  cases x with
  | table | box =>
    cases hk
    rfl
  | _ => cases hx

theorem not_isCell_of_plain {k : Key} (hk : Key.ofValue v.plain = .ok k) :
    ¬ g.IsCell k.toValue := by
  have plain := not_isCell_plain g v
  cases hv : v.plain with
  | nil =>
    rw [hv] at hk
    cases hk
  | float y =>
    rw [hv, Key.ofValue] at hk
    split at hk <;> cases hk <;> exact id
  | _ =>
    rw [hv] at hk plain
    cases hk
    exact plain

/-! ### Entry by entry -/

theorem getElem?_snoc {α : Type} {xs : List α} {x y : α} {i : Nat}
    (h : (xs ++ [x])[i]? = some y) : xs[i]? = some y ∨ i = xs.length ∧ y = x := by
  by_cases hi : i < xs.length
  · exact .inl (List.getElem?_append_left hi ▸ h)
  · rw [List.getElem?_append_right (Nat.le_of_not_lt hi), List.getElem?_singleton] at h
    split at h
    · exact .inr ⟨by omega, (Option.some.inj h).symm⟩
    · cases h

theorem encodeEntry_eq_ok {e : Variant × Variant} {t t' : Table}
    (he : encodeEntry owner e t h = (.ok t', h')) :
    ∃ x g, encode owner e.1 h = (.ok x, g) ∧
      ((∃ fault, Key.ofValue x = .error fault ∧ t' = t ∧ h' = g) ∨
        ∃ k y, Key.ofValue x = .ok k ∧ encode owner e.2 g = (.ok y, h') ∧ t' = t.set k y) := by
  rw [encodeEntry] at he
  split at he
  · cases he
  next x g hx =>
    refine ⟨x, g, hx, ?_⟩
    split at he
    next fault hk =>
      cases he
      exact .inl ⟨fault, hk, rfl, rfl⟩
    next k hk =>
      split at he
      · cases he
      next y g' hy =>
        cases he
        exact .inr ⟨k, y, hk, hy, rfl⟩

/-- What the entries `done` have made of a table, where those that are alone in their group have
the keys `cells`. -/
structure Merged (owner : Nat) (h₀ : Heap) (done : List (Variant × Variant)) (cells : Nat → Key)
    (t : Table) (h : Heap) : Prop where
  grows : h₀.Grows h
  cell : ∀ i e, done[i]? = some e → e.1.isScalar = false →
    h₀.Wrote owner h e.1 (cells i).toValue ∧ h.IsCell (cells i).toValue
  apart : ∀ g g' v v', lastIn done g = some v → lastIn done g' = some v' →
    g.key cells = g'.key cells → g = g'
  value : ∀ g v, lastIn done g = some v → h₀.Wrote owner h v (t.get (g.key cells))
  only : ∀ k, t.get k ≠ .nil → ∃ g v, lastIn done g = some v ∧ g.key cells = k

namespace Merged

variable {h₀ : Heap} {done : List (Variant × Variant)} {cells : Nat → Key} {t : Table}
  {e : Variant × Variant} {group : Group} {k : Key} {y : Value}

theorem start (owner : Nat) (h : Heap) (cells : Nat → Key) : Merged owner h [] cells .empty h where
  grows := .refl h
  cell _ _ he := by cases he
  apart _ _ _ _ hv := by cases hv
  value _ _ hv := by cases hv
  only k hk := absurd rfl hk

theorem exists_of_own {i : Nat} (hi : lastIn done (.own i) = some v) :
    ∃ e, done[i]? = some e ∧ e.1.isScalar = false := by
  obtain ⟨j, e, he, hg, -⟩ := exists_of_lastIn hi
  obtain ⟨rfl, hs⟩ := of_group?_own hg
  exact ⟨e, he, hs⟩

/-- A new cell does not matter to what is there. -/
theorem key_update (hg : lastIn done group = some v) (k : Key) :
    group.key (Function.update cells done.length k) = group.key cells := by
  cases group with
  | plain => rfl
  | own i =>
    obtain ⟨e, he, -⟩ := exists_of_own hg
    exact Function.update_of_ne (List.getElem?_eq_some_iff.mp he).1.ne k cells

theorem withMeta (hm : Merged owner h₀ done cells t h) (m : Option Nat) :
    Merged owner h₀ done cells { t with meta? := m } h :=
  ⟨hm.grows, hm.cell, hm.apart, hm.value, hm.only⟩

theorem grown (hm : Merged owner h₀ done cells t h) (hh : h.Grows h') :
    Merged owner h₀ done cells t h' where
  grows := hm.grows.trans hh
  cell i e he hs := (hm.cell i e he hs).imp (fun wrote => wrote.grows hh) fun cell => cell.grows hh
  apart := hm.apart
  value g v hv := (hm.value g v hv).grows hh
  only := hm.only

/-- An entry in no group changes nothing. -/
theorem skip (hm : Merged owner h₀ done cells t h) (hg : group? done.length e.1 = none)
    (hh : h.Grows h') : Merged owner h₀ (done ++ [e]) cells t h' := by
  have last (group : Group) : lastIn (done ++ [e]) group = lastIn done group :=
    lastIn_snoc_other (hg ▸ (Option.some_ne_none _).symm)
  refine ⟨hm.grows.trans hh, fun i f hf hs => ?_, ?_, ?_, ?_⟩
  · rcases getElem?_snoc hf with hf | ⟨-, rfl⟩
    · obtain ⟨wrote, cell⟩ := hm.cell i f hf hs
      exact ⟨wrote.grows hh, cell.grows hh⟩
    · rw [group?_of_not_scalar hs] at hg
      cases hg
  · simp only [last]
    exact hm.apart
  · simp only [last]
    exact fun g v hv => (hm.value g v hv).grows hh
  · simp only [last]
    exact hm.only

/-- The entry of a group takes the place of those before it in the group. -/
theorem write (hm : Merged owner h₀ done cells t h) (hg : group? done.length e.1 = some group)
    (hk : group.key (Function.update cells done.length k) = k)
    (apart : ∀ g v, lastIn done g = some v → g.key cells = k → g = group)
    (cell : e.1.isScalar = false → h₀.Wrote owner h' e.1 k.toValue ∧ h'.IsCell k.toValue)
    (hy : h₀.Wrote owner h' e.2 y) (hh : h.Grows h') :
    Merged owner h₀ (done ++ [e]) (Function.update cells done.length k) (t.set k y) h' := by
  -- Another group has the key and the last entry that it had.
  have other {g : Group} {v : Variant} (hn : g ≠ group) (hv : lastIn (done ++ [e]) g = some v) :
      lastIn done g = some v ∧ g.key (Function.update cells done.length k) = g.key cells := by
    rw [lastIn_snoc_other (hg ▸ fun h => hn (Option.some.inj h).symm)] at hv
    exact ⟨hv, key_update hv k⟩
  refine ⟨hm.grows.trans hh, fun i f hf hs => ?_, fun g g' v v' hv hv' he => ?_, fun g v hv => ?_,
    fun l hl => ?_⟩
  · rcases getElem?_snoc hf with hf | ⟨rfl, rfl⟩
    · obtain ⟨wrote, cell⟩ := hm.cell i f hf hs
      have old := (List.getElem?_eq_some_iff.mp hf).1
      rw [Function.update_of_ne old.ne]
      exact ⟨wrote.grows hh, cell.grows hh⟩
    · rw [Function.update_self]
      exact cell hs
  · -- The key is that of the group, and no other group has it.
    by_cases hn : g = group <;> by_cases hn' : g' = group
    · rw [hn, hn']
    · obtain ⟨hv', hk'⟩ := other hn' hv'
      rw [hn, hk, hk'] at he
      exact hn.trans (apart g' v' hv' he.symm).symm
    · obtain ⟨hv, hk'⟩ := other hn hv
      rw [hn', hk, hk'] at he
      exact (apart g v hv he).trans hn'.symm
    · obtain ⟨hv, hk⟩ := other hn hv
      obtain ⟨hv', hk'⟩ := other hn' hv'
      rw [hk, hk'] at he
      exact hm.apart g g' v v' hv hv' he
  · by_cases hn : g = group
    · rw [hn, lastIn_snoc_self hg] at hv
      rw [hn, hk, Table.get_set, ← Option.some.inj hv]
      exact hy
    · obtain ⟨hv, hk'⟩ := other hn hv
      rw [hk', Table.get_set_of_ne fun he => hn (apart g v hv he)]
      exact (hm.value g v hv).grows hh
  · by_cases hn : l = k
    · exact ⟨group, e.2, lastIn_snoc_self hg, hk.trans hn.symm⟩
    · rw [Table.get_set_of_ne hn] at hl
      obtain ⟨g, v, hv, rfl⟩ := hm.only l hl
      refine ⟨g, v, ?_, key_update hv k⟩
      rw [lastIn_snoc_other fun h => ?_]
      · exact hv
      · rw [hg] at h
        cases h
        exact hn ((key_update hv k).symm.trans hk)

/-- The keys of cells are new when they are made, and no scalar is a cell. -/
theorem entry (hm : Merged owner h₀ done cells t h) {t' : Table}
    (he : encodeEntry owner e t h = (.ok t', h')) :
    ∃ cells', Merged owner h₀ (done ++ [e]) cells' t' h' := by
  have cell_of_own {i : Nat} {v : Variant} (hi : lastIn done (.own i) = some v) :
      h.IsCell (cells i).toValue := by
    obtain ⟨f, hf, hs⟩ := exists_of_own hi
    exact (hm.cell i f hf hs).2
  obtain ⟨x, g, hx, ⟨fault, hk, rfl, rfl⟩ | ⟨k, y, hk, hy, rfl⟩⟩ := encodeEntry_eq_ok he
  · refine ⟨cells, hm.skip ?_ (grows_of_encode hx)⟩
    rcases madeFor_of_encode hx with ⟨hs, rfl⟩ | ⟨-, -, hc⟩
    · exact group?_of_error hs hk _
    · cases x <;> first | cases hc | cases hk
  · have grows := (grows_of_encode hx).trans (grows_of_encode hy)
    have wrote : h₀.Wrote owner h' e.2 y :=
      ⟨g, h', hm.grows.trans (grows_of_encode hx), hy, .refl h'⟩
    refine ⟨Function.update cells done.length k, ?_⟩
    -- A scalar is its own key. Any other key is a cell, which no entry before it can have.
    rcases madeFor_of_encode hx with ⟨hs, rfl⟩ | ⟨hs, hn, hc⟩
    · refine hm.write (group?_of_key hs hk _) rfl (fun g v hv he => ?_) ?_ wrote grows
      · cases g with
        | plain l => exact congrArg Group.plain he
        | own i =>
          obtain rfl : cells i = k := he
          exact absurd (cell_of_own hv) (not_isCell_of_plain hk)
      · intro hn
        rw [hs] at hn
        cases hn
    · have key := toValue_of_isCell hk hc
      have cell : h'.IsCell k.toValue := (key ▸ hc).grows (grows_of_encode hy)
      refine hm.write (group?_of_not_scalar hs _) (Function.update_self ..) (fun g v hv he => ?_) ?_
        wrote grows
      · cases g with
        | plain l =>
          obtain ⟨j, f, -, hg, -⟩ := exists_of_lastIn hv
          exact absurd (he ▸ cell) (not_isCell_of_plain (of_group?_plain hg))
        | own i =>
          obtain rfl : cells i = k := he
          exact absurd (key ▸ cell_of_own hv) hn
      · exact fun _ => ⟨⟨h, g, hm.grows, key ▸ hx, grows_of_encode hy⟩, cell⟩

theorem entries (hm : Merged owner h₀ done cells t h) {es : List (Variant × Variant)} {t' : Table}
    (he : encodeEntries owner es t h = (.ok t', h')) :
    ∃ cells', Merged owner h₀ (done ++ es) cells' t' h' := by
  induction es generalizing done cells t h with
  | nil =>
    rw [encodeEntries] at he
    cases he
    exact ⟨cells, by rwa [List.append_nil]⟩
  | cons e rest ih =>
    rw [encodeEntries] at he
    split at he
    · cases he
    next t₁ h₁ he₁ =>
      obtain ⟨cells₁, hm₁⟩ := hm.entry he₁
      obtain ⟨cells₂, hm₂⟩ := ih hm₁ he
      exact ⟨cells₂, by rwa [List.append_assoc] at hm₂⟩

end Merged

/-! ### Whole dictionaries -/

/-- What is read where the table has this key. -/
def ReadsEntry (owner : Nat) (h : Heap) (depth : Nat) (t : Table) (k : Key)
    (w : Variant × Variant) : Prop :=
  decodeTo false owner h depth k.toValue = .ok w.1 ∧
    decodeTo false owner h depth (t.get k) = .ok w.2

theorem Wrote.eq_nil_iff (hw : h.Wrote owner g v x) : x = .nil ↔ v = .nil := by
  obtain ⟨k, k', -, he, -⟩ := hw
  have same := isNil_of_madeFor (madeFor_of_encode he)
  constructor
  · rintro rfl
    cases v <;> first | rfl | cases same
  · rintro rfl
    cases x <;> first | rfl | cases same

theorem Wrote.eq_plain (hw : h.Wrote owner g v x) (hs : v.isScalar = true) : x = v.plain := by
  obtain ⟨k, k', -, he, -⟩ := hw
  exact (encode_scalar_eq_ok hs he).1

section Whole

variable {es : List (Variant × Variant)} {cells : Nat → Key} {t : Table}

theorem Merged.get_ne_nil_iff (hm : Merged owner h es cells t g) {group : Group}
    (hg : lastIn es group = some v) : t.get (group.key cells) ≠ .nil ↔ Live es group := by
  rw [Ne, (hm.value group v hg).eq_nil_iff]
  refine ⟨fun hn => ⟨v, hg, hn⟩, fun ⟨w, hw, hn⟩ => ?_⟩
  rw [hg] at hw
  cases hw
  exact hn

/-- Exactly the live groups have entries in the table. -/
theorem Merged.holds_iff (hm : Merged owner h es cells t g) (k : Key) :
    t.get k ≠ .nil ↔ ∃ group, Live es group ∧ group.key cells = k := by
  constructor
  · intro hk
    obtain ⟨group, v, hg, rfl⟩ := hm.only k hk
    exact ⟨group, (hm.get_ne_nil_iff hg).mp hk, rfl⟩
  · rintro ⟨group, ⟨v, hg, hn⟩, rfl⟩
    exact (hm.get_ne_nil_iff hg).mpr ⟨v, hg, hn⟩

/-- The groups of the entries of the table, in their order. -/
theorem Merged.exists_groups (hm : Merged owner h es cells t g) :
    ∃ groups : List Group, groups.Nodup ∧ (∀ group, group ∈ groups ↔ Live es group) ∧
      groups.map (Group.key cells) = t.entries.map (·.1) := by
  have known : ∀ k, ∃ group, t.get k ≠ .nil → Live es group ∧ group.key cells = k := by
    intro k
    by_cases hk : t.get k = .nil
    · exact ⟨.plain k, fun hn => absurd hk hn⟩
    · obtain ⟨group, hl, hg⟩ := (hm.holds_iff k).mp hk
      exact ⟨group, fun _ => ⟨hl, hg⟩⟩
  -- Keys that the table does not have get any group.
  choose group hgroup using known
  have filled {k : Key} (hk : k ∈ t.entries.map (·.1)) : t.get k ≠ .nil := fun hn =>
    Table.get_eq_nil_iff.mp hn hk
  have keys : ((t.entries.map (·.1)).map group).map (Group.key cells) = t.entries.map (·.1) := by
    rw [List.map_map]
    exact (List.map_congr_left (g := id) fun k hk => (hgroup k (filled hk)).2).trans
      (List.map_id _)
  refine ⟨(t.entries.map (·.1)).map group, ?_, fun l => ?_, keys⟩
  · exact .of_map _ (keys ▸ t.proper.distinct)
  · rw [List.mem_map]
    constructor
    · rintro ⟨k, hk, rfl⟩
      exact (hgroup k (filled hk)).1
    · intro hl
      have hk := (hm.holds_iff _).mpr ⟨l, hl, rfl⟩
      obtain ⟨live, same⟩ := hgroup _ hk
      refine ⟨l.key cells, ?_, ?_⟩
      · by_contra hn
        exact hk (Table.get_eq_nil_iff.mpr hn)
      · obtain ⟨v, hv, -⟩ := live
        obtain ⟨w, hw, -⟩ := hl
        exact hm.apart _ _ v w hv hw same

theorem Merged.exists_reading (hm : Merged owner h es cells t g) {depth : Nat} {h' : Heap}
    {ws : List (Variant × Variant)}
    (hws : List.Forall₂ (fun row w => decodeTo false owner h' depth row.1.toValue = .ok w.1 ∧
      decodeTo false owner h' depth row.2 = .ok w.2) t.entries ws) :
    ∃ groups : List Group, groups.Nodup ∧ (∀ group, group ∈ groups ↔ Live es group) ∧
      List.Forall₂ (fun group w => ReadsEntry owner h' depth t (group.key cells) w) groups ws := by
  obtain ⟨groups, distinct, live, keys⟩ := hm.exists_groups
  have rows := (List.forall₂_and_left _ _).mpr
    ⟨fun row (hr : (row.1, row.2) ∈ t.entries) => Table.get_of_mem hr, hws⟩
  have read : List.Forall₂ (ReadsEntry owner h' depth t) (t.entries.map (·.1)) ws :=
    List.forall₂_map_left_iff.mpr (rows.imp fun row w hr => ⟨hr.2.1, hr.1 ▸ hr.2.2⟩)
  rw [← keys] at read
  exact ⟨groups, distinct, live, List.forall₂_map_left_iff.mp read⟩

/-- The table of a dictionary, behind all that there was. -/
theorem exists_merged (he : encode owner (.dictionary es) h = (.ok x, h')) :
    ∃ (id : Nat) (cells : Nat → Key), x = .table id ∧ h.tables.size ≤ id ∧ id < h'.tables.size ∧
      (h'.table id).meta? = some dictionaryMark ∧ Merged owner h es cells (h'.table id) h' := by
  obtain ⟨t, k, ht, hk, rfl, rfl⟩ := encode_dictionary_eq_ok he
  obtain ⟨cells, hm⟩ := (Merged.start owner h fun _ => .bool true).entries ht
  let marked : Table := { t with meta? := some dictionaryMark }
  have table : (k.newTable marked).2.table k.tables.size = marked := table_newTable k marked
  refine ⟨k.tables.size, cells, rfl, hk.tables, by simp [newTable], ?_, ?_⟩
  · rw [table]
  · rw [table]
    exact (hm.withMeta _).grown (.newTable k marked)

/-- Of any dictionary that can be stored, the table has an entry for each group whose last entry
has a value other than nil, and that value, and it is read as a dictionary of these entries. -/
theorem last_entry_wins (he : encode owner (.dictionary es) h = (.ok x, h')) :
    (∀ i v, group? i v = none ↔ v = .nil ∨ ∃ y, v = .float y ∧ y.isNaN = true) ∧
    (∀ i j y n, y.isNaN = false → Number.integral? y = some n →
      group? i (.float y) = group? j (.int n)) ∧
    (∀ i j v w, v.isScalar = true → w.isScalar = true → v.IsKey → w.IsKey →
      (group? i v = group? j w ↔ v = w)) ∧
    (∀ i j v w, v.isScalar = false → (group? i v = group? j w ↔ i = j ∧ w.isScalar = false)) ∧
    ∃ (id : Nat) (cells : Nat → Key), x = .table id ∧ ¬ h.IsCell x ∧ h.Grows h' ∧
      (∀ i e, es[i]? = some e → e.1.isScalar = false →
        h.Wrote owner h' e.1 (cells i).toValue) ∧
      (∀ group group' v v', lastIn es group = some v → lastIn es group' = some v' →
        group.key cells = group'.key cells → group = group') ∧
      (∀ group v, lastIn es group = some v →
        h.Wrote owner h' v ((h'.table id).get (group.key cells)) ∧
          ((h'.table id).get (group.key cells) = .nil ↔ v = .nil)) ∧
      (∀ k, (h'.table id).get k ≠ .nil ↔ ∃ group, Live es group ∧ group.key cells = k) ∧
      ∃ groups ws, h'.decode owner x = .dictionary ws ∧
        (∀ w, h'.decodeStrict owner x = .ok w → w = .dictionary ws) ∧
        groups.Nodup ∧ (∀ group, group ∈ groups ↔ Live es group) ∧
        List.Forall₂ (fun group w =>
          ReadsEntry owner h' (depthLimit - 1) (h'.table id) (group.key cells) w) groups ws := by
  refine ⟨fun _ _ => group?_eq_none, fun _ _ _ _ => group?_of_integral,
    fun _ _ _ _ => group?_eq_iff_of_isKey, fun _ _ _ _ => group?_eq_iff_of_not_scalar, ?_⟩
  obtain ⟨id, cells, rfl, old, -, mark, hm⟩ := exists_merged he
  refine ⟨id, cells, rfl, not_lt.mpr old, hm.grows, fun i e hi hs => (hm.cell i e hi hs).1,
    hm.apart, fun group v hg => ⟨hm.value group v hg, (hm.value group v hg).eq_nil_iff⟩,
    hm.holds_iff, ?_⟩
  have read : decodeTo false owner h' (127 + 1) (.table id) = .ok (h'.decode owner (.table id)) :=
    decodeTo_false ..
  rcases decodeTo_table_eq_ok.mp read with ⟨_, _, hs, -⟩ | ⟨ws, -, hw, hws⟩
  · rw [slots_of_dictionaryMark mark] at hs
    cases hs
  · obtain ⟨groups, distinct, live, reads⟩ := hm.exists_reading hws
    refine ⟨groups, ws, hw, fun w hs => ?_, distinct, live, reads⟩
    rw [← decode_eq_of_strict hs, hw]

end Whole

/-- Keys that meet in one entry, keys that never do, and one that ends up without a value. -/
def merging : List (Variant × Variant) :=
  [(.float 2, .string "a"), (.nil, .int 0), (.int 2, .string "b"), (.array [], .int 1),
    (.array [], .int 2), (.bool true, .int 3), (.bool true, .nil)]

theorem last_entry_wins_merging : ∃ h', encode 0 (.dictionary merging) initial = (.ok (.table 5), h') ∧
    (h'.table 5).get (.int 2) = .ofString "b" ∧ (h'.table 5).get (.bool true) = .nil ∧
    ∃ k l, k ≠ l ∧ (h'.table 5).get k = .int 1 ∧ (h'.table 5).get l = .int 2 := by
  have he : encode 0 (.dictionary merging) initial =
      (.ok (.table 5), (encode 0 (.dictionary merging) initial).2) :=
    Prod.ext (by decide +kernel) rfl
  obtain ⟨-, -, -, -, id, cells, hid, -, -, -, apart, value, -⟩ := last_entry_wins he
  cases hid
  have first := (value (.own 3) (.int 1) rfl).1.eq_plain rfl
  have second := (value (.own 4) (.int 2) rfl).1.eq_plain rfl
  refine ⟨_, he, (value (.plain (.int 2)) (.string "b") rfl).1.eq_plain rfl,
    (value (.plain (.bool true)) .nil rfl).2.mpr rfl, _, _, fun hk => ?_, first, second⟩
  cases apart _ _ _ _ rfl rfl hk

end Heap

end ScriptHost
