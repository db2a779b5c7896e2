import ScriptHost.Codec.Decode
import ScriptHost.Proofs.Fault.Results

/-! What reading a script value comes to, one level at a time: a table is read if all its
parts are, and refused if one of them is. Both modes visit the same values, and differ
in what they do at a value that has no host counterpart. -/

namespace ScriptHost

namespace Heap

variable {strict : Bool} {owner : Nat} {h : Heap} {depth : Nat}

/-- Key and value of an entry. -/
def decodeEntry (strict : Bool) (owner : Nat) (h : Heap) (depth : Nat) (e : Key × Value) :
    Except Refusal (Variant × Variant) := do
  let key ← decodeTo strict owner h depth e.1.toValue
  let value ← decodeTo strict owner h depth e.2
  return (key, value)

theorem decodeEntry_eq_ok {e : Key × Value} {f : Variant × Variant} :
    decodeEntry strict owner h depth e = .ok f ↔
      decodeTo strict owner h depth e.1.toValue = .ok f.1 ∧
        decodeTo strict owner h depth e.2 = .ok f.2 := by
  unfold decodeEntry
  cases decodeTo strict owner h depth e.1.toValue with
  | error r => exact ⟨fun h => (nomatch h), fun h => nomatch h.1⟩
  | ok k =>
    cases decodeTo strict owner h depth e.2 with
    | error r => exact ⟨fun h => (nomatch h), fun h => nomatch h.2⟩
    | ok v =>
      refine ⟨fun h => ?_, fun h => ?_⟩
      · cases h
        exact ⟨rfl, rfl⟩
      · rw [Except.ok.inj h.1, Except.ok.inj h.2]
        rfl

theorem decodeEntry_eq_error {e : Key × Value} {r : Refusal}
    (he : decodeEntry strict owner h depth e = .error r) :
    decodeTo strict owner h depth e.1.toValue = .error r ∨
      decodeTo strict owner h depth e.2 = .error r := by
  unfold decodeEntry at he
  cases hk : decodeTo strict owner h depth e.1.toValue with
  | error r' =>
    rw [hk] at he
    cases he
    exact .inl rfl
  | ok k =>
    rw [hk] at he
    cases hv : decodeTo strict owner h depth e.2 with
    | error r' =>
      rw [hv] at he
      cases he
      exact .inr rfl
    | ok v => rw [hv] at he; cases he

/-- What reading a table reads in turn. -/
def parts (h : Heap) (id : Nat) : List Value :=
  match (h.table id).slots? with
  | some items => items
  | none => (h.table id).entries.flatMap fun e => [e.1.toValue, e.2]

theorem decodeTo_array {id : Nat} {items : List Value} (hs : (h.table id).slots? = some items) :
    decodeTo strict owner h (depth + 1) (.table id) =
      (items.mapM (decodeTo strict owner h depth)).map .array := by
  rw [decodeTo]
  simp only [hs]

theorem decodeTo_dictionary {id : Nat} (hs : (h.table id).slots? = none) :
    decodeTo strict owner h (depth + 1) (.table id) =
      ((h.table id).entries.mapM (decodeEntry strict owner h depth)).map .dictionary := by
  rw [decodeTo]
  simp only [hs]
  rfl

/-- A table is read if each of its parts is. -/
theorem decodeTo_table_eq_ok {id : Nat} {w : Variant} :
    decodeTo strict owner h (depth + 1) (.table id) = .ok w ↔
      (∃ items ws, (h.table id).slots? = some items ∧ w = .array ws ∧
        List.Forall₂ (fun x y => decodeTo strict owner h depth x = .ok y) items ws) ∨
      (∃ ws, (h.table id).slots? = none ∧ w = .dictionary ws ∧
        List.Forall₂ (fun e f => decodeTo strict owner h depth e.1.toValue = .ok f.1 ∧
          decodeTo strict owner h depth e.2 = .ok f.2) (h.table id).entries ws) := by
  cases hs : (h.table id).slots? with
  | some items =>
    rw [decodeTo_array hs, map_eq_ok]
    constructor
    · rintro ⟨ws, hw, rfl⟩
      exact .inl ⟨items, ws, rfl, rfl, mapM_eq_ok.mp hw⟩
    · rintro (⟨_, ws, hi, rfl, hw⟩ | ⟨_, hn, _⟩)
      · cases hi
        exact ⟨ws, mapM_eq_ok.mpr hw, rfl⟩
      · cases hn
  | none =>
    rw [decodeTo_dictionary hs, map_eq_ok]
    simp only [mapM_eq_ok, decodeEntry_eq_ok]
    constructor
    · rintro ⟨ws, hw, rfl⟩
      exact .inr ⟨ws, trivial, rfl, hw⟩
    · rintro (⟨_, _, hi, _⟩ | ⟨ws, -, rfl, hw⟩)
      · cases hi
      · exact ⟨ws, hw, rfl⟩

/-- A table is refused for one of its parts. -/
theorem decodeTo_table_eq_error {id : Nat} {r : Refusal}
    (he : decodeTo strict owner h (depth + 1) (.table id) = .error r) :
    ∃ x ∈ h.parts id, decodeTo strict owner h depth x = .error r := by
  unfold parts
  cases hs : (h.table id).slots? with
  | some items =>
    rw [decodeTo_array hs] at he
    cases hm : items.mapM (decodeTo strict owner h depth) with
    | ok ws => rw [hm] at he; cases he
    | error r' =>
      rw [hm] at he
      cases he
      exact mapM_eq_error hm
  | none =>
    rw [decodeTo_dictionary hs] at he
    cases hm : (h.table id).entries.mapM (decodeEntry strict owner h depth) with
    | ok ws => rw [hm] at he; cases he
    | error r' =>
      rw [hm] at he
      cases he
      obtain ⟨e, hmem, hd⟩ := mapM_eq_error hm
      rcases decodeEntry_eq_error hd with hd | hd
      · exact ⟨_, List.mem_flatMap.mpr ⟨e, hmem, by simp⟩, hd⟩
      · exact ⟨_, List.mem_flatMap.mpr ⟨e, hmem, by simp⟩, hd⟩

theorem exists_decodeTo_table_eq_error {id : Nat} {x : Value} {r : Refusal} (hx : x ∈ h.parts id)
    (hd : decodeTo strict owner h depth x = .error r) :
    ∃ r, decodeTo strict owner h (depth + 1) (.table id) = .error r := by
  cases ht : decodeTo strict owner h (depth + 1) (.table id) with
  | error r => exact ⟨r, rfl⟩
  | ok w =>
    exfalso
    unfold parts at hx
    rcases decodeTo_table_eq_ok.mp ht with ⟨items, ws, hs, -, hw⟩ | ⟨ws, hs, -, hw⟩
    · rw [hs] at hx
      obtain ⟨y, -, hy⟩ := exists_of_mem_left hw hx
      rw [hd] at hy
      cases hy
    · rw [hs] at hx
      obtain ⟨e, he, hx⟩ := List.mem_flatMap.mp hx
      obtain ⟨f, -, hk, hv⟩ := exists_of_mem_left hw he
      simp only [List.mem_cons, List.not_mem_nil, or_false] at hx
      rcases hx with rfl | rfl
      · rw [hd] at hk; cases hk
      · rw [hd] at hv; cases hv

end Heap

end ScriptHost
