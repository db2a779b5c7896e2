import Mathlib.Data.Nat.Basic
import Mathlib.Order.Basic
import ScriptHost.Codec.Decode
import ScriptHost.Proofs.Variant.Containers

/-! Host values that an interpreter can store without loss, and heaps that keep what an
earlier heap holds. -/

namespace ScriptHost

namespace Variant

/-- Known to scripts by what it is, not by where it lies. -/
def isScalar : Variant → Bool
  | nil | bool _ | int _ | float _ | string _ | callable (.script _) => true
  | _ => false

/-- Neither nil nor a float that is no number or equal to an integer. -/
def IsKey (v : Variant) : Prop := v ≠ nil ∧ ∀ x, v = float x → Number.Uneven x

/-- What interpreter `owner` can store so that it is read as it was. A list in memory is
not longer than `lastItem`. -/
inductive Storable (owner holes : Nat) : Variant → Prop
  | leaf {v : Variant} : v.isLeaf = true →
    (∀ f, v = .callable (.script f) → f.owner = owner) → Storable owner holes v
  | array {items : List Variant} : (∀ v ∈ items, Storable owner holes v) →
    items.countP isNil ≤ holes → items.length ≤ Heap.lastItem → Storable owner holes (.array items)
  | dictionary {entries : List (Variant × Variant)} :
    (∀ e ∈ entries, Storable owner holes e.1) → (∀ e ∈ entries, Storable owner holes e.2) →
    (∀ e ∈ entries, e.1.IsKey) → (∀ e ∈ entries, e.2 ≠ .nil) →
    entries.Pairwise (fun e f => e.1.isScalar = true → e.1 ≠ f.1) →
    Storable owner holes (.dictionary entries)

theorem Storable.mono {owner m n : Nat} {v : Variant} (h : v.Storable owner m) (hmn : m ≤ n) :
    v.Storable owner n := by
  induction h with
  | leaf hl hf => exact .leaf hl hf
  | array _ hh hl ih => exact .array ih (hh.trans hmn) hl
  | dictionary _ _ hk hv hd ihk ihv => exact .dictionary ihk ihv hk hv hd

theorem isScalar_or_isBoxed {v : Variant} (h : v.isLeaf = true) :
    v.isScalar = true ∨ v.isBoxed = true := by
  cases v with
  | callable c => cases c <;> simp [isScalar, isBoxed]
  | array | dictionary => cases h
  | _ => simp [isScalar, isBoxed]

theorem isScalar_of_isBoxed {v : Variant} (h : v.isBoxed = true) : v.isScalar = false := by
  cases v with
  | callable c => cases c <;> first | rfl | cases h
  | _ => first | rfl | cases h

/-- The form of a scalar in scripts. -/
def plain : Variant → Value
  | bool b => .bool b
  | int n => .int n
  | float x => .float x
  | string s => .ofString s
  | callable (.script f) => .function f
  | _ => .nil

theorem plain_inj {v w : Variant} (hv : v.isScalar = true) (hw : w.isScalar = true)
    (h : v.plain = w.plain) : v = w := by
  unfold isScalar at hv hw
  split at hv
  any_goals cases hv
  all_goals
    split at hw
    any_goals cases hw
    all_goals simp_all [plain, Value.ofString, String.toByteArray_inj]

end Variant

namespace Key

theorem toValue_inj {k l : Key} (h : k.toValue = l.toValue) : k = l := by
  cases k <;> cases l <;> simp_all [toValue]

/-- What is neither nil nor such a float is a key as it is. -/
theorem exists_ofValue {x : Value} (hn : x ≠ .nil) (hx : ∀ y, x = .float y → Number.Uneven y) :
    ∃ k, ofValue x = .ok k ∧ k.toValue = x := by
  cases x with
  | nil => exact absurd rfl hn
  | float y =>
    have hy := hx y rfl
    refine ⟨.float y hy, ?_, rfl⟩
    dsimp only [ofValue]
    split
    next h => rw [hy.1] at h; cases h
    next h => rw [hy.2] at h; cases h
    next => rfl
  | _ => exact ⟨_, rfl, rfl⟩

end Key

namespace Heap

/-- What `h` holds is still in `g`, tables from `above` on. The entries of a table may be in
another order, and the search for its end may begin elsewhere. -/
structure Kept (above : Nat) (h g : Heap) : Prop where
  tables : h.tables.size ≤ g.tables.size
  boxes : h.boxes.size ≤ g.boxes.size
  entries : ∀ id, above ≤ id → id < h.tables.size → (h.table id).entries.Perm (g.table id).entries
  meta? : ∀ id, above ≤ id → id < h.tables.size → (g.table id).meta? = (h.table id).meta?
  boxed? : ∀ id < h.boxes.size, g.boxed? id = h.boxed? id

namespace Kept

variable {above : Nat}

theorem refl (h : Heap) : h.Kept above h :=
  ⟨Nat.le_refl _, Nat.le_refl _, fun _ _ _ => .refl _, fun _ _ _ => rfl, fun _ _ => rfl⟩

theorem trans {h g k : Heap} (hg : h.Kept above g) (gk : g.Kept above k) : h.Kept above k where
  tables := hg.tables.trans gk.tables
  boxes := hg.boxes.trans gk.boxes
  entries id ha hi := (hg.entries id ha hi).trans (gk.entries id ha (hi.trans_le hg.tables))
  meta? id ha hi := (gk.meta? id ha (hi.trans_le hg.tables)).trans (hg.meta? id ha hi)
  boxed? id hi := (gk.boxed? id (hi.trans_le hg.boxes)).trans (hg.boxed? id hi)

theorem newTable (h : Heap) (t : Table) : h.Kept above (h.newTable t).2 := by
  have same {id : Nat} (hi : id < h.tables.size) : (h.newTable t).2.table id = h.table id := by
    simp [Heap.newTable, Heap.table, Array.getElem?_push, hi.ne]
  refine ⟨?_, Nat.le_refl _, fun id _ hi => ?_, fun id _ hi => ?_, fun id hi => rfl⟩
  · simp [Heap.newTable]
  · rw [same hi]
  · rw [same hi]

theorem newBox (h : Heap) (b : Boxed) : h.Kept above (h.newBox b).2 := by
  refine ⟨Nat.le_refl _, ?_, fun id _ hi => .refl _, fun id _ hi => rfl, fun id hi => ?_⟩
  · simp [Heap.newBox]
  · simp [Heap.newBox, Heap.boxed?, Heap.box?, Array.getElem?_push, hi.ne]

end Kept

theorem table_newTable (h : Heap) (t : Table) : (h.newTable t).2.table h.tables.size = t := by
  simp [newTable, table]

theorem boxed?_newBox (h : Heap) (b : Boxed) :
    (h.newBox b).2.boxed? h.boxes.size = some b.value := by
  simp [newBox, boxed?, box?]

/-! ### Storing a leaf -/

variable {owner : Nat}

theorem encode_scalar {v : Variant} (hv : v.isScalar = true)
    (ho : ∀ f, v = .callable (.script f) → f.owner = owner) (h : Heap) :
    encode owner v h = (.ok v.plain, h) := by
  unfold Variant.isScalar at hv
  split at hv
  any_goals cases hv
  case h_6 f => rw [encode, if_pos (ho f rfl)]; rfl
  all_goals rw [encode]; rfl

theorem encode_boxed {v : Variant} (hv : v.isBoxed = true) (h : Heap) :
    encode owner v h = (.ok (.box h.boxes.size), (h.newBox ⟨v, hv⟩).2) := by
  cases v with
  | callable c =>
    cases c with
    | script => cases hv
    | _ => rw [encode]; rfl
  | vector2 | vector3 | color | rect2 | plane | object | signal => rw [encode]; rfl
  | _ => cases hv

end Heap

end ScriptHost
