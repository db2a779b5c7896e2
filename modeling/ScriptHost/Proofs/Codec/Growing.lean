import ScriptHost.Machine.Heap
import ScriptHost.Codec.Encode
import ScriptHost.Proofs.Variant.Containers

/-! Storing a value adds tables and boxes to a heap, also where it is refused halfway, and leaves
everything that was there as it was. -/

namespace ScriptHost

namespace Heap

/-- New tables and boxes aside, `g` is what `h` was. -/
structure Grows (h g : Heap) : Prop where
  tables : h.tables.size ≤ g.tables.size
  boxes : h.boxes.size ≤ g.boxes.size
  table : ∀ id < h.tables.size, g.table id = h.table id
  box? : ∀ id < h.boxes.size, g.box? id = h.box? id
  functions : g.functions = h.functions
  threads : g.threads = h.threads
  faults : g.faults = h.faults
  textMeta? : g.textMeta? = h.textMeta?
  finalizable : h.finalizable <:+ g.finalizable

namespace Grows

variable {h g k : Heap}

theorem refl (h : Heap) : h.Grows h :=
  ⟨Nat.le_refl _, Nat.le_refl _, fun _ _ => rfl, fun _ _ => rfl, rfl, rfl, rfl, rfl,
    List.suffix_refl _⟩

theorem trans (hg : h.Grows g) (gk : g.Grows k) : h.Grows k where
  tables := Nat.le_trans hg.tables gk.tables
  boxes := Nat.le_trans hg.boxes gk.boxes
  table id hi := (gk.table id (Nat.lt_of_lt_of_le hi hg.tables)).trans (hg.table id hi)
  box? id hi := (gk.box? id (Nat.lt_of_lt_of_le hi hg.boxes)).trans (hg.box? id hi)
  functions := gk.functions.trans hg.functions
  threads := gk.threads.trans hg.threads
  faults := gk.faults.trans hg.faults
  textMeta? := gk.textMeta?.trans hg.textMeta?
  finalizable := hg.finalizable.trans gk.finalizable

theorem newTable (h : Heap) (t : Table) : h.Grows (h.newTable t).2 := by
  have size : h.tables.size ≤ (h.tables.push t).size := by simp
  refine ⟨size, Nat.le_refl _, fun id hi => ?_, fun _ _ => rfl, rfl, rfl, rfl, rfl,
    List.suffix_refl _⟩
  simp [Heap.newTable, Heap.table, Array.getElem?_push, Nat.ne_of_lt hi]

theorem newBox (h : Heap) (x : Boxed) : h.Grows (h.newBox x).2 := by
  have size : h.boxes.size ≤ (h.boxes.push (some x)).size := by simp
  refine ⟨Nat.le_refl _, size, fun _ _ => rfl, fun id hi => ?_, rfl, rfl, rfl, rfl,
    List.suffix_cons _ _⟩
  simp [Heap.newBox, Heap.box?, Array.getElem?_push, Nat.ne_of_lt hi]

end Grows

/-! ### Storing as a whole -/

/-- What holds of one new table and of one new box, and can be put together. -/
structure Storing (R : Heap → Heap → Prop) : Prop where
  refl : ∀ h, R h h
  trans : ∀ {h g k}, R h g → R g k → R h k
  newTable : ∀ h t, R h (h.newTable t).2
  newBox : ∀ h x, R h (h.newBox x).2

namespace Storing

variable {R : Heap → Heap → Prop} {owner : Nat}

theorem encodeBox (hR : Storing R) {v : Variant} (hv : v.isBoxed = true) (h : Heap) :
    R h (encodeBox v hv h).2 :=
  hR.newBox h _

theorem encodeItems (hR : Storing R) {vs : List Variant}
    (ih : ∀ v ∈ vs, ∀ h : Heap, R h (h.encode owner v).2) (h : Heap) :
    R h (encodeItems owner vs h).2 := by
  induction vs generalizing h with
  | nil =>
    rw [Heap.encodeItems]
    exact hR.refl h
  | cons v rest ihr =>
    rw [Heap.encodeItems]
    have first := ih v List.mem_cons_self h
    have others := ihr fun w hw => ih w (List.mem_cons_of_mem _ hw)
    split
    next he =>
      rw [he] at first
      exact first
    next x h₁ he =>
      rw [he] at first
      have second := others h₁
      split
      next hr =>
        rw [hr] at second
        exact hR.trans first second
      next hr =>
        rw [hr] at second
        exact hR.trans first second

theorem encodeEntry (hR : Storing R) {e : Variant × Variant}
    (ihk : ∀ h : Heap, R h (h.encode owner e.1).2)
    (ihv : ∀ h : Heap, R h (h.encode owner e.2).2) (t : Table) (h : Heap) :
    R h (encodeEntry owner e t h).2 := by
  rw [Heap.encodeEntry]
  have key := ihk h
  split
  next he =>
    rw [he] at key
    exact key
  next x h₁ he =>
    rw [he] at key
    split
    · exact key
    · have value := ihv h₁
      split
      next hv =>
        rw [hv] at value
        exact hR.trans key value
      next hv =>
        rw [hv] at value
        exact hR.trans key value

theorem encodeEntries (hR : Storing R) {es : List (Variant × Variant)}
    (ih : ∀ e ∈ es, (∀ h : Heap, R h (h.encode owner e.1).2) ∧
      ∀ h : Heap, R h (h.encode owner e.2).2) (t : Table) (h : Heap) :
    R h (encodeEntries owner es t h).2 := by
  induction es generalizing t h with
  | nil =>
    rw [Heap.encodeEntries]
    exact hR.refl h
  | cons e rest ihr =>
    rw [Heap.encodeEntries]
    obtain ⟨ihk, ihv⟩ := ih e List.mem_cons_self
    have first := hR.encodeEntry ihk ihv t h
    split
    next he =>
      rw [he] at first
      exact first
    next t₁ h₁ he =>
      rw [he] at first
      have second := ihr (fun w hw => ih w (List.mem_cons_of_mem _ hw)) t₁ h₁
      exact hR.trans first second

/-- It holds of storing any value, also of what is done before a refusal. -/
theorem encode (hR : Storing R) (v : Variant) (h : Heap) : R h (h.encode owner v).2 := by
  induction v using Variant.containerInduction generalizing h with
  | leaf v hv =>
    cases v with
    | callable c =>
      cases c with
      | script f =>
        rw [Heap.encode]
        split
        · exact hR.refl h
        · exact hR.refl h
      | _ =>
        rw [Heap.encode]
        exact hR.encodeBox _ h
    | array | dictionary => cases hv
    | vector2 | vector3 | color | rect2 | plane | object | signal =>
      rw [Heap.encode]
      exact hR.encodeBox _ h
    | _ =>
      rw [Heap.encode]
      exact hR.refl h
  | array items ih =>
    rw [Heap.encode]
    have made := hR.encodeItems ih h
    split
    next he =>
      rw [he] at made
      exact made
    next he =>
      rw [he] at made
      exact hR.trans made (hR.newTable _ _)
  | dictionary es ih =>
    rw [Heap.encode]
    have made := hR.encodeEntries ih .empty h
    split
    next he =>
      rw [he] at made
      exact made
    next he =>
      rw [he] at made
      exact hR.trans made (hR.newTable _ _)

theorem encodeAll (hR : Storing R) (vs : List Variant) (h : Heap) :
    R h (encodeAll owner vs h).2 :=
  hR.encodeItems (fun v _ => hR.encode v) h

end Storing

theorem Grows.storing : Storing Grows := ⟨.refl, .trans, .newTable, .newBox⟩

theorem grows_encode (owner : Nat) (v : Variant) (h : Heap) : h.Grows (h.encode owner v).2 :=
  Grows.storing.encode v h

end Heap

end ScriptHost
