import ScriptHost.Collector
import ScriptHost.Proofs.Machine.Items

/-! Whose functions a heap holds. A heap belongs to an interpreter if every function in its
tables, among their keys, in its closures and threads is a function of that interpreter.
What a heap may do to its cells leaves it so. -/

namespace ScriptHost

/-- No function of another interpreter. -/
def Value.OwnedBy (owner : Nat) : Value → Prop
  | .function f => f.owner = owner
  | _ => True

def Table.OwnedBy (owner : Nat) (t : Table) : Prop :=
  ∀ e ∈ t.entries, e.1.toValue.OwnedBy owner ∧ e.2.OwnedBy owner

def Function.OwnedBy (owner : Nat) (f : Function) : Prop := ∀ v ∈ f.holds, v.OwnedBy owner

structure Heap.OwnedBy (owner : Nat) (h : Heap) : Prop where
  table : ∀ id, (h.table id).OwnedBy owner
  functions : ∀ f ∈ h.functions, f.OwnedBy owner
  threads : ∀ v ∈ h.threads, v.OwnedBy owner

variable {owner : Nat}

/-! ### Values -/

theorem Key.ownedBy_ofValue {v : Value} {k : Key} (h : ofValue v = .ok k)
    (hv : v.OwnedBy owner) : k.toValue.OwnedBy owner := by
  cases v with
  | nil => cases h
  | float x =>
    dsimp only [ofValue] at h
    split at h <;> cases h <;> trivial
  | _ => cases h; exact hv

def Function.isClosure : Function → Bool
  | closure .. => true
  | _ => false

/-- Only a closure takes values along. -/
theorem Function.ownedBy_of_isClosure {f : Function} (h : f.isClosure = false) :
    f.OwnedBy owner := by
  cases f with
  | closure => cases h
  | method box =>
    intro v hv
    rw [List.mem_singleton.mp hv]
    trivial
  | _ =>
    intro v hv
    cases hv

/-! ### Tables -/

namespace Table

variable {t : Table} {key : Key} {value : Value}

theorem OwnedBy.empty : Table.empty.OwnedBy owner := nofun

theorem OwnedBy.get (ht : t.OwnedBy owner) (key : Key) : (t.get key).OwnedBy owner := by
  by_cases hn : t.get key = .nil
  · rw [hn]
    trivial
  · exact (ht _ (mem_of_lookup hn)).2

theorem OwnedBy.getString (ht : t.OwnedBy owner) (name : String) :
    (t.getString name).OwnedBy owner :=
  ht.get _

theorem OwnedBy.getValue (ht : t.OwnedBy owner) (key : Value) : (t.getValue key).OwnedBy owner := by
  unfold Table.getValue
  split
  · exact ht.get _
  · trivial

theorem OwnedBy.sublist {u : Table} (ht : t.OwnedBy owner) (h : u.entries.Sublist t.entries) :
    u.OwnedBy owner :=
  fun e he => ht e (h.subset he)

theorem OwnedBy.set (ht : t.OwnedBy owner) (hk : key.toValue.OwnedBy owner)
    (hv : value.OwnedBy owner) : (t.set key value).OwnedBy owner := by
  intro e he
  unfold Table.set at he
  split at he
  · exact ht e ((erase_sublist _ _).subset he)
  · rcases mem_insert he with rfl | he
    · exact ⟨hk, hv⟩
    · exact ht e he

theorem OwnedBy.setItems {items : List Value} (ht : t.OwnedBy owner) (n : Nat)
    (hi : ∀ v ∈ items, v.OwnedBy owner) : (t.setItems n items).OwnedBy owner := by
  induction items generalizing t n with
  | nil => exact ht
  | cons v rest ih =>
    rw [List.forall_mem_cons] at hi
    have number : (Key.int (Int64.ofNat n)).toValue.OwnedBy owner := trivial
    exact ih (ht.set number hi.1) _ hi.2

theorem OwnedBy.withMeta (ht : t.OwnedBy owner) (m : Option Nat) :
    ({ t with meta? := m } : Table).OwnedBy owner :=
  ht

end Table

/-! ### Heaps -/

namespace Heap.OwnedBy

variable {h : Heap}

theorem initial : Heap.initial.OwnedBy owner := by
  refine ⟨fun id => ?_, by simp [Heap.initial], by simp [Heap.initial]⟩
  have : Heap.initial.table id = .empty := by
    match id with
    | 0 | 1 | 2 | _ + 3 => rfl
  rw [this]
  exact .empty

theorem newTable (hh : h.OwnedBy owner) {t : Table} (ht : t.OwnedBy owner) :
    (h.newTable t).2.OwnedBy owner := by
  refine ⟨fun id => ?_, hh.functions, hh.threads⟩
  have := hh.table id
  simp only [Heap.newTable, Heap.table, Array.getD_eq_getD_getElem?, Array.getElem?_push] at this ⊢
  split
  · exact ht
  · exact this

theorem setTable (hh : h.OwnedBy owner) (id : Nat) {t : Table} (ht : t.OwnedBy owner) :
    (h.setTable id t).OwnedBy owner := by
  refine ⟨fun id' => ?_, hh.functions, hh.threads⟩
  have := hh.table id'
  simp only [Heap.setTable, Heap.table, Array.getD_eq_getD_getElem?,
    Array.getElem?_setIfInBounds] at this ⊢
  split
  · split
    · exact ht
    · exact .empty
  · exact this

theorem set (hh : h.OwnedBy owner) (id : Nat) {key : Key} {value : Value}
    (hk : key.toValue.OwnedBy owner) (hv : value.OwnedBy owner) :
    (h.set id key value).OwnedBy owner :=
  hh.setTable id ((hh.table id).set hk hv)

theorem newFunction (hh : h.OwnedBy owner) {f : Function} (hf : f.OwnedBy owner) :
    (h.newFunction f).2.OwnedBy owner := by
  refine ⟨hh.table, fun g hg => ?_, hh.threads⟩
  rcases Array.mem_push.mp hg with hg | rfl
  · exact hh.functions g hg
  · exact hf

theorem newThread (hh : h.OwnedBy owner) {v : Value} (hv : v.OwnedBy owner) :
    (h.newThread v).2.OwnedBy owner := by
  refine ⟨hh.table, hh.functions, fun u hu => ?_⟩
  rcases Array.mem_push.mp hu with hu | rfl
  · exact hh.threads u hu
  · exact hv

theorem newBox (hh : h.OwnedBy owner) (b : Boxed) : (h.newBox b).2.OwnedBy owner :=
  ⟨hh.table, hh.functions, hh.threads⟩

theorem newFault (hh : h.OwnedBy owner) (e : ScriptError) : (h.newFault e).2.OwnedBy owner :=
  ⟨hh.table, hh.functions, hh.threads⟩

theorem emptyBox (hh : h.OwnedBy owner) (id : Nat) : (h.emptyBox id).OwnedBy owner := by
  unfold Heap.emptyBox
  split
  · exact ⟨hh.table, hh.functions, hh.threads⟩
  · exact hh

theorem takeDoomed (hh : h.OwnedBy owner) : h.takeDoomed.OwnedBy owner := by
  unfold Heap.takeDoomed
  split
  · exact hh
  · have left (vs : List Value) :
        ({ h with upkeep := { h.upkeep with doomed := vs } } : Heap).OwnedBy owner :=
      ⟨hh.table, hh.functions, hh.threads⟩
    dsimp only
    split
    · exact (left _).emptyBox _
    · exact left _

theorem writeBox (hh : h.OwnedBy owner) (id : Nat) (key value : Variant) :
    (h.writeBox id key value).OwnedBy owner := by
  unfold Heap.writeBox
  split
  · exact ⟨hh.table, hh.functions, hh.threads⟩
  · exact hh

theorem awaitEnd (hh : h.OwnedBy owner) (id : Nat) : (h.awaitEnd id).OwnedBy owner := by
  unfold Heap.awaitEnd
  split
  · exact hh
  · exact ⟨hh.table, hh.functions, hh.threads⟩

theorem sift (hh : h.OwnedBy owner) (id : Nat) (keep : Key × Value → Bool) :
    (h.sift id keep).OwnedBy owner :=
  hh.setTable id ((hh.table id).sublist List.filter_sublist)

theorem metaField (hh : h.OwnedBy owner) (v : Value) (name : String) :
    (h.metaField v name).OwnedBy owner := by
  unfold Heap.metaField
  split
  · exact (hh.table _).getString name
  · trivial

end Heap.OwnedBy

end ScriptHost
