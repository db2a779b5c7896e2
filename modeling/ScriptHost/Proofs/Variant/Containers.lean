import Mathlib.Data.List.Forall2
import ScriptHost.Variant.Basic

/-! Host values as trees, in which arrays and dictionaries are the inner nodes and
everything else is a leaf: induction over them, their height, and agreement up to the
order of entries. What a bound callable keeps for its calls does not count as a part. -/

namespace ScriptHost.Variant

def isLeaf : Variant → Bool
  | array _ | dictionary _ => false
  | _ => true

@[elab_as_elim]
theorem containerInduction {motive : Variant → Prop}
    (leaf : ∀ v, v.isLeaf = true → motive v)
    (array : ∀ items, (∀ v ∈ items, motive v) → motive (.array items))
    (dictionary : ∀ entries, (∀ e ∈ entries, motive e.1 ∧ motive e.2) →
      motive (.dictionary entries)) (v : Variant) : motive v :=
  Variant.rec (motive_1 := motive) (motive_2 := fun _ => True)
    (motive_3 := fun vs => ∀ v ∈ vs, motive v)
    (motive_4 := fun es => ∀ e ∈ es, motive e.1 ∧ motive e.2)
    (motive_5 := fun e => motive e.1 ∧ motive e.2)
    (leaf _ rfl) (fun _ => leaf _ rfl) (fun _ => leaf _ rfl) (fun _ => leaf _ rfl)
    (fun _ => leaf _ rfl) (fun _ => leaf _ rfl) (fun _ => leaf _ rfl) (fun _ => leaf _ rfl)
    (fun _ => leaf _ rfl) (fun _ => leaf _ rfl)
    array dictionary
    (fun _ => leaf _ rfl) (fun _ => leaf _ rfl) (fun _ _ => leaf _ rfl)
    (fun _ _ => trivial) (fun _ => trivial) (fun _ => trivial) (fun _ _ _ _ _ => trivial)
    (by simp) (fun _ _ hv hs => List.forall_mem_cons.mpr ⟨hv, hs⟩)
    (by simp) (fun _ _ he hs => List.forall_mem_cons.mpr ⟨he, hs⟩)
    (fun _ _ hk hv => ⟨hk, hv⟩) v

theorem isLeaf_of_isBoxed {v : Variant} (h : v.isBoxed = true) : v.isLeaf = true := by
  cases v <;> first | rfl | cases h

/-! ### Height -/

mutual

/-- How deep arrays and dictionaries nest, keys of dictionaries included. -/
def levels (v : Variant) : Nat :=
  match v with
  | array items => listLevels items + 1
  | dictionary entries => entriesLevels entries + 1
  | _ => 0
termination_by structural v

def listLevels (vs : List Variant) : Nat :=
  match vs with
  | [] => 0
  | v :: rest => max (levels v) (listLevels rest)
termination_by structural vs

def entriesLevels (es : List (Variant × Variant)) : Nat :=
  match es with
  | [] => 0
  | e :: rest => max (entryLevels e) (entriesLevels rest)
termination_by structural es

def entryLevels (e : Variant × Variant) : Nat :=
  match e with
  | (k, v) => max (levels k) (levels v)
termination_by structural e

end

theorem levels_leaf {v : Variant} (h : v.isLeaf = true) : v.levels = 0 := by
  cases v <;> first | rfl | cases h

theorem listLevels_le {vs : List Variant} {n : Nat} :
    listLevels vs ≤ n ↔ ∀ v ∈ vs, v.levels ≤ n := by
  induction vs with
  | nil => simp [listLevels]
  | cons v rest ih => simp only [listLevels, Nat.max_le, ih, List.forall_mem_cons]

theorem entriesLevels_le {es : List (Variant × Variant)} {n : Nat} :
    entriesLevels es ≤ n ↔ ∀ e ∈ es, e.1.levels ≤ n ∧ e.2.levels ≤ n := by
  induction es with
  | nil => simp [entriesLevels]
  | cons e rest ih =>
    obtain ⟨k, v⟩ := e
    simp only [entriesLevels, entryLevels, Nat.max_le, ih, List.forall_mem_cons]

theorem levels_array_le {items : List Variant} {n : Nat} :
    (array items).levels ≤ n + 1 ↔ ∀ v ∈ items, v.levels ≤ n := by
  simp [levels, listLevels_le]

theorem levels_dictionary_le {entries : List (Variant × Variant)} {n : Nat} :
    (dictionary entries).levels ≤ n + 1 ↔ ∀ e ∈ entries, e.1.levels ≤ n ∧ e.2.levels ≤ n := by
  simp only [levels, Nat.add_le_add_iff_right, entriesLevels_le]

/-! ### Order of entries -/

/-- The same value, in which dictionaries may list their entries in another order. -/
inductive Rearranged : Variant → Variant → Prop
  | refl (v : Variant) : Rearranged v v
  | array {xs ys : List Variant} :
    List.Forall₂ Rearranged xs ys → Rearranged (.array xs) (.array ys)
  | dictionary {es fs gs : List (Variant × Variant)} :
    es.Perm fs → List.Forall₂ Rearranged (fs.map Prod.fst) (gs.map Prod.fst) →
      List.Forall₂ Rearranged (fs.map Prod.snd) (gs.map Prod.snd) →
      Rearranged (.dictionary es) (.dictionary gs)

end ScriptHost.Variant
