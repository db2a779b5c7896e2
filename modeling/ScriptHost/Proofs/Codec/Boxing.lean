import Mathlib.Data.List.TakeWhile
import ScriptHost.Proofs.Codec.Crossing
import ScriptHost.Proofs.Machine.Shelf

/-! Which boxes storing a value makes: one for each boxed part that it comes by, in order, up to a
function of another interpreter, which is refused. -/

namespace ScriptHost

namespace Variant

mutual

/-- The leaves that storing the value comes by, in order. A value is not looked at if its key is
none. -/
def leaves (v : Variant) : List Variant :=
  match v with
  | array items => listLeaves items
  | dictionary entries => entriesLeaves entries
  | v => [v]
termination_by structural v

def listLeaves (vs : List Variant) : List Variant :=
  match vs with
  | [] => []
  | v :: rest => leaves v ++ listLeaves rest
termination_by structural vs

def entriesLeaves (es : List (Variant × Variant)) : List Variant :=
  match es with
  | [] => []
  | e :: rest => entryLeaves e ++ entriesLeaves rest
termination_by structural es

def entryLeaves (e : Variant × Variant) : List Variant :=
  match e with
  | (k, v) => leaves k ++ if k.isKey then leaves v else []
termination_by structural e

end

theorem leaves_leaf {v : Variant} (hv : v.isLeaf = true) : v.leaves = [v] := by
  cases v with
  | array | dictionary => cases hv
  | _ => rw [leaves] <;> exact nofun

/-- Whether interpreter `owner` takes a leaf. -/
def accepted (owner : Nat) : Variant → Bool
  | callable (.script f) => f.owner == owner
  | _ => true

/-- What the boxed leaves before the first refused one are made for. -/
def boxed (owner : Nat) (leaves : List Variant) : List (Option ObjectId) :=
  ((leaves.takeWhile (accepted owner)).filter isBoxed).map object?

theorem boxed_append_of_all {owner : Nat} {xs : List Variant}
    (hx : xs.all (accepted owner) = true) (ys : List Variant) :
    boxed owner (xs ++ ys) = boxed owner xs ++ boxed owner ys := by
  have hx := List.all_eq_true.mp hx
  simp only [boxed]
  rw [List.takeWhile_append_of_pos hx, List.takeWhile_eq_self_iff.mpr hx]
  simp

theorem boxed_append_of_not_all {owner : Nat} {xs : List Variant}
    (hx : xs.all (accepted owner) = false) (ys : List Variant) :
    boxed owner (xs ++ ys) = boxed owner xs := by
  have cut : (xs ++ ys).takeWhile (accepted owner) = xs.takeWhile (accepted owner) := by
    rw [List.takeWhile_append, if_neg]
    intro hl
    have all := List.takeWhile_eq_self_iff.mp
      ((List.takeWhile_prefix (p := accepted owner)).eq_of_length hl)
    rw [List.all_eq_true.mpr all] at hx
    cases hx
  rw [boxed, cut, boxed]

end Variant

namespace Heap

variable {owner : Nat} {α β : Type}

/-- What storing something with these leaves comes to. -/
structure Boxes (owner : Nat) (leaves : List Variant) (h : Heap) (r : Except Refusal α × Heap) :
    Prop where
  contents : r.2.contents = h.contents ++ (Variant.boxed owner leaves).map some
  stored : r.1.toBool = leaves.all (Variant.accepted owner)

namespace Boxes

variable {h h' : Heap} {xs ys : List Variant}

theorem refused {e e' : Refusal} (hx : Boxes owner xs h ((.error e, h') : Except Refusal α × Heap))
    (ys : List Variant) : Boxes owner (xs ++ ys) h ((.error e', h') : Except Refusal β × Heap) := by
  have none : xs.all (Variant.accepted owner) = false := hx.stored.symm
  refine ⟨?_, ?_⟩
  · rw [Variant.boxed_append_of_not_all none]
    exact hx.contents
  · rw [List.all_append, none]
    rfl

theorem append {a : α} {r : Except Refusal β × Heap}
    (hx : Boxes owner xs h ((.ok a, h') : Except Refusal α × Heap)) (hy : Boxes owner ys h' r) :
    Boxes owner (xs ++ ys) h r := by
  have all : xs.all (Variant.accepted owner) = true := hx.stored.symm
  have first : h'.contents = _ := hx.contents
  refine ⟨?_, ?_⟩
  · rw [hy.contents, first, Variant.boxed_append_of_all all, List.map_append, List.append_assoc]
  · rw [hy.stored, List.all_append, all, Bool.true_and]

/-- What is made of what was stored makes no box. -/
theorem finished {a : α} {b : β} {g : Heap}
    (hx : Boxes owner xs h ((.ok a, h') : Except Refusal α × Heap)) (hg : g.contents = h'.contents) :
    Boxes owner xs h ((.ok b, g) : Except Refusal β × Heap) :=
  ⟨hg.trans hx.contents, hx.stored⟩

theorem nothing (h : Heap) (a : α) : Boxes owner [] h (.ok a, h) := ⟨by simp [Variant.boxed], rfl⟩

end Boxes

theorem boxes_leaf {v : Variant} (hv : v.isLeaf = true) (h : Heap) :
    Boxes owner v.leaves h (encode owner v h) := by
  rw [Variant.leaves_leaf hv]
  have plain (hb : v.isBoxed = false) (ha : v.accepted owner = true) (a : Value) :
      Boxes owner [v] h (.ok a, h) :=
    ⟨by simp [Variant.boxed, ha, hb], by simp [Except.toBool, ha]⟩
  have full (hb : v.isBoxed = true) : Boxes owner [v] h (encodeBox v hb h) := by
    have ha : v.accepted owner = true := by
      cases v with
      | callable c => cases c <;> first | rfl | cases hb
      | _ => rfl
    refine ⟨?_, by simp [encodeBox, Except.toBool, ha]⟩
    show (h.newBox ⟨v, hb⟩).2.contents = _
    simp [contents, newBox, Variant.boxed, ha, hb]
  cases v with
  | array | dictionary => cases hv
  | callable c =>
    cases c with
    | script f =>
      rw [encode]
      split
      next hf => exact plain rfl (by simpa [Variant.accepted] using hf) _
      next hf =>
        have ha : Variant.accepted owner (.callable (.script f)) = false := by
          simpa [Variant.accepted] using hf
        exact ⟨by simp [Variant.boxed, ha], by simp [Except.toBool, ha]⟩
    | _ =>
      rw [encode]
      exact full rfl
  | vector2 | vector3 | color | rect2 | plane | object | signal =>
    rw [encode]
    exact full rfl
  | _ =>
    rw [encode]
    exact plain rfl rfl _

theorem boxes_items {vs : List Variant}
    (ih : ∀ v ∈ vs, ∀ h, Boxes owner v.leaves h (encode owner v h)) (h : Heap) :
    Boxes owner (Variant.listLeaves vs) h (encodeItems owner vs h) := by
  induction vs generalizing h with
  | nil =>
    rw [encodeItems, Variant.listLeaves]
    exact .nothing h _
  | cons v rest ihr =>
    rw [encodeItems, Variant.listLeaves]
    have first := ih v List.mem_cons_self h
    have later (h : Heap) := ihr (fun w hw => ih w (List.mem_cons_of_mem _ hw)) h
    generalize encode owner v h = r at first
    obtain ⟨_ | x, h₁⟩ := r
    · exact first.refused _
    · have second := first.append (later h₁)
      dsimp only
      generalize encodeItems owner rest h₁ = r at second
      obtain ⟨_ | xs, h₂⟩ := r
      · exact ⟨second.contents, second.stored⟩
      · exact second.finished rfl

theorem boxes_entry {e : Variant × Variant} (t : Table)
    (ihk : ∀ h, Boxes owner e.1.leaves h (encode owner e.1 h))
    (ihv : ∀ h, Boxes owner e.2.leaves h (encode owner e.2 h)) (h : Heap) :
    Boxes owner (Variant.entryLeaves e) h (encodeEntry owner e t h) := by
  obtain ⟨k, v⟩ := e
  rw [encodeEntry, Variant.entryLeaves]
  have key := ihk h
  have crossing := crossing_encode owner k h
  dsimp only at key ihv ⊢
  generalize encode owner k h = r at key crossing
  obtain ⟨_ | x, h₁⟩ := r
  · exact key.refused _
  · cases crossing with
    -- A key that is stored may still be none for tables. Then the value is not stored.
    | stored _ hk _ =>
      dsimp only
      cases hkey : Key.ofValue x with
      | error fault =>
        rw [hkey] at hk
        rw [← hk]
        exact key.append (.nothing h₁ _)
      | ok k' =>
        rw [hkey] at hk
        rw [← hk]
        have value := key.append (ihv h₁)
        dsimp only
        generalize encode owner v h₁ = r at value
        obtain ⟨_ | y, h₂⟩ := r
        · exact ⟨value.contents, value.stored⟩
        · exact value.finished rfl

theorem boxes_entries {es : List (Variant × Variant)} (t : Table)
    (ih : ∀ e ∈ es, (∀ h, Boxes owner e.1.leaves h (encode owner e.1 h)) ∧
      ∀ h, Boxes owner e.2.leaves h (encode owner e.2 h)) (h : Heap) :
    Boxes owner (Variant.entriesLeaves es) h (encodeEntries owner es t h) := by
  induction es generalizing t h with
  | nil =>
    rw [encodeEntries, Variant.entriesLeaves]
    exact .nothing h _
  | cons e rest ihr =>
    rw [encodeEntries, Variant.entriesLeaves]
    obtain ⟨ihk, ihv⟩ := ih e List.mem_cons_self
    have first := boxes_entry t ihk ihv h
    generalize encodeEntry owner e t h = r at first
    obtain ⟨_ | t₁, h₁⟩ := r
    · exact first.refused _
    · exact first.append (ihr t₁ (fun w hw => ih w (List.mem_cons_of_mem _ hw)) h₁)

/-- Storing a value makes one box for each boxed leaf before the first that is refused. -/
theorem boxes_encode (owner : Nat) (v : Variant) (h : Heap) :
    Boxes owner v.leaves h (encode owner v h) := by
  induction v using Variant.containerInduction generalizing h with
  | leaf v hv => exact boxes_leaf hv h
  | array items ih =>
    rw [encode, Variant.leaves]
    have stored := boxes_items ih h
    generalize encodeItems owner items h = r at stored
    obtain ⟨_ | xs, h₁⟩ := r
    · exact ⟨stored.contents, stored.stored⟩
    · exact stored.finished rfl
  | dictionary es ih =>
    rw [encode, Variant.leaves]
    have stored := boxes_entries .empty ih h
    generalize encodeEntries owner es .empty h = r at stored
    obtain ⟨_ | t, h₁⟩ := r
    · exact ⟨stored.contents, stored.stored⟩
    · exact stored.finished rfl

end Heap

end ScriptHost
