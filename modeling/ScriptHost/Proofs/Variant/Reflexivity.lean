import ScriptHost.Proofs.Variant.Equality

/-! Values that are equal to themselves are those in which no NaN occurs, however deep. Others are
equal to nothing. -/

namespace ScriptHost.Variant

/-! ### Floats in a value -/

/-- The floats that a value itself is made of. -/
def components : Variant → List Float
  | float x => [x]
  | vector2 v => [v.x, v.y]
  | vector3 v => [v.x, v.y, v.z]
  | color c => [c.r, c.g, c.b, c.a]
  | rect2 r => [r.position.x, r.position.y, r.size.x, r.size.y]
  | plane p => [p.normal.x, p.normal.y, p.normal.z, p.d]
  | _ => []

/-- A float occurs in a value as a component, in an item, a key or the value of an entry, or in an
argument that a bound callable keeps. -/
inductive Occurs (x : Float) : Variant → Prop
  | component {v : Variant} (hx : x ∈ v.components) : Occurs x v
  | item {items : List Variant} {v : Variant} (hv : v ∈ items) (h : Occurs x v) :
    Occurs x (array items)
  | key {es : List (Variant × Variant)} {e : Variant × Variant} (he : e ∈ es)
    (h : Occurs x e.1) : Occurs x (dictionary es)
  | value {es : List (Variant × Variant)} {e : Variant × Variant} (he : e ∈ es)
    (h : Occurs x e.2) : Occurs x (dictionary es)
  | target {target : Callable} {extra : List Variant} {placement : Placement}
    (h : Occurs x (callable target)) : Occurs x (callable (.bound target extra placement))
  | argument {target : Callable} {extra : List Variant} {placement : Placement} {v : Variant}
    (hv : v ∈ extra) (h : Occurs x v) : Occurs x (callable (.bound target extra placement))

/-- No NaN occurs in the value. -/
def NaNFree (v : Variant) : Prop := ∀ x, Occurs x v → x.isNaN = false

theorem isNaN_eq_false_iff {x : Float} : x.isNaN = false ↔ (x == x) = true := by simp

/-! ### Equal values -/

variable {x : Float} {u v : Variant}

/-- Equal values have equal components. -/
theorem same_components (h : u.same v = true) :
    List.Forall₂ (fun x y => (x == y) = true) u.components v.components := by
  cases u with
  | float | vector2 | vector3 | color | rect2 | plane =>
    cases v <;> simp_all [same, components, BEq.beq]
  | _ => cases v <;> first | exact .nil | cases h

theorem exists_of_forall₂ {α β : Type} {R : α → β → Prop} {xs : List α} {ys : List β}
    (h : List.Forall₂ R xs ys) {x : α} (hx : x ∈ xs) : ∃ y, R x y := by
  induction h with
  | nil => cases hx
  | cons hr _ ih =>
    rcases List.mem_cons.mp hx with rfl | hx
    · exact ⟨_, hr⟩
    · exact ih hx

theorem same_bound {target : Callable} {extra : List Variant} {placement : Placement}
    (h : (callable (.bound target extra placement)).same v = true) :
    ∃ target' extra' placement', v = callable (.bound target' extra' placement') ∧
      target.same target' = true ∧ List.Forall₂ (fun x y => x.same y = true) extra extra' := by
  cases v with
  | callable c =>
    cases c with
    | bound target' extra' placement' =>
      simp only [same, Callable.same, Bool.and_eq_true] at h
      exact ⟨_, _, _, rfl, h.1.1, sameItems_iff.mp h.1.2⟩
    | _ => cases h
  | _ => cases h

/-- What is equal to anything is free of NaN. -/
theorem Occurs.isNaN_eq_false (hx : Occurs x u) (h : u.same v = true) : x.isNaN = false := by
  induction hx generalizing v with
  | component hx =>
    -- A number that is equal to any is equal to itself.
    obtain ⟨y, hy⟩ := exists_of_forall₂ (same_components h) hx
    exact isNaN_eq_false_iff.mpr (BEq.trans hy (BEq.symm hy))
  | item hv _ ih =>
    cases v with
    | array ys =>
      obtain ⟨y, hy⟩ := exists_of_forall₂ (sameItems_iff.mp h) hv
      exact ih hy
    | _ => cases h
  | key he _ ih =>
    cases v with
    | dictionary fs =>
      obtain ⟨f, -, hf⟩ := (same_dictionary_iff.mp h).2 _ he
      exact ih hf.1
    | _ => cases h
  | value he _ ih =>
    cases v with
    | dictionary fs =>
      obtain ⟨f, -, hf⟩ := (same_dictionary_iff.mp h).2 _ he
      exact ih hf.2
    | _ => cases h
  | target _ ih =>
    obtain ⟨target', _, _, rfl, ht, -⟩ := same_bound h
    exact ih (v := callable target') ht
  | argument hv _ ih =>
    obtain ⟨_, _, _, rfl, -, he⟩ := same_bound h
    obtain ⟨y, hy⟩ := exists_of_forall₂ he hv
    exact ih hy

/-! ### Values equal to themselves -/

theorem same_self_of_components (hv : v.isAtom = true)
    (hx : ∀ x ∈ v.components, (x == x) = true) : v.same v = true := by
  cases v with
  | array | dictionary | callable => cases hv
  | float | vector2 | vector3 | color | rect2 | plane => simp_all [same, components, BEq.beq]
  | _ => simp [same]

theorem sameItems_self {vs : List Variant} (h : ∀ v ∈ vs, v.same v = true) :
    sameItems vs vs = true :=
  sameItems_iff.mpr (List.forall₂_same.mpr h)

/-- A value is equal to itself if no NaN occurs in it. -/
theorem NaNFree.same_self (v : Variant) (hv : v.NaNFree) : v.same v = true := by
  induction v using wholeInduction (motive_2 := fun c => (callable c).NaNFree → c.same c = true) with
  | atom v atom =>
    exact same_self_of_components atom fun x hx => isNaN_eq_false_iff.mp (hv x (.component hx))
  | array items ih => exact sameItems_self fun v hm => ih v hm fun x hx => hv x (.item hm hx)
  | dictionary es ih =>
    exact same_dictionary_iff.mpr ⟨rfl, fun e he => ⟨e, he,
      (ih e he).1 fun x hx => hv x (.key he hx), (ih e he).2 fun x hx => hv x (.value he hx)⟩⟩
  | ofCallable c ih => exact ih hv
  | method o name => simp [Callable.same]
  | native f => simp [Callable.same]
  | script f => simp [Callable.same]
  | bound target extra placement ht he free =>
    have same_target := ht fun x hx => free x (.target hx)
    have same_extra := sameItems_self fun v hm => he v hm fun x hx => free x (.argument hm hx)
    simp [Callable.same, same_target, same_extra]

/-- Equality of host values is a partial equivalence: transitive, reflexive on exactly the values
without NaN, and symmetric between values in which no dictionary has two equal keys. -/
theorem same_is_partial_equivalence :
    (∀ a b c : Variant, (a == b) = true → (b == c) = true → (a == c) = true) ∧
    (∀ v : Variant, (v == v) = true ↔ v.NaNFree) ∧
    ∀ a b : Variant, a.Keyed → b.Keyed → (a == b) = (b == a) :=
  ⟨fun a b c => a.regular.trans b c,
    fun v => ⟨fun h _ hx => hx.isNaN_eq_false h, NaNFree.same_self v⟩,
    fun _ _ ha hb => same_comm ha hb⟩

theorem same_is_partial_equivalence_of_two :
    let f : Callable := .bound (.native ⟨"f", "f"⟩) [array [int 3, nil]] .after
    let a := dictionary [(int 1, string "x"), (bool true, callable f)]
    let b := dictionary [(bool true, callable f), (int 1, string "x")]
    let c := callable (.bound f [float .nan] .before)
    ((a == b) = true ∧ (b == a) = true ∧ (a == a) = true) ∧ ¬(c == c) = true ∧
      a.Keyed ∧ b.Keyed ∧ (a == b) = (b == a) := by
  intro f a b c
  obtain ⟨trans, refl, symm⟩ := same_is_partial_equivalence
  have ab : (a == b) = true := by decide
  have ba : (b == a) = true := by decide
  have nan : Occurs .nan c := .argument List.mem_cons_self (.component List.mem_cons_self)
  have isNaN : Float.nan.isNaN = true := by simp
  have keyed : (Callable.bound (.native ⟨"f", "f"⟩) [array [int 3, nil]] .after).Keyed := by
    refine keyed_bound.mpr ⟨trivial, List.forall_mem_singleton.mpr (keyed_array.mpr ?_)⟩
    exact List.forall_mem_cons.mpr ⟨trivial, List.forall_mem_singleton.mpr trivial⟩
  have entries {e e' : Variant × Variant} (he : e.1.Keyed ∧ e.2.Keyed)
      (he' : e'.1.Keyed ∧ e'.2.Keyed) (hd : e.1.Differs e'.1) : (dictionary [e, e']).Keyed := by
    refine keyed_dictionary.mpr ⟨?_, List.pairwise_pair.mpr hd⟩
    exact List.forall_mem_cons.mpr ⟨he, List.forall_mem_singleton.mpr he'⟩
  have ka : a.Keyed := entries ⟨trivial, trivial⟩ ⟨trivial, keyed⟩ (by decide)
  have kb : b.Keyed := entries ⟨trivial, keyed⟩ ⟨trivial, trivial⟩ (by decide)
  refine ⟨⟨ab, ba, trans a b a ab ba⟩, fun h => ?_, ka, kb, symm a b ka kb⟩
  have free := (refl c).mp h .nan nan
  rw [isNaN] at free
  cases free

/-- With two equal keys, entries that are all found may not be all there are. -/
example :
    let a := dictionary [(int 1, nil), (int 1, nil)]
    let b := dictionary [(int 1, nil), (int 2, nil)]
    (a == b) = true ∧ (b == a) = false := by decide

end ScriptHost.Variant
