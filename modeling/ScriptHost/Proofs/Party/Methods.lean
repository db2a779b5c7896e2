import ScriptHost.Proofs.Party.Values
import ScriptHost.Variant.Method

/-! What can be done with host values is the same on one side of a session: their texts, parts,
operators and methods, and what they refer to. -/

namespace ScriptHost

variable {p : Party}

/-! ### Texts -/

/-- Two ways to name classes that agree on what belongs to a party. -/
def ClassNames.AgreeOn (p : Party) (names names' : ClassNames) : Prop :=
  ∀ o, p.object o = true → names' o = names o

section Text

variable {names names' : ClassNames}

theorem Callable.text_view (h : names.AgreeOn p names') :
    (c : Callable) → c.Owned p → (c.view p).text names' = c.text names
  | method o name, hc => by
    simp only [view, text, ObjectId.text]
    rw [h o (owned_method.mp hc)]
  | native _, _ => rfl
  | script _, _ => rfl
  | bound target extra placement, hc => by
    rw [view_bound, text, text, text_view h target (owned_bound.mp hc).1]

namespace Variant

mutual

theorem text_view (h : names.AgreeOn p names') (v : Variant) (hv : v.Owned p) :
    (v.view p).text names' = v.text names := by
  cases v with
  | array items =>
    rw [Owned] at hv
    simp only [view, text]
    rw [itemTexts_view h items hv]
  | dictionary es =>
    rw [Owned] at hv
    simp only [view, text]
    rw [entryTexts_view h es hv]
  | object o =>
    simp only [view, text, ObjectId.text]
    rw [h o (owned_object.mp hv)]
  | signal s =>
    simp only [view, text, Signal.text, ObjectId.text]
    rw [h s.object (owned_signal.mp hv)]
  | callable c =>
    simp only [view, text]
    exact c.text_view h (owned_callable.mp hv)
  | _ => rfl
termination_by structural v

theorem itemTexts_view (h : names.AgreeOn p names') (vs : List Variant) (hv : ListOwned p vs) :
    itemTexts names' (listView p vs) = itemTexts names vs := by
  cases vs with
  | nil => rfl
  | cons v rest =>
    rw [ListOwned] at hv
    simp only [listView, itemTexts]
    rw [text_view h v hv.1, itemTexts_view h rest hv.2]
termination_by structural vs

theorem entryTexts_view (h : names.AgreeOn p names') (es : List (Variant × Variant))
    (he : EntriesOwned p es) : entryTexts names' (entriesView p es) = entryTexts names es := by
  cases es with
  | nil => rfl
  | cons e rest =>
    rw [EntriesOwned] at he
    simp only [entriesView, entryTexts]
    rw [entryText_view h e he.1, entryTexts_view h rest he.2]
termination_by structural es

theorem entryText_view (h : names.AgreeOn p names') (e : Variant × Variant) (he : EntryOwned p e) :
    entryText names' (entryView p e) = entryText names e := by
  cases e with
  | mk k v =>
    rw [EntryOwned] at he
    simp only [entryView, entryText]
    rw [text_view h k he.1, text_view h v he.2]
termination_by structural e

end

end Variant

end Text

/-! ### Parts -/

namespace Variant

/-- Values without parts that belong to anyone. -/
def IsPlain : Variant → Bool
  | vector2 _ | vector3 _ | color _ | rect2 _ | plane _ | float _ | bool _ | int _ | string _ | nil =>
    true
  | _ => false

theorem view_of_isPlain {v : Variant} (h : v.IsPlain = true) : v.view p = v := by
  cases v with
  | array | dictionary | callable => cases h
  | _ => rfl

theorem owned_of_isPlain {v : Variant} (h : v.IsPlain = true) : v.Owned p := by
  cases v with
  | array | dictionary | object | signal | callable => cases h
  | _ => trivial

theorem isPlain_property? {v w : Variant} {name : String} (h : v.property? name = some w) :
    w.IsPlain = true := by
  unfold property? at h
  split at h <;> cases h <;> rfl

@[simp] theorem property?_view (v : Variant) (name : String) :
    (v.view p).property? name = v.property? name := by cases v <;> rfl

theorem isPlain_withComponent? {v w : Variant} {name : String} {n : Float}
    (h : v.withComponent? name n = some w) : w.IsPlain = true := by
  unfold withComponent? at h
  split at h <;> cases h <;> rfl

theorem isPlain_withVector? {v w : Variant} {name : String} {value : Variant}
    (h : v.withVector? name value = some w) : w.IsPlain = true := by
  unfold withVector? at h
  split at h <;> cases h <;> rfl

theorem isPlain_withProperty? {v w value : Variant} {name : String}
    (h : v.withProperty? name value = some w) : w.IsPlain = true := by
  unfold withProperty? at h
  split at h
  · exact isPlain_withComponent? h
  · exact isPlain_withVector? h

@[simp] theorem isPlain_view (v : Variant) : (v.view p).IsPlain = v.IsPlain := by cases v <;> rfl

theorem withVector?_of_not_isPlain (v : Variant) (name : String) {value : Variant}
    (h : value.IsPlain = false) : v.withVector? name value = none := by
  unfold withVector?
  split
  · cases h
  · cases h
  · cases h
  · cases h
  · rfl

theorem withVector?_view (v : Variant) (name : String) (value : Variant) :
    (v.view p).withVector? name (value.view p) = v.withVector? name value := by
  have left (w : Variant) : (v.view p).withVector? name w = v.withVector? name w := by
    cases v <;> rfl
  rw [left]
  cases hp : value.IsPlain with
  | true => rw [view_of_isPlain hp]
  | false =>
    rw [withVector?_of_not_isPlain v name hp,
      withVector?_of_not_isPlain v name ((isPlain_view value).trans hp)]

@[simp] theorem withProperty?_view (v : Variant) (name : String) (value : Variant) :
    (v.view p).withProperty? name (value.view p) = v.withProperty? name value := by
  have component (n : Float) : (v.view p).withComponent? name n = v.withComponent? name n := by
    cases v <;> rfl
  simp only [withProperty?, number?_view, component, withVector?_view]

theorem map_view_of_isPlain {x : Option Variant} (h : ∀ v, x = some v → v.IsPlain = true) :
    x.map (view p) = x := by
  cases x with
  | none => rfl
  | some v => rw [Option.map_some, view_of_isPlain (h v rfl)]

theorem lookup_view (es : List (Variant × Variant)) (key : Variant) :
    lookup (es.map (pairView p)) (key.view p) = (lookup es key).map (view p) := by
  induction es with
  | nil => rfl
  | cons e rest ih =>
    simp only [lookup, List.map_cons, List.find?_cons, pairView, same_view] at ih ⊢
    cases e.1.same key with
    | true => rfl
    | false => exact ih

theorem owned_lookup {es : List (Variant × Variant)} {key v : Variant}
    (he : ∀ e ∈ es, e.1.Owned p ∧ e.2.Owned p) (h : lookup es key = some v) : v.Owned p := by
  obtain ⟨e, hf, rfl⟩ := Option.map_eq_some_iff.mp h
  exact (he e (List.mem_of_find?_eq_some hf)).2

theorem insertEntry_view (key value : Variant) (es : List (Variant × Variant)) :
    insertEntry (key.view p) (value.view p) (es.map (pairView p)) =
      (insertEntry key value es).map (pairView p) := by
  induction es with
  | nil => rfl
  | cons e rest ih =>
    simp only [insertEntry, List.map_cons, pairView, same_view] at ih ⊢
    cases e.1.same key with
    | true => rfl
    | false =>
      simp only [Bool.false_eq_true, if_false, List.map_cons]
      exact congrArg _ ih

theorem owned_insertEntry {key value : Variant} {es : List (Variant × Variant)} (hk : key.Owned p)
    (hv : value.Owned p) (he : ∀ e ∈ es, e.1.Owned p ∧ e.2.Owned p) :
    ∀ e ∈ insertEntry key value es, e.1.Owned p ∧ e.2.Owned p := by
  induction es with
  | nil => simpa [insertEntry] using ⟨hk, hv⟩
  | cons x rest ih =>
    rw [List.forall_mem_cons] at he
    rw [insertEntry]
    split
    · exact List.forall_mem_cons.mpr ⟨⟨he.1.1, hv⟩, he.2⟩
    · exact List.forall_mem_cons.mpr ⟨he.1, ih he.2⟩

theorem get_view (v key : Variant) : (v.view p).get (key.view p) = (v.get key).view p := by
  have named (v : Variant) (name : String) :
      ofOption ((v.view p).property? name) = (ofOption (v.property? name)).view p := by
    rw [view_ofOption, map_view_of_isPlain fun _ => isPlain_property?, property?_view]
  cases v with
  | array items =>
    cases key with
    | int i =>
      simp only [view, get, listView_eq, List.length_map]
      rw [view_ofOption]
      cases slot? items.length i with
      | none => rfl
      | some n => simp
    | string name => exact named (.array items) name
    | _ => rfl
  | dictionary es =>
    rw [view_dictionary, get, get, lookup_view, view_ofOption]
  | _ =>
    cases key with
    | string name => exact named _ name
    | _ => rfl

theorem owned_get {v key : Variant} (hv : v.Owned p) : (v.get key).Owned p := by
  have named (v : Variant) (name : String) : (ofOption (v.property? name)).Owned p :=
    owned_ofOption fun _ h => owned_of_isPlain (isPlain_property? h)
  unfold get
  split
  · refine owned_ofOption fun w h => ?_
    obtain ⟨n, -, hn⟩ := Option.bind_eq_some_iff.mp h
    exact owned_array.mp hv w (List.mem_of_getElem? hn)
  · exact owned_ofOption fun _ h => owned_lookup (owned_dictionary.mp hv) h
  · exact named _ _
  · trivial

theorem set?_view (v key value : Variant) :
    (v.view p).set? (key.view p) (value.view p) = (v.set? key value).map (view p) := by
  have named (v : Variant) (name : String) : (v.view p).withProperty? name (value.view p) =
      (v.withProperty? name value).map (view p) := by
    rw [map_view_of_isPlain fun _ => isPlain_withProperty?, withProperty?_view]
  cases v with
  | array items =>
    cases key with
    | int i =>
      simp only [view, set?, listView_eq, List.length_map, Option.map_map]
      cases slot? items.length i with
      | none => rfl
      | some n => simp [List.map_set]
    | string name => exact named (.array items) name
    | _ => rfl
  | dictionary es =>
    rw [view_dictionary, set?, set?, insertEntry_view, Option.map_some, view_dictionary]
  | _ =>
    cases key with
    | string name => exact named _ name
    | _ => rfl

theorem owned_set? {v key value w : Variant} (hv : v.Owned p) (hk : key.Owned p)
    (hx : value.Owned p) (h : v.set? key value = some w) : w.Owned p := by
  unfold set? at h
  split at h
  · obtain ⟨n, -, rfl⟩ := Option.map_eq_some_iff.mp h
    refine owned_array.mpr fun u hu => ?_
    rcases List.mem_or_eq_of_mem_set hu with hu | rfl
    · exact owned_array.mp hv u hu
    · exact hx
  · cases h
    exact owned_dictionary.mpr (owned_insertEntry hk hx (owned_dictionary.mp hv))
  · exact owned_of_isPlain (isPlain_withProperty? h)
  · cases h

/-! ### Operators -/

theorem isPlain_evaluate? {op : Metamethod} {a b v : Variant} (h : evaluate? op a b = some v) :
    v.IsPlain = true := by
  have plain {α : Type} {f : α → Variant} (hf : ∀ x, (f x).IsPlain = true) {x : Option α}
      (h : x.map f = some v) : v.IsPlain = true := by
    obtain ⟨y, -, rfl⟩ := Option.map_eq_some_iff.mp h
    exact hf y
  have either {x y : Option Variant} (hx : x = some v → v.IsPlain = true)
      (hy : y = some v → v.IsPlain = true) (h : (x <|> y) = some v) : v.IsPlain = true := by
    cases x with
    | none => exact hy h
    | some u => exact hx h
  unfold evaluate? at h
  split at h
  · exact either (plain fun _ => rfl) (plain fun _ => rfl) h
  · exact plain (fun _ => rfl) h
  · exact either (plain fun _ => rfl) (plain fun _ => rfl) h
  · obtain ⟨s, -, h⟩ := Option.bind_eq_some_iff.mp h
    exact plain (fun _ => rfl) h
  · obtain ⟨s, -, h⟩ := Option.bind_eq_some_iff.mp h
    exact plain (fun _ => rfl) h
  · obtain ⟨s, -, h⟩ := Option.bind_eq_some_iff.mp h
    exact plain (fun _ => rfl) h
  · split at h
    · exact plain (fun _ => rfl) h
    · cases h
  · split at h
    · exact plain (fun _ => rfl) h
    · cases h
  · split at h
    · exact plain (fun _ => rfl) h
    · cases h
  · cases h

@[simp] theorem evaluate?_view (op : Metamethod) (a b : Variant) :
    evaluate? op (a.view p) (b.view p) = evaluate? op a b := by
  cases a <;> cases b <;> rfl

end Variant

/-! ### Arguments and methods -/

namespace Argument

theorem any_view (args : List Variant) (i : Nat) :
    any (args.map (Variant.view p)) i = (any args i).map (Variant.view p) := by
  unfold any
  rw [List.getElem?_map]
  cases args[i]? with
  | none => simp [Except.map]
  | some v => rfl

/-- Nothing that is read of an argument in this way belongs to anyone. -/
theorem ofKind_view {α : Type} {expected : Kind} {read : Variant → Option α}
    (h : ∀ v : Variant, read (v.view p) = read v) (args : List Variant) (i : Nat) :
    ofKind expected read (args.map (Variant.view p)) i = ofKind expected read args i := by
  unfold ofKind
  rw [any_view]
  cases any args i with
  | error e => rfl
  | ok v =>
    simp only [Except.map, bind, Except.bind, h, Variant.kind_view]

@[simp] theorem number_view (args : List Variant) (i : Nat) :
    number (args.map (Variant.view p)) i = number args i := ofKind_view Variant.number?_view args i

@[simp] theorem vector2_view (args : List Variant) (i : Nat) :
    vector2 (args.map (Variant.view p)) i = vector2 args i :=
  ofKind_view (fun v => by cases v <;> rfl) args i

@[simp] theorem vector3_view (args : List Variant) (i : Nat) :
    vector3 (args.map (Variant.view p)) i = vector3 args i :=
  ofKind_view (fun v => by cases v <;> rfl) args i

@[simp] theorem color_view (args : List Variant) (i : Nat) :
    color (args.map (Variant.view p)) i = color args i :=
  ofKind_view (fun v => by cases v <;> rfl) args i

@[simp] theorem rect2_view (args : List Variant) (i : Nat) :
    rect2 (args.map (Variant.view p)) i = rect2 args i :=
  ofKind_view (fun v => by cases v <;> rfl) args i

theorem callable_view (args : List Variant) (i : Nat) :
    callable (args.map (Variant.view p)) i = (callable args i).map (Callable.view p) := by
  unfold callable ofKind
  rw [any_view]
  cases any args i with
  | error e => rfl
  | ok v => cases v <;> rfl

theorem owned_callable {args : List Variant} {i : Nat} {c : Callable}
    (ha : ∀ v ∈ args, v.Owned p) (h : callable args i = .ok c) : c.Owned p := by
  unfold callable ofKind any at h
  cases hv : args[i]? with
  | none =>
    rw [hv] at h
    cases h
  | some v =>
    rw [hv] at h
    cases v with
    | callable d =>
      cases h
      exact Variant.owned_callable.mp (ha _ (List.mem_of_getElem? hv))
    | _ => cases h

end Argument

theorem callContainer_view {size : Nat} {has has' : Variant → Bool}
    (h : ∀ v : Variant, has' (v.view p) = has v) (method : String) (args : List Variant) :
    callContainer size has' method (args.map (Variant.view p)) =
      callContainer size has method args := by
  unfold callContainer
  split
  · rfl
  · rfl
  · rw [Argument.any_view]
    cases Argument.any args 0 with
    | error e => rfl
    | ok v =>
      show Except.ok (Variant.bool (has' (v.view p))) = Except.ok (Variant.bool (has v))
      rw [h]
  · rfl

/-- A result that belongs to nobody. -/
def Except.IsPlain (x : Except CallError Variant) : Prop := ∀ v, x = .ok v → v.IsPlain = true

namespace Except.IsPlain

theorem error (e : CallError) : IsPlain (.error e) := nofun

theorem ok {v : Variant} (h : v.IsPlain = true) : IsPlain (.ok v) := by
  rintro _ ⟨⟩
  exact h

theorem bind {α : Type} {x : Except CallError α} {f : α → Except CallError Variant}
    (hf : ∀ a, IsPlain (f a)) : IsPlain (x >>= f) := by
  cases x with
  | error e => exact error e
  | ok a => exact hf a

end Except.IsPlain

open Except.IsPlain in
theorem isPlain_callContainer (size : Nat) (has : Variant → Bool) (method : String)
    (args : List Variant) : Except.IsPlain (callContainer size has method args) := by
  unfold callContainer
  split
  · exact ok rfl
  · exact ok rfl
  · exact bind fun _ => ok rfl
  · exact error _

namespace Variant

open Except.IsPlain in
theorem isPlain_callPlain (v : Variant) (method : String) (args : List Variant) :
    Except.IsPlain (v.callPlain method args) := by
  cases v with
  | vector2 x | vector3 x | color x | rect2 x | plane x =>
    show Except.IsPlain (x.call method args)
    first
      | unfold Vector2.call
      | unfold Vector3.call
      | unfold Color.call
      | unfold Rect2.call
      | unfold Plane.call
    split
    all_goals first
      | exact ok rfl
      | exact error _
      | exact bind fun _ => ok rfl
      | exact bind fun _ => bind fun _ => ok rfl
      | split <;> exact bind fun _ => bind fun _ => ok rfl
  | array items => exact isPlain_callContainer _ _ method args
  | dictionary es => exact isPlain_callContainer _ _ method args
  | _ => exact error _

@[simp] theorem callPlain_view (v : Variant) (method : String) (args : List Variant) :
    (v.view p).callPlain method (args.map (view p)) = v.callPlain method args := by
  cases v with
  | vector2 v =>
    show v.call method (args.map (view p)) = v.call method args
    unfold Vector2.call
    simp
  | vector3 v =>
    show v.call method (args.map (view p)) = v.call method args
    unfold Vector3.call
    simp
  | color c =>
    show c.call method (args.map (view p)) = c.call method args
    unfold Color.call
    simp
  | rect2 r =>
    show r.call method (args.map (view p)) = r.call method args
    unfold Rect2.call
    simp
  | plane q =>
    show q.call method (args.map (view p)) = q.call method args
    unfold Plane.call
    simp
  | array items =>
    simp only [view_array, callPlain, List.length_map]
    exact callContainer_view (fun v => by simp [List.any_map, Function.comp_def]) method args
  | dictionary es =>
    simp only [view_dictionary, callPlain, List.length_map]
    exact callContainer_view (fun v => by simp [List.any_map, Function.comp_def, pairView]) method args
  | _ => rfl

end Variant

end ScriptHost
