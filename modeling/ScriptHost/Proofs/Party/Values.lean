import Mathlib.Logic.Function.Basic
import ScriptHost.Machine.Metatable
import ScriptHost.Proofs.Variant.Containers
import ScriptHost.Variant.Constructor
import ScriptHost.Variant.Operator
import ScriptHost.Variant.Reference

/-! The two sides of a session, and what host values are to one of them. A side numbers its
interpreters as it would alone, and else sees values as they are. -/

namespace ScriptHost

/-- One side of a session: some of its bridges, and the objects, host functions, saved values and
interpreters that belong to them. All else belongs to the others. -/
structure Party where
  bridge : String → Bool
  object : ObjectId → Bool
  /-- By key. -/
  native : String → Bool
  saved : String → Bool
  interpreter : Nat → Bool
  /-- The numbers that its interpreters would have without the others. -/
  number : Nat → Nat
  injective : Function.Injective number
  /-- What an object makes belongs where the object does. -/
  children : ∀ (o : ObjectId) (n : Nat), object ⟨o.label ++ "." ++ toString n⟩ = object o

/-- The other side. -/
def Party.others (p : Party) : Party where
  bridge name := !p.bridge name
  object o := !p.object o
  native key := !p.native key
  saved name := !p.saved name
  interpreter n := !p.interpreter n
  number := p.number
  injective := p.injective
  children o n := by rw [p.children]

@[simp] theorem Party.others_others (p : Party) : p.others.others = p := by simp [others]

variable {p : Party}

/-! ### Host values -/

def ScriptFunction.view (p : Party) (f : ScriptFunction) : ScriptFunction :=
  ⟨p.number f.owner, f.address⟩

theorem ScriptFunction.view_inj {f g : ScriptFunction} : f.view p = g.view p ↔ f = g := by
  obtain ⟨m, a⟩ := f
  obtain ⟨n, b⟩ := g
  simp [view, p.injective.eq_iff]

mutual

/-- The value as the party sees it. -/
def Variant.view (p : Party) (v : Variant) : Variant :=
  match v with
  | .array items => .array (Variant.listView p items)
  | .dictionary entries => .dictionary (Variant.entriesView p entries)
  | .callable c => .callable (Callable.view p c)
  | v => v
termination_by structural v

def Variant.listView (p : Party) (vs : List Variant) : List Variant :=
  match vs with
  | [] => []
  | v :: rest => Variant.view p v :: Variant.listView p rest
termination_by structural vs

def Variant.entriesView (p : Party) (es : List (Variant × Variant)) : List (Variant × Variant) :=
  match es with
  | [] => []
  | e :: rest => Variant.entryView p e :: Variant.entriesView p rest
termination_by structural es

def Variant.entryView (p : Party) (e : Variant × Variant) : Variant × Variant :=
  match e with
  | (k, v) => (Variant.view p k, Variant.view p v)
termination_by structural e

def Callable.view (p : Party) (c : Callable) : Callable :=
  match c with
  | .script f => .script (f.view p)
  | .bound target extra placement =>
    .bound (Callable.view p target) (Variant.listView p extra) placement
  | c => c
termination_by structural c

end

mutual

/-- All objects and functions in the value belong to the party. -/
def Variant.Owned (p : Party) (v : Variant) : Prop :=
  match v with
  | .array items => Variant.ListOwned p items
  | .dictionary entries => Variant.EntriesOwned p entries
  | .object o => p.object o = true
  | .signal s => p.object s.object = true
  | .callable c => Callable.Owned p c
  | _ => True
termination_by structural v

def Variant.ListOwned (p : Party) (vs : List Variant) : Prop :=
  match vs with
  | [] => True
  | v :: rest => Variant.Owned p v ∧ Variant.ListOwned p rest
termination_by structural vs

def Variant.EntriesOwned (p : Party) (es : List (Variant × Variant)) : Prop :=
  match es with
  | [] => True
  | e :: rest => Variant.EntryOwned p e ∧ Variant.EntriesOwned p rest
termination_by structural es

def Variant.EntryOwned (p : Party) (e : Variant × Variant) : Prop :=
  match e with
  | (k, v) => Variant.Owned p k ∧ Variant.Owned p v
termination_by structural e

def Callable.Owned (p : Party) (c : Callable) : Prop :=
  match c with
  | .method o _ => p.object o = true
  | .native f => p.native f.key = true
  | .script f => p.interpreter f.owner = true
  | .bound target extra _ => Callable.Owned p target ∧ Variant.ListOwned p extra
termination_by structural c

end

namespace Variant

/-- An entry as the party sees it. -/
def pairView (p : Party) (e : Variant × Variant) : Variant × Variant := (e.1.view p, e.2.view p)

theorem listView_eq (vs : List Variant) : listView p vs = vs.map (view p) := by
  induction vs with
  | nil => rfl
  | cons v rest ih => rw [listView, ih, List.map_cons]

theorem entriesView_eq (es : List (Variant × Variant)) :
    entriesView p es = es.map (pairView p) := by
  induction es with
  | nil => rfl
  | cons e rest ih =>
    obtain ⟨k, v⟩ := e
    rw [entriesView, entryView, ih, List.map_cons, pairView]

theorem listOwned_iff {vs : List Variant} : ListOwned p vs ↔ ∀ v ∈ vs, v.Owned p := by
  induction vs with
  | nil => simp [ListOwned]
  | cons v rest ih => rw [ListOwned, ih, List.forall_mem_cons]

theorem entriesOwned_iff {es : List (Variant × Variant)} :
    EntriesOwned p es ↔ ∀ e ∈ es, e.1.Owned p ∧ e.2.Owned p := by
  induction es with
  | nil => simp [EntriesOwned]
  | cons e rest ih =>
    obtain ⟨k, v⟩ := e
    rw [EntriesOwned, EntryOwned, ih, List.forall_mem_cons]

@[simp] theorem view_array (items : List Variant) :
    (array items).view p = array (items.map (view p)) := congrArg array (listView_eq items)

@[simp] theorem view_dictionary (es : List (Variant × Variant)) :
    (dictionary es).view p = dictionary (es.map (pairView p)) :=
  congrArg dictionary (entriesView_eq es)

@[simp] theorem view_callable (c : Callable) : (callable c).view p = callable (c.view p) := rfl

@[simp] theorem owned_array {items : List Variant} :
    (array items).Owned p ↔ ∀ v ∈ items, v.Owned p := listOwned_iff

@[simp] theorem owned_dictionary {es : List (Variant × Variant)} :
    (dictionary es).Owned p ↔ ∀ e ∈ es, e.1.Owned p ∧ e.2.Owned p := entriesOwned_iff

@[simp] theorem owned_object {o : ObjectId} : (object o).Owned p ↔ p.object o = true := Iff.rfl

@[simp] theorem owned_signal {s : Signal} : (signal s).Owned p ↔ p.object s.object = true := Iff.rfl

@[simp] theorem owned_callable {c : Callable} : (callable c).Owned p ↔ c.Owned p := Iff.rfl

end Variant

namespace Callable

@[simp] theorem view_bound (target : Callable) (extra : List Variant) (placement : Placement) :
    (bound target extra placement).view p =
      bound (target.view p) (extra.map (Variant.view p)) placement :=
  congrArg (bound (target.view p) · placement) (Variant.listView_eq extra)

@[simp] theorem owned_method {o : ObjectId} {name : String} :
    (method o name).Owned p ↔ p.object o = true := Iff.rfl

@[simp] theorem owned_native {f : Native} : (native f).Owned p ↔ p.native f.key = true := Iff.rfl

@[simp] theorem owned_script {f : ScriptFunction} :
    (script f).Owned p ↔ p.interpreter f.owner = true := Iff.rfl

@[simp] theorem owned_bound {target : Callable} {extra : List Variant} {placement : Placement} :
    (bound target extra placement).Owned p ↔ target.Owned p ∧ ∀ v ∈ extra, v.Owned p :=
  and_congr_right' Variant.listOwned_iff

@[simp] theorem methodName?_view : (c : Callable) → (c.view p).methodName? = c.methodName?
  | method _ _ => rfl
  | native _ => rfl
  | script _ => rfl
  | bound target _ _ => methodName?_view target

@[simp] theorem object?_view : (c : Callable) → (c.view p).object? = c.object?
  | method _ _ => rfl
  | native _ => rfl
  | script _ => rfl
  | bound target _ _ => object?_view target

theorem owned_of_object? {o : ObjectId} : {c : Callable} → c.Owned p → c.object? = some o →
    p.object o = true
  | method _ _, hc, ho => by
    cases ho
    exact owned_method.mp hc
  | native _, _, ho => nomatch ho
  | script _, _, ho => nomatch ho
  | bound target _ _, hc, ho => owned_of_object? (owned_bound.mp hc).1 ho

end Callable

namespace Variant

@[simp] theorem kind_view (v : Variant) : (v.view p).kind = v.kind := by cases v <;> rfl

@[simp] theorem isNil_view (v : Variant) : (v.view p).isNil = v.isNil := by cases v <;> rfl

@[simp] theorem isBoxed_view (v : Variant) : (v.view p).isBoxed = v.isBoxed := by
  cases v with
  | callable c => cases c <;> rfl
  | _ => rfl

@[simp] theorem number?_view (v : Variant) : (v.view p).number? = v.number? := by cases v <;> rfl

@[simp] theorem string?_view (v : Variant) : (v.view p).string? = v.string? := by cases v <;> rfl

@[simp] theorem object?_view (v : Variant) : (v.view p).object? = v.object? := by cases v <;> rfl

@[simp] theorem truth_view (v : Variant) : (v.view p).truth = v.truth := by
  cases v with
  | array items => simp [truth]
  | dictionary es => simp [truth]
  | _ => rfl

@[simp] theorem boxName_view (v : Variant) : (v.view p).boxName = v.boxName := by
  cases v with
  | callable c => cases c <;> rfl
  | _ => rfl

@[simp] theorem answers_view (v : Variant) (op : Metamethod) :
    (v.view p).answers op = v.answers op := by cases v <;> rfl

theorem owned_of_object? {v : Variant} {o : ObjectId} (hv : v.Owned p) (ho : v.object? = some o) :
    p.object o = true := by
  cases v with
  | object o' =>
    cases ho
    exact owned_object.mp hv
  | _ => cases ho

theorem view_ofOption (x : Option Variant) : (ofOption x).view p = ofOption (x.map (view p)) := by
  cases x <;> rfl

theorem owned_ofOption {x : Option Variant} (h : ∀ v, x = some v → v.Owned p) :
    (ofOption x).Owned p := by
  cases x with
  | none => trivial
  | some v => exact h v rfl

end Variant

/-! ### Equality -/

mutual

@[simp] theorem Variant.same_view (x y : Variant) : (x.view p).same (y.view p) = x.same y := by
  cases x with
  | array xs =>
    cases y with
    | array ys =>
      simp only [Variant.view, Variant.same]
      exact Variant.sameItems_view xs ys
    | _ => rfl
  | dictionary xs =>
    cases y with
    | dictionary ys =>
      simp only [Variant.view, Variant.same]
      rw [Variant.eachIn_view xs ys]
      simp only [Variant.entriesView_eq, List.length_map]
    | _ => rfl
  | callable c =>
    cases y with
    | callable d =>
      simp only [Variant.view, Variant.same]
      exact Callable.same_view c d
    | _ => rfl
  | _ => cases y <;> rfl
termination_by structural x

theorem Variant.sameItems_view (xs ys : List Variant) :
    Variant.sameItems (Variant.listView p xs) (Variant.listView p ys) =
      Variant.sameItems xs ys := by
  cases xs with
  | nil => cases ys <;> rfl
  | cons x rest =>
    cases ys with
    | nil => rfl
    | cons y ys =>
      simp only [Variant.listView, Variant.sameItems]
      rw [Variant.same_view x y, Variant.sameItems_view rest ys]
termination_by structural xs

theorem Variant.eachIn_view (xs ys : List (Variant × Variant)) :
    Variant.eachIn (Variant.entriesView p xs) (Variant.entriesView p ys) =
      Variant.eachIn xs ys := by
  cases xs with
  | nil => rfl
  | cons x rest =>
    simp only [Variant.entriesView, Variant.eachIn]
    rw [Variant.eachIn_view rest ys, Variant.entriesView_eq, List.any_map]
    congr 2
    funext y
    exact Variant.sameEntry_view x y
termination_by structural xs

theorem Variant.sameEntry_view (x y : Variant × Variant) :
    Variant.sameEntry (Variant.entryView p x) (Variant.pairView p y) =
      Variant.sameEntry x y := by
  cases x with
  | mk k v =>
    simp only [Variant.entryView, Variant.sameEntry, Variant.pairView]
    rw [Variant.same_view k y.1, Variant.same_view v y.2]
termination_by structural x

theorem Callable.same_view (x y : Callable) : (x.view p).same (y.view p) = x.same y := by
  cases x with
  | script f =>
    cases y with
    | script g => simp [Callable.view, Callable.same, ScriptFunction.view_inj, beq_eq_decide]
    | _ => rfl
  | bound target extra placement =>
    cases y with
    | bound target' extra' placement' =>
      simp only [Callable.view, Callable.same]
      rw [Callable.same_view target target', Variant.sameItems_view extra extra']
    | _ => rfl
  | _ => cases y <;> rfl
termination_by structural x

end

end ScriptHost
