import ScriptHost.Proofs.Party.Acts
import ScriptHost.Proofs.Session.Hooks

/-! Bridges as they are opened and given libraries, as one side of a session sees them: what an
interpreter begins with depends on its number only in whose functions it holds. -/

namespace ScriptHost

variable {p : Party}

/-! ### Libraries -/

namespace Heap

variable {h : Heap}

theorem view_setGlobal (h : Heap) (name : String) (v : Value) :
    (h.setGlobal name v).view p = (h.view p).setGlobal name (v.view p) :=
  view_set h globals (.ofString name) v

theorem Owned.setGlobal (hh : h.Owned p) (name : String) (v : Value) : (h.setGlobal name v).Owned p :=
  hh.set _ _ _

/-- A function that holds no values is the same to any party. -/
theorem view_defineGlobal (owner : Nat) (h : Heap) (name : String) {f : Function}
    (hf : f.view p = f) : (h.defineGlobal owner name f).view p =
      (h.view p).defineGlobal (p.number owner) name f := by
  have made := newFunction_view (p := p) h f
  rw [hf] at made
  simp only [defineGlobal, made]
  exact view_setGlobal _ name (.function ⟨owner, (h.newFunction f).1⟩)

theorem Owned.defineGlobal (hh : h.Owned p) (owner : Nat) (name : String) {f : Function}
    (hf : f.Owned p) : (h.defineGlobal owner name f).Owned p :=
  (hh.newFunction hf).setGlobal _ _

theorem owned_builtin (b : Builtin) : (Function.builtin b).Owned p := trivial

/-- A step that the party sees alike, taken for each element of a list. -/
theorem view_foldl {α : Type} {f g : Heap → α → Heap}
    (hf : ∀ h x, (f h x).view p = g (h.view p) x) (xs : List α) (h : Heap) :
    (xs.foldl f h).view p = xs.foldl g (h.view p) :=
  (List.foldl_hom (view p) fun h x => (hf h x).symm).symm

theorem Owned.foldl {α : Type} (hh : h.Owned p) (xs : List α) {f : Heap → α → Heap}
    (hf : ∀ h x, h.Owned p → (f h x).Owned p) : (xs.foldl f h).Owned p := by
  induction xs generalizing h with
  | nil => exact hh
  | cons x rest ih => exact ih (hf h x hh)

theorem view_openBase (owner : Nat) (h : Heap) :
    (h.openBase owner).view p = (h.view p).openBase (p.number owner) := by
  have defined (h : Heap) (b : Builtin) : (h.defineGlobal owner b.name (.builtin b)).view p =
      (h.view p).defineGlobal (p.number owner) b.name (.builtin b) :=
    view_defineGlobal owner h b.name rfl
  unfold openBase
  rw [view_setGlobal, view_foldl
    (g := fun h b => h.defineGlobal (p.number owner) b.name (.builtin b)) defined]
  rfl

theorem Owned.openBase (hh : h.Owned p) (owner : Nat) : (h.openBase owner).Owned p :=
  (hh.foldl baseFunctions fun _ b hh => hh.defineGlobal owner _ (owned_builtin b)).setGlobal _ _

/-- One of the operations that strings answer. -/
def textOperation (owner id : Nat) (h : Heap) (op : Metamethod) : Heap :=
  (h.newFunction (.builtin (.textArithmetic op))).2.set id (.ofString op.name)
    (.function ⟨owner, (h.newFunction (.builtin (.textArithmetic op))).1⟩)

theorem openText_eq (owner library : Nat) (h : Heap) : h.openText owner library =
    { (textOperations.foldl (textOperation owner h.tables.size) (h.newTable .empty).2).set
      h.tables.size (.ofString Metamethod.index.name) (.table library) with
      textMeta? := some h.tables.size } := rfl

theorem view_openText (owner library : Nat) (h : Heap) :
    (h.openText owner library).view p = (h.view p).openText (p.number owner) library := by
  have size : (h.view p).tables.size = h.tables.size := Array.size_map
  have table : ((h.view p).newTable .empty).2 = (h.newTable .empty).2.view p :=
    congrArg Prod.snd (newTable_view h .empty)
  have operation (id : Nat) (h : Heap) (op : Metamethod) :
      (textOperation owner id h op).view p = textOperation (p.number owner) id (h.view p) op := by
    have made := newFunction_view (p := p) h (.builtin (.textArithmetic op))
    have same : (Function.builtin (.textArithmetic op)).view p = .builtin (.textArithmetic op) := rfl
    rw [same] at made
    rw [textOperation, textOperation, made, view_set]
    rfl
  have named (h : Heap) (id : Nat) : ({ h with textMeta? := some id } : Heap).view p =
      { h.view p with textMeta? := some id } := rfl
  rw [openText_eq, openText_eq, size, table, named, view_set, view_foldl (operation _)]
  rfl

theorem Owned.openText (hh : h.Owned p) (owner library : Nat) :
    (h.openText owner library).Owned p := by
  have filled := (hh.newTable .empty).foldl textOperations
    (f := textOperation owner h.tables.size) fun h op hh =>
      (hh.newFunction (owned_builtin _)).set _ _ _
  have indexed := filled.set h.tables.size (.ofString Metamethod.index.name) (.table library)
  exact ⟨indexed.box, indexed.function⟩

theorem view_fillLibrary (owner : Nat) (l : Library) (id : Nat) (h : Heap) :
    (h.fillLibrary owner l id).view p = (h.view p).fillLibrary (p.number owner) l id := by
  cases l with
  | coroutine =>
    have made : (h.view p).newFunction (.builtin .createThread) =
        ((h.newFunction (.builtin .createThread)).1,
          (h.newFunction (.builtin .createThread)).2.view p) :=
      newFunction_view (p := p) h (.builtin .createThread)
    simp only [fillLibrary, made]
    exact view_set _ id (.ofString Builtin.createThread.name) (.function ⟨owner, _⟩)
  | io =>
    simp only [fillLibrary, view_set]
    rfl
  | string => exact view_openText owner id h
  | _ => rfl

theorem Owned.fillLibrary (hh : h.Owned p) (owner : Nat) (l : Library) (id : Nat) :
    (h.fillLibrary owner l id).Owned p := by
  cases l with
  | coroutine => exact (hh.newFunction (owned_builtin _)).set _ _ _
  | io => exact ((hh.set _ _ _).set _ _ _).set _ _ _
  | string => exact hh.openText owner id
  | _ => exact hh

end Heap

namespace Bridge

variable {b : Bridge}

theorem view_makeLibrary (b : Bridge) (l : Library) :
    (b.view p).makeLibrary l = ((b.makeLibrary l).1, (b.makeLibrary l).2.view p) := by
  unfold makeLibrary
  rw [show (b.view p).heap.newTable .empty =
    ((b.heap.newTable .empty).1, (b.heap.newTable .empty).2.view p) from
      Heap.newTable_view b.heap .empty]
  refine Prod.ext rfl ?_
  exact congrArg (fun h => ({ b.view p with
    heap := h, libraries := (l, (b.heap.newTable .empty).1) :: b.libraries } : Bridge))
    (Heap.view_fillLibrary b.id l _ (b.heap.newTable .empty).2).symm

theorem Owned.makeLibrary (hb : b.Owned p) (l : Library) : (b.makeLibrary l).2.Owned p :=
  ⟨hb.interpreter, (hb.heap.newTable _).fillLibrary _ _ _⟩

theorem view_openLibrary (b : Bridge) (l : Library) :
    (b.openLibrary l).view p = (b.view p).openLibrary l := by
  have named (b : Bridge) (id : Nat) :
      ({ b with heap := b.heap.setGlobal l.name (.table id) } : Bridge).view p =
        { b.view p with heap := (b.view p).heap.setGlobal l.name (.table id) } :=
    congrArg (fun h => ({ b.view p with heap := h } : Bridge))
      (Heap.view_setGlobal b.heap l.name (.table id))
  have libraries : (b.view p).libraries = b.libraries := rfl
  unfold openLibrary
  rw [libraries]
  cases assoc? l b.libraries with
  | some id => exact named b id
  | none =>
    dsimp only
    rw [view_makeLibrary]
    exact named (b.makeLibrary l).2 (b.makeLibrary l).1

theorem Owned.openLibrary (hb : b.Owned p) (l : Library) : (b.openLibrary l).Owned p := by
  unfold Bridge.openLibrary
  split
  · exact ⟨hb.interpreter, hb.heap.setGlobal _ _⟩
  · exact ⟨hb.interpreter, (hb.makeLibrary l).heap.setGlobal _ _⟩

theorem view_openLibraries (ls : List Library) (b : Bridge) :
    (ls.foldl openLibrary b).view p = ls.foldl openLibrary (b.view p) :=
  (List.foldl_hom (view p) fun b l => (view_openLibrary b l).symm).symm

theorem Owned.openLibraries (hb : b.Owned p) (ls : List Library) :
    (ls.foldl Bridge.openLibrary b).Owned p := by
  induction ls generalizing b with
  | nil => exact hb
  | cons l rest ih => exact ih (hb.openLibrary l)

theorem view_bindLibraries (names : List String) (b : Bridge) :
    (b.view p).bindLibraries names = (b.bindLibraries names).map (view p) := by
  unfold bindLibraries
  cases librariesOf names with
  | error refusal => rfl
  | ok ls => exact congrArg Except.ok (view_openLibraries _ b).symm

theorem Owned.bindLibraries (hb : b.Owned p) {names : List String} {b' : Bridge}
    (h : b.bindLibraries names = .ok b') : b'.Owned p := by
  unfold Bridge.bindLibraries at h
  cases hl : librariesOf names with
  | error refusal =>
    rw [hl] at h
    cases h
  | ok ls =>
    rw [hl] at h
    cases h
    exact hb.openLibraries _

/-! ### New interpreters -/

variable {n : Nat}

theorem view_fresh (name : String) (n : Nat) (mode : AccessMode) (observed : Bool) :
    (fresh name n mode observed).view p = fresh name (p.number n) mode observed := by
  have opened : (Heap.openBase n .initial).view p = Heap.openBase (p.number n) .initial := by
    rw [Heap.view_openBase, Heap.view_initial]
  exact congrArg (fun h => (⟨name, p.number n, h, mode, none, observed, observed, []⟩ : Bridge)) opened

theorem owned_fresh (hn : p.interpreter n = true) (name : String) (mode : AccessMode)
    (observed : Bool) : (fresh name n mode observed).Owned p :=
  ⟨hn, Heap.Owned.initial.openBase n⟩

theorem view_openConstructors (b : Bridge) :
    b.openConstructors.view p = (b.view p).openConstructors := by
  have defined (h : Heap) (s : Structured) :
      (h.defineGlobal b.id s.name (.constructor s)).view p =
        (h.view p).defineGlobal (p.number b.id) s.name (.constructor s) :=
    Heap.view_defineGlobal b.id h s.name rfl
  unfold openConstructors
  dsimp only [view]
  rw [Heap.view_foldl
    (g := fun h s => h.defineGlobal (p.number b.id) s.name (.constructor s)) defined]

theorem Owned.openConstructors (hb : b.Owned p) : b.openConstructors.Owned p := by
  have made (s : Structured) : (Function.constructor s).Owned p := trivial
  unfold Bridge.openConstructors
  exact ⟨hb.interpreter, hb.heap.foldl _ fun _ s hh => hh.defineGlobal _ _ (made s)⟩

theorem view_furnished (name : String) (n : Nat) (s : Settings) (observed : Bool) :
    (furnished name n s observed).view p = furnished name (p.number n) s observed := by
  unfold furnished
  dsimp only
  split <;> split <;>
    simp only [view_openConstructors, view_openLibraries, view_fresh]

theorem owned_furnished (hn : p.interpreter n = true) (name : String) (s : Settings)
    (observed : Bool) : (furnished name n s observed).Owned p := by
  have base := owned_fresh hn name s.mode observed
  unfold furnished
  dsimp only
  split <;> split
  · exact (base.openLibraries _).openConstructors
  · exact base.openConstructors
  · exact base.openLibraries _
  · exact base

/-- An interpreter with another number opens the same, or is refused the same. -/
theorem openWith_view (name : String) (n : Nat) (s : Settings) (observed : Bool) :
    openWith name (p.number n) s observed = (openWith name n s observed).map (view p) := by
  rw [openWith_eq, openWith_eq, ← view_furnished, view_bindLibraries]
  cases (furnished name n s observed).bindLibraries s.libraries with
  | error refusal => rfl
  | ok b =>
    dsimp only [Except.map]
    split
    · rfl
    · cases hookOf s.hook s.interval none true <;> rfl

theorem owned_of_openWith (hn : p.interpreter n = true) {name : String} {s : Settings}
    {observed : Bool} (h : openWith name n s observed = .ok b) : b.Owned p := by
  rw [openWith_eq] at h
  cases hb : (furnished name n s observed).bindLibraries s.libraries with
  | error refusal =>
    rw [hb] at h
    cases h
  | ok b' =>
    have owned := (owned_furnished hn name s observed).bindLibraries hb
    rw [hb] at h
    dsimp only at h
    split at h
    · cases h
      exact owned
    · cases hk : hookOf s.hook s.interval none true with
      | error refusal =>
        rw [hk] at h
        cases h
      | ok hook =>
        rw [hk] at h
        cases h
        exact ⟨owned.interpreter, owned.heap⟩

end Bridge

end ScriptHost
