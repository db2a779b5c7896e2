import ScriptHost.Proofs.Session.Globals
import ScriptHost.Proofs.Session.Hooks

/-! What holds of every interpreter as it is opened: it is made of a few kinds of steps, and a
property of heaps that these keep is one of each new interpreter. -/

namespace ScriptHost

/-- The steps by which interpreters are furnished keep the property. -/
structure Heap.Furnishes (P : Heap → Prop) : Prop where
  newTable : ∀ h, P h → P (h.newTable .empty).2
  newFunction : ∀ h f, P h → P (h.newFunction f).2
  set : ∀ h id key value, P h → P (h.set id key value)
  textMeta : ∀ (h : Heap) m, P h → P { h with textMeta? := m }

namespace Heap.Furnishes

variable {P : Heap → Prop} {h : Heap} {b b' : Bridge}

theorem setGlobal (hp : Furnishes P) (hh : P h) (name : String) (v : Value) :
    P (h.setGlobal name v) := hp.set h globals (.ofString name) v hh

theorem defineGlobal (hp : Furnishes P) (hh : P h) (owner : Nat) (name : String) (f : Function) :
    P (h.defineGlobal owner name f) := hp.setGlobal (hp.newFunction h f hh) name _

theorem foldl {α : Type} (xs : List α) {f : Heap → α → Heap} (hf : ∀ h x, P h → P (f h x))
    (hh : P h) : P (xs.foldl f h) := by
  induction xs generalizing h with
  | nil => exact hh
  | cons x rest ih => exact ih (hf h x hh)

theorem openBase (hp : Furnishes P) (hh : P h) (owner : Nat) : P (h.openBase owner) :=
  hp.setGlobal (foldl baseFunctions (fun _ b hh => hp.defineGlobal hh owner b.name _) hh) _ _

theorem openText (hp : Furnishes P) (hh : P h) (owner library : Nat) :
    P (h.openText owner library) := by
  unfold Heap.openText
  refine hp.textMeta _ _ (hp.set _ _ _ _ ?_)
  exact foldl _ (fun h _ hh => hp.set _ _ _ _ (hp.newFunction h _ hh)) (hp.newTable h hh)

theorem fillLibrary (hp : Furnishes P) (hh : P h) (owner : Nat) (l : Library) (id : Nat) :
    P (h.fillLibrary owner l id) := by
  cases l with
  | string => exact hp.openText hh owner id
  | coroutine => exact hp.set _ _ _ _ (hp.newFunction h _ hh)
  | io => exact hp.set _ _ _ _ (hp.set _ _ _ _ (hp.set _ _ _ _ hh))
  | _ => exact hh

theorem openLibrary (hp : Furnishes P) (hb : P b.heap) (l : Library) :
    P (b.openLibrary l).heap := by
  unfold Bridge.openLibrary
  split
  · exact hp.setGlobal hb _ _
  · exact hp.setGlobal (hp.fillLibrary (hp.newTable _ hb) b.id l _) _ _

theorem openLibraries (hp : Furnishes P) (hb : P b.heap) (ls : List Library) :
    P (ls.foldl Bridge.openLibrary b).heap := by
  induction ls generalizing b with
  | nil => exact hb
  | cons l rest ih => exact ih (hp.openLibrary hb l)

theorem bindLibraries (hp : Furnishes P) (hb : P b.heap) {names : List String}
    (h : b.bindLibraries names = .ok b') : P b'.heap := by
  unfold Bridge.bindLibraries at h
  cases hl : Bridge.librariesOf names with
  | error refusal =>
    rw [hl] at h
    cases h
  | ok ls =>
    rw [hl] at h
    cases h
    exact hp.openLibraries hb _

theorem openConstructors (hp : Furnishes P) (hb : P b.heap) : P b.openConstructors.heap := by
  unfold Bridge.openConstructors
  exact foldl _ (fun h s hh => hp.defineGlobal hh _ s.name _) hb

theorem furnished (hp : Furnishes P) (initial : P .initial) (name : String) (id : Nat) (s : Settings)
    (observed : Bool) : P (Bridge.furnished name id s observed).heap := by
  have base : P (Bridge.fresh name id s.mode observed).heap := hp.openBase initial id
  unfold Bridge.furnished
  dsimp only
  split
  · split
    · exact hp.openConstructors (hp.openLibraries base _)
    · exact hp.openConstructors base
  · split
    · exact hp.openLibraries base _
    · exact base

/-- The property is one of all interpreters that are opened. -/
theorem openWith (hp : Furnishes P) (initial : P .initial) {name : String} {id : Nat} {s : Settings}
    {observed : Bool} (h : Bridge.openWith name id s observed = .ok b) : P b.heap := by
  rw [Bridge.openWith_eq] at h
  cases hb : (Bridge.furnished name id s observed).bindLibraries s.libraries with
  | error refusal =>
    rw [hb] at h
    cases h
  | ok b' =>
    have holds := hp.bindLibraries (hp.furnished initial name id s observed) hb
    rw [hb] at h
    dsimp only at h
    split at h
    · cases h
      exact holds
    · cases hk : Bridge.hookOf s.hook s.interval Option.none true with
      | error refusal =>
        rw [hk] at h
        cases h
      | ok hook =>
        rw [hk] at h
        cases h
        exact holds

end Heap.Furnishes

/-- The globals can be read and written without calling anything. -/
structure Heap.OpenGlobals (h : Heap) : Prop where
  size : Heap.globals < h.tables.size
  meta? : (h.table Heap.globals).meta? = none

namespace Heap.OpenGlobals

variable {h : Heap}

theorem kept (hh : h.OpenGlobals) {g : Heap} (hk : h.Kept 0 g) : g.OpenGlobals :=
  ⟨hh.size.trans_le hk.tables, (hk.meta? _ (Nat.zero_le _) hh.size).trans hh.meta?⟩

theorem set (hh : h.OpenGlobals) (id : Nat) (key : Key) (value : Value) :
    (h.set id key value).OpenGlobals := by
  refine ⟨(Heap.size_set h id key value).symm ▸ hh.size, ?_⟩
  by_cases hid : Heap.globals = id
  · subst hid
    rw [Heap.table_set hh.size, Table.meta_set, hh.meta?]
  · rw [Heap.table_set_of_ne hid, hh.meta?]

theorem furnishes : Heap.Furnishes OpenGlobals where
  newTable h hh := hh.kept (.newTable h .empty)
  newFunction _ _ hh := ⟨hh.size, hh.meta?⟩
  set _ id key value hh := hh.set id key value
  textMeta _ _ hh := ⟨hh.size, hh.meta?⟩

theorem initial : Heap.initial.OpenGlobals := ⟨by decide, rfl⟩

theorem lack (hh : h.OpenGlobals) (field : String) : h.GlobalsLack field := by
  intro m hm
  rw [hh.meta?] at hm
  cases hm

end Heap.OpenGlobals

end ScriptHost
