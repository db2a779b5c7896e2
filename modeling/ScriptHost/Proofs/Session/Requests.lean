import ScriptHost.Proofs.Machine.Local
import ScriptHost.Proofs.Machine.Running
import ScriptHost.Session

/-! Requests and collections keep every interpreter to itself. A new interpreter owns what
it begins with; a request may change what the bridge is to others, but not whose
functions its heap holds. -/

namespace ScriptHost

variable {owner : Nat} {α β : Type}

/-! ### New interpreters -/

namespace Heap.OwnedBy

variable {h : Heap}

theorem setGlobal (hh : h.OwnedBy owner) (name : String) {v : Value} (hv : v.OwnedBy owner) :
    (h.setGlobal name v).OwnedBy owner :=
  hh.set _ (show (Key.ofString name).toValue.OwnedBy owner from trivial) hv

theorem defineGlobal (hh : h.OwnedBy owner) (name : String) {f : Function}
    (hf : f.OwnedBy owner) : (h.defineGlobal owner name f).OwnedBy owner := by
  have own : (Value.function ⟨owner, h.functions.size⟩).OwnedBy owner := rfl
  exact (hh.newFunction hf).setGlobal name own

theorem foldl (xs : List α) {f : Heap → α → Heap}
    (hf : ∀ h x, h.OwnedBy owner → (f h x).OwnedBy owner) (hh : h.OwnedBy owner) :
    (xs.foldl f h).OwnedBy owner := by
  induction xs generalizing h with
  | nil => exact hh
  | cons x rest ih => exact ih (hf h x hh)

theorem openBase (hh : h.OwnedBy owner) : (h.openBase owner).OwnedBy owner := by
  have table : (Value.table globals).OwnedBy owner := trivial
  have defined (h : Heap) (b : Builtin) (hh : h.OwnedBy owner) :
      (h.defineGlobal owner b.name (.builtin b)).OwnedBy owner :=
    hh.defineGlobal _ (Function.ownedBy_of_isClosure rfl)
  exact (foldl baseFunctions defined hh).setGlobal "_G" table

theorem withTextMeta (hh : h.OwnedBy owner) (m : Option Nat) :
    ({ h with textMeta? := m } : Heap).OwnedBy owner :=
  ⟨hh.table, hh.functions, hh.threads⟩

theorem openText (hh : h.OwnedBy owner) (library : Nat) :
    (h.openText owner library).OwnedBy owner := by
  have text (s : String) : (Key.ofString s).toValue.OwnedBy owner := trivial
  have table : (Value.table library).OwnedBy owner := trivial
  have function (n : Nat) : (Value.function ⟨owner, n⟩).OwnedBy owner := rfl
  unfold Heap.openText
  refine withTextMeta (set ?_ _ (text _) table) _
  refine foldl _ (fun h op hh => ?_) (hh.newTable .empty)
  exact (hh.newFunction (Function.ownedBy_of_isClosure rfl)).set _ (text _) (function _)

theorem fillLibrary (hh : h.OwnedBy owner) (l : Library) (id : Nat) :
    (h.fillLibrary owner l id).OwnedBy owner := by
  have text (s : String) : (Key.ofString s).toValue.OwnedBy owner := trivial
  have function : (Value.function ⟨owner, h.functions.size⟩).OwnedBy owner := rfl
  have stream (n : Nat) : (Value.stream n).OwnedBy owner := trivial
  cases l with
  | coroutine => exact (hh.newFunction (Function.ownedBy_of_isClosure rfl)).set id (text _) function
  | io =>
    exact ((hh.set id (text _) (stream 0)).set id (text _) (stream 1)).set id (text _) (stream 2)
  | string => exact hh.openText id
  | _ => exact hh

end Heap.OwnedBy

namespace Bridge

structure OwnedBy (owner : Nat) (b : Bridge) : Prop where
  id : b.id = owner
  heap : b.heap.OwnedBy owner

variable {b : Bridge}

theorem OwnedBy.makeLibrary (hb : b.OwnedBy owner) (l : Library) :
    (b.makeLibrary l).2.OwnedBy owner := by
  obtain ⟨rfl, heap⟩ := hb
  exact ⟨rfl, (heap.newTable .empty).fillLibrary l _⟩

theorem OwnedBy.openLibrary (hb : b.OwnedBy owner) (l : Library) :
    (b.openLibrary l).OwnedBy owner := by
  have table (id : Nat) : (Value.table id).OwnedBy owner := trivial
  unfold Bridge.openLibrary
  split
  · exact ⟨hb.id, hb.heap.setGlobal _ (table _)⟩
  · exact ⟨(hb.makeLibrary l).id, (hb.makeLibrary l).heap.setGlobal _ (table _)⟩

theorem OwnedBy.openLibraries (hb : b.OwnedBy owner) (ls : List Library) :
    (ls.foldl Bridge.openLibrary b).OwnedBy owner := by
  induction ls generalizing b with
  | nil => exact hb
  | cons l rest ih => exact ih (hb.openLibrary l)

theorem OwnedBy.bindLibraries (hb : b.OwnedBy owner) {names : List String} {b' : Bridge}
    (h : b.bindLibraries names = .ok b') : b'.OwnedBy owner := by
  unfold Bridge.bindLibraries at h
  cases hl : librariesOf names with
  | error r => rw [hl] at h; cases h
  | ok ls =>
    rw [hl] at h
    cases h
    exact hb.openLibraries _

theorem ownedBy_fresh (name : String) (mode : AccessMode) (observed : Bool) :
    (fresh name owner mode observed).OwnedBy owner :=
  ⟨rfl, Heap.OwnedBy.initial.openBase⟩

theorem OwnedBy.openConstructors (hb : b.OwnedBy owner) : b.openConstructors.OwnedBy owner := by
  obtain ⟨rfl, heap⟩ := hb
  have defined (h : Heap) (s : Structured) (hh : h.OwnedBy b.id) :
      (h.defineGlobal b.id s.name (.constructor s)).OwnedBy b.id :=
    hh.defineGlobal _ (Function.ownedBy_of_isClosure rfl)
  unfold Bridge.openConstructors
  exact ⟨rfl, Heap.OwnedBy.foldl _ defined heap⟩

theorem ownedBy_furnished (name : String) (s : Settings) (observed : Bool) :
    (furnished name owner s observed).OwnedBy owner := by
  have base : (fresh name owner s.mode observed).OwnedBy owner := ownedBy_fresh name s.mode observed
  unfold furnished
  dsimp only
  split
  · split
    · exact (base.openLibraries _).openConstructors
    · exact base.openConstructors
  · split
    · exact base.openLibraries _
    · exact base

theorem ownedBy_of_openWith {name : String} {s : Settings} {observed : Bool}
    (h : openWith name owner s observed = .ok b) : b.OwnedBy owner := by
  unfold openWith at h
  cases hb : (furnished name owner s observed).bindLibraries s.libraries with
  | error r => rw [hb] at h; cases h
  | ok bound =>
    have own := (ownedBy_furnished name s observed).bindLibraries hb
    rw [hb] at h
    by_cases he : s.hook.isEmpty = true
    · simp only [bind, Except.bind, he, if_true, pure, Except.pure] at h
      cases h
      exact own
    · cases hk : hookOf s.hook s.interval none true with
      | error r => simp [bind, Except.bind, he, hk] at h
      | ok hook =>
        simp only [bind, Except.bind, he, hk, pure, Except.pure] at h
        cases h
        exact ⟨own.id, own.heap⟩

end Bridge

/-! ### Requests -/

/-- The heap belongs to the interpreter at the end. -/
def Outcome.StaysIn (owner : Nat) : Outcome α → Prop
  | .ok _ w | .raised _ w => w.OwnedBy owner
  | .exhausted => True

/-- Started in the interpreter, the action ends in it, whatever it does to the bridge. -/
def Act.Stays (owner : Nat) (x : Act α) : Prop := ∀ w : World, w.OwnedBy owner → (x w).StaysIn owner

namespace Act

theorem Keeps.stays {post : α → Prop} {x : Act α} (hx : Keeps owner post x) : Stays owner x := by
  intro w hw
  have hx := hx w hw
  cases h : x w with
  | exhausted => trivial
  | ok a w' => rw [h] at hx; exact hx.1
  | raised e w' => rw [h] at hx; exact hx.1

namespace Stays

theorem pure (a : α) : Stays owner (Pure.pure a) := fun _ hw => hw

theorem bind {x : Act α} {f : α → Act β} (hx : Stays owner x) (hf : ∀ a, Stays owner (f a)) :
    Stays owner (x >>= f) := by
  intro w hw
  have first := hx w hw
  show (Act.bind x f w).StaysIn owner
  unfold Act.bind
  cases h : x w with
  | exhausted => trivial
  | raised e w' => rwa [h] at first
  | ok a w' =>
    rw [h] at first
    exact hf a w' first

theorem map {x : Act α} (hx : Stays owner x) (f : α → β) : Stays owner (f <$> x) :=
  hx.bind fun _ => pure _

theorem record (e : Event) : Stays owner (Act.record e) := fun _ hw => ⟨hw.id, hw.heap⟩

end Stays

end Act

namespace Request

open Act (Keeps Stays)

theorem keeps_reentry : reentry.Keeps owner := .full

theorem stays_report {x : Act (Except ScriptError α)} (hx : Stays owner x) :
    Stays owner (report x) := by
  refine hx.bind fun result => ?_
  split
  · exact .pure _
  · refine .bind Keeps.bridge.stays fun b => ?_
    dsimp only
    split
    · exact .bind (.record _) fun _ => .pure _
    · exact .pure _

theorem keeps_runChunk (name : String) (body : Block) :
    Keeps owner (fun _ => True) (runChunk name body) :=
  .ite (.bind (keeps_reentry.guard (Reentry.Keeps.runPrototype _ name)) fun _ _ => .pure trivial)
    (.pure trivial)

theorem stays_exec (name : String) (body : Block) : Stays owner (exec name body) :=
  stays_report (keeps_runChunk name body).stays

theorem stays_execFile (name : String) (file : Option Block) :
    Stays owner (execFile name file) := by
  refine stays_report ?_
  split
  · exact (keeps_runChunk name _).stays
  · exact .pure _

theorem stays_eval (name : String) (e : Expr) : Stays owner (eval name e) := by
  refine stays_report ?_
  split
  · refine .bind (keeps_reentry.guard (Reentry.Keeps.runPrototype _ name)).stays fun result => ?_
    split
    · exact .bind (Keeps.decode _).stays fun _ => .pure _
    · exact .pure _
  · exact .pure _

theorem stays_call (name : String) (args : List Variant) : Stays owner (call name args) :=
  stays_report (keeps_reentry.callGlobal _ _ _).stays

theorem stays_change {f : Bridge → Except Refusal Bridge}
    (hf : ∀ b b', b.OwnedBy owner → f b = .ok b' → b'.OwnedBy owner) : Stays owner (change f) := by
  intro w hw
  rw [change, Act.bind_of_ok (Act.bridge_eq _)]
  cases hb : f w.bridge with
  | error r => exact hw
  | ok b =>
    have own := hf _ _ ⟨hw.id, hw.heap⟩ hb
    exact ⟨own.id, own.heap⟩

theorem keeps_openLibrary (l : Library) : Keeps owner (fun _ => True) (openLibrary l) := by
  have table (id : Nat) : (Value.table id).OwnedBy owner := trivial
  have make : Keeps owner (fun _ => True) (Act.onBridge (·.makeLibrary l)) :=
    fun w hw =>
      have own := Bridge.OwnedBy.makeLibrary ⟨hw.id, hw.heap⟩ l
      ⟨⟨own.id, own.heap⟩, ⟨.refl _, rfl, rfl, rfl, rfl, rfl⟩, trivial⟩
  refine Act.keeps_outside _ (.bind .bridge fun b _ => ?_)
  dsimp only
  split
  · have found (id : Nat) : Keeps owner (fun _ => True) (pure id : Act Nat) := .pure trivial
    exact .bind (found _) fun id _ => keeps_reentry.inside.setGlobal _ (table id)
  · exact .bind (Act.keeps_outside _ make) fun id _ => keeps_reentry.inside.setGlobal _ (table id)

theorem keeps_openLibraries (ls : List Library) :
    Keeps owner (fun _ => True) (openLibraries ls) := by
  induction ls with
  | nil => exact .pure trivial
  | cons l rest ih =>
    refine .bind (keeps_reentry.guard (keeps_openLibrary l)) fun result _ => ?_
    split
    · exact ih
    · exact .pure trivial

theorem keeps_closePackage : Keeps owner (fun _ => True) closePackage := by
  have package : Keeps owner (fun _ => True) (do
      let package ← reentry.onGlobals (·.global Library.package.name)
      Act.outside none (pure package)) :=
    .bind (keeps_reentry.onGlobals fun _ hr => hr.global _) fun _ _ => Act.keeps_outside _ (.pure trivial)
  refine .bind (keeps_reentry.guard package) fun closed _ => ?_
  split
  · exact .pure trivial
  · exact .exhausted

theorem keeps_bindLibraries (names : List String) :
    Keeps owner (fun _ => True) (bindLibraries names) := by
  unfold bindLibraries
  split
  · exact .pure trivial
  · refine .bind .bridge fun b _ => .bind (keeps_openLibraries _) fun result _ => ?_
    exact .ite (.bind keeps_closePackage fun _ _ => .pure trivial) (.pure trivial)

theorem stays_installHook (mask : Mask) (interval : Nat) (failAt? : Option Nat) (quiet : Bool) :
    Stays owner (installHook mask interval failAt? quiet) := by
  refine stays_change fun b b' hb h => ?_
  cases hk : Bridge.hookOf mask interval failAt? quiet with
  | error r => rw [hk] at h; cases h
  | ok hook =>
    rw [hk] at h
    cases h
    exact ⟨hb.id, hb.heap⟩

theorem stays_removeHook : Stays owner removeHook := (Keeps.setHook none).stays

theorem stays_setMode (mode : AccessMode) : Stays owner (setMode mode) :=
  fun _ hw => ⟨hw.id, hw.heap⟩

theorem keeps_expose (name : String) (factory : ObjectId) :
    Keeps owner (fun _ => True) (expose name factory) := by
  refine .bind .host fun host _ => .ite ?_ (.pure trivial)
  refine .bind (.newFunction (Function.ownedBy_of_isClosure rfl)) fun f hf => ?_
  exact (keeps_reentry.guard (keeps_reentry.onGlobals fun _ hr => hr.setGlobal name hf)).weaken
    fun _ _ => trivial

end Request

/-! ### Collections -/

namespace Heap.OwnedBy

variable {h : Heap}

theorem loseValues (hh : h.OwnedBy owner) (tables inUse : List Value) :
    (h.loseValues tables inUse).OwnedBy owner := by
  refine foldl _ (fun h v hh => ?_) hh
  split
  · split
    · exact hh.sift _ _
    · exact hh
  · exact hh

theorem loseKeys (hh : h.OwnedBy owner) (tables inUse : List Value) :
    (h.loseKeys tables inUse).OwnedBy owner := by
  refine foldl _ (fun h v hh => ?_) hh
  split
  · split
    · exact hh.sift _ _
    · exact hh
  · exact hh

theorem condemn (hh : h.OwnedBy owner) (inUse all : List Value) :
    (h.condemn inUse all).OwnedBy owner := by
  have left := ((hh.loseValues inUse inUse).loseValues (all.filter (!inUse.contains ·)) all).loseKeys
    all all
  exact ⟨left.table, left.functions, left.threads⟩

theorem condemnAll (hh : h.OwnedBy owner) : h.condemnAll.OwnedBy owner :=
  ⟨hh.table, hh.functions, hh.threads⟩

end Heap.OwnedBy

namespace Collector

open Act (Keeps)

theorem keeps_takeNext : Keeps owner (fun _ => True) takeNext := by
  refine .bind .heap fun h _ => .bind (.modifyHeap fun _ hh => hh.takeDoomed) fun _ _ => ?_
  split
  · exact .bind (.modifyHost fun h => .update h _ _) fun _ _ => .pure trivial
  · exact .pure trivial

theorem keeps_finalizeObject (o : ObjectId) : Keeps owner (fun _ => True) (finalizeObject o) := by
  refine .bind (Request.keeps_reentry.override? _ _ _ _) fun result _ => ?_
  split
  · exact .modifyHost fun h => .update h _ _
  · exact .pure trivial

theorem keeps_finalizeTable (id : Nat) : Keeps owner (fun _ => True) (finalizeTable id) := by
  have table : (Value.table id).OwnedBy owner := trivial
  refine .bind .heap fun h hh => ?_
  have own := hh.metaField (.table id) Metamethod.gc.name
  split
  · exact .pure trivial
  · refine .bind .bridge fun b _ => .bind (.setHook _) fun _ _ => ?_
    refine .bind (Request.keeps_reentry.call own (.cons table .nil)).attempt fun _ _ => ?_
    exact .setHook _

theorem keeps_finalize (next? : Option (Value × Option Variant)) :
    Keeps owner (fun _ => True) (finalize next?) := by
  unfold finalize
  split
  · exact keeps_finalizeObject _
  · exact keeps_finalizeTable _
  · exact .pure trivial

theorem keeps_finalizeNext : Keeps owner (fun _ => True) finalizeNext :=
  .bind keeps_takeNext fun next? _ => keeps_finalize next?

theorem keeps_finalizeMany (n : Nat) : Keeps owner (fun _ => True) (finalizeMany n) := by
  induction n with
  | zero => exact .pure trivial
  | succ n ih => exact .bind keeps_finalizeNext fun _ _ => ih

theorem keeps_finalizeDoomed : Keeps owner (fun _ => True) finalizeDoomed :=
  .bind .heap fun _ _ => keeps_finalizeMany _

theorem keeps_condemn (held : List Reference) (spared : List Value) :
    Keeps owner (fun _ => True) (condemn held spared) :=
  .bind .bridge fun _ _ => .bind .host fun _ _ => .modifyHeap fun _ hh => hh.condemn _ _

theorem keeps_cycle (held : List Reference) : Keeps owner (fun _ => True) (cycle held) :=
  .bind keeps_finalizeDoomed fun _ _ => .bind (keeps_condemn held []) fun _ _ =>
    keeps_finalizeDoomed

theorem keeps_collectOnce (held : List Reference) :
    Keeps owner (fun _ => True) (collectOnce held) :=
  (Request.keeps_reentry.guard (Act.keeps_outside _ (keeps_cycle held))).weaken fun _ _ => trivial

theorem keeps_collect (held : List Reference) : Keeps owner (fun _ => True) (collect held) := by
  refine .bind (keeps_collectOnce held) fun result _ => ?_
  split
  · exact keeps_collectOnce held
  · exact .pure trivial

theorem keeps_shutDown (held : List Reference) : Keeps owner (fun _ => True) (shutDown held) :=
  .bind (keeps_collectOnce held) fun _ _ => .bind (.modifyHeap fun _ hh => hh.condemnAll) fun _ _ =>
    keeps_finalizeDoomed

end Collector

end ScriptHost
