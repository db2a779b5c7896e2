import ScriptHost.Machine.Metatable
import ScriptHost.Proofs.Codec.Growing
import ScriptHost.Proofs.Host.Properties
import ScriptHost.Proofs.Machine.Local
import ScriptHost.Proofs.Machine.Shelf

/-! What running functions may do to the world. They make boxes, each of which awaits its
finalization, and change what is in a box, but they never empty one, nor decide on its end; and no
object counts a finalization by what they do. -/

namespace ScriptHost

/-! ### Heaps -/

namespace Heap

/-- The boxes that are to be finalized once nothing leads to them, the latest first. -/
def awaiting (h : Heap) : List Nat := h.finalizable.filterMap Value.box?

/-- Boxes may be new, which is told, and then await their finalization; none is emptied, and no
end is decided on. Functions may be new, and what runs is not touched. -/
structure Works (h g : Heap) : Prop where
  made : ∃ os : List (Option ObjectId), g.contents = h.contents ++ os.map some ∧
    g.told = h.told ++ os.map .made ∧
    g.awaiting = (List.range' h.boxes.size os.length).reverse ++ h.awaiting
  doomed : g.upkeep.doomed = h.upkeep.doomed
  frames : g.upkeep.frames = h.upkeep.frames
  functions : h.functions.toList <+: g.functions.toList

namespace Works

variable {h g k : Heap}

/-- The boxes stay as they are. -/
theorem of_contents (hc : g.contents = h.contents) (ha : g.awaiting = h.awaiting)
    (ht : g.told = h.told) (hd : g.upkeep.doomed = h.upkeep.doomed)
    (hr : g.upkeep.frames = h.upkeep.frames)
    (hf : h.functions.toList <+: g.functions.toList) : h.Works g :=
  ⟨⟨[], by simp [hc], by simp [ht], by simp [ha]⟩, hd, hr, hf⟩

theorem refl (h : Heap) : h.Works h := of_contents rfl rfl rfl rfl rfl (List.prefix_refl _)

theorem trans (hg : h.Works g) (gk : g.Works k) : h.Works k where
  made := by
    obtain ⟨os, hb, ht, ha⟩ := hg.made
    obtain ⟨ps, gb, gt, ga⟩ := gk.made
    have size : g.boxes.size = h.boxes.size + os.length := by
      simpa using congrArg List.length hb
    refine ⟨os ++ ps, by simp [gb, hb], by simp [gt, ht], ?_⟩
    rw [ga, ha, size, List.length_append, ← List.range'_append_1, List.reverse_append,
      List.append_assoc]
  doomed := gk.doomed.trans hg.doomed
  frames := gk.frames.trans hg.frames
  functions := hg.functions.trans gk.functions

/-! #### Single steps -/

theorem newTable (h : Heap) (t : Table) : h.Works (h.newTable t).2 :=
  of_contents rfl rfl rfl rfl rfl (List.prefix_refl _)

theorem setTable (h : Heap) (id : Nat) (t : Table) : h.Works (h.setTable id t) :=
  of_contents rfl rfl rfl rfl rfl (List.prefix_refl _)

theorem set (h : Heap) (id : Nat) (key : Key) (value : Value) : h.Works (h.set id key value) :=
  setTable h id _

theorem newFunction (h : Heap) (f : Function) : h.Works (h.newFunction f).2 :=
  of_contents rfl rfl rfl rfl rfl (by simp [Heap.newFunction])

theorem newThread (h : Heap) (f : Value) : h.Works (h.newThread f).2 :=
  of_contents rfl rfl rfl rfl rfl (List.prefix_refl _)

theorem newFault (h : Heap) (e : ScriptError) : h.Works (h.newFault e).2 :=
  of_contents rfl rfl rfl rfl rfl (List.prefix_refl _)

theorem awaitEnd (h : Heap) (id : Nat) : h.Works (h.awaitEnd id) := by
  unfold Heap.awaitEnd
  split
  · exact refl h
  · exact of_contents rfl rfl rfl rfl rfl (List.prefix_refl _)

theorem newBox (h : Heap) (x : Boxed) : h.Works (h.newBox x).2 :=
  ⟨⟨[x.value.object?], by simp [contents, Heap.newBox], by simp [told, Heap.newBox, Upkeep.tell],
    rfl⟩, rfl, rfl, List.prefix_refl _⟩

theorem storing : Storing Works := ⟨.refl, .trans, .newTable, .newBox⟩

/-- What is in a box stays in it. -/
theorem content? (hw : h.Works g) {id : Nat} {o? : Option ObjectId}
    (hc : h.content? id = some o?) : g.content? id = some o? := by
  obtain ⟨os, hb, -, -⟩ := hw.made
  rw [content?_eq_some_iff] at hc ⊢
  rw [hb, List.getElem?_append_left (List.getElem?_eq_some_iff.mp hc).1, hc]

end Works

end Heap

theorem Variant.object?_of_withProperty? {v value w : Variant} {name : String}
    (h : v.withProperty? name value = some w) : v.object? = none ∧ w.object? = none := by
  unfold withProperty? at h
  split at h
  · unfold withComponent? at h
    split at h <;> cases h <;> exact ⟨rfl, rfl⟩
  · unfold withVector? at h
    split at h <;> cases h <;> exact ⟨rfl, rfl⟩

theorem Variant.object?_of_set? {v key value w : Variant} (h : v.set? key value = some w) :
    w.object? = v.object? := by
  unfold set? at h
  split at h
  · obtain ⟨_, -, rfl⟩ := Option.map_eq_some_iff.mp h
    rfl
  · cases h
    rfl
  · obtain ⟨hv, hw⟩ := object?_of_withProperty? h
    rw [hv, hw]
  · cases h

theorem Boxed.value_of_set? {b c : Boxed} {key value : Variant} (h : b.set? key value = some c) :
    b.value.set? key value = some c.value := by
  unfold Boxed.set? at h
  split at h
  next hw =>
    cases h
    exact hw
  next => cases h

/-- A write leaves an object where it is. -/
theorem Heap.contents_writeBox (h : Heap) (id : Nat) (key value : Variant) :
    (h.writeBox id key value).contents = h.contents := by
  unfold writeBox
  split
  next c hc =>
    obtain ⟨b, hb, hs⟩ := Option.bind_eq_some_iff.mp hc
    have same := Variant.object?_of_set? (Boxed.value_of_set? hs)
    have here : h.contents[id]? = some (some c.value.object?) := by
      rw [← content?_eq_some_iff, content?, boxed?, hb, same]
      rfl
    obtain ⟨inside, hv⟩ := List.getElem?_eq_some_iff.mp here
    have put : ({ h with boxes := h.boxes.setIfInBounds id (some c) } : Heap).contents =
        h.contents.set id (some c.value.object?) := by
      simp [contents, List.map_set]
    rw [put, ← hv, List.set_getElem_self]
  next => rfl

theorem Heap.Works.writeBox (h : Heap) (id : Nat) (key value : Variant) :
    h.Works (h.writeBox id key value) := by
  have same := h.contents_writeBox id key value
  unfold Heap.writeBox at same ⊢
  split at same
  · exact of_contents same rfl rfl rfl rfl (List.prefix_refl _)
  · exact refl h

/-! ### Hosts -/

namespace Host

/-- Objects may be new, and no object counts another finalization. Records are kept. -/
structure Works (h g : Host) : Prop where
  log : h.log <:+ g.log
  natives : g.natives = h.natives
  known : ∀ {o x}, h.object? o = some x → ∃ y, g.object? o = some y ∧
    y.definition = x.definition ∧ y.finalized = x.finalized ∧ y.lastWill = x.lastWill
  new : ∀ {o y}, h.object? o = none → g.object? o = some y → y.finalized = 0 ∧ y.lastWill = none

namespace Works

variable {h g k : Host}

theorem of_objects (hl : h.log <:+ g.log) (hn : g.natives = h.natives)
    (ho : g.objects = h.objects) : h.Works g := by
  have same (o : ObjectId) : g.object? o = h.object? o := by rw [object?, object?, ho]
  refine ⟨hl, hn, fun {o x} hx => ⟨x, (same o).trans hx, rfl, rfl, rfl⟩, fun {o y} hx hy => ?_⟩
  rw [same, hx] at hy
  cases hy

theorem refl (h : Host) : h.Works h := of_objects (List.suffix_refl _) rfl rfl

theorem trans (hg : h.Works g) (gk : g.Works k) : h.Works k where
  log := hg.log.trans gk.log
  natives := gk.natives.trans hg.natives
  known hx := by
    obtain ⟨y, hy, hd, hf, hw⟩ := hg.known hx
    obtain ⟨z, hz, hd', hf', hw'⟩ := gk.known hy
    exact ⟨z, hz, hd'.trans hd, hf'.trans hf, hw'.trans hw⟩
  new {o z} hx hz := by
    cases hy : g.object? o with
    | none => exact gk.new hy hz
    | some y =>
      obtain ⟨hf, hw⟩ := hg.new hx hy
      obtain ⟨z', hz', -, hf', hw'⟩ := gk.known hy
      rw [hz] at hz'
      cases hz'
      exact ⟨hf'.trans hf, hw'.trans hw⟩

theorem finalized (hg : h.Works g) (o : ObjectId) :
    (g.object o).finalized = (h.object o).finalized := by
  unfold object
  cases hx : h.object? o with
  | some x =>
    obtain ⟨y, hy, -, hf, -⟩ := hg.known hx
    rw [hy]
    exact hf
  | none =>
    cases hy : g.object? o with
    | none => rfl
    | some y => exact (hg.new hx hy).1

theorem record (h : Host) (e : Event) : h.Works (h.record e) :=
  of_objects (List.suffix_cons _ _) rfl rfl

theorem update (h : Host) (o : ObjectId) {f : Instance → Instance} (hid : ∀ x, (f x).id = x.id)
    (hf : ∀ x, (f x).definition = x.definition ∧ (f x).finalized = x.finalized ∧
      (f x).lastWill = x.lastWill) : h.Works (h.update o f) := by
  have updated (o' : ObjectId) := object?_update hid h o o'
  refine ⟨List.suffix_refl _, rfl, fun {o' x} hx => ?_, fun {o' y} hx hy => ?_⟩
  · rw [updated, hx]
    split
    · exact ⟨f x, rfl, hf x⟩
    · exact ⟨x, rfl, rfl, rfl, rfl⟩
  · rw [updated, hx] at hy
    split at hy <;> cases hy

theorem add (h : Host) {x : Instance} (hf : x.finalized = 0) (hw : x.lastWill = none) :
    h.Works (h.add x) := by
  have added (o : ObjectId) : (h.add x).object? o =
      (h.object? o).or (if x.id = o then some x else none) := by
    simp [object?, Host.add, List.find?_append, List.find?_cons]
    split <;> simp_all
  refine ⟨List.suffix_refl _, rfl, fun {o y} hy => ?_, fun {o y} hn hy => ?_⟩
  · exact ⟨y, by rw [added, hy, Option.some_or], rfl, rfl, rfl⟩
  · rw [added, hn, Option.none_or] at hy
    split at hy
    · cases hy
      exact ⟨hf, hw⟩
    · cases hy

theorem write (h : Host) (o : ObjectId) (name : String) (value : Variant) :
    h.Works (h.write o name value).2 := by
  unfold Host.write
  dsimp only
  split
  · exact refl h
  · split
    next properties _ =>
      let put (x : Instance) : Instance := { x with properties := properties }
      have updated : h.Works (h.update o put) := update h o (fun _ => rfl) fun _ => ⟨rfl, rfl, rfl⟩
      exact updated.trans (record _ _)
    · exact record h _

end Works

end Host

/-! ### Worlds -/

/-- What running functions may do. -/
structure World.Works (w w' : World) : Prop where
  host : w.host.Works w'.host
  heap : w.bridge.heap.Works w'.bridge.heap
  id : w'.bridge.id = w.bridge.id

namespace World.Works

variable {w w' w'' : World}

theorem refl (w : World) : w.Works w := ⟨.refl _, .refl _, rfl⟩

theorem trans (h : w.Works w') (h' : w'.Works w'') : w.Works w'' :=
  ⟨h.host.trans h'.host, h.heap.trans h'.heap, h'.id.trans h.id⟩

end World.Works

/-- What is so at every later moment of an interpreter: a function stays what it is. -/
structure World.Later (w w' : World) : Prop where
  id : w'.bridge.id = w.bridge.id
  functions : w.bridge.heap.functions.toList <+: w'.bridge.heap.functions.toList

namespace World.Later

variable {w w' w'' : World}

theorem of_functions (hi : w'.bridge.id = w.bridge.id)
    (hf : w'.bridge.heap.functions = w.bridge.heap.functions) : w.Later w' :=
  ⟨hi, hf ▸ List.prefix_refl _⟩

theorem refl (w : World) : w.Later w := of_functions rfl rfl

theorem trans (h : w.Later w') (h' : w'.Later w'') : w.Later w'' :=
  ⟨h'.id.trans h.id, h.functions.trans h'.functions⟩

theorem function? (h : w.Later w') {i : Nat} {f : Function}
    (hf : w.bridge.heap.functions[i]? = some f) : w'.bridge.heap.functions[i]? = some f := by
  rw [← Array.getElem?_toList] at hf ⊢
  obtain ⟨later, hl⟩ := h.functions
  rw [← hl, List.getElem?_append_left (List.getElem?_eq_some_iff.mp hf).1]
  exact hf

end World.Later

theorem World.Works.later {w w' : World} (h : w.Works w') : w.Later w' :=
  ⟨h.id, h.heap.functions⟩

end ScriptHost
