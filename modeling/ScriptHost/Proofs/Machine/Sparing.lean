import ScriptHost.Proofs.Codec.Growing
import ScriptHost.Proofs.Machine.Local

/-! What stays in a heap while one of its boxes is dealt with: all other boxes keep what they
hold, and functions stay where they are. -/

namespace ScriptHost

variable {α : Type} {b : Nat}

namespace Heap

/-- All boxes of `h` but `b` hold the same in `g`, and its functions are there as well. -/
structure Spares (b : Nat) (h g : Heap) : Prop where
  boxes : h.boxes.size ≤ g.boxes.size
  functions : h.functions.size ≤ g.functions.size
  box? : ∀ c < h.boxes.size, c ≠ b → g.box? c = h.box? c
  function? : ∀ a < h.functions.size, g.functions[a]? = h.functions[a]?

namespace Spares

variable {h g k : Heap}

theorem refl (h : Heap) : h.Spares b h :=
  ⟨Nat.le_refl _, Nat.le_refl _, fun _ _ _ => rfl, fun _ _ => rfl⟩

theorem trans (hg : h.Spares b g) (gk : g.Spares b k) : h.Spares b k where
  boxes := Nat.le_trans hg.boxes gk.boxes
  functions := Nat.le_trans hg.functions gk.functions
  box? c hc hn := (gk.box? c (Nat.lt_of_lt_of_le hc hg.boxes) hn).trans (hg.box? c hc hn)
  function? a ha :=
    (gk.function? a (Nat.lt_of_lt_of_le ha hg.functions)).trans (hg.function? a ha)

theorem boxed? (hg : h.Spares b g) {c : Nat} (hc : c < h.boxes.size) (hn : c ≠ b) :
    g.boxed? c = h.boxed? c :=
  congrArg (Option.map Boxed.value) (hg.box? c hc hn)

theorem newFault (h : Heap) (e : ScriptError) : h.Spares b (h.newFault e).2 :=
  ⟨Nat.le_refl _, Nat.le_refl _, fun _ _ _ => rfl, fun _ _ => rfl⟩

theorem newFunction (h : Heap) (f : Function) : h.Spares b (h.newFunction f).2 := by
  have size : h.functions.size ≤ (h.functions.push f).size := by simp
  refine ⟨Nat.le_refl _, size, fun _ _ _ => rfl, fun a ha => ?_⟩
  simp [Heap.newFunction, Array.getElem?_push, Nat.ne_of_lt ha]

theorem writeBox (h : Heap) (b : Nat) (key value : Variant) :
    h.Spares b (h.writeBox b key value) := by
  unfold Heap.writeBox
  split
  next x hx =>
    have size : h.boxes.size ≤ (h.boxes.setIfInBounds b (some x)).size := by simp
    refine ⟨size, Nat.le_refl _, fun c _ hn => ?_, fun _ _ => rfl⟩
    simp [Heap.box?, Array.getElem?_setIfInBounds_ne hn.symm]
  next => exact refl h

end Spares

theorem Grows.spares {h g : Heap} (hg : h.Grows g) (b : Nat) : h.Spares b g where
  boxes := hg.boxes
  functions := Nat.le_of_eq (congrArg Array.size hg.functions.symm)
  box? c hc _ := hg.box? c hc
  function? _ _ := by rw [hg.functions]

end Heap

end ScriptHost
