import ScriptHost.Machine.World

/-! Local actions: all they see of the world is the heap and whose it is, and all they change
is the heap. Where two worlds have that in common, a local action comes to the same in both. -/

namespace ScriptHost

variable {α β : Type}

/-- The world with another heap. -/
def World.withHeap (w : World) (h : Heap) : World :=
  { w with bridge := { w.bridge with heap := h } }

/-- The end of an action in a given world, with a value or an error. -/
def Outcome.of : Except Value α → World → Outcome α
  | .ok a, w => .ok a w
  | .error e, w => .raised e w

namespace Act

/-- How `x` ends, and the heap that it leaves, are settled by the heap and its owner. -/
def Local (x : Act α) : Prop :=
  ∀ w : World, ∃ (result : Except Value α) (h : Heap), ∀ w' : World,
    w'.bridge.id = w.bridge.id → w'.bridge.heap = w.bridge.heap →
    x w' = .of result (w'.withHeap h)

theorem attempt_of_ok {x : Act α} {a : α} {w w' : World} (hx : x w = .ok a w') :
    x.attempt w = .ok (.ok a) w' := by
  rw [attempt, hx]

theorem map_of_ok {x : Act α} {a : α} {w w' : World} (hx : x w = .ok a w') (f : α → β) :
    (f <$> x) w = .ok (f a) w' := by
  rw [map_eq_pure_bind, bind_of_ok hx]
  rfl

theorem bind_of_raised {x : Act α} {f : α → Act β} {e : Value} {w w' : World}
    (hx : x w = .raised e w') : (x >>= f) w = .raised e w' := by
  show Act.bind x f w = .raised e w'
  rw [Act.bind, hx]

theorem bind_of_exhausted {x : Act α} {f : α → Act β} {w : World} (hx : x w = .exhausted) :
    (x >>= f) w = .exhausted := by
  show Act.bind x f w = .exhausted
  rw [Act.bind, hx]

theorem bind_congr_left {x y : Act α} {f : α → Act β} {w : World} (h : x w = y w) :
    (x >>= f) w = (y >>= f) w := by
  show Act.bind x f w = Act.bind y f w
  rw [Act.bind, Act.bind, h]

/-! ### Single steps -/

theorem host_eq (w : World) : host w = .ok w.host w := rfl

theorem bridge_eq (w : World) : bridge w = .ok w.bridge w := rfl

theorem heap_eq (w : World) : heap w = .ok w.bridge.heap w := rfl

theorem record_eq (e : Event) (w : World) :
    record e w = .ok () { w with host := w.host.record e } := rfl

theorem decodeAll_eq (vs : List Value) (w : World) :
    decodeAll vs w = .ok (vs.map (w.bridge.heap.decode w.bridge.id)) w := rfl

theorem decode_eq (v : Value) (w : World) :
    decode v w = .ok (w.bridge.heap.decode w.bridge.id v) w := rfl

theorem throw_eq (e : ScriptError) (w : World) : (throw e : Act α) w =
    .raised (.fault w.bridge.heap.faults (e.withTraceback traceback))
      (w.withHeap (w.bridge.heap.newFault (e.withTraceback traceback)).2) := rfl

theorem newFunction_eq (f : Function) (w : World) : newFunction f w =
    .ok (.function ⟨w.bridge.id, w.bridge.heap.functions.size⟩)
      (w.withHeap (w.bridge.heap.newFunction f).2) := rfl

theorem encode_eq (v : Variant) (w : World) : encode v w =
    .ok (w.bridge.heap.encode w.bridge.id v).1
      (w.withHeap (w.bridge.heap.encode w.bridge.id v).2) := rfl

theorem push_of_encode {v : Variant} {w : World} {x : Value} {h : Heap}
    (he : w.bridge.heap.encode w.bridge.id v = (.ok x, h)) : push v w = .ok x (w.withHeap h) := by
  have encoded : encode v w = .ok (.ok x) (w.withHeap h) := by rw [encode_eq, he]
  rw [push, bind_of_ok encoded]
  rfl

/-! ### Rules -/

namespace Local

variable {x : Act α}

theorem pure (a : α) : Local (Pure.pure a) := by
  intro w
  refine ⟨.ok a, w.bridge.heap, fun w' _ hh => ?_⟩
  rw [← hh]
  rfl

theorem raise (e : Value) : Local (Act.raise e : Act α) := by
  intro w
  refine ⟨.error e, w.bridge.heap, fun w' _ hh => ?_⟩
  rw [← hh]
  rfl

theorem bind {f : α → Act β} (hx : Local x) (hf : ∀ a, Local (f a)) : Local (x >>= f) := by
  intro w
  obtain ⟨result, h, hx⟩ := hx w
  cases result with
  | error e =>
    refine ⟨.error e, h, fun w' hi hh => ?_⟩
    exact bind_of_raised (hx w' hi hh)
  | ok a =>
    obtain ⟨result', h', hf⟩ := hf a (w.withHeap h)
    refine ⟨result', h', fun w' hi hh => ?_⟩
    rw [bind_of_ok (hx w' hi hh)]
    exact hf (w'.withHeap h) hi rfl

theorem ite {c : Prop} [Decidable c] {y : Act α} (hx : Local x) (hy : Local y) :
    Local (if c then x else y) := by
  split
  · exact hx
  · exact hy

theorem onHeap (f : Heap → α × Heap) : Local (Act.onHeap f) := by
  intro w
  refine ⟨.ok (f w.bridge.heap).1, (f w.bridge.heap).2, fun w' _ hh => ?_⟩
  rw [← hh]
  rfl

theorem modifyHeap (f : Heap → Heap) : Local (Act.modifyHeap f) := by
  intro w
  refine ⟨.ok (), f w.bridge.heap, fun w' _ hh => ?_⟩
  rw [← hh]
  rfl

theorem decode (v : Value) : Local (Act.decode v) := by
  intro w
  refine ⟨.ok (w.bridge.heap.decode w.bridge.id v), w.bridge.heap, fun w' hi hh => ?_⟩
  rw [← hh, ← hi]
  rfl

theorem encode (v : Variant) : Local (Act.encode v) := by
  intro w
  refine ⟨.ok (w.bridge.heap.encode w.bridge.id v).1, (w.bridge.heap.encode w.bridge.id v).2,
    fun w' hi hh => ?_⟩
  rw [encode_eq, hh, hi]
  rfl

theorem newFunction (f : Function) : Local (Act.newFunction f) := by
  intro w
  refine ⟨.ok (.function ⟨w.bridge.id, w.bridge.heap.functions.size⟩),
    (w.bridge.heap.newFunction f).2, fun w' hi hh => ?_⟩
  rw [newFunction_eq, hh, hi]
  rfl

theorem throw (e : ScriptError) : Local (Act.throw e : Act α) :=
  (onHeap _).bind fun v => raise v

theorem orThrow (result : Except ScriptError α) : Local (Act.orThrow result) := by
  cases result with
  | ok a => exact pure a
  | error e => exact throw e

theorem push (v : Variant) : Local (Act.push v) := (encode v).bind fun _ => orThrow _

end Local

end Act

end ScriptHost
