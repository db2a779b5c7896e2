import ScriptHost.Machine.Nesting
import ScriptHost.Proofs.Party.Codec
import ScriptHost.Proofs.Party.Hosts

/-! Actions that do the same in the part of the world that one side of a session sees, and leave all
that belongs to the others alone. -/

namespace ScriptHost

variable {p : Party} {α β γ : Type}

/-- What can belong to a side of a session, and how that side sees it. -/
class Sided (α : Type) where
  view : Party → α → α
  Owned : Party → α → Prop

namespace Sided

/-- What belongs to nobody. -/
@[reducible] def plain (α : Type) : Sided α := ⟨fun _ a => a, fun _ _ => True⟩

instance : Sided Unit := plain _
instance : Sided Bool := plain _
instance : Sided Nat := plain _
instance : Sided Int64 := plain _
instance : Sided String := plain _
instance : Sided ByteArray := plain _
instance : Sided AccessMode := plain _
instance : Sided Refusal := plain _
instance : Sided ScriptError := plain _
instance : Sided CallError := plain _
instance : Sided Counter := plain _

instance : Sided Value := ⟨Value.view, fun _ _ => True⟩
instance : Sided Variant := ⟨Variant.view, Variant.Owned⟩
instance : Sided Handler := ⟨Handler.view, Handler.Owned⟩
instance : Sided ObjectId := ⟨fun _ o => o, fun p o => p.object o = true⟩

instance [Sided α] : Sided (List α) := ⟨fun p => List.map (view p), fun p xs => ∀ a ∈ xs, Owned p a⟩

instance [Sided α] : Sided (Option α) where
  view p := Option.map (view p)
  Owned p x := ∀ a, x = some a → Owned p a

instance [Sided α] [Sided β] : Sided (α × β) where
  view p x := (view p x.1, view p x.2)
  Owned p x := Owned p x.1 ∧ Owned p x.2

instance [Sided α] [Sided β] : Sided (Except α β) where
  view p
    | .ok b => .ok (view p b)
    | .error a => .error (view p a)
  Owned p
    | .ok b => Owned p b
    | .error a => Owned p a

end Sided

open Sided (Owned view)

/-! ### Worlds -/

namespace Bridge

def view (p : Party) (b : Bridge) : Bridge := { b with id := p.number b.id, heap := b.heap.view p }

@[simp] theorem hook?_view (b : Bridge) : (b.view p).hook? = b.hook? := rfl

structure Owned (p : Party) (b : Bridge) : Prop where
  interpreter : p.interpreter b.id = true
  heap : b.heap.Owned p

end Bridge

namespace World

def view (p : Party) (w : World) : World := ⟨w.host.view p, w.bridge.view p⟩

structure Owned (p : Party) (w : World) : Prop where
  host : w.host.Owned p
  others : w.host.Owned p.others
  bridge : w.bridge.Owned p

/-- What a world may become on behalf of the party. -/
structure Serves (p : Party) (w w' : World) : Prop where
  owned : w'.Owned p
  spares : w.host.Spares p w'.host
  name : w'.bridge.name = w.bridge.name
  id : w'.bridge.id = w.bridge.id

namespace Serves

variable {w w' w'' : World}

theorem refl (hw : w.Owned p) : Serves p w w := ⟨hw, .refl _, rfl, rfl⟩

theorem trans (h₁ : Serves p w w') (h₂ : Serves p w' w'') : Serves p w w'' :=
  ⟨h₂.owned, h₁.spares.trans h₂.spares, h₂.name.trans h₁.name, h₂.id.trans h₁.id⟩

end Serves

end World

instance : Sided Host := ⟨Host.view, Host.Owned⟩
instance : Sided Heap := ⟨Heap.view, Heap.Owned⟩
instance : Sided Bridge := ⟨Bridge.view, Bridge.Owned⟩

/-! ### Actions -/

/-- An outcome in a world, and the one that the party sees. -/
inductive Outcome.Mirrors [Sided α] (p : Party) (w : World) : Outcome α → Outcome α → Prop
  | ok {a : α} {w' : World} (ha : Owned p a) (hw : w.Serves p w') :
    Mirrors p w (.ok a w') (.ok (view p a) (w'.view p))
  | raised {e : Value} {w' : World} (hw : w.Serves p w') :
    Mirrors p w (.raised e w') (.raised (e.view p) (w'.view p))
  | exhausted : Mirrors p w .exhausted .exhausted

/-- In what the party sees, `y` does what `x` does. -/
def Act.Mirrors [Sided α] (p : Party) (x y : Act α) : Prop :=
  ∀ w, w.Owned p → Outcome.Mirrors p w (x w) (y (w.view p))

namespace Act.Mirrors

variable [Sided α] [Sided β] [Sided γ]

theorem pure {a : α} (ha : Owned p a) : Mirrors p (Pure.pure a) (Pure.pure (view p a)) :=
  fun _ hw => .ok ha (.refl hw)

theorem pureOf {a b : α} (ha : Owned p a) (hb : b = view p a) :
    Mirrors p (Pure.pure a) (Pure.pure b) :=
  hb ▸ pure ha

theorem raise (e : Value) : Mirrors p (Act.raise e : Act α) (Act.raise (e.view p)) :=
  fun _ hw => .raised (.refl hw)

theorem exhausted : Mirrors p (Act.exhausted : Act α) Act.exhausted := fun _ _ => .exhausted

theorem bind {x y : Act α} {f g : α → Act β} (hx : Mirrors p x y)
    (hf : ∀ a, Owned p a → Mirrors p (f a) (g (view p a))) : Mirrors p (x >>= f) (y >>= g) := by
  intro w hw
  have first := hx w hw
  show Outcome.Mirrors p w (Act.bind x f w) (Act.bind y g (w.view p))
  unfold Act.bind
  generalize x w = r, y (w.view p) = s at first
  cases first with
  | exhausted => exact .exhausted
  | raised h => exact .raised h
  | @ok a w' ha h =>
    have second := hf a ha w' h.owned
    dsimp only
    generalize f a w' = r, g (view p a) (w'.view p) = s at second ⊢
    cases second with
    | exhausted => exact .exhausted
    | raised h' => exact .raised (h.trans h')
    | ok hb h' => exact .ok hb (h.trans h')

theorem ite {c : Prop} [Decidable c] {x y x' y' : Act α} (hx : Mirrors p x x')
    (hy : Mirrors p y y') : Mirrors p (if c then x else y) (if c then x' else y') := by
  split
  · exact hx
  · exact hy

/-- A test that comes out the same. -/
theorem iteOf {c c' : Prop} [Decidable c] [Decidable c'] {x y x' y' : Act α} (hc : c' ↔ c)
    (hx : Mirrors p x x') (hy : Mirrors p y y') :
    Mirrors p (if c then x else y) (if c' then x' else y') := by
  by_cases h : c
  · rw [if_pos h, if_pos (hc.mpr h)]
    exact hx
  · rw [if_neg h, if_neg (mt hc.mp h)]
    exact hy

theorem test {c c' : Bool} {x y x' y' : Act α} (hc : c' = c) (hx : Mirrors p x x')
    (hy : Mirrors p y y') : Mirrors p (if c then x else y) (if c' then x' else y') :=
  .iteOf (hc ▸ Iff.rfl) hx hy

/-- What runs whether or not something is done before it. -/
theorem doUnless {c : Prop} [Decidable c] {x x' : Act Unit} {y y' : Unit → Act α}
    (hx : Mirrors p x x') (hy : Mirrors p (y ()) (y' ())) :
    Mirrors p (if c then y () else x >>= y) (if c then y' () else x' >>= y') :=
  .ite hy (.bind hx fun _ _ => hy)

theorem attempt {x y : Act α} (hx : Mirrors p x y) : Mirrors p x.attempt y.attempt := by
  intro w hw
  have first := hx w hw
  unfold Act.attempt
  generalize x w = r, y (w.view p) = s at first
  cases first with
  | exhausted => exact .exhausted
  | @raised e w' h => exact .ok (a := Except.error e) trivial h
  | @ok a w' ha h => exact .ok (a := Except.ok a) ha h

theorem host : Mirrors p Act.host Act.host := fun _ hw => .ok hw.host (.refl hw)

theorem bridge : Mirrors p Act.bridge Act.bridge := fun _ hw => .ok hw.bridge (.refl hw)

theorem heap : Mirrors p Act.heap Act.heap := fun _ hw => .ok hw.bridge.heap (.refl hw)

theorem modifyHost {f g : Host → Host} (hview : ∀ h : Host, g (h.view p) = (f h).view p)
    (hf : ∀ h : Host, h.Owned p → (f h).Owned p ∧ h.Spares p (f h)) :
    Mirrors p (Act.modifyHost f) (Act.modifyHost g) := by
  intro w hw
  have seen : Act.modifyHost g (w.view p) =
      .ok () (World.view p { w with host := f w.host }) := by
    show Outcome.ok () (⟨g (w.host.view p), w.bridge.view p⟩ : World) = _
    rw [hview]
    rfl
  rw [seen]
  have good := hf w.host hw.host
  exact .ok trivial ⟨⟨good.1, hw.others.spared good.2, hw.bridge⟩, good.2, rfl, rfl⟩

theorem onHost {f g : Host → α × Host} (hf : ∀ h : Host, h.Owned p →
      g (h.view p) = (view p (f h).1, (f h).2.view p) ∧ Owned p (f h).1 ∧ (f h).2.Owned p ∧
        h.Spares p (f h).2) :
    Mirrors p (Act.onHost f) (Act.onHost g) := by
  intro w hw
  obtain ⟨seen, result, owned, spares⟩ := hf w.host hw.host
  have shown : Act.onHost g (w.view p) =
      .ok (view p (f w.host).1) (World.view p { w with host := (f w.host).2 }) := by
    show Outcome.ok (g (w.host.view p)).1 (⟨(g (w.host.view p)).2, w.bridge.view p⟩ : World) = _
    rw [seen]
    rfl
  rw [shown]
  exact .ok result ⟨⟨owned, hw.others.spared spares, hw.bridge⟩, spares, rfl, rfl⟩

theorem modifyBridge {f g : Bridge → Bridge} (hview : ∀ b : Bridge, g (b.view p) = (f b).view p)
    (hf : ∀ b : Bridge, b.Owned p → (f b).heap.Owned p)
    (hs : ∀ b, (f b).name = b.name ∧ (f b).id = b.id) :
    Mirrors p (Act.modifyBridge f) (Act.modifyBridge g) := by
  intro w hw
  have seen : Act.modifyBridge g (w.view p) =
      .ok () (World.view p { w with bridge := f w.bridge }) := by
    show Outcome.ok () (⟨w.host.view p, g (w.bridge.view p)⟩ : World) = _
    rw [hview]
    rfl
  rw [seen]
  have same := hs w.bridge
  exact .ok trivial
    ⟨⟨hw.host, hw.others, same.2 ▸ hw.bridge.interpreter, hf _ hw.bridge⟩, .refl _, same.1, same.2⟩

theorem modifyHeap {f g : Heap → Heap} (hview : ∀ h : Heap, g (h.view p) = (f h).view p)
    (hf : ∀ h : Heap, h.Owned p → (f h).Owned p) :
    Mirrors p (Act.modifyHeap f) (Act.modifyHeap g) :=
  .modifyBridge
    (fun b => congrArg (fun h => ({ b.view p with heap := h } : Bridge)) (hview b.heap))
    (fun _ hb => hf _ hb.heap) fun _ => ⟨rfl, rfl⟩

theorem onHeap {f g : Heap → α × Heap} (hf : ∀ h : Heap, h.Owned p →
      g (h.view p) = (view p (f h).1, (f h).2.view p) ∧ Owned p (f h).1 ∧ (f h).2.Owned p) :
    Mirrors p (Act.onHeap f) (Act.onHeap g) := by
  intro w hw
  obtain ⟨seen, result, owned⟩ := hf w.bridge.heap hw.bridge.heap
  have shown : Act.onHeap g (w.view p) = .ok (view p (f w.bridge.heap).1)
      (World.view p { w with bridge := { w.bridge with heap := (f w.bridge.heap).2 } }) := by
    show Outcome.ok (g (w.bridge.heap.view p)).1 (⟨w.host.view p,
      { w.bridge.view p with heap := (g (w.bridge.heap.view p)).2 }⟩ : World) = _
    rw [seen]
    rfl
  rw [shown]
  exact .ok result ⟨⟨hw.host, hw.others, hw.bridge.interpreter, owned⟩, .refl _, rfl, rfl⟩

theorem onBridge {f g : Bridge → α × Bridge} (hf : ∀ b : Bridge, b.Owned p →
      g (b.view p) = (view p (f b).1, (f b).2.view p) ∧ Owned p (f b).1 ∧ (f b).2.heap.Owned p)
    (hs : ∀ b, (f b).2.name = b.name ∧ (f b).2.id = b.id) :
    Mirrors p (Act.onBridge f) (Act.onBridge g) := by
  intro w hw
  obtain ⟨seen, result, owned⟩ := hf w.bridge hw.bridge
  have shown : Act.onBridge g (w.view p) = .ok (view p (f w.bridge).1)
      (World.view p { w with bridge := (f w.bridge).2 }) := by
    show Outcome.ok (g (w.bridge.view p)).1 (⟨w.host.view p, (g (w.bridge.view p)).2⟩ : World) = _
    rw [seen]
    rfl
  rw [shown]
  have same := hs w.bridge
  exact .ok result
    ⟨⟨hw.host, hw.others, same.2 ▸ hw.bridge.interpreter, owned⟩, .refl _, same.1, same.2⟩

theorem mapM {f g : α → Act β} {xs : List α} (hf : ∀ x ∈ xs, Mirrors p (f x) (g (view p x))) :
    Mirrors p (xs.mapM f) ((xs.map (view p)).mapM g) := by
  induction xs with
  | nil => exact .pure (List.forall_mem_nil _)
  | cons x rest ih =>
    rw [List.forall_mem_cons] at hf
    rw [List.map_cons, List.mapM_cons, List.mapM_cons]
    exact .bind hf.1 fun _ hy => .bind (ih hf.2) fun _ hr => .pure (List.forall_mem_cons.mpr ⟨hy, hr⟩)

/-! ### Steps -/

theorem record (e : Event) : Mirrors p (Act.record e) (Act.record (e.view p)) :=
  .modifyHost (fun _ => rfl) fun h hh => ⟨hh.record e, .record h e⟩

theorem write {o : ObjectId} (ho : p.object o = true) (name : String) {value : Variant}
    (hv : value.Owned p) :
    Mirrors p (Act.onHost (·.write o name value)) (Act.onHost (·.write o name (value.view p))) :=
  .onHost fun _ hh =>
    have written := Host.write_view hh ho name hv
    ⟨written.1, trivial, written.2⟩

theorem update {o : ObjectId} (ho : p.object o = true) {f g : Instance → Instance}
    (hf : Host.Change p f g) :
    Mirrors p (Act.modifyHost (·.update o f)) (Act.modifyHost (·.update o g)) :=
  .modifyHost (fun h => (Host.view_update hf h o).symm)
    fun h hh => ⟨hh.update hf o, .update hf.id h ho⟩

theorem throw (e : ScriptError) : Mirrors p (Act.throw e : Act α) (Act.throw e) :=
  .bind (.onHeap fun _ hh => ⟨rfl, trivial, hh.newFault _⟩) fun v _ => .raise v

theorem orThrow {x : Except ScriptError α} (hx : Owned p x) :
    Mirrors p (Act.orThrow x) (Act.orThrow (view p x)) := by
  cases x with
  | ok a => exact .pure hx
  | error e => exact .throw e

theorem newTable (t : Table) : Mirrors p (Act.newTable t) (Act.newTable (t.view p)) :=
  .bind (.onHeap fun h hh => ⟨h.newTable_view t, trivial, hh.newTable t⟩) fun _ _ => .pure trivial

theorem newFunction {f : Function} (hf : f.Owned p) :
    Mirrors p (Act.newFunction f) (Act.newFunction (f.view p)) :=
  .bind .bridge fun _ _ =>
    .bind (.onHeap fun h hh => ⟨h.newFunction_view f, trivial, hh.newFunction hf⟩)
      fun _ _ => .pure trivial

/-- What storing comes to. -/
theorem stores {f g : Heap → Except Refusal α × Heap} (ha : ∀ a : α, Owned p a)
    (hf : ∀ h : Heap, Heap.Encodes p (view p) h (f h) (g (h.view p))) :
    Mirrors p (Act.onHeap f) (Act.onHeap g) := by
  refine .onHeap fun h hh => ?_
  have stores := hf h
  generalize f h = r, g (h.view p) = s at stores
  cases stores with
  | refused owned => exact ⟨rfl, trivial, owned hh⟩
  | stored owned => exact ⟨rfl, ha _, owned hh⟩

theorem encode {v : Variant} (hv : v.Owned p) : Mirrors p (Act.encode v) (Act.encode (v.view p)) :=
  .bind .bridge fun _ _ => .stores (fun _ => trivial) (Heap.encode_view v hv)

theorem encodeAll {vs : List Variant} (hv : ∀ v ∈ vs, v.Owned p) :
    Mirrors p (Act.encodeAll vs) (Act.encodeAll (vs.map (Variant.view p))) :=
  .bind .bridge fun _ _ => .stores (fun _ _ _ => trivial) (Heap.encodeAll_view hv)

theorem push {v : Variant} (hv : v.Owned p) : Mirrors p (Act.push v) (Act.push (v.view p)) := by
  refine .bind (.encode hv) fun result _ => ?_
  cases result with
  | ok value => exact .orThrow (x := .ok value) trivial
  | error refusal => exact .throw _

theorem decode (v : Value) : Mirrors p (Act.decode v) (Act.decode (v.view p)) :=
  .bind .bridge fun b hb =>
    .pureOf (hb.heap.decode hb.interpreter v) (Heap.decode_view b.heap v)

theorem decodeAll (vs : List Value) :
    Mirrors p (Act.decodeAll vs) (Act.decodeAll (vs.map (Value.view p))) := by
  refine .bind .bridge fun b hb => .pureOf ?_ ?_
  · intro x hx
    obtain ⟨v, -, rfl⟩ := List.mem_map.mp hx
    exact hb.heap.decode hb.interpreter v
  · show (vs.map (Value.view p)).map _ = (vs.map _).map (Variant.view p)
    rw [List.map_map, List.map_map]
    exact List.map_congr_left fun v _ => Heap.decode_view b.heap v

/-! ### Hooks -/

theorem setHook (hook? : Option Hook) :
    Mirrors p (Act.modifyBridge fun b => { b with hook? := hook? })
      (Act.modifyBridge fun b => { b with hook? := hook? }) :=
  .modifyBridge (fun _ => rfl) (fun _ hb => hb.heap) fun _ => ⟨rfl, rfl⟩

theorem fire (e : HookEvent) : Mirrors p (Act.fire e) (Act.fire e) := by
  refine .bind .bridge fun b _ => ?_
  dsimp only [Sided.view]
  rw [Bridge.hook?_view]
  cases b.hook? with
  | none => exact .pure trivial
  | some hook =>
    refine .ite (.bind (.setHook _) fun _ _ => .doUnless (.record (.hook e)) ?_) (.pure trivial)
    split
    · exact .throw _
    · exact .pure trivial

theorem note (callee? : Option String) : Mirrors p (Act.note callee?) (Act.note callee?) := by
  refine .bind .bridge fun b _ => ?_
  dsimp only [Sided.view]
  rw [Bridge.hook?_view]
  cases b.hook? with
  | none => exact .pure trivial
  | some hook => exact .setHook _

theorem cross (e : HookEvent) : Mirrors p (Act.cross e) (Act.cross e) :=
  .bind (.note none) fun _ _ => .fire e

theorem tick (chunk : String) (line : Nat) : Mirrors p (Act.tick chunk line) (Act.tick chunk line) := by
  refine .bind .bridge fun b _ => ?_
  dsimp only [Sided.view]
  rw [Bridge.hook?_view]
  cases b.hook? with
  | none => exact .pure trivial
  | some hook =>
    exact .ite (.ite (.bind (.setHook _) fun _ _ => .fire _) (.setHook _)) (.pure trivial)

theorem reach (chunk : String) (line : Nat) (new : Bool) :
    Mirrors p (Act.reach chunk line new) (Act.reach chunk line new) := by
  refine .bind .bridge fun b _ => ?_
  dsimp only [Sided.view]
  rw [Bridge.hook?_view]
  cases b.hook? with
  | none => exact .pure trivial
  | some hook => exact .bind (.tick chunk line) fun _ _ => .ite (.fire _) (.pure trivial)

theorem outside {x y : Act α} (name : Option String) (hx : Mirrors p x y) :
    Mirrors p (Act.outside name x) (Act.outside name y) :=
  .bind (.cross _) fun _ _ => .bind hx fun _ ha => .bind (.cross _) fun _ _ => .pure ha

theorem handling {x y : Act α} (hx : Mirrors p x y) :
    Mirrors p (Act.handling x) (Act.handling y) := by
  refine .bind .bridge fun b _ => ?_
  dsimp only [Sided.view]
  rw [Bridge.hook?_view]
  cases b.hook? with
  | none => exact hx
  | some hook => exact .ite (.bind (.note none) fun _ _ => hx) (.outside _ hx)

end Act.Mirrors

end ScriptHost
