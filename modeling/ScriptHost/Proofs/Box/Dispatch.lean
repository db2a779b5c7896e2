import ScriptHost.Machine.Nesting
import ScriptHost.Proofs.Machine.Observing

/-! From an operation of a script to the code that answers it for a box. Reading a box,
writing it and calling what was fetched from it are each one call of a host function. -/

namespace ScriptHost

variable {α β : Type} {b : Nat} {v : Variant} {key value : Value} {w : World}

namespace Heap

variable {h : Heap}

theorem handler?_box (hv : h.boxed? b = some v) (op : Metamethod) :
    h.handler? op (.box b) = if v.answers op then some (.box v) else none := by
  dsimp only [handler?]
  rw [hv]

theorem decode_box (owner : Nat) (hv : h.boxed? b = some v) :
    h.decode owner (.box b) = v := by
  have shallow : h.decodeTo false owner depthLimit (.box b) = .ok v := by
    unfold decodeTo
    simp only [hv]
  rw [decode, shallow]

theorem lt_of_boxed? (hv : h.boxed? b = some v) : b < h.boxes.size := by
  by_cases hb : b < h.boxes.size
  · exact hb
  · have none : h.boxed? b = none := by
      simp [boxed?, box?, Array.getElem?_eq_none (Nat.le_of_not_lt hb)]
    rw [none] at hv
    cases hv

end Heap

namespace Reentry

variable (r : Reentry)

/-! ### Reading and writing -/

theorem index_of_handler {h : Handler} (hh : w.bridge.heap.handler? .index (.box b) = some h)
    (hn : ∀ x, h ≠ .value x) (of? : Option Origin) :
    r.index (.box b) key of? w = r.handle .index h [.box b, key] w := by
  rw [index, Act.bind_of_ok (Act.heap_eq _)]
  show r.indexFrom key (chainLimit - 1 + 1) (.box b) of? w = _
  rw [indexFrom, Act.bind_of_ok (Act.heap_eq _), hh]
  cases h with
  | value x => exact absurd rfl (hn x)
  | _ => rfl

theorem index_of_no_handler (hh : w.bridge.heap.handler? .index (.box b) = none)
    (of? : Option Origin) : r.index (.box b) key of? w =
      r.failOperand (.index (w.bridge.heap.typeName (.box b))) of? w := by
  rw [index, Act.bind_of_ok (Act.heap_eq _)]
  show r.indexFrom key (chainLimit - 1 + 1) (.box b) of? w = _
  rw [indexFrom, Act.bind_of_ok (Act.heap_eq _), hh]

theorem setIndex_of_handler {h : Handler}
    (hh : w.bridge.heap.handler? .newIndex (.box b) = some h) (hn : ∀ x, h ≠ .value x)
    (of? : Option Origin) : r.setIndex (.box b) key value of? w =
      ((fun _ => ()) <$> r.handle .newIndex h [.box b, key, value]) w := by
  rw [setIndex, Act.bind_of_ok (Act.heap_eq _)]
  show r.setIndexFrom key value (chainLimit - 1 + 1) (.box b) of? w = _
  rw [setIndexFrom, Act.bind_of_ok (Act.heap_eq _), hh]
  cases h with
  | value x => exact absurd rfl (hn x)
  | _ => rfl

theorem setIndex_of_no_handler (hh : w.bridge.heap.handler? .newIndex (.box b) = none)
    (of? : Option Origin) : r.setIndex (.box b) key value of? w =
      r.failOperand (.index (w.bridge.heap.typeName (.box b))) of? w := by
  rw [setIndex, Act.bind_of_ok (Act.heap_eq _)]
  show r.setIndexFrom key value (chainLimit - 1 + 1) (.box b) of? w = _
  rw [setIndexFrom, Act.bind_of_ok (Act.heap_eq _), hh]

theorem index_box (hv : w.bridge.heap.boxed? b = some v) (ha : v.answers .index = true)
    (of? : Option Origin) :
    r.index (.box b) key of? w = (r.outside fun r => r.handleBox .index v [.box b, key]) w := by
  have handler : w.bridge.heap.handler? .index (.box b) = some (.box v) := by
    rw [Heap.handler?_box hv, if_pos ha]
  exact r.index_of_handler handler (by simp) of?

theorem setIndex_box (hv : w.bridge.heap.boxed? b = some v) (ha : v.answers .newIndex = true)
    (of? : Option Origin) : r.setIndex (.box b) key value of? w =
      ((fun _ => ()) <$> r.outside fun r => r.handleBox .newIndex v [.box b, key, value]) w := by
  have handler : w.bridge.heap.handler? .newIndex (.box b) = some (.box v) := by
    rw [Heap.handler?_box hv, if_pos ha]
  exact r.setIndex_of_handler handler (by simp) of?

/-! ### Objects -/

variable {o : ObjectId}

theorem index_object (hv : w.bridge.heap.boxed? b = some (.object o)) (of? : Option Origin) :
    r.index (.box b) key of? w = (r.outside fun r => Box.readObject r b o key) w :=
  r.index_box hv rfl of?

theorem setIndex_object (hv : w.bridge.heap.boxed? b = some (.object o)) (of? : Option Origin) :
    r.setIndex (.box b) key value of? w =
      (r.outside fun r => Box.writeObject r o key value) w := by
  rw [r.setIndex_box hv rfl, outside, Act.map_outside, outside]
  have discard : (fun _ => ()) <$> r.inside.handleBox .newIndex (.object o) [.box b, key, value] =
      Box.writeObject r.inside o key value := by
    simp only [handleBox, map_eq_pure_bind, bind_assoc, pure_bind]
    exact bind_pure _
  rw [discard]

variable {op : Metamethod}

theorem override?_of_none (hd : (w.host.definition o).override? op = none) (ctx : Context)
    (args : List Variant) : r.override? ctx o op args w = .ok none w := by
  rw [override?, Act.bind_of_ok (Act.host_eq _), hd]
  rfl

theorem override?_of_some {b : Behaviour} (hd : (w.host.definition o).override? op = some b)
    (hop : op ≠ .gc) (ctx : Context) (args : List Variant)
    (next : Option (Except CallError Variant) → Act α) :
    (r.override? ctx o op args >>= next) w = (do
      Act.record (.override o op args)
      next (some (← r.perform r.site ctx (some o) b args)) : Act α) w := by
  have asked : r.override? ctx o op args w = (do
      Act.record (.override o op args)
      return some (← r.perform r.site ctx (some o) b args) : Act _) w := by
    rw [override?, Act.bind_of_ok (Act.host_eq _), hd]
    dsimp only
    rw [if_neg hop]
  rw [Act.bind_congr_left asked]
  simp only [bind_assoc, pure_bind]

end Reentry

namespace Box

variable {o : ObjectId}

theorem readObject_of_none (r : Reentry) (b : Nat)
    (hd : (w.host.definition o).override? .index = none) : readObject r b o key w =
      readField b o (w.bridge.heap.decode w.bridge.id key) w := by
  rw [readObject, Act.bind_of_ok (Act.decode_eq key w),
    Act.bind_of_ok (r.override?_of_none hd _ _)]

theorem writeObject_of_none (r : Reentry)
    (hd : (w.host.definition o).override? .newIndex = none) : writeObject r o key value w =
      writeField o (w.bridge.heap.decode w.bridge.id key) (w.bridge.heap.decode w.bridge.id value)
        w := by
  rw [writeObject, Act.bind_of_ok (Act.decode_eq key w), Act.bind_of_ok (Act.decode_eq value w),
    Act.bind_of_ok (r.override?_of_none hd _ _)]

theorem readField_string (b : Nat) (o : ObjectId) (name : String) (w : World) :
    readField b o (.string name) w =
      (if !w.bridge.mode.allows (w.host.definition o).fields name then pure .nil
      else if w.host.hasMethod o name then Act.newFunction (.method b name)
      else Act.push (Variant.ofOption (w.host.property? o name))) w := by
  rw [readField]
  dsimp only
  rw [Act.bind_of_ok (Act.host_eq _), Act.bind_of_ok (Act.bridge_eq _)]

theorem writeField_string (o : ObjectId) (name : String) (v : Variant) (w : World) :
    writeField o (.string name) v w =
      if w.bridge.mode.allows (w.host.definition o).fields name then
        .ok () { w with host := (w.host.write o name v).2 }
      else .ok () w := by
  rw [writeField]
  dsimp only
  rw [Act.bind_of_ok (Act.bridge_eq _), Act.bind_of_ok (Act.host_eq _)]
  split <;> rfl

end Box

/-! ### Other values -/

namespace Box

theorem readTyped_of_not_object (hv : v.object? = none) : readTyped b v key = (do
    match ← Act.decode key with
    | .string name =>
      if v.kind.methods.contains name then Act.newFunction (.method b name)
      else Act.push (v.get (.string name))
    | key => Act.push (v.get key)) := by
  have plain (h : Host) (k : Variant) : h.get v k = v.get k := by
    cases v <;> first | rfl | cases hv
  have methods (h : Host) (name : String) :
      h.valueHasMethod v name = v.kind.methods.contains name := by
    cases v <;> first | rfl | cases hv
  unfold readTyped
  refine bind_congr fun k => ?_
  funext w
  rw [Act.bind_of_ok (Act.host_eq _)]
  cases k with
  | string name =>
    dsimp only
    rw [methods, plain]
  | _ =>
    dsimp only
    rw [plain]

theorem writeTyped_eq (b : Nat) (key value : Value) (w : World) : writeTyped b key value w =
    Act.modifyHeap (·.writeBox b (w.bridge.heap.decode w.bridge.id key)
      (w.bridge.heap.decode w.bridge.id value)) w := by
  rw [writeTyped, Act.bind_of_ok (Act.decode_eq key w), Act.bind_of_ok (Act.decode_eq value w)]

end Box

/-! ### Calls -/

namespace Reentry

variable (r : Reentry)

theorem target_outside {f : ScriptFunction} {g : Function}
    (hf : w.bridge.heap.functions[f.address]? = some g) (hg : ∀ p c n, g ≠ .closure p c n)
    (args : List Value) :
    r.target (.function f) args w = .ok (.outside g, args) w := by
  have found : w.bridge.heap.target stackLimit (.function f) args = .ok (.outside g, args) := by
    show w.bridge.heap.target (stackLimit - 1 + 1) (.function f) args = _
    rw [Heap.target, hf]
    cases g with
    | closure p c n => exact absurd rfl (hg p c n)
    | _ => rfl
  rw [target, Act.bind_of_ok (Act.heap_eq _), found]
  rfl

theorem applyValue_outside (beyond : Site → Reentry) (site : Site) {f : ScriptFunction}
    {g : Function} (hf : w.bridge.heap.functions[f.address]? = some g)
    (hg : ∀ p c n, g ≠ .closure p c n) (args : List Value) :
    applyValue beyond site (.function f) args w =
      ((beyond site).outside fun r => r.runOutside g args) w := by
  rw [applyValue, Act.bind_of_ok ((beyond site).target_outside hf hg args)]

end Reentry

/-- What is done for a target that is no function of a script. -/
inductive Target.Runs (args : List Value) : Target → (Reentry → Act (List Value)) → Prop
  | outside (g : Function) : Runs args (.outside g) (·.runOutside g args)
  | box (b : Value) (v : Variant) : Runs args (.box b v) (·.runBox b v args)

/-- From whatever place `f` is called with these arguments, that is the call of a host function
which does `x`. -/
def World.Does (w : World) (f : Value) (args : List Value)
    (x : Reentry → Act (List Value)) : Prop :=
  ∀ beyond : Site → Reentry,
    (∀ site, Reentry.applyValue beyond site f args w = ((beyond site).outside x) w) ∧
    ∀ (a : Activation) (callers : List Activation) (wanted : Nat) (callee? : Option Origin),
      a.peek args.length = f → a.top args.length = args →
      let left := a.pop (args.length + 1)
      a.call beyond callers args.length wanted callee? w =
        ((fun results => .running (left.receive wanted results) callers) <$>
          (beyond (left.site callee?)).outside x) w

theorem Target.Runs.does {t : Target} {f : Value} {args : List Value}
    {x y : Reentry → Act (List Value)} (hr : t.Runs args y)
    (ht : ∀ r : Reentry, r.target f args w = .ok (t, args) w)
    (hx : ∀ r w₁, w.Shown w₁ → y r w₁ = x r w₁) : w.Does f args x := by
  have inside (r : Reentry) : (r.outside y) w = (r.outside x) w :=
    Act.outside_congr _ fun w₁ h₁ => hx r.inside w₁ h₁
  refine fun beyond => ⟨fun site => ?_, fun a callers wanted callee? hp ha => ?_⟩
  · rw [Reentry.applyValue, Act.bind_of_ok (ht _)]
    cases hr <;> exact inside _
  · intro left
    rw [Activation.call, hp, ha, Act.bind_of_ok (ht _), map_eq_pure_bind]
    cases hr <;> exact Act.bind_congr_left (inside _)

end ScriptHost
