import ScriptHost.Proofs.Box.Dispatch

/-! Structured values and their boxes. What a script does with a box means an access to the
value in it, and comes to what that access comes to for the host. -/

namespace ScriptHost

namespace Variant

/-- Vectors, colours, rectangles and planes. -/
def isStructured : Variant → Bool
  | vector2 _ | vector3 _ | color _ | rect2 _ | plane _ => true
  | _ => false

end Variant

/-- What is done with a value, in terms of the host. -/
inductive Access
  | read (key : Variant)
  | write (key value : Variant)
  | call (method : String) (args : List Variant)

namespace Access

def isWrite : Access → Bool
  | write .. => true
  | _ => false

end Access

/-- What reading a value, or calling a method of it, comes to. -/
inductive Reply
  | method (name : String)
  | value (v : Variant)
  | failed (e : ScriptError)

/-- The reply as the script gets it from the box `b`. -/
def Reply.deliver (b : Nat) : Reply → Act Value
  | method name => Act.newFunction (.method b name)
  | value v => Act.push v
  | failed e => Act.throw e

namespace Variant

/-- The value after an access; a write that it refuses leaves it as it is. -/
def after (v : Variant) : Access → Variant
  | .write key value => (v.set? key value).getD v
  | _ => v

/-- A name is first looked for among the methods. -/
def readReply (v : Variant) : Variant → Reply
  | .string name =>
    if v.kind.methods.contains name then .method name else .value (v.get (.string name))
  | key => .value (v.get key)

def callReply (v : Variant) (method : String) (args : List Variant) : Reply :=
  match v.callPlain method args with
  | .ok x => .value x
  | .error e => .failed (e.toScript method)

/-- An access to the box `b` that holds `v`. -/
def respond (b : Nat) (v : Variant) : Access → Act (List Value)
  | .read key => return [← (v.readReply key).deliver b]
  | .write key value => do
    Act.modifyHeap (·.writeBox b key value)
    return []
  | .call method args => return [← (v.callReply method args).deliver b]

/-! ### The value -/

variable {v w key value : Variant} {name : String}

theorem kind_of_withProperty? (h : v.withProperty? name value = some w) :
    w.kind = v.kind ∧ w.isStructured = true := by
  unfold withProperty? at h
  split at h
  · unfold withComponent? at h
    split at h <;> cases h <;> exact ⟨rfl, rfl⟩
  · unfold withVector? at h
    split at h <;> cases h <;> exact ⟨rfl, rfl⟩

theorem kind_of_set? (hv : v.isStructured = true) (h : v.set? key value = some w) :
    w.kind = v.kind ∧ w.isStructured = true := by
  unfold set? at h
  split at h
  · cases hv
  · cases hv
  · exact kind_of_withProperty? h
  · cases h

theorem kind_after (hv : v.isStructured = true) (a : Access) :
    (v.after a).kind = v.kind ∧ (v.after a).isStructured = true := by
  cases a with
  | write key value =>
    dsimp only [after]
    cases hs : v.set? key value with
    | none => exact ⟨rfl, hv⟩
    | some w => exact kind_of_set? hv hs
  | read key => exact ⟨rfl, hv⟩
  | call method args => exact ⟨rfl, hv⟩

theorem kind_foldl_after (hv : v.isStructured = true) (as : List Access) :
    (as.foldl after v).kind = v.kind ∧ (as.foldl after v).isStructured = true := by
  induction as generalizing v with
  | nil => exact ⟨rfl, hv⟩
  | cons a rest ih =>
    obtain ⟨hk, hs⟩ := kind_after hv a
    obtain ⟨hk', hs'⟩ := ih hs
    exact ⟨hk'.trans hk, hs'⟩

theorem isBoxed_of_isStructured (hv : v.isStructured = true) : v.isBoxed = true := by
  cases v <;> first | rfl | cases hv

theorem answers_index (hv : v.isStructured = true) :
    v.answers .index = true ∧ v.answers .newIndex = true := by
  cases v <;> first | exact ⟨rfl, rfl⟩ | cases hv

theorem invoke_of_isStructured (hv : v.isStructured = true) (r : Reentry) (ctx : Context)
    (method : String) (args : List Variant) :
    v.invoke r ctx method args = pure (v.callPlain method args) := by
  cases v <;> first | rfl | cases hv

end Variant

/-! ### Operations -/

/-- What a script does with a box. -/
inductive Operation
  | read (site : Site) (key : Value) (of? : Option Origin)
  | write (site : Site) (key value : Value) (of? : Option Origin)
  | call (site : Site) (f : ScriptFunction) (args : List Value)

namespace Operation

def run (beyond : Site → Reentry) (b : Nat) : Operation → Act (List Value)
  | read site key of? => return [← (beyond site).index (.box b) key of?]
  | write site key value of? => do
    (beyond site).setIndex (.box b) key value of?
    return []
  | call site f args => Reentry.applyValue beyond site (.function f) args

/-- The arguments of a method. The box itself in front of them is none of them. -/
def ownArgs (b : Nat) : List Value → List Value
  | .box first :: rest => if first = b then rest else .box first :: rest
  | args => args

/-- The access to the content of box `b` that an operation is. A function has been fetched
from the box under the name of a method, at whatever time. -/
inductive Means (b : Nat) (w : World) : Operation → Access → Prop
  | read (site : Site) (key : Value) (of? : Option Origin) :
    Means b w (.read site key of?) (.read (w.bridge.heap.decode w.bridge.id key))
  | write (site : Site) (key value : Value) (of? : Option Origin) :
    Means b w (.write site key value of?)
      (.write (w.bridge.heap.decode w.bridge.id key) (w.bridge.heap.decode w.bridge.id value))
  | call {name : String} (site : Site) (f : ScriptFunction) (args : List Value) :
    w.bridge.heap.functions[f.address]? = some (.method b name) →
    Means b w (.call site f args)
      (.call name ((ownArgs b args).map (w.bridge.heap.decode w.bridge.id)))

end Operation

variable {beyond : Site → Reentry} {b : Nat} {v : Variant} {w w' : World}

theorem Reply.local_deliver (b : Nat) (reply : Reply) : (reply.deliver b).Local := by
  cases reply with
  | method name => exact .newFunction _
  | value v => exact .push v
  | failed e => exact .throw e

theorem Variant.local_respond (b : Nat) (v : Variant) (a : Access) : (v.respond b a).Local := by
  cases a with
  | read key => exact (Reply.local_deliver b _).bind fun _ => .pure _
  | write key value => exact (Act.Local.modifyHeap _).bind fun _ => .pure _
  | call method args => exact (Reply.local_deliver b _).bind fun _ => .pure _

theorem Box.readTyped_eq (b : Nat) (hv : v.isStructured = true) (key : Value) (w : World) :
    readTyped b v key w =
      (v.readReply (w.bridge.heap.decode w.bridge.id key)).deliver b w := by
  have plain : v.object? = none := by
    cases v <;> first | rfl | cases hv
  rw [readTyped_of_not_object plain, Act.bind_of_ok (Act.decode_eq key w)]
  cases w.bridge.heap.decode w.bridge.id key with
  | string name =>
    dsimp only [Variant.readReply]
    split <;> rfl
  | _ => rfl

/-- A method that was fetched from a box is called on what the box holds. -/
theorem Reentry.runMethod_of_boxed (r : Reentry) (hb : w.bridge.heap.boxed? b = some v)
    (name : String) (args : List Value) :
    r.runMethod b name args w = (do
      returned name (← v.invoke r .attached name
        ((Operation.ownArgs b args).map (w.bridge.heap.decode w.bridge.id))) : Act _) w := by
  unfold runMethod
  rw [Act.bind_of_ok (Act.heap_eq _), hb]
  cases args with
  | nil => rfl
  | cons x rest =>
    cases x with
    | box first =>
      dsimp only [Operation.ownArgs]
      by_cases h : first = b
      · simp only [if_pos h]
        rfl
      · simp only [if_neg h]
        rfl
    | _ => rfl

theorem Reentry.runMethod_eq (r : Reentry) (hv : v.isStructured = true)
    (hb : w.bridge.heap.boxed? b = some v) (name : String) (args : List Value) :
    r.runMethod b name args w =
      v.respond b (.call name ((Operation.ownArgs b args).map
        (w.bridge.heap.decode w.bridge.id))) w := by
  rw [r.runMethod_of_boxed hb, Variant.invoke_of_isStructured hv, pure_bind]
  rw [Variant.respond, Variant.callReply, returned]
  generalize (Operation.ownArgs b args).map (w.bridge.heap.decode w.bridge.id) = xs
  cases v.callPlain name xs with
  | ok x => rfl
  | error e => rfl

namespace Operation

variable {p : Operation} {a : Access}

/-- An operation is a call of a host function, which accesses what the box holds. -/
theorem run_eq (beyond : Site → Reentry) (hv : v.isStructured = true)
    (hb : w.bridge.heap.boxed? b = some v) (hp : p.Means b w a) :
    ∃ name, p.run beyond b w = Act.outside name (v.respond b a) w := by
  obtain ⟨reads, writes⟩ := Variant.answers_index hv
  cases hp with
  | read site key of? =>
    refine ⟨(beyond site).site.callee?.map Origin.name, ?_⟩
    have inside (r : Reentry) : r.handleBox .index v [.box b, key] = Box.readTyped b v key := by
      cases v <;> first | rfl | cases hv
    rw [run, bind_pure_comp, Act.map_congr _ ((beyond site).index_box hb reads of?),
      Reentry.outside, Act.map_outside, inside]
    refine Act.outside_congr _ fun w₁ h₁ => ?_
    rw [Variant.respond, bind_pure_comp, ← h₁.heap, ← h₁.id]
    exact Act.map_congr _ (Box.readTyped_eq b hv key w₁)
  | write site key value of? =>
    refine ⟨(beyond site).site.callee?.map Origin.name, ?_⟩
    have inside (r : Reentry) : r.handleBox .newIndex v [.box b, key, value] =
        (do Box.writeTyped b key value; return .nil) := by
      cases v <;> first | rfl | cases hv
    have written : (beyond site).setIndex (.box b) key value of? w = _ :=
      (beyond site).setIndex_box hb writes of?
    rw [run, bind_pure_comp, Act.map_congr _ written, ← comp_map, Reentry.outside,
      Act.map_outside, inside]
    refine Act.outside_congr _ fun w₁ h₁ => ?_
    rw [Variant.respond, bind_pure_comp, bind_pure_comp, ← comp_map, ← h₁.heap, ← h₁.id]
    exact Act.map_congr _ (Box.writeTyped_eq b key value w₁)
  | call site f args hf =>
    refine ⟨(beyond site).site.callee?.map Origin.name, ?_⟩
    rw [run, Reentry.applyValue_outside beyond site hf (by simp)]
    refine Act.outside_congr _ fun w₁ h₁ => ?_
    show (beyond site).inside.runMethod b _ args w₁ = _
    rw [Reentry.runMethod_eq _ hv (h₁.heap ▸ hb), h₁.heap, h₁.id]

/-- Unless a hook stops it, an operation comes to what it means for the value in the box. -/
theorem observed_run (beyond : Site → Reentry) (hv : v.isStructured = true)
    (hb : w.bridge.heap.boxed? b = some v) (hp : p.Means b w a) :
    (v.respond b a w).Observed w.stop? (p.run beyond b w) := by
  obtain ⟨name, he⟩ := run_eq beyond hv hb hp
  rw [he]
  exact Act.observed_outside (Variant.local_respond b v a) name fun _ _ => .refl _

end Operation

end ScriptHost
