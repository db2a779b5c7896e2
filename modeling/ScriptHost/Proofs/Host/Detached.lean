import ScriptHost.Detached
import ScriptHost.Proofs.Machine.Acting

/-! Host code in a detached context. It reaches no interpreter: nothing is raised, and the bridge
stays as it is. -/

namespace ScriptHost

variable {α β : Type}

/-- The action comes to an end without an error, and does nothing to the bridge. -/
def Act.Apart (x : Act α) : Prop :=
  ∀ w, x w = .exhausted ∨ ∃ a host, x w = .ok a ⟨host, w.bridge⟩

namespace Act.Apart

theorem pure (a : α) : Apart (Pure.pure a) := fun w => .inr ⟨a, w.host, rfl⟩

theorem exhausted : Apart (Act.exhausted : Act α) := fun _ => .inl rfl

theorem host : Apart Act.host := fun w => .inr ⟨w.host, w.host, rfl⟩

theorem onHost (f : Host → α × Host) : Apart (Act.onHost f) := fun _ => .inr ⟨_, _, rfl⟩

theorem modifyHost (f : Host → Host) : Apart (Act.modifyHost f) := fun _ => .inr ⟨_, _, rfl⟩

theorem record (e : Event) : Apart (Act.record e) := modifyHost _

theorem bind {x : Act α} {f : α → Act β} (hx : Apart x) (hf : ∀ a, Apart (f a)) :
    Apart (x >>= f) := by
  intro w
  rcases hx w with hx | ⟨a, host, hx⟩
  · exact .inl (Act.bind_of_exhausted hx)
  · rw [Act.bind_of_ok hx]
    exact hf a ⟨host, w.bridge⟩

theorem ite {c : Prop} [Decidable c] {x y : Act α} (hx : Apart x) (hy : Apart y) :
    Apart (if c then x else y) := by
  split
  · exact hx
  · exact hy

end Act.Apart

open Act (Apart)

/-- Behaviours stay apart from the bridge where they are detached. -/
def Reentry.IsApart (r : Reentry) : Prop :=
  ∀ site self b args, Apart (r.perform site .detached self b args)

namespace Reentry.IsApart

variable {r : Reentry} (hr : r.IsApart)

include hr

/-- A declared method runs apart, and another one is refused. -/
theorem method (o : ObjectId) (definition : Definition) (method : String) (args : List Variant) :
    Apart (match definition.method? method with
      | some behaviour => r.perform r.site .detached (some o) behaviour args
      | none => return .error (.invalidMethod method)) := by
  split
  · exact hr _ _ _ _
  · exact .pure _

theorem callObject (o : ObjectId) (method : String) (args : List Variant) :
    Apart (r.callObject .detached o method args) := by
  have called (definition : Definition) := hr.method o definition method args
  refine .bind .host fun host => ?_
  dsimp only
  split
  · exact called _
  · exact .bind (.record _) fun _ => called _

theorem override? (o : ObjectId) (op : Metamethod) (args : List Variant) :
    Apart (r.override? .detached o op args) := by
  refine .bind .host fun host => ?_
  split
  · exact .pure _
  · dsimp only
    split
    · exact .bind (hr _ _ _ _) fun _ => .pure _
    · exact .bind (.record _) fun _ => .bind (hr _ _ _ _) fun _ => .pure _

theorem invoke : (c : Callable) → (args : List Variant) → Apart (c.invoke r .detached args)
  | .method o name, args => hr.callObject o name args
  | .native f, args => by
    rw [Callable.invoke]
    refine .bind (.record _) fun _ => .bind .host fun host => ?_
    split
    · exact hr _ _ _ _
    · exact .pure _
  | .script f, args => by
    rw [Callable.invoke]
    exact .bind (.pure _) fun _ => .pure _
  | .bound c extra placement, args => by
    rw [Callable.invoke]
    exact invoke c _

theorem callEach (args : List Variant) (cs : List Callable) :
    Apart (Behaviour.callEach r .detached args cs) := by
  induction cs with
  | nil => exact .pure _
  | cons c rest ih =>
    refine .bind (hr.invoke c args) fun result => ?_
    split
    · exact ih
    · exact .pure _

theorem performOn (o : ObjectId) (b : Behaviour) (args : List Variant) :
    Apart (b.performOn r .detached o args) := by
  unfold Behaviour.performOn
  cases b with
  | setProperty => exact .bind (.onHost _) fun _ => .pure _
  | property => exact .bind .host fun _ => .pure _
  | create => exact .bind .host fun _ => .bind (.modifyHost _) fun _ => .pure _
  | connect =>
    dsimp only
    split
    · exact .pure _
    · exact .bind .host fun _ => .ite (.pure _) (.bind (.modifyHost _) fun _ => .pure _)
  | disconnect =>
    dsimp only
    split
    · exact .pure _
    · exact .bind .host fun _ => .ite (.bind (.modifyHost _) fun _ => .pure _) (.pure _)
  | isConnected =>
    dsimp only
    split
    · exact .pure _
    · exact .bind .host fun _ => .pure _
  | emit =>
    refine .bind .host fun _ => .bind (hr.callEach _ _) fun result => ?_
    split <;> exact .pure _
  | _ => exact .pure _

/-- What is done with an object needs one. -/
theorem onObject (self : Option ObjectId) (b : Behaviour) (args : List Variant) :
    Apart (match self with
      | some o => b.performOn r .detached o args
      | none => return .error (.failed "no object")) := by
  split
  · exact hr.performOn _ b args
  · exact .pure _

theorem run (self : Option ObjectId) (b : Behaviour) (args : List Variant) :
    Apart (b.run r .detached self args) := by
  have on (b : Behaviour) := hr.onObject self b args
  unfold Behaviour.run
  cases b with
  | display => exact .bind .host fun _ => .pure _
  | callGlobal | push | pull | hasFunction | mode => exact .bind (.pure _) fun _ => .pure _
  | callFirst =>
    dsimp only
    split
    · exact hr.invoke _ _
    · exact .pure _
  | setProperty | property | create | connect | disconnect | isConnected | emit => exact on _
  | _ => exact .pure _

end Reentry.IsApart

theorem Reentry.isApart_ofApply (least : Nat)
    (apply : Site → Value → List Value → Act (List Value)) (n : Nat) (site : Site) :
    (ofApply least apply n site).IsApart := by
  induction n generalizing site with
  | zero => exact fun _ _ _ _ => .exhausted
  | succ n ih => exact fun site self b args => (ih site).run self b args

theorem Reentry.isApart_upTo (n : Nat) (site : Site) : (upTo n site).IsApart := by
  cases n <;> exact isApart_ofApply _ _ _ _

theorem Request.isApart_reentry : Request.reentry.IsApart := Reentry.isApart_upTo _ _

end ScriptHost
