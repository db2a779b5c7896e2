import ScriptHost.Machine.Execution
import ScriptHost.Proofs.Machine.Watching
import ScriptHost.Proofs.Machine.Working

/-! Actions composed of small steps. None of the steps looks at the hook or at what hooks have
recorded, and none of them catches an error but in one of a few ways. What the single steps do
to the world, the whole does. -/

namespace ScriptHost

variable {α β : Type}

/-! ### Catching -/

/-- The ways in which an error is caught. -/
inductive Catcher : Type → Type → Type 1
  /-- A script calls a function and goes on with its error. -/
  | protectedCall : Catcher (List Value) (List Value)
  /-- A script goes on with a report of the error. -/
  | trying (r : Reentry) : Catcher Value Value
  /-- The error of a script is returned to its host. -/
  | guard {α : Type} (r : Reentry) : Catcher α (Except ScriptError α)
  /-- An error in the text of an error takes its place. -/
  | describing : Catcher ScriptError ScriptError
  /-- An error that comes in between takes its place. -/
  | settling : Catcher ScriptError ScriptError

namespace Catcher

/-- How it goes on. -/
def handle : {α β : Type} → Catcher α β → Except Value α → Act β
  | _, _, protectedCall, .ok results => pure (.bool true :: results)
  | _, _, protectedCall, .error e => pure [.bool false, e]
  | _, _, trying r, result => r.report result
  | _, _, guard _, .ok a => pure (.ok a)
  | _, _, guard r, .error e => do return .error (← r.toScriptError e)
  | _, _, describing, .ok e => pure e
  | _, _, describing, .error e => Reentry.settle e
  | _, _, settling, .ok e => pure e
  | _, _, settling, .error e => do
    Act.note none
    return Reentry.plainError (← Act.heap) e

def run (c : Catcher α β) (x : Act α) : Act β := x.attempt >>= c.handle

end Catcher

namespace Act

/-- Runs `x` unseen by hooks, whatever comes of it. -/
def unhooked (x : Act α) : Act Unit := do
  let hook := (← bridge).hook?
  modifyBridge fun b => { b with hook? := none }
  let _ ← x.attempt
  modifyBridge fun b => { b with hook? := hook }

theorem unhooked_eq (x : Act α) (w : World) : unhooked x w = match x (w.withHook none) with
    | .ok _ w' | .raised _ w' => .ok () (w'.withHook w.bridge.hook?)
    | .exhausted => .exhausted := by
  show Act.bind x.attempt _ (w.withHook none) = _
  rw [Act.bind, Act.attempt]
  cases x (w.withHook none) <;> rfl

/-! ### Blind steps -/

/-- Neither sees the hook or what hooks recorded, nor shows it anything; what it does to the world
is as `K` says. -/
def Blind (K : World → World → Prop) (x : Act α) : Prop :=
  ∀ w, ∃ (result : Except Value α) (w' : World), x w = .of result w' ∧
    x w.plain = .of result w'.plain ∧ w.Watches [] w' ∧ K w w'

namespace Blind

variable {K : World → World → Prop}

theorem pure (refl : ∀ w, K w w) (a : α) : Blind K (Pure.pure a) :=
  fun w => ⟨.ok a, w, rfl, rfl, .refl w, refl w⟩

theorem raise (refl : ∀ w, K w w) (e : Value) : Blind K (Act.raise e : Act α) :=
  fun w => ⟨.error e, w, rfl, rfl, .refl w, refl w⟩

/-- A step of the bridge that leaves the hook alone. -/
theorem modifyBridge {f : Bridge → Bridge} (hook : ∀ b, (f b).hook? = b.hook?)
    (hf : ∀ b, f b.unhooked = (f b).unhooked)
    (hK : ∀ w : World, K w { w with bridge := f w.bridge }) : Blind K (Act.modifyBridge f) := by
  refine fun w => ⟨.ok (), { w with bridge := f w.bridge }, rfl, ?_, .silent (hook _) rfl, hK w⟩
  show Outcome.ok () ⟨w.host.plain, f w.bridge.unhooked⟩ = _
  rw [hf]
  rfl

theorem onBridge {f : Bridge → α × Bridge} (hook : ∀ b, (f b).2.hook? = b.hook?)
    (hf : ∀ b, f b.unhooked = ((f b).1, (f b).2.unhooked))
    (hK : ∀ w : World, K w { w with bridge := (f w.bridge).2 }) : Blind K (Act.onBridge f) := by
  refine fun w => ⟨.ok (f w.bridge).1, { w with bridge := (f w.bridge).2 }, rfl, ?_,
    .silent (hook _) rfl, hK w⟩
  show Outcome.ok (f w.bridge.unhooked).1 ⟨w.host.plain, (f w.bridge.unhooked).2⟩ = _
  rw [hf]
  rfl

theorem onHost {f : Host → α × Host} (hf : ∀ h, f h.plain = ((f h).1, (f h).2.plain))
    (watched : ∀ h, (f h).2.watched = h.watched)
    (hK : ∀ w : World, K w { w with host := (f w.host).2 }) : Blind K (Act.onHost f) := by
  refine fun w => ⟨.ok (f w.host).1, { w with host := (f w.host).2 }, rfl, ?_,
    .silent rfl (watched _), hK w⟩
  show Outcome.ok (f w.host.plain).1 ⟨(f w.host.plain).2, w.bridge.unhooked⟩ = _
  rw [hf]
  rfl

theorem modifyHost {f : Host → Host} (hf : ∀ h, f h.plain = (f h).plain)
    (watched : ∀ h, (f h).watched = h.watched)
    (hK : ∀ w : World, K w { w with host := f w.host }) : Blind K (Act.modifyHost f) :=
  onHost (f := fun h => ((), f h)) (fun h => by rw [hf]) watched hK

end Blind

/-! ### Composed actions -/

inductive Composed (K : World → World → Prop) : {α : Type} → Act α → Prop
  | blind {α : Type} {x : Act α} : Blind K x → Composed K x
  | exhausted {α : Type} : Composed K (Act.exhausted : Act α)
  | bind {α β : Type} {x : Act α} {f : α → Act β} :
    Composed K x → (∀ a, Composed K (f a)) → Composed K (x >>= f)
  | host {α : Type} {f : Host → Act α} :
    (∀ h, Composed K (f h)) → (∀ h : Host, f h.plain = f h) → Composed K (Act.host >>= f)
  | bridge {α : Type} {f : Bridge → Act α} :
    (∀ b, Composed K (f b)) → (∀ b : Bridge, f b.unhooked = f b) → Composed K (Act.bridge >>= f)
  | fire (e : HookEvent) : Composed K (Act.fire e)
  | note (callee? : Option String) : Composed K (Act.note callee?)
  | tick (chunk : String) (line : Nat) : Composed K (Act.tick chunk line)
  | handling {α : Type} {x : Act α} : Composed K x → Composed K (Act.handling x)
  | caught {α β : Type} (c : Catcher α β) {x : Act α} :
    Composed K x → (∀ result, Composed K (c.handle result)) → Composed K (c.run x)
  | unhooked {α : Type} {x : Act α} : Composed K x → Composed K (Act.unhooked x)

namespace Composed

variable {K : World → World → Prop}

theorem ite {c : Prop} [Decidable c] {x y : Act α} (hx : Composed K x) (hy : Composed K y) :
    Composed K (if c then x else y) := by
  split
  · exact hx
  · exact hy

/-- What runs whether or not something is done before it. -/
theorem doUnless {c : Prop} [Decidable c] {x : Act Unit} {y : Unit → Act α}
    (hx : Composed K x) (hy : Composed K (y ())) :
    Composed K (if c then y () else x >>= y) :=
  .ite hy (.bind hx fun _ => hy)

/-- An attempt whose outcome is dealt with in one of the known ways. -/
theorem attempt (c : Catcher α β) {x : Act α} {f : Except Value α → Act β}
    (hf : ∀ result, f result = c.handle result) (hx : Composed K x)
    (hc : ∀ result, Composed K (c.handle result)) : Composed K (x.attempt >>= f) := by
  obtain rfl : f = c.handle := funext hf
  exact .caught c hx hc

theorem cross (e : HookEvent) : Composed K (Act.cross e) := .bind (.note none) fun _ => .fire e

end Composed

/-! ### What comes of the whole -/

/-- What can be said of a whole if it can be said of its steps, of what hooks do, and of the
errors that they raise. -/
structure Discipline (K : World → World → Prop) : Prop where
  refl : ∀ w, K w w
  trans : ∀ {w w' w''}, K w w' → K w' w'' → K w w''
  hooked : ∀ (w : World) hook?, K w (w.withHook hook?)
  recorded : ∀ w e, K w { w with host := w.host.record (.hook e) }
  faulted : ∀ (w : World) e, K w (w.withHeap (w.bridge.heap.newFault e).2)

namespace Discipline

variable {K : World → World → Prop}

theorem shown (hK : Discipline K) (hook : Hook) (e : HookEvent) (w : World) :
    K w (showing hook e w) := by
  let refusal? := hook.refusal? (hook.seen + 1) e
  let seen : Bridge := { w.bridge with
    hook? := some { hook with seen := hook.seen + 1, refused := refusal?.isSome } }
  have counted : K w { w with bridge := seen } := hK.hooked w _
  cases hq : hook.quiet with
  | true =>
    have same : showing hook e w = { w with bridge := seen } := by
      simp only [showing, hq, if_true, seen, refusal?]
    rwa [same]
  | false =>
    have same : showing hook e w =
        { host := w.host.record (.hook e), bridge := seen } := by
      simp only [showing, hq, Bool.false_eq_true, if_false, Host.record, seen, refusal?]
    rw [same]
    exact hK.trans counted (hK.recorded _ e)

theorem fired (hK : Discipline K) (e : HookEvent) (w : World) : (fire e w).Ends (K w) := by
  by_cases hw : ∃ hook, w.bridge.hook? = some hook ∧ hook.mask.holds e.kind = true
  · obtain ⟨hook, hh, hm⟩ := hw
    rw [fire_of_hook hh hm, judge]
    cases hook.refusal? (hook.seen + 1) e with
    | none => exact hK.shown hook e w
    | some refusal =>
      exact hK.trans (hK.shown hook e w) (hK.faulted _ (refusal.withTraceback traceback))
  · rw [fire_of_no_hook]
    · exact hK.refl w
    · intro hook hh
      cases hm : hook.mask.holds e.kind with
      | false => rfl
      | true => exact absurd ⟨hook, hh, hm⟩ hw

theorem ticked (hK : Discipline K) (chunk : String) (line : Nat) (w : World) :
    (tick chunk line w).Ends (K w) := by
  obtain ⟨hook?, -, ht | ⟨e, ht⟩⟩ := tick_cases chunk line w
  · rw [ht]
    exact hK.hooked w hook?
  · rw [ht]
    exact (hK.fired e _).weaken fun _ => hK.trans (hK.hooked w hook?)

theorem noted (hK : Discipline K) (callee? : Option String) (w : World) :
    (note callee? w).Ends (K w) := by
  rw [note_apply]
  exact hK.hooked w _

end Discipline

theorem ends_bind {P : World → Prop} {x : Act α} {f : α → Act β} {w : World}
    (hx : (x w).Ends P) (hf : ∀ a w', x w = .ok a w' → P w' → (f a w').Ends P) :
    ((x >>= f) w).Ends P := by
  show (Act.bind x f w).Ends P
  unfold Act.bind
  cases hxw : x w with
  | exhausted => trivial
  | raised e w' =>
    rw [hxw] at hx
    exact hx
  | ok a w' =>
    rw [hxw] at hx
    exact hf a w' hxw hx

theorem ends_attempt {P : World → Prop} {x : Act α} {w : World} (hx : (x w).Ends P) :
    (x.attempt w).Ends P := by
  unfold Act.attempt
  cases hxw : x w with
  | exhausted => trivial
  | _ =>
    rw [hxw] at hx
    exact hx

namespace Discipline

variable {K : World → World → Prop} {x : Act α}

theorem crossed (hK : Discipline K) (e : HookEvent) (w : World) : (cross e w).Ends (K w) :=
  ends_bind (hK.noted none w) fun _ w' _ hw => (hK.fired e w').weaken fun _ => hK.trans hw

theorem outside (hK : Discipline K) (hx : ∀ w, (x w).Ends (K w)) (name : Option String)
    (w : World) : (Act.outside name x w).Ends (K w) :=
  ends_bind (hK.crossed _ w) fun _ w₁ _ h₁ =>
    ends_bind ((hx w₁).weaken fun _ => hK.trans h₁) fun _ w₂ _ h₂ =>
      ends_bind ((hK.crossed _ w₂).weaken fun _ => hK.trans h₂) fun _ _ _ h₃ => h₃

theorem handling (hK : Discipline K) (hx : ∀ w, (x w).Ends (K w)) (w : World) :
    (Act.handling x w).Ends (K w) := by
  rw [handling_apply]
  cases w.bridge.hook? with
  | none => exact hx w
  | some hook =>
    dsimp only
    split
    · exact ends_bind (hK.noted none w) fun _ w' _ hw => (hx w').weaken fun _ => hK.trans hw
    · exact hK.outside hx _ w

end Discipline

theorem Composed.ends {K : World → World → Prop} (hK : Discipline K) {x : Act α}
    (hx : Composed K x) (w : World) : (x w).Ends (K w) := by
  induction hx generalizing w with
  | blind hx =>
    obtain ⟨result, w', h, -, -, hk⟩ := hx w
    rw [h]
    cases result <;> exact hk
  | exhausted => trivial
  | bind _ _ ihx ihf =>
    exact ends_bind (ihx w) fun a w' _ hw => (ihf a w').weaken fun _ => hK.trans hw
  | host _ _ ih => exact ih w.host w
  | bridge _ _ ih => exact ih w.bridge w
  | fire e => exact hK.fired e w
  | note callee? => exact hK.noted callee? w
  | tick chunk line => exact hK.ticked chunk line w
  | handling _ ih => exact hK.handling ih w
  | caught c _ _ ihx ihc =>
    exact ends_bind (ends_attempt (ihx w)) fun a w' _ hw => (ihc a w').weaken fun _ => hK.trans hw
  | unhooked _ ih =>
    refine ends_bind (hK.refl w) fun b w₀ hb _ => ?_
    cases hb
    refine ends_bind (hK.hooked w none) fun _ w₁ hw₁ _ => ?_
    cases hw₁
    refine ends_bind (ends_attempt ((ih _).weaken fun _ => hK.trans (hK.hooked w none)))
      fun _ w₂ _ hw => ?_
    exact hK.trans hw (hK.hooked w₂ _)

end Act

end ScriptHost
