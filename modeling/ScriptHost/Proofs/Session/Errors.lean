import ScriptHost.Proofs.Box.Structured
import ScriptHost.Proofs.Machine.Reaching
import ScriptHost.Proofs.Session.Globals
import ScriptHost.Proofs.Session.Reports

/-! Errors on their way from a script to the host, through calls of scripts by hosts and of hosts
by scripts. An error that every host call on the way passes on reaches the outermost host as it
began; a host call that fails by itself gives it its name, once. -/

namespace ScriptHost

variable {α β : Type}

/-! ### How errors begin -/

/-- The text in front of a traceback of its own. -/
def Text.untraced (s : String) : String :=
  match cutAtMark ('\n' :: tracebackHeading.toList) s.toList with
  | none => s
  | some (own, _) => String.ofList own

/-- How an error began. -/
inductive Cause
  /-- A script raised a text. -/
  | text (bytes : ByteArray)
  /-- The host raised an error in a script. -/
  | thrown (e : ScriptError)
  /-- A host call failed, which scripts know under a name. -/
  | fault (method : String) (f : CallError)

namespace Cause

def kind : Cause → ErrorKind
  | thrown e | fault _ (.script e) => e.kind
  | _ => .runtime

def message : Cause → String
  | text bytes => Text.untraced (Text.ofBytes (Text.beforeZero bytes))
  | thrown e | fault _ (.script e) => e.message
  | fault method f => "error calling '" ++ method ++ "': " ++ f.message

/-- The traceback that the error has from the start. -/
def traceback? : Cause → Option String
  | thrown e | fault _ (.script e) => e.traceback
  | _ => none

/-- The error is still what it was when it began, and tells where that was. -/
structure Carried (c : Cause) (e : ScriptError) : Prop where
  kind : e.kind = c.kind
  message : e.message = c.message
  traced : e.traceback.isSome = true
  kept : ∀ t, c.traceback? = some t → e.traceback = some t

variable {c : Cause} {e : ScriptError}

theorem Carried.withTraceback_eq (h : c.Carried e) (t : String) : e.withTraceback t = e := by
  obtain ⟨t', ht⟩ := Option.isSome_iff_exists.mp h.traced
  unfold ScriptError.withTraceback
  rw [ht]

theorem carried_withTraceback (hk : e.kind = c.kind) (hm : e.message = c.message)
    (ht : ∀ t, c.traceback? = some t → e.traceback = some t) (t : String) :
    c.Carried (e.withTraceback t) := by
  unfold ScriptError.withTraceback
  cases he : e.traceback with
  | none =>
    refine ⟨hk, hm, rfl, fun t' h => ?_⟩
    rw [ht t' h] at he
    cases he
  | some t₁ => exact ⟨hk, hm, Option.isSome_of_eq_some he, ht⟩

theorem carried_text (bytes : ByteArray) : (text bytes).Carried (Reentry.raisedText bytes) := by
  refine carried_withTraceback ?_ ?_ (fun _ h => by cases h) _
  · unfold ScriptError.ofText
    split <;> rfl
  · unfold ScriptError.ofText message Text.untraced
    split <;> simp [*]

/-- An ordinary text is told as it is. -/
theorem message_text {s : String} (hz : 0 ∉ s.toUTF8.toList)
    (ht : Text.cutAtMark ('\n' :: tracebackHeading.toList) s.toList = none) :
    (text s.toUTF8).message = s := by
  have whole : Text.beforeZero s.toUTF8 = s.toUTF8 := if_neg (by simpa using hz)
  rw [message, whole, Text.ofBytes_toUTF8, Text.untraced, ht]

theorem carried_thrown (e : ScriptError) (t : String) : (thrown e).Carried (e.withTraceback t) :=
  carried_withTraceback rfl rfl (fun _ h => h) t

theorem carried_fault (method : String) (f : CallError) (t : String) :
    (fault method f).Carried ((f.toScript method).withTraceback t) := by
  cases f with
  | script e => exact carried_withTraceback rfl rfl (fun _ h => h) t
  | _ => exact carried_withTraceback rfl rfl (fun _ h => by cases h) t

end Cause

/-! ### From a script to the host -/

/-- The host call runs a part of a script, here in a later world, and fails with its error. -/
inductive Crosses : {α β : Type} → Reentry → Act (Except ScriptError α) → World → Act β → World →
    Prop
  | guard {α : Type} (r : Reentry) (x : Act α) (w : World) : Crosses r (r.guard x) w x w
  | callIn {r : Reentry} {args : List Variant} {values : List Value} {w w₁ : World} (f : Value) :
    Act.encodeAll args w = .ok (.ok values) w₁ → Crosses r (r.callIn f args) w (r.call f values) w₁
  | script {β : Type} {r : Reentry} {f : ScriptFunction} {args : List Variant} {x : Act β}
      {w w₁ : World} :
    f.owner = w.bridge.id → Crosses r (r.callIn (.function f) args) w x w₁ →
      Crosses r (r.callScript .attached f args) w x w₁
  | lookup (r : Reentry) (name : String) (args : List Variant) (w : World) :
    Crosses r (r.callGlobal .attached name args) w (r.onGlobals (·.global name)) w
  | global {β : Type} {r : Reentry} {name : String} {f : ScriptFunction} {args : List Variant}
      {x : Act β} {w w₁ w₂ : World} :
    r.onGlobals (·.global name) w = .ok (.function f) w₁ →
      Crosses r (r.callIn (.function f) args) w₁ x w₂ →
      Crosses r (r.callGlobal .attached name args) w x w₂
  | push {r : Reentry} {v : Variant} {x : Value} {w w₁ : World} (name : String) :
    Act.encode v w = .ok (.ok x) w₁ →
      Crosses r (r.pushGlobal .attached name v) w (r.onGlobals (·.setGlobal name x)) w₁
  | pull (r : Reentry) (name : String) (w : World) :
    Crosses r (r.pullGlobal .attached name) w (r.onGlobals (·.global name)) w
  | chunk {body : Block} (name : String) (w : World) :
    Stmt.blockParses body = true → Crosses Request.reentry (Request.runChunk name body) w
      (Reentry.runPrototype (.ofChunk body) name) w
  | eval {e : Expr} (name : String) (w : World) :
    e.parses = true → Crosses Request.reentry (Request.eval name e) w
      (Reentry.runPrototype (.ofExpr e) name) w
  | expose {factory : ObjectId} {f : Value} {w w₁ : World} (name : String) :
    w.host.hasMethod factory "new" = true → Act.newFunction (.factory factory) w = .ok f w₁ →
      Crosses Request.reentry (Request.expose name factory) w
        (Request.reentry.onGlobals (·.setGlobal name f)) w₁
  | report {α β : Type} {r : Reentry} {z : Act (Except ScriptError α)} {x : Act β} {w w₁ : World} :
    Crosses r z w x w₁ → Crosses r (Request.report z) w x w₁

/-- No hook refuses what it sees of how an error that `x` raises becomes one of the host. -/
def Act.Handled (x : Act α) (w : World) : Prop :=
  ∀ v w₁, x w = .raised v w₁ → ∃ w₂, Act.handling (pure ()) w₁ = .ok () w₂

/-- Whether an error comes out of a world without a hook. -/
def Outcome.isUnwatched : Outcome α → Bool
  | .raised _ w => w.bridge.hook?.isNone
  | _ => true

theorem Act.handled_of_isUnwatched {x : Act α} {w : World} (h : (x w).isUnwatched = true) :
    x.Handled w := by
  intro v w₁ hx
  rw [hx] at h
  refine ⟨w₁, ?_⟩
  rw [handling_apply, Option.isNone_iff_eq_none.mp h]
  rfl

namespace Reentry

variable (r : Reentry) {x : Act α} {v : Value} {e : ScriptError} {w w₁ w₂ : World}

theorem guard_of_raised (hx : x w = .raised v w₁) (he : r.toScriptError v w₁ = .ok e w₂) :
    r.guard x w = .ok (.error e) w₂ := by
  have attempted : x.attempt w = .ok (.error v) w₁ := by rw [Act.attempt, hx]
  rw [guard, Act.bind_of_ok attempted]
  dsimp only
  rw [Act.bind_of_ok he]
  rfl

theorem toScriptError_of_shown (hw : Act.handling (pure ()) w = .ok () w₁)
    (hd : ∀ w', w.Shown w' → r.inside.describe v w' = .ok e w') :
    r.toScriptError v w = .ok e w₁ := by
  rw [toScriptError, Act.bind_of_ok (Act.attempt_of_ok (Act.handling_of_shown hw hd))]
  rfl

theorem toScriptError_fault (hw : Act.handling (pure ()) w = .ok () w₁) (n : Nat) :
    r.toScriptError (.fault n e) w = .ok e w₁ :=
  r.toScriptError_of_shown hw fun _ _ => rfl

/-- A text that strings do not answer for themselves is told as it is. -/
theorem toScriptError_text {bytes : ByteArray} (hw : Act.handling (pure ()) w = .ok () w₁)
    (hn : w.bridge.heap.handler? .toText (.string bytes) = none) :
    r.toScriptError (.string bytes) w = .ok (raisedText bytes) w₁ := by
  refine r.toScriptError_of_shown hw fun w' hw' => ?_
  have told : r.inside.text (.string bytes) w' = .ok bytes w' := by
    rw [text, Act.bind_of_ok (Act.heap_eq _), hw'.heap, hn]
    rfl
  exact Act.bind_of_ok told

end Reentry

theorem Crosses.fails {r : Reentry} {z : Act (Except ScriptError α)} {x : Act β}
    {w w₁ w₂ w₃ : World} (h : Crosses r z w x w₁) {v : Value} {e : ScriptError}
    (hx : x w₁ = .raised v w₂) (he : r.toScriptError v w₂ = .ok e w₃) :
    ∃ w', z w = .ok (.error e) w' := by
  have guarded {γ : Type} {r : Reentry} {y : Act γ} {w : World} (hy : y w = .raised v w₂)
      (he : r.toScriptError v w₂ = .ok e w₃) : r.guard y w = .ok (.error e) w₃ :=
    r.guard_of_raised hy he
  -- The guard that the error meets first makes a result of it, which the others pass on.
  induction h with
  | guard r x w => exact ⟨w₃, guarded hx he⟩
  | callIn f encoded =>
    refine ⟨w₃, ?_⟩
    rw [Reentry.callIn, Act.bind_of_ok encoded]
    dsimp only
    rw [Act.bind_of_ok (guarded hx he)]
    rfl
  | @script _ r f args x w _ own _ ih =>
    obtain ⟨w', h⟩ := ih hx he
    refine ⟨w', ?_⟩
    rw [Reentry.callScript, Act.bind_of_ok (Act.bridge_eq _), if_pos own]
    exact h
  | lookup r name args w =>
    refine ⟨w₃, ?_⟩
    rw [Reentry.callGlobal, Act.bind_of_ok (guarded hx he)]
    rfl
  | @global _ r _ _ _ _ _ _ _ found _ ih =>
    obtain ⟨w', h⟩ := ih hx he
    refine ⟨w', ?_⟩
    rw [Reentry.callGlobal, Act.bind_of_ok (r.guard_of_ok found)]
    exact h
  | push name encoded =>
    refine ⟨w₃, ?_⟩
    rw [Reentry.pushGlobal, Act.bind_of_ok encoded]
    exact guarded hx he
  | pull r name w =>
    refine ⟨w₃, ?_⟩
    rw [Reentry.pullGlobal, Act.bind_of_ok (guarded hx he)]
    rfl
  | chunk name w parses =>
    refine ⟨w₃, ?_⟩
    rw [Request.runChunk, if_pos parses]
    exact Act.map_of_ok (guarded hx he) _
  | eval name w parses =>
    unfold Request.eval
    rw [if_pos parses]
    exact ⟨_, Request.report_of_error (Act.bind_of_ok (guarded hx he))⟩
  | @expose factory _ w _ name declared made =>
    refine ⟨w₃, ?_⟩
    rw [Request.expose, Act.bind_of_ok (Act.host_eq _), if_pos declared, Act.bind_of_ok made]
    exact guarded hx he
  | report _ ih =>
    obtain ⟨w', h⟩ := ih hx he
    exact ⟨_, Request.report_of_error h⟩

/-! ### From the host to a script -/

/-- The operation asks an object whether it answers `op` itself. -/
inductive Asks (r : Reentry) :
    {α : Type} → Act α → World → ObjectId → Metamethod → List Variant → Prop
  | operation (op : Metamethod) (o : ObjectId) (args : List Variant) (w : World) :
    Asks r (Box.answerOrDecline r op o args) w o op args
  | read (id : Nat) (o : ObjectId) (key : Value) (w : World) :
    Asks r (Box.readObject r id o key) w o .index [w.bridge.heap.decode w.bridge.id key]
  | write (o : ObjectId) (key value : Value) (w : World) :
    Asks r (Box.writeObject r o key value) w o .newIndex
      [w.bridge.heap.decode w.bridge.id key, w.bridge.heap.decode w.bridge.id value]
  | text (o : ObjectId) (w : World) : Asks r (Box.textOfObject r o) w o .toText []
  | equalLeft {a : Value} {o : ObjectId} {w : World} (b : Value) :
    w.bridge.heap.decode w.bridge.id a = .object o →
      Asks r (Box.equalObjects r a b) w o .eq [w.bridge.heap.decode w.bridge.id b]
  | equalRight {a b : Value} {o : ObjectId} {w : World} :
    (w.bridge.heap.decode w.bridge.id a).object? = none →
      w.bridge.heap.decode w.bridge.id b = .object o →
      Asks r (Box.equalObjects r a b) w o .eq [w.bridge.heap.decode w.bridge.id a]

/-- A script comes to a host call, which it knows under a name and which begins in the later
world. -/
inductive Enters (r : Reentry) :
    {α : Type} → Act α → World → String → Act (Except CallError Variant) → World → Prop
  | callable (box : Value) (c : Callable) (args : List Value) (w : World) :
    Enters r (r.runBox box (.callable c) args) w (c.methodName?.getD Reentry.namelessCallable)
      (c.invoke r .attached (args.map (w.bridge.heap.decode w.bridge.id))) w
  | method {box : Nat} {v : Variant} {w : World} (name : String) (args : List Value) :
    w.bridge.heap.boxed? box = some v → Enters r (r.runMethod box name args) w name
      (v.invoke r .attached name ((Operation.ownArgs box args).map
        (w.bridge.heap.decode w.bridge.id))) w
  | factory (o : ObjectId) (args : List Value) (w : World) :
    Enters r (r.runOutside (.factory o) args) w "new"
      (r.callObject .attached o "new" (args.map (w.bridge.heap.decode w.bridge.id))) w
  | override {α : Type} {x : Act α} {w : World} {o : ObjectId} {op : Metamethod}
      {args : List Variant} {b : Behaviour} :
    Asks r x w o op args → (w.host.definition o).override? op = some b → op ≠ .gc →
      Enters r x w op.name (r.perform r.site .attached (some o) b args)
        { w with host := w.host.record (.override o op args) }

/-- The action ends with the error on its way into a script. -/
def Act.Throws (x : Act α) (w : World) (e : ScriptError) : Prop :=
  ∃ w', x w = (Act.throw e : Act α) w'

theorem Asks.throws {r : Reentry} {x : Act α} {w w' : World} {o : ObjectId} {op : Metamethod}
    {args : List Variant} (h : Asks r x w o op args) {b : Behaviour} {f : CallError}
    (hb : (w.host.definition o).override? op = some b) (hop : op ≠ .gc)
    (hf : r.perform r.site .attached (some o) b args
      { w with host := w.host.record (.override o op args) } = .ok (.error f) w') :
    x.Throws w (f.toScript op.name) := by
  have asked {γ : Type} (next : Option (Except CallError Variant) → Act γ) :
      (r.override? .attached o op args >>= next) w = next (some (.error f)) w' := by
    rw [r.override?_of_some hb hop, Act.bind_of_ok (Act.record_eq _ w), Act.bind_of_ok hf]
  refine ⟨w', ?_⟩
  -- Wherever the object is asked, its error goes to the script as that of the operation.
  cases h with
  | operation =>
    rw [Box.answerOrDecline, asked]
    rfl
  | read id o key w =>
    rw [Box.readObject, Act.bind_of_ok (Act.decode_eq key w), asked]
    rfl
  | write o key value w =>
    rw [Box.writeObject, Act.bind_of_ok (Act.decode_eq key w),
      Act.bind_of_ok (Act.decode_eq value w), asked]
    rfl
  | text =>
    rw [Box.textOfObject, asked]
    rfl
  | equalLeft c ha =>
    rw [Box.equalObjects, Act.bind_of_ok (Act.decode_eq _ w), Act.bind_of_ok (Act.decode_eq _ w),
      ha]
    dsimp only
    rw [asked]
    rfl
  | @equalRight a _ _ _ ha hc =>
    rw [Box.equalObjects, Act.bind_of_ok (Act.decode_eq _ w), Act.bind_of_ok (Act.decode_eq _ w),
      hc]
    generalize w.bridge.heap.decode w.bridge.id a = x at ha asked ⊢
    cases x with
    | object => cases ha
    | _ =>
      dsimp only
      rw [asked]
      rfl

theorem Enters.throws {r : Reentry} {x : Act α} {w w₁ w₂ : World} {method : String}
    {y : Act (Except CallError Variant)} (h : Enters r x w method y w₁) {f : CallError}
    (hy : y w₁ = .ok (.error f) w₂) : x.Throws w (f.toScript method) := by
  cases h with
  | callable box c args w =>
    refine ⟨w₂, ?_⟩
    rw [Reentry.runBox, Act.bind_of_ok (Act.decodeAll_eq args w), Act.bind_of_ok hy]
    rfl
  | @method box v w name args hb =>
    refine ⟨w₂, ?_⟩
    rw [r.runMethod_of_boxed hb, Act.bind_of_ok hy]
    rfl
  | factory o args w =>
    refine ⟨w₂, ?_⟩
    rw [Reentry.runOutside, Act.bind_of_ok (Act.decodeAll_eq args w), Act.bind_of_ok hy]
    rfl
  | override asks hb hop => exact asks.throws hb hop hy

/-! ### Chains of calls -/

open Act (Reaches)

/-- The host call passes on, as the error of a script, every error that the call of a script
fails with. -/
def Forwards (y : Act (Except CallError α)) (w : World) (z : Act (Except ScriptError β))
    (w' : World) : Prop :=
  ∀ e w₁, z w' = .ok (.error e) w₁ → ∃ w₂, y w = .ok (.error (.script e)) w₂

namespace Forwards

variable {y : Act (Except CallError Variant)} {z : Act (Except ScriptError β)} {w w' : World}

theorem callGlobal (r : Reentry) (ctx : Context) (self : Option ObjectId) (name : String)
    (args : List Variant) (w : World) : Forwards ((Behaviour.callGlobal name).run r ctx self args) w
      (r.callGlobal ctx name args) w := by
  intro e w₁ h
  refine ⟨w₁, ?_⟩
  rw [Behaviour.run, Act.bind_of_ok h]
  rfl

theorem native {r : Reentry} {ctx : Context} {f : Native} {b : Behaviour} {args : List Variant}
    (hb : w.host.behaviour? f = some b)
    (h : Forwards (r.perform r.site ctx none b args)
      { w with host := w.host.record (.native f.name args) } z w') :
    Forwards ((Callable.native f).invoke r ctx args) w z w' := by
  have known : (w.host.record (.native f.name args)).behaviour? f = some b := hb
  intro e w₁ failed
  obtain ⟨w₂, passed⟩ := h e w₁ failed
  refine ⟨w₂, ?_⟩
  rw [Callable.invoke, Act.bind_of_ok (Act.record_eq _ w), Act.bind_of_ok (Act.host_eq _), known]
  exact passed

theorem method {r : Reentry} {ctx : Context} {o : ObjectId} {name : String} {b : Behaviour}
    {args : List Variant} (hb : (w.host.definition o).method? name = some b)
    (h : Forwards (r.perform r.site ctx (some o) b args)
      { w with host := w.host.record (.call o name args) } z w') :
    Forwards (r.callObject ctx o name args) w z w' := by
  have full : (w.host.definition o).isBare = false := by
    cases hd : w.host.definition o with
    | bare => rw [hd] at hb; cases hb
    | full => rfl
  intro e w₁ failed
  obtain ⟨w₂, passed⟩ := h e w₁ failed
  refine ⟨w₂, ?_⟩
  rw [Reentry.callObject, Act.bind_of_ok (Act.host_eq _), full]
  simp only [Bool.false_eq_true, ↓reduceIte]
  rw [Act.bind_of_ok (Act.record_eq _ w), hb]
  exact passed

end Forwards

/-- The script function at the bottom of a callable, with the arguments that it gets. -/
def Callable.passes? : Callable → List Variant → Option (ScriptFunction × List Variant)
  | script f, args => some (f, args)
  | bound target extra placement, args => target.passes? (arrange extra placement args)
  | _, _ => none

theorem Callable.forwards_invoke (r : Reentry) (ctx : Context) {f : ScriptFunction}
    {passed : List Variant} (w : World) : (c : Callable) → (args : List Variant) →
      c.passes? args = some (f, passed) →
        Forwards (c.invoke r ctx args) w (r.callScript ctx f passed) w
  | script g, args, h => by
    rw [passes?] at h
    cases h
    intro e w₁ failed
    refine ⟨w₁, ?_⟩
    rw [invoke, Act.bind_of_ok failed]
    rfl
  | bound target extra placement, args, h => by
    rw [passes?] at h
    rw [invoke]
    exact forwards_invoke r ctx w target _ h
  | method .., _, h => by cases h
  | native _, _, h => by cases h

/-- The call of a script is the outermost of calls of scripts by hosts and of hosts by scripts, one
in the other, of which the last fails. All others pass the error on, and what a script catches it
raises again. No hook comes in between with an error of its own. -/
inductive Escapes : Cause → {α : Type} → Act (Except ScriptError α) → World → Prop
  | text {α β : Type} {r : Reentry} {z : Act (Except ScriptError α)} {x : Act β}
      {bytes : ByteArray} {w w₁ w₂ : World} :
    Crosses r z w x w₁ → x.Handled w₁ → x w₁ = .raised (.string bytes) w₂ →
      w₂.bridge.heap.handler? .toText (.string bytes) = none → Escapes (.text bytes) z w
  | thrown {α β γ : Type} {r : Reentry} {z : Act (Except ScriptError α)} {x : Act β}
      {e : ScriptError} {w w₁ w₂ : World} :
    Crosses r z w x w₁ → x.Handled w₁ → Reaches x w₁ (Act.throw e : Act γ) w₂ →
      Escapes (.thrown e) z w
  | fault {α β γ : Type} {r r' : Reentry} {z : Act (Except ScriptError α)} {x : Act β} {x' : Act γ}
      {method : String} {y : Act (Except CallError Variant)} {f : CallError}
      {w w₁ w₂ w₃ w₄ : World} :
    Crosses r z w x w₁ → x.Handled w₁ → Reaches x w₁ x' w₂ → Enters r' x' w₂ method y w₃ →
      y w₃ = .ok (.error f) w₄ → Escapes (.fault method f) z w
  | forwarded {α β γ δ : Type} {c : Cause} {r r' : Reentry} {z : Act (Except ScriptError α)}
      {x : Act β} {x' : Act γ} {method : String} {y : Act (Except CallError Variant)}
      {z' : Act (Except ScriptError δ)} {w w₁ w₂ w₃ w₄ : World} :
    Crosses r z w x w₁ → x.Handled w₁ → Reaches x w₁ x' w₂ → Enters r' x' w₂ method y w₃ →
      Forwards y w₃ z' w₄ → Escapes c z' w₄ → Escapes c z w
  /-- Printing raises the error that asking a script for a text fails with. -/
  | rethrown {α β γ : Type} {c : Cause} {r : Reentry} {z : Act (Except ScriptError α)} {x : Act β}
      {z' : Act (Except ScriptError γ)} {w w₁ w₂ : World} :
    Crosses r z w x w₁ → x.Handled w₁ → Reaches x w₁ (z' >>= Act.orThrow) w₂ →
      Escapes c z' w₂ → Escapes c z w

/-- An error that is thrown where a part of a script leads to is what the host call fails with. -/
theorem Crosses.fails_of_throws {γ : Type} {r : Reentry} {z : Act (Except ScriptError α)}
    {x : Act β} {x' : Act γ} {w w₁ w₂ : World} {e : ScriptError} (h : Crosses r z w x w₁)
    (hh : x.Handled w₁) (hr : Reaches x w₁ x' w₂) (hx : x'.Throws w₂ e) :
    ∃ w₃, z w = .ok (.error (e.withTraceback Act.traceback)) w₃ := by
  obtain ⟨w₃, hx⟩ := hx
  rw [Act.throw_eq] at hx
  obtain ⟨w₄, raised⟩ := hr.raises hx
  obtain ⟨w₅, handled⟩ := hh _ _ raised
  exact h.fails raised (r.toScriptError_fault handled _)

theorem Escapes.carried {c : Cause} {z : Act (Except ScriptError α)} {w : World}
    (h : Escapes c z w) : ∃ e w', z w = .ok (.error e) w' ∧ c.Carried e := by
  induction h with
  | @text _ _ r _ _ bytes _ _ _ crosses lets raised plain =>
    obtain ⟨w₃, handled⟩ := lets _ _ raised
    obtain ⟨w', failed⟩ := crosses.fails raised (r.toScriptError_text handled plain)
    exact ⟨_, w', failed, Cause.carried_text bytes⟩
  | thrown crosses lets reaches =>
    obtain ⟨w', failed⟩ := crosses.fails_of_throws lets reaches ⟨_, rfl⟩
    exact ⟨_, w', failed, Cause.carried_thrown _ _⟩
  | fault crosses lets reaches enters hy =>
    obtain ⟨w', failed⟩ := crosses.fails_of_throws lets reaches (enters.throws hy)
    exact ⟨_, w', failed, Cause.carried_fault _ _ _⟩
  | forwarded crosses lets reaches enters forwards _ ih =>
    obtain ⟨e, w₁, below, carried⟩ := ih
    obtain ⟨w₂, passed⟩ := forwards e w₁ below
    obtain ⟨w', failed⟩ := crosses.fails_of_throws lets reaches (enters.throws passed)
    refine ⟨e, w', ?_, carried⟩
    rw [failed, CallError.toScript, carried.withTraceback_eq]
  | @rethrown _ _ γ _ _ _ _ _ _ _ _ crosses lets reaches _ ih =>
    obtain ⟨e, w₁, below, carried⟩ := ih
    have thrown : (_ >>= Act.orThrow : Act γ).Throws _ e := ⟨w₁, Act.bind_of_ok below⟩
    obtain ⟨w', failed⟩ := crosses.fails_of_throws lets reaches thrown
    refine ⟨e, w', ?_, carried⟩
    rw [failed, carried.withTraceback_eq]

/-- An error crosses any number of calls of scripts by hosts and of hosts by scripts as it began.
Through a callable, too, a host gets it as the error of a script. -/
theorem errors_cross_boundaries_unchanged {c : Cause} {w : World} :
    (∀ {α : Type} {z : Act (Except ScriptError α)}, Escapes c z w →
      ∃ e w', z w = .ok (.error e) w' ∧ c.Carried e) ∧
    ∀ (r : Reentry) (ctx : Context) (callable : Callable) (args : List Variant)
      {f : ScriptFunction} {passed : List Variant}, callable.passes? args = some (f, passed) →
      Escapes c (r.callScript ctx f passed) w →
      ∃ e w', callable.invoke r ctx args w = .ok (.error (.script e)) w' ∧ c.Carried e := by
  refine ⟨fun h => h.carried, fun r ctx callable args f passed hc h => ?_⟩
  obtain ⟨e, w₁, failed, carried⟩ := h.carried
  obtain ⟨w', forwarded⟩ := callable.forwards_invoke r ctx w args hc e w₁ failed
  exact ⟨e, w', forwarded, carried⟩

/-! ### Relays -/

/-- The world with a script function that raises a text, and one that calls it through a host
function; and with one that calls a host function that fails, and one that calls it through a
method of an object, catches the error and raises it again. These are the functions 8 to 11, and
the method is function 12. -/
def World.relaying (text : String) : World where
  host :=
    let definition := .full "Relay" [] false [("relay", .callGlobal "failing")] none []
    { objects := [.new ⟨"relay"⟩ definition]
      natives := [⟨⟨"relay", "relay"⟩, .callGlobal "raising"⟩,
        ⟨⟨"broken", "broken"⟩, .fail .instanceIsNull⟩]
      log := [] }
  bridge :=
    let b := Bridge.fresh "main" 1 .restrictive false
    let function (h : Heap) (name : String) (body : Block) : Heap :=
      h.defineGlobal 1 name (.closure (.ofChunk body) [] "script")
    let native (h : Heap) (name : String) : Heap :=
      (h.newBox ⟨.callable (.native ⟨name, name⟩), rfl⟩).2.setGlobal name (.box h.boxes.size)
    let h := function b.heap "raising" [.raise (.string text.toUTF8)]
    let h := function h "relaying" [.perform (.call (.global "relay") [])]
    let h := function h "failing" [.perform (.call (.global "broken") [])]
    let h := function h "catching"
      [.protect "ok" "e" (.global "method") [], .raise (.global "e")]
    let h := (native (native h "relay") "broken").newBox ⟨.object ⟨"relay"⟩, rfl⟩
    { b with heap := h.2.defineGlobal 1 "method" (.method h.1 "relay") }

/-- A function of the script in `World.relaying`, where it comes to call something. -/
def Site.calling (s : Site) (name : String) : Site :=
  ⟨⟨some ⟨"script", 1⟩, none⟩ :: s.running, some (.global name), s.height + 1⟩

/-- What a host call that was made from a place can reach, if `n` more calls are counted. -/
def Reentry.ofHost (n : Nat) (s : Site) : Reentry :=
  ofApply (roomUnder (n + 1)) (applyValue (upTo n)) (hostLimit - 1) s.inside

theorem escapes_relaying : Escapes (.text "boom".toUTF8)
    (Request.reentry.callScript .attached ⟨1, 9⟩ []) (World.relaying "boom") := by
  let w := World.relaying "boom"
  let s := Site.outermost.calling "relay"
  let r := (Reentry.upTo 198 s).inside
  let host := Reentry.ofHost 197 s
  have calls : Reaches (Request.reentry.call (.function ⟨1, 9⟩) []) w
      (r.runBox (.box 0) (.callable (.native ⟨"relay", "relay"⟩)) []) w := by
    refine .call (.applyScript rfl rfl (.later rfl (.step _ ?_)))
    exact .perform rfl rfl (.callBox rfl (.outside rfl (.here _ _)))
  have forwards : Forwards (Callable.invoke r .attached (.native ⟨"relay", "relay"⟩) []) w
      (host.callGlobal .attached "raising" [])
      { w with host := w.host.record (.native "relay" []) } :=
    .native rfl (.callGlobal host .attached none _ _ _)
  have unwatched : Act.Handled (Request.reentry.call (.function ⟨1, 9⟩) []) w :=
    Act.handled_of_isUnwatched (by decide +kernel)
  refine .forwarded (.script rfl (.callIn _ rfl)) unwatched calls (.callable _ _ _ _) forwards ?_
  exact .text (.global rfl (.callIn _ rfl)) (Act.handled_of_isUnwatched rfl) rfl rfl

theorem escapes_catching : Escapes (.fault "broken" .instanceIsNull) (Request.call "catching" [])
    (World.relaying "boom") := by
  let w := World.relaying "boom"
  let w₁ := { w with host := w.host.record (.call ⟨"relay"⟩ "relay" []) }
  let s := Site.outermost.calling "pcall"
  let r := (Reentry.upTo 198 s).inside
  let r₁ := (Reentry.upTo 197 s.inside).inside
  let host := Reentry.ofHost 196 s.inside
  let r₂ := (Reentry.upTo 196 (s.inside.inside.calling "broken")).inside
  have protects : Reaches (Request.reentry.call (.function ⟨1, 11⟩) []) w
      (r.protectedCall (.function ⟨1, 12⟩) []) w := by
    refine .call (.applyScript rfl rfl (.later rfl (.later rfl (.step _ ?_))))
    exact .perform rfl rfl (.callOutside rfl (.outside rfl (.here _ _)))
  have calls : Reaches (r.apply r.site (.function ⟨1, 12⟩) []) w (r₁.runMethod 2 "relay" []) w :=
    .applyOutside rfl (.outside rfl (.here _ _))
  have caught : ((r.apply r.site (.function ⟨1, 12⟩) []) w).error? = some (.fault 1
      ⟨.runtime, "error calling 'broken': instance is null", some Act.traceback⟩) := by
    decide +kernel
  have raised : (Request.reentry.call (.function ⟨1, 11⟩) [] w).error? = some (.fault 1
      ⟨.runtime, "error calling 'broken': instance is null", some Act.traceback⟩) := by
    decide +kernel
  have forwards : Forwards (r₁.callObject .attached ⟨"relay"⟩ "relay" []) w
      (host.callGlobal .attached "failing" []) w₁ :=
    .method rfl (.callGlobal host .attached (some ⟨"relay"⟩) _ _ _)
  have fails : Reaches (host.call (.function ⟨1, 10⟩) []) w₁
      (r₂.runBox (.box 1) (.callable (.native ⟨"broken", "broken"⟩)) []) w₁ := by
    refine .call (.applyScript rfl rfl (.later rfl (.step _ ?_)))
    exact .perform rfl rfl (.callBox rfl (.outside rfl (.here _ _)))
  -- From the outside: the call that is reported, the error that is caught and raised again, the
  -- method that forwards, and the native function that fails.
  have unwatched : Act.Handled (Request.reentry.call (.function ⟨1, 11⟩) []) w :=
    Act.handled_of_isUnwatched (by decide +kernel)
  have unwatched₁ : Act.Handled (host.call (.function ⟨1, 10⟩) []) w₁ :=
    Act.handled_of_isUnwatched (by decide +kernel)
  refine .forwarded (.report (.global rfl (.callIn _ rfl))) unwatched
    (.again protects calls caught raised) (.method _ _ rfl) forwards ?_
  exact .fault (.global rfl (.callIn _ rfl)) unwatched₁ fails (.callable _ _ _ _) rfl

/-- Two chains, each through two script functions and a host call between them. -/
theorem errors_cross_boundaries_unchanged_relaying :
    let w := World.relaying "boom"
    let relay : Callable := .bound (.script ⟨1, 9⟩) [] .before
    (Escapes (.fault "broken" .instanceIsNull) (Request.call "catching" []) w ∧
      ∃ e w', Request.call "catching" [] w = .ok (.error e) w' ∧ e.kind = .runtime ∧
        e.message = "error calling 'broken': instance is null" ∧ e.traceback.isSome = true) ∧
    relay.passes? [] = some (⟨1, 9⟩, []) ∧
    Escapes (.text "boom".toUTF8) (Request.reentry.callScript .attached ⟨1, 9⟩ []) w ∧
    ∃ e w', relay.invoke Request.reentry .attached [] w = .ok (.error (.script e)) w' ∧
      e.kind = .runtime ∧ e.message = "boom" ∧ e.traceback.isSome = true := by
  intro w relay
  have told : (Cause.text "boom".toUTF8).message = "boom" :=
    Cause.message_text (by decide +kernel) (by decide +kernel)
  refine ⟨⟨escapes_catching, ?_⟩, rfl, escapes_relaying, ?_⟩
  · obtain ⟨e, w', failed, carried⟩ := errors_cross_boundaries_unchanged.1 escapes_catching
    exact ⟨e, w', failed, carried.kind, carried.message, carried.traced⟩
  · obtain ⟨e, w', failed, carried⟩ := errors_cross_boundaries_unchanged.2 Request.reentry
      .attached relay [] rfl escapes_relaying
    exact ⟨e, w', failed, carried.kind, carried.message.trans told, carried.traced⟩

/-- A raised text is cut at its first zero byte, strings that a script has given a text of their own
are told by that, and a hook may refuse what it sees of the error. -/
theorem raised_texts_may_arrive_changed :
    (let w := World.relaying "a\x00b"
     (∃ w', Request.reentry.call (.function ⟨1, 8⟩) [] w = .raised (.ofString "a\x00b") w') ∧
      ∃ e w', Request.call "raising" [] w = .ok (.error e) w' ∧ e.message = "a") ∧
    (let w := World.relaying "boom"
     let answers := Table.empty.set (.ofString "__tostring") (.function ⟨1, 2⟩)
     let h := (w.bridge.heap.newTable answers).2
     let w := w.withHeap { h with textMeta? := some 3 }
     (∃ w', Request.reentry.call (.function ⟨1, 8⟩) [] w = .raised (.ofString "boom") w') ∧
      ∃ e w', Request.call "raising" [] w = .ok (.error e) w' ∧ e.message = "string") ∧
    (let w := World.relaying "boom"
     let w := w.withHook (some ⟨⟨true, false, false, false⟩, 0, some (.stopAt 3), true, 0, 0, none,
       false⟩)
     (Request.reentry.call (.function ⟨1, 8⟩) [] w).error? = some (.ofString "boom") ∧
      ∃ e w', Request.call "raising" [] w = .ok (.error e) w' ∧
        e.message = "stopped at event 3") := by
  refine ⟨⟨⟨_, rfl⟩, _, _, rfl, ?_⟩, ⟨⟨_, rfl⟩, _, _, rfl, ?_⟩, ?_, _, _, rfl, ?_⟩
  · decide +kernel
  · decide +kernel
  · decide +kernel
  · decide +kernel

end ScriptHost
