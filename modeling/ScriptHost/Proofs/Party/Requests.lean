import ScriptHost.Proofs.Party.Collections
import ScriptHost.Proofs.Party.Opening

/-! Requests to a bridge and their answers, as one side of a session sees them. -/

namespace ScriptHost

open Act (Mirrors)

variable {p : Party}

/-! ### Requests and answers -/

namespace Step

/-- The request with the values in it as the party sees them. -/
def view (p : Party) : Step → Step
  | push name v => push name (v.view p)
  | call name args save => call name (args.map (Variant.view p)) save
  | method v name args => method (v.view p) name (args.map (Variant.view p))
  | callable c args ctx => callable (c.view p) (args.map (Variant.view p)) ctx
  | equal a b => equal (a.view p) (b.view p)
  | request => request

/-- All values in the request belong to the party, and it keeps its answer where the party does. -/
def Owned (p : Party) : Step → Prop
  | push _ v => v.Owned p
  | pull _ save | eval _ save => ∀ name, save = some name → p.saved name = true
  | call _ args save => (∀ v ∈ args, v.Owned p) ∧ ∀ name, save = some name → p.saved name = true
  | expose _ factory => p.object factory = true
  | method v _ args => v.Owned p ∧ ∀ v ∈ args, v.Owned p
  | callable c args _ => c.Owned p ∧ ∀ v ∈ args, v.Owned p
  | equal a b => a.Owned p ∧ b.Owned p
  | _ => True

@[simp] theorem isOpening_view (request : Step) :
    (request.view p).isOpening = request.isOpening := by cases request <;> rfl

end Step

def ObjectReport.view (p : Party) (x : ObjectReport) : ObjectReport :=
  { x with lastWill := x.lastWill.map (Except.map (Variant.view p)) }

namespace Answer

/-- The answer as the party sees it. Of objects it sees its own. -/
def view (p : Party) : Answer → Answer
  | value v => value (v.view p)
  | report objects =>
    report ((objects.filter fun x => p.object x.object).map (ObjectReport.view p))
  | answer => answer

def Owned (p : Party) : Answer → Prop
  | value v => v.Owned p
  | _ => True

instance : Sided Answer := ⟨view, Owned⟩

end Answer

namespace Act.Mirrors

theorem ofUnit {x y : Act (Except ScriptError Unit)} (hx : Mirrors p x y) :
    Mirrors p (Answer.ofUnit <$> x) (Answer.ofUnit <$> y) := by
  rw [map_eq_pure_bind, map_eq_pure_bind]
  refine .bind hx fun result _ => ?_
  cases result <;> exact .pure trivial

theorem ofValue {x y : Act (Except ScriptError Variant)} (hx : Mirrors p x y) :
    Mirrors p (Answer.ofValue <$> x) (Answer.ofValue <$> y) := by
  rw [map_eq_pure_bind, map_eq_pure_bind]
  refine .bind hx fun result hr => ?_
  cases result with
  | ok v => exact .pure (a := Answer.value v) hr
  | error e => exact .pure trivial

theorem ofCall {x y : Act (Except CallError Variant)} (hx : Mirrors p x y) :
    Mirrors p (Answer.ofCall <$> x) (Answer.ofCall <$> y) := by
  rw [map_eq_pure_bind, map_eq_pure_bind]
  refine .bind hx fun result hr => ?_
  cases result with
  | ok v => exact .pure (a := Answer.value v) hr
  | error e => exact .pure trivial

theorem flag {x y : Act Bool} (hx : Mirrors p x y) :
    Mirrors p (Answer.flag <$> x) (Answer.flag <$> y) := by
  rw [map_eq_pure_bind, map_eq_pure_bind]
  exact .bind hx fun _ _ => .pure trivial

theorem done {x y : Act Unit} (hx : Mirrors p x y) :
    Mirrors p (do x; return .done : Act Answer) (do y; return .done) :=
  .bind hx fun _ _ => .pure trivial

end Act.Mirrors

/-! ### What requests do -/

namespace Request

variable {α : Type} [Sided α]

theorem mirrors_report {x y : Act (Except ScriptError α)} (hx : Mirrors p x y) :
    Mirrors p (report x) (report y) := by
  refine .bind hx fun result hr => ?_
  cases result with
  | ok a => exact .pure hr
  | error e =>
    exact .bind .bridge fun b _ =>
      .ite (.bind (.record (.report b.name e)) fun _ _ => .pure trivial) (.pure trivial)

theorem mirrors_runChunk (name : String) (body : Block) :
    Mirrors p (runChunk name body) (runChunk name body) := by
  refine .ite (.bind (mirrors_reentry.guard (Reentry.Mirrors.runPrototype _ name)) fun result _ => ?_)
    (.pure trivial)
  cases result <;> exact .pure trivial

theorem mirrors_execFile (name : String) (file : Option Block) :
    Mirrors p (execFile name file) (execFile name file) := by
  refine mirrors_report ?_
  cases file with
  | none => exact .pure trivial
  | some body => exact mirrors_runChunk name body

theorem mirrors_eval (name : String) (e : Expr) : Mirrors p (eval name e) (eval name e) := by
  refine mirrors_report (.ite (.bind
    (mirrors_reentry.guard (Reentry.Mirrors.runPrototype _ name)) fun result _ => ?_) (.pure trivial))
  cases result with
  | error e => exact .pure trivial
  | ok results =>
    dsimp only [Sided.view]
    have first : Reentry.first (results.map (Value.view p)) = (Reentry.first results).view p :=
      Reentry.Mirrors.first_view results
    rw [first]
    exact .bind (.decode _) fun x hx => .pure (a := Except.ok x) hx

/-- A change of the bridge that the party sees alike, or that is refused alike. -/
theorem mirrors_change {f g : Bridge → Except Refusal Bridge}
    (hview : ∀ b : Bridge, g (b.view p) = (f b).map (Bridge.view p))
    (hf : ∀ b b', b.Owned p → f b = .ok b' → b'.Owned p ∧ b'.name = b.name ∧ b'.id = b.id) :
    Mirrors p (change f) (change g) := by
  intro w hw
  rw [change_apply, change_apply]
  have seen : g (w.view p).bridge = (f w.bridge).map (Bridge.view p) := hview w.bridge
  rw [seen]
  cases hb : f w.bridge with
  | error refusal => exact .ok (a := Except.error refusal.error) trivial (.refl hw)
  | ok b =>
    obtain ⟨owned, name, id⟩ := hf _ _ hw.bridge hb
    have serves : w.Serves p ⟨w.host, b⟩ := ⟨⟨hw.host, hw.others, owned⟩, .refl _, name, id⟩
    exact .ok (a := Except.ok ()) trivial serves

theorem mirrors_openLibrary (l : Library) :
    Mirrors p (openLibrary l) (openLibrary l) := by
  have make : Mirrors p (Act.onBridge (·.makeLibrary l)) (Act.onBridge (·.makeLibrary l)) :=
    .onBridge (fun b hb => ⟨b.view_makeLibrary l, trivial, (hb.makeLibrary l).heap⟩)
      fun _ => ⟨rfl, rfl⟩
  have named (id : Nat) : Mirrors p (reentry.inside.setGlobal l.name (.table id))
      (reentry.inside.setGlobal l.name (.table id)) :=
    mirrors_reentry.inside.setGlobal _ (.table id)
  refine .outside none (.bind .bridge fun b _ => ?_)
  dsimp only [Sided.view]
  rw [show (b.view p).libraries = b.libraries from rfl]
  cases assoc? l b.libraries with
  | some id => exact .bind (.pure (a := id) trivial) fun id _ => named id
  | none => exact .bind (.outside none make) fun id _ => named id

theorem mirrors_openLibraries (ls : List Library) :
    Mirrors p (openLibraries ls) (openLibraries ls) := by
  induction ls with
  | nil => exact .pure trivial
  | cons l rest ih =>
    refine .bind (mirrors_reentry.guard (mirrors_openLibrary l)) fun result _ => ?_
    cases result with
    | ok _ => exact ih
    | error e => exact .pure trivial

theorem mirrors_closePackage : Mirrors p closePackage closePackage := by
  refine .bind (mirrors_reentry.guard (.bind
    (mirrors_reentry.onGlobals fun _ hr => hr.global _) fun v _ =>
      .outside none (.pure (a := v) trivial))) fun closed _ => ?_
  cases closed with
  | error e => exact .exhausted
  | ok v => cases v <;> first | exact .pure trivial | exact .exhausted

theorem mirrors_bindLibraries (names : List String) :
    Mirrors p (bindLibraries names) (bindLibraries names) := by
  unfold bindLibraries
  cases Bridge.librariesOf names with
  | error refusal => exact .pure trivial
  | ok asked =>
    refine .bind .bridge fun b _ => .bind (mirrors_openLibraries _) fun result hr => ?_
    have told : Mirrors p (pure result) (pure (Sided.view p result)) := .pure hr
    exact .ite (.bind mirrors_closePackage fun _ _ => told) told

theorem mirrors_installHook (mask : Mask) (interval : Nat) (failAt? : Option Nat) (quiet : Bool) :
    Mirrors p (installHook mask interval failAt? quiet)
      (installHook mask interval failAt? quiet) := by
  have change_ : installHook mask interval failAt? quiet = change fun b =>
      (Bridge.hookOf mask interval failAt? quiet).map fun hook => { b with hook? := some hook } := by
    unfold installHook
    cases Bridge.hookOf mask interval failAt? quiet <;> rfl
  rw [change_]
  cases Bridge.hookOf mask interval failAt? quiet with
  | error refusal => exact mirrors_change (fun _ => rfl) fun _ _ _ h => by cases h
  | ok hook =>
    refine mirrors_change (fun _ => rfl) fun b b' hb h => ?_
    cases h
    exact ⟨⟨hb.interpreter, hb.heap⟩, rfl, rfl⟩

theorem mirrors_setMode (mode : AccessMode) : Mirrors p (setMode mode) (setMode mode) :=
  .modifyBridge (fun _ => rfl) (fun _ hb => hb.heap) fun _ => ⟨rfl, rfl⟩

theorem mirrors_expose (name : String) {factory : ObjectId} (ho : p.object factory = true) :
    Mirrors p (expose name factory) (expose name factory) := by
  refine .bind .host fun h _ => .test (Host.hasMethod_view ho "new") ?_ (.pureOf trivial ?_)
  · have made : (Function.factory factory).Owned p := ho
    exact .bind (.newFunction made) fun f _ =>
      mirrors_reentry.guard (mirrors_reentry.onGlobals fun _ hr => hr.setGlobal name f)
  · have class_ : (h.view p).classOf factory = h.classOf factory := Host.classOf_view ho
    exact congrArg (fun c => Except.error (Refusal.noConstructor name c).error) class_

end Request

namespace Step

open Request (mirrors_reentry)

/-- A request of the party does the same where nothing but the party's is held. -/
theorem mirrors_act (held : List Reference) {request : Step} (hr : request.Owned p) :
    Mirrors p (request.act held) ((request.view p).act (Reference.seen p held)) := by
  cases request with
  | «open» | close => exact .done (Collector.mirrors_shutDown held)
  | collect => exact .ofUnit (Collector.mirrors_collect held)
  | push name v => exact .ofUnit (mirrors_reentry.pushGlobal _ name hr)
  | pull name => exact .ofValue (mirrors_reentry.pullGlobal _ name)
  | eval e => exact .ofValue (Request.mirrors_eval _ e)
  | call name args =>
    exact .ofValue (Request.mirrors_report (mirrors_reentry.callGlobal _ name hr.1))
  | exec body => exact .ofUnit (Request.mirrors_report (Request.mirrors_runChunk _ body))
  | load file => exact .ofUnit (Request.mirrors_execFile _ file)
  | «exists» name => exact .flag (mirrors_reentry.functionExists _ name)
  | permissive b =>
    exact .bind (Request.mirrors_setMode _) fun _ _ => .bind .bridge fun _ _ => .pure trivial
  | mode => exact .bind .bridge fun _ _ => .pure trivial
  | libraries names => exact .ofUnit (Request.mirrors_bindLibraries names)
  | expose name factory => exact .ofUnit (Request.mirrors_expose name hr)
  | hook mask interval failAt? quiet =>
    exact .ofUnit (Request.mirrors_installHook mask interval failAt? quiet)
  | unhook => exact .done (.setHook none)
  | method v name args => exact .ofCall (Variant.mirrors_invoke mirrors_reentry _ hr.1 name hr.2)
  | callable c args ctx => exact .ofCall (Callable.mirrors_invoke mirrors_reentry ctx c hr.1 hr.2)
  | equal a b => exact .pureOf trivial (congrArg Answer.flag (Variant.same_view a b))

end Step

end ScriptHost
