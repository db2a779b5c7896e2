import ScriptHost.Proofs.Machine.Acting
import ScriptHost.Session

/-! What requests do to their bridges, each as one action, and what that action is composed of. -/

namespace ScriptHost

open Act (Composed)
open World (Covers Later Works)

/-! ### Libraries -/

namespace Heap.Works

theorem foldl {α : Type} {f : Heap → α → Heap} (hf : ∀ (h : Heap) x, h.Works (f h x))
    (xs : List α) (h : Heap) : h.Works (xs.foldl f h) := by
  induction xs generalizing h with
  | nil => exact refl h
  | cons x rest ih => exact (hf h x).trans (ih _)

theorem nameText (h : Heap) (id? : Option Nat) : h.Works { h with textMeta? := id? } :=
  of_contents rfl rfl rfl rfl rfl (List.prefix_refl _)

theorem openText (owner library : Nat) (h : Heap) : h.Works (h.openText owner library) := by
  let operation (id : Nat) (h : Heap) (op : Metamethod) : Heap :=
    (h.newFunction (.builtin (.textArithmetic op))).2.set id (.ofString op.name)
      (.function ⟨owner, (h.newFunction (.builtin (.textArithmetic op))).1⟩)
  have works (id : Nat) (h : Heap) (op : Metamethod) : h.Works (operation id h op) :=
    (newFunction h _).trans (set _ _ _ _)
  let empty := h.newTable .empty
  let filled := textOperations.foldl (operation empty.1) empty.2
  let indexed := filled.set empty.1 (.ofString Metamethod.index.name) (.table library)
  have all : h.Works { indexed with textMeta? := some empty.1 } :=
    (newTable h .empty).trans ((foldl (works empty.1) textOperations empty.2).trans
      ((set filled _ _ _).trans (nameText indexed _)))
  exact all

theorem fillLibrary (owner : Nat) (l : Library) (id : Nat) (h : Heap) :
    h.Works (h.fillLibrary owner l id) := by
  cases l with
  | coroutine => exact (newFunction h _).trans (set _ _ _ _)
  | io => exact ((set h _ _ _).trans (set _ _ _ _)).trans (set _ _ _ _)
  | string => exact openText owner id h
  | _ => exact refl h

theorem openLibrary (b : Bridge) (l : Library) : b.heap.Works (b.openLibrary l).heap := by
  unfold Bridge.openLibrary
  split
  · exact set _ _ _ _
  · exact ((newTable _ _).trans (fillLibrary _ _ _ _)).trans (set _ _ _ _)

end Heap.Works

namespace Bridge

theorem unhooked_openLibrary (b : Bridge) (l : Library) :
    b.unhooked.openLibrary l = (b.openLibrary l).unhooked := by
  have libraries : b.unhooked.libraries = b.libraries := rfl
  unfold openLibrary
  rw [libraries]
  cases assoc? l b.libraries <;> rfl

theorem id_openLibrary (b : Bridge) (l : Library) : (b.openLibrary l).id = b.id := by
  unfold openLibrary
  split <;> rfl

theorem hook?_openLibrary (b : Bridge) (l : Library) : (b.openLibrary l).hook? = b.hook? := by
  unfold openLibrary
  split <;> rfl

/-- All that a list of libraries changes. -/
theorem openLibraries (ls : List Library) (b : Bridge) :
    b.heap.Works (ls.foldl openLibrary b).heap ∧ (ls.foldl openLibrary b).id = b.id ∧
      (ls.foldl openLibrary b).hook? = b.hook? ∧
      ls.foldl openLibrary b.unhooked = (ls.foldl openLibrary b).unhooked := by
  induction ls generalizing b with
  | nil => exact ⟨.refl _, rfl, rfl, rfl⟩
  | cons l rest ih =>
    obtain ⟨hw, hi, hh, hu⟩ := ih (b.openLibrary l)
    rw [List.foldl_cons, List.foldl_cons, unhooked_openLibrary]
    exact ⟨(Heap.Works.openLibrary b l).trans hw, hi.trans (b.id_openLibrary l),
      hh.trans (b.hook?_openLibrary l), hu⟩

end Bridge

/-! ### Requests -/

variable {K : World → World → Prop} [Covers K]

namespace Request

section Pauses

variable [Pausing] [∀ most, Pausing.Abides most K]

theorem composed_reentry : reentry.Composed K := .full

omit [Pausing] [∀ most, Pausing.Abides most K] in
theorem composed_report {α : Type} {x : Act (Except ScriptError α)} (hx : Composed K x) :
    Composed K (report x) := by
  refine .bind hx fun result => ?_
  split
  · exact .pure _
  · exact .bridge (fun b => .ite (.bind (.record rfl) fun _ => .pure _) (.pure _)) fun _ => rfl

theorem composed_runChunk (name : String) (body : Block) : Composed K (runChunk name body) :=
  .ite (.bind (composed_reentry.guard (Reentry.Composed.runPrototype _ _)) fun _ => .pure _)
    (.pure _)

theorem composed_exec (name : String) (body : Block) : Composed K (exec name body) :=
  composed_report (composed_runChunk name body)

theorem composed_execFile (name : String) (file : Option Block) :
    Composed K (execFile name file) := by
  refine composed_report ?_
  cases file with
  | none => exact .pure _
  | some body => exact composed_runChunk name body

theorem composed_eval (name : String) (e : Expr) : Composed K (eval name e) := by
  refine composed_report (.ite
    (.bind (composed_reentry.guard (Reentry.Composed.runPrototype _ _)) fun result => ?_) (.pure _))
  split
  · exact .bind (.decode _) fun _ => .pure _
  · exact .pure _

omit [Pausing] in
theorem change_apply (f : Bridge → Except Refusal Bridge) (w : World) : change f w =
    match f w.bridge with
    | .ok b => .ok (.ok ()) { w with bridge := b }
    | .error refusal => .ok (.error refusal.error) w := by
  unfold change
  show (match f w.bridge with
    | .ok b => _
    | .error refusal => _ : Act (Except ScriptError Unit)) w = _
  cases f w.bridge <;> rfl

theorem composed_openLibrary (l : Library) : Composed K (openLibrary l) := by
  have make : Composed K (Act.onBridge (·.makeLibrary l)) :=
    .blind (.onBridge (fun _ => rfl) (fun _ => rfl) fun w =>
      Covers.of_works ⟨.refl _, (Heap.Works.newTable _ _).trans (.fillLibrary _ _ _ _), rfl⟩)
  refine .outside _ (.bridge (fun b => ?_) fun _ => rfl)
  split
  · exact .bind (.pure _) fun _ => composed_reentry.inside.setGlobal _ _
  · exact .bind (.outside _ make) fun _ => composed_reentry.inside.setGlobal _ _

theorem composed_openLibraries (ls : List Library) : Composed K (openLibraries ls) := by
  induction ls with
  | nil => exact .pure _
  | cons l rest ih =>
    refine .bind (composed_reentry.guard (composed_openLibrary l)) fun result => ?_
    split
    · exact ih
    · exact .pure _

theorem composed_closePackage : Composed K closePackage := by
  refine .bind (composed_reentry.guard (.bind
    (composed_reentry.onGlobals fun _ hr => hr.global _) fun _ => .outside _ (.pure _)))
    fun closed => ?_
  split
  · exact .pure _
  · exact .exhausted

theorem composed_bindLibraries (names : List String) : Composed K (bindLibraries names) := by
  unfold bindLibraries
  split
  · exact .pure _
  · refine .bridge (fun b => .bind (composed_openLibraries _) fun result => ?_) fun _ => rfl
    exact .ite (.bind composed_closePackage fun _ => .pure _) (.pure _)

omit [Pausing] [∀ most, Pausing.Abides most K] in
theorem composed_setMode (mode : AccessMode) : Composed K (setMode mode) :=
  .blind (.modifyBridge (fun _ => rfl) (fun _ => rfl) fun _ =>
    Covers.of_works ⟨.refl _, .refl _, rfl⟩)

theorem composed_expose (name : String) (factory : ObjectId) :
    Composed K (expose name factory) :=
  .host (fun _ => .ite (.bind (.newFunction _) fun _ =>
    composed_reentry.guard (composed_reentry.onGlobals fun _ hr => hr.setGlobal _ _)) (.pure _))
    fun _ => rfl

end Pauses

end Request

/-! ### Collections -/

namespace Heap

/-- Weak tables and what is known of them aside, `g` is what `h` is. -/
structure Sifts (h g : Heap) : Prop where
  boxes : g.boxes = h.boxes
  finalizable : g.finalizable = h.finalizable
  functions : g.functions = h.functions
  upkeep : g.upkeep = h.upkeep

namespace Sifts

variable {h g k : Heap}

theorem refl (h : Heap) : h.Sifts h := ⟨rfl, rfl, rfl, rfl⟩

theorem trans (hg : h.Sifts g) (gk : g.Sifts k) : h.Sifts k :=
  ⟨gk.boxes.trans hg.boxes, gk.finalizable.trans hg.finalizable,
    gk.functions.trans hg.functions, gk.upkeep.trans hg.upkeep⟩

theorem foldl {f : Heap → Value → Heap} (hf : ∀ h v, Sifts h (f h v)) (vs : List Value) (h : Heap) :
    h.Sifts (vs.foldl f h) := by
  induction vs generalizing h with
  | nil => exact refl h
  | cons v rest ih => exact (hf h v).trans (ih _)

theorem sift (h : Heap) (id : Nat) (keep : Key × Value → Bool) : h.Sifts (h.sift id keep) :=
  ⟨rfl, rfl, rfl, rfl⟩

theorem loseValues (h : Heap) (tables inUse : List Value) : h.Sifts (h.loseValues tables inUse) := by
  refine foldl (fun h v => ?_) tables h
  split
  · split
    · exact sift h _ _
    · exact refl h
  · exact refl h

theorem loseKeys (h : Heap) (tables inUse : List Value) : h.Sifts (h.loseKeys tables inUse) := by
  refine foldl (fun h v => ?_) tables h
  split
  · split
    · exact sift h _ _
    · exact refl h
  · exact refl h

/-- What a collection takes from weak tables. -/
theorem lose (h : Heap) (inUse doomed all : List Value) :
    h.Sifts (((h.loseValues inUse inUse).loseValues doomed all).loseKeys all all) :=
  (loseValues h _ _).trans ((loseValues _ _ _).trans (loseKeys _ _ _))

end Sifts

variable (h : Heap) (inUse all : List Value)

theorem functions_condemn : (h.condemn inUse all).functions = h.functions :=
  (Sifts.lose h inUse _ all).functions

theorem functions_emptyBox (id : Nat) : (h.emptyBox id).functions = h.functions := by
  unfold emptyBox
  split <;> rfl

theorem functions_takeDoomed : h.takeDoomed.functions = h.functions := by
  unfold takeDoomed
  split
  · rfl
  · dsimp only
    split
    · exact functions_emptyBox _ _
    · rfl

end Heap

/-- What is next to be finalized is no longer in line, and an object in it counts that. -/
def World.taken (w : World) : World where
  host := match w.bridge.heap.next? with
    | some (_, some (.object o)) => w.host.countEnd o
    | _ => w.host
  bridge := { w.bridge with heap := w.bridge.heap.takeDoomed }

/-- What a collection decides is done to the heap. -/
def World.condemned (w : World) (held : List Reference) (spared : List Value) : World :=
  let roots := w.bridge.roots (held ++ w.host.references ++ w.bridge.boxReferences) ++ spared
  let inUse := w.bridge.heap.reached roots
  let all := w.bridge.heap.reached (roots ++ w.bridge.heap.finalizable.filter (!inUse.contains ·))
  w.withHeap (w.bridge.heap.condemn inUse all)

/-- The world where something else is known of what runs. -/
def World.withFrames (w : World) (frames : List Frame) : World :=
  w.withHeap { w.bridge.heap with upkeep := { w.bridge.heap.upkeep with frames := frames } }

/-- What the collector does by itself to finalize something is as `K` says. -/
class World.Finalizes (K : World → World → Prop) : Prop extends Covers K where
  takes : ∀ w : World, K w w.taken
  wills : ∀ (w : World) (o : ObjectId) (result : Except CallError Variant),
    K w { w with host := w.host.keepWill o result }

/-- So is what it decides. -/
class World.Collects (K : World → World → Prop) : Prop extends World.Finalizes K where
  condemns : ∀ (w : World) (held : List Reference) (spared : List Value), K w (w.condemned held spared)

/-- And so is what it is told of what runs. -/
class World.Attends (K : World → World → Prop) : Prop extends World.Collects K where
  frames : ∀ (w : World) (frames : List Frame), K w (w.withFrames frames)

instance World.Later.attends : World.Attends Later where
  of_works := World.Works.later
  takes w := .of_functions rfl w.bridge.heap.functions_takeDoomed
  wills _ _ _ := .of_functions rfl rfl
  condemns w _ _ := .of_functions rfl (w.bridge.heap.functions_condemn _ _)
  frames _ _ := .of_functions rfl rfl

namespace Collector

theorem takeNext_eq (w : World) : takeNext w = .ok w.bridge.heap.next? w.taken := by
  have after (next? : Option (Value × Option Variant)) (w' : World) : (do
      match next? with
      | some (_, some (.object o)) => Act.modifyHost (·.countEnd o)
      | _ => pure ()
      return next? : Act (Option (Value × Option Variant))) w' =
      .ok next? { w' with host := match next? with
        | some (_, some (.object o)) => w'.host.countEnd o
        | _ => w'.host } := by
    split <;> rfl
  exact after w.bridge.heap.next? (w.withHeap w.bridge.heap.takeDoomed)

section Finalizing

variable {K : World → World → Prop} [World.Finalizes K]

theorem composed_takeNext : Composed K takeNext := by
  refine .blind fun w => ⟨.ok w.bridge.heap.next?, w.taken, takeNext_eq w, ?_, ?_,
    World.Finalizes.takes w⟩
  · rw [takeNext_eq]
    have same : w.plain.taken = w.taken.plain := by
      have heap : w.plain.bridge.heap = w.bridge.heap := rfl
      unfold World.taken
      rw [heap]
      split <;> rfl
    rw [same]
    rfl
  · refine .silent rfl ?_
    unfold World.taken
    dsimp only
    split <;> rfl

theorem composed_finalizeObject (o : ObjectId) : Composed K (finalizeObject o) := by
  refine .bind (Request.composed_reentry.override? _ _ _ _) fun result => ?_
  split
  · exact .blind (.modifyHost (fun _ => rfl) (fun _ => rfl) fun w => World.Finalizes.wills w o _)
  · exact .pure _

omit [World.Finalizes K] in
theorem composed_finalizeTable [Covers K] (id : Nat) : Composed K (finalizeTable id) := by
  refine .bind .heap fun h => ?_
  split
  · exact .pure _
  · exact .unhooked (Request.composed_reentry.call _ _)

theorem composed_finalize (next? : Option (Value × Option Variant)) :
    Composed K (finalize next?) := by
  unfold finalize
  split
  · exact composed_finalizeObject _
  · exact composed_finalizeTable _
  · exact .pure _

theorem composed_finalizeNext : Composed K finalizeNext :=
  .bind composed_takeNext composed_finalize

theorem composed_finalizeMany (n : Nat) : Composed K (finalizeMany n) := by
  induction n with
  | zero => exact .pure _
  | succ n ih => exact .bind composed_finalizeNext fun _ => ih

theorem composed_finalizeDoomed : Composed K finalizeDoomed :=
  .bind .heap fun _ => composed_finalizeMany _

end Finalizing

section Collecting

variable {K : World → World → Prop} [World.Collects K]

theorem composed_condemn (held : List Reference) (spared : List Value) :
    Composed K (condemn held spared) :=
  .blind fun w => ⟨.ok (), w.condemned held spared, rfl, rfl, .silent rfl rfl,
    World.Collects.condemns w held spared⟩

theorem composed_cycle (held : List Reference) : Composed K (cycle held) :=
  .bind composed_finalizeDoomed fun _ => .bind (composed_condemn held []) fun _ =>
    composed_finalizeDoomed

theorem composed_collectOnce (held : List Reference) : Composed K (collectOnce held) :=
  Request.composed_reentry.guard (.outside _ (composed_cycle held))

theorem composed_collect (held : List Reference) : Composed K (collect held) := by
  refine .bind (composed_collectOnce held) fun result => ?_
  split
  · exact composed_collectOnce held
  · exact .pure _

theorem composed_attend (held : List Reference) (plan : Plan) : Composed K (attend held plan) := by
  refine .bind .heap fun h => .bind (.modifyHeap fun h => ?_) fun _ => ?_
  · exact .of_contents rfl rfl rfl rfl rfl (List.prefix_refl _)
  · split
    · exact composed_condemn held _
    · exact composed_finalizeNext
    · exact .pure _

end Collecting

section Attending

variable {K : World → World → Prop} [World.Attends K]

theorem composed_frames (f : Heap → List Frame) :
    Composed K (Act.modifyHeap fun h => { h with upkeep := { h.upkeep with frames := f h } }) :=
  .blind fun w => ⟨.ok (), w.withFrames (f w.bridge.heap), rfl, rfl, .silent rfl rfl,
    World.Attends.frames w _⟩

/-- What the collector does between the steps of what runs is what it does anyway. -/
instance attending_abides (held : List Reference) (plan : Plan) (most : Nat) :
    @Pausing.Abides (attending held plan) most K := by
  let := attending held plan
  refine ⟨fun frame _ => ?_, fun references _ _ hx => ?_⟩
  · exact .bind (composed_frames _) fun _ => composed_attend held plan
  · refine .bridge (fun b => .bind (composed_frames _) fun _ => ?_) fun _ => rfl
    exact .bind hx fun _ => .bind (composed_frames _) fun _ => .pure _

end Attending

theorem composed_shutDown (held : List Reference) : Composed Later (shutDown held) := by
  refine .bind (composed_collectOnce held) fun _ => .bind ?_ fun _ => composed_finalizeDoomed
  exact .blind fun w => ⟨.ok (), _, rfl, rfl, .silent rfl rfl, .of_functions rfl rfl⟩

end Collector

/-! ### Requests as actions -/

namespace Step

/-- What a request does to its bridge, where `held` is in use elsewhere. One that opens a bridge
closes the one of the same name. -/
def act [Pausing] (held : List Reference) : Step → Act Answer
  | .open _ _ | .close => do Collector.shutDown held; return .done
  | .push x v => Answer.ofUnit <$> Request.push x v
  | .pull x _ => Answer.ofValue <$> Request.pull x
  | .eval e _ => Answer.ofValue <$> Request.eval Session.chunkName e
  | .call f args _ => Answer.ofValue <$> Request.call f args
  | .exec body => Answer.ofUnit <$> Request.exec Session.chunkName body
  | .load file => Answer.ofUnit <$> Request.execFile Session.chunkName file
  | .exists x => Answer.flag <$> Request.functionExists x
  | .permissive b => do
    Request.setMode (.ofPermissive b)
    return .mode (← Act.bridge).mode
  | .mode => do return .mode (← Act.bridge).mode
  | .libraries names => Answer.ofUnit <$> Request.bindLibraries names
  | .expose x factory => Answer.ofUnit <$> Request.expose x factory
  | .collect => Answer.ofUnit <$> Collector.collect held
  | .hook mask interval failAt? quiet =>
    Answer.ofUnit <$> Request.installHook mask interval failAt? quiet
  | .unhook => do Request.removeHook; return .done
  | .method v m args => Answer.ofCall <$> Request.callMethod v m args
  | .callable c args ctx => Answer.ofCall <$> Request.callCallable ctx c args
  | .equal a b => return .flag (a.same b)

/-- What a session makes of it. -/
def finish (name : String) : Step → Answer × Session → Answer × Session
  | .close, (.done, s) =>
    let s := { s with bridges := Session.without name s.bridges }
    (s.report, s)
  | .collect, (.done, s) => (s.report, s)
  | .pull _ save, r | .eval _ save, r | .call _ _ save, r => Session.keep save r
  | _, r => r

/-- Requests that only install or remove a hook. -/
def isHooking : Step → Bool
  | .hook .. | .unhook => true
  | _ => false

/-- Requests that a bridge need not be there for. -/
def isOpening : Step → Bool
  | .open .. => true
  | _ => false

/-- Requests that close the bridge that is there. -/
def isClosing : Step → Bool
  | .open .. | .close => true
  | _ => false

theorem composed_act {K : World → World → Prop} [World.Collects K] [Pausing]
    [∀ most, Pausing.Abides most K] (held : List Reference) {request : Step}
    (hh : request.isHooking = false) (hc : request.isClosing = false) :
    Composed K (request.act held) := by
  have answered {α : Type} {x : Act α} {f : α → Answer} (hx : Composed K x) :
      Composed K (f <$> x) := by
    rw [map_eq_pure_bind]
    exact .bind hx fun _ => .pure _
  have hr : Request.reentry.Composed K := Request.composed_reentry
  have mode : Composed K (do return .mode (← Act.bridge).mode : Act Answer) :=
    .bridge (fun _ => .pure _) fun _ => rfl
  cases request with
  | «open» | close => cases hc
  | hook | unhook => cases hh
  | collect => exact answered (Collector.composed_collect held)
  | push x v => exact answered (hr.pushGlobal _ x v)
  | pull x => exact answered (hr.pullGlobal _ x)
  | eval e => exact answered (Request.composed_eval _ e)
  | call f args => exact answered (Request.composed_report (hr.callGlobal _ f args))
  | exec body => exact answered (Request.composed_exec _ body)
  | load file => exact answered (Request.composed_execFile _ file)
  | «exists» x => exact answered (hr.functionExists _ x)
  | permissive b => exact .bind (Request.composed_setMode _) fun _ => mode
  | mode => exact mode
  | libraries names => exact answered (Request.composed_bindLibraries names)
  | expose x factory => exact answered (Request.composed_expose x factory)
  | method v m args => exact answered (Variant.composed_invoke hr _ v m args)
  | callable c args ctx => exact answered (Callable.composed_invoke hr ctx c args)
  | equal a b => exact .pure _

/-- All requests but those about hooks are composed of small steps. -/
theorem composed_act_later (held : List Reference) {request : Step}
    (hh : request.isHooking = false) : Composed Later (request.act held) := by
  have closed : Composed Later (do Collector.shutDown held; return .done : Act Answer) :=
    .bind (Collector.composed_shutDown held) fun _ => .pure _
  by_cases hc : request.isClosing = true
  · cases request with
    | «open» | close => exact closed
    | _ => cases hc
  · exact composed_act held hh (Bool.eq_false_iff.mpr hc)

end Step

namespace Session

variable (s : Session) (name : String)

/-- A bridge goes once its close is done. -/
theorem finish_close (r : Answer × Session) : Step.finish name .close r = match r with
    | (.done, s) =>
      let s := { s with bridges := without name s.bridges }
      (s.report, s)
    | (answer, s) => (answer, s) := by
  obtain ⟨answer, s⟩ := r
  cases answer <;> rfl

/-- Collections that are done are reported. -/
theorem finish_collect (r : Answer × Session) : Step.finish name .collect r = match r with
    | (.done, s) => (s.report, s)
    | (answer, s) => (answer, s) := by
  obtain ⟨answer, s⟩ := r
  cases answer <;> rfl

/-- A request is answered by what its action comes to. -/
theorem answer_eq [Pausing] {request : Step} (ho : request.isOpening = false) :
    s.answer name request =
      request.finish name (s.within name (request.act (s.heldOutside name))) := by
  cases request with
  | «open» => cases ho
  | close => exact (finish_close name _).symm
  | collect => exact (finish_collect name _).symm
  | _ => rfl

/-- The session with a new bridge. -/
def adding (s : Session) (name : String) (b : Bridge) : Session :=
  { s with bridges := putIn name b s.bridges, nextId := s.nextId + 1 }

/-- What becomes of the closing of what was there before a new bridge. -/
def replaced (name : String) (b : Bridge) : Answer × Session → Answer × Session
  | (.exhausted, s) => (.exhausted, { s with nextId := s.nextId + 1 })
  | (_, s) => (.done, s.adding name b)

theorem replaced_eq (name : String) (b : Bridge) (r : Answer × Session) :
    replaced name b r = match r with
      | (.exhausted, s) => (.exhausted, { s with nextId := s.nextId + 1 })
      | (_, s) => (.done, s.adding name b) := by
  obtain ⟨answer, s⟩ := r
  cases answer <;> rfl

/-- What was there under the name is closed before the new bridge takes its place. -/
theorem openBridge_of_ok [Pausing] {s : Session} {name : String} {settings : Settings} {observed : Bool}
    {b : Bridge} (hb : Bridge.openWith name s.nextId settings observed = .ok b) :
    s.openBridge name settings observed =
      replaced name b (s.within name (Step.close.act (s.heldOutside name))) := by
  unfold openBridge
  rw [hb]
  exact (replaced_eq name b _).symm

end Session

end ScriptHost
