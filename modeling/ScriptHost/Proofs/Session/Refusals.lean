import ScriptHost.Proofs.Box.Dispatch
import ScriptHost.Proofs.Codec.Growing
import ScriptHost.Proofs.Session.Globals
import ScriptHost.Proofs.Session.Reports

/-! Operations that a host is refused. Each is refused before it changes anything: no script and
no host function runs, and the bridge is as it was, but for tables and boxes that nothing refers
to, made for a value of which a later part was refused. -/

namespace ScriptHost

/-! ### What is refused -/

namespace Bridge

theorem librariesOf_eq_error {names : List String} {name : String} (hm : name ∈ names)
    (hb : name ≠ "base") (hu : Library.ofName? name = none) :
    ∃ refusal, librariesOf names = .error refusal := by
  induction names with
  | nil => cases hm
  | cons first rest ih =>
    rw [librariesOf]
    by_cases hd : first = "debug"
    · subst hd
      exact ⟨_, rfl⟩
    · rcases List.mem_cons.mp hm with rfl | hm
      · rw [if_neg hb, if_neg hd, hu]
        exact ⟨_, rfl⟩
      · obtain ⟨refusal, hr⟩ := ih hm
        rw [hr]
        by_cases hf : first = "base"
        · rw [if_pos hf]
          exact ⟨_, rfl⟩
        · rw [if_neg hf, if_neg hd]
          cases Library.ofName? first <;> exact ⟨_, rfl⟩

/-- The requests that the bridge refuses before it does anything. -/
inductive Refuses (b : Bridge) (host : Host) : Step → Prop
  /-- A value with a function of another interpreter. -/
  | push {x : String} {v : Variant} {f : ScriptFunction} : v.Meets f → f.owner ≠ b.id →
    Refuses b host (.push x v)
  | missing {x : String} {args : List Variant} {save : Option String} :
    (∀ f, b.heap.get Heap.globals (.ofString x) ≠ .function f) → Refuses b host (.call x args save)
  | argument {x : String} {args : List Variant} {save : Option String} {v : Variant}
    {f : ScriptFunction} : v ∈ args → v.Meets f → f.owner ≠ b.id →
    Refuses b host (.call x args save)
  /-- A function of another interpreter, with arguments bound to it or without. -/
  | function {c : Callable} {f : ScriptFunction} {args : List Variant} : c.base = .script f →
    f.owner ≠ b.id → Refuses b host (.callable c args .attached)
  | debug {names : List String} : "debug" ∈ names → Refuses b host (.libraries names)
  | library {names : List String} {name : String} : name ∈ names → name ≠ "base" →
    Library.ofName? name = none → Refuses b host (.libraries names)
  | mask {mask : Mask} {interval : Nat} {failAt? : Option Nat} {quiet : Bool} :
    mask.isEmpty = true → Refuses b host (.hook mask interval failAt? quiet)
  | interval {mask : Mask} {failAt? : Option Nat} {quiet : Bool} : mask.count = true →
    Refuses b host (.hook mask 0 failAt? quiet)
  | factory {x : String} {o : ObjectId} : host.hasMethod o "new" = false →
    Refuses b host (.expose x o)
  | exec {body : Block} : Stmt.blockParses body = false → Refuses b host (.exec body)
  | load {body : Block} : Stmt.blockParses body = false → Refuses b host (.load (some body))
  | eval {e : Expr} {save : Option String} : e.parses = false → Refuses b host (.eval e save)

end Bridge

/-- Whether the request has host values stored for the script. -/
def Step.stores : Step → Bool
  | push .. | call .. => true
  | _ => false

/-- The answer to a request that is refused. -/
def Step.refused (e : ScriptError) : Step → Answer
  | callable .. => .callFailed (.script e)
  | _ => .failed e

/-! ### In a running interpreter -/

namespace Reentry

variable {w : World} {name : String} {v : Variant} {args : List Variant} {f : ScriptFunction}

/-- The globals can be read without calling anything. -/
theorem global_of_no_meta (r : Reentry) (hg : (w.bridge.heap.table Heap.globals).meta? = none)
    (name : String) : r.onGlobals (·.global name) w =
      .ok (w.bridge.heap.get Heap.globals (.ofString name)) w := by
  rw [r.onGlobals_of_no_meta hg]
  refine r.global_eq (.inr fun m hm => ?_)
  rw [hg] at hm
  cases hm

theorem pushGlobal_of_meets (hm : v.Meets f) (hf : f.owner ≠ w.bridge.id) (name : String) :
    ∃ g, w.bridge.heap.Grows g ∧ ∀ r : Reentry, r.pushGlobal .attached name v w =
      .ok (.error Refusal.foreignFunctionPassed.error) (w.withHeap g) := by
  obtain ⟨refusal, g, he⟩ := (Heap.encode_eq_error_iff (h := w.bridge.heap)).mpr ⟨f, hm, hf⟩
  obtain rfl := Heap.eq_of_encode_eq_error he
  have grows := Heap.grows_encode w.bridge.id v w.bridge.heap
  rw [he] at grows
  refine ⟨g, grows, fun r => ?_⟩
  rw [pushGlobal]
  have encoded : Act.encode v w = .ok (.error .foreignFunctionPassed) (w.withHeap g) := by
    rw [Act.encode_eq, he]
  rw [Act.bind_of_ok encoded]
  rfl

theorem callIn_of_meets (hv : v ∈ args) (hm : v.Meets f) (hf : f.owner ≠ w.bridge.id) :
    ∃ g, w.bridge.heap.Grows g ∧ ∀ (r : Reentry) (called : Value), r.callIn called args w =
      .ok (.error Refusal.foreignFunctionPassed.error) (w.withHeap g) := by
  have grows : w.bridge.heap.Grows (Heap.encodeItems w.bridge.id args w.bridge.heap).2 :=
    Heap.Grows.storing.encodeAll _ _
  have storing (v : Variant) (_ : v ∈ args) := Heap.crossing_encode w.bridge.id v
  rcases Heap.crossing_items storing w.bridge.heap with ⟨_, _, _, g, -, -, -, he⟩ | ⟨own, -⟩
  · rw [he] at grows
    refine ⟨g, grows, fun r called => ?_⟩
    have encoded : Act.encodeAll args w = .ok (.error .foreignFunctionPassed) (w.withHeap g) := by
      show Outcome.ok (Heap.encodeItems w.bridge.id args w.bridge.heap).1
        (w.withHeap (Heap.encodeItems w.bridge.id args w.bridge.heap).2) = _
      rw [he]
    rw [callIn, Act.bind_of_ok encoded]
    rfl
  · exact absurd (own v hv f hm) hf

theorem callGlobal_of_missing (hg : (w.bridge.heap.table Heap.globals).meta? = none)
    (hn : ∀ f, w.bridge.heap.get Heap.globals (.ofString name) ≠ .function f) (r : Reentry)
    (args : List Variant) :
    r.callGlobal .attached name args w = .ok (.error (Refusal.noFunction name).error) w := by
  have read := r.guard_of_ok (r.global_of_no_meta hg name)
  rw [callGlobal, Act.bind_of_ok read]
  generalize w.bridge.heap.get Heap.globals (.ofString name) = x at hn ⊢
  cases x with
  | function f => exact absurd rfl (hn f)
  | _ => rfl

/-- A call of a global with a refused argument, be there a function or not. -/
theorem callGlobal_of_meets (hg : (w.bridge.heap.table Heap.globals).meta? = none)
    (hv : v ∈ args) (hm : v.Meets f) (hf : f.owner ≠ w.bridge.id) (name : String) :
    ∃ refusal g, w.bridge.heap.Grows g ∧ ∀ r : Reentry, r.callGlobal .attached name args w =
      .ok (.error (Refusal.error refusal)) (w.withHeap g) := by
  by_cases hn : ∃ f, w.bridge.heap.get Heap.globals (.ofString name) = .function f
  · obtain ⟨called, hn⟩ := hn
    obtain ⟨g, grows, refused⟩ := callIn_of_meets hv hm hf
    refine ⟨.foreignFunctionPassed, g, grows, fun r => ?_⟩
    have read := r.guard_of_ok (r.global_of_no_meta hg name)
    rw [hn] at read
    rw [callGlobal, Act.bind_of_ok read]
    exact refused r _
  · exact ⟨.noFunction name, w.bridge.heap, .refl _, fun r =>
      r.callGlobal_of_missing hg (fun f h => hn ⟨f, h⟩) args⟩

theorem callScript_of_foreign (hf : f.owner ≠ w.bridge.id) (r : Reentry) (args : List Variant) :
    r.callScript .attached f args w = .ok (.error Refusal.foreignFunctionCalled.error) w := by
  rw [callScript, Act.bind_of_ok (Act.bridge_eq _), if_neg hf]
  rfl

end Reentry

/-! ### Requests -/

namespace Request

variable {w w₁ : World} {refusal : Refusal}

theorem change_of_refused {f : Bridge → Except Refusal Bridge}
    (hf : f w.bridge = .error refusal) : change f w = .ok (.error refusal.error) w := by
  rw [change, Act.bind_of_ok (Act.bridge_eq _), hf]
  rfl

theorem runChunk_of_malformed {body : Block} (hb : Stmt.blockParses body = false) (name : String)
    (w : World) : runChunk name body w = .ok (.error Refusal.malformed.error) w := by
  unfold runChunk
  rw [if_neg (Bool.not_eq_true _ ▸ hb)]
  rfl

theorem eval_of_malformed {e : Expr} (he : e.parses = false) (name : String) :
    eval name e = report (return .error Refusal.malformed.error) := by
  unfold eval
  rw [if_neg (Bool.not_eq_true _ ▸ he)]

theorem expose_of_no_constructor {factory : ObjectId}
    (hf : w.host.hasMethod factory "new" = false) (name : String) : expose name factory w =
      .ok (.error (Refusal.noConstructor name (w.host.classOf factory)).error) w := by
  rw [expose, Act.bind_of_ok (Act.host_eq _), if_neg (Bool.not_eq_true _ ▸ hf)]
  rfl

end Request

/-! ### Sessions -/

namespace Session

/-- The session after a bridge has refused a request: a report may be due, and there may be more in
the heap. -/
def afterRefusal (s : Session) (name : String) (b : Bridge) (request : Step) (e : ScriptError)
    (heap : Heap) : Session where
  host := { s.host with
    log := (request.due b.handler? (request.refused e)).reverse ++ s.host.log }
  bridges := putIn name { b with heap := heap } s.bridges
  nextId := s.nextId
  saved := s.saved

variable {s : Session} {name : String} {b : Bridge} {request : Step} {e : ScriptError} {heap : Heap}

/-- An operation that is refused and whose error goes to nobody else. -/
theorem within_of_refused (request : Step) {α ε : Type} {x : Act (Except ε α)}
    {f : Except ε α → Answer} {d : ε}
    (hb : assoc? name s.bridges = some b) (hr : request.isReported = false)
    (hf : f (.error d) = request.refused e)
    (hx : x ⟨s.host, b⟩ = .ok (.error d) ⟨s.host, { b with heap := heap }⟩) :
    s.within name (f <$> x) = (request.refused e, s.afterRefusal name b request e heap) := by
  rw [within_of_ok hb (Act.map_of_ok hx f), hf, afterRefusal, Step.due_of_not_reported hr]
  rfl

/-- An operation that is refused and whose error is reported. -/
theorem within_of_reported (request : Step) {α : Type} {x : Act (Except ScriptError α)}
    {f : Except ScriptError α → Answer} (hb : assoc? name s.bridges = some b)
    (hr : request.isReported = true) (hf : f (.error e) = .failed e)
    (hx : x ⟨s.host, b⟩ = .ok (.error e) ⟨s.host, { b with heap := heap }⟩) :
    s.within name (f <$> Request.report x) =
      (request.refused e, s.afterRefusal name b request e heap) := by
  have answer : request.refused e = .failed e := by
    cases request <;> first | rfl | cases hr
  have due : (request.due b.handler? (.failed e)).reverse =
      b.handler?.toList.map (.report · e) := by
    unfold Step.due
    rw [hr]
    cases b.handler? <;> rfl
  rw [within_of_ok hb (Act.map_of_ok (Request.report_of_error hx) f), hf, afterRefusal, answer, due]
  rfl

/-- A request that a bridge refuses leaves the session as it was. -/
theorem answer_of_refuses (hb : assoc? name s.bridges = some b)
    (hg : (b.heap.table Heap.globals).meta? = none) (hr : b.Refuses s.host request) :
    ∃ (refusal : Refusal) (heap : Heap), b.heap.Grows heap ∧
      (request.stores = false → heap = b.heap) ∧
      s.answer name request = (request.refused refusal.error,
        s.afterRefusal name b request refusal.error heap) := by
  let w : World := ⟨s.host, b⟩
  have same {refusal : Refusal} (h : s.answer name request = (request.refused refusal.error,
      s.afterRefusal name b request refusal.error b.heap)) :
      ∃ (refusal : Refusal) (heap : Heap), b.heap.Grows heap ∧
        (request.stores = false → heap = b.heap) ∧
        s.answer name request = (request.refused refusal.error,
          s.afterRefusal name b request refusal.error heap) :=
    ⟨refusal, b.heap, .refl _, fun _ => rfl, h⟩
  -- Storing may leave tables and boxes behind. All other refusals come before anything is done.
  cases hr with
  | @push x v f hm hf =>
    obtain ⟨heap, grows, refused⟩ := Reentry.pushGlobal_of_meets (w := w) hm hf x
    exact ⟨_, heap, grows, nofun, within_of_refused _ hb rfl rfl (refused _)⟩
  | @missing x args save hn =>
    have refused := Request.reentry.callGlobal_of_missing (w := w) hg hn args
    have within := within_of_reported (.call x args save) (f := Answer.ofValue) hb rfl rfl
      refused
    exact same (congrArg (keep save) within)
  | @argument x args save v f hv hm hf =>
    obtain ⟨refusal, heap, grows, refused⟩ :=
      Reentry.callGlobal_of_meets (w := w) hg hv hm hf x
    have within := within_of_reported (.call x args save) (f := Answer.ofValue) hb rfl rfl
      (refused Request.reentry)
    exact ⟨refusal, heap, grows, nofun, congrArg (keep save) within⟩
  | @function c f args hc hf =>
    have refused := Callable.invoke_foreign Request.reentry (w := w) hf c hc args
    exact ⟨.foreignFunctionCalled, b.heap, .refl _, fun _ => rfl,
      within_of_refused _ hb rfl rfl refused⟩
  | @debug names hm =>
    obtain ⟨refusal, hl⟩ := Bridge.librariesOf_eq_error hm (by decide) (by decide)
    have refused : Request.bindLibraries names w = .ok (.error refusal.error) w := by
      rw [Request.bindLibraries, hl]
      rfl
    exact same (within_of_refused _ hb rfl rfl refused)
  | @library names name hm hn hu =>
    obtain ⟨refusal, hl⟩ := Bridge.librariesOf_eq_error hm hn hu
    have refused : Request.bindLibraries names w = .ok (.error refusal.error) w := by
      rw [Request.bindLibraries, hl]
      rfl
    exact same (within_of_refused _ hb rfl rfl refused)
  | @mask mask interval failAt? quiet hm =>
    have refused : Request.installHook mask interval failAt? quiet w =
        .ok (.error Refusal.emptyMask.error) w :=
      Request.change_of_refused (by rw [Bridge.hookOf, if_pos hm]; rfl)
    exact same (within_of_refused _ hb rfl rfl refused)
  | @interval mask failAt? quiet hm =>
    have held : ¬ mask.isEmpty = true := fun he => by
      rw [eq_of_beq he] at hm
      cases hm
    have refused : Request.installHook mask 0 failAt? quiet w =
        .ok (.error Refusal.zeroCount.error) w :=
      Request.change_of_refused (by rw [Bridge.hookOf, if_neg held, if_pos ⟨hm, rfl⟩]; rfl)
    exact same (within_of_refused _ hb rfl rfl refused)
  | @factory x o hf =>
    exact same (within_of_refused _ hb rfl rfl (Request.expose_of_no_constructor (w := w) hf x))
  | @exec body hm =>
    exact same (within_of_reported _ hb rfl rfl (Request.runChunk_of_malformed hm chunkName w))
  | @load body hm =>
    exact same (within_of_reported _ hb rfl rfl (Request.runChunk_of_malformed hm chunkName w))
  | @eval e save hm =>
    have refused : (return .error Refusal.malformed.error : Act (Except ScriptError Variant)) w =
      .ok (.error Refusal.malformed.error) w := rfl
    have within := within_of_reported (.eval e save) (f := Answer.ofValue) hb rfl rfl
      refused
    rw [← Request.eval_of_malformed hm chunkName] at within
    exact same (congrArg (keep save) within)

end Session

/-- What a bridge refuses it answers with an error, and that is all: whatever was in its heap and
all its settings are as they were, and at most the error itself is reported. Through a context,
too, nothing is called on the way to a refusal, whatever there is to call. -/
theorem refused_requests_change_nothing :
    (∀ (s : Session) (name : String) (b : Bridge) (request : Step),
      assoc? name s.bridges = some b → (b.heap.table Heap.globals).meta? = none →
      b.Refuses s.host request → ∃ (refusal : Refusal) (heap : Heap), b.heap.Grows heap ∧
        (request.stores = false → heap = b.heap) ∧
        s.answer name request = (request.refused refusal.error,
          s.afterRefusal name b request refusal.error heap)) ∧
    ∀ w : World, (w.bridge.heap.table Heap.globals).meta? = none →
      (∀ name v f, Variant.Meets f v → f.owner ≠ w.bridge.id → ∃ g, w.bridge.heap.Grows g ∧
        ∀ r : Reentry, r.pushGlobal .attached name v w =
          .ok (.error Refusal.foreignFunctionPassed.error) (w.withHeap g)) ∧
      (∀ name, (∀ f, w.bridge.heap.get Heap.globals (.ofString name) ≠ .function f) →
        ∀ (r : Reentry) (args : List Variant), r.callGlobal .attached name args w =
          .ok (.error (Refusal.noFunction name).error) w) ∧
      (∀ name args v f, v ∈ args → Variant.Meets f v → f.owner ≠ w.bridge.id →
        ∃ refusal g, w.bridge.heap.Grows g ∧ ∀ r : Reentry, r.callGlobal .attached name args w =
          .ok (.error (Refusal.error refusal)) (w.withHeap g)) ∧
      ∀ f : ScriptFunction, f.owner ≠ w.bridge.id → ∀ (r : Reentry) (args : List Variant),
        r.callScript .attached f args w =
          .ok (.error Refusal.foreignFunctionCalled.error) w := by
  refine ⟨fun s name b request hb hg hr => Session.answer_of_refuses hb hg hr, fun w hg => ?_⟩
  refine ⟨?_, ?_, ?_, ?_⟩
  · exact fun name v f hm hf => Reentry.pushGlobal_of_meets hm hf name
  · exact fun name hn r args => r.callGlobal_of_missing hg hn args
  · exact fun name args v f hv hm hf => Reentry.callGlobal_of_meets hg hv hm hf name
  · exact fun f hf r args => r.callScript_of_foreign hf args

/-- A session with one new bridge, which has an error handler. -/
def Session.single : Session := ⟨default, [("main", .fresh "main" 1 .restrictive true)], 2, []⟩

/-- A vector is boxed before the function behind it is refused, the library before a bad one is not
opened, and a missing function is reported. -/
theorem refused_requests_change_nothing_single :
    let s := Session.single
    let b := Bridge.fresh "main" 1 .restrictive true
    Session.start default .bare true = .ok s ∧
    (∃ (refusal : Refusal) (heap : Heap), b.heap.Grows heap ∧
      s.answer "main" (.push "x" (.array [.vector2 ⟨1, 2⟩, .callable (.script ⟨2, 0⟩)])) =
        (.failed refusal.error,
          { s with bridges := [("main", { b with heap := heap })] })) ∧
    (∃ refusal : Refusal, s.answer "main" (.libraries ["math", "debug"]) =
      (.failed refusal.error, s)) ∧
    (∃ (refusal : Refusal) (heap : Heap), s.answer "main" (.call "f" [] none) =
      (.failed refusal.error, { s with
        host := { s.host with log := [.report "main" refusal.error] }
        bridges := [("main", { b with heap := heap })] })) ∧
    ∀ r : Reentry, r.callGlobal .attached "f" [] ⟨default, b⟩ =
      .ok (.error (Refusal.noFunction "f").error) ⟨default, b⟩ := by
  intro s b
  obtain ⟨requests, contexts⟩ := refused_requests_change_nothing
  have met : (Variant.array [.vector2 ⟨1, 2⟩, .callable (.script ⟨2, 0⟩)]).Meets ⟨2, 0⟩ :=
    .item (List.mem_cons_of_mem _ List.mem_cons_self) .here
  have foreign : (2 : Nat) ≠ 1 := by decide
  have missing (f : ScriptFunction) : b.heap.get Heap.globals (.ofString "f") ≠ .function f :=
    fun h => nomatch h
  refine ⟨rfl, ?_, ?_, ?_, ?_⟩
  · obtain ⟨refusal, heap, grows, -, answer⟩ := requests s "main" b _ rfl rfl (.push met foreign)
    exact ⟨refusal, heap, grows, answer⟩
  · have bad : "debug" ∈ ["math", "debug"] := List.mem_cons_of_mem _ List.mem_cons_self
    obtain ⟨refusal, heap, -, same, answer⟩ := requests s "main" b _ rfl rfl (.debug bad)
    rw [same rfl] at answer
    exact ⟨refusal, answer⟩
  · obtain ⟨refusal, heap, -, -, answer⟩ := requests s "main" b _ rfl rfl (.missing missing)
    exact ⟨refusal, heap, answer⟩
  · exact fun r => (contexts ⟨default, b⟩ rfl).2.1 "f" missing r []

end ScriptHost
