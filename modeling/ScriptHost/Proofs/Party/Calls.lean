import ScriptHost.Machine.Builtin
import ScriptHost.Proofs.Party.Operations

/-! What crosses between host and script, as one side of a session sees it: errors that leave the
script, calls through a context, and what host code does. -/

namespace ScriptHost

open Act (Mirrors)

variable {p : Party} {α : Type} [Sided α] {r : Reentry} {args : List Variant} {o : ObjectId}

/-! ### Results of host calls -/

/-- A script error as a fault of the host call that it ends. -/
theorem Act.Mirrors.scriptFault {x y : Act (Except ScriptError α)} (hx : Mirrors p x y) :
    Mirrors p (do return (← x).mapError CallError.script)
      (do return (← y).mapError CallError.script) := by
  refine .bind hx fun result hr => ?_
  cases result with
  | ok a => exact .pure hr
  | error e => exact .pure trivial

namespace Reentry.Mirrors

/-! ### Errors that leave the script -/

theorem plainError_view (h : Heap) (e : Value) :
    plainError (h.view p) (e.view p) = plainError h e := by
  have text := Heap.defaultText_view (p := p) h e
  cases e with
  | fault => rfl
  | _ => exact congrArg raisedText text

theorem describe (hr : r.Mirrors p) (e : Value) :
    Act.Mirrors p (r.describe e) (r.describe (e.view p)) := by
  have asked : Act.Mirrors p (do return raisedText (← r.text e))
      (do return raisedText (← r.text (e.view p))) := .bind (hr.text e) fun _ _ => .pure trivial
  cases e with
  | fault id e => exact .pure trivial
  | _ => exact asked

theorem settle (e : Value) :
    Act.Mirrors p (Reentry.settle e) (Reentry.settle (e.view p)) := by
  have plain (e : Value) : Act.Mirrors p (do return plainError (← Act.heap) e)
      (do return plainError (← Act.heap) (e.view p)) :=
    .bind .heap fun h _ => .pureOf trivial (plainError_view h e)
  refine .bind (Act.Mirrors.handling (plain e)).attempt fun result _ => ?_
  cases result with
  | ok e => exact .pure trivial
  | error e => exact .bind (.note none) fun _ _ => plain e

theorem toScriptError (hr : r.Mirrors p) (e : Value) :
    Act.Mirrors p (r.toScriptError e) (r.toScriptError (e.view p)) := by
  refine .bind (Act.Mirrors.handling (hr.inside.describe e)).attempt fun result _ => ?_
  cases result with
  | ok e => exact .pure trivial
  | error e => exact settle e

theorem guard (hr : r.Mirrors p) {x y : Act α} (hx : Act.Mirrors p x y) :
    Act.Mirrors p (r.guard x) (r.guard y) := by
  refine .bind hx.attempt fun result ha => ?_
  cases result with
  | ok a => exact .pure ha
  | error e => exact .bind (hr.toScriptError e) fun _ _ => .pure trivial

theorem onGlobals {run run' : Reentry → Act α} (hr : r.Mirrors p)
    (h : ∀ r' : Reentry, r'.Mirrors p → Act.Mirrors p (run r') (run' r')) :
    Act.Mirrors p (r.onGlobals run) (r.onGlobals run') := by
  refine .bind .heap fun heap _ => ?_
  dsimp only [Sided.view]
  rw [Heap.table_view, Table.meta?_view]
  cases (heap.table Heap.globals).meta? with
  | none => exact h r hr
  | some _ => exact .outside _ (h _ hr.inside)

theorem callIn (hr : r.Mirrors p) (f : Value) (ha : ∀ v ∈ args, v.Owned p) :
    Act.Mirrors p (r.callIn f args) (r.callIn (f.view p) (args.map (Variant.view p))) := by
  refine .bind (.encodeAll ha) fun result _ => ?_
  cases result with
  | error refusal => exact .pure trivial
  | ok values =>
    refine .bind (hr.guard (hr.call f values)) fun result _ => ?_
    cases result with
    | error e => exact .pure trivial
    | ok v => exact .bind (.decode v) fun _ hx => .pure hx

/-! ### Through a context -/

theorem accessMode (ctx : Context) :
    Act.Mirrors p (Reentry.accessMode ctx) (Reentry.accessMode ctx) := by
  cases ctx with
  | attached => exact .bind .bridge fun _ _ => .pure trivial
  | detached => exact .pure trivial

theorem callScript (hr : r.Mirrors p) (ctx : Context) (f : ScriptFunction)
    (ha : ∀ v ∈ args, v.Owned p) : Act.Mirrors p (r.callScript ctx f args)
      (r.callScript ctx (f.view p) (args.map (Variant.view p))) := by
  cases ctx with
  | detached => exact .pure trivial
  | attached =>
    exact .bind .bridge fun b _ =>
      .iteOf p.injective.eq_iff (hr.callIn (.function f) ha) (.pure trivial)

theorem callGlobal (hr : r.Mirrors p) (ctx : Context) (name : String)
    (ha : ∀ v ∈ args, v.Owned p) : Act.Mirrors p (r.callGlobal ctx name args)
      (r.callGlobal ctx name (args.map (Variant.view p))) := by
  cases ctx with
  | detached => exact .pure trivial
  | attached =>
    refine .bind (hr.guard (hr.onGlobals fun _ hr' => hr'.global name)) fun result _ => ?_
    cases result with
    | error e => exact .pure trivial
    | ok v =>
      cases v with
      | function f => exact hr.callIn (.function f) ha
      | _ => exact .pure trivial

theorem pushGlobal (hr : r.Mirrors p) (ctx : Context) (name : String) {v : Variant}
    (hv : v.Owned p) :
    Act.Mirrors p (r.pushGlobal ctx name v) (r.pushGlobal ctx name (v.view p)) := by
  cases ctx with
  | detached => exact .pure trivial
  | attached =>
    refine .bind (.encode hv) fun result _ => ?_
    cases result with
    | error refusal => exact .pure trivial
    | ok value => exact hr.guard (hr.onGlobals fun _ hr' => hr'.setGlobal name value)

theorem pullGlobal (hr : r.Mirrors p) (ctx : Context) (name : String) :
    Act.Mirrors p (r.pullGlobal ctx name) (r.pullGlobal ctx name) := by
  cases ctx with
  | detached => exact .pure trivial
  | attached =>
    refine .bind (hr.guard (hr.onGlobals fun _ hr' => hr'.global name)) fun result _ => ?_
    cases result with
    | error e => exact .pure trivial
    | ok value =>
      refine .bind .bridge fun b hb => ?_
      have read : Heap.decodeStrict (p.number b.id) (b.heap.view p) (value.view p) =
          (b.heap.decodeStrict b.id value).map (Variant.view p) := b.heap.decodeStrict_view value
      have seen : ((b.view p).heap.decodeStrict (b.view p).id (value.view p)).mapError
          Refusal.error =
          Sided.view p ((b.heap.decodeStrict b.id value).mapError Refusal.error) := by
        show (Heap.decodeStrict (p.number b.id) (b.heap.view p) (value.view p)).mapError _ = _
        rw [read]
        cases b.heap.decodeStrict b.id value <;> rfl
      refine .pureOf ?_ seen
      cases hd : b.heap.decodeStrict b.id value with
      | error refusal => trivial
      | ok x => exact hb.heap.decodeTo hb.interpreter hd

theorem functionExists (hr : r.Mirrors p) (ctx : Context) (name : String) :
    Act.Mirrors p (r.functionExists ctx name) (r.functionExists ctx name) := by
  cases ctx with
  | detached => exact .pure trivial
  | attached =>
    refine .bind (hr.guard (hr.onGlobals fun _ hr' => hr'.global name)) fun result _ => ?_
    cases result with
    | error e => exact .pure trivial
    | ok v => cases v <;> exact .pure trivial

end Reentry.Mirrors

/-! ### Callables and signals -/

theorem Callable.owned_arrange {extra : List Variant} {placement : Placement}
    (he : ∀ v ∈ extra, v.Owned p) (ha : ∀ v ∈ args, v.Owned p) :
    ∀ v ∈ Callable.arrange extra placement args, v.Owned p := by
  cases placement with
  | before => exact List.forall_mem_append.mpr ⟨he, ha⟩
  | after => exact List.forall_mem_append.mpr ⟨ha, he⟩

theorem Callable.arrange_view (extra : List Variant) (placement : Placement)
    (args : List Variant) :
    Callable.arrange (extra.map (Variant.view p)) placement (args.map (Variant.view p)) =
      (Callable.arrange extra placement args).map (Variant.view p) := by
  cases placement <;> exact List.map_append.symm

theorem Callable.mirrors_invoke (hr : r.Mirrors p) (ctx : Context) :
    (c : Callable) → c.Owned p → {args : List Variant} → (∀ v ∈ args, v.Owned p) →
      Mirrors p (c.invoke r ctx args) ((c.view p).invoke r ctx (args.map (Variant.view p)))
  | .method o name, hc, _, ha => hr.callObject ctx (Callable.owned_method.mp hc) name ha
  | .native f, hc, args, ha => by
    have hf := Callable.owned_native.mp hc
    refine .bind (.record (.native f.name args)) fun _ _ => .bind .host fun h hh => ?_
    dsimp only [Sided.view]
    rw [Host.behaviour?_view hf]
    cases hb : h.behaviour? f with
    | none => exact .pure trivial
    | some behaviour => exact hr.perform _ _ _ nofun (hh.behaviour? hf hb) ha
  | .script f, _, _, ha => .scriptFault (hr.callScript ctx f ha)
  | .bound target extra placement, hc, args, ha => by
    have parts := Callable.owned_bound.mp hc
    rw [Callable.view_bound, Callable.invoke, Callable.invoke, Callable.arrange_view]
    exact mirrors_invoke hr ctx target parts.1 (Callable.owned_arrange parts.2 ha)

theorem Signal.mirrors_forward (hr : r.Mirrors p) (ctx : Context) {s : Signal}
    (hs : p.object s.object = true) (method : String) (ha : ∀ v ∈ args, v.Owned p) :
    Mirrors p (s.forward r ctx method args)
      (s.forward r ctx method (args.map (Variant.view p))) := by
  refine .bind .host fun h _ => .test (Host.isNull_view hs) (.pure trivial) ?_
  exact hr.callObject ctx hs method (List.forall_mem_cons.mpr ⟨trivial, ha⟩)

/-- What is sent on is the callable that is the first argument. -/
theorem Signal.mirrors_connection (hr : r.Mirrors p) (ctx : Context) {s : Signal}
    (hs : p.object s.object = true) (method : String) (ha : ∀ v ∈ args, v.Owned p) : Mirrors p
      (match Argument.callable args 0 with
      | .ok target => s.forward r ctx method [.callable target]
      | .error e => return .error e)
      (match Argument.callable (args.map (Variant.view p)) 0 with
      | .ok target => s.forward r ctx method [.callable target]
      | .error e => return .error e) := by
  rw [Argument.callable_view]
  cases hc : Argument.callable args 0 with
  | error e => exact .pure trivial
  | ok c =>
    have owned : ∀ v ∈ [Variant.callable c], v.Owned p :=
      List.forall_mem_singleton.mpr (Variant.owned_callable.mpr (Argument.owned_callable ha hc))
    have sent := Signal.mirrors_forward hr ctx hs method owned
    rwa [List.map_singleton, Variant.view_callable] at sent

theorem Signal.mirrors_call (hr : r.Mirrors p) (ctx : Context) {s : Signal}
    (hs : p.object s.object = true) (method : String) (ha : ∀ v ∈ args, v.Owned p) :
    Mirrors p (s.call r ctx method args) (s.call r ctx method (args.map (Variant.view p))) := by
  have connection (method : String) := Signal.mirrors_connection hr ctx hs method ha
  unfold Signal.call
  split
  · exact .pure trivial
  · exact .pure (Variant.owned_object.mpr hs)
  · exact .bind .host fun h _ =>
      .pureOf trivial (congrArg (fun b => Except.ok (Variant.bool b)) (Host.isNull_view hs))
  · exact Signal.mirrors_forward hr ctx hs _ ha
  · exact connection _
  · exact connection _
  · exact connection _
  · exact .pure trivial

theorem Callable.mirrors_call (hr : r.Mirrors p) (ctx : Context) {c : Callable} (hc : c.Owned p)
    (method : String) (ha : ∀ v ∈ args, v.Owned p) : Mirrors p (c.call r ctx method args)
      ((c.view p).call r ctx method (args.map (Variant.view p))) := by
  unfold Callable.call
  split
  · exact Callable.mirrors_invoke hr ctx c hc ha
  · rw [Callable.methodName?_view]
    cases c.methodName? with
    | none => exact .pure trivial
    | some name => exact .pure trivial
  · rw [Callable.object?_view]
    cases ho : c.object? with
    | none => exact .pure trivial
    | some o => exact .pure (Variant.owned_object.mpr (Callable.owned_of_object? hc ho))
  · exact .bind .host fun h _ =>
      .pureOf trivial (congrArg (fun b => Except.ok (Variant.bool b)) (Host.isValid_view c hc))
  · refine .pureOf (Variant.owned_callable.mpr (Callable.owned_bound.mpr ⟨hc, ha⟩)) ?_
    show _ = Except.ok (Variant.view p (.callable (.bound c args .after)))
    rw [Variant.view_callable, Callable.view_bound]
    rfl
  · exact .pure trivial

theorem Variant.mirrors_invoke (hr : r.Mirrors p) (ctx : Context) {v : Variant} (hv : v.Owned p)
    (method : String) (ha : ∀ v ∈ args, v.Owned p) : Mirrors p (v.invoke r ctx method args)
      ((v.view p).invoke r ctx method (args.map (Variant.view p))) := by
  have plain : Mirrors p (return v.callPlain method args)
      (return (v.view p).callPlain method (args.map (Variant.view p))) := by
    rw [Variant.callPlain_view]
    have result := Variant.isPlain_callPlain v method args
    cases hx : v.callPlain method args with
    | error e => exact .pure trivial
    | ok x =>
      have plain := result x hx
      exact .pureOf (Variant.owned_of_isPlain plain)
        (congrArg Except.ok (Variant.view_of_isPlain plain).symm)
  cases v with
  | object o => exact hr.callObject ctx (Variant.owned_object.mp hv) method ha
  | signal s => exact Signal.mirrors_call hr ctx (Variant.owned_signal.mp hv) method ha
  | callable c => exact Callable.mirrors_call hr ctx (Variant.owned_callable.mp hv) method ha
  | _ => exact plain

end ScriptHost
