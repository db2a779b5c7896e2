import ScriptHost.Machine.Builtin
import ScriptHost.Proofs.Machine.Operations

/-! What crosses between host and script keeps the interpreter to itself: its functions are
called only as its own, and a value of the host comes in only if it can be stored. -/

namespace ScriptHost

variable {owner : Nat} {α : Type} {r : Reentry}

namespace Reentry.Keeps

/-! ### Through a context -/

theorem describe (hr : r.Keeps owner) {e : Value} (he : e.OwnedBy owner) :
    Act.Keeps owner (fun _ => True) (r.describe e) := by
  unfold Reentry.describe
  split
  · exact .pure trivial
  · exact .bind (hr.text he) fun _ _ => .pure trivial

theorem settle (e : Value) : Act.Keeps owner (fun _ => True) (Reentry.settle e) := by
  have told : Act.Keeps owner (fun _ => True) (do return Reentry.plainError (← Act.heap) e) :=
    .bind .heap fun _ _ => .pure trivial
  refine .bind (Act.keeps_handling told).attempt fun result _ => ?_
  split
  · exact .pure trivial
  · exact .bind (Act.keeps_note none) fun _ _ => .bind .heap fun _ _ => .pure trivial

theorem toScriptError (hr : r.Keeps owner) {e : Value} (he : e.OwnedBy owner) :
    Act.Keeps owner (fun _ => True) (r.toScriptError e) := by
  refine .bind (Act.keeps_handling (hr.inside.describe he)).attempt fun result _ => ?_
  split
  · exact .pure trivial
  · exact settle _

theorem guard {post : α → Prop} (hr : r.Keeps owner) {x : Act α} (hx : Act.Keeps owner post x) :
    Act.Keeps owner (fun result => ∀ a, result = .ok a → post a) (r.guard x) := by
  refine .bind hx.attempt fun result h => ?_
  split
  next a => exact .pure fun a' ha => Except.ok.inj ha ▸ h.1 a rfl
  next e => exact .bind (hr.toScriptError (h.2 e rfl)) fun _ _ => .pure nofun

theorem onGlobals {post : α → Prop} (hr : r.Keeps owner) {run : Reentry → Act α}
    (h : ∀ r' : Reentry, r'.Keeps owner → Act.Keeps owner post (run r')) :
    Act.Keeps owner post (r.onGlobals run) := by
  refine .bind .heap fun heap _ => ?_
  split
  · exact h r hr
  · exact Act.keeps_outside _ (h _ hr.inside)

theorem callIn (hr : r.Keeps owner) {f : Value} (hf : f.OwnedBy owner) (args : List Variant) :
    Act.Keeps owner (fun _ => True) (r.callIn f args) := by
  refine .bind (.encodeAll args) fun result h => ?_
  split
  · exact .pure trivial
  next values =>
    refine .bind (hr.guard (hr.call hf (h values rfl))) fun result _ => ?_
    split
    · exact .pure trivial
    · exact .bind (.decode _) fun _ _ => .pure trivial

theorem accessMode (ctx : Context) :
    Act.Keeps owner (fun _ => True) (Reentry.accessMode ctx) := by
  cases ctx with
  | attached => exact .bind .bridge fun _ _ => .pure trivial
  | detached => exact .pure trivial

/-- A function is called only in the interpreter that it belongs to. -/
theorem callScript (hr : r.Keeps owner) (ctx : Context) (f : ScriptFunction)
    (args : List Variant) : Act.Keeps owner (fun _ => True) (r.callScript ctx f args) := by
  cases ctx with
  | detached => exact .pure trivial
  | attached =>
    refine .bind .bridge fun b hb => ?_
    split
    next hf =>
      have own : (Value.function f).OwnedBy owner := hf.trans hb.1
      exact hr.callIn own args
    next => exact .pure trivial

theorem callGlobal (hr : r.Keeps owner) (ctx : Context) (name : String) (args : List Variant) :
    Act.Keeps owner (fun _ => True) (r.callGlobal ctx name args) := by
  cases ctx with
  | detached => exact .pure trivial
  | attached =>
    refine .bind (hr.guard (hr.onGlobals fun _ hr' => hr'.global name)) fun result h => ?_
    split
    · exact .pure trivial
    · exact hr.callIn (h _ rfl) args
    · exact .pure trivial

theorem pushGlobal (hr : r.Keeps owner) (ctx : Context) (name : String) (v : Variant) :
    Act.Keeps owner (fun _ => True) (r.pushGlobal ctx name v) := by
  cases ctx with
  | detached => exact .pure trivial
  | attached =>
    refine .bind (.encode v) fun result h => ?_
    split
    · exact .pure trivial
    next x => exact (hr.guard (hr.onGlobals fun _ hr' => hr'.setGlobal name (h x rfl))).weaken fun _ _ => trivial

theorem pullGlobal (hr : r.Keeps owner) (ctx : Context) (name : String) :
    Act.Keeps owner (fun _ => True) (r.pullGlobal ctx name) := by
  cases ctx with
  | detached => exact .pure trivial
  | attached =>
    refine .bind (hr.guard (hr.onGlobals fun _ hr' => hr'.global name)) fun result _ => ?_
    split
    · exact .pure trivial
    · exact .bind .bridge fun _ _ => .pure trivial

theorem functionExists (hr : r.Keeps owner) (ctx : Context) (name : String) :
    Act.Keeps owner (fun _ => True) (r.functionExists ctx name) := by
  cases ctx with
  | detached => exact .pure trivial
  | attached =>
    refine .bind (hr.guard (hr.onGlobals fun _ hr' => hr'.global name)) fun result _ => ?_
    split
    · exact .pure trivial
    · exact .pure trivial

end Reentry.Keeps

/-! ### Host calls -/

open Act (Keeps)

theorem Callable.keeps_invoke (hr : r.Keeps owner) (ctx : Context) :
    (c : Callable) → (args : List Variant) → Keeps owner (fun _ => True) (c.invoke r ctx args)
  | .method o name, args => hr.callObject ctx o name args
  | .native f, args => by
    rw [invoke]
    refine .bind (.record rfl) fun _ _ => .bind .host fun h _ => ?_
    split
    · exact hr.perform _ _ _ _ _
    · exact .pure trivial
  | .script f, args => by
    rw [invoke]
    exact .bind (hr.callScript ctx f args) fun _ _ => .pure trivial
  | .bound target extra placement, args => by
    rw [invoke]
    exact keeps_invoke hr ctx target _

theorem Signal.keeps_forward (hr : r.Keeps owner) (ctx : Context) (s : Signal) (method : String)
    (args : List Variant) : Keeps owner (fun _ => True) (s.forward r ctx method args) :=
  .bind .host fun _ _ => .ite (.pure trivial) (hr.callObject _ _ _ _)

theorem Signal.keeps_call (hr : r.Keeps owner) (ctx : Context) (s : Signal) (method : String)
    (args : List Variant) : Keeps owner (fun _ => True) (s.call r ctx method args) := by
  unfold Signal.call
  split
  · exact .pure trivial
  · exact .pure trivial
  · exact .bind .host fun _ _ => .pure trivial
  · exact keeps_forward hr _ _ _ _
  · split
    · exact keeps_forward hr _ _ _ _
    · exact .pure trivial
  · split
    · exact keeps_forward hr _ _ _ _
    · exact .pure trivial
  · split
    · exact keeps_forward hr _ _ _ _
    · exact .pure trivial
  · exact .pure trivial

theorem Callable.keeps_call (hr : r.Keeps owner) (ctx : Context) (c : Callable) (method : String)
    (args : List Variant) : Keeps owner (fun _ => True) (c.call r ctx method args) := by
  unfold Callable.call
  split
  · exact keeps_invoke hr ctx c args
  · exact .pure trivial
  · exact .pure trivial
  · exact .bind .host fun _ _ => .pure trivial
  · exact .pure trivial
  · exact .pure trivial

theorem Variant.keeps_invoke (hr : r.Keeps owner) (ctx : Context) (v : Variant) (method : String)
    (args : List Variant) : Keeps owner (fun _ => True) (v.invoke r ctx method args) := by
  unfold Variant.invoke
  split
  · exact hr.callObject _ _ _ _
  · exact Signal.keeps_call hr _ _ _ _
  · exact Callable.keeps_call hr _ _ _ _
  · exact .pure trivial

namespace Behaviour

theorem keeps_callEach (hr : r.Keeps owner) (ctx : Context) (args : List Variant)
    (targets : List Callable) : Keeps owner (fun _ => True) (callEach r ctx args targets) := by
  induction targets with
  | nil => exact .pure trivial
  | cons c rest ih =>
    refine .bind (c.keeps_invoke hr ctx args) fun result _ => ?_
    split
    · exact ih
    · exact .pure trivial

theorem keeps_performOn (hr : r.Keeps owner) (ctx : Context) (o : ObjectId) (b : Behaviour)
    (args : List Variant) : Keeps owner (fun _ => True) (performOn r ctx o b args) := by
  have update (f : Instance → Instance) : Keeps owner (fun _ => True)
      (Act.modifyHost (·.update o f)) := .modifyHost fun h => .update h o f
  unfold performOn
  split
  · exact .bind (.onHost fun h => .write h _ _ _) fun _ _ => .pure trivial
  · exact .bind .host fun _ _ => .pure trivial
  · exact .bind .host fun h _ => .bind (.modifyHost fun h => .of_log_eq rfl) fun _ _ =>
      .pure trivial
  · split
    · exact .pure trivial
    · exact .bind .host fun h _ => .ite (.pure trivial) (.bind (update _) fun _ _ => .pure trivial)
  · split
    · exact .pure trivial
    · exact .bind .host fun h _ => .ite (.bind (update _) fun _ _ => .pure trivial) (.pure trivial)
  · split
    · exact .pure trivial
    · exact .bind .host fun _ _ => .pure trivial
  · refine .bind .host fun h _ => .bind (keeps_callEach hr _ _ _) fun result _ => ?_
    split
    · exact .pure trivial
    · exact .pure trivial
  · exact .pure trivial

theorem keeps_run (hr : r.Keeps owner) (ctx : Context) (self : Option ObjectId) (b : Behaviour)
    (args : List Variant) : Keeps owner (fun _ => True) (run r ctx self b args) := by
  unfold run
  split
  · exact .pure trivial
  · exact .pure trivial
  · exact .pure trivial
  · exact .pure trivial
  · exact .pure trivial
  · exact .bind .host fun _ _ => .pure trivial
  · exact .pure trivial
  · exact .pure trivial
  · exact .bind (hr.callGlobal _ _ _) fun _ _ => .pure trivial
  · split
    · exact Callable.keeps_invoke hr _ _ _
    · exact .pure trivial
  · exact .bind (hr.pushGlobal _ _ _) fun _ _ => .pure trivial
  · exact .bind (hr.pullGlobal _ _) fun _ _ => .pure trivial
  · exact .bind (hr.functionExists _ _) fun _ _ => .pure trivial
  · exact .bind (Reentry.Keeps.accessMode _) fun _ _ => .pure trivial
  · split
    · exact keeps_performOn hr _ _ _ _
    · exact .pure trivial

end Behaviour

/-! ### Functions that are not written in the script -/

namespace Reentry.Keeps

theorem badArgument {post : α → Prop} (f : Builtin) (n : Nat) (problem : String) :
    Act.Keeps owner post (r.badArgument f n problem) := by
  unfold Reentry.badArgument
  dsimp only
  split
  · exact .ite (failAtCall _) (failAtCall _)
  · exact failAtCall _
  · exact .bind .bridge fun _ _ => failAtCall _

theorem wrongType {post : α → Prop} (f : Builtin) (n : Nat) (expected : String)
    (arg : Option Value) : Act.Keeps owner post (r.wrongType f n expected arg) :=
  .bind .heap fun _ _ => badArgument _ _ _

theorem printedText (hr : r.Keeps owner) {f v : Value} (hf : f.OwnedBy owner)
    (hv : v.OwnedBy owner) : Act.Keeps owner (fun _ => True) (r.printedText f v) := by
  refine .bind (hr.guard (hr.call hf (.cons hv .nil))) fun result _ =>
    .bind (.orThrow fun _ _ => trivial) fun w (_ : True) => ?_
  split
  · exact .pure trivial
  · exact .throw

theorem print (hr : r.Keeps owner) {args : List Value} (ha : AllOwned owner args) :
    Act.Keeps owner (fun _ => True) (r.print args) := by
  refine .bind (hr.guard (hr.onGlobals fun _ hr' => hr'.global "tostring")) fun result h => .bind (.orThrow h) fun f hf => ?_
  split
  · refine .bind (.mapM fun v hv => hr.printedText hf (ha v hv)) fun texts _ =>
      .bind .bridge fun b _ => .ite (.record rfl) (.pure trivial)
  · exact .throw

theorem protectedCall (hr : r.Keeps owner) {f : Value} {args : List Value} (hf : f.OwnedBy owner)
    (ha : AllOwned owner args) : Act.Keeps owner (AllOwned owner) (r.protectedCall f args) := by
  refine .bind (hr.apply _ hf ha).attempt fun result h => ?_
  split
  next results => exact .pure (.cons trivial (h.1 results rfl))
  next e => exact .pure (.cons trivial (.cons (h.2 e rfl) .nil))

theorem getMetatable (v : Value) :
    Act.Keeps owner (Value.OwnedBy owner) (Reentry.getMetatable v) := by
  have table (m : Option Nat) : ((m.map Value.table).getD .nil).OwnedBy owner := by
    cases m <;> trivial
  refine .bind .heap fun h hh => ?_
  split
  · exact .pure trivial
  · exact .pure trivial
  · exact .pure (table _)
  · exact .pure (hh.metaField _ _)

theorem setMetatable (args : List Value) :
    Act.Keeps owner (Value.OwnedBy owner) (r.setMetatable args) := by
  unfold Reentry.setMetatable
  split
  · refine .bind .heap fun h hh => ?_
    dsimp only
    have change (id : Nat) (meta? : Option Nat) : Act.Keeps owner (fun _ => True)
        (Act.modifyHeap fun h => (h.setTable id { h.table id with meta? := meta? }).awaitEnd id) :=
      .modifyHeap fun h hh => (hh.setTable id ((hh.table id).withMeta _)).awaitEnd id
    split
    · exact .ite (.bind (change _ _) fun _ _ => .pure trivial) (failAtCall _)
    · exact .ite (.bind (change _ _) fun _ _ => .pure trivial) (failAtCall _)
    · exact wrongType _ _ _ _
  · exact wrongType _ _ _ _
  · exact wrongType _ _ _ _

theorem integerArgument (f : Builtin) (n : Nat) (default : Int64) (arg : Option Value) :
    Act.Keeps owner (fun _ => True) (r.integerArgument f n default arg) := by
  unfold Reentry.integerArgument
  split
  · exact .pure trivial
  · exact .pure trivial
  · split
    · exact .pure trivial
    · exact badArgument _ _ _
    · exact wrongType _ _ _ _

theorem raiseError {post : List Value → Prop} {args : List Value} (ha : AllOwned owner args) :
    Act.Keeps owner post (r.raiseError args) := by
  refine .bind (integerArgument _ _ _ _) fun level _ => ?_
  have hf := ownedBy_first ha
  dsimp only
  split
  · exact .ite (.raise trivial) (.raise trivial)
  · exact .raise hf

theorem textArithmetic (hr : r.Keeps owner) (op : Metamethod) {a b : Value} (ha : a.OwnedBy owner)
    (hb : b.OwnedBy owner) : Act.Keeps owner (Value.OwnedBy owner) (r.textArithmetic op a b) := by
  unfold Reentry.textArithmetic
  split
  · split
    · exact .pure (ownedBy_ofNumeral _)
    · exact fail _
  · refine .bind .heap fun h hh => ?_
    split
    · exact failAtCall _
    · exact failAtCall _
    next f _ hf => exact hr.handle _ (hh.handler _ _ _ hf) (.cons ha (.cons hb .nil))

theorem runBuiltin (hr : r.Keeps owner) (b : Builtin) {args : List Value}
    (ha : AllOwned owner args) : Act.Keeps owner (AllOwned owner) (r.runBuiltin b args) := by
  have one {x : Act Value} (hx : Act.Keeps owner (Value.OwnedBy owner) x) :
      Act.Keeps owner (AllOwned owner) (do return [← x]) :=
    .bind hx fun _ hv => .pure (.cons hv .nil)
  unfold Reentry.runBuiltin
  split
  · exact .bind (hr.print ha) fun _ _ => .pure .nil
  · exact .bind (hr.text (ha _ List.mem_cons_self)) fun _ _ => .pure (.cons trivial .nil)
  · exact .pure (.cons trivial .nil)
  · rw [AllOwned, List.forall_mem_cons] at ha
    exact hr.protectedCall ha.1 ha.2
  · exact raiseError ha
  · exact .pure (.cons trivial .nil)
  · exact badArgument _ _ _
  · exact one (getMetatable _)
  · exact one (setMetatable _)
  next f _ =>
    have hf : (Value.function f).OwnedBy owner := ha _ List.mem_cons_self
    exact .bind (.onHeap fun h hh => ⟨hh.newThread hf, trivial⟩) fun _ (_ : True) =>
      .pure (.cons trivial .nil)
  · exact wrongType _ _ _ _
  · refine one (hr.textArithmetic _ (ownedBy_first ha) (ownedBy_first fun v hv => ?_))
    exact ha v (List.mem_of_mem_tail hv)
  · exact badArgument _ _ _

theorem returned (method : String) (result : Except CallError Variant) :
    Act.Keeps owner (AllOwned owner) (Reentry.returned method result) :=
  .bind (.orThrow fun _ _ => trivial) fun _ (_ : True) => .bind (.push _) fun _ hv =>
    .pure (.cons hv .nil)

theorem runMethod (hr : r.Keeps owner) (box : Nat) (name : String) (args : List Value) :
    Act.Keeps owner (AllOwned owner) (r.runMethod box name args) := by
  refine .bind .heap fun h _ => ?_
  split
  · exact .throw
  · exact .bind (.decodeAll _) fun _ _ => .bind (Variant.keeps_invoke hr _ _ _ _) fun _ _ =>
      returned _ _

theorem runOutside (hr : r.Keeps owner) (f : Function) {args : List Value}
    (ha : AllOwned owner args) : Act.Keeps owner (AllOwned owner) (r.runOutside f args) := by
  cases f with
  | closure => exact .pure .nil
  | builtin b => exact hr.runBuiltin b ha
  | constructor s =>
    exact .bind (.decodeAll _) fun _ _ => .bind (.push _) fun _ hv => .pure (.cons hv .nil)
  | method box name => exact hr.runMethod box name args
  | factory o =>
    exact .bind (.decodeAll _) fun _ _ => .bind (hr.callObject _ _ _ _) fun _ _ => returned _ _

theorem runBox (hr : r.Keeps owner) (v : Value) (x : Variant) (args : List Value) :
    Act.Keeps owner (AllOwned owner) (r.runBox v x args) := by
  unfold Reentry.runBox
  split
  · exact .bind (.decodeAll _) fun _ _ => .bind (Callable.keeps_invoke hr _ _ _) fun _ _ =>
      returned _ _
  · exact .bind (hr.handleBox _ _ _) fun _ hv => .pure (.cons hv .nil)

end Reentry.Keeps

end ScriptHost
