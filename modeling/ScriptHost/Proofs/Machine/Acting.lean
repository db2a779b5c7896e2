import ScriptHost.Machine.Nesting
import ScriptHost.Proofs.Machine.Composed

/-! All that a running function does is composed of small steps, as long as the calls that it is
written over are. -/

namespace ScriptHost

variable {α β : Type}

/-! ### Steps -/

/-- Calls from here are composed of small steps. -/
structure Reentry.Composed (K : World → World → Prop) (r : Reentry) : Prop where
  apply : ∀ (site : Site) (f : Value) (args : List Value),
    Act.Composed K (r.apply site f args)
  perform : ∀ (site : Site) (ctx : Context) (self : Option ObjectId) (b : Behaviour)
    (args : List Variant), Act.Composed K (r.perform site ctx self b args)

theorem Reentry.Composed.inside {K : World → World → Prop} {r : Reentry} (hr : r.Composed K) :
    r.inside.Composed K := ⟨hr.apply, hr.perform⟩

/-- All that running functions may do is as `K` says. -/
class World.Covers (K : World → World → Prop) : Prop where
  of_works : ∀ {w w' : World}, w.Works w' → K w w'

instance World.Works.covers : World.Covers World.Works := ⟨fun hw => hw⟩

variable {K : World → World → Prop} [World.Covers K]

namespace Act.Composed

open World.Covers (of_works)

theorem pure (a : α) : Composed K (Pure.pure a) := .blind (.pure (fun w => of_works (.refl w)) a)

theorem raise (e : Value) : Composed K (Act.raise e : Act α) :=
  .blind (.raise (fun w => of_works (.refl w)) e)

theorem heap : Composed K Act.heap :=
  .blind fun w => ⟨.ok w.bridge.heap, w, rfl, rfl, .refl w, of_works (.refl w)⟩

theorem onHeap {f : Heap → α × Heap} (hf : ∀ h : Heap, h.Works (f h).2) :
    Composed K (Act.onHeap f) :=
  .blind fun w => ⟨.ok (f w.bridge.heap).1, w.withHeap (f w.bridge.heap).2, rfl, rfl,
    .silent rfl rfl, of_works ⟨.refl _, hf _, rfl⟩⟩

theorem modifyHeap {f : Heap → Heap} (hf : ∀ h : Heap, h.Works (f h)) :
    Composed K (Act.modifyHeap f) :=
  .blind fun w => ⟨.ok (), w.withHeap (f w.bridge.heap), rfl, rfl, .silent rfl rfl,
    of_works ⟨.refl _, hf _, rfl⟩⟩

theorem record {e : Event} (he : e.isHook = false) : Composed K (Act.record e) :=
  .blind (.modifyHost (fun h => (h.plain_record he).symm) (fun h => h.watched_record he)
    fun w => of_works ⟨.record w.host e, .refl _, rfl⟩)

theorem update (o : ObjectId) {f : Instance → Instance} (hid : ∀ x, (f x).id = x.id)
    (hf : ∀ x, (f x).definition = x.definition ∧ (f x).finalized = x.finalized ∧
      (f x).lastWill = x.lastWill) : Composed K (Act.modifyHost (·.update o f)) :=
  .blind (.modifyHost (fun _ => rfl) (fun _ => rfl)
    fun w => of_works ⟨.update w.host o hid hf, .refl _, rfl⟩)

theorem write (o : ObjectId) (name : String) (value : Variant) :
    Composed K (Act.onHost (·.write o name value)) := by
  have plain (h : Host) : h.plain.write o name value =
      ((h.write o name value).1, (h.write o name value).2.plain) := by
    have same : h.plain.object o = h.object o := rfl
    unfold Host.write
    rw [same]
    dsimp only
    split
    · rfl
    · split
      · rw [Host.plain_record rfl]
        rfl
      · rw [Host.plain_record rfl]
  have watched (h : Host) : (h.write o name value).2.watched = h.watched := by
    unfold Host.write
    dsimp only
    split
    · rfl
    · split
      · rw [Host.watched_record rfl]
        rfl
      · rw [Host.watched_record rfl]
  exact .blind (.onHost plain watched fun w =>
    of_works ⟨.write w.host o name value, .refl _, rfl⟩)

theorem throw (e : ScriptError) : Composed K (Act.throw e : Act α) :=
  .bind (.onHeap fun h => .newFault h _) fun _ => .raise _

theorem orThrow (result : Except ScriptError α) : Composed K (Act.orThrow result) := by
  cases result with
  | ok a => exact .pure a
  | error e => exact .throw e

theorem newTable (t : Table) : Composed K (Act.newTable t) :=
  .bind (.onHeap fun h => .newTable h t) fun _ => .pure _

theorem newFunction (f : Function) : Composed K (Act.newFunction f) :=
  .bridge (fun _ => .bind (.onHeap fun h => .newFunction h f) fun _ => .pure _) fun _ => rfl

theorem encode (v : Variant) : Composed K (Act.encode v) :=
  .bridge (fun _ => .onHeap fun h => Heap.Works.storing.encode v h) fun _ => rfl

theorem encodeAll (vs : List Variant) : Composed K (Act.encodeAll vs) :=
  .bridge (fun _ => .onHeap fun h => Heap.Works.storing.encodeAll vs h) fun _ => rfl

theorem push (v : Variant) : Composed K (Act.push v) :=
  .bind (.encode v) fun _ => .orThrow _

theorem decode (v : Value) : Composed K (Act.decode v) :=
  .bridge (fun _ => .pure _) fun _ => rfl

theorem decodeAll (vs : List Value) : Composed K (Act.decodeAll vs) :=
  .bridge (fun _ => .pure _) fun _ => rfl

theorem mapM {γ : Type} {f : γ → Act α} {xs : List γ} (hf : ∀ x, Composed K (f x)) :
    Composed K (xs.mapM f) := by
  induction xs with
  | nil => exact .pure _
  | cons x rest ih =>
    rw [List.mapM_cons]
    exact .bind (hf x) fun _ => .bind ih fun _ => .pure _

/-! ### Hooks -/

theorem reach_apply (chunk : String) (line : Nat) (new : Bool) (w : World) :
    Act.reach chunk line new w = (match w.bridge.hook? with
      | none => Pure.pure ()
      | some _ => do
        Act.tick chunk line
        if new then Act.fire ⟨.line, some line, some chunk, none⟩ : Act Unit) w :=
  rfl

theorem reach (chunk : String) (line : Nat) (new : Bool) :
    Composed K (Act.reach chunk line new) := by
  -- Where there is no hook, nothing comes of the step either.
  have steps : Act.reach chunk line new = (do
      Act.tick chunk line
      if new then Act.fire ⟨.line, some line, some chunk, none⟩) := by
    funext w
    cases hh : w.bridge.hook? with
    | some hook => rw [reach_apply, hh]
    | none =>
      have bare : w.withHook none = w := World.withHook_self hh
      rw [← bare]
      cases new <;> rfl
  rw [steps]
  exact .bind (.tick chunk line) fun _ => .ite (.fire _) (.pure _)

theorem outside {x : Act α} (name : Option String) (hx : Composed K x) :
    Composed K (Act.outside name x) :=
  .bind (.cross _) fun _ => .bind hx fun _ => .bind (.cross _) fun _ => .pure _

end Act.Composed

/-- What an interpreter does on its own where there is no more than some room is composed of such
steps, too. -/
class Pausing.Abides [Pausing] (most : Nat) (K : World → World → Prop) : Prop where
  pause : ∀ frame : Unit → Frame, (frame ()).room ≤ most → Act.Composed K (Pausing.pause frame)
  holding : ∀ {α : Type} {room : Nat} (references : Unit → List Reference) {x : Act α},
    room ≤ most → Act.Composed K x → Act.Composed K (Pausing.holding room references x)

instance Pausing.never_abides (most : Nat) : Pausing.Abides most K :=
  ⟨fun _ _ => .pure _, fun _ _ _ hx => hx⟩

variable {r : Reentry}

namespace Reentry.Composed

theorem fail (message : String) : Act.Composed K (r.fail message : Act α) := .raise _

theorem failAtCall (message : String) : Act.Composed K (r.failAtCall message : Act α) :=
  .raise _

theorem failOperand (fault : OperandFault) (of? : Option Origin) :
    Act.Composed K (r.failOperand fault of? : Act α) :=
  .raise _

theorem call (hr : r.Composed K) (f : Value) (args : List Value) :
    Act.Composed K (r.call f args) :=
  .bind (hr.apply _ f args) fun _ => .pure _

theorem outside {run : Reentry → Act α} (hr : r.Composed K)
    (h : ∀ r' : Reentry, r'.Composed K → Act.Composed K (run r')) :
    Act.Composed K (r.outside run) :=
  .outside _ (h _ hr.inside)

theorem override? (hr : r.Composed K) (ctx : Context) (o : ObjectId) (op : Metamethod)
    (args : List Variant) : Act.Composed K (r.override? ctx o op args) := by
  refine .host (fun h => ?_) fun _ => rfl
  split
  · exact .pure _
  · exact .doUnless (.record rfl) (.bind (hr.perform _ _ _ _ _) fun _ => .pure _)

theorem callObject (hr : r.Composed K) (ctx : Context) (o : ObjectId) (method : String)
    (args : List Variant) : Act.Composed K (r.callObject ctx o method args) := by
  refine .host (fun h => .doUnless (.record rfl) ?_) fun _ => rfl
  split
  · exact hr.perform _ _ _ _ _
  · exact .pure _

end Reentry.Composed

/-! ### Boxes -/

namespace Box

open Act (Composed)

theorem composed_decline (op : Metamethod) (type : String) :
    Composed K (decline op type : Act α) :=
  .throw _

theorem composed_readTyped (id : Nat) (v : Variant) (key : Value) :
    Composed K (readTyped id v key) := by
  refine .bind (.decode _) fun k => .host (fun h => ?_) fun _ => rfl
  split
  · exact .ite (.newFunction _) (.push _)
  · exact .push _

theorem composed_writeTyped (id : Nat) (key value : Value) :
    Composed K (writeTyped id key value) :=
  .bind (.decode _) fun _ => .bind (.decode _) fun _ => .modifyHeap fun h => .writeBox h _ _ _

theorem composed_binaryTyped (op : Metamethod) (type : String) (a b : Value) :
    Composed K (binaryTyped op type a b) := by
  refine .bind (.decode _) fun x => .bind (.decode _) fun y => .ite (.pure _) ?_
  split
  · exact .push _
  · exact composed_decline _ _

theorem composed_answer (op : Metamethod) (result : Except CallError Variant) :
    Composed K (answer op result) :=
  .bind (.orThrow _) fun _ => .push _

theorem composed_answerOrDecline (hr : r.Composed K) (op : Metamethod) (o : ObjectId)
    (args : List Variant) : Composed K (answerOrDecline r op o args) := by
  refine .bind (hr.override? _ _ _ _) fun result => ?_
  split
  · exact composed_answer _ _
  · exact .host (fun _ => composed_decline _ _) fun _ => rfl

theorem composed_readField (id : Nat) (o : ObjectId) (key : Variant) :
    Composed K (readField id o key) := by
  unfold readField
  split
  · refine .host (fun h => .bridge (fun b => ?_) fun _ => rfl) fun _ => rfl
    exact .ite (.pure _) (.ite (.newFunction _) (.push _))
  · exact .pure _

theorem composed_readObject (hr : r.Composed K) (id : Nat) (o : ObjectId) (key : Value) :
    Composed K (readObject r id o key) := by
  refine .bind (.decode _) fun k => .bind (hr.override? _ _ _ _) fun result => ?_
  split
  · exact composed_answer _ _
  · exact composed_readField _ _ _

theorem composed_writeField (o : ObjectId) (key value : Variant) :
    Composed K (writeField o key value) := by
  unfold writeField
  split
  · refine .bridge (fun b => .host (fun h => .ite ?_ (.pure _)) fun _ => rfl) fun _ => rfl
    exact .bind (.write _ _ _) fun _ => .pure _
  · exact .pure _

theorem composed_writeObject (hr : r.Composed K) (o : ObjectId) (key value : Value) :
    Composed K (writeObject r o key value) := by
  refine .bind (.decode _) fun k => .bind (.decode _) fun v =>
    .bind (hr.override? _ _ _ _) fun result => ?_
  split
  · exact .bind (.orThrow _) fun _ => .pure _
  · exact composed_writeField _ _ _

theorem composed_shownName (hr : r.Composed K) (o : ObjectId) : Composed K (shownName r o) := by
  refine .bind (hr.override? _ _ _ _) fun result => ?_
  split
  · exact .pure _
  · exact .host (fun _ => .pure _) fun _ => rfl

theorem composed_textOfObject (hr : r.Composed K) (o : ObjectId) :
    Composed K (textOfObject r o) := by
  refine .bind (hr.override? _ _ _ _) fun result => ?_
  split
  · exact .bind (.orThrow _) fun _ => .host (fun _ => .pure _) fun _ => rfl
  · exact .bind (composed_shownName hr o) fun _ => .pure _

theorem composed_equalObjects (hr : r.Composed K) (a b : Value) :
    Composed K (equalObjects r a b) := by
  refine .bind (.decode _) fun x => .bind (.decode _) fun y => ?_
  dsimp only
  split
  rotate_left 2
  · exact .pure _
  all_goals
    refine .bind (hr.override? _ _ _ _) fun result => ?_
    split
    · exact composed_answer _ _
    · exact .pure _

theorem composed_describe (v : Value) : Composed K (describe v) := by
  unfold describe
  split
  · refine .bind .heap fun h => ?_
    split
    · exact .host (fun _ => .pure _) fun _ => rfl
    · exact .pure _
    · exact .pure _
  · exact .pure _

theorem composed_binaryObject (hr : r.Composed K) (op : Metamethod) (a b : Value) :
    Composed K (binaryObject r op a b) := by
  have declined : Composed K (do (decline op (← describe b) : Act Value)) :=
    .bind (composed_describe _) fun _ => composed_decline _ _
  unfold binaryObject
  split
  · refine .bind .heap fun _ => .bind (.pure _) fun left => ?_
    cases left with
    | none => exact declined
    | some o => exact .bind (.decode _) fun _ => composed_answerOrDecline hr _ _ _
  · exact declined

end Box

/-! ### Operations -/

namespace Reentry.Composed

theorem handleBox (hr : r.Composed K) (op : Metamethod) (v : Variant) (args : List Value) :
    Act.Composed K (r.handleBox op v args) := by
  unfold Reentry.handleBox
  split
  · exact Box.composed_readObject hr _ _ _
  · exact .bind (Box.composed_writeObject hr _ _ _) fun _ => .pure _
  · exact .bind (.decodeAll _) fun _ => Box.composed_answerOrDecline hr _ _ _
  · exact .bind (Box.composed_textOfObject hr _) fun _ => .pure _
  · exact Box.composed_equalObjects hr _ _
  · exact Box.composed_answerOrDecline hr _ _ _
  · exact Box.composed_answerOrDecline hr _ _ _
  · exact Box.composed_answerOrDecline hr _ _ _
  · exact Box.composed_binaryObject hr _ _ _
  · exact Box.composed_readTyped _ _ _
  · exact .bind (Box.composed_writeTyped _ _ _) fun _ => .pure _
  · exact .host (fun _ => .pure _) fun _ => rfl
  · exact Box.composed_binaryTyped _ _ _ _
  · exact Box.composed_decline _ _

theorem handle (hr : r.Composed K) (op : Metamethod) (h : Handler) (args : List Value) :
    Act.Composed K (r.handle op h args) := by
  unfold Reentry.handle
  split
  · exact hr.call _ _
  · exact hr.outside fun _ hr' => hr'.handleBox _ _ _
  · exact hr.outside fun _ _ => .pure _
  · exact .pure _
  · exact hr.outside fun _ _ => .throw _

theorem handlerOf (op : Metamethod) (a b : Value) :
    Act.Composed K (Reentry.handlerOf op a b) :=
  .bind .heap fun _ => .pure _

theorem text (hr : r.Composed K) (v : Value) : Act.Composed K (r.text v) := by
  refine .bind .heap fun h => ?_
  split
  · exact .bind .heap fun _ => .pure _
  · refine .bind (hr.handle _ _ _) fun w => ?_
    split
    · exact .pure _
    · exact failAtCall _

theorem indexFrom (hr : r.Composed K) (key : Value) (fuel : Nat) (v : Value) (of? : Option Origin) :
    Act.Composed K (r.indexFrom key fuel v of?) := by
  induction fuel generalizing v of? with
  | zero => exact fail _
  | succ fuel ih =>
    refine .bind .heap fun heap => ?_
    split
    · exact .pure _
    · exact failOperand _ _
    · exact hr.call _ _
    · exact .ite (ih _ _) (.pure _)
    · exact hr.handle _ _ _

theorem index (hr : r.Composed K) (v key : Value) (of? : Option Origin) :
    Act.Composed K (r.index v key of?) :=
  .bind .heap fun _ => .ite (hr.indexFrom _ _ _ _) (.pure _)

theorem rawSet (id : Nat) (key value : Value) : Act.Composed K (r.rawSet id key value) := by
  unfold Reentry.rawSet
  split
  · exact .modifyHeap fun h => .set h _ _ _
  · exact fail _

theorem setIndexFrom (hr : r.Composed K) (key value : Value) (fuel : Nat) (v : Value)
    (of? : Option Origin) : Act.Composed K (r.setIndexFrom key value fuel v of?) := by
  induction fuel generalizing v of? with
  | zero => exact fail _
  | succ fuel ih =>
    refine .bind .heap fun heap => ?_
    split
    · exact rawSet _ _ _
    · exact failOperand _ _
    · exact .bind (hr.call _ _) fun _ => .pure _
    · split
      · exact rawSet _ _ _
      · exact ih _ _
    · exact .bind (hr.handle _ _ _) fun _ => .pure _

theorem setIndex (hr : r.Composed K) (v key value : Value) (of? : Option Origin) :
    Act.Composed K (r.setIndex v key value of?) := by
  refine .bind .heap fun heap => ?_
  split
  · exact rawSet _ _ _
  · exact hr.setIndexFrom _ _ _ _ _

theorem global (hr : r.Composed K) (name : String) : Act.Composed K (r.global name) :=
  hr.index _ _ _

theorem setGlobal (hr : r.Composed K) (name : String) (value : Value) :
    Act.Composed K (r.setGlobal name value) :=
  hr.setIndex _ _ _ _

theorem arithmetic (hr : r.Composed K) (op : Metamethod) (a b : Value)
    (left? right? : Option Origin) :
    Act.Composed K (r.arithmetic op a b left? right?) := by
  unfold Reentry.arithmetic
  split
  · split
    · exact .pure _
    · exact fail _
  · refine .bind (handlerOf _ _ _) fun h? => ?_
    split
    · exact hr.handle _ _ _
    · exact .bind .heap fun _ => failOperand _ _

theorem bitwise (hr : r.Composed K) (op : Metamethod) (a b : Value)
    (left? right? : Option Origin) : Act.Composed K (r.bitwise op a b left? right?) := by
  unfold Reentry.bitwise
  split
  · split
    · exact .pure _
    · exact failOperand _ _
    · exact failOperand _ _
  · refine .bind (handlerOf _ _ _) fun h? => ?_
    split
    · exact hr.handle _ _ _
    · exact .bind .heap fun _ => failOperand _ _

theorem concat (hr : r.Composed K) (a b : Value) (left? right? : Option Origin) :
    Act.Composed K (r.concat a b left? right?) := by
  unfold Reentry.concat
  split
  · exact .pure _
  · refine .bind (handlerOf _ _ _) fun h? => ?_
    split
    · exact hr.handle _ _ _
    · exact .bind .heap fun _ => failOperand _ _

theorem compareByHandler (hr : r.Composed K) (op : Metamethod) (a b : Value) :
    Act.Composed K (r.compareByHandler op a b) := by
  refine .bind (handlerOf _ _ _) fun h? => ?_
  split
  · exact .bind (hr.handle _ _ _) fun _ => .pure _
  · have failed : Act.Composed K (do
        let heap ← Act.heap
        (r.failOperand (.compare (heap.typeName a) (heap.typeName b)) none : Act Bool)) :=
      .bind .heap fun _ => failOperand _ _
    refine .ite (.bind (handlerOf _ _ _) fun h? => ?_) failed
    cases h? with
    | none => exact failed
    | some h => exact .bind (hr.handle _ _ _) fun _ => .pure _

theorem compare (hr : r.Composed K) (op : Metamethod) (a b : Value) :
    Act.Composed K (r.compare op a b) := by
  unfold Reentry.compare
  split
  · exact .pure _
  · split
    · exact .pure _
    · exact hr.compareByHandler _ _ _

theorem equal (hr : r.Composed K) (a b : Value) : Act.Composed K (r.equal a b) := by
  refine .ite (.pure _) (.ite (.bind (handlerOf _ _ _) fun h? => ?_) (.pure _))
  split
  · exact .bind (hr.handle _ _ _) fun _ => .pure _
  · exact .pure _

theorem length (hr : r.Composed K) (v : Value) (of? : Option Origin) :
    Act.Composed K (r.length v of?) := by
  unfold Reentry.length
  split
  · exact .pure _
  · refine .bind .heap fun heap => ?_
    split
    · exact hr.handle _ _ _
    · exact .pure _
    · exact failOperand _ _

theorem binary (hr : r.Composed K) (op : BinaryOperator) (a b : Value)
    (left? right? : Option Origin) : Act.Composed K (r.binary op a b left? right?) := by
  unfold Reentry.binary
  cases op with
  | add | sub | mul | div | idiv | mod | pow => exact hr.arithmetic _ _ _ _ _
  | concat => exact hr.concat _ _ _ _
  | band | bor | bxor | shl | shr => exact hr.bitwise _ _ _ _ _
  | eq | ne => exact .bind (hr.equal _ _) fun _ => .pure _
  | lt | le | gt | ge => exact .bind (hr.compare _ _ _) fun _ => .pure _

theorem unary (hr : r.Composed K) (op : UnaryOperator) (a : Value) (of? : Option Origin) :
    Act.Composed K (r.unary op a of?) := by
  cases op with
  | minus => exact hr.arithmetic _ _ _ _ _
  | complement => exact hr.bitwise _ _ _ _ _
  | length => exact hr.length _ _
  | not => exact .pure _

/-! ### Through a context -/

theorem describe (hr : r.Composed K) (e : Value) : Act.Composed K (r.describe e) := by
  unfold Reentry.describe
  split
  · exact .pure _
  · exact .bind (hr.text _) fun _ => .pure _

theorem settle (e : Value) : Act.Composed K (Reentry.settle e) := by
  refine .attempt .settling (fun result => by cases result <;> rfl)
    (.handling (.bind .heap fun _ => .pure _)) fun result => ?_
  cases result with
  | ok e => exact .pure _
  | error e => exact .bind (.note none) fun _ => .bind .heap fun _ => .pure _

theorem toScriptError (hr : r.Composed K) (e : Value) : Act.Composed K (r.toScriptError e) := by
  refine .attempt .describing (fun result => by cases result <;> rfl)
    (.handling (hr.inside.describe e)) fun result => ?_
  cases result with
  | ok e => exact .pure _
  | error e => exact settle e

theorem guard (hr : r.Composed K) {x : Act α} (hx : Act.Composed K x) :
    Act.Composed K (r.guard x) := by
  refine .attempt (.guard r) (fun result => by cases result <;> rfl) hx fun result => ?_
  cases result with
  | ok a => exact .pure _
  | error e => exact .bind (hr.toScriptError e) fun _ => .pure _

theorem onGlobals (hr : r.Composed K) {run : Reentry → Act α}
    (h : ∀ r' : Reentry, r'.Composed K → Act.Composed K (run r')) :
    Act.Composed K (r.onGlobals run) := by
  refine .bind .heap fun heap => ?_
  split
  · exact h r hr
  · exact .outside _ (h _ hr.inside)

theorem callIn (hr : r.Composed K) (f : Value) (args : List Variant) :
    Act.Composed K (r.callIn f args) := by
  refine .bind (.encodeAll args) fun result => ?_
  split
  · exact .pure _
  · refine .bind (hr.guard (hr.call _ _)) fun result => ?_
    split
    · exact .pure _
    · exact .bind (.decode _) fun _ => .pure _

theorem accessMode (ctx : Context) : Act.Composed K (Reentry.accessMode ctx) := by
  cases ctx with
  | attached => exact .bridge (fun _ => .pure _) fun _ => rfl
  | detached => exact .pure _

theorem callScript (hr : r.Composed K) (ctx : Context) (f : ScriptFunction) (args : List Variant) :
    Act.Composed K (r.callScript ctx f args) := by
  cases ctx with
  | detached => exact .pure _
  | attached => exact .bridge (fun b => .ite (hr.callIn _ _) (.pure _)) fun _ => rfl

theorem callGlobal (hr : r.Composed K) (ctx : Context) (name : String) (args : List Variant) :
    Act.Composed K (r.callGlobal ctx name args) := by
  cases ctx with
  | detached => exact .pure _
  | attached =>
    refine .bind (hr.guard (hr.onGlobals fun _ hr' => hr'.global name)) fun result => ?_
    split
    · exact .pure _
    · exact hr.callIn _ _
    · exact .pure _

theorem pushGlobal (hr : r.Composed K) (ctx : Context) (name : String) (v : Variant) :
    Act.Composed K (r.pushGlobal ctx name v) := by
  cases ctx with
  | detached => exact .pure _
  | attached =>
    refine .bind (.encode v) fun result => ?_
    split
    · exact .pure _
    · exact hr.guard (hr.onGlobals fun _ hr' => hr'.setGlobal _ _)

theorem pullGlobal (hr : r.Composed K) (ctx : Context) (name : String) :
    Act.Composed K (r.pullGlobal ctx name) := by
  cases ctx with
  | detached => exact .pure _
  | attached =>
    refine .bind (hr.guard (hr.onGlobals fun _ hr' => hr'.global name)) fun result => ?_
    split
    · exact .pure _
    · exact .bridge (fun _ => .pure _) fun _ => rfl

theorem functionExists (hr : r.Composed K) (ctx : Context) (name : String) :
    Act.Composed K (r.functionExists ctx name) := by
  cases ctx with
  | detached => exact .pure _
  | attached =>
    refine .bind (hr.guard (hr.onGlobals fun _ hr' => hr'.global name)) fun result => ?_
    split
    · exact .pure _
    · exact .pure _

end Reentry.Composed

/-! ### Host calls -/

open Act (Composed)

/-- Whether a callable can reach anything does not depend on what is recorded. -/
theorem Host.isValid_plain (h : Host) : (c : Callable) → h.plain.isValid c = h.isValid c
  | .method _ _ => rfl
  | .native _ => rfl
  | .script _ => rfl
  | .bound target _ _ => isValid_plain h target

theorem Callable.composed_invoke (hr : r.Composed K) (ctx : Context) :
    (c : Callable) → (args : List Variant) → Composed K (c.invoke r ctx args)
  | .method o name, args => hr.callObject ctx o name args
  | .native f, args => by
    rw [invoke]
    refine .bind (.record rfl) fun _ => .host (fun h => ?_) fun _ => rfl
    split
    · exact hr.perform _ _ _ _ _
    · exact .pure _
  | .script f, args => by
    rw [invoke]
    exact .bind (hr.callScript ctx f args) fun _ => .pure _
  | .bound target extra placement, args => by
    rw [invoke]
    exact composed_invoke hr ctx target _

theorem Signal.composed_forward (hr : r.Composed K) (ctx : Context) (s : Signal) (method : String)
    (args : List Variant) : Composed K (s.forward r ctx method args) :=
  .host (fun _ => .ite (.pure _) (hr.callObject _ _ _ _)) fun _ => rfl

theorem Signal.composed_call (hr : r.Composed K) (ctx : Context) (s : Signal) (method : String)
    (args : List Variant) : Composed K (s.call r ctx method args) := by
  unfold Signal.call
  split
  · exact .pure _
  · exact .pure _
  · exact .host (fun _ => .pure _) fun _ => rfl
  · exact composed_forward hr _ _ _ _
  · split
    · exact composed_forward hr _ _ _ _
    · exact .pure _
  · split
    · exact composed_forward hr _ _ _ _
    · exact .pure _
  · split
    · exact composed_forward hr _ _ _ _
    · exact .pure _
  · exact .pure _

theorem Callable.composed_call (hr : r.Composed K) (ctx : Context) (c : Callable) (method : String)
    (args : List Variant) : Composed K (c.call r ctx method args) := by
  unfold Callable.call
  split
  · exact composed_invoke hr ctx c args
  · exact .pure _
  · exact .pure _
  · exact .host (fun _ => .pure _) fun h => by rw [h.isValid_plain]
  · exact .pure _
  · exact .pure _

theorem Variant.composed_invoke (hr : r.Composed K) (ctx : Context) (v : Variant) (method : String)
    (args : List Variant) : Composed K (v.invoke r ctx method args) := by
  unfold Variant.invoke
  split
  · exact hr.callObject _ _ _ _
  · exact Signal.composed_call hr _ _ _ _
  · exact Callable.composed_call hr _ _ _ _
  · exact .pure _

namespace Behaviour

theorem composed_callEach (hr : r.Composed K) (ctx : Context) (args : List Variant)
    (targets : List Callable) : Composed K (callEach r ctx args targets) := by
  induction targets with
  | nil => exact .pure _
  | cons c rest ih =>
    refine .bind (c.composed_invoke hr ctx args) fun result => ?_
    split
    · exact ih
    · exact .pure _

/-- A new object of a host, and the count of those that one object has made. -/
theorem composed_create (o : ObjectId) (n : Nat) (child : ObjectId) (definition : Definition) :
    Composed K (Act.modifyHost fun h =>
      (h.update o fun x => { x with created := n }).add (.new child definition)) := by
  refine .blind (.modifyHost (fun _ => rfl) (fun _ => rfl) fun w =>
    World.Covers.of_works ⟨?_, .refl _, rfl⟩)
  let count (x : Instance) : Instance := { x with created := n }
  have updated : w.host.Works (w.host.update o count) :=
    .update w.host o (fun _ => rfl) fun _ => ⟨rfl, rfl, rfl⟩
  exact updated.trans (.add _ rfl rfl)

section Pauses

variable [Pausing] {most : Nat} [Pausing.Abides most K]

theorem composed_performOn (hr : r.Composed K) (hm : r.room ≤ most) (ctx : Context)
    (o : ObjectId) (b : Behaviour)
    (args : List Variant) : Composed K (performOn r ctx o b args) := by
  have connects (f : Instance → List (String × Callable)) :
      Composed K (Act.modifyHost (·.update o fun x => { x with connections := f x })) :=
    .update o (fun _ => rfl) fun _ => ⟨rfl, rfl, rfl⟩
  unfold performOn
  split
  · exact .bind (.write _ _ _) fun _ => .pure _
  · exact .host (fun _ => .pure _) fun _ => rfl
  · exact .host (fun h => .bind (composed_create _ _ _ _) fun _ => .pure _) fun _ => rfl
  · split
    · exact .pure _
    · exact .host (fun h => .ite (.pure _) (.bind (connects _) fun _ => .pure _)) fun _ => rfl
  · split
    · exact .pure _
    · exact .host (fun h => .ite (.bind (connects _) fun _ => .pure _) (.pure _)) fun _ => rfl
  · split
    · exact .pure _
    · exact .host (fun _ => .pure _) fun _ => rfl
  · refine .host (fun h => .bind (Pausing.Abides.holding _ hm (composed_callEach hr _ _ _))
      fun result => ?_) fun _ => rfl
    split
    · exact .pure _
    · exact .pure _
  · exact .pure _

theorem composed_run (hr : r.Composed K) (hm : r.room ≤ most) (ctx : Context)
    (self : Option ObjectId) (b : Behaviour)
    (args : List Variant) : Composed K (run r ctx self b args) := by
  unfold run
  split
  · exact .pure _
  · exact .pure _
  · exact .pure _
  · exact .pure _
  · exact .pure _
  · exact .host (fun _ => .pure _) fun _ => rfl
  · exact .pure _
  · exact .pure _
  · exact .bind (hr.callGlobal _ _ _) fun _ => .pure _
  · split
    · exact Callable.composed_invoke hr _ _ _
    · exact .pure _
  · exact .bind (hr.pushGlobal _ _ _) fun _ => .pure _
  · exact .bind (hr.pullGlobal _ _) fun _ => .pure _
  · exact .bind (hr.functionExists _ _) fun _ => .pure _
  · exact .bind (Reentry.Composed.accessMode _) fun _ => .pure _
  · split
    · exact composed_performOn hr hm _ _ _ _
    · exact .pure _

end Pauses

end Behaviour

/-! ### Functions that are not written in the script -/

namespace Reentry.Composed

theorem badArgument (f : Builtin) (n : Nat) (problem : String) :
    Act.Composed K (r.badArgument f n problem : Act α) := by
  unfold Reentry.badArgument
  dsimp only
  split
  · exact .ite (failAtCall _) (failAtCall _)
  · exact failAtCall _
  · exact .bridge (fun _ => failAtCall _) fun _ => rfl

theorem wrongType (f : Builtin) (n : Nat) (expected : String) (arg : Option Value) :
    Act.Composed K (r.wrongType f n expected arg : Act α) :=
  .bind .heap fun _ => badArgument _ _ _

theorem printedText (hr : r.Composed K) (f v : Value) : Act.Composed K (r.printedText f v) := by
  refine .bind (hr.guard (hr.call _ _)) fun result => .bind (.orThrow _) fun w => ?_
  split
  · exact .pure _
  · exact .throw _

theorem print (hr : r.Composed K) (args : List Value) : Act.Composed K (r.print args) := by
  refine .bind (hr.guard (hr.onGlobals fun _ hr' => hr'.global "tostring")) fun result =>
    .bind (.orThrow _) fun f => ?_
  split
  · exact .bind (.mapM fun v => hr.printedText _ v) fun texts =>
      .bridge (fun b => .ite (.record rfl) (.pure _)) fun _ => rfl
  · exact .throw _

theorem protectedCall (hr : r.Composed K) (f : Value) (args : List Value) :
    Act.Composed K (r.protectedCall f args) := by
  refine .attempt .protectedCall (fun result => by cases result <;> rfl) (hr.apply _ f args)
    fun result => ?_
  cases result with
  | ok results => exact .pure _
  | error e => exact .pure _

theorem getMetatable (v : Value) : Act.Composed K (Reentry.getMetatable v) := by
  refine .bind .heap fun h => ?_
  split
  · exact .pure _
  · exact .pure _
  · exact .pure _
  · exact .pure _

theorem setMetatable (args : List Value) : Act.Composed K (r.setMetatable args) := by
  unfold Reentry.setMetatable
  split
  · refine .bind .heap fun h => ?_
    dsimp only
    have change (id : Nat) (meta? : Option Nat) : Act.Composed K
        (Act.modifyHeap fun h => (h.setTable id { h.table id with meta? := meta? }).awaitEnd id) :=
      .modifyHeap fun h => (Heap.Works.setTable h _ _).trans (.awaitEnd _ _)
    split
    · exact .ite (.bind (change _ _) fun _ => .pure _) (failAtCall _)
    · exact .ite (.bind (change _ _) fun _ => .pure _) (failAtCall _)
    · exact wrongType _ _ _ _
  · exact wrongType _ _ _ _
  · exact wrongType _ _ _ _

theorem integerArgument (f : Builtin) (n : Nat) (default : Int64) (arg : Option Value) :
    Act.Composed K (r.integerArgument f n default arg) := by
  unfold Reentry.integerArgument
  split
  · exact .pure _
  · exact .pure _
  · split
    · exact .pure _
    · exact badArgument _ _ _
    · exact wrongType _ _ _ _

theorem raiseError (args : List Value) : Act.Composed K (r.raiseError args) := by
  refine .bind (integerArgument _ _ _ _) fun level => ?_
  dsimp only
  split
  · exact .ite (.raise _) (.raise _)
  · exact .raise _

theorem textArithmetic (hr : r.Composed K) (op : Metamethod) (a b : Value) :
    Act.Composed K (r.textArithmetic op a b) := by
  unfold Reentry.textArithmetic
  split
  · split
    · exact .pure _
    · exact fail _
  · refine .bind .heap fun h => ?_
    split
    · exact failAtCall _
    · exact failAtCall _
    · exact hr.handle _ _ _

theorem runBuiltin (hr : r.Composed K) (b : Builtin) (args : List Value) :
    Act.Composed K (r.runBuiltin b args) := by
  unfold Reentry.runBuiltin
  split
  · exact .bind (hr.print _) fun _ => .pure _
  · exact .bind (hr.text _) fun _ => .pure _
  · exact .pure _
  · exact hr.protectedCall _ _
  · exact raiseError _
  · exact .pure _
  · exact badArgument _ _ _
  · exact .bind (getMetatable _) fun _ => .pure _
  · exact .bind (setMetatable _) fun _ => .pure _
  · exact .bind (.onHeap fun h => .newThread h _) fun _ => .pure _
  · exact wrongType _ _ _ _
  · exact .bind (hr.textArithmetic _ _ _) fun _ => .pure _
  · exact badArgument _ _ _

theorem returned (method : String) (result : Except CallError Variant) :
    Act.Composed K (Reentry.returned method result) :=
  .bind (.orThrow _) fun _ => .bind (.push _) fun _ => .pure _

theorem runMethod (hr : r.Composed K) (box : Nat) (name : String) (args : List Value) :
    Act.Composed K (r.runMethod box name args) := by
  refine .bind .heap fun h => ?_
  split
  · exact .throw _
  · exact .bind (.decodeAll _) fun _ => .bind (Variant.composed_invoke hr _ _ _ _) fun _ =>
      returned _ _

theorem runOutside (hr : r.Composed K) (f : Function) (args : List Value) :
    Act.Composed K (r.runOutside f args) := by
  cases f with
  | closure => exact .pure _
  | builtin b => exact hr.runBuiltin b args
  | constructor s => exact .bind (.decodeAll _) fun _ => .bind (.push _) fun _ => .pure _
  | method box name => exact hr.runMethod box name args
  | factory o =>
    exact .bind (.decodeAll _) fun _ => .bind (hr.callObject _ _ _ _) fun _ => returned _ _

theorem runBox (hr : r.Composed K) (v : Value) (x : Variant) (args : List Value) :
    Act.Composed K (r.runBox v x args) := by
  unfold Reentry.runBox
  split
  · exact .bind (.decodeAll _) fun _ => .bind (Callable.composed_invoke hr _ _ _) fun _ =>
      returned _ _
  · exact .bind (hr.handleBox _ _ _) fun _ => .pure _

theorem target [Pausing] {most : Nat} [Pausing.Abides most K] (hr : r.Composed K)
    (hm : r.room ≤ most) (f : Value) (args : List Value) :
    Act.Composed K (r.target f args) := by
  refine .bind .heap fun h => ?_
  split
  · exact .bind (Pausing.Abides.pause _ hm) fun _ => .pure _
  · exact failOperand _ _
  · exact hr.outside fun _ _ => .throw _
  · exact fail _

theorem enter (p : Prototype) (captured : List Value) (chunk : String) (args : List Value)
    (wanted : Nat) : Act.Composed K (r.enter p captured chunk args wanted) :=
  .ite (fail _) (.bind (.fire _) fun _ => .pure _)

theorem counter? (start stop : Value) : Act.Composed K (r.counter? start stop) := by
  have bad (message : Heap → String) :
      Act.Composed K (do (r.fail (message (← Act.heap)) : Act (Option Counter))) :=
    .bind .heap fun _ => fail _
  unfold Reentry.counter?
  dsimp only
  split
  · exact bad _
  · exact bad _
  · exact .pure _
  · exact .pure _

theorem report (hr : r.Composed K) (result : Except Value Value) :
    Act.Composed K (r.report result) := by
  cases result with
  | ok v => exact .newTable _
  | error e => exact .bind (hr.toScriptError e) fun e => .newTable _

end Reentry.Composed

/-! ### Instructions -/

section Steps

variable {beyond : Site → Reentry} (hb : ∀ site, (beyond site).Composed K)

namespace Activation

theorem composed_reach (a : Activation) (i : Instr) : Composed K (a.reach i) := by
  refine .bind (.note _) fun _ => ?_
  dsimp only
  split
  · exact .pure _
  · exact .bind (.reach _ _ _) fun _ => .pure _

theorem composed_give (a : Activation) (callers : List Activation) (results : List Value) :
    Composed K (a.give callers results) := by
  refine .bind (.cross _) fun _ => ?_
  split
  · exact .pure _
  · exact .pure _

theorem composed_changeTable (a : Activation) (n : Nat) (f : Table → Table) :
    Composed K (a.changeTable n f) := by
  unfold Activation.changeTable
  split
  · exact .modifyHeap fun h => .setTable h _ _
  · exact .pure _

variable [Pausing] {most : Nat} [Pausing.Abides most K] (hm : ∀ site, (beyond site).room ≤ most)
  (a : Activation) (callers : List Activation)

include hb hm

theorem composed_call (n wanted : Nat) (callee? : Option Origin) :
    Composed K (a.call beyond callers n wanted callee?) := by
  have hr := hb ((a.pop (n + 1)).site callee?)
  refine .bind (hr.target (hm _) _ _) fun t => ?_
  obtain ⟨target, args⟩ := t
  cases target with
  | script p captured chunk => exact .bind (Reentry.Composed.enter _ _ _ _ _) fun _ => .pure _
  | outside f => exact .bind (hr.outside fun _ hr' => hr'.runOutside f args) fun _ => .pure _
  | box v x => exact .bind (hr.outside fun _ hr' => hr'.runBox v x args) fun _ => .pure _

theorem composed_perform (op : Op) : Composed K (a.perform beyond callers op) := by
  have hr := hb (a.site op.callee?)
  unfold Activation.perform
  dsimp only
  cases op with
  | constant | «variable» | bind | unbind | drop | swap | skip | skipUnless | back =>
    exact .pure _
  | global x => exact .bind (hr.global x) fun _ => .pure _
  | setGlobal x => exact .bind (hr.setGlobal x _) fun _ => .pure _
  | index of? => exact .bind (hr.index _ _ of?) fun _ => .pure _
  | setIndex of? => exact .bind (hr.setIndex _ _ _ of?) fun _ => .pure _
  | method name of? => exact .bind (hr.index _ _ of?) fun _ => .pure _
  | call args wanted callee? => exact composed_call hb hm a callers args wanted callee?
  | binary sign left? right? => exact .bind (hr.binary sign _ _ left? right?) fun _ => .pure _
  | unary sign of? => exact .bind (hr.unary sign _ of?) fun _ => .pure _
  | newTable => exact .bind (.newTable .empty) fun _ => .pure _
  | items first n => exact .bind (composed_changeTable a n _) fun _ => .pure _
  | entry pending =>
    dsimp only
    split
    · exact .bind (Reentry.Composed.rawSet _ _ _) fun _ => .pure _
    · exact .pure _
  | rest => exact .bind (.newTable _) fun _ => .pure _
  | closure p => exact .bind (.newFunction _) fun _ => .pure _
  | attempt p =>
    refine .bind (.newFunction _) fun f => ?_
    -- The call and the report of its error are one step that catches.
    have tried : Composed K ((Catcher.trying (beyond (a.site none)).inside).run
        ((beyond (a.site none)).inside.call f [])) :=
      .caught _ (hr.inside.call f []) fun result => hr.inside.report result
    have done := Composed.bind tried fun v => .pure (Status.running (a.push v) callers)
    rwa [Catcher.run, bind_assoc] at done
  | give n => exact composed_give a callers _
  | count n =>
    refine .bind (Reentry.Composed.counter? _ _) fun c? => ?_
    split
    · exact .pure _
    · exact .pure _
  | recount n =>
    dsimp only
    split
    · exact .pure _
    · exact .pure _

theorem composed_advance : Composed K (a.advance beyond callers) := by
  unfold advance
  split
  · exact composed_give a callers _
  · exact .bind (composed_reach a _) fun a => composed_perform hb hm a callers _

end Activation

variable [Pausing] {most : Nat} [Pausing.Abides most K] (hm : ∀ site, (beyond site).room < most)

include hb hm

/-- One instruction. -/
theorem composed_step (a : Activation) (callers : List Activation) :
    Composed K (step beyond a callers) :=
  .bind (Pausing.Abides.pause _ (hm _)) fun _ =>
    a.composed_advance hb (fun site => Nat.le_of_lt (hm site)) callers

omit hb hm in
/-- A run is one step after the other. -/
theorem execute_succ (fuel : Nat) (a : Activation) (callers : List Activation) :
    execute beyond (fuel + 1) a callers = step beyond a callers >>= fun status =>
      match status with
      | .running a callers => execute beyond fuel a callers
      | .finished results => pure results := by
  funext w
  rw [execute]
  show _ = Act.bind _ _ w
  unfold Act.bind
  cases step beyond a callers w with
  | ok status w => cases status <;> rfl
  | raised e w => rfl
  | exhausted => rfl

/-- Any number of instructions. -/
theorem composed_execute (fuel : Nat) (a : Activation) (callers : List Activation) :
    Composed K (execute beyond fuel a callers) := by
  induction fuel generalizing a callers with
  | zero => exact .exhausted
  | succ fuel ih =>
    rw [execute_succ]
    refine .bind (composed_step hb hm a callers) fun status => ?_
    cases status with
    | running a callers => exact ih a callers
    | finished results => exact .pure _

end Steps

/-! ### Nesting -/

namespace Reentry

variable [Pausing]

theorem room_ofApply (least : Nat) (apply : Site → Value → List Value → Act (List Value)) (n : Nat)
    (site : Site) : (ofApply least apply n site).room = hostRoom least n := by
  cases n <;> rfl

theorem room_upTo (n : Nat) (site : Site) :
    (upTo n site).room = hostRoom (roomUnder n) hostLimit := by
  cases n <;> exact room_ofApply _ _ _ _

theorem room_upTo_lt (n : Nat) (site : Site) :
    (upTo n site).room < roomUnder n + 2 * hostLimit + 2 := by
  rw [room_upTo, hostRoom]
  exact Nat.lt_succ_self _

omit [Pausing] in
theorem roomUnder_succ (n : Nat) : roomUnder (n + 1) = roomUnder n + 2 * hostLimit + 2 :=
  by rw [roomUnder, Nat.succ_mul, roomUnder, Nat.add_assoc]

end Reentry

namespace Reentry.Composed

variable [Pausing] {most : Nat} [Pausing.Abides most K]

theorem ofApply {least : Nat} {apply : Site → Value → List Value → Act (List Value)}
    (h : ∀ site f args, Act.Composed K (apply site f args)) {n : Nat}
    (hn : least + 2 * n ≤ most) (site : Site) : (Reentry.ofApply least apply n site).Composed K := by
  induction n generalizing site with
  | zero => exact ⟨h, fun _ _ _ _ _ => .exhausted⟩
  | succ n ih =>
    have room (site : Site) : (Reentry.ofApply least apply n site).room < most := by
      rw [Reentry.room_ofApply, Reentry.hostRoom]
      omega
    refine ⟨h, fun site ctx self b args => ?_⟩
    have inside := Behaviour.composed_run (ih (by omega) site) (Nat.le_of_lt (room site)) ctx self b
      args
    exact Pausing.Abides.holding _ (Reentry.room_ofApply least apply n site ▸ room site) inside

section Runs

variable {beyond : Site → Reentry} (hb : ∀ site, (beyond site).Composed K)
  (hm : ∀ site, (beyond site).room < most)

include hb hm

theorem runFunction (site : Site) (p : Prototype) (captured : List Value) (chunk : String)
    (args : List Value) :
    Act.Composed K (Reentry.runFunction beyond site p captured chunk args) :=
  .bind (enter p captured chunk args 1) fun a => composed_execute hb hm _ a []

theorem applyValue (site : Site) (f : Value) (args : List Value) :
    Act.Composed K (Reentry.applyValue beyond site f args) := by
  refine .bind ((hb site).target (Nat.le_of_lt (hm site)) f args) fun t => ?_
  obtain ⟨target, args⟩ := t
  cases target with
  | script p captured chunk => exact runFunction hb hm site p captured chunk args
  | outside f => exact (hb site).outside fun _ hr' => hr'.runOutside f args
  | box v x => exact (hb site).outside fun _ hr' => hr'.runBox v x args

end Runs

theorem upTo {n : Nat} (hn : Reentry.roomUnder n + 2 * Reentry.hostLimit ≤ most) (site : Site) :
    (Reentry.upTo n site).Composed K := by
  induction n generalizing site with
  | zero => exact ofApply (fun site _ _ => .raise _) hn site
  | succ n ih =>
    have less (site : Site) : (Reentry.upTo n site).room < most := by
      rw [Reentry.room_upTo, Reentry.hostRoom]
      rw [Reentry.roomUnder_succ] at hn
      omega
    have inner := ih (by rw [Reentry.roomUnder_succ] at hn; omega)
    exact ofApply (fun site f args => applyValue inner less site f args) hn site

theorem step [∀ most, Pausing.Abides most K] (n : Nat) (a : Activation)
    (callers : List Activation) : Act.Composed K (ScriptHost.step (Reentry.upTo n) a callers) :=
  composed_step (upTo (Nat.le_add_right _ 2)) (Reentry.room_upTo_lt n) a callers

theorem full [∀ most, Pausing.Abides most K] : Reentry.full.Composed K := upTo (Nat.le_refl _) _

theorem runPrototype [∀ most, Pausing.Abides most K] (p : Prototype) (chunk : String) :
    Act.Composed K (Reentry.runPrototype p chunk) :=
  runFunction (upTo (Nat.le_add_right _ 2)) (Reentry.room_upTo_lt _) _ p [] chunk []

end Reentry.Composed

end ScriptHost
