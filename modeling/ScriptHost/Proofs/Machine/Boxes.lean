import ScriptHost.Proofs.Machine.Keeping

/-! Hooks, calls of objects, and what boxes answer keep an interpreter to itself, as long as
the calls that they are written over do. -/

namespace ScriptHost

variable {owner : Nat} {α β : Type}

/-- Calls from here keep the interpreter to itself. -/
structure Reentry.Keeps (owner : Nat) (r : Reentry) : Prop where
  apply : ∀ {f : Value} {args : List Value} (site : Site), f.OwnedBy owner → AllOwned owner args →
    Act.Keeps owner (AllOwned owner) (r.apply site f args)
  perform : ∀ (site : Site) (ctx : Context) (self : Option ObjectId) (b : Behaviour)
    (args : List Variant), Act.Keeps owner (fun _ => True) (r.perform site ctx self b args)

/-! ### Hooks -/

namespace Act

/-- What runs whether or not something is done before it. -/
theorem Keeps.unless {post : α → Prop} {c : Prop} [Decidable c] {x : Act Unit} {y : Unit → Act α}
    (hx : Keeps owner (fun _ => True) x) (hy : Keeps owner post (y ())) :
    Keeps owner post (if c then y () else x >>= y) :=
  .ite hy (hx.bind fun _ _ => hy)

theorem keeps_fire (e : HookEvent) : Keeps owner (fun _ => True) (fire e) := by
  refine .bind .bridge fun b _ => ?_
  split
  · exact .pure trivial
  · refine .ite (.bind (.setHook _) fun _ _ => ?_) (.pure trivial)
    refine .unless (.record rfl) ?_
    split
    · exact .throw
    · exact .pure trivial

theorem keeps_note (callee? : Option String) : Keeps owner (fun _ => True) (note callee?) := by
  refine .bind .bridge fun b _ => ?_
  split
  · exact .pure trivial
  · exact .setHook _

theorem keeps_cross (e : HookEvent) : Keeps owner (fun _ => True) (cross e) :=
  .bind (keeps_note none) fun _ _ => keeps_fire e

theorem keeps_tick (chunk : String) (line : Nat) :
    Keeps owner (fun _ => True) (tick chunk line) := by
  refine .bind .bridge fun b _ => ?_
  split
  · exact .pure trivial
  · refine .ite (.ite (.bind (.setHook _) fun _ _ => keeps_fire _) (.setHook _)) (.pure trivial)

theorem keeps_reach (chunk : String) (line : Nat) (new : Bool) :
    Keeps owner (fun _ => True) (reach chunk line new) := by
  refine .bind .bridge fun b _ => ?_
  split
  · exact .pure trivial
  · exact .bind (keeps_tick _ _) fun _ _ => .ite (keeps_fire _) (.pure trivial)

theorem keeps_outside {post : α → Prop} {x : Act α} (name : Option String)
    (hx : Keeps owner post x) : Keeps owner post (outside name x) :=
  .bind (keeps_cross _) fun _ _ => .bind hx fun _ ha => .bind (keeps_cross _) fun _ _ => .pure ha

theorem keeps_handling {post : α → Prop} {x : Act α} (hx : Keeps owner post x) :
    Keeps owner post (handling x) := by
  refine .bind .bridge fun b _ => ?_
  split
  · exact hx
  · exact .ite (.bind (keeps_note none) fun _ _ => hx) (keeps_outside _ hx)

end Act

theorem Site.keeps_fail {post : α → Prop} (s : Site) (level : Nat) (message : String) :
    Act.Keeps owner post (s.fail level message) :=
  .raise trivial

namespace Reentry

open Act (Keeps)

variable {r : Reentry}

theorem ownedBy_first {vs : List Value} (h : AllOwned owner vs) : (first vs).OwnedBy owner := by
  cases vs with
  | nil => trivial
  | cons v _ => exact h v List.mem_cons_self

namespace Keeps

theorem inside (hr : r.Keeps owner) : r.inside.Keeps owner := ⟨hr.apply, hr.perform⟩

theorem call (hr : r.Keeps owner) {f : Value} {args : List Value} (hf : f.OwnedBy owner)
    (ha : AllOwned owner args) : Act.Keeps owner (Value.OwnedBy owner) (r.call f args) :=
  .bind (hr.apply _ hf ha) fun _ h => .pure (ownedBy_first h)

theorem outside {post : α → Prop} (hr : r.Keeps owner) {run : Reentry → Act α}
    (h : ∀ r' : Reentry, r'.Keeps owner → Act.Keeps owner post (run r')) :
    Act.Keeps owner post (r.outside run) :=
  Act.keeps_outside _ (h _ hr.inside)

theorem override? (hr : r.Keeps owner) (ctx : Context) (o : ObjectId) (op : Metamethod)
    (args : List Variant) : Act.Keeps owner (fun _ => True) (r.override? ctx o op args) := by
  refine .bind .host fun h _ => ?_
  split
  · exact .pure trivial
  · exact .unless (.record rfl) (.bind (hr.perform _ _ _ _ _) fun _ _ => .pure trivial)

theorem callObject (hr : r.Keeps owner) (ctx : Context) (o : ObjectId) (method : String)
    (args : List Variant) : Act.Keeps owner (fun _ => True) (r.callObject ctx o method args) := by
  refine .bind .host fun h _ => .unless (.record rfl) ?_
  split
  · exact hr.perform _ _ _ _ _
  · exact .pure trivial

end Keeps

end Reentry

/-! ### Boxes -/

namespace Box

open Act (Keeps)

variable {r : Reentry}

theorem keeps_decline {post : α → Prop} (op : Metamethod) (type : String) :
    Keeps owner post (decline op type) :=
  .throw

theorem keeps_readTyped (id : Nat) (v : Variant) (key : Value) :
    Keeps owner (Value.OwnedBy owner) (readTyped id v key) := by
  have method (name : String) : (Function.method id name).OwnedBy owner :=
    Function.ownedBy_of_isClosure rfl
  refine .bind (.decode _) fun k _ => .bind .host fun h _ => ?_
  split
  · exact .ite (.newFunction (method _)) (.push _)
  · exact .push _

theorem keeps_writeTyped (id : Nat) (key value : Value) :
    Keeps owner (fun _ => True) (writeTyped id key value) :=
  .bind (.decode _) fun _ _ => .bind (.decode _) fun _ _ => .modifyHeap fun _ hh =>
    hh.writeBox _ _ _

theorem keeps_binaryTyped (op : Metamethod) (type : String) (a b : Value) :
    Keeps owner (Value.OwnedBy owner) (binaryTyped op type a b) := by
  refine .bind (.decode _) fun x _ => .bind (.decode _) fun y _ => .ite (.pure trivial) ?_
  split
  · exact .push _
  · exact keeps_decline _ _

theorem keeps_answer (op : Metamethod) (result : Except CallError Variant) :
    Keeps owner (Value.OwnedBy owner) (answer op result) :=
  .bind (.orThrow fun _ _ => trivial) fun v (_ : True) => .push v

theorem keeps_answerOrDecline (hr : r.Keeps owner) (op : Metamethod) (o : ObjectId)
    (args : List Variant) : Keeps owner (Value.OwnedBy owner) (answerOrDecline r op o args) := by
  refine .bind (hr.override? _ _ _ _) fun result _ => ?_
  split
  · exact keeps_answer _ _
  · exact .bind .host fun _ _ => keeps_decline _ _

theorem keeps_readField (id : Nat) (o : ObjectId) (key : Variant) :
    Keeps owner (Value.OwnedBy owner) (readField id o key) := by
  have method (name : String) : (Function.method id name).OwnedBy owner :=
    Function.ownedBy_of_isClosure rfl
  unfold readField
  split
  · refine .bind .host fun h _ => .bind .bridge fun b _ => ?_
    exact .ite (.pure trivial) (.ite (.newFunction (method _)) (.push _))
  · exact .pure trivial

theorem keeps_readObject (hr : r.Keeps owner) (id : Nat) (o : ObjectId) (key : Value) :
    Keeps owner (Value.OwnedBy owner) (readObject r id o key) := by
  refine .bind (.decode _) fun k _ => .bind (hr.override? _ _ _ _) fun result _ => ?_
  split
  · exact keeps_answer _ _
  · exact keeps_readField _ _ _

theorem keeps_writeField (o : ObjectId) (key value : Variant) :
    Keeps owner (fun _ => True) (writeField o key value) := by
  unfold writeField
  split
  · refine .bind .bridge fun b _ => .bind .host fun h _ => .ite ?_ (.pure trivial)
    exact .bind (.onHost fun h => .write h _ _ _) fun _ _ => .pure trivial
  · exact .pure trivial

theorem keeps_writeObject (hr : r.Keeps owner) (o : ObjectId) (key value : Value) :
    Keeps owner (fun _ => True) (writeObject r o key value) := by
  refine .bind (.decode _) fun k _ => .bind (.decode _) fun v _ =>
    .bind (hr.override? _ _ _ _) fun result _ => ?_
  split
  · exact .bind (.orThrow fun _ _ => trivial) fun _ (_ : True) => .pure trivial
  · exact keeps_writeField _ _ _

theorem keeps_shownName (hr : r.Keeps owner) (o : ObjectId) :
    Keeps owner (fun _ => True) (shownName r o) := by
  refine .bind (hr.override? _ _ _ _) fun result _ => ?_
  split
  · exact .pure trivial
  · exact .bind .host fun _ _ => .pure trivial

theorem keeps_textOfObject (hr : r.Keeps owner) (o : ObjectId) :
    Keeps owner (fun _ => True) (textOfObject r o) := by
  refine .bind (hr.override? _ _ _ _) fun result _ => ?_
  split
  · exact .bind (.orThrow fun _ _ => trivial) fun _ (_ : True) =>
      .bind .host fun _ _ => .pure trivial
  · exact .bind (keeps_shownName hr o) fun _ _ => .pure trivial

theorem keeps_equalObjects (hr : r.Keeps owner) (a b : Value) :
    Keeps owner (Value.OwnedBy owner) (equalObjects r a b) := by
  refine .bind (.decode _) fun x _ => .bind (.decode _) fun y _ => ?_
  dsimp only
  split
  rotate_left 2
  · exact .pure trivial
  all_goals
    refine .bind (hr.override? _ _ _ _) fun result _ => ?_
    split
    · exact keeps_answer _ _
    · exact .pure trivial

theorem keeps_describe (v : Value) : Keeps owner (fun _ => True) (describe v) := by
  unfold describe
  split
  · refine .bind .heap fun h _ => ?_
    split
    · exact .bind .host fun _ _ => .pure trivial
    · exact .pure trivial
    · exact .pure trivial
  · exact .pure trivial

theorem keeps_binaryObject (hr : r.Keeps owner) (op : Metamethod) (a b : Value) :
    Keeps owner (Value.OwnedBy owner) (binaryObject r op a b) := by
  have declined : Keeps owner (Value.OwnedBy owner) (do decline op (← describe b)) :=
    .bind (keeps_describe _) fun _ _ => keeps_decline _ _
  unfold binaryObject
  split
  · refine .bind .heap fun _ _ => .bind (.pure trivial) fun left (_ : True) => ?_
    cases left with
    | none => exact declined
    | some o => exact .bind (.decode _) fun _ _ => keeps_answerOrDecline hr _ _ _
  · exact declined

end Box

end ScriptHost
