import ScriptHost.Proofs.Party.Acts

/-! What operations on boxes do, as one side of a session sees it. -/

namespace ScriptHost

variable {p : Party} {α : Type}

/-- Calls from here do the same in what the party sees. -/
structure Reentry.Mirrors (p : Party) (r : Reentry) : Prop where
  apply : ∀ (site : Site) (f : Value) (args : List Value), Act.Mirrors p (r.apply site f args)
    (r.apply site (f.view p) (args.map (Value.view p)))
  perform : ∀ (site : Site) (ctx : Context) (self : Option ObjectId) {b : Behaviour}
    {args : List Variant}, (∀ o, self = some o → p.object o = true) → b.Owned p →
    (∀ v ∈ args, v.Owned p) → Act.Mirrors p (r.perform site ctx self b args)
      (r.perform site ctx self (b.view p) (args.map (Variant.view p)))

variable [Sided α] {r : Reentry} {o : ObjectId} {args : List Variant}

/-! ### Calls -/

namespace Reentry.Mirrors

theorem fail (message : String) :
    Act.Mirrors p (r.fail message : Act α) (r.fail message) := .raise _

theorem failAtCall (message : String) :
    Act.Mirrors p (r.failAtCall message : Act α) (r.failAtCall message) := .raise _

theorem failOperand (fault : OperandFault) (of? : Option Origin) :
    Act.Mirrors p (r.failOperand fault of? : Act α) (r.failOperand fault of?) := .raise _

theorem inside (hr : r.Mirrors p) : r.inside.Mirrors p := ⟨hr.apply, hr.perform⟩

theorem first_view (vs : List Value) :
    Reentry.first (vs.map (Value.view p)) = (Reentry.first vs).view p := by
  cases vs <;> rfl

theorem call (hr : r.Mirrors p) (f : Value) (args : List Value) :
    Act.Mirrors p (r.call f args) (r.call (f.view p) (args.map (Value.view p))) :=
  .bind (hr.apply _ f args) fun vs _ => .pureOf trivial (first_view vs)

theorem outside {run run' : Reentry → Act α} (hr : r.Mirrors p)
    (h : ∀ r : Reentry, r.Mirrors p → Act.Mirrors p (run r) (run' r)) :
    Act.Mirrors p (r.outside run) (r.outside run') :=
  .outside _ (h _ hr.inside)

theorem override? (hr : r.Mirrors p) (ctx : Context) (ho : p.object o = true) (op : Metamethod)
    (ha : ∀ v ∈ args, v.Owned p) : Act.Mirrors p (r.override? ctx o op args)
      (r.override? ctx o op (args.map (Variant.view p))) := by
  refine .bind .host fun h hh => ?_
  have seen : ((h.view p).definition o).override? op =
      ((h.definition o).override? op).map (Behaviour.view p) := by
    rw [Host.definition_view ho, Definition.override?_view]
  dsimp only [Sided.view]
  rw [seen]
  cases hb : (h.definition o).override? op with
  | none => exact .pure nofun
  | some behaviour =>
    have owned := Definition.owned_of_override? (hh.instance ho).definition hb
    refine .doUnless (.record (.override o op args)) (.bind (hr.perform _ _ _ ?_ owned ha) ?_)
    · rintro _ ⟨⟩
      exact ho
    · exact fun result hr => .pure fun _ he => Option.some.inj he ▸ hr

theorem callObject (hr : r.Mirrors p) (ctx : Context) (ho : p.object o = true) (method : String)
    (ha : ∀ v ∈ args, v.Owned p) : Act.Mirrors p (r.callObject ctx o method args)
      (r.callObject ctx o method (args.map (Variant.view p))) := by
  refine .bind .host fun h hh => ?_
  dsimp only [Sided.view]
  rw [Host.definition_view ho, Definition.isBare_view, Definition.method?_view]
  refine .doUnless (.record (.call o method args)) ?_
  cases hb : (h.definition o).method? method with
  | none => exact .pure trivial
  | some behaviour =>
    refine hr.perform _ _ _ ?_ (Definition.owned_of_method? (hh.instance ho).definition hb) ha
    rintro _ ⟨⟩
    exact ho

end Reentry.Mirrors

/-! ### Structured values and signals -/

namespace Box

open Act (Mirrors)

theorem mirrors_decline (op : Metamethod) (type : String) :
    Mirrors p (decline op type : Act α) (decline op type) :=
  .throw _

theorem mirrors_readTyped (id : Nat) {v : Variant} (hv : v.Owned p) (key : Value) :
    Mirrors p (readTyped id v key) (readTyped id (v.view p) (key.view p)) := by
  refine .bind (.decode key) fun k hk => .bind .host fun h hh => ?_
  have pushed (k : Variant) :
      Mirrors p (Act.push (h.get v k)) (Act.push ((h.view p).get (v.view p) (k.view p))) := by
    rw [Host.get_view hv]
    exact .push (hh.get hv k)
  cases k with
  | string name =>
    exact .test (Host.valueHasMethod_view hv name) (.newFunction trivial) (pushed (.string name))
  | _ => exact pushed _

theorem mirrors_writeTyped (id : Nat) (key value : Value) :
    Mirrors p (writeTyped id key value) (writeTyped id (key.view p) (value.view p)) :=
  .bind (.decode key) fun k hk => .bind (.decode value) fun v hv =>
    .modifyHeap (fun h => h.writeBox_view id k v) fun _ hh => hh.writeBox id hk hv

theorem mirrors_binaryTyped (op : Metamethod) (type : String) (a b : Value) :
    Mirrors p (binaryTyped op type a b) (binaryTyped op type (a.view p) (b.view p)) := by
  refine .bind (.decode a) fun x _ => .bind (.decode b) fun y _ => ?_
  dsimp only [Sided.view]
  rw [Variant.same_view, Variant.evaluate?_view]
  refine .ite (.pure trivial) ?_
  cases he : Variant.evaluate? op x y with
  | none => exact mirrors_decline _ _
  | some v =>
    have plain := Variant.isPlain_evaluate? he
    have pushed := Act.Mirrors.push (p := p) (Variant.owned_of_isPlain plain)
    rwa [Variant.view_of_isPlain plain] at pushed

/-! ### Objects -/

theorem mirrors_answer (op : Metamethod) {result : Except CallError Variant}
    (hr : Sided.Owned p result) :
    Mirrors p (answer op result) (answer op (Sided.view p result)) := by
  cases result with
  | ok v => exact .bind (.orThrow (x := .ok v) hr) fun _ hv => .push hv
  | error e => exact .bind (.throw (α := Variant) _) fun _ hv => .push hv

theorem mirrors_answerOrDecline (hr : r.Mirrors p) (op : Metamethod) (ho : p.object o = true)
    (ha : ∀ v ∈ args, v.Owned p) : Mirrors p (answerOrDecline r op o args)
      (answerOrDecline r op o (args.map (Variant.view p))) := by
  refine .bind (hr.override? _ ho _ ha) fun result hres => ?_
  cases result with
  | some result => exact mirrors_answer _ (hres _ rfl)
  | none =>
    refine .bind .host fun h _ => ?_
    dsimp only [Sided.view]
    rw [Host.classOf_view ho]
    exact mirrors_decline _ _

theorem mirrors_readField (id : Nat) (ho : p.object o = true) (key : Variant) :
    Mirrors p (readField id o key) (readField id o (key.view p)) := by
  cases key with
  | string name =>
    refine .bind .host fun h hh => .bind .bridge fun b _ => ?_
    have property : Mirrors p (Act.push (Variant.ofOption (h.property? o name)))
        (Act.push (Variant.ofOption ((h.view p).property? o name))) := by
      rw [Host.property?_view ho, ← Variant.view_ofOption]
      exact .push (Variant.owned_ofOption fun _ hv => hh.property? ho hv)
    exact .test (congrArg (! b.mode.allows · name) (Host.fields_view ho)) (.pure trivial)
      (.test (Host.hasMethod_view ho name) (.newFunction trivial) property)
  | _ => exact .pure trivial

theorem mirrors_readObject (hr : r.Mirrors p) (id : Nat) (ho : p.object o = true) (key : Value) :
    Mirrors p (readObject r id o key) (readObject r id o (key.view p)) := by
  refine .bind (.decode key) fun k hk =>
    .bind (hr.override? _ ho _ (List.forall_mem_singleton.mpr hk)) fun result hres => ?_
  cases result with
  | some result => exact mirrors_answer _ (hres _ rfl)
  | none => exact mirrors_readField id ho k

theorem mirrors_writeField (ho : p.object o = true) (key : Variant) {value : Variant}
    (hv : value.Owned p) :
    Mirrors p (writeField o key value) (writeField o (key.view p) (value.view p)) := by
  cases key with
  | string name =>
    refine .bind .bridge fun b _ => .bind .host fun h _ => ?_
    exact .test (congrArg (b.mode.allows · name) (Host.fields_view ho))
      (.bind (.write ho name hv) fun _ _ => .pure trivial) (.pure trivial)
  | _ => exact .pure trivial

theorem mirrors_writeObject (hr : r.Mirrors p) (ho : p.object o = true) (key value : Value) :
    Mirrors p (writeObject r o key value) (writeObject r o (key.view p) (value.view p)) := by
  refine .bind (.decode key) fun k hk => .bind (.decode value) fun v hv => ?_
  have both : ∀ x ∈ [k, v], x.Owned p :=
    List.forall_mem_cons.mpr ⟨hk, List.forall_mem_singleton.mpr hv⟩
  refine .bind (hr.override? _ ho _ both) fun result _ => ?_
  cases result with
  | none => exact mirrors_writeField ho k hv
  | some result =>
    cases result with
    | ok v => exact .pure trivial
    | error e => exact .bind (.throw (α := Variant) _) fun _ _ => .pure trivial

theorem mirrors_shownName (hr : r.Mirrors p) (ho : p.object o = true) :
    Mirrors p (shownName r o) (shownName r o) := by
  have className : Mirrors p (do return (← Act.host).classOf o : Act String)
      (do return (← Act.host).classOf o) :=
    .bind .host fun h _ => .pureOf trivial (Host.classOf_view ho)
  refine .bind (hr.override? _ ho _ (List.forall_mem_nil _)) fun result _ => ?_
  cases result with
  | none => exact className
  | some result =>
    cases result with
    | error e => exact className
    | ok v =>
      cases v with
      | string name => exact .pure trivial
      | _ => exact className

theorem mirrors_textOfObject (hr : r.Mirrors p) (ho : p.object o = true) :
    Mirrors p (textOfObject r o) (textOfObject r o) := by
  refine .bind (hr.override? _ ho _ (List.forall_mem_nil _)) fun result hres => ?_
  cases result with
  | none => exact .bind (mirrors_shownName hr ho) fun _ _ => .pure trivial
  | some result =>
    cases result with
    | ok v =>
      exact .bind (.orThrow (x := .ok v) (hres _ rfl)) fun _ hv =>
        .bind .host fun h _ => .pureOf trivial (Host.text_view hv)
    | error e =>
      exact .bind (.throw (α := Variant) _) fun _ hv =>
        .bind .host fun h _ => .pureOf trivial (Host.text_view hv)

/-- An object is asked whether another value equals it. -/
theorem mirrors_askEqual (hr : r.Mirrors p) {o : ObjectId} {other : Variant}
    (ho : p.object o = true) (hv : other.Owned p) :
    Mirrors p (do
      match ← r.override? .attached o .eq [other] with
      | some result => answer .eq result
      | none => return .bool (other.object? == some o))
    (do
      match ← r.override? .attached o .eq [other.view p] with
      | some result => answer .eq result
      | none => return .bool ((other.view p).object? == some o)) := by
  refine .bind (hr.override? _ ho _ (List.forall_mem_singleton.mpr hv)) fun result hres => ?_
  cases result with
  | some result => exact mirrors_answer _ (hres _ rfl)
  | none =>
    dsimp only [Sided.view, Option.map]
    rw [Variant.object?_view]
    exact .pure trivial

theorem mirrors_equalObjects (hr : r.Mirrors p) (a b : Value) :
    Mirrors p (equalObjects r a b) (equalObjects r (a.view p) (b.view p)) := by
  refine .bind (.decode a) fun x hx => .bind (.decode b) fun y hy => ?_
  cases x with
  | object o => exact mirrors_askEqual hr (Variant.owned_object.mp hx) hy
  | _ =>
    cases y with
    | object o => exact mirrors_askEqual hr (Variant.owned_object.mp hy) hx
    | _ => exact .pure trivial

theorem mirrors_describe (v : Value) : Mirrors p (describe v) (describe (v.view p)) := by
  cases v with
  | box id =>
    refine .bind .heap fun h hh => ?_
    dsimp only [Sided.view]
    rw [Heap.boxed?_view]
    cases hb : h.boxed? id with
    | none => exact .pure trivial
    | some x =>
      cases x with
      | object o =>
        exact .bind .host fun _ _ =>
          .pureOf trivial (Host.classOf_view (Variant.owned_object.mp (hh.of_boxed? hb)))
      | _ => exact .pure trivial
  | _ => exact .pure trivial

theorem mirrors_binaryObject (hr : r.Mirrors p) (op : Metamethod) (a b : Value) :
    Mirrors p (binaryObject r op a b) (binaryObject r op (a.view p) (b.view p)) := by
  have declined : Mirrors p (do (decline op (← describe b) : Act Value))
      (do decline op (← describe (b.view p))) :=
    .bind (mirrors_describe b) fun _ _ => mirrors_decline _ _
  cases a with
  | box id =>
    refine .bind .heap fun h hh => ?_
    have seen : ((h.view p).boxed? id).bind Variant.object? =
        (h.boxed? id).bind Variant.object? := by
      rw [Heap.boxed?_view]
      cases h.boxed? id with
      | none => rfl
      | some v => exact Variant.object?_view v
    have own : Sided.Owned p ((h.boxed? id).bind Variant.object?) := by
      intro o ho
      obtain ⟨v, hv, ho⟩ := Option.bind_eq_some_iff.mp ho
      exact Variant.owned_of_object? (hh.of_boxed? hv) ho
    refine .bind (.pureOf own (seen.trans Option.map_id_apply.symm)) fun left hl => ?_
    cases left with
    | none => exact declined
    | some o =>
      exact .bind (.decode b) fun _ hv =>
        mirrors_answerOrDecline hr op (hl o rfl) (List.forall_mem_singleton.mpr hv)
  | _ => exact declined

end Box

end ScriptHost
