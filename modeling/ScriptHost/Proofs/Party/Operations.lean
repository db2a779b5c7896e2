import ScriptHost.Proofs.Party.Boxes

/-! Operations of scripts, as one side of a session sees them. -/

namespace ScriptHost

open Act (Mirrors)

variable {p : Party} {α : Type} [Sided α] {r : Reentry}

/-! ### Boxes -/

/-- What a box of anything but an object answers. -/
theorem Reentry.handleBox_typed (r : Reentry) (op : Metamethod) {v : Variant} (hv : v.object? = none)
    (args : List Value) : r.handleBox op v args = match op, args with
      | .index, [.box id, key] => Box.readTyped id v key
      | .newIndex, [.box id, key, value] => do Box.writeTyped id key value; return .nil
      | .toText, _ => do return .ofString ((← Act.host).text v)
      | op, [a, b] => Box.binaryTyped op v.boxName a b
      | op, _ => Box.decline op v.boxName := by
  unfold handleBox
  split
  all_goals first
    | cases hv
    | rfl
    | (split <;> first | rfl | simp_all)

theorem Box.mirrors_handleObject (hr : r.Mirrors p) (op : Metamethod) {o : ObjectId}
    (ho : p.object o = true) (args : List Value) :
    Mirrors p (r.handleBox op (.object o) args)
      (r.handleBox op (.object o) (args.map (Value.view p))) := by
  have none : ∀ v ∈ ([] : List Variant), v.Owned p := List.forall_mem_nil _
  cases op with
  | index =>
    rcases args with _ | ⟨a, _ | ⟨b, _ | ⟨c, rest⟩⟩⟩
    · exact Box.mirrors_decline _ _
    · cases a <;> exact Box.mirrors_decline _ _
    · have other := Box.mirrors_binaryObject hr .index a b
      cases a with
      | box id => exact Box.mirrors_readObject hr id ho b
      | _ => exact other
    · cases a <;> exact Box.mirrors_decline _ _
  | newIndex =>
    rcases args with _ | ⟨a, _ | ⟨b, _ | ⟨c, _ | ⟨d, rest⟩⟩⟩⟩
    · exact Box.mirrors_decline _ _
    · exact Box.mirrors_decline _ _
    · exact Box.mirrors_binaryObject hr _ a b
    · exact .bind (Box.mirrors_writeObject hr ho b c) fun _ _ => .pure trivial
    · exact Box.mirrors_decline _ _
  | call =>
    cases args with
    | nil => exact Box.mirrors_decline _ _
    | cons a rest =>
      refine .bind (.decodeAll rest) fun vs hvs => ?_
      have owned : ∀ v ∈ [Variant.array vs], v.Owned p :=
        List.forall_mem_singleton.mpr (Variant.owned_array.mpr hvs)
      have asked := Box.mirrors_answerOrDecline hr .call ho owned
      rwa [List.map_singleton, Variant.view_array] at asked
  | toText => exact .bind (Box.mirrors_textOfObject hr ho) fun _ _ => .pure trivial
  | unm | bnot | len => exact Box.mirrors_answerOrDecline hr _ ho none
  | eq =>
    rcases args with _ | ⟨a, _ | ⟨b, _ | ⟨c, rest⟩⟩⟩
    · exact Box.mirrors_decline _ _
    · exact Box.mirrors_decline _ _
    · exact Box.mirrors_equalObjects hr a b
    · exact Box.mirrors_decline _ _
  | _ =>
    rcases args with _ | ⟨a, _ | ⟨b, _ | ⟨c, rest⟩⟩⟩
    · exact Box.mirrors_decline _ _
    · exact Box.mirrors_decline _ _
    · exact Box.mirrors_binaryObject hr _ a b
    · exact Box.mirrors_decline _ _

theorem Box.mirrors_handleTyped (op : Metamethod) {v : Variant} (hv : v.Owned p)
    (hn : v.object? = none) (args : List Value) :
    Mirrors p (r.handleBox op v args) (r.handleBox op (v.view p) (args.map (Value.view p))) := by
  have declined (op : Metamethod) : Mirrors p (decline op v.boxName : Act Value)
      (decline op (v.view p).boxName) := by
    rw [Variant.boxName_view]
    exact Box.mirrors_decline _ _
  have binary (op : Metamethod) (a b : Value) : Mirrors p (binaryTyped op v.boxName a b)
      (binaryTyped op (v.view p).boxName (a.view p) (b.view p)) := by
    rw [Variant.boxName_view]
    exact Box.mirrors_binaryTyped _ _ a b
  rw [Reentry.handleBox_typed r op hn,
    Reentry.handleBox_typed r op ((Variant.object?_view v).trans hn)]
  cases op with
  | index =>
    rcases args with _ | ⟨a, _ | ⟨b, _ | ⟨c, rest⟩⟩⟩
    · exact declined _
    · cases a <;> exact declined _
    · have other := binary .index a b
      cases a with
      | box id => exact Box.mirrors_readTyped id hv b
      | _ => exact other
    · cases a <;> exact declined _
  | newIndex =>
    rcases args with _ | ⟨a, _ | ⟨b, _ | ⟨c, _ | ⟨d, rest⟩⟩⟩⟩
    · exact declined _
    · cases a <;> exact declined _
    · have other := binary .newIndex a b
      cases a <;> exact other
    · cases a with
      | box id => exact .bind (Box.mirrors_writeTyped id b c) fun _ _ => .pure trivial
      | _ => exact declined _
    · cases a <;> exact declined _
  | toText => exact .bind .host fun h _ => .pureOf trivial (congrArg Value.ofString (Host.text_view hv))
  | _ =>
    rcases args with _ | ⟨a, _ | ⟨b, _ | ⟨c, rest⟩⟩⟩
    · exact declined _
    · exact declined _
    · exact binary _ a b
    · exact declined _

namespace Reentry.Mirrors

theorem handleBox (hr : r.Mirrors p) (op : Metamethod) {v : Variant} (hv : v.Owned p)
    (args : List Value) : Act.Mirrors p (r.handleBox op v args)
      (r.handleBox op (v.view p) (args.map (Value.view p))) := by
  cases ho : v.object? with
  | none => exact Box.mirrors_handleTyped op hv ho args
  | some o =>
    cases v with
    | object o => exact Box.mirrors_handleObject hr op (Variant.owned_object.mp hv) args
    | _ => cases ho

theorem handle (hr : r.Mirrors p) (op : Metamethod) {h : Handler} (hh : h.Owned p)
    (args : List Value) : Act.Mirrors p (r.handle op h args)
      (r.handle op (h.view p) (args.map (Value.view p))) := by
  cases h with
  | value f => exact hr.call f args
  | box v => exact hr.outside fun _ hr' => hr'.handleBox op hh args
  | faultText e => exact hr.outside fun _ _ => .pure trivial
  | streamField => exact .pure trivial
  | emptied => exact hr.outside fun _ _ => .throw _

theorem handler?_or_view (h : Heap) (op : Metamethod) (a b : Value) :
    ((h.view p).handler? op (a.view p) <|> (h.view p).handler? op (b.view p)) =
      (h.handler? op a <|> h.handler? op b).map (Handler.view p) := by
  rw [Heap.handler?_view, Heap.handler?_view]
  cases h.handler? op a <;> rfl

theorem handlerOf (op : Metamethod) (a b : Value) : Act.Mirrors p (Reentry.handlerOf op a b)
    (Reentry.handlerOf op (a.view p) (b.view p)) := by
  refine .bind .heap fun h hh => .pureOf ?_ (handler?_or_view h op a b)
  intro x hx
  rcases Option.or_eq_some_iff.mp ((Option.orElse_eq_or ..).symm.trans hx) with hx | ⟨-, hx⟩
  · exact hh.handler hx
  · exact hh.handler hx

/-! ### Text -/

theorem text (hr : r.Mirrors p) (v : Value) : Act.Mirrors p (r.text v) (r.text (v.view p)) := by
  refine .bind .heap fun h hh => ?_
  dsimp only [Sided.view]
  rw [Heap.handler?_view]
  cases hx : h.handler? .toText v with
  | none => exact .bind .heap fun h _ => .pureOf trivial (Heap.defaultText_view h v)
  | some x =>
    refine .bind (hr.handle .toText (hh.handler hx) [v]) fun w _ => ?_
    dsimp only [Sided.view]
    rw [Value.textual?_view]
    cases w.textual? with
    | none => exact failAtCall _
    | some bytes => exact .pure trivial

/-! ### Indexing -/

theorem indexFrom (hr : r.Mirrors p) (key : Value) (fuel : Nat) (v : Value)
    (of? : Option Origin) :
    Act.Mirrors p (r.indexFrom key fuel v of?) (r.indexFrom (key.view p) fuel (v.view p) of?) := by
  induction fuel generalizing v of? with
  | zero => exact fail _
  | succ fuel ih =>
    refine .bind .heap fun h hh => ?_
    have unanswered : Act.Mirrors p (r.failOperand (.index (h.typeName v)) of? : Act Value)
        (r.failOperand (.index ((h.view p).typeName (v.view p))) of?) := by
      rw [Heap.typeName_view]
      exact failOperand _ _
    have next (w : Value) : Act.Mirrors p
        (if (held h w key).isNil then r.indexFrom key fuel w none else return held h w key)
        (if (held (h.view p) (w.view p) (key.view p)).isNil
          then r.indexFrom (key.view p) fuel (w.view p) none
          else return held (h.view p) (w.view p) (key.view p)) := by
      rw [Heap.held_view]
      exact .test (Value.isNil_view _) (ih w none) (.pure trivial)
    dsimp only [Sided.view]
    rw [Heap.handler?_view]
    cases hx : h.handler? .index v with
    | none =>
      cases v with
      | table id => exact .pure trivial
      | _ => exact unanswered
    | some x =>
      have asked := hr.handle .index (hh.handler hx) [v, key]
      cases x with
      | value w =>
        have onward := next w
        cases w with
        | function f => exact hr.call (.function f) [v, key]
        | _ => exact onward
      | _ => exact asked

theorem index (hr : r.Mirrors p) (v key : Value) (of? : Option Origin) :
    Act.Mirrors p (r.index v key of?) (r.index (v.view p) (key.view p) of?) := by
  refine .bind .heap fun h _ => ?_
  dsimp only [Sided.view]
  rw [Heap.held_view]
  exact .test (Value.isNil_view _) (hr.indexFrom key chainLimit v of?) (.pure trivial)

theorem rawSet (id : Nat) (key value : Value) :
    Act.Mirrors p (r.rawSet id key value) (r.rawSet id (key.view p) (value.view p)) := by
  unfold Reentry.rawSet
  rw [Key.ofValue_view]
  cases Key.ofValue key with
  | error fault => exact fail _
  | ok k => exact .modifyHeap (fun h => (h.view_set id k value).symm) fun _ hh => hh.set id k value

/-- A table that holds the key takes the new value, else something else is done. -/
theorem setHeld (other other' : Value → Act Unit) (h : Heap) (v key value : Value)
    (ho : ∀ v, Act.Mirrors p (other v) (other' (v.view p))) :
    Act.Mirrors p
      (match v, (held h v key).isNil with
      | .table id, false => r.rawSet id key value
      | v, _ => other v)
      (match v.view p, (held (h.view p) (v.view p) (key.view p)).isNil with
      | .table id, false => r.rawSet id (key.view p) (value.view p)
      | v, _ => other' v) := by
  rw [Heap.held_view, Value.isNil_view]
  have elsewhere := ho v
  cases v with
  | table id =>
    cases (held h (.table id) key).isNil with
    | true => exact elsewhere
    | false => exact rawSet id key value
  | _ => exact elsewhere

theorem setIndexFrom (hr : r.Mirrors p) (key value : Value) (fuel : Nat) (v : Value)
    (of? : Option Origin) : Act.Mirrors p (r.setIndexFrom key value fuel v of?)
      (r.setIndexFrom (key.view p) (value.view p) fuel (v.view p) of?) := by
  induction fuel generalizing v of? with
  | zero => exact fail _
  | succ fuel ih =>
    refine .bind .heap fun h hh => ?_
    have unanswered : Act.Mirrors p (r.failOperand (.index (h.typeName v)) of? : Act Unit)
        (r.failOperand (.index ((h.view p).typeName (v.view p))) of?) := by
      rw [Heap.typeName_view]
      exact failOperand _ _
    have next (w : Value) := setHeld (r := r) (r.setIndexFrom key value fuel · none)
      (r.setIndexFrom (key.view p) (value.view p) fuel · none) h w key value (ih · none)
    dsimp only [Sided.view]
    rw [Heap.handler?_view]
    cases hx : h.handler? .newIndex v with
    | none =>
      cases v with
      | table id => exact rawSet id key value
      | _ => exact unanswered
    | some x =>
      have asked : Act.Mirrors p (do let _ ← r.handle .newIndex x [v, key, value])
          (do let _ ← r.handle .newIndex (x.view p) [v.view p, key.view p, value.view p]) :=
        .bind (hr.handle .newIndex (hh.handler hx) [v, key, value]) fun _ _ => .pure trivial
      cases x with
      | value w =>
        have onward := next w
        cases w with
        | function f =>
          exact .bind (hr.call (.function f) [v, key, value]) fun _ _ => .pure trivial
        | _ => exact onward
      | _ => exact asked

theorem setIndex (hr : r.Mirrors p) (v key value : Value) (of? : Option Origin) :
    Act.Mirrors p (r.setIndex v key value of?)
      (r.setIndex (v.view p) (key.view p) (value.view p) of?) :=
  .bind .heap fun h _ =>
    setHeld (r.setIndexFrom key value chainLimit · of?) _ h v key value
      (hr.setIndexFrom key value chainLimit · of?)

theorem global (hr : r.Mirrors p) (name : String) : Act.Mirrors p (r.global name) (r.global name) :=
  hr.index (.table Heap.globals) (.ofString name) none

theorem setGlobal (hr : r.Mirrors p) (name : String) (value : Value) :
    Act.Mirrors p (r.setGlobal name value) (r.setGlobal name (value.view p)) :=
  hr.setIndex (.table Heap.globals) (.ofString name) value none

/-! ### Operators -/

theorem culprit_view (a b : Value) (left? right? : Option Origin) :
    culprit (a.view p) (b.view p) left? right? =
      ((culprit a b left? right?).1.view p, (culprit a b left? right?).2) := by
  unfold culprit
  rw [Value.numeral?_view]
  split <;> rfl

/-- An operator on values that do not settle it themselves. -/
theorem byHandler (hr : r.Mirrors p) (op : Metamethod) (a b : Value) {x x' : Act Value}
    (hx : Act.Mirrors p x x') :
    Act.Mirrors p
      (do match ← Reentry.handlerOf op a b with
        | some h => r.handle op h [a, b]
        | none => x)
      (do match ← Reentry.handlerOf op (a.view p) (b.view p) with
        | some h => r.handle op h [a.view p, b.view p]
        | none => x') := by
  refine .bind (handlerOf op a b) fun found hf => ?_
  cases found with
  | none => exact hx
  | some h => exact hr.handle op (hf h rfl) [a, b]

/-- What is said of an operand that does not support an operation. -/
theorem failTyped (fault : String → OperandFault) (v : Value) (of? : Option Origin) :
    Act.Mirrors p (do r.failOperand (fault ((← Act.heap).typeName v)) of? : Act α)
      (do r.failOperand (fault ((← Act.heap).typeName (v.view p))) of?) := by
  refine .bind .heap fun h _ => ?_
  dsimp only [Sided.view]
  rw [Heap.typeName_view]
  exact failOperand _ _

theorem arithmetic (hr : r.Mirrors p) (op : Metamethod) (a b : Value)
    (left? right? : Option Origin) : Act.Mirrors p (r.arithmetic op a b left? right?)
      (r.arithmetic op (a.view p) (b.view p) left? right?) := by
  have asked := hr.byHandler op a b
    (failTyped (r := r) .arithmetic (culprit a b left? right?).1 (culprit a b left? right?).2)
  unfold Reentry.arithmetic
  rw [Value.numeral?_view, Value.numeral?_view, culprit_view]
  cases a.numeral? with
  | none => exact asked
  | some m =>
    cases b.numeral? with
    | none => exact asked
    | some n =>
      dsimp only
      cases op.arithmetic m n with
      | error fault => exact fail _
      | ok x => exact .pureOf trivial (Value.view_ofNumeral x).symm

theorem bitwise (hr : r.Mirrors p) (op : Metamethod) (a b : Value)
    (left? right? : Option Origin) : Act.Mirrors p (r.bitwise op a b left? right?)
      (r.bitwise op (a.view p) (b.view p) left? right?) := by
  have asked := hr.byHandler op a b
    (failTyped (r := r) .bitwise (culprit a b left? right?).1 (culprit a b left? right?).2)
  unfold Reentry.bitwise
  rw [Value.numeral?_view, Value.numeral?_view, Value.integer?_view, Value.integer?_view,
    culprit_view]
  cases a.numeral? with
  | none => exact asked
  | some _ =>
    cases b.numeral? with
    | none => exact asked
    | some _ =>
      cases a.integer? with
      | none => exact failOperand _ _
      | some m =>
        cases b.integer? with
        | none => exact failOperand _ _
        | some n => exact .pure trivial

theorem concat (hr : r.Mirrors p) (a b : Value) (left? right? : Option Origin) :
    Act.Mirrors p (r.concat a b left? right?) (r.concat (a.view p) (b.view p) left? right?) := by
  unfold Reentry.concat
  rw [Value.textual?_view, Value.textual?_view]
  cases a.textual? with
  | none => exact hr.byHandler .concat a b (failTyped .concatenate a left?)
  | some x =>
    cases b.textual? with
    | none => exact hr.byHandler .concat a b (failTyped .concatenate b right?)
    | some y => exact .pure trivial

theorem compareByHandler (hr : r.Mirrors p) (op : Metamethod) (a b : Value) :
    Act.Mirrors p (r.compareByHandler op a b)
      (r.compareByHandler op (a.view p) (b.view p)) := by
  have truth {x y : Act Value} (f : Bool → Bool) (hx : Act.Mirrors p x y) :
      Act.Mirrors p (do return f (← x).truth) (do return f (← y).truth) :=
    .bind hx fun v _ => .pureOf trivial (congrArg f (Value.truth_view v))
  refine .bind (handlerOf op a b) fun found hf => ?_
  cases found with
  | some h => exact truth id (hr.handle op (hf h rfl) [a, b])
  | none =>
    have failed : Act.Mirrors p (do
          let heap ← Act.heap
          (r.failOperand (.compare (heap.typeName a) (heap.typeName b)) none : Act Bool))
        (do
          let heap ← Act.heap
          r.failOperand (.compare (heap.typeName (a.view p)) (heap.typeName (b.view p))) none) := by
      refine .bind .heap fun h _ => ?_
      dsimp only [Sided.view]
      rw [Heap.typeName_view, Heap.typeName_view]
      exact failOperand _ _
    refine .ite (.bind (handlerOf .lt b a) fun found hf => ?_) failed
    cases found with
    | some h => exact truth (!·) (hr.handle .lt (hf h rfl) [b, a])
    | none => exact failed

/-- Numbers compare by themselves. -/
theorem compareNumbers (hr : r.Mirrors p) (op : Metamethod) (a b : Value) : Act.Mirrors p
    (match a.numeral?, b.numeral? with
      | some m, some n => return if op = .lt then Number.less m n else Number.lessOrEqual m n
      | _, _ => r.compareByHandler op a b)
    (match (a.view p).numeral?, (b.view p).numeral? with
      | some m, some n => return if op = .lt then Number.less m n else Number.lessOrEqual m n
      | _, _ => r.compareByHandler op (a.view p) (b.view p)) := by
  rw [Value.numeral?_view, Value.numeral?_view]
  cases a.numeral? with
  | none => exact hr.compareByHandler op a b
  | some m =>
    cases b.numeral? with
    | none => exact hr.compareByHandler op a b
    | some n => exact .pure trivial

theorem compare (hr : r.Mirrors p) (op : Metamethod) (a b : Value) :
    Act.Mirrors p (r.compare op a b) (r.compare op (a.view p) (b.view p)) := by
  have numbers := hr.compareNumbers op a b
  cases a with
  | string x =>
    cases b with
    | string y => exact .pure trivial
    | _ => exact numbers
  | _ => exact numbers

theorem equalByHandler (hr : r.Mirrors p) (a b : Value) : Act.Mirrors p
    (do match ← Reentry.handlerOf .eq a b with
      | some h => return (← r.handle .eq h [a, b]).truth
      | none => return false)
    (do match ← Reentry.handlerOf .eq (a.view p) (b.view p) with
      | some h => return (← r.handle .eq h [a.view p, b.view p]).truth
      | none => return false) := by
  refine .bind (handlerOf .eq a b) fun found hf => ?_
  cases found with
  | none => exact .pure trivial
  | some h =>
    exact .bind (hr.handle .eq (hf h rfl) [a, b]) fun v _ => .pureOf trivial (Value.truth_view v)

theorem equal (hr : r.Mirrors p) (a b : Value) :
    Act.Mirrors p (r.equal a b) (r.equal (a.view p) (b.view p)) := by
  have asked := hr.equalByHandler a b
  refine .test (Value.same_view a b) (.pure trivial) (.iteOf ?_ asked (.pure trivial))
  rw [Value.basicType_view, Value.basicType_view]

/-- The length of what is no string. -/
theorem lengthByHandler (hr : r.Mirrors p) (v : Value) (of? : Option Origin) : Act.Mirrors p
    (do
      let heap ← Act.heap
      match heap.handler? .len v, v with
      | some h, v => r.handle .len h [v, v]
      | none, .table id => return .int (Int64.ofNat (heap.table id).border)
      | none, v => r.failOperand (.length (heap.typeName v)) of?)
    (do
      let heap ← Act.heap
      match heap.handler? .len (v.view p), v.view p with
      | some h, v => r.handle .len h [v, v]
      | none, .table id => return .int (Int64.ofNat (heap.table id).border)
      | none, v => r.failOperand (.length (heap.typeName v)) of?) := by
  refine .bind .heap fun h hh => ?_
  have unanswered : Act.Mirrors p (r.failOperand (.length (h.typeName v)) of? : Act Value)
      (r.failOperand (.length ((h.view p).typeName (v.view p))) of?) := by
    rw [Heap.typeName_view]
    exact failOperand _ _
  dsimp only [Sided.view]
  rw [Heap.handler?_view]
  cases hx : h.handler? .len v with
  | some x => exact hr.handle .len (hh.handler hx) [v, v]
  | none =>
    cases v with
    | table id =>
      refine .pureOf trivial ?_
      rw [Heap.table_view, Table.border_view]
      rfl
    | _ => exact unanswered

theorem length (hr : r.Mirrors p) (v : Value) (of? : Option Origin) :
    Act.Mirrors p (r.length v of?) (r.length (v.view p) of?) := by
  have asked := hr.lengthByHandler v of?
  cases v with
  | string bytes => exact .pure trivial
  | _ => exact asked

theorem binary (hr : r.Mirrors p) (op : BinaryOperator) (a b : Value)
    (left? right? : Option Origin) : Act.Mirrors p (r.binary op a b left? right?)
      (r.binary op (a.view p) (b.view p) left? right?) := by
  have said {x y : Act Bool} (f : Bool → Bool) (hx : Act.Mirrors p x y) :
      Act.Mirrors p (do return .bool (f (← x)) : Act Value) (do return .bool (f (← y))) :=
    .bind hx fun _ _ => .pure trivial
  cases op with
  | div => exact hr.arithmetic .div a b left? right?
  | pow => exact hr.arithmetic .pow a b left? right?
  | add | sub | mul | idiv | mod => exact hr.arithmetic (BinaryOperator.metamethod _) a b left? right?
  | concat => exact hr.concat a b left? right?
  | band | bor | bxor | shl | shr => exact hr.bitwise (BinaryOperator.metamethod _) a b left? right?
  | eq => exact said id (hr.equal a b)
  | ne => exact said (!·) (hr.equal a b)
  | lt => exact said id (hr.compare .lt a b)
  | le => exact said id (hr.compare .le a b)
  | gt => exact said id (hr.compare .lt b a)
  | ge => exact said id (hr.compare .le b a)

theorem unary (hr : r.Mirrors p) (op : UnaryOperator) (a : Value) (of? : Option Origin) :
    Act.Mirrors p (r.unary op a of?) (r.unary op (a.view p) of?) := by
  cases op with
  | minus => exact hr.arithmetic .unm a a of? of?
  | complement => exact hr.bitwise .bnot a a of? of?
  | length => exact hr.length a of?
  | not => exact .pureOf trivial (congrArg (Value.bool !·) (Value.truth_view a))

end Reentry.Mirrors

end ScriptHost
