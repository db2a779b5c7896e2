import ScriptHost.Machine.Nesting
import ScriptHost.Proofs.Machine.Acting
import ScriptHost.Proofs.Party.Behaviours
import ScriptHost.Proofs.Party.Builtins

/-! Running functions, as one side of a session sees them: each instruction and a whole run do the
same, whatever the numbers of the interpreters. -/

namespace ScriptHost

open Act (Mirrors)

variable {p : Party} {r : Reentry}

/-! ### What is called -/

namespace Target

def view (p : Party) : Target → Target
  | script q captured chunk => script q (captured.map (Value.view p)) chunk
  | outside f => outside (f.view p)
  | box v x => box (v.view p) (x.view p)

def Owned (p : Party) : Target → Prop
  | script _ _ _ => True
  | outside f => f.Owned p
  | box _ x => x.Owned p

end Target

instance : Sided Target := ⟨Target.view, Target.Owned⟩

namespace Heap

/-- What a call of a value that is no function comes to, where the handler of the call is another
value that is called with more arguments. -/
def answeredBy (h : Heap) (next : Value → Except CallFault (Target × List Value)) (v : Value)
    (args : List Value) : Except CallFault (Target × List Value) :=
  match h.handler? .call v with
  | some (.value g) => next g
  | some (.box x) => .ok (.box v x, args)
  | some .emptied => .error .emptied
  | _ => .error (.noFunction (h.typeName v))

theorem answeredBy_view {h : Heap} {f g : Value → Except CallFault (Target × List Value)}
    (hg : ∀ v, g (v.view p) = (f v).map fun t => (t.1.view p, t.2.map (Value.view p)))
    (v : Value) (args : List Value) :
    (h.view p).answeredBy g (v.view p) (args.map (Value.view p)) =
      (h.answeredBy f v args).map fun t => (t.1.view p, t.2.map (Value.view p)) := by
  unfold answeredBy
  rw [handler?_view, typeName_view]
  cases h.handler? .call v with
  | none => rfl
  | some x =>
    cases x with
    | value v => exact hg v
    | _ => rfl

theorem target_view (h : Heap) (fuel : Nat) (v : Value) (args : List Value) :
    (h.view p).target fuel (v.view p) (args.map (Value.view p)) =
      (h.target fuel v args).map fun t => (t.1.view p, t.2.map (Value.view p)) := by
  induction fuel generalizing v args with
  | zero => rfl
  | succ fuel ih =>
    have answered := answeredBy_view (p := p) (h := h)
      (g := fun g => (h.view p).target fuel g ((v :: args).map (Value.view p)))
      (fun g => ih g (v :: args)) v args
    cases v with
    | function f =>
      simp only [target, Value.view_function, ScriptFunction.view, function_view]
      cases h.functions[f.address]? with
      | none => rfl
      | some f => cases f <;> rfl
    | _ => exact answered

theorem Owned.target {h : Heap} (hh : h.Owned p) {fuel : Nat} {v : Value} {args : List Value}
    {t : Target × List Value} (ht : h.target fuel v args = .ok t) : t.1.Owned p := by
  induction fuel generalizing v args with
  | zero => cases ht
  | succ fuel ih =>
    have answered (ht : h.answeredBy (fun g => h.target fuel g (v :: args)) v args = .ok t) :
        t.1.Owned p := by
      unfold answeredBy at ht
      split at ht
      · exact ih ht
      next hx =>
        cases ht
        exact hh.handler (x := .box _) hx
      · cases ht
      · cases ht
    cases v with
    | function f =>
      dsimp only [Heap.target] at ht
      split at ht
      · cases ht
        trivial
      next hf =>
        cases ht
        exact hh.function _ (Array.mem_of_getElem? hf)
      · cases ht
    | _ => exact answered ht

end Heap

namespace Reentry.Mirrors

theorem target (hr : r.Mirrors p) (f : Value) (args : List Value) :
    Act.Mirrors p (r.target f args) (r.target (f.view p) (args.map (Value.view p))) := by
  refine .bind .heap fun h hh => ?_
  dsimp only [Sided.view]
  rw [Heap.target_view]
  cases ht : h.target stackLimit f args with
  | ok t => exact .pure ⟨hh.target ht, fun _ _ => trivial⟩
  | error fault =>
    cases fault with
    | noFunction type => exact failOperand _ _
    | emptied => exact hr.outside fun _ _ => .throw _
    | endless => exact fail _

theorem counter? (start stop : Value) :
    Act.Mirrors p (r.counter? start stop) (r.counter? (start.view p) (stop.view p)) := by
  have bad (what : String) (v : Value) : Act.Mirrors p (do
      (r.fail ("bad 'for' " ++ what ++ " (number expected, got " ++ (← Act.heap).typeName v ++ ")") :
        Act (Option Counter)))
      (do r.fail ("bad 'for' " ++ what ++ " (number expected, got " ++
        (← Act.heap).typeName (v.view p) ++ ")")) := by
    refine .bind .heap fun h _ => ?_
    dsimp only [Sided.view]
    rw [Heap.typeName_view]
    exact fail _
  have limits : (stop.view p).spelt? = stop.spelt? := Value.spelt?_view stop
  unfold Reentry.counter?
  rw [limits, Value.spelt?_view]
  cases stop.spelt? with
  | none => exact bad "limit" stop
  | some limit =>
    cases start.spelt? with
    | none => cases start <;> exact bad "initial value" _
    | some first =>
      have counts (c? : Option Counter) : Act.Mirrors p (return c?) (return c?) :=
        .pureOf (fun _ _ => trivial) (Option.map_id_apply).symm
      cases start <;> exact counts _

theorem report (hr : r.Mirrors p) (result : Except Value Value) :
    Act.Mirrors p (r.report result) (r.report (Sided.view p result)) := by
  cases result with
  | ok v =>
    have shown := Act.Mirrors.newTable (p := p)
      ((Table.empty.set (.ofString "ok") (.bool true)).set (.ofString "value") v)
    rwa [← Table.set_view] at shown
  | error e => exact .bind (hr.toScriptError e) fun _ _ => .newTable _

end Reentry.Mirrors

/-! ### Functions at work -/

namespace Activation

def view (p : Party) (a : Activation) : Activation :=
  { a with
    locals := a.locals.map (Value.view p)
    captured := a.captured.map (Value.view p)
    rest := a.rest.map (Value.view p)
    stack := a.stack.map (Value.view p) }

end Activation

instance : Sided Activation := ⟨Activation.view, fun _ _ => True⟩

namespace Status

def view (p : Party) : Status → Status
  | running a callers => running (a.view p) (callers.map (Activation.view p))
  | finished results => finished (results.map (Value.view p))

end Status

instance : Sided Status := ⟨Status.view, fun _ _ => True⟩

namespace Activation

variable (a : Activation)

theorem bindArguments_view (n : Nat) (args locals : List Value) :
    bindArguments n (args.map (Value.view p)) (locals.map (Value.view p)) =
      (bindArguments n args locals).map (Value.view p) := by
  induction n generalizing args locals with
  | zero => rfl
  | succ n ih =>
    rw [bindArguments, bindArguments, ← ih, List.map_cons, Reentry.Mirrors.first_view,
      List.map_tail]

theorem start_view (q : Prototype) (captured : List Value) (chunk : String) (args : List Value)
    (wanted : Nat) (site : Site) :
    start q (captured.map (Value.view p)) chunk (args.map (Value.view p)) wanted site =
      (start q captured chunk args wanted site).view p := by
  have bound := bindArguments_view (p := p) q.params args []
  have further : (if q.variadic then (args.map (Value.view p)).drop q.params else []) =
      (if q.variadic then args.drop q.params else []).map (Value.view p) := by
    split
    · exact (List.map_drop ..).symm
    · rfl
  unfold start view
  rw [List.map_nil] at bound
  dsimp only
  rw [bound, further, List.map_nil]

@[simp] theorem getD_view (vs : List Value) (i : Nat) :
    (vs.map (Value.view p)).getD i .nil = (vs.getD i .nil).view p := by
  rw [List.getD_eq_getElem?_getD, List.getElem?_map, List.getD_eq_getElem?_getD]
  cases vs[i]? <;> rfl

@[simp] theorem peek_view (i : Nat) : (a.view p).peek i = (a.peek i).view p := getD_view _ _

@[simp] theorem lookup_view (slot : Slot) : (a.view p).lookup slot = (a.lookup slot).view p := by
  cases slot <;> exact getD_view _ _

@[simp] theorem top_view (n : Nat) : (a.view p).top n = (a.top n).map (Value.view p) := by
  simp [top, view, List.map_take]

@[simp] theorem push_view (v : Value) : (a.view p).push (v.view p) = (a.push v).view p := rfl

@[simp] theorem pop_view (n : Nat) : (a.view p).pop n = (a.pop n).view p := by
  simp [pop, view, List.map_drop]

@[simp] theorem replace_view (n : Nat) (v : Value) :
    (a.view p).replace n (v.view p) = (a.replace n v).view p := by
  rw [replace, pop_view, push_view, replace]

@[simp] theorem receive_view (n : Nat) (results : List Value) :
    (a.view p).receive n (results.map (Value.view p)) = (a.receive n results).view p := by
  have bound := bindArguments_view (p := p) n results a.stack
  unfold receive
  rw [view]
  dsimp only
  rw [bound]
  rfl

@[simp] theorem site_view (callee? : Option Origin) : (a.view p).site callee? = a.site callee? := by
  simp [site, view, line]

theorem closure_view (q : Prototype) : (a.view p).closure q = (a.closure q).view p := by
  show Function.closure q (q.captures.map (a.view p).lookup) a.chunk =
    .closure q ((q.captures.map a.lookup).map (Value.view p)) a.chunk
  rw [List.map_map]
  exact congrArg (Function.closure q · a.chunk)
    (List.map_congr_left fun slot _ => a.lookup_view slot)

theorem mirrors_enter (r : Reentry) (q : Prototype) (captured : List Value) (chunk : String)
    (args : List Value) (wanted : Nat) : Mirrors p (r.enter q captured chunk args wanted)
      (r.enter q (captured.map (Value.view p)) chunk (args.map (Value.view p)) wanted) :=
  .ite (.raise _) (.bind (.fire _) fun _ _ =>
    .pureOf trivial (start_view q captured chunk args wanted r.site))

theorem mirrors_reach (i : Instr) : Mirrors p (a.reach i) ((a.view p).reach i) := by
  refine .bind (.note _) fun _ _ => ?_
  dsimp only
  split
  · exact .pure trivial
  · exact .bind (.reach _ _ _) fun _ _ => .pure trivial

theorem mirrors_give (callers : List Activation) (results : List Value) :
    Mirrors p (a.give callers results)
      ((a.view p).give (callers.map (Activation.view p)) (results.map (Value.view p))) := by
  refine .bind (.cross _) fun _ _ => ?_
  cases callers with
  | nil => exact .pure trivial
  | cons caller callers =>
    refine .pureOf trivial ?_
    show Status.running _ _ = Status.running _ _
    exact congrArg (Status.running · _) (receive_view caller a.wanted results)

theorem mirrors_changeTable (n : Nat) {f g : Table → Table}
    (hf : ∀ t : Table, g (t.view p) = (f t).view p) :
    Mirrors p (a.changeTable n f) ((a.view p).changeTable n g) := by
  unfold changeTable
  rw [peek_view]
  cases a.peek n with
  | table id =>
    refine .modifyHeap (fun h => ?_) fun _ hh => hh.setTable id _
    rw [Heap.view_setTable, Heap.table_view, hf]
  | _ => exact .pure trivial

section Steps

variable {beyond : Site → Reentry} (hb : ∀ site, (beyond site).Mirrors p)
  (callers : List Activation)

include hb

theorem mirrors_call (n wanted : Nat) (callee? : Option Origin) :
    Mirrors p (a.call beyond callers n wanted callee?)
      ((a.view p).call beyond (callers.map (Activation.view p)) n wanted callee?) := by
  unfold call
  rw [peek_view, top_view, pop_view]
  dsimp only
  rw [site_view]
  have hr := hb ((a.pop (n + 1)).site callee?)
  have goes (results : List Value) : Mirrors p
      (return .running ((a.pop (n + 1)).receive wanted results) callers : Act Status)
      (return .running (((a.pop (n + 1)).view p).receive wanted (results.map (Value.view p)))
        (callers.map (Activation.view p))) :=
    .pureOf trivial
      (congrArg (Status.running · (callers.map (Activation.view p))) (receive_view _ wanted results))
  refine .bind (hr.target _ _) fun t ht => ?_
  obtain ⟨target, args⟩ := t
  cases target with
  | script q captured chunk =>
    exact .bind (mirrors_enter _ q captured chunk args wanted) fun _ _ => .pure trivial
  | outside f =>
    exact .bind (hr.outside fun _ hr' => hr'.runOutside ht.1 args) fun results _ => goes results
  | box v x =>
    exact .bind (hr.outside fun _ hr' => hr'.runBox v ht.1 args) fun results _ => goes results

theorem mirrors_perform (op : Op) : Mirrors p (a.perform beyond callers op)
    ((a.view p).perform beyond (callers.map (Activation.view p)) op) := by
  have hr := hb (a.site op.callee?)
  have on {b c : Activation} (h : c = b.view p) : Mirrors p (return .running b callers : Act Status)
      (return .running c (callers.map (Activation.view p))) :=
    .pureOf trivial (h ▸ rfl)
  unfold perform
  dsimp only
  rw [site_view]
  cases op with
  | constant v =>
    refine on ?_
    rw [← push_view, Value.view_literal]
  | «variable» slot =>
    refine on ?_
    rw [lookup_view, push_view]
  | global x => exact .bind (hr.global x) fun v _ => on (push_view a v)
  | setGlobal x =>
    rw [peek_view]
    exact .bind (hr.setGlobal x _) fun _ _ => on (pop_view a 1)
  | bind =>
    refine on ?_
    rw [peek_view, pop_view]
    rfl
  | unbind n =>
    refine on ?_
    simp [view, List.map_drop]
  | drop => exact on (pop_view a 1)
  | swap =>
    refine on ?_
    rw [peek_view, peek_view, pop_view, push_view, push_view]
  | index of? =>
    rw [peek_view, peek_view]
    exact .bind (hr.index _ _ of?) fun v _ => on (replace_view a 2 v)
  | setIndex of? =>
    rw [peek_view, peek_view, peek_view]
    exact .bind (hr.setIndex _ _ _ of?) fun _ _ => on (pop_view a 3)
  | method name of? =>
    rw [peek_view]
    refine .bind (hr.index _ _ of?) fun v _ => on ?_
    exact (congrArg (push · _) (replace_view a 1 v)).trans (push_view _ _)
  | call args wanted callee? => exact mirrors_call a hb callers args wanted callee?
  | binary sign left? right? =>
    rw [peek_view, peek_view]
    exact .bind (hr.binary sign _ _ left? right?) fun v _ => on (replace_view a 2 v)
  | unary sign of? =>
    rw [peek_view]
    exact .bind (hr.unary sign _ of?) fun v _ => on (replace_view a 1 v)
  | newTable => exact .bind (.newTable .empty) fun v _ => on (push_view a v)
  | items first n =>
    refine .bind (mirrors_changeTable a n fun t => ?_) fun _ _ => on (pop_view a n)
    rw [top_view, Table.setItems_view]
  | entry pending =>
    dsimp only
    rw [peek_view, peek_view, peek_view]
    cases a.peek (pending + 2) with
    | table id => exact .bind (Reentry.Mirrors.rawSet id _ _) fun _ _ => on (pop_view a 2)
    | _ => exact on (pop_view a 2)
  | rest =>
    have items : (Table.empty.setItems 1 a.rest).view p = Table.empty.setItems 1 (a.view p).rest :=
      (Table.setItems_view (p := p) .empty 1 a.rest).symm
    dsimp only
    rw [← items]
    exact .bind (.newTable _) fun v _ => on (push_view a v)
  | closure q =>
    dsimp only
    rw [closure_view]
    exact .bind (.newFunction trivial) fun v _ => on (push_view a v)
  | attempt q =>
    dsimp only
    rw [closure_view]
    exact .bind (.newFunction trivial) fun f _ =>
      .bind (.attempt ((hb (a.site none)).inside.call f [])) fun result _ =>
        .bind ((hb (a.site none)).inside.report result) fun v _ => on (push_view a v)
  | give n =>
    dsimp only
    rw [top_view]
    exact mirrors_give a callers _
  | skip n => exact on rfl
  | skipUnless n =>
    refine on ?_
    rw [peek_view, Value.truth_view, pop_view]
    split <;> rfl
  | back n => exact on rfl
  | count n =>
    rw [peek_view, peek_view]
    refine .bind (Reentry.Mirrors.counter? _ _) fun c? _ => ?_
    cases c? with
    | none =>
      refine on ?_
      rw [pop_view]
      rfl
    | some c =>
      refine on ?_
      rw [pop_view]
      simp [view, Sided.view]
  | recount n =>
    have next : (a.view p).counters.head?.bind Counter.next? =
      a.counters.head?.bind Counter.next? := rfl
    dsimp only
    rw [next]
    cases a.counters.head?.bind Counter.next? with
    | none =>
      refine on ?_
      simp [view]
    | some c =>
      refine on ?_
      simp [view]

end Steps

end Activation

/-! ### Runs -/

section Runs

variable {beyond : Site → Reentry} (hb : ∀ site, (beyond site).Mirrors p)

include hb

/-- One instruction. -/
theorem mirrors_step (a : Activation) (callers : List Activation) :
    Mirrors p (step beyond a callers)
      (step beyond (a.view p) (callers.map (Activation.view p))) := by
  have code : (a.view p).code[(a.view p).next]? = a.code[a.next]? := rfl
  refine .bind (.pure trivial) fun _ _ => ?_
  unfold Activation.advance
  rw [code]
  cases a.code[a.next]? with
  | none => exact a.mirrors_give callers []
  | some i => exact .bind (a.mirrors_reach i) fun a _ => a.mirrors_perform hb callers i.op

/-- Any number of instructions. -/
theorem mirrors_execute (fuel : Nat) (a : Activation) (callers : List Activation) :
    Mirrors p (execute beyond fuel a callers)
      (execute beyond fuel (a.view p) (callers.map (Activation.view p))) := by
  induction fuel generalizing a callers with
  | zero => exact .exhausted
  | succ fuel ih =>
    rw [execute_succ, execute_succ]
    refine .bind (mirrors_step hb a callers) fun status _ => ?_
    cases status with
    | running a callers => exact ih a callers
    | finished results => exact .pure fun _ _ => trivial

end Runs

/-! ### Nesting -/

namespace Reentry.Mirrors

theorem ofApply {least : Nat} {apply : Site → Value → List Value → Act (List Value)}
    (h : ∀ site f args, Act.Mirrors p (apply site f args)
      (apply site (f.view p) (args.map (Value.view p)))) (n : Nat) (site : Site) :
    (Reentry.ofApply least apply n site).Mirrors p := by
  induction n generalizing site with
  | zero => exact ⟨h, fun _ _ _ _ _ _ _ _ => .exhausted⟩
  | succ n ih =>
    exact ⟨h, fun site ctx self _ _ hs hb ha => Behaviour.mirrors_run (ih site) ctx hs hb ha⟩

theorem runFunction {beyond : Site → Reentry} (hb : ∀ site, (beyond site).Mirrors p) (site : Site)
    (q : Prototype) (captured : List Value) (chunk : String) (args : List Value) :
    Act.Mirrors p (Reentry.runFunction beyond site q captured chunk args)
      (Reentry.runFunction beyond site q (captured.map (Value.view p)) chunk
        (args.map (Value.view p))) :=
  .bind (Activation.mirrors_enter _ q captured chunk args 1) fun a _ => mirrors_execute hb _ a []

theorem applyValue {beyond : Site → Reentry} (hb : ∀ site, (beyond site).Mirrors p) (site : Site)
    (f : Value) (args : List Value) : Act.Mirrors p (Reentry.applyValue beyond site f args)
      (Reentry.applyValue beyond site (f.view p) (args.map (Value.view p))) := by
  refine .bind ((hb site).target f args) fun t ht => ?_
  obtain ⟨target, args⟩ := t
  cases target with
  | script q captured chunk => exact runFunction hb site q captured chunk args
  | outside f => exact (hb site).outside fun _ hr' => hr'.runOutside ht.1 args
  | box v x => exact (hb site).outside fun _ hr' => hr'.runBox v ht.1 args

theorem upTo (n : Nat) (site : Site) : (Reentry.upTo n site).Mirrors p := by
  induction n generalizing site with
  | zero => exact ofApply (fun site _ _ => .raise _) _ site
  | succ n ih => exact ofApply (fun site f args => applyValue ih site f args) _ site

theorem full : Reentry.full.Mirrors p := upTo _ _

theorem runPrototype (q : Prototype) (chunk : String) :
    Act.Mirrors p (Reentry.runPrototype q chunk) (Reentry.runPrototype q chunk) :=
  runFunction (upTo _) _ q [] chunk []

end Reentry.Mirrors

end ScriptHost
