import ScriptHost.Machine.Nesting
import ScriptHost.Proofs.Machine.Calls

/-! Scripts at work keep their interpreter to itself: one instruction leaves all values of
the functions at work its own, so that any number of them does, and calls may nest. -/

namespace ScriptHost

variable {owner : Nat} {r : Reentry}

/-! ### What is called -/

def Target.OwnedBy (owner : Nat) : Target → Prop
  | script _ captured _ => AllOwned owner captured
  | _ => True

theorem Heap.OwnedBy.target {h : Heap} (hh : h.OwnedBy owner) {n : Nat} {f : Value}
    {args : List Value} (hf : f.OwnedBy owner) (ha : AllOwned owner args)
    {t : Target × List Value} (ht : h.target n f args = .ok t) :
    t.1.OwnedBy owner ∧ AllOwned owner t.2 := by
  induction n generalizing f args with
  | zero => cases ht
  | succ n ih =>
    unfold Heap.target at ht
    split at ht
    · cases ht
    · split at ht
      next p captured chunk hg =>
        cases ht
        exact ⟨hh.functions _ (Array.mem_of_getElem? hg), ha⟩
      next => cases ht; exact ⟨trivial, ha⟩
      next => cases ht
    · split at ht
      next g hg =>
        have own := hh.handler _ _ _ hg
        cases ‹n + 1 = Nat.succ _›
        exact ih own (.cons hf ha) ht
      next => cases ht; exact ⟨trivial, ha⟩
      next => cases ht
      next => cases ht

/-! ### Functions at work -/

structure Activation.OwnedBy (owner : Nat) (a : Activation) : Prop where
  locals : AllOwned owner a.locals
  captured : AllOwned owner a.captured
  rest : AllOwned owner a.rest
  stack : AllOwned owner a.stack

def Status.OwnedBy (owner : Nat) : Status → Prop
  | running a callers => a.OwnedBy owner ∧ ∀ c ∈ callers, c.OwnedBy owner
  | finished results => AllOwned owner results

theorem AllOwned.getD {vs : List Value} (h : AllOwned owner vs) (i : Nat) :
    (vs.getD i .nil).OwnedBy owner := by
  rw [List.getD_eq_getElem?_getD]
  cases hi : vs[i]? with
  | none => trivial
  | some v => exact h v (List.mem_of_getElem? hi)

theorem AllOwned.subset {vs ws : List Value} (h : AllOwned owner ws) (hs : vs ⊆ ws) :
    AllOwned owner vs :=
  fun v hv => h v (hs hv)

theorem ownedBy_literal (c : Literal) : c.value.OwnedBy owner := by
  cases c <;> trivial

theorem ownedBy_counter (c : Counter) : c.value.OwnedBy owner := by
  cases c <;> trivial

namespace Activation.OwnedBy

variable {a : Activation}

theorem bindArguments {args locals : List Value} (n : Nat) (ha : AllOwned owner args)
    (hl : AllOwned owner locals) : AllOwned owner (Activation.bindArguments n args locals) := by
  induction n generalizing args locals with
  | zero => exact hl
  | succ n ih =>
    exact ih (fun v hv => ha v (List.mem_of_mem_tail hv)) (.cons (Reentry.ownedBy_first ha) hl)

theorem start (p : Prototype) {captured : List Value} (chunk : String) {args : List Value}
    (wanted : Nat) (site : Site) (hc : AllOwned owner captured) (ha : AllOwned owner args) :
    (Activation.start p captured chunk args wanted site).OwnedBy owner := by
  refine ⟨bindArguments _ ha .nil, hc, ?_, .nil⟩
  show AllOwned owner (if p.variadic then args.drop p.params else [])
  split
  · exact ha.subset (List.drop_subset _ _)
  · exact .nil

theorem lookup (ha : a.OwnedBy owner) (slot : Slot) : (a.lookup slot).OwnedBy owner := by
  cases slot with
  | «local» i => exact ha.locals.getD i
  | captured i => exact ha.captured.getD i

theorem peek (ha : a.OwnedBy owner) (i : Nat) : (a.peek i).OwnedBy owner := ha.stack.getD i

theorem top (ha : a.OwnedBy owner) (n : Nat) : AllOwned owner (a.top n) :=
  fun v hv => ha.stack v (List.mem_of_mem_take (List.mem_reverse.mp hv))

theorem push (ha : a.OwnedBy owner) {v : Value} (hv : v.OwnedBy owner) :
    (a.push v).OwnedBy owner :=
  ⟨ha.locals, ha.captured, ha.rest, .cons hv ha.stack⟩

theorem pop (ha : a.OwnedBy owner) (n : Nat) : (a.pop n).OwnedBy owner :=
  ⟨ha.locals, ha.captured, ha.rest, ha.stack.subset (List.drop_subset _ _)⟩

theorem replace (ha : a.OwnedBy owner) (n : Nat) {v : Value} (hv : v.OwnedBy owner) :
    (a.replace n v).OwnedBy owner :=
  (ha.pop n).push hv

theorem receive (ha : a.OwnedBy owner) (n : Nat) {results : List Value}
    (hr : AllOwned owner results) : (a.receive n results).OwnedBy owner :=
  ⟨ha.locals, ha.captured, ha.rest, bindArguments n hr ha.stack⟩

theorem closure (ha : a.OwnedBy owner) (p : Prototype) : (a.closure p).OwnedBy owner := by
  intro v hv
  obtain ⟨slot, -, rfl⟩ := List.mem_map.mp hv
  exact ha.lookup slot

end Activation.OwnedBy

namespace Reentry.Keeps

theorem target (hr : r.Keeps owner) {f : Value} {args : List Value} (hf : f.OwnedBy owner)
    (ha : AllOwned owner args) :
    Act.Keeps owner (fun t => t.1.OwnedBy owner ∧ AllOwned owner t.2) (r.target f args) := by
  refine .bind .heap fun h hh => ?_
  split
  next t ht => exact .pure (hh.target hf ha ht)
  · exact failOperand _ _
  · exact hr.outside fun _ _ => .throw
  · exact fail _

theorem enter (p : Prototype) {captured : List Value} (chunk : String) {args : List Value}
    (wanted : Nat) (hc : AllOwned owner captured) (ha : AllOwned owner args) :
    Act.Keeps owner (Activation.OwnedBy owner) (r.enter p captured chunk args wanted) :=
  .ite (fail _) (.bind (Act.keeps_fire _) fun _ _ => .pure (.start p chunk wanted _ hc ha))

theorem counter? (start stop : Value) :
    Act.Keeps owner (fun _ => True) (r.counter? start stop) := by
  have bad (message : Heap → String) :
      Act.Keeps owner (fun _ : Option Counter => True) (do r.fail (message (← Act.heap))) :=
    .bind .heap fun _ _ => fail _
  unfold Reentry.counter?
  dsimp only
  split
  · exact bad _
  · exact bad _
  · exact .pure trivial
  · exact .pure trivial

theorem report (hr : r.Keeps owner) {result : Except Value Value}
    (hv : ∀ v, result = .ok v → v.OwnedBy owner) (he : ∀ e, result = .error e → e.OwnedBy owner) :
    Act.Keeps owner (Value.OwnedBy owner) (r.report result) := by
  have text (s : String) : (Key.ofString s).toValue.OwnedBy owner := trivial
  have shown (s : String) : (Value.ofString s).OwnedBy owner := trivial
  have flag (b : Bool) : (Table.empty.set (.ofString "ok") (.bool b)).OwnedBy owner :=
    Table.OwnedBy.empty.set (text _) trivial
  cases result with
  | ok v => exact .newTable ((flag true).set (text _) (hv v rfl))
  | error e =>
    exact .bind (hr.toScriptError (he e rfl)) fun e _ =>
      .newTable (((flag false).set (text _) (shown _)).set (text _) (shown _))

end Reentry.Keeps

/-! ### Instructions -/

section Steps

open Act (Keeps)

variable {a : Activation} {callers : List Activation}

namespace Activation

theorem keeps_reach (ha : a.OwnedBy owner) (i : Instr) :
    Keeps owner (OwnedBy owner) (a.reach i) := by
  have same {b : Activation} (hl : b.locals = a.locals) (hp : b.captured = a.captured)
      (hr : b.rest = a.rest) (hs : b.stack = a.stack) : b.OwnedBy owner :=
    ⟨hl ▸ ha.locals, hp ▸ ha.captured, hr ▸ ha.rest, hs ▸ ha.stack⟩
  refine .bind (Act.keeps_note _) fun _ _ => ?_
  dsimp only
  split
  · exact .pure (same rfl rfl rfl rfl)
  · exact .bind (Act.keeps_reach _ _ _) fun _ _ => .pure (same rfl rfl rfl rfl)

theorem keeps_give (hc : ∀ c ∈ callers, c.OwnedBy owner) {results : List Value}
    (hr : AllOwned owner results) :
    Keeps owner (Status.OwnedBy owner) (a.give callers results) := by
  refine .bind (Act.keeps_cross _) fun _ _ => ?_
  split
  · exact .pure hr
  next caller callers =>
    rw [List.forall_mem_cons] at hc
    exact .pure ⟨hc.1.receive _ hr, hc.2⟩

theorem keeps_changeTable (n : Nat) {f : Table → Table}
    (hf : ∀ t : Table, t.OwnedBy owner → (f t).OwnedBy owner) :
    Keeps owner (fun _ => True) (a.changeTable n f) := by
  unfold Activation.changeTable
  split
  · exact .modifyHeap fun h hh => hh.setTable _ (hf _ (hh.table _))
  · exact .pure trivial

variable {beyond : Site → Reentry} (hb : ∀ site, (beyond site).Keeps owner)
  (ha : a.OwnedBy owner) (hc : ∀ c ∈ callers, c.OwnedBy owner)
include hb ha hc

theorem keeps_call (n wanted : Nat) (callee? : Option Origin) :
    Keeps owner (Status.OwnedBy owner) (a.call beyond callers n wanted callee?) := by
  have hr := hb ((a.pop (n + 1)).site callee?)
  have rest := ha.pop (n + 1)
  have outside {x : Act (List Value)} (hx : Keeps owner (AllOwned owner) x) :
      Keeps owner (Status.OwnedBy owner)
        (do return .running ((a.pop (n + 1)).receive wanted (← x)) callers) :=
    .bind hx fun _ hv => .pure ⟨rest.receive _ hv, hc⟩
  refine .bind (hr.target (ha.peek n) (ha.top n)) fun t ht => ?_
  obtain ⟨target, args⟩ := t
  cases target with
  | script p captured chunk =>
    refine .bind (Reentry.Keeps.enter p chunk wanted ht.1 ht.2) fun b hb => .pure ⟨hb, ?_⟩
    exact List.forall_mem_cons.mpr ⟨rest, hc⟩
  | outside f => exact outside (hr.outside fun _ hr' => hr'.runOutside f ht.2)
  | box v x => exact outside (hr.outside fun _ hr' => hr'.runBox v x args)

theorem keeps_perform (op : Op) :
    Keeps owner (Status.OwnedBy owner) (a.perform beyond callers op) := by
  have hr := hb (a.site op.callee?)
  have on {b : Activation} (h : b.OwnedBy owner) :
      Keeps owner (Status.OwnedBy owner) (pure (.running b callers)) := .pure ⟨h, hc⟩
  unfold Activation.perform
  dsimp only
  cases op with
  | constant c => exact on (ha.push (ownedBy_literal c))
  | «variable» slot => exact on (ha.push (ha.lookup slot))
  | global x => exact .bind (hr.global x) fun _ hv => on (ha.push hv)
  | setGlobal x => exact .bind (hr.setGlobal x (ha.peek 0)) fun _ _ => on (ha.pop 1)
  | bind =>
    exact on ⟨.cons (ha.peek 0) ha.locals, ha.captured, ha.rest, (ha.pop 1).stack⟩
  | unbind n =>
    exact on ⟨ha.locals.subset (List.drop_subset _ _), ha.captured, ha.rest, ha.stack⟩
  | drop => exact on (ha.pop 1)
  | swap => exact on (((ha.pop 2).push (ha.peek 0)).push (ha.peek 1))
  | index of? => exact .bind (hr.index (ha.peek 1) (ha.peek 0) of?) fun _ hv => on (ha.replace 2 hv)
  | setIndex of? =>
    exact .bind (hr.setIndex (ha.peek 2) (ha.peek 1) (ha.peek 0) of?) fun _ _ => on (ha.pop 3)
  | method name of? =>
    have key : (Value.ofString name).OwnedBy owner := trivial
    exact .bind (hr.index (ha.peek 0) key of?) fun _ hv => on ((ha.replace 1 hv).push (ha.peek 0))
  | call args wanted callee? => exact keeps_call hb ha hc args wanted callee?
  | binary sign left? right? =>
    exact .bind (hr.binary sign (ha.peek 1) (ha.peek 0) left? right?) fun _ hv =>
      on (ha.replace 2 hv)
  | unary sign of? => exact .bind (hr.unary sign (ha.peek 0) of?) fun _ hv => on (ha.replace 1 hv)
  | newTable => exact .bind (.newTable .empty) fun _ hv => on (ha.push hv)
  | items first n =>
    exact .bind (keeps_changeTable n fun t ht => ht.setItems first (ha.top n)) fun _ _ =>
      on (ha.pop n)
  | entry pending =>
    dsimp only
    split
    · exact .bind (Reentry.Keeps.rawSet _ (ha.peek 1) (ha.peek 0)) fun _ _ => on (ha.pop 2)
    · exact on (ha.pop 2)
  | rest =>
    exact .bind (.newTable (Table.OwnedBy.empty.setItems 1 ha.rest)) fun _ hv => on (ha.push hv)
  | closure p => exact .bind (.newFunction (ha.closure p)) fun _ hv => on (ha.push hv)
  | attempt p =>
    refine .bind (.newFunction (ha.closure p)) fun f hf =>
      .bind (hr.inside.call hf .nil).attempt fun result h =>
        .bind (hr.inside.report h.1 h.2) fun _ hv => on (ha.push hv)
  | give n => exact keeps_give hc (ha.top n)
  | skip n => exact on ⟨ha.locals, ha.captured, ha.rest, ha.stack⟩
  | skipUnless n =>
    refine on ?_
    split
    · exact ha.pop 1
    · exact ⟨ha.locals, ha.captured, ha.rest, (ha.pop 1).stack⟩
  | back n => exact on ⟨ha.locals, ha.captured, ha.rest, ha.stack⟩
  | count n =>
    refine .bind (Reentry.Keeps.counter? _ _) fun c? _ => ?_
    split
    · exact on ⟨ha.locals, ha.captured, ha.rest, (ha.pop 2).stack⟩
    · exact on ⟨.cons (ownedBy_counter _) ha.locals, ha.captured, ha.rest, (ha.pop 2).stack⟩
  | recount n =>
    have tail : AllOwned owner a.locals.tail := fun v hv => ha.locals v (List.mem_of_mem_tail hv)
    dsimp only
    split
    · exact on ⟨tail, ha.captured, ha.rest, ha.stack⟩
    · exact on ⟨.cons (ownedBy_counter _) tail, ha.captured, ha.rest, ha.stack⟩

end Activation

variable {beyond : Site → Reentry} (hb : ∀ site, (beyond site).Keeps owner)
  (ha : a.OwnedBy owner) (hc : ∀ c ∈ callers, c.OwnedBy owner)
include hb ha hc

/-- One instruction. -/
theorem keeps_step : Keeps owner (Status.OwnedBy owner) (step beyond a callers) := by
  have paused : Keeps owner (fun _ => True) (Pausing.pause fun _ => a.frame beyond callers) :=
    .pure trivial
  refine .bind paused fun _ _ => ?_
  unfold Activation.advance
  split
  · exact Activation.keeps_give hc .nil
  · exact .bind (Activation.keeps_reach ha _) fun _ h => Activation.keeps_perform hb h hc _

/-- Any number of instructions. -/
theorem keeps_execute (fuel : Nat) :
    Keeps owner (AllOwned owner) (execute beyond fuel a callers) := by
  induction fuel generalizing a callers with
  | zero => exact fun _ _ => trivial
  | succ fuel ih =>
    intro w hw
    have first := keeps_step hb ha hc w hw
    unfold execute
    cases hs : step beyond a callers w with
    | exhausted => trivial
    | raised e w' => rwa [hs] at first
    | ok status w' =>
      rw [hs] at first
      obtain ⟨hw', grows, hst⟩ := first
      cases status with
      | finished results => exact ⟨hw', grows, hst⟩
      | running a' callers' =>
        have rest := ih hst.1 hst.2 w' hw'
        dsimp only
        cases he : execute beyond fuel a' callers' w' with
        | exhausted => trivial
        | raised e w'' =>
          rw [he] at rest
          exact ⟨rest.1, grows.trans rest.2.1, rest.2.2⟩
        | ok results w'' =>
          rw [he] at rest
          exact ⟨rest.1, grows.trans rest.2.1, rest.2.2⟩

end Steps

/-! ### Nesting -/

namespace Reentry.Keeps

theorem ofApply {least : Nat} {apply : Site → Value → List Value → Act (List Value)}
    (h : ∀ site f args, f.OwnedBy owner → AllOwned owner args →
      Act.Keeps owner (AllOwned owner) (apply site f args)) (n : Nat) (site : Site) :
    (Reentry.ofApply least apply n site).Keeps owner := by
  induction n generalizing site with
  | zero => exact ⟨fun site => h site _ _, fun _ _ _ _ _ => .exhausted⟩
  | succ n ih =>
    exact ⟨fun site => h site _ _, fun site ctx self b args =>
      Behaviour.keeps_run (ih site) ctx self b args⟩

theorem runFunction {beyond : Site → Reentry} (hb : ∀ site, (beyond site).Keeps owner)
    (site : Site) (p : Prototype) {captured : List Value} (chunk : String) {args : List Value}
    (hc : AllOwned owner captured) (ha : AllOwned owner args) :
    Act.Keeps owner (AllOwned owner) (Reentry.runFunction beyond site p captured chunk args) :=
  .bind (enter p chunk 1 hc ha) fun _ h => keeps_execute hb h (List.forall_mem_nil _) _

theorem applyValue {beyond : Site → Reentry} (hb : ∀ site, (beyond site).Keeps owner)
    (site : Site) {f : Value} {args : List Value} (hf : f.OwnedBy owner)
    (ha : AllOwned owner args) :
    Act.Keeps owner (AllOwned owner) (Reentry.applyValue beyond site f args) := by
  refine .bind ((hb site).target hf ha) fun t ht => ?_
  obtain ⟨target, args⟩ := t
  cases target with
  | script p captured chunk => exact runFunction hb site p chunk ht.1 ht.2
  | outside f => exact (hb site).outside fun _ hr' => hr'.runOutside f ht.2
  | box v x => exact (hb site).outside fun _ hr' => hr'.runBox v x args

theorem upTo (n : Nat) (site : Site) : (Reentry.upTo n site).Keeps owner := by
  induction n generalizing site with
  | zero => exact ofApply (fun site _ _ _ _ => site.keeps_fail _ _) _ site
  | succ n ih => exact ofApply (fun site _ _ hf ha => applyValue ih site hf ha) _ site

theorem full : Reentry.full.Keeps owner := upTo _ _

theorem runPrototype (p : Prototype) (chunk : String) :
    Act.Keeps owner (AllOwned owner) (Reentry.runPrototype p chunk) :=
  runFunction (upTo _) _ p chunk .nil .nil

end Reentry.Keeps

end ScriptHost
