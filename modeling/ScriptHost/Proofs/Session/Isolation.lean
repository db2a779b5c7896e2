import Mathlib.Logic.Relation
import ScriptHost.Proofs.Host.Properties
import ScriptHost.Proofs.Session.Acts
import ScriptHost.Proofs.Session.Requests

/-! Sessions of several interpreters over one host. Whatever the host hands from one to
another, every interpreter holds only functions of its own, between requests and in the
midst of them; a function of another is refused where it would be stored and where it
would be called. -/

namespace ScriptHost

/-! ### Calls of a foreign function -/

/-- What stands at the bottom of bound callables. -/
def Callable.base : Callable → Callable
  | bound target _ _ => target.base
  | c => c

/-- No reentry is made use of, and nothing happens to the world. -/
theorem Callable.invoke_foreign (r : Reentry) {f : ScriptFunction} {w : World}
    (hf : f.owner ≠ w.bridge.id) : (c : Callable) → c.base = .script f → (args : List Variant) →
      c.invoke r .attached args w = .ok (.error (.script Refusal.foreignFunctionCalled.error)) w
  | .method .., hc, _ | .native _, hc, _ => nomatch hc
  | .script g, hc, args => by
    cases hc
    have refused : r.callScript .attached f args w =
        .ok (.error Refusal.foreignFunctionCalled.error) w := by
      rw [Reentry.callScript, Act.bind_of_ok (Act.bridge_eq _), if_neg hf]
      rfl
    rw [invoke, Act.bind_of_ok refused]
    rfl
  | .bound target extra placement, hc, args => by
    rw [invoke]
    exact invoke_foreign r hf target hc _

/-! ### In the midst of a run -/

/-- The functions at work between two instructions. -/
structure Moment where
  innermost : Activation
  callers : List Activation
  world : World

namespace Moment

/-- One instruction later. -/
def Next (beyond : Site → Reentry) (m m' : Moment) : Prop :=
  step beyond m.innermost m.callers m.world = .ok (.running m'.innermost m'.callers) m'.world

structure OwnedBy (owner : Nat) (m : Moment) : Prop where
  innermost : m.innermost.OwnedBy owner
  callers : ∀ a ∈ m.callers, a.OwnedBy owner
  world : m.world.OwnedBy owner

variable {owner : Nat} {m m' : Moment}

theorem OwnedBy.next {beyond : Site → Reentry} (hb : ∀ site, (beyond site).Keeps owner)
    (hm : m.OwnedBy owner) (h : Next beyond m m') : m'.OwnedBy owner := by
  have good := keeps_step hb hm.innermost hm.callers m.world hm.world
  rw [h] at good
  exact ⟨good.2.2.1, good.2.2.2, good.1⟩

theorem OwnedBy.run {n : Nat} (hm : m.OwnedBy owner)
    (h : Relation.ReflTransGen (Next (Reentry.upTo n)) m m') : m'.OwnedBy owner := by
  induction h with
  | refl => exact hm
  | tail _ hn ih => exact ih.next (Reentry.Keeps.upTo n) hn

/-- How scripts start to run in a world: by a chunk, or by a call of what the interpreter
has, from some place. -/
inductive Begins (n : Nat) (w : World) : Moment → Prop
  | chunk {p : Prototype} {name : String} {site : Site} {a : Activation} {w' : World} :
    (Reentry.upTo n site).enter p [] name [] 1 w = .ok a w' → Begins n w ⟨a, [], w'⟩
  | call {f : Value} {args args' captured : List Value} {p : Prototype} {name : String}
    {site : Site} {a : Activation} {w' w'' : World} :
    f.OwnedBy w.bridge.id → AllOwned w.bridge.id args →
    (Reentry.upTo n site).target f args w = .ok (.script p captured name, args') w' →
    (Reentry.upTo n site).enter p captured name args' 1 w' = .ok a w'' → Begins n w ⟨a, [], w''⟩

theorem Begins.ownedBy {n : Nat} {w : World} (hw : w.OwnedBy owner) (h : Begins n w m) :
    m.OwnedBy owner := by
  cases h with
  | @chunk p name site a w' he =>
    have keeps : Act.Keeps owner (Activation.OwnedBy owner)
        ((Reentry.upTo n site).enter p [] name [] 1) := Reentry.Keeps.enter p name 1 .nil .nil
    have good := keeps w hw
    rw [he] at good
    exact ⟨good.2.2, List.forall_mem_nil _, good.1⟩
  | @call f args args' captured p name site a w' w'' hf ha ht he =>
    rw [hw.id] at hf ha
    have called := (Reentry.Keeps.upTo n site).target hf ha w hw
    rw [ht] at called
    have keeps : Act.Keeps owner (Activation.OwnedBy owner)
        ((Reentry.upTo n site).enter p captured name args' 1) :=
      Reentry.Keeps.enter p name 1 called.2.2.1 called.2.2.2
    have good := keeps w' called.1
    rw [he] at good
    exact ⟨good.2.2, List.forall_mem_nil _, good.1⟩

end Moment

/-! ### Requests -/

/-- Whatever a request does, it keeps to one interpreter. -/
theorem Step.stays_act (held : List Reference) (request : Step) {owner : Nat} :
    (request.act held).Stays owner := by
  have answered {α : Type} {post : α → Prop} {x : Act α} {f : α → Answer}
      (hx : Act.Keeps owner post x) : Act.Stays owner (f <$> x) := hx.stays.map f
  have mode : Act.Stays owner (do return .mode (← Act.bridge).mode : Act Answer) :=
    .bind Act.Keeps.bridge.stays fun _ => .pure _
  cases request with
  | «open» | close => exact .bind (Collector.keeps_shutDown held).stays fun _ => .pure _
  | collect => exact .bind (Collector.keeps_collect held).stays fun _ => .pure _
  | push x v => exact answered (Request.keeps_reentry.pushGlobal .attached x v)
  | pull x => exact answered (Request.keeps_reentry.pullGlobal .attached x)
  | eval e => exact (Request.stays_eval _ e).map _
  | call f args => exact (Request.stays_call f args).map _
  | exec body => exact (Request.stays_exec _ body).map _
  | load file => exact (Request.stays_execFile _ file).map _
  | «exists» x => exact answered (Request.keeps_reentry.functionExists .attached x)
  | permissive b => exact .bind (Request.stays_setMode _) fun _ => mode
  | mode => exact mode
  | libraries names => exact (Request.keeps_bindLibraries names).stays.map _
  | expose x factory => exact answered (Request.keeps_expose x factory)
  | hook mask interval failAt? quiet =>
    exact (Request.stays_installHook mask interval failAt? quiet).map _
  | unhook => exact .bind Request.stays_removeHook fun _ => .pure _
  | method v m args => exact answered (Variant.keeps_invoke Request.keeps_reentry .attached v m args)
  | callable c args ctx => exact answered (Callable.keeps_invoke Request.keeps_reentry ctx c args)
  | equal a b => exact .pure _

/-! ### Sessions -/

namespace Session

/-- What a session with some host comes to. -/
inductive Reachable : Session → Prop
  | start {host : Host} {settings : Settings} {observed : Bool} {s : Session} :
    start host settings observed = .ok s → Reachable s
  | step {s : Session} (name : String) (request : Step) :
    Reachable s → Reachable (s.step name request).2

/-- Bridges have interpreters of their own, and each of these only its own functions. -/
structure IsIsolated (s : Session) : Prop where
  own : ∀ e ∈ s.bridges, e.2.heap.OwnedBy e.2.id
  distinct : (s.bridges.map (·.2.id)).Nodup
  known : ∀ e ∈ s.bridges, e.2.id < s.nextId

variable {name : String} {b b' : Bridge} {bridges : List (String × Bridge)}

theorem mem_putIn {e : String × Bridge} (h : e ∈ putIn name b bridges) :
    e = (name, b) ∨ e ∈ bridges := by
  induction bridges with
  | nil => exact .inl (List.mem_singleton.mp h)
  | cons x rest ih =>
    rw [putIn] at h
    split at h
    · rcases List.mem_cons.mp h with h | h
      · exact .inl h
      · exact .inr (List.mem_cons_of_mem _ h)
    · rcases List.mem_cons.mp h with h | h
      · exact .inr (h ▸ List.mem_cons_self)
      · exact (ih h).imp_right (List.mem_cons_of_mem _)

theorem ids_putIn (h : assoc? name bridges = some b) (hid : b'.id = b.id) :
    (putIn name b' bridges).map (·.2.id) = bridges.map (·.2.id) := by
  induction bridges with
  | nil => cases h
  | cons e rest ih =>
    rw [assoc?] at h
    rw [putIn]
    split at h
    next hn =>
      cases h
      rw [if_pos hn, List.map_cons, List.map_cons, hid]
    next hn => rw [if_neg hn, List.map_cons, List.map_cons, ih h]

theorem nodup_putIn (h : (bridges.map (·.2.id)).Nodup) (hb : ∀ e ∈ bridges, e.2.id ≠ b.id) :
    ((putIn name b bridges).map (·.2.id)).Nodup := by
  induction bridges with
  | nil => exact List.nodup_singleton _
  | cons e rest ih =>
    rw [List.map_cons, List.nodup_cons] at h
    rw [List.forall_mem_cons] at hb
    rw [putIn]
    split
    · refine List.nodup_cons.mpr ⟨fun hm => ?_, h.2⟩
      obtain ⟨x, hx, hid⟩ := List.mem_map.mp hm
      exact hb.2 x hx hid
    · refine List.nodup_cons.mpr ⟨fun hm => ?_, ih h.2 hb.2⟩
      obtain ⟨x, hx, hid⟩ := List.mem_map.mp hm
      rcases mem_putIn hx with rfl | hx
      · exact hb.1 hid.symm
      · exact h.1 (List.mem_map.mpr ⟨x, hx, hid⟩)

theorem nextId_within (s : Session) (name : String) (act : Act Answer) :
    (s.within name act).2.nextId = s.nextId := by
  unfold within
  split
  · rfl
  · split <;> rfl

namespace IsIsolated

variable {s : Session}

/-- A bridge is replaced by what became of it. -/
theorem replace (hs : s.IsIsolated) (h : assoc? name s.bridges = some b) (host : Host)
    (hb : b'.OwnedBy b.id) :
    ({ s with host := host, bridges := putIn name b' s.bridges } : Session).IsIsolated where
  own e he := by
    rcases mem_putIn he with rfl | he
    · exact hb.id ▸ hb.heap
    · exact hs.own e he
  distinct := by
    rw [ids_putIn h hb.id]
    exact hs.distinct
  known e he := by
    rcases mem_putIn he with rfl | he
    · exact lt_of_eq_of_lt hb.id (hs.known _ (mem_of_assoc? h))
    · exact hs.known e he

theorem within (hs : s.IsIsolated) (name : String) {act : Act Answer}
    (ha : ∀ owner, act.Stays owner) : (s.within name act).2.IsIsolated := by
  unfold Session.within
  split
  · exact hs
  next b hb =>
    have stays := ha b.id ⟨s.host, b⟩ ⟨rfl, hs.own _ (mem_of_assoc? hb)⟩
    cases hw : act ⟨s.host, b⟩ with
    | exhausted => exact hs
    | ok answer w =>
      rw [hw] at stays
      exact hs.replace hb _ ⟨stays.id, stays.heap⟩
    | raised e w =>
      rw [hw] at stays
      exact hs.replace hb _ ⟨stays.id, stays.heap⟩

/-- A new interpreter has a number of its own. -/
theorem add (hs : s.IsIsolated) (name : String) (hb : b.OwnedBy s.nextId) :
    ({ s with
      bridges := putIn name b s.bridges
      nextId := s.nextId + 1 } : Session).IsIsolated where
  own e he := by
    rcases mem_putIn he with rfl | he
    · exact hb.id ▸ hb.heap
    · exact hs.own e he
  distinct := nodup_putIn hs.distinct fun e he => hb.id ▸ (hs.known e he).ne
  known e he := by
    rcases mem_putIn he with rfl | he
    · exact lt_of_eq_of_lt hb.id (Nat.lt_succ_self _)
    · exact (hs.known e he).trans (Nat.lt_succ_self _)

theorem draw (hs : s.IsIsolated) : ({ s with nextId := s.nextId + 1 } : Session).IsIsolated :=
  ⟨hs.own, hs.distinct, fun e he => (hs.known e he).trans (Nat.lt_succ_self _)⟩

theorem openBridge (hs : s.IsIsolated) (name : String) (settings : Settings) (observed : Bool) :
    (s.openBridge name settings observed).2.IsIsolated := by
  cases hb : Bridge.openWith name s.nextId settings observed with
  | error refusal =>
    unfold Session.openBridge
    rw [hb]
    exact hs.draw
  | ok b =>
    rw [openBridge_of_ok hb]
    have closed := hs.within name fun _ => Step.stays_act (s.heldOutside name) .close
    have next := nextId_within s name (Step.close.act (s.heldOutside name))
    generalize s.within name _ = r at closed next
    obtain ⟨answer, s'⟩ := r
    have added := closed.add name (next ▸ Bridge.ownedBy_of_openWith hb)
    cases answer with
    | exhausted => exact closed.draw
    | _ => exact added

theorem finish {r : Answer × Session} (hr : r.2.IsIsolated) (name : String) (request : Step) :
    (request.finish name r).2.IsIsolated := by
  obtain ⟨answer, s⟩ := r
  have keep (save : Option String) : (Session.keep save (answer, s)).2.IsIsolated := by
    cases answer with
    | value v => cases save <;> exact ⟨hr.own, hr.distinct, hr.known⟩
    | _ => exact hr
  cases request with
  | close =>
    cases answer with
    | done =>
      have fewer : (without name s.bridges).Sublist s.bridges := List.filter_sublist
      exact ⟨fun e he => hr.own e (fewer.subset he),
        hr.distinct.sublist (fewer.map _), fun e he => hr.known e (fewer.subset he)⟩
    | _ => exact hr
  | collect => cases answer <;> exact hr
  | pull _ save | eval _ save | call _ _ save => exact keep save
  | _ => exact hr

theorem answer (hs : s.IsIsolated) (name : String) (request : Step) :
    (s.answer name request).2.IsIsolated := by
  cases ho : request.isOpening with
  | false =>
    rw [answer_eq _ _ ho]
    exact (hs.within name fun _ => request.stays_act _).finish name request
  | true =>
    cases request with
    | «open» settings observed => exact hs.openBridge name settings observed
    | _ => cases ho

theorem step (hs : s.IsIsolated) (name : String) (request : Step) :
    (s.step name request).2.IsIsolated := by
  have ha := hs.answer name request
  exact ⟨ha.own, ha.distinct, ha.known⟩

end IsIsolated

theorem openBridge_of_start {host : Host} {settings : Settings} {observed : Bool} {s : Session}
    (h : start host settings observed = .ok s) :
    ((ofHost host).openBridge mainName settings observed).2 = s := by
  unfold start at h
  generalize (ofHost host).openBridge mainName settings observed = r at h ⊢
  obtain ⟨answer, s'⟩ := r
  cases answer with
  | failed e => cases h
  | _ =>
    cases h
    rfl

theorem Reachable.isIsolated {s : Session} (hs : Reachable s) : s.IsIsolated := by
  induction hs with
  | @start host settings observed s h =>
    have empty : (ofHost host).IsIsolated :=
      ⟨List.forall_mem_nil _, List.nodup_nil, List.forall_mem_nil _⟩
    have opened := empty.openBridge mainName settings observed
    rwa [openBridge_of_start h] at opened
  | step name request _ ih => exact ih.step name request

end Session

/-- Functions stay with the interpreter that made them. -/
theorem functions_stay_with_their_interpreter :
    (∀ (owner : Nat) (v : Variant) (h : Heap),
      ((∃ r h', h.encode owner v = (.error r, h')) ↔ ∃ f, v.Meets f ∧ f.owner ≠ owner) ∧
      ∀ r h', h.encode owner v = (.error r, h') → r.error.kind = .conversion) ∧
    (∀ (r : Reentry) (c : Callable) (f : ScriptFunction) (args : List Variant) (w : World),
      c.base = .script f → f.owner ≠ w.bridge.id →
      ∃ e, e.kind = .conversion ∧ c.invoke r .attached args w = .ok (.error (.script e)) w) ∧
    (∀ s : Session, s.Reachable → s.IsIsolated) ∧
    ∀ (n : Nat) (w : World) (m m' : Moment), w.OwnedBy w.bridge.id → m.Begins n w →
      Relation.ReflTransGen (Moment.Next (Reentry.upTo n)) m m' → m'.OwnedBy w.bridge.id := by
  refine ⟨fun owner v h => ⟨Heap.encode_eq_error_iff, fun r h' he => ?_⟩, ?_, ?_, ?_⟩
  · rw [Heap.eq_of_encode_eq_error he]
    rfl
  · intro r c f args w hc hf
    exact ⟨_, rfl, Callable.invoke_foreign r hf c hc args⟩
  · exact fun s hs => hs.isIsolated
  · intro n w m m' hw hb hr
    exact (hb.ownedBy hw).run hr

/-- Nothing is opened but the base functions. -/
def Settings.bare : Settings := ⟨.restrictive, false, false, [], .empty, 0⟩

/-- An interpreter that is about to run a function of one instruction, which makes another. -/
def Moment.making : Moment where
  innermost :=
    .start ⟨0, false, [], 1, #[⟨none, .closure ⟨0, false, [], 2, #[]⟩⟩]⟩ [] "script" [] 1 .outermost
  callers := []
  world := ⟨default, .fresh "main" 1 .restrictive false⟩

/-- The same interpreter with the new function. -/
def Moment.made : Moment where
  innermost := { making.innermost with next := 1, stack := [.function ⟨1, 8⟩] }
  callers := []
  world :=
    let b := making.world.bridge
    { making.world with bridge := { b with
      heap := (b.heap.newFunction (.closure ⟨0, false, [], 2, #[]⟩ [] "script")).2 } }

theorem functions_stay_of_two :
    (∃ r h', Heap.initial.encode 1 (.array [.nil, .callable (.script ⟨2, 0⟩)]) = (.error r, h')) ∧
    (∃ e, e.kind = .conversion ∧ Callable.invoke Request.reentry .attached
      (.bound (.script ⟨2, 0⟩) [.int 5] .after) [] Moment.making.world =
        .ok (.error (.script e)) Moment.making.world) ∧
    (∃ s, Session.start default .bare false = .ok s ∧
      (s.step "other" (.open .bare false)).2.IsIsolated) ∧
    Moment.making.Next (Reentry.upTo 0) .made ∧ Moment.made.OwnedBy 1 := by
  obtain ⟨stored, called, held, run⟩ := functions_stay_with_their_interpreter
  have met : (Variant.array [.nil, .callable (.script ⟨2, 0⟩)]).Meets ⟨2, 0⟩ :=
    .item (List.mem_cons_of_mem _ List.mem_cons_self) .here
  have foreign : (2 : Nat) ≠ 1 := by decide
  obtain ⟨s, hs⟩ : ∃ s, Session.start default .bare false = .ok s := ⟨_, rfl⟩
  have entered : (Reentry.upTo 0 .outermost).enter
      ⟨0, false, [], 1, #[⟨none, .closure ⟨0, false, [], 2, #[]⟩⟩]⟩ [] "script" [] 1
      Moment.making.world = .ok Moment.making.innermost Moment.making.world := rfl
  have next : Moment.making.Next (Reentry.upTo 0) .made := rfl
  have begun : Moment.making.world.OwnedBy 1 := ⟨rfl, (Bridge.ownedBy_fresh ..).heap⟩
  refine ⟨(stored 1 _ _).1.mpr ⟨⟨2, 0⟩, met, foreign⟩, ?_, ⟨s, hs, ?_⟩, next, ?_⟩
  · exact called Request.reentry (.bound (.script ⟨2, 0⟩) [.int 5] .after) ⟨2, 0⟩ [] _ rfl foreign
  · exact held _ (.step _ _ (.start hs))
  · exact run 0 Moment.making.world .making .made begun (.chunk entered) (.single next)

end ScriptHost
