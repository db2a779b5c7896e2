import ScriptHost.Proofs.Machine.Observing
import ScriptHost.Proofs.Session.Isolation

/-! Errors that escape to a host, while requests follow one another and the host installs error
handlers. A handler is called once for each error that a chunk or a global function fails with,
after all that happened on the way. What scripts and host code do among themselves is not
reported, whatever errors they raise, catch or pass on. -/

namespace ScriptHost

variable {owner : Nat} {α β : Type}

/-! ### What is due -/

/-- Whether an error of the request goes to the error handler. -/
def Step.isReported : Step → Bool
  | eval .. | call .. | exec _ | load _ => true
  | _ => false

/-- An error handler of the bridge is called with the error of an answer. -/
def Answer.reports (bridge : String) : Answer → List Event
  | failed e => [.report bridge e]
  | _ => []

/-- The calls of the handler that a request with some answer brings about, given the name of the
bridge if it has a handler. -/
def Step.due (request : Step) (handler? : Option String) (answer : Answer) : List Event :=
  match handler? with
  | some bridge => if request.isReported then answer.reports bridge else []
  | none => []

theorem Step.due_of_not_reported {request : Step} (hr : request.isReported = false)
    (handler? : Option String) (answer : Answer) : request.due handler? answer = [] := by
  unfold due
  rw [hr]
  cases handler? <;> rfl

/-- The name of the bridge, if it has an error handler. -/
def Bridge.handler? (b : Bridge) : Option String := if b.reports then some b.name else none

/-- The host has seen more, and last of all what is due. -/
def Host.Gains (h h' : Host) (due : List Event) : Prop :=
  ∃ h₁ : Host, h.Extends h₁ ∧ h'.log = due.reverse ++ h₁.log

theorem Host.Extends.gains {h h' : Host} (he : h.Extends h') : h.Gains h' [] := ⟨h', he, rfl⟩

/-! ### Errors that do not get out -/

/-- No error gets out of the action. -/
def Act.Catches (x : Act α) : Prop := ∀ w e w', x w ≠ .raised e w'

namespace Act.Catches

theorem pure (a : α) : Catches (Pure.pure a) := fun _ _ _ h => by cases h

theorem attempt (x : Act α) : Catches x.attempt := by
  intro w e w' h
  unfold Act.attempt at h
  split at h <;> cases h

theorem heap : Catches Act.heap := fun _ _ _ h => by cases h

theorem bridge : Catches Act.bridge := fun _ _ _ h => by cases h

theorem decode (v : Value) : Catches (Act.decode v) := fun _ _ _ h => by cases h

theorem encodeAll (vs : List Variant) : Catches (Act.encodeAll vs) :=
  fun _ _ _ h => by cases h

theorem bind {x : Act α} {f : α → Act β} (hx : Catches x) (hf : ∀ a, Catches (f a)) :
    Catches (x >>= f) := by
  intro w e w' h
  cases hw : x w with
  | ok a w₁ =>
    rw [Act.bind_of_ok hw] at h
    exact hf a w₁ e w' h
  | raised e₁ w₁ => exact hx w e₁ w₁ hw
  | exhausted =>
    rw [Act.bind_of_exhausted hw] at h
    cases h

end Act.Catches

theorem Act.Catches.note (callee? : Option String) : Catches (Act.note callee?) := by
  refine .bind .bridge fun b => ?_
  split
  · exact .pure _
  · exact fun _ _ _ h => by cases h

namespace Reentry

open Act (Catches)

variable (r : Reentry)

theorem catches_settle (e : Value) : Catches (settle e) := by
  refine .bind (.attempt _) fun result => ?_
  split
  · exact .pure _
  · exact .bind (.note none) fun _ => .bind .heap fun _ => .pure _

theorem catches_toScriptError (e : Value) : Catches (r.toScriptError e) := by
  refine .bind (.attempt _) fun result => ?_
  split
  · exact .pure _
  · exact catches_settle _

theorem catches_guard (x : Act α) : Catches (r.guard x) := by
  refine .bind (.attempt x) fun result => ?_
  split
  · exact .pure _
  · exact .bind (r.catches_toScriptError _) fun _ => .pure _

theorem catches_callIn (f : Value) (args : List Variant) : Catches (r.callIn f args) := by
  refine .bind (.encodeAll args) fun result => ?_
  split
  · exact .pure _
  · refine .bind (r.catches_guard _) fun result => ?_
    split
    · exact .pure _
    · exact .bind (.decode _) fun _ => .pure _

theorem catches_callGlobal (ctx : Context) (name : String) (args : List Variant) :
    Catches (r.callGlobal ctx name args) := by
  cases ctx with
  | detached => exact .pure _
  | attached =>
    refine .bind (r.catches_guard _) fun result => ?_
    split
    · exact .pure _
    · exact r.catches_callIn _ args
    · exact .pure _

end Reentry

/-! ### Requests -/

/-- Started in the interpreter, the action adds no report to the record. -/
def Act.Silent (owner : Nat) (x : Act α) : Prop :=
  ∀ w : World, w.OwnedBy owner → (x w).Ends fun w' => w.host.Extends w'.host

namespace Act

theorem Keeps.silent {post : α → Prop} {x : Act α} (hx : Keeps owner post x) : Silent owner x := by
  intro w hw
  have good := hx w hw
  cases h : x w with
  | exhausted => trivial
  | ok a w' =>
    rw [h] at good
    exact good.2.1.host
  | raised e w' =>
    rw [h] at good
    exact good.2.1.host

theorem Silent.map {x : Act α} {f : α → β} (hx : Silent owner x) : Silent owner (f <$> x) :=
  fun w hw => Outcome.ends_map (hx w hw)

end Act

namespace Request

open Act (Catches Keeps Silent)

theorem silent_change (f : Bridge → Except Refusal Bridge) : Silent owner (change f) := by
  intro w _
  rw [change, Act.bind_of_ok (Act.bridge_eq _)]
  cases f w.bridge with
  | error r => exact .refl w.host
  | ok b => exact .refl w.host

theorem catches_runChunk (name : String) (body : Block) : Catches (runChunk name body) := by
  unfold runChunk
  split
  · exact .bind (reentry.catches_guard _) fun _ => .pure _
  · exact .pure _

theorem exists_eval (name : String) (e : Expr) : ∃ x, eval name e = report x ∧
    (∀ owner, Keeps owner (fun _ => True) x) ∧ Catches x := by
  refine ⟨_, rfl, fun owner => .ite ?_ (.pure trivial), ?_⟩
  · refine .bind (keeps_reentry.guard (Reentry.Keeps.runPrototype _ name)) fun result _ => ?_
    split
    · exact .bind (.decode _) fun _ _ => .pure trivial
    · exact .pure trivial
  · split
    · refine .bind (reentry.catches_guard _) fun result => ?_
      split
      · exact .bind (.decode _) fun _ => .pure _
      · exact .pure _
    · exact .pure _

theorem exists_execFile (name : String) (file : Option Block) : ∃ x,
    execFile name file = report x ∧ (∀ owner, Keeps owner (fun _ => True) x) ∧ Catches x := by
  cases file with
  | none => exact ⟨_, rfl, fun _ => .pure trivial, .pure _⟩
  | some body => exact ⟨_, rfl, fun _ => keeps_runChunk name body, catches_runChunk name body⟩

theorem report_of_error {x : Act (Except ScriptError α)} {e : ScriptError} {w w₁ : World}
    (hx : x w = .ok (.error e) w₁) : report x w = .ok (.error e) { w₁ with host := { w₁.host with
      log := w₁.bridge.handler?.toList.map (.report · e) ++ w₁.host.log } } := by
  rw [report, Act.bind_of_ok hx]
  dsimp only
  rw [Act.bind_of_ok (Act.bridge_eq _), Bridge.handler?]
  cases w₁.bridge.reports <;> rfl

/-- What becomes of an action whose error is reported: it does not raise it, and reports it last. -/
theorem report_gains {request : Step} (hr : request.isReported = true)
    {x : Act (Except ScriptError α)} {post : Except ScriptError α → Prop}
    {f : Except ScriptError α → Answer} (hf : ∀ a bridge, (f (.ok a)).reports bridge = [])
    (he : ∀ e, f (.error e) = .failed e) (hx : Keeps owner post x) (hc : Catches x) {w : World}
    (hw : w.OwnedBy owner) : report x w = .exhausted ∨ ∃ result w', report x w = .ok result w' ∧
      w.host.Gains w'.host (request.due w.bridge.handler? (f result)) := by
  have good := hx w hw
  cases h : x w with
  | exhausted => exact .inl (Act.bind_of_exhausted h)
  | raised e w₁ => exact absurd h (hc w e w₁)
  | ok result w₁ =>
    rw [h] at good
    have grows := good.2.1
    refine .inr ?_
    cases result with
    | ok a =>
      have given : report x w = .ok (.ok a) w₁ := Act.bind_of_ok h
      have nothing : request.due w.bridge.handler? (f (.ok a)) = [] := by
        unfold Step.due
        cases w.bridge.handler? <;> simp [hf]
      refine ⟨.ok a, w₁, given, ?_⟩
      rw [nothing]
      exact grows.host.gains
    | error e =>
      -- The handler is asked for after the run, which cannot have changed it.
      have same : w₁.bridge.handler? = w.bridge.handler? := by
        rw [Bridge.handler?, Bridge.handler?, grows.reports, grows.name]
      have due : request.due w.bridge.handler? (f (.error e)) =
          w₁.bridge.handler?.toList.map (.report · e) := by
        unfold Step.due
        rw [same, hr, he]
        cases w.bridge.handler? <;> rfl
      refine ⟨_, _, report_of_error h, w₁.host, grows.host, ?_⟩
      rw [due]
      cases w₁.bridge.handler? <;> rfl

end Request

/-! ### Sessions -/

namespace Session

/-- The name of the bridge at `name`, if it has an error handler. -/
def handler? (s : Session) (name : String) : Option String :=
  (assoc? name s.bridges).bind Bridge.handler?

/-- The host installs an error handler. -/
def observe (s : Session) (name : String) : Session :=
  match assoc? name s.bridges with
  | some b => { s with bridges := putIn name { b with reports := true } s.bridges }
  | none => s

theorem within_of_ok {s : Session} {name : String} {b : Bridge} {act : Act Answer} {answer : Answer}
    {w : World} (hb : assoc? name s.bridges = some b) (ha : act ⟨s.host, b⟩ = .ok answer w) :
    s.within name act =
      (answer, { s with host := w.host, bridges := putIn name w.bridge s.bridges }) := by
  unfold within
  rw [hb]
  dsimp only
  rw [ha]

theorem keep_answer (save : Option String) (r : Answer × Session) : (keep save r).1 = r.1 := by
  obtain ⟨answer, s⟩ := r
  cases answer with
  | value v => cases save <;> rfl
  | _ => rfl

theorem keep_host (save : Option String) (r : Answer × Session) :
    (keep save r).2.host = r.2.host := by
  obtain ⟨answer, s⟩ := r
  cases answer with
  | value v => cases save <;> rfl
  | _ => rfl

theorem host_openBridge (s : Session) (name : String) (settings : Settings) (observed : Bool) :
    (s.openBridge name settings observed).2.host = s.host ∨
      (s.openBridge name settings observed).2.host = (s.within name do
        Collector.shutDown (s.heldOutside name)
        return .done).2.host := by
  unfold openBridge
  split
  · exact .inl rfl
  · refine .inr ?_
    generalize s.within name _ = r
    obtain ⟨answer, s'⟩ := r
    cases answer <;> rfl

theorem host_close (s : Session) (name : String) : (s.close name).2.host =
    (s.within name do Collector.shutDown (s.heldOutside name); return .done).2.host := by
  unfold close
  generalize s.within name _ = r
  obtain ⟨answer, s'⟩ := r
  cases answer <;> rfl

theorem host_collect (s : Session) (name : String) : (s.answer name .collect).2.host =
    (s.within name (Answer.ofUnit <$> Collector.collect (s.heldOutside name))).2.host := by
  rw [answer]
  generalize s.within name _ = r
  obtain ⟨answer, s'⟩ := r
  cases answer <;> rfl

theorem host_observe (s : Session) (name : String) : (s.observe name).host = s.host := by
  unfold observe
  split <;> rfl

namespace IsIsolated

variable {s : Session}

theorem observe (hs : s.IsIsolated) (name : String) : (s.observe name).IsIsolated := by
  unfold Session.observe
  split
  next b hb => exact hs.replace hb s.host ⟨rfl, hs.own _ (mem_of_assoc? hb)⟩
  next => exact hs

theorem extends_within (hs : s.IsIsolated) (name : String) {act : Act Answer}
    (ha : ∀ owner, act.Silent owner) : s.host.Extends (s.within name act).2.host := by
  unfold Session.within
  split
  · exact .refl _
  next b hb =>
    have silent := ha b.id ⟨s.host, b⟩ ⟨rfl, hs.own _ (mem_of_assoc? hb)⟩
    cases hw : act ⟨s.host, b⟩ with
    | exhausted => exact .refl _
    | ok answer w =>
      rw [hw] at silent
      exact silent
    | raised e w =>
      rw [hw] at silent
      exact silent

/-- A request whose errors are reported. -/
theorem gains_within (hs : s.IsIsolated) (name : String) {request : Step}
    (hr : request.isReported = true) {x : Act (Except ScriptError α)}
    {post : Except ScriptError α → Prop} {f : Except ScriptError α → Answer}
    (hf : ∀ a bridge, (f (.ok a)).reports bridge = []) (he : ∀ e, f (.error e) = .failed e)
    (hx : ∀ owner, Act.Keeps owner post x) (hc : x.Catches) :
    let r := s.within name (f <$> Request.report x)
    s.host.Gains r.2.host (request.due (s.handler? name) r.1) := by
  unfold Session.handler?
  cases hb : assoc? name s.bridges with
  | none =>
    unfold Session.within
    rw [hb]
    exact (Host.Extends.refl _).gains
  | some b =>
    have own : World.OwnedBy b.id ⟨s.host, b⟩ := ⟨rfl, hs.own _ (mem_of_assoc? hb)⟩
    rcases Request.report_gains hr hf he (hx b.id) hc own with h | ⟨result, w, h, gains⟩
    · have mapped : (f <$> Request.report x) ⟨s.host, b⟩ = .exhausted := by
        rw [map_eq_pure_bind]
        exact Act.bind_of_exhausted h
      have nothing : request.due b.handler? .exhausted = [] := by
        unfold Step.due
        cases b.handler? <;> simp [Answer.reports]
      unfold Session.within
      rw [hb]
      dsimp only [Option.bind_some]
      rw [mapped, nothing]
      exact (Host.Extends.refl _).gains
    · dsimp only [Option.bind_some]
      rw [within_of_ok hb (Act.map_of_ok h f)]
      exact gains

/-- What any request adds to the record. -/
theorem gains (hs : s.IsIsolated) (name : String) (request : Step) :
    s.host.Gains (s.answer name request).2.host
      (request.due (s.handler? name) (s.answer name request).1) := by
  have silent {act : Act Answer} (hr : request.isReported = false)
      (he : (s.answer name request).2.host = (s.within name act).2.host)
      (ha : ∀ owner, act.Silent owner) : s.host.Gains (s.answer name request).2.host
        (request.due (s.handler? name) (s.answer name request).1) := by
    rw [Step.due_of_not_reported hr, he]
    exact (hs.extends_within name ha).gains
  have closed (owner : Nat) :
      Act.Silent owner (do Collector.shutDown (s.heldOutside name); return Answer.done) :=
    ((Collector.keeps_shutDown _).bind fun _ _ => .pure trivial :
      Act.Keeps owner (fun _ => True) _).silent
  have reported {α : Type} {x : Act (Except ScriptError α)} {f : Except ScriptError α → Answer}
      (hr : request.isReported = true)
      (ha : (s.answer name request).1 = (s.within name (f <$> Request.report x)).1)
      (hh : (s.answer name request).2.host = (s.within name (f <$> Request.report x)).2.host)
      (hf : ∀ a bridge, (f (.ok a)).reports bridge = []) (he : ∀ e, f (.error e) = .failed e)
      (hx : (∀ owner, Act.Keeps owner (fun _ => True) x) ∧ x.Catches) :
      s.host.Gains (s.answer name request).2.host
        (request.due (s.handler? name) (s.answer name request).1) := by
    rw [ha, hh]
    exact hs.gains_within name hr hf he hx.1 hx.2
  have value (a : Variant) (bridge : String) : (Answer.ofValue (.ok a)).reports bridge = [] := rfl
  have done (a : Unit) (bridge : String) : (Answer.ofUnit (.ok a)).reports bridge = [] := rfl
  cases request with
  | «open» settings observed =>
    rcases host_openBridge s name settings observed with h | h
    · rw [Step.due_of_not_reported rfl, Session.answer, h]
      exact (Host.Extends.refl _).gains
    · exact silent rfl h closed
  | close => exact silent rfl (host_close s name) closed
  | collect =>
    exact silent rfl (host_collect s name) fun _ => (Collector.keeps_collect _).silent.map
  | eval e save =>
    obtain ⟨x, hx, kept⟩ := Request.exists_eval chunkName e
    exact reported rfl (hx ▸ keep_answer save _) (hx ▸ keep_host save _) value (fun _ => rfl) kept
  | load file =>
    obtain ⟨x, hx, kept⟩ := Request.exists_execFile chunkName file
    exact reported rfl (hx ▸ rfl) (hx ▸ rfl) done (fun _ => rfl) kept
  | exec body =>
    exact reported rfl rfl rfl done (fun _ => rfl)
      ⟨fun _ => Request.keeps_runChunk _ body, Request.catches_runChunk _ body⟩
  | call f args save =>
    exact reported rfl (keep_answer save _) (keep_host save _) value (fun _ => rfl)
      ⟨fun _ => Request.keeps_reentry.callGlobal .attached f args,
        Request.reentry.catches_callGlobal .attached f args⟩
  | push x v =>
    exact silent rfl rfl fun _ => (Request.keeps_reentry.pushGlobal .attached x v).silent.map
  | pull x save =>
    exact silent rfl (keep_host save _) fun _ =>
      (Request.keeps_reentry.pullGlobal .attached x).silent.map
  | «exists» x =>
    exact silent rfl rfl fun _ => (Request.keeps_reentry.functionExists .attached x).silent.map
  | expose x factory => exact silent rfl rfl fun _ => (Request.keeps_expose x factory).silent.map
  | method v m args =>
    exact silent rfl rfl fun _ =>
      (Variant.keeps_invoke Request.keeps_reentry .attached v m args).silent.map
  | callable c args ctx =>
    exact silent rfl rfl fun _ =>
      (Callable.keeps_invoke Request.keeps_reentry ctx c args).silent.map
  | libraries names => exact silent rfl rfl fun _ => (Request.keeps_bindLibraries names).silent.map
  | hook mask interval failAt? quiet =>
    exact silent rfl rfl fun _ => (Request.silent_change _).map
  | permissive | mode | unhook | equal =>
    exact silent rfl rfl fun _ w _ => Host.Extends.refl w.host

end IsIsolated

/-! ### Runs -/

/-- What the host does next. -/
inductive Deed
  | request (name : String) (request : Step)
  /-- Installs an error handler. -/
  | observe (name : String)

/-- A request with the name of the bridge, if it had an error handler then, and with what came of
it. -/
structure Entry where
  handler? : Option String
  request : Step
  answer : Answer
  log : List Event

/-- Nothing is reported but what is due, and that last. -/
def Entry.IsAccounted (e : Entry) : Prop :=
  ∃ es : List Event, (∀ x ∈ es, x.isReport = false) ∧
    e.log = es ++ e.request.due e.handler? e.answer

/-- All requests of a run, in order. -/
def transcript (s : Session) : List Deed → List Entry
  | [] => []
  | .request name request :: rest =>
    let r := s.step name request
    ⟨s.handler? name, request, r.1.1, r.1.2⟩ :: transcript r.2 rest
  | .observe name :: rest => transcript (s.observe name) rest

variable {s : Session}

theorem IsIsolated.isAccounted (hs : s.IsIsolated) (hl : ∀ e ∈ s.host.log, e.isReport = false)
    (name : String) (request : Step) :
    let r := s.step name request
    (⟨s.handler? name, request, r.1.1, r.1.2⟩ : Entry).IsAccounted := by
  obtain ⟨h₁, ⟨es, he, silent⟩, hr⟩ := hs.gains name request
  refine ⟨s.host.log.reverse ++ es.reverse, fun e hm => ?_, ?_⟩
  · rcases List.mem_append.mp hm with hm | hm
    · exact hl e (List.mem_reverse.mp hm)
    · exact silent e (List.mem_reverse.mp hm)
  · show (s.answer name request).2.host.log.reverse = _
    rw [hr, he]
    simp only [List.reverse_append, List.reverse_reverse]
    rfl

theorem IsIsolated.isAccounted_of_mem_transcript (hs : s.IsIsolated)
    (hl : ∀ e ∈ s.host.log, e.isReport = false) (deeds : List Deed) :
    ∀ e ∈ s.transcript deeds, e.IsAccounted := by
  induction deeds generalizing s with
  | nil => exact List.forall_mem_nil _
  | cons deed rest ih =>
    cases deed with
    | request name request =>
      refine List.forall_mem_cons.mpr ⟨hs.isAccounted hl name request, ?_⟩
      exact ih (hs.step name request) (List.forall_mem_nil _)
    | observe name =>
      refine ih (hs.observe name) ?_
      rw [host_observe]
      exact hl

theorem host_of_start {host : Host} {settings : Settings} {observed : Bool}
    (h : start host settings observed = .ok s) : s.host = host := by
  have opened := host_openBridge (ofHost host) mainName settings observed
  have empty (act : Act Answer) : ((ofHost host).within mainName act).2.host = host := rfl
  rw [empty, openBridge_of_start h] at opened
  exact opened.elim id id

end Session

/-- In every run a request that runs a chunk or calls a global function, and fails while an error
handler is installed, has its error reported once, after all other events; nothing else is ever
reported. In particular no call of a running host through its context reports anything. -/
theorem escaping_errors_are_reported_once :
    (∀ (host : Host) (settings : Settings) (observed : Bool) (s : Session)
      (deeds : List Session.Deed), (∀ e ∈ host.log, e.isReport = false) →
      Session.start host settings observed = .ok s →
      ∀ e ∈ s.transcript deeds, e.IsAccounted) ∧
    ∀ (n : Nat) (site : Site) (w : World) (ctx : Context), w.OwnedBy w.bridge.id →
      let r := Reentry.upTo n site
      let silent (w' : World) := w.host.Extends w'.host
      (∀ name args, (r.callGlobal ctx name args w).Ends silent) ∧
      (∀ f args, (r.callScript ctx f args w).Ends silent) ∧
      (∀ name v, (r.pushGlobal ctx name v w).Ends silent) ∧
      (∀ name, (r.pullGlobal ctx name w).Ends silent) ∧
      ∀ name, (r.functionExists ctx name w).Ends silent := by
  constructor
  · intro host settings observed s deeds hl hs
    have quiet : ∀ e ∈ s.host.log, e.isReport = false := by
      rw [Session.host_of_start hs]
      exact hl
    exact (Session.Reachable.start hs).isIsolated.isAccounted_of_mem_transcript quiet deeds
  · intro n site w ctx hw r silent
    have keeps : r.Keeps w.bridge.id := .upTo n site
    exact ⟨fun name args => (keeps.callGlobal ctx name args).silent w hw,
      fun f args => (keeps.callScript ctx f args).silent w hw,
      fun name v => (keeps.pushGlobal ctx name v).silent w hw,
      fun name => (keeps.pullGlobal ctx name).silent w hw,
      fun name => (keeps.functionExists ctx name).silent w hw⟩

/-- A missing function is called twice, the second time with an error handler, and then a bad
list of libraries is bound. -/
theorem escaping_errors_are_reported_once_missing :
    ∃ s, Session.start default .bare false = .ok s ∧
      (let entries := s.transcript [.request "main" (.call "f" [] none), .observe "main",
        .request "main" (.call "f" [] none), .request "main" (.libraries ["debug"])]
      (∀ e ∈ entries, e.IsAccounted) ∧
        entries.map (·.log) = [[], [.report "main" (Refusal.noFunction "f").error], []]) ∧
      ((Reentry.upTo 0 .outermost).callGlobal .attached "f" [] Moment.making.world).Ends
        fun w' => Moment.making.world.host.Extends w'.host := by
  obtain ⟨runs, nested⟩ := escaping_errors_are_reported_once
  obtain ⟨s, hs⟩ : ∃ s, Session.start default .bare false = .ok s := ⟨_, rfl⟩
  have own : Moment.making.world.OwnedBy 1 := ⟨rfl, (Bridge.ownedBy_fresh ..).heap⟩
  refine ⟨s, hs, ⟨runs _ _ _ s _ (List.forall_mem_nil _) hs, ?_⟩, ?_⟩
  · cases hs
    rfl
  · exact (nested 0 .outermost _ .attached own).1 "f" []

end ScriptHost
