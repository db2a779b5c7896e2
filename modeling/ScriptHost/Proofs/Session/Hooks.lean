import ScriptHost.Proofs.Machine.Stopping
import ScriptHost.Proofs.Session.Acts
import ScriptHost.Proofs.Session.Reports
import ScriptHost.Proofs.Session.Runs

/-! Whole runs of requests, with hooks and without. Hooks that let every event pass change nothing
but the record of what they saw. A hook that refuses an event stops the request that the event
belongs to, which until then has done what it does without a hook. -/

namespace ScriptHost

variable {α : Type}

/-! ### Hooks that refuse nothing -/

/-- The hook refuses no event. -/
def Hook.IsLenient (hook : Hook) : Prop := ∀ n e, hook.refusal? n e = none

def Bridge.IsLenient (b : Bridge) : Prop := ∀ hook, b.hook? = some hook → hook.IsLenient

theorem Hook.Watches.isLenient {h h' : Option Hook} {es : List HookEvent} (he : Watches h es h')
    (hl : ∀ hook, h = some hook → hook.IsLenient) : ∀ hook, h' = some hook → hook.IsLenient := by
  cases he with
  | unhooked => exact nofun
  | hooked elapsed _ =>
    intro hook hs n e
    cases hs
    exact hl _ rfl n e

theorem Act.StopsIn.not_isLenient {x : Act α} {w w' : World} {C : Hole Unit α}
    {events : List HookEvent} {hook : Hook} {event : HookEvent} {refusal : ScriptError}
    (hs : x.StopsIn w C events w' hook event refusal) : ¬w.bridge.IsLenient := by
  intro hl
  have lenient := hs.refuses.passed.hook.isLenient hl _ hs.refuses.installed
  have refused := hs.refuses.refused
  rw [lenient] at refused
  cases refused

theorem Act.Watched.ends_of_isLenient {x : Act α} {w : World} (hx : x.Watched w)
    (hl : w.bridge.IsLenient) : (x w).Ends (·.bridge.IsLenient) := by
  cases hx with
  | passed _ he _ => exact he.weaken fun _ hs => hs.hook.isLenient hl
  | stopped hs => exact absurd hl hs.not_isLenient

/-! ### Requests without hooks -/

namespace Settings

/-- The settings without the hook that they ask for, if it can be had. -/
def unhooked (s : Settings) : Settings :=
  match Bridge.hookOf s.hook s.interval none true with
  | .ok _ => { s with hook := .empty }
  | .error _ => s

end Settings

namespace Bridge

theorem hook?_furnished (name : String) (id : Nat) (s : Settings) (observed : Bool) :
    (furnished name id s observed).hook? = none := by
  have opened (b : Bridge) (hb : b.hook? = none) :
      (if s.standard then Library.all.foldl openLibrary b else b).hook? = none := by
    split
    · rw [(openLibraries Library.all b).2.2.1, hb]
    · exact hb
  have built (b : Bridge) : b.openConstructors.hook? = b.hook? := by
    rw [openConstructors]
  unfold furnished
  dsimp only
  split
  · rw [built, opened _ rfl]
  · exact opened _ rfl

theorem hook?_bindLibraries {b b' : Bridge} {names : List String}
    (h : b.bindLibraries names = .ok b') : b'.hook? = b.hook? := by
  unfold bindLibraries at h
  cases hl : librariesOf names with
  | error refusal =>
    rw [hl] at h
    cases h
  | ok ls =>
    rw [hl] at h
    cases h
    exact (openLibraries _ b).2.2.1

/-- What settings ask for is opened first, and then the hook is installed. -/
theorem openWith_eq (name : String) (id : Nat) (s : Settings) (observed : Bool) :
    openWith name id s observed =
      match (furnished name id s observed).bindLibraries s.libraries with
      | .error refusal => .error refusal
      | .ok b =>
        if s.hook.isEmpty then .ok b
        else (hookOf s.hook s.interval none true).map fun hook => { b with hook? := some hook } := by
  unfold openWith
  cases (furnished name id s observed).bindLibraries s.libraries with
  | error refusal => rfl
  | ok b =>
    show (if s.hook.isEmpty then Except.ok b else do
      return { b with hook? := some (← hookOf s.hook s.interval none true) }) = _
    cases hookOf s.hook s.interval none true <;> rfl

theorem isLenient_of_hookOf {mask : Mask} {interval : Nat} {quiet : Bool} {hook : Hook}
    (h : hookOf mask interval none quiet = .ok hook) : hook.IsLenient := by
  unfold hookOf at h
  split at h
  · cases h
  · split at h
    · cases h
    · cases h
      exact fun _ _ => rfl

/-- The hook that settings ask for only watches. -/
theorem isLenient_openWith {name : String} {id : Nat} {s : Settings} {observed : Bool} {b : Bridge}
    (h : openWith name id s observed = .ok b) : b.IsLenient := by
  rw [openWith_eq] at h
  cases hb : (furnished name id s observed).bindLibraries s.libraries with
  | error refusal =>
    rw [hb] at h
    cases h
  | ok b' =>
    rw [hb] at h
    dsimp only at h
    split at h
    · cases h
      intro hook hs
      rw [hook?_bindLibraries hb, hook?_furnished] at hs
      cases hs
    · cases hk : hookOf s.hook s.interval none true with
      | error refusal =>
        rw [hk] at h
        cases h
      | ok hook =>
        rw [hk] at h
        cases h
        rintro _ ⟨⟩
        exact isLenient_of_hookOf hk

end Bridge

namespace Step

/-- The request without the hook that it asks for. What asks for a hook that cannot be had is
refused in any case. -/
def unhooked : Step → Step
  | .open settings observed => .open settings.unhooked observed
  | .hook mask interval failAt? quiet =>
    match Bridge.hookOf mask interval failAt? quiet with
    | .ok _ => .unhook
    | .error _ => .hook mask interval failAt? quiet
  | request => request

/-- No hook that the request asks for refuses an event. -/
def IsLenient : Step → Prop
  | .hook _ _ failAt? _ => failAt? = none
  | _ => True

/-- What the installation of a hook comes to. -/
theorem act_hook [Pausing] (held : List Reference) (mask : Mask) (interval : Nat)
    (failAt? : Option Nat) (quiet : Bool) (w : World) : act held (.hook mask interval failAt? quiet) w =
      match Bridge.hookOf mask interval failAt? quiet with
      | .ok asked => .ok .done (w.withHook (some asked))
      | .error refusal => .ok (.failed refusal.error) w := by
  show Act.bind (Request.installHook mask interval failAt? quiet) _ w = _
  rw [Act.bind, Request.installHook, Request.change_apply]
  cases Bridge.hookOf mask interval failAt? quiet <;> rfl

/-- A request is disciplined if its small steps are, or if it is only about the hook. -/
theorem ends_act [Pausing] {K : World → World → Prop} (hK : Act.Discipline K)
    (held : List Reference) (request : Step)
    (hx : request.isHooking = false → Act.Composed K (request.act held))
    (w : World) : (request.act held w).Ends (K w) := by
  cases request with
  | hook mask interval failAt? quiet =>
    rw [act_hook]
    cases Bridge.hookOf mask interval failAt? quiet with
    | error refusal => exact hK.refl w
    | ok hook => exact hK.hooked w _
  | unhook => exact hK.hooked w none
  | _ => exact (hx rfl).ends hK w

theorem watched_act (held : List Reference) {request : Step} (hh : request.isHooking = false)
    (w : World) : (request.act held).Watched w := (composed_act_later held hh).watched w

end Step

/-! ### Sessions without hooks -/

namespace Session

/-- The session without its hooks and without what hooks have recorded. -/
def plain (s : Session) : Session :=
  { s with host := s.host.plain, bridges := s.bridges.map fun e => (e.1, e.2.unhooked) }

variable (s : Session) (name : String)

/-- A hook of the bridge stops the request at one of its events. -/
inductive Stops (s : Session) (name : String) (request : Step) : Prop
  | intro {b : Bridge} {C : Hole Unit Answer} {events : List HookEvent} {w : World} {hook : Hook}
      {event : HookEvent} {refusal : ScriptError} : assoc? name s.bridges = some b →
    (request.act (s.heldOutside name)).StopsIn ⟨s.host, b⟩ C events w hook event refusal →
    Stops s name request

namespace Turn

/-- The turn without a hook. -/
def unhooked : Turn → Turn
  | request name r => request name r.unhooked
  | hook name _ => hook name none

/-- No hook of the turn refuses an event. -/
def IsLenient : Turn → Prop
  | request _ r => r.IsLenient
  | hook _ hook? => ∀ hook, hook? = some hook → hook.IsLenient

end Turn

variable {s name}

/-- No hook stops a request of the run. -/
def Passes (s : Session) : List Turn → Prop
  | [] => True
  | .hook name hook? :: rest => (s.setHook name hook?).Passes rest
  | .request name request :: rest =>
    ¬s.Stops name request ∧ (s.step name request).2.Passes rest

/-- No hook refuses an event. -/
def IsLenient (s : Session) : Prop := ∀ e ∈ s.bridges, e.2.IsLenient

namespace IsLenient

variable {s : Session}

theorem put (hs : s.IsLenient) {b : Bridge} (hb : b.IsLenient) (name : String) :
    ∀ e ∈ putIn name b s.bridges, e.2.IsLenient := by
  intro e he
  rcases mem_putIn he with rfl | he
  · exact hb
  · exact hs e he

theorem bridge (hs : s.IsLenient) {name : String} {b : Bridge} (hb : assoc? name s.bridges = some b) :
    b.IsLenient := hs _ (mem_of_assoc? hb)

theorem within (hs : s.IsLenient) (name : String) {x : Act Answer}
    (hx : ∀ b, assoc? name s.bridges = some b → (x ⟨s.host, b⟩).Ends (·.bridge.IsLenient)) :
    (s.within name x).2.IsLenient := by
  unfold Session.within
  cases hb : assoc? name s.bridges with
  | none => exact hs
  | some b =>
    have ends := hx b hb
    dsimp only
    cases hw : x ⟨s.host, b⟩ with
    | exhausted => exact hs
    | _ =>
      rw [hw] at ends
      exact hs.put ends name

theorem replaced {r : Answer × Session} (hr : r.2.IsLenient) {b : Bridge} (hb : b.IsLenient)
    (name : String) : (replaced name b r).2.IsLenient := by
  obtain ⟨answer, s⟩ := r
  have added := hr.put hb name
  cases answer with
  | exhausted => exact hr
  | _ => exact added

theorem finish {r : Answer × Session} (hr : r.2.IsLenient) (name : String) (request : Step) :
    (request.finish name r).2.IsLenient := by
  obtain ⟨answer, s⟩ := r
  have keep (save : Option String) : (keep save (answer, s)).2.IsLenient := by
    cases answer with
    | value v => cases save <;> exact hr
    | _ => exact hr
  cases request with
  | close =>
    cases answer with
    | done => exact fun e he => hr e (List.mem_of_mem_filter he)
    | _ => exact hr
  | collect => cases answer <;> exact hr
  | pull _ save | eval _ save | call _ _ save => exact keep save
  | _ => exact hr

theorem act (hs : s.IsLenient) {name : String} {request : Step} (hr : request.IsLenient) {b : Bridge}
    (hb : assoc? name s.bridges = some b) :
    (request.act (s.heldOutside name) ⟨s.host, b⟩).Ends (·.bridge.IsLenient) := by
  cases hh : request.isHooking with
  | false => exact (Step.watched_act _ hh _).ends_of_isLenient (hs.bridge hb)
  | true =>
    cases request with
    | unhook => exact nofun
    | hook mask interval failAt? quiet =>
      obtain rfl : failAt? = none := hr
      rw [Step.act_hook]
      cases hk : Bridge.hookOf mask interval none quiet with
      | error refusal => exact hs.bridge hb
      | ok asked =>
        rintro _ ⟨⟩
        exact Bridge.isLenient_of_hookOf hk
    | _ => cases hh

theorem answer (hs : s.IsLenient) (name : String) {request : Step} (hr : request.IsLenient) :
    (s.answer name request).2.IsLenient := by
  have closed := hs.within name fun b hb => hs.act hr hb
  cases ho : request.isOpening with
  | false =>
    rw [answer_eq _ _ ho]
    exact closed.finish name request
  | true =>
    cases request with
    | «open» settings observed =>
      show (s.openBridge name settings observed).2.IsLenient
      cases hb : Bridge.openWith name s.nextId settings observed with
      | error refusal =>
        unfold openBridge
        rw [hb]
        exact hs
      | ok b =>
        rw [openBridge_of_ok hb]
        exact replaced closed (Bridge.isLenient_openWith hb) name
    | _ => cases ho

theorem setHook (hs : s.IsLenient) (name : String) {hook? : Option Hook}
    (hh : ∀ hook, hook? = some hook → hook.IsLenient) : (s.setHook name hook?).IsLenient := by
  unfold Session.setHook
  split
  · exact hs.put (b := { (_ : Bridge) with hook? := hook? }) hh name
  · exact hs

theorem not_stops (hs : s.IsLenient) (name : String) (request : Step) : ¬s.Stops name request := by
  rintro ⟨hb, stops⟩
  exact stops.not_isLenient (hs.bridge hb)

theorem passes (hs : s.IsLenient) {turns : List Turn} (ht : ∀ turn ∈ turns, turn.IsLenient) :
    s.Passes turns := by
  induction turns generalizing s with
  | nil => trivial
  | cons turn rest ih =>
    rw [List.forall_mem_cons] at ht
    cases turn with
    | hook name hook? => exact ih (hs.setHook name ht.1) ht.2
    | request name request =>
      exact ⟨hs.not_stops name request, ih (s := (s.step name request).2) (hs.answer name ht.1) ht.2⟩

end IsLenient

/-! ### Requests that are stopped -/

end Session

end ScriptHost
