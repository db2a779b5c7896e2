import ScriptHost.Proofs.Machine.Observing

/-! What a hook sees while a script runs: events that it lets pass, one after the other, up to the
first that it refuses, if there is one. -/

namespace ScriptHost

variable {α β : Type}

def Event.hook? : Event → Option HookEvent
  | hook e => some e
  | _ => none

theorem Event.hook?_of_not_isHook {e : Event} (he : e.isHook = false) : e.hook? = none := by
  cases e with
  | hook => cases he
  | _ => rfl

/-! ### Worlds without hooks -/

/-- What hooks have recorded, the latest first. -/
def Host.watched (h : Host) : List HookEvent := h.log.filterMap Event.hook?

/-- The host without what hooks have recorded. -/
def Host.plain (h : Host) : Host := { h with log := h.log.filter fun e => !e.isHook }

def Bridge.unhooked (b : Bridge) : Bridge := { b with hook? := none }

/-- The world without its hook and without what hooks have recorded. -/
def World.plain (w : World) : World := ⟨w.host.plain, w.bridge.unhooked⟩

def Outcome.plain : Outcome α → Outcome α
  | .ok a w => .ok a w.plain
  | .raised e w => .raised e w.plain
  | .exhausted => .exhausted

theorem Outcome.plain_of (result : Except Value α) (w : World) :
    (Outcome.of result w).plain = .of result w.plain := by
  cases result <;> rfl

@[simp] theorem Host.plain_plain (h : Host) : h.plain.plain = h.plain := by
  simp [plain, List.filter_filter]

@[simp] theorem World.plain_plain (w : World) : w.plain.plain = w.plain := by
  simp [plain, Bridge.unhooked]

theorem Host.plain_record {e : Event} (he : e.isHook = false) (h : Host) :
    (h.record e).plain = h.plain.record e := by
  simp [plain, record, he]

theorem Host.watched_record {e : Event} (he : e.isHook = false) (h : Host) :
    (h.record e).watched = h.watched := by
  simp [watched, record, Event.hook?_of_not_isHook he]

/-! ### Events that pass -/

namespace Hook

/-- The hook observes all these events, of which the first is numbered `n + 1`, and refuses
none. -/
def Passes (hook : Hook) (n : Nat) : List HookEvent → Prop
  | [] => True
  | e :: rest =>
    (hook.mask.holds e.kind = true ∧ hook.refusal? (n + 1) e = none) ∧ hook.Passes (n + 1) rest

theorem Passes.append {hook : Hook} {n : Nat} {es fs : List HookEvent} (he : hook.Passes n es)
    (hf : hook.Passes (n + es.length) fs) : hook.Passes n (es ++ fs) := by
  induction es generalizing n with
  | nil => exact hf
  | cons e rest ih =>
    refine ⟨he.1, ih he.2 ?_⟩
    rwa [List.length_cons, Nat.add_comm rest.length, ← Nat.add_assoc] at hf

/-- The hook after `n` events, somewhere in the script. -/
def after (hook : Hook) (n elapsed : Nat) (callee? : Option String) (refused : Bool) : Hook :=
  { hook with seen := n, elapsed := elapsed, callee? := callee?, refused := refused }

/-- Only the mask and the verdict matter. -/
theorem Passes.of_after {hook : Hook} {seen elapsed n : Nat} {callee? : Option String}
    {refused : Bool} {es : List HookEvent}
    (h : (hook.after seen elapsed callee? refused).Passes n es) : hook.Passes n es := by
  induction es generalizing n with
  | nil => trivial
  | cons e rest ih => exact ⟨h.1, ih h.2⟩

/-- What the hook records of events. -/
def recorded (hook : Hook) (events : List HookEvent) : List HookEvent :=
  if hook.quiet then [] else events.reverse

/-- A hook after events that passed. -/
inductive Watches : Option Hook → List HookEvent → Option Hook → Prop
  | unhooked : Watches none [] none
  | hooked {hook : Hook} {events : List HookEvent} (elapsed : Nat) (callee? : Option String)
      (refused : Bool) :
    hook.Passes hook.seen events →
    Watches (some hook) events
      (some (hook.after (hook.seen + events.length) elapsed callee? refused))

theorem Watches.refl (hook? : Option Hook) : Watches hook? [] hook? := by
  cases hook? with
  | none => exact .unhooked
  | some hook => exact .hooked hook.elapsed hook.callee? hook.refused trivial

theorem Watches.trans {h h' h'' : Option Hook} {es fs : List HookEvent} (he : Watches h es h')
    (hf : Watches h' fs h'') : Watches h (es ++ fs) h'' := by
  cases he with
  | unhooked =>
    cases hf
    exact .unhooked
  | hooked _ _ _ he =>
    cases hf with
    | hooked elapsed callee? refused hf =>
      have joined := Watches.hooked elapsed callee? refused (he.append hf.of_after)
      rwa [List.length_append, ← Nat.add_assoc] at joined

/-- What the hook is told of the script is no event. -/
theorem Watches.calling (hook : Hook) (callee? : Option String) :
    Watches (some hook) [] (some (hook.calling callee?)) :=
  .hooked hook.elapsed callee? false trivial

end Hook

namespace World

/-- Since `w` the hook has seen these events and has let them pass. -/
structure Watches (w : World) (events : List HookEvent) (w' : World) : Prop where
  hook : Hook.Watches w.bridge.hook? events w'.bridge.hook?
  record : w'.host.watched =
    (w.bridge.hook?.map (·.recorded events)).getD [] ++ w.host.watched

namespace Watches

variable {w w' w'' : World} {es fs : List HookEvent}

/-- What neither shows an event to the hook nor records one. -/
theorem silent (hb : w'.bridge.hook? = w.bridge.hook?) (hl : w'.host.watched = w.host.watched) :
    w.Watches [] w' := by
  refine ⟨hb ▸ .refl _, ?_⟩
  rw [hl]
  cases w.bridge.hook? with
  | none => rfl
  | some hook =>
    rw [Option.map_some, Option.getD_some, Hook.recorded]
    split <;> rfl

theorem refl (w : World) : w.Watches [] w := silent rfl rfl

theorem trans (he : w.Watches es w') (hf : w'.Watches fs w'') : w.Watches (es ++ fs) w'' := by
  refine ⟨he.hook.trans hf.hook, ?_⟩
  have first := he.record
  have second := hf.record
  have hooks := he.hook
  generalize w.bridge.hook? = hook at hooks first ⊢
  generalize w'.bridge.hook? = hook' at hooks second
  cases hooks with
  | unhooked => rw [second, first]; rfl
  | @hooked hook es =>
    rw [second, first]
    simp only [Option.map_some, Option.getD_some, Hook.recorded, Hook.after, List.reverse_append]
    split <;> simp

theorem eq_nil (h : w.Watches es w') (hw : w.bridge.hook? = none) :
    es = [] ∧ w'.bridge.hook? = none := by
  have hooks := h.hook
  rw [hw] at hooks
  generalize w'.bridge.hook? = hook' at hooks ⊢
  cases hooks
  exact ⟨rfl, rfl⟩

end Watches

/-- Since `w` the hook has let some events pass, and in `w'` it refuses the next one. -/
structure Refuses (w : World) (events : List HookEvent) (w' : World) (hook : Hook)
    (event : HookEvent) (refusal : ScriptError) : Prop where
  passed : w.Watches events w'
  installed : w'.bridge.hook? = some hook
  observed : hook.mask.holds event.kind = true
  refused : hook.refusal? (hook.seen + 1) event = some refusal

theorem Watches.refuses {w w' w'' : World} {es fs : List HookEvent} {hook : Hook}
    {event : HookEvent} {refusal : ScriptError} (he : w.Watches es w')
    (hr : w'.Refuses fs w'' hook event refusal) :
    w.Refuses (es ++ fs) w'' hook event refusal :=
  ⟨he.trans hr.passed, hr.installed, hr.observed, hr.refused⟩

theorem Refuses.hooked {w w' : World} {es : List HookEvent} {hook : Hook} {event : HookEvent}
    {refusal : ScriptError} (h : w.Refuses es w' hook event refusal) :
    w.bridge.hook? ≠ none := by
  intro hw
  have := (h.passed.eq_nil hw).2
  rw [h.installed] at this
  cases this

end World

/-! ### Showing an event -/

namespace Act

theorem plain_showing (hook : Hook) (e : HookEvent) (w : World) :
    (showing hook e w).plain = w.plain := by
  have log : (showing hook e w).host.plain = w.host.plain := by
    dsimp only [showing, Host.plain]
    congr 1
    split
    · rfl
    · simp [Event.isHook]
  rw [World.plain, log]
  rfl

theorem watches_showing {hook : Hook} {e : HookEvent} {w : World}
    (hw : w.bridge.hook? = some hook) (hm : hook.mask.holds e.kind = true)
    (hr : hook.refusal? (hook.seen + 1) e = none) : w.Watches [e] (showing hook e w) := by
  refine ⟨?_, ?_⟩
  · rw [hw]
    exact .hooked hook.elapsed hook.callee? _ ⟨⟨hm, hr⟩, trivial⟩
  · rw [hw, Option.map_some, Option.getD_some, Hook.recorded]
    dsimp only [showing, Host.watched]
    split <;> rfl

theorem fire_plain (e : HookEvent) (w : World) : fire e w.plain = .ok () w.plain :=
  fire_of_no_hook nofun

/-- An event is none for the hook, or passes, or is refused. -/
theorem fire_watched (e : HookEvent) (w : World) :
    (∃ events w', fire e w = .ok () w' ∧ w.Watches events w' ∧ w'.plain = w.plain) ∨
    ∃ hook refusal, w.Refuses [] w hook e refusal ∧
      fire e w = throw refusal (showing hook e w) := by
  by_cases hw : ∃ hook, w.bridge.hook? = some hook ∧ hook.mask.holds e.kind = true
  · obtain ⟨hook, hh, hm⟩ := hw
    rw [fire_of_hook hh hm]
    cases hr : hook.refusal? (hook.seen + 1) e with
    | none =>
      refine .inl ⟨[e], showing hook e w, ?_, watches_showing hh hm hr, plain_showing hook e w⟩
      rw [judge, hr]
      rfl
    | some refusal =>
      refine .inr ⟨hook, refusal, ⟨.refl w, hh, hm, hr⟩, ?_⟩
      rw [judge, hr]
  · refine .inl ⟨[], w, fire_of_no_hook fun hook hh => ?_, .refl w, rfl⟩
    cases hm : hook.mask.holds e.kind with
    | false => rfl
    | true => exact absurd ⟨hook, hh, hm⟩ hw

theorem tick_apply (chunk : String) (line : Nat) (w : World) : tick chunk line w =
    (match w.bridge.hook? with
    | none => pure ()
    | some hook =>
      if hook.mask.count then
        if hook.interval ≤ hook.elapsed + 1 then do
          modifyBridge fun b => { b with hook? := some { hook with elapsed := 0 } }
          fire ⟨.count, some line, some chunk, none⟩
        else modifyBridge fun b => { b with hook? := some { hook with elapsed := hook.elapsed + 1 } }
      else pure () : Act Unit) w :=
  rfl

/-- What a step of the script adds to what the hook counts, which may then see an event. -/
theorem tick_cases (chunk : String) (line : Nat) (w : World) :
    ∃ hook?, Hook.Watches w.bridge.hook? [] hook? ∧
      (tick chunk line w = .ok () (w.withHook hook?) ∨
        ∃ e, tick chunk line w = fire e (w.withHook hook?)) := by
  rw [tick_apply]
  cases hh : w.bridge.hook? with
  | none =>
    refine ⟨none, .unhooked, .inl ?_⟩
    rw [World.withHook_self hh]
    rfl
  | some hook =>
    have on (elapsed : Nat) : Hook.Watches (some hook) [] (some { hook with elapsed := elapsed }) :=
      .hooked elapsed hook.callee? hook.refused trivial
    dsimp only
    by_cases hc : hook.mask.count = true
    · rw [if_pos hc]
      by_cases he : hook.interval ≤ hook.elapsed + 1
      · rw [if_pos he]
        exact ⟨_, on 0, .inr ⟨_, rfl⟩⟩
      · rw [if_neg he]
        exact ⟨_, on (hook.elapsed + 1), .inl rfl⟩
    · rw [if_neg hc]
      refine ⟨_, on hook.elapsed, .inl ?_⟩
      rw [World.withHook_self hh]
      rfl

theorem note_watched (callee? : Option String) (w : World) :
    ∃ w', note callee? w = .ok () w' ∧ w.Watches [] w' ∧ w'.plain = w.plain := by
  have watches : Hook.Watches w.bridge.hook? [] (w.bridge.hook?.map (·.calling callee?)) := by
    cases w.bridge.hook? with
    | none => exact .unhooked
    | some hook => exact .calling hook callee?
  exact ⟨_, note_apply callee? w, ⟨watches, (World.Watches.refl w).record⟩, rfl⟩

theorem note_plain (callee? : Option String) (w : World) : note callee? w.plain = .ok () w.plain :=
  rfl

theorem tick_plain (chunk : String) (line : Nat) (w : World) :
    tick chunk line w.plain = .ok () w.plain := rfl

end Act

end ScriptHost
