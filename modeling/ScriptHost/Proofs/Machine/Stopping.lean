import ScriptHost.Proofs.Machine.Composed

/-! Where a hook stops an action. Without a hook the action comes to the same as with one that lets
all events pass. If the hook refuses an event, the action without a hook comes to the same point,
and from there the one goes on where the other has an error raised. -/

namespace ScriptHost

variable {α β γ : Type}

/-! ### What is around a step -/

/-- What is still to come after a step of an action, and around it. -/
inductive Hole : Type → Type → Type 1
  | here {α : Type} : Hole α α
  | before {α β γ : Type} (C : Hole γ α) (f : α → Act β) : Hole γ β
  | inside {α β γ : Type} (C : Hole γ α) (c : Catcher α β) : Hole γ β

namespace Hole

def fill : {α γ : Type} → Hole γ α → Act γ → Act α
  | _, _, here, x => x
  | _, _, before C f, x => C.fill x >>= f
  | _, _, inside C c, x => c.run (C.fill x)

/-- Nothing around the step catches an error. -/
inductive Open : {α γ : Type} → Hole γ α → Prop
  | here {α : Type} : Open (.here : Hole α α)
  | before {α β γ : Type} {C : Hole γ α} (f : α → Act β) : Open C → Open (C.before f)

theorem Open.raises {C : Hole γ α} (hC : C.Open) {x : Act γ} {w w' : World} {e : Value}
    (hx : x w = .raised e w') : C.fill x w = .raised e w' := by
  induction hC with
  | here => exact hx
  | before f _ ih => exact Act.bind_of_raised (ih hx)

/-- Either nothing catches an error of the step, or something does first. -/
theorem nearest (C : Hole γ α) : C.Open ∨ ∃ (δ ε : Type) (inner : Hole γ δ) (c : Catcher δ ε)
    (outer : Hole ε α), inner.Open ∧ ∀ x, C.fill x = outer.fill (c.run (inner.fill x)) := by
  induction C with
  | here => exact .inl .here
  | before C f ih =>
    rcases ih with open_ | ⟨δ, ε, inner, c, outer, hi, hx⟩
    · exact .inl (.before f open_)
    · exact .inr ⟨δ, ε, inner, c, outer.before f, hi, fun x => congrArg (· >>= f) (hx x)⟩
  | inside C c ih =>
    rcases ih with open_ | ⟨δ, ε, inner, c', outer, hi, hx⟩
    · exact .inr ⟨_, _, C, c, .here, open_, fun _ => rfl⟩
    · exact .inr ⟨δ, ε, inner, c', outer.inside c, hi, fun x => congrArg c.run (hx x)⟩

end Hole

/-! ### What becomes of an error -/

namespace Catcher

end Catcher

/-- The latest error is a refusal of the hook. -/
def World.IsRefused (w : World) : Prop := ∃ hook, w.bridge.hook? = some hook ∧ hook.refused = true

namespace World.IsRefused

variable {w : World}

/-- The hook sees nothing of what becomes of its own error. -/
theorem handling (hw : w.IsRefused) (x : Act α) :
    Act.handling x w = x (w.calling none) := by
  obtain ⟨hook, hh, hr⟩ := hw
  rw [Act.handling_apply, hh]
  dsimp only
  rw [if_pos hr, Act.bind_of_ok (Act.note_apply none w)]

theorem settle (hw : w.IsRefused) (n : Nat) (e : ScriptError) :
    Reentry.settle (.fault n e) w = .ok e (w.calling none) := by
  have told : Act.handling (do return Reentry.plainError (← Act.heap) (.fault n e)) w =
      .ok e (w.calling none) := hw.handling _
  rw [Reentry.settle, Act.bind_of_ok (Act.attempt_of_ok told)]
  rfl

theorem toScriptError (hw : w.IsRefused) (r : Reentry) (n : Nat) (e : ScriptError) :
    r.toScriptError (.fault n e) w = .ok e (w.calling none) := by
  have told : Act.handling (r.inside.describe (.fault n e)) w = .ok e (w.calling none) :=
    hw.handling _
  rw [Reentry.toScriptError, Act.bind_of_ok (Act.attempt_of_ok told)]
  rfl

end World.IsRefused

/-- In `w'` an event is refused after others that have passed. Without a hook the action comes to
the same point and goes on; with it, the refusal is raised there. -/
structure Act.StopsIn (x : Act α) (w : World) (C : Hole Unit α) (events : List HookEvent)
    (w' : World) (hook : Hook) (event : HookEvent) (refusal : ScriptError) : Prop where
  refuses : w.Refuses events w' hook event refusal
  hooked : x w = C.fill (throw refusal) (showing hook event w')
  plain : x w.plain = C.fill (pure ()) w'.plain

/-- How an action fares with a hook. -/
inductive Act.Watched {α : Type} (x : Act α) (w : World) : Prop
  /-- All events pass, and the action comes to what it comes to without a hook. -/
  | passed (events : List HookEvent) : (x w).Ends (w.Watches events) →
    x w.plain = (x w).plain → Watched x w
  | stopped {C : Hole Unit α} {events : List HookEvent} {w' : World} {hook : Hook}
      {event : HookEvent} {refusal : ScriptError} :
    x.StopsIn w C events w' hook event refusal → Watched x w

namespace Act.Watched

variable {x : Act α} {w : World}

theorem congr {y : Act α} (h : x.Watched w) (hw : y w = x w) (hp : y w.plain = x w.plain) :
    y.Watched w := by
  cases h with
  | passed events he hx => exact .passed events (hw ▸ he) (by rw [hp, hx, hw])
  | stopped hs => exact .stopped ⟨hs.refuses, hw.trans hs.hooked, hp.trans hs.plain⟩

/-- An action that begins with events which pass. -/
theorem after {y : Act α} {w₁ : World} {events : List HookEvent} (h : x.Watched w₁)
    (he : w.Watches events w₁) (hw : y w = x w₁) (hp : y w.plain = x w₁.plain) : y.Watched w := by
  cases h with
  | passed later hs hx =>
    refine .passed (events ++ later) ?_ (by rw [hp, hx, hw])
    rw [hw]
    exact hs.weaken fun _ => he.trans
  | stopped hs => exact .stopped ⟨he.refuses hs.refuses, hw.trans hs.hooked, hp.trans hs.plain⟩

theorem bind {f : α → Act β} (hx : x.Watched w)
    (hf : ∀ a w₁, x w = .ok a w₁ → (f a).Watched w₁) : (x >>= f).Watched w := by
  cases hx with
  | passed events he hp =>
    cases hw : x w with
    | ok a w₁ =>
      rw [hw] at he hp
      exact (hf a w₁ hw).after he (bind_of_ok hw) (bind_of_ok hp)
    | raised e w₁ =>
      rw [hw] at he hp
      refine .passed events ?_ ?_
      · rw [bind_of_raised hw]
        exact he
      · rw [bind_of_raised hw, bind_of_raised hp]
        rfl
    | exhausted =>
      rw [hw] at hp
      refine .passed [] ?_ ?_
      · rw [bind_of_exhausted hw]
        trivial
      · rw [bind_of_exhausted hw, bind_of_exhausted hp]
        rfl
  | @stopped C _ _ _ _ _ hs =>
    refine .stopped (C := C.before f) ⟨hs.refuses, ?_, ?_⟩
    · show Act.bind x f w = Act.bind _ f _
      rw [Act.bind, Act.bind, hs.hooked]
    · show Act.bind x f w.plain = Act.bind _ f _
      rw [Act.bind, Act.bind, hs.plain]

theorem catching (c : Catcher α β) (hx : x.Watched w)
    (hc : ∀ result w₁, (c.handle result).Watched w₁) : (c.run x).Watched w := by
  have run_of {result : Except Value α} {w₁ w₂ : World} (h : x w₁ = .of result w₂) :
      c.run x w₁ = c.handle result w₂ := by
    show Act.bind x.attempt c.handle w₁ = _
    rw [Act.bind, Act.attempt, h]
    cases result <;> rfl
  cases hx with
  | passed events he hp =>
    cases hw : x w with
    | ok a w₁ =>
      rw [hw] at he hp
      exact (hc (.ok a) w₁).after he (run_of hw) (run_of hp)
    | raised e w₁ =>
      rw [hw] at he hp
      exact (hc (.error e) w₁).after he (run_of hw) (run_of hp)
    | exhausted =>
      rw [hw] at hp
      have none_of {w₁ : World} (h : x w₁ = .exhausted) : c.run x w₁ = .exhausted := by
        show Act.bind x.attempt c.handle w₁ = _
        rw [Act.bind, Act.attempt, h]
      refine .passed [] ?_ ?_
      · rw [none_of hw]
        trivial
      · rw [none_of hw, none_of hp]
        rfl
  | @stopped C _ _ _ _ _ hs =>
    refine .stopped (C := C.inside c) ⟨hs.refuses, ?_, ?_⟩
    · show Act.bind x.attempt c.handle w = Act.bind _ c.handle _
      rw [Act.bind, Act.bind, Act.attempt, Act.attempt, hs.hooked]
    · show Act.bind x.attempt c.handle w.plain = Act.bind _ c.handle _
      rw [Act.bind, Act.bind, Act.attempt, Act.attempt, hs.plain]

theorem fire (e : HookEvent) (w : World) : (Act.fire e).Watched w := by
  rcases fire_watched e w with ⟨events, w', hf, he, hw⟩ | ⟨hook, refusal, hr, hf⟩
  · refine .passed events ?_ ?_
    · rw [hf]
      exact he
    · rw [hf, fire_plain]
      exact congrArg (Outcome.ok ()) hw.symm
  · exact .stopped (C := .here) ⟨hr, hf, fire_plain e w⟩

theorem note (callee? : Option String) (w : World) : (Act.note callee?).Watched w := by
  obtain ⟨w', hn, hs, hw⟩ := note_watched callee? w
  refine .passed [] ?_ ?_
  · rw [hn]
    exact hs
  · rw [hn, note_plain]
    exact congrArg (Outcome.ok ()) hw.symm

theorem cross (e : HookEvent) (w : World) : (Act.cross e).Watched w :=
  (note none w).bind fun _ w₁ _ => fire e w₁

theorem outside (hx : ∀ w, x.Watched w) (name : Option String) (w : World) :
    (Act.outside name x).Watched w :=
  (cross _ w).bind fun _ w₁ _ => (hx w₁).bind fun _ w₂ _ => (cross _ w₂).bind fun _ _ _ =>
    .passed [] (World.Watches.refl _) rfl

theorem tick (chunk : String) (line : Nat) (w : World) : (Act.tick chunk line).Watched w := by
  obtain ⟨hook?, hh, ht⟩ := tick_cases chunk line w
  have counted : w.Watches [] (w.withHook hook?) :=
    ⟨hh, (World.Watches.refl w).record⟩
  rcases ht with ht | ⟨e, ht⟩
  · refine .passed [] ?_ ?_
    · rw [ht]
      exact counted
    · rw [ht]
      rfl
  · exact (fire e _).after counted ht ((tick_plain chunk line w).trans (fire_plain e _).symm)

/-- Without a hook there is nothing to see. -/
theorem of_unhooked (h : x.Watched w) (hw : w.bridge.hook? = none) :
    (x w).Ends (w.Watches []) ∧ x w.plain = (x w).plain := by
  cases h with
  | passed events he hp =>
    refine ⟨he.weaken fun w' hs => ?_, hp⟩
    rwa [(hs.eq_nil hw).1] at hs
  | stopped hs => exact absurd hw hs.refuses.hooked

/-- Without a hook nobody sees a call. -/
theorem outside_plain (hx : x.Watched w.plain) (name : Option String) :
    Act.outside name x w.plain = x w.plain := by
  obtain ⟨quiet, -⟩ := hx.of_unhooked rfl
  have entered : Act.cross ⟨.call, none, some Act.hostSource, name⟩ w.plain = .ok () w.plain := rfl
  rw [Act.outside, bind_of_ok entered]
  cases hw : x w.plain with
  | exhausted => rw [bind_of_exhausted hw]
  | raised e w' => rw [bind_of_raised hw]
  | ok a w' =>
    rw [hw] at quiet
    have left : Act.cross ⟨.ret, none, some Act.hostSource, none⟩ w' = .ok () w' := by
      rw [Act.cross, ← World.withHook_self (quiet.eq_nil rfl).2]
      rfl
    rw [bind_of_ok hw, bind_of_ok left]
    rfl

theorem handling (hx : ∀ w, x.Watched w) (w : World) : (Act.handling x).Watched w := by
  cases hh : w.bridge.hook? with
  | none => exact (hx w).congr (by rw [handling_apply, hh]) rfl
  | some hook =>
    by_cases hr : hook.refused = true
    · refine ((note none w).bind fun _ w₁ _ => hx w₁).congr ?_ rfl
      rw [handling_apply, hh]
      dsimp only
      rw [if_pos hr]
    · refine (outside hx hook.callee? w).congr ?_ (outside_plain (hx w.plain) _).symm
      rw [handling_apply, hh]
      dsimp only
      rw [if_neg hr]

theorem unhooked (hx : x.Watched (w.withHook none)) : (Act.unhooked x).Watched w := by
  obtain ⟨quiet, same⟩ := hx.of_unhooked rfl
  have bare : w.plain.withHook none = (w.withHook none).plain := rfl
  have restored {w' : World} (h : (w.withHook none).Watches [] w') :
      w.Watches [] (w'.withHook w.bridge.hook?) := .silent rfl h.record
  cases hw : x (w.withHook none) with
  | exhausted =>
    rw [hw] at same
    refine .passed [] ?_ ?_
    · rw [unhooked_eq, hw]
      trivial
    · rw [unhooked_eq, unhooked_eq, bare, same, hw]
      rfl
  | _ =>
    rw [hw] at same quiet
    refine .passed [] ?_ ?_
    · rw [unhooked_eq, hw]
      exact restored quiet
    · rw [unhooked_eq, unhooked_eq, bare, same, hw]
      rfl

end Act.Watched

theorem Act.Composed.watched {K : World → World → Prop} {x : Act α} (hx : Composed K x)
    (w : World) : x.Watched w := by
  induction hx generalizing w with
  | blind hx =>
    obtain ⟨result, w', h, hp, hw, -⟩ := hx w
    refine .passed [] ?_ ?_
    · rw [h]
      cases result <;> exact hw
    · rw [h, hp, Outcome.plain_of]
  | exhausted => exact .passed [] trivial rfl
  | bind _ _ ihx ihf => exact (ihx w).bind fun a w₁ _ => ihf a w₁
  | @host _ f _ same ih =>
    refine (ih w.host w).congr rfl ?_
    show f w.host.plain w.plain = f w.host w.plain
    rw [same]
  | @bridge _ f _ same ih =>
    refine (ih w.bridge w).congr rfl ?_
    show f w.bridge.unhooked w.plain = f w.bridge w.plain
    rw [same]
  | fire e => exact .fire e w
  | note callee? => exact .note callee? w
  | tick chunk line => exact .tick chunk line w
  | handling _ ih => exact .handling ih w
  | caught c _ _ ihx ihc => exact (ihx w).catching c fun result w₁ => ihc result w₁
  | unhooked _ ih => exact .unhooked (ih _)

end ScriptHost
