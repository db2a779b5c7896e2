import ScriptHost.Machine.Reentry
import ScriptHost.Proofs.Machine.Local

/-! What a hook adds to a call of a function that is not written in the script. It sees the
call begin and end, and at either point it may stop the script; it changes nothing else. -/

namespace ScriptHost

variable {α β : Type}

def Event.isHook : Event → Bool
  | hook _ => true
  | _ => false

/-- The hook as it was installed. -/
def Hook.unused (h : Hook) : Hook :=
  { h with seen := 0, elapsed := 0, callee? := none, refused := false }

def World.withHook (w : World) (hook? : Option Hook) : World :=
  { w with bridge := { w.bridge with hook? := hook? } }

theorem World.withHook_self {w : World} {hook? : Option Hook} (h : w.bridge.hook? = hook?) :
    w.withHook hook? = w := by
  subst h
  rfl

namespace World

/-- The world whose hook knows what is being called. -/
def calling (w : World) (callee? : Option String) : World :=
  w.withHook (w.bridge.hook?.map (·.calling callee?))

/-- The world without what its hook has seen. -/
def unseen (w : World) : World where
  host := { w.host with log := w.host.log.filter fun e => !e.isHook }
  bridge := { w.bridge with hook? := w.bridge.hook?.map Hook.unused }

/-- The hook may have seen more in one of the worlds; otherwise they are equal. -/
def Shown (w w' : World) : Prop := w'.unseen = w.unseen

/-- What the hook says to events, if it refuses any. -/
def stop? (w : World) : Option Verdict := w.bridge.hook?.bind Hook.verdict?

namespace Shown

variable {w w' w'' : World}

theorem refl (w : World) : w.Shown w := rfl

theorem trans (h : w.Shown w') (h' : w'.Shown w'') : w.Shown w'' := Eq.trans h' h

theorem id (h : w.Shown w') : w'.bridge.id = w.bridge.id := congrArg (·.bridge.id) h

theorem heap (h : w.Shown w') : w'.bridge.heap = w.bridge.heap := congrArg (·.bridge.heap) h

theorem mode (h : w.Shown w') : w'.bridge.mode = w.bridge.mode := congrArg (·.bridge.mode) h

theorem objects (h : w.Shown w') : w'.host.objects = w.host.objects :=
  congrArg (·.host.objects) h

theorem natives (h : w.Shown w') : w'.host.natives = w.host.natives :=
  congrArg (·.host.natives) h

theorem stop? (h : w.Shown w') : w'.stop? = w.stop? := by
  have unused (hook? : Option Hook) :
      (hook?.map Hook.unused).bind Hook.verdict? = hook?.bind Hook.verdict? := by
    cases hook? <;> rfl
  have hooks := congrArg (fun v : World => v.bridge.hook?.bind Hook.verdict?) h
  exact (unused _).symm.trans (hooks.trans (unused _))

theorem withHeap (h : w.Shown w') (g : Heap) : (w.withHeap g).Shown (w'.withHeap g) :=
  congrArg (fun v : World => v.withHeap g) h

end Shown

end World

/-! ### Outcomes -/

/-- With the error `e` a hook of this verdict stops the script at some event. -/
def Verdict.Stops (stop? : Option Verdict) (e : ScriptError) : Prop :=
  ∃ verdict n event, stop? = some verdict ∧ verdict n event = some e

theorem Verdict.not_stops_none {e : ScriptError} : ¬ Stops none e := by
  rintro ⟨_, _, _, h, -⟩
  cases h

namespace Outcome

/-- What comes of an outcome where a hook watches: the same, or the hook stops the script. -/
inductive Observed (stop? : Option Verdict) : Outcome α → Outcome α → Prop
  | ok {a : α} {w w' : World} : w.Shown w' → Observed stop? (.ok a w) (.ok a w')
  | raised {e : Value} {w w' : World} : w.Shown w' → Observed stop? (.raised e w) (.raised e w')
  | exhausted : Observed stop? .exhausted .exhausted
  | stopped {e : ScriptError} {x : Outcome α} {w : World} :
    Verdict.Stops stop? e → Observed stop? x (Act.throw e w)

/-- The world at the end, if there is an end, is as `P` says. -/
def Ends (P : World → Prop) : Outcome α → Prop
  | .ok _ w => P w
  | .raised _ w => P w
  | .exhausted => True

variable {stop? : Option Verdict}

theorem Observed.refl (x : Outcome α) : x.Observed stop? x := by
  cases x with
  | ok a w => exact .ok (.refl w)
  | raised e w => exact .raised (.refl w)
  | exhausted => exact .exhausted

theorem Observed.ok_inv {x : Outcome α} {a : α} {w' : World}
    (h : x.Observed stop? (.ok a w')) : ∃ w, x = .ok a w ∧ w.Shown w' := by
  cases h with
  | ok hw => exact ⟨_, rfl, hw⟩

theorem Observed.raised_inv {x : Outcome α} {e : Value} {w' : World}
    (h : x.Observed stop? (.raised e w')) : (∃ w, x = .raised e w ∧ w.Shown w') ∨
      ∃ refusal w, Verdict.Stops stop? refusal ∧
        Outcome.raised e w' = (Act.throw refusal w : Outcome α) := by
  generalize hy : Outcome.raised e w' = y at h
  cases h with
  | ok => cases hy
  | raised hw =>
    cases hy
    exact .inl ⟨_, rfl, hw⟩
  | exhausted => cases hy
  | stopped hs => exact .inr ⟨_, _, hs, rfl⟩

theorem Observed.exhausted_inv {x : Outcome α} (h : x.Observed stop? .exhausted) :
    x = .exhausted := by
  cases h
  rfl

theorem of_eq_ok {result : Except Value α} {w w' : World} {a : α}
    (h : Outcome.of result w = .ok a w') : result = .ok a ∧ w' = w := by
  cases result with
  | ok b =>
    cases h
    exact ⟨rfl, rfl⟩
  | error e => cases h

theorem of_eq_raised {result : Except Value α} {w w' : World} {e : Value}
    (h : Outcome.of result w = .raised e w') : result = .error e ∧ w' = w := by
  cases result with
  | ok b => cases h
  | error e =>
    cases h
    exact ⟨rfl, rfl⟩

theorem of_ne_exhausted (result : Except Value α) (w : World) :
    Outcome.of result w ≠ .exhausted := by
  intro h
  cases result <;> cases h

end Outcome

theorem Outcome.Observed.map {stop? : Option Verdict} {x y : Act α} {w : World}
    (h : (x w).Observed stop? (y w)) (f : α → β) :
    ((f <$> x) w).Observed stop? ((f <$> y) w) := by
  generalize hx : x w = before at h
  generalize hy : y w = after at h
  cases h with
  | ok hw =>
    rw [map_eq_pure_bind, map_eq_pure_bind, Act.bind_of_ok hx, Act.bind_of_ok hy]
    exact .ok hw
  | raised hw =>
    rw [map_eq_pure_bind, map_eq_pure_bind, Act.bind_of_raised hx, Act.bind_of_raised hy]
    exact .raised hw
  | exhausted =>
    rw [map_eq_pure_bind, map_eq_pure_bind, Act.bind_of_exhausted hx, Act.bind_of_exhausted hy]
    exact .exhausted
  | stopped hs =>
    rw [Act.throw_eq] at hy
    rw [map_eq_pure_bind f y, Act.bind_of_raised hy]
    exact .stopped hs

theorem Outcome.ends_map {P : World → Prop} {f : α → β} {x : Act α} {w : World}
    (h : (x w).Ends P) : ((f <$> x) w).Ends P := by
  show (Act.bind x (pure ∘ f) w).Ends P
  unfold Act.bind
  cases hx : x w with
  | ok a w' =>
    rw [hx] at h
    exact h
  | raised e w' =>
    rw [hx] at h
    exact h
  | exhausted => trivial

theorem Outcome.Ends.weaken {P Q : World → Prop} {x : Outcome α} (h : x.Ends P)
    (hpq : ∀ w, P w → Q w) : x.Ends Q := by
  cases x with
  | ok a w => exact hpq w h
  | raised e w => exact hpq w h
  | exhausted => trivial

namespace Act

theorem Local.shown {x : Act α} (hx : Local x) {w w' : World} (h : w.Shown w') :
    ∃ (result : Except Value α) (g : Heap), x w = .of result (w.withHeap g) ∧
      x w' = .of result (w'.withHeap g) := by
  obtain ⟨result, g, hx⟩ := hx w
  exact ⟨result, g, hx w rfl rfl, hx w' h.id h.heap⟩

/-! ### Calls -/

/-- The hook, which has seen the event, stops the script or lets it go on. -/
def judge (hook : Hook) (e : HookEvent) : Act Unit :=
  match hook.refusal? (hook.seen + 1) e with
  | some refusal => throw refusal
  | none => Pure.pure ()

theorem judge_cases {hook : Hook} (e : HookEvent) {w w' : World} (hw : w.bridge.hook? = some hook)
    (h : w.Shown w') : (judge hook e w' = .ok () w' ∧ w.Shown w') ∨
      ∃ refusal, Verdict.Stops w.stop? refusal ∧
        judge hook e w' = throw refusal w' ∧ w.Shown w' := by
  unfold judge
  cases hr : hook.refusal? (hook.seen + 1) e with
  | none => exact .inl ⟨rfl, h⟩
  | some refusal =>
    obtain ⟨verdict, hv, hs⟩ := Option.bind_eq_some_iff.mp hr
    have stop : w.stop? = some verdict := by simp [World.stop?, hw, hv]
    exact .inr ⟨refusal, ⟨verdict, _, _, stop, hs⟩, rfl, h⟩

/-- The world in which the hook has seen one more event. -/
def showing (hook : Hook) (e : HookEvent) (w : World) : World where
  host := { w.host with log := if hook.quiet then w.host.log else .hook e :: w.host.log }
  bridge :=
    let refusal? := hook.refusal? (hook.seen + 1) e
    { w.bridge with
      hook? := some { hook with seen := hook.seen + 1, refused := refusal?.isSome } }

theorem shown_showing {hook : Hook} {w : World} (hw : w.bridge.hook? = some hook) (e : HookEvent) :
    w.Shown (showing hook e w) := by
  have log : (showing hook e w).host.log.filter (fun e => !e.isHook) =
      w.host.log.filter fun e => !e.isHook := by
    dsimp only [showing]
    split
    · rfl
    · simp [Event.isHook]
  have hooks : w.bridge.hook?.map Hook.unused = some hook.unused := by rw [hw, Option.map_some]
  show (showing hook e w).unseen = w.unseen
  unfold World.unseen
  rw [log, hooks]
  rfl

theorem fire_of_hook {hook : Hook} {e : HookEvent} {w : World} (hw : w.bridge.hook? = some hook)
    (hm : hook.mask.holds e.kind = true) : fire e w = judge hook e (showing hook e w) := by
  unfold fire
  show Act.bind bridge _ w = _
  rw [Act.bind]
  dsimp only [bridge]
  rw [hw]
  dsimp only
  rw [if_pos hm]
  unfold showing
  split <;> rfl

theorem fire_of_no_hook {e : HookEvent} {w : World}
    (hw : ∀ hook, w.bridge.hook? = some hook → hook.mask.holds e.kind = false) :
    fire e w = .ok () w := by
  unfold fire
  show Act.bind bridge _ w = _
  rw [Act.bind]
  dsimp only [bridge]
  cases hh : w.bridge.hook? with
  | none => rfl
  | some hook =>
    have hm : ¬ hook.mask.holds e.kind = true := by simp [hw hook hh]
    dsimp only
    rw [if_neg hm]
    rfl

/-- The hook is told of an event, or there is none that wants it. -/
theorem hooked_or_unseen (e : HookEvent) (w : World) :
    (∃ hook, w.bridge.hook? = some hook ∧ hook.mask.holds e.kind = true) ∨
    ∀ hook, w.bridge.hook? = some hook → hook.mask.holds e.kind = false := by
  by_cases hw : ∃ hook, w.bridge.hook? = some hook ∧ hook.mask.holds e.kind = true
  · exact .inl hw
  · exact .inr fun hook hh => Bool.eq_false_iff.mpr fun hm => hw ⟨hook, hh, hm⟩

/-- A hook lets an event pass, or stops the script there. -/
theorem fire_cases (e : HookEvent) (w : World) :
    (∃ w', fire e w = .ok () w' ∧ w.Shown w') ∨
    ∃ refusal w', Verdict.Stops w.stop? refusal ∧ fire e w = throw refusal w' ∧
      w.Shown w' := by
  rcases hooked_or_unseen e w with ⟨hook, hh, hm⟩ | unseen
  · rw [fire_of_hook hh hm]
    rcases judge_cases e hh (shown_showing hh e) with ⟨hj, h⟩ | ⟨_, hs, hj, h⟩
    · exact .inl ⟨_, hj, h⟩
    · exact .inr ⟨_, _, hs, hj, h⟩
  · exact .inl ⟨w, fire_of_no_hook unseen, .refl w⟩

theorem note_apply (callee? : Option String) (w : World) :
    note callee? w = .ok () (w.calling callee?) := by
  unfold note
  show Act.bind bridge _ w = _
  rw [Act.bind]
  dsimp only [bridge]
  cases hh : w.bridge.hook? with
  | none =>
    rw [World.calling, hh, Option.map_none, World.withHook_self hh]
    rfl
  | some hook =>
    rw [World.calling, hh]
    rfl

/-- Nothing else changes when a hook is told what is being called. -/
theorem note_shown (callee? : Option String) (w : World) :
    ∃ w', note callee? w = .ok () w' ∧ w.Shown w' := by
  refine ⟨_, note_apply callee? w, ?_⟩
  show World.unseen _ = World.unseen w
  unfold World.unseen World.calling World.withHook
  cases w.bridge.hook? <;> rfl

/-- Between two functions, too, a hook lets an event pass or stops the script. -/
theorem cross_cases (e : HookEvent) (w : World) :
    (∃ w', cross e w = .ok () w' ∧ w.Shown w') ∨
    ∃ refusal w', Verdict.Stops w.stop? refusal ∧ cross e w = throw refusal w' ∧ w.Shown w' := by
  obtain ⟨w₁, hn, h₁⟩ := note_shown none w
  have same : cross e w = fire e w₁ := bind_of_ok hn
  rw [same, ← h₁.stop?]
  exact (fire_cases e w₁).imp (fun ⟨w', hf, h⟩ => ⟨w', hf, h₁.trans h⟩)
    fun ⟨refusal, w', hs, hf, h⟩ => ⟨refusal, w', hs, hf, h₁.trans h⟩

/-- What a call of a host function comes to, by what `x` does in it. -/
inductive Framed (x : Act α) (w : World) : Outcome α → Prop
  | before {e : ScriptError} {w₁ : World} : Verdict.Stops w.stop? e → w.Shown w₁ →
    Framed x w (throw e w₁)
  | raised {e : Value} {w₁ w₂ : World} : w.Shown w₁ → x w₁ = .raised e w₂ →
    Framed x w (.raised e w₂)
  | exhausted {w₁ : World} : w.Shown w₁ → x w₁ = .exhausted → Framed x w .exhausted
  | ok {a : α} {w₁ w₂ w₃ : World} : w.Shown w₁ → x w₁ = .ok a w₂ → w₂.Shown w₃ →
    Framed x w (.ok a w₃)
  | after {e : ScriptError} {a : α} {w₁ w₂ w₃ : World} : w.Shown w₁ → x w₁ = .ok a w₂ →
    Verdict.Stops w₂.stop? e → w₂.Shown w₃ → Framed x w (throw e w₃)

theorem framed_outside (name : Option String) (x : Act α) (w : World) :
    Framed x w (outside name x w) := by
  unfold outside
  rcases cross_cases ⟨.call, none, some hostSource, name⟩ w with
    ⟨w₁, hf, h₁⟩ | ⟨_, w₁, hs, hf, h₁⟩
  · rw [bind_of_ok hf]
    cases hx : x w₁ with
    | exhausted =>
      rw [bind_of_exhausted hx]
      exact .exhausted h₁ hx
    | raised e w₂ =>
      rw [bind_of_raised hx]
      exact .raised h₁ hx
    | ok a w₂ =>
      rw [bind_of_ok hx]
      rcases cross_cases ⟨.ret, none, some hostSource, none⟩ w₂ with
        ⟨w₃, hg, h₃⟩ | ⟨_, w₃, hs, hg, h₃⟩
      · rw [bind_of_ok hg]
        exact .ok h₁ hx h₃
      · rw [throw_eq] at hg
        rw [bind_of_raised hg]
        exact .after h₁ hx hs h₃
  · rw [throw_eq] at hf
    rw [bind_of_raised hf]
    exact .before hs h₁

/-- Only what is done in the worlds that a hook can lead to matters. -/
theorem outside_congr {x y : Act α} {w : World} (name : Option String)
    (hxy : ∀ w₁, w.Shown w₁ → x w₁ = y w₁) : outside name x w = outside name y w := by
  unfold outside
  rcases cross_cases ⟨.call, none, some hostSource, name⟩ w with
    ⟨w₁, hf, h₁⟩ | ⟨_, w₁, hs, hf, h₁⟩
  · rw [bind_of_ok hf, bind_of_ok hf]
    show Act.bind x _ w₁ = Act.bind y _ w₁
    rw [Act.bind, Act.bind, hxy w₁ h₁]
  · rw [throw_eq] at hf
    rw [bind_of_raised hf, bind_of_raised hf]

/-- Where no hook stops the script, a call is over when what is done in it is. -/
theorem outside_ok {x : Act α} {w : World} (hn : w.stop? = none)
    (hx : ∀ w₁, w.Shown w₁ → ∃ a w₂, x w₁ = .ok a w₂ ∧ w₂.stop? = w₁.stop?)
    (name : Option String) : ∃ a w', outside name x w = .ok a w' := by
  have framed := framed_outside name x w
  generalize outside name x w = result at framed ⊢
  cases framed with
  | before hs _ =>
    rw [hn] at hs
    exact absurd hs Verdict.not_stops_none
  | raised h₁ hx₁ =>
    obtain ⟨a, w₂, hx₂, -⟩ := hx _ h₁
    rw [hx₁] at hx₂
    cases hx₂
  | exhausted h₁ hx₁ =>
    obtain ⟨a, w₂, hx₂, -⟩ := hx _ h₁
    rw [hx₁] at hx₂
    cases hx₂
  | ok => exact ⟨_, _, rfl⟩
  | after h₁ hx₁ hs _ =>
    obtain ⟨a, w₂, hx₂, stop⟩ := hx _ h₁
    rw [hx₁] at hx₂
    cases hx₂
    rw [stop, h₁.stop?, hn] at hs
    exact absurd hs Verdict.not_stops_none

/-- A call ends in a world as `P` says, if hooks do no harm to `P`. -/
theorem outside_ends {P : World → Prop} (shown : ∀ {w w'}, w.Shown w' → P w → P w')
    (fault : ∀ w e, P w → P (w.withHeap (w.bridge.heap.newFault e).2)) {x : Act α}
    (hx : ∀ w, P w → (x w).Ends P) {w : World} (hw : P w) (name : Option String) :
    (outside name x w).Ends P := by
  have framed := framed_outside name x w
  generalize outside name x w = result at framed ⊢
  cases framed with
  | @before e w₁ _ h₁ => exact fault w₁ (e.withTraceback traceback) (shown h₁ hw)
  | raised h₁ hx₁ =>
    have inside := hx _ (shown h₁ hw)
    rwa [hx₁] at inside
  | exhausted => trivial
  | ok h₁ hx₁ h₃ =>
    have inside := hx _ (shown h₁ hw)
    rw [hx₁] at inside
    exact shown h₃ inside
  | @after e a w₁ w₂ w₃ h₁ hx₁ _ h₃ =>
    have inside := hx _ (shown h₁ hw)
    rw [hx₁] at inside
    exact fault w₃ (e.withTraceback traceback) (shown h₃ inside)

/-- A call in which a local action is observed is itself that action, observed. -/
theorem observed_outside {x y : Act α} (hx : Local x) {w : World} (name : Option String)
    (hy : ∀ w₁, w.Shown w₁ → (x w₁).Observed w₁.stop? (y w₁)) :
    (x w).Observed w.stop? (outside name y w) := by
  have framed := framed_outside name y w
  generalize outside name y w = result at framed ⊢
  have inside {w₁ : World} (h₁ : w.Shown w₁) :
      ∃ (result : Except Value α) (g : Heap), x w = .of result (w.withHeap g) ∧
        (Outcome.of result (w₁.withHeap g)).Observed w.stop? (y w₁) := by
    obtain ⟨result, g, hw, hw₁⟩ := hx.shown h₁
    have observed := hy w₁ h₁
    rw [hw₁, h₁.stop?] at observed
    exact ⟨result, g, hw, observed⟩
  -- A hook may stop the call before it or after it. In between it is the action itself.
  cases framed with
  | before hs _ => exact .stopped hs
  | @raised e w₁ w₂ h₁ hy₁ =>
    obtain ⟨result, g, hw, observed⟩ := inside h₁
    rw [hy₁] at observed
    rcases observed.raised_inv with ⟨w', hr, h₂⟩ | ⟨_, w', hs, he⟩
    · obtain ⟨rfl, rfl⟩ := Outcome.of_eq_raised hr
      rw [hw]
      exact .raised ((h₁.withHeap g).trans h₂)
    · rw [he]
      exact .stopped hs
  | @exhausted w₁ h₁ hy₁ =>
    obtain ⟨result, g, hw, observed⟩ := inside h₁
    rw [hy₁] at observed
    exact absurd observed.exhausted_inv (Outcome.of_ne_exhausted _ _)
  | @ok a w₁ w₂ w₃ h₁ hy₁ h₃ =>
    obtain ⟨result, g, hw, observed⟩ := inside h₁
    rw [hy₁] at observed
    obtain ⟨w', hr, h₂⟩ := observed.ok_inv
    obtain ⟨rfl, rfl⟩ := Outcome.of_eq_ok hr
    rw [hw]
    exact .ok (((h₁.withHeap g).trans h₂).trans h₃)
  | @after e a w₁ w₂ w₃ h₁ hy₁ hs h₃ =>
    obtain ⟨result, g, hw, observed⟩ := inside h₁
    rw [hy₁] at observed
    obtain ⟨w', hr, h₂⟩ := observed.ok_inv
    obtain ⟨rfl, rfl⟩ := Outcome.of_eq_ok hr
    have stop : w₂.stop? = w.stop? := h₂.stop?.trans h₁.stop?
    exact .stopped (stop ▸ hs)

/-! ### Errors on their way to the host -/

theorem map_congr (f : α → β) {x y : Act α} {w : World} (h : x w = y w) :
    (f <$> x) w = (f <$> y) w :=
  bind_congr_left h

theorem map_outside (f : α → β) (name : Option String) (x : Act α) :
    f <$> outside name x = outside name (f <$> x) := by
  simp only [outside, map_eq_pure_bind, bind_assoc, pure_bind]

theorem handling_apply (x : Act α) (w : World) : handling x w =
    (match w.bridge.hook? with
    | none => x
    | some hook => if hook.refused then (do note none; x) else outside hook.callee? x : Act α) w :=
  rfl

theorem handling_congr {x y : Act α} {w : World} (hxy : ∀ w₁, w.Shown w₁ → x w₁ = y w₁) :
    handling x w = handling y w := by
  rw [handling_apply, handling_apply]
  cases w.bridge.hook? with
  | none => exact hxy w (.refl w)
  | some hook =>
    dsimp only
    split
    · obtain ⟨w₁, hn, h₁⟩ := note_shown none w
      rw [bind_of_ok hn, bind_of_ok hn]
      exact hxy w₁ h₁
    · exact outside_congr _ hxy

theorem map_handling (f : α → β) (x : Act α) : f <$> handling x = handling (f <$> x) := by
  funext w
  rw [handling_apply, map_congr f (handling_apply x w)]
  cases w.bridge.hook? with
  | none => rfl
  | some hook =>
    dsimp only
    split
    · simp only [map_eq_pure_bind, bind_assoc]
    · rw [map_outside]

/-- Hooks do not change what an error is made into, if they do not refuse it. -/
theorem handling_of_shown {x : Act α} {a : α} {w w₁ : World}
    (hw : handling (pure ()) w = .ok () w₁) (hx : ∀ w', w.Shown w' → x w' = .ok a w') :
    handling x w = .ok a w₁ := by
  have same : handling x w = handling ((fun _ => a) <$> pure ()) w := handling_congr hx
  rw [same, ← map_handling]
  exact map_of_ok hw _

end Act

end ScriptHost
