import ScriptHost.Machine.Nesting
import ScriptHost.Proofs.Machine.Local

/-! What an action comes to on its way, so that nothing catches an error from there but to raise
it again. Whatever is raised there is then the error of the whole. -/

namespace ScriptHost

variable {α β : Type}

namespace Outcome

/-- The error, where the outcome is one. -/
def error? : Outcome α → Option Value
  | raised e _ => some e
  | _ => none

theorem error?_eq_some {x : Outcome α} {e : Value} : x.error? = some e ↔ ∃ w, x = .raised e w := by
  cases x <;> simp [error?]

end Outcome

namespace Act

/-- Run in some world, the action comes to run another one in another world. Errors of that one
are not caught, or they are caught by a protected call and raised again. -/
inductive Reaches : {α β : Type} → Act α → World → Act β → World → Prop
  | here {α : Type} (x : Act α) (w : World) : Reaches x w x w
  | same {α β : Type} {x x' : Act α} {y : Act β} {w w₁ w' : World} :
    x w = x' w₁ → Reaches x' w₁ y w' → Reaches x w y w'
  | first {α β γ : Type} {x : Act γ} (f : γ → Act α) {y : Act β} {w w' : World} :
    Reaches x w y w' → Reaches (x >>= f) w y w'
  | next {α β γ : Type} {x : Act γ} {f : γ → Act α} {a : γ} {y : Act β} {w w₁ w' : World} :
    x w = .ok a w₁ → Reaches (f a) w₁ y w' → Reaches (x >>= f) w y w'
  /-- A running function comes to its next instruction. -/
  | step {β : Type} {beyond : Site → Reentry} (n : Nat) {a : Activation} {callers : List Activation}
      {y : Act β} {w w' : World} :
    Reaches (ScriptHost.step beyond a callers) w y w' →
      Reaches (execute beyond (n + 1) a callers) w y w'
  | later {β : Type} {beyond : Site → Reentry} {n : Nat} {a a' : Activation}
      {callers callers' : List Activation} {y : Act β} {w w₁ w' : World} :
    ScriptHost.step beyond a callers w = .ok (.running a' callers') w₁ →
      Reaches (execute beyond n a' callers') w₁ y w' →
      Reaches (execute beyond (n + 1) a callers) w y w'
  /-- What a protected call has caught is raised again. -/
  | again {α β : Type} {x : Act α} {r : Reentry} {f v : Value} {args : List Value} {y : Act β}
      {w w₁ w' : World} :
    Reaches x w (r.protectedCall f args) w₁ → Reaches (r.apply r.site f args) w₁ y w' →
      (r.apply r.site f args w₁).error? = some v → (x w).error? = some v → Reaches x w y w'

namespace Reaches

variable {x : Act α} {y : Act β} {w w' : World}

theorem raises (h : Reaches x w y w') {v : Value} {w₁ : World} (hy : y w' = .raised v w₁) :
    ∃ w₂, x w = .raised v w₂ := by
  -- Each layer lets the error through, or catches it and raises it again.
  induction h with
  | here x w => exact ⟨w₁, hy⟩
  | same hx _ ih =>
    obtain ⟨w₂, h⟩ := ih hy
    exact ⟨w₂, hx.trans h⟩
  | first f _ ih =>
    obtain ⟨w₂, h⟩ := ih hy
    exact ⟨w₂, bind_of_raised h⟩
  | next hx _ ih =>
    obtain ⟨w₂, h⟩ := ih hy
    exact ⟨w₂, (bind_of_ok hx).trans h⟩
  | step n _ ih =>
    obtain ⟨w₂, h⟩ := ih hy
    refine ⟨w₂, ?_⟩
    rw [execute, h]
  | later hs _ ih =>
    obtain ⟨w₂, h⟩ := ih hy
    refine ⟨w₂, ?_⟩
    rw [execute, hs]
    exact h
  | again _ _ hf hx _ ih =>
    obtain ⟨w₂, h⟩ := ih hy
    rw [h] at hf
    cases hf
    exact Outcome.error?_eq_some.mp hx

/-! ### Calls -/

variable {r : Reentry} {w₁ w₂ : World}

theorem call {f : Value} {args : List Value} (h : Reaches (r.apply r.site f args) w y w') :
    Reaches (r.call f args) w y w' := .first _ h

/-- A call of a function that is not written in the script. -/
theorem outside {run : Reentry → Act α}
    (hf : cross ⟨.call, none, some hostSource, r.site.callee?.map Origin.name⟩ w = .ok () w₁)
    (h : Reaches (run r.inside) w₁ y w') : Reaches (r.outside run) w y w' :=
  .next hf (.first _ h)

section Apply

variable {beyond : Site → Reentry} {site : Site} {f : Value} {args passed : List Value}
  {y : Act β}

theorem applyScript {p : Prototype} {captured : List Value} {chunk : String} {a : Activation}
    (ht : (beyond site).target f args w = .ok (.script p captured chunk, passed) w₁)
    (he : (beyond site).enter p captured chunk passed 1 w₁ = .ok a w₂)
    (h : Reaches (execute beyond Reentry.stepLimit a []) w₂ y w') :
    Reaches (Reentry.applyValue beyond site f args) w y w' := .next ht (.next he h)

theorem applyOutside {g : Function}
    (ht : (beyond site).target f args w = .ok (.outside g, passed) w₁)
    (h : Reaches ((beyond site).outside fun r => r.runOutside g passed) w₁ y w') :
    Reaches (Reentry.applyValue beyond site f args) w y w' := .next ht h

end Apply

section Step

variable {beyond : Site → Reentry} {a a' : Activation} {callers : List Activation}
  {passed : List Value} {n wanted : Nat} {callee? : Option Origin} {y : Act β}

theorem perform {i : Instr} (hi : a.code[a.next]? = some i) (hr : a.reach i w = .ok a' w₁)
    (h : Reaches (a'.perform beyond callers i.op) w₁ y w') :
    Reaches (ScriptHost.step beyond a callers) w y w' := by
  have fetched : ScriptHost.step beyond a callers w =
      (a.reach i >>= fun a => a.perform beyond callers i.op) w := by
    show Activation.advance beyond a callers w = _
    rw [Activation.advance, hi]
  exact .same fetched (.next hr h)

theorem callOutside {g : Function}
    (ht : (beyond ((a.pop (n + 1)).site callee?)).target (a.peek n) (a.top n) w =
      .ok (.outside g, passed) w₁)
    (h : Reaches ((beyond ((a.pop (n + 1)).site callee?)).outside fun r => r.runOutside g passed)
      w₁ y w') :
    Reaches (a.call beyond callers n wanted callee?) w y w' := .next ht (.first _ h)

theorem callBox {v : Value} {x : Variant}
    (ht : (beyond ((a.pop (n + 1)).site callee?)).target (a.peek n) (a.top n) w =
      .ok (.box v x, passed) w₁)
    (h : Reaches ((beyond ((a.pop (n + 1)).site callee?)).outside fun r => r.runBox v x passed)
      w₁ y w') :
    Reaches (a.call beyond callers n wanted callee?) w y w' := .next ht (.first _ h)

end Step

end Reaches

end Act

end ScriptHost
